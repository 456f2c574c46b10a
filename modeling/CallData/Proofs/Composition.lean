import CallData.Bytes.Cursor

/-!
# What readers are made of

Readers are chains of steps that take some bytes, or fail for another reason than that bytes are
missing. A property of readers that such steps have, and that passes through chains
(`ByteReader.Compositional`), therefore belongs to all readers that are made of them.
-/

namespace CallData

namespace ByteReader

/-- A property of readers that every step has which takes bytes, and that passes through chains. -/
structure Compositional (P : {α : Type} → ByteReader α → Prop) : Prop where
  take (n : Nat) : P (take n)
  pure {α : Type} (a : α) : P (pure a)
  throw {α : Type} {e : CodecError} (h : e.kind ≠ .unexpectedEnd) : P (throw e : ByteReader α)
  bind {α β : Type} {r : ByteReader α} {f : α → ByteReader β} (h : P r) (h' : ∀ a, P (f a)) :
    P (r >>= f)
  insideM {α : Type} {r : ByteReader α} (h : P r) (l : Locator) : P (insideM l r)

variable {P : {α : Type} → ByteReader α → Prop} (hP : Compositional P) {α β : Type}
include hP

/-! ### Chains -/

/-- What is made of an answer reads nothing. -/
theorem Compositional.map {r : ByteReader α} (h : P r) (f : α → β) :
    P (r >>= fun x => Pure.pure (f x)) :=
  hP.bind h fun a => hP.pure (f a)

/-- A check in front of a reader may fail for any other reason than that bytes are missing. -/
theorem Compositional.lift_bind {r : Except CodecError α} {f : α → ByteReader β}
    (herror : ∀ e, r = .error e → e.kind ≠ .unexpectedEnd) (hok : ∀ a, r = .ok a → P (f a)) :
    P (lift r >>= f) := by
  cases r with
  | ok a => exact hok a rfl
  | error e => exact hP.throw (herror e rfl)

/-- A check on its own, which fails for another reason than that bytes are missing. -/
theorem Compositional.lift {r : Except CodecError α}
    (herror : ∀ e, r = .error e → e.kind ≠ .unexpectedEnd) : P (CallData.lift r) := by
  cases r with
  | ok a => exact hP.pure a
  | error e => exact hP.throw (herror e rfl)

/-! ### Pieces of a byte string -/

theorem Compositional.octet : P ByteReader.octet :=
  hP.map (hP.take 1) fun bs => bs.headD 0

theorem Compositional.count : P ByteReader.count :=
  hP.map (hP.take 4) Bytes.toNat

/-- A frame is a count, and as many bytes taken as it says. -/
theorem Compositional.framed : P ByteReader.framed :=
  hP.bind hP.count hP.take

theorem Compositional.bool : P ByteReader.bool := by
  refine hP.bind hP.octet fun b => ?_
  split
  · exact hP.pure false
  · exact hP.pure true
  · exact hP.throw nofun

/-- Octets that are no UTF-8 are refused when all of them are there. -/
theorem Compositional.text : P ByteReader.text := by
  refine hP.bind hP.framed fun bs => ?_
  split
  · exact hP.pure _
  · exact hP.throw nofun

/-- Items in turn have what one has, however many the bytes in front of them ask for. -/
theorem Compositional.replicateFrom {item : ByteReader α} (h : P item) (n i : Nat) :
    P (replicateFrom item n i) := by
  induction n generalizing i with
  | zero => exact hP.pure []
  | succ n ih => exact hP.bind (hP.insideM h (.index i)) fun a => hP.map (ih (i + 1)) (a :: ·)

end ByteReader

end CallData
