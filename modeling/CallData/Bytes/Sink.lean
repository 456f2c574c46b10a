import CallData.Bytes

/-!
# Writing bytes to a sink

An encoder is a `Put`: a step that writes to a sink and answers how many bytes it wrote. A sink
is anything on which byte strings act in order; the two sinks here are a byte string that grows
at its end and a counter that keeps the total alone.
-/

namespace CallData

/-- A destination for bytes: taking two blocks in turn is taking them joined. -/
class Sink (σ : Type) where
  /-- Takes a block of bytes after all that it took before. -/
  push : σ → Bytes → σ
  /-- An empty block leaves no trace. -/
  push_nil : ∀ s, push s [] = s
  /-- Block boundaries leave no trace. -/
  push_append : ∀ s a b, push (push s a) b = push s (a ++ b)

/-- A byte string grows at its end. -/
instance : Sink Bytes where
  push := List.append
  push_nil := List.append_nil
  push_append := List.append_assoc

/-- A sink that keeps nothing of the bytes but their number. -/
structure ByteCount where
  total : Nat
deriving Repr, DecidableEq

/-- A counter adds the length of each block. -/
instance : Sink ByteCount where
  push s bs := ⟨s.total + bs.length⟩
  push_nil _ := rfl
  push_append s a b := by simp [Nat.add_assoc]

/-- A step that writes to a sink and answers the number of bytes written. -/
structure Put (σ : Type) where
  run : σ → σ × Nat

namespace Put

variable {σ : Type}

/-- Writes nothing. -/
def nothing : Put σ :=
  ⟨fun s => (s, 0)⟩

/-- Writes one step and then the other, and adds up their counts. -/
protected def append (p q : Put σ) : Put σ :=
  ⟨fun s =>
    let (s, m) := p.run s
    let (s, n) := q.run s
    (s, m + n)⟩

instance : Append (Put σ) := ⟨Put.append⟩

variable [Sink σ]

/-- Writes a block of bytes. -/
def block (bs : Bytes) : Put σ :=
  ⟨fun s => (Sink.push s bs, bs.length)⟩

/-- Writes one octet. -/
def octet (b : UInt8) : Put σ :=
  block [b]

/-- Writes a count as four big-endian octets, dropping what does not fit them. -/
def count (n : Nat) : Put σ :=
  block (Bytes.ofNat 4 n)

/-- Writes a block behind its length. -/
def framed (bs : Bytes) : Put σ :=
  count bs.length ++ block bs

/-- What a step writes to an empty byte string. -/
def bytes (p : Put Bytes) : Bytes :=
  (p.run []).1

/-- The number of bytes that a step writes, found without keeping them. -/
def size (p : Put ByteCount) : Nat :=
  (p.run ⟨0⟩).2

end Put

end CallData
