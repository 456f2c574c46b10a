/-!
# Decimal numerals

Runs of digits, and the integers written with them. An integer may carry one sign, must start
with a digit behind it, and may be broken up by underscores from there on.
-/

namespace CallData

namespace Text

/-- The digits of a number, without superfluous zeros in front. -/
def digits (n : Nat) : List Char :=
  Nat.toDigits 10 n

/-- The number that a run of digits spells; the empty run spells zero. -/
def digitsValue (cs : List Char) : Nat :=
  Nat.ofDigitChars 10 cs 0

/-- The number written by digits that underscores may break up, though not in front. -/
def natural? (cs : List Char) : Option Nat :=
  match cs with
  | [] => none
  | c :: rest =>
    if c.isDigit && rest.all (fun d => d.isDigit || d == '_') then
      some (digitsValue (c :: rest.filter Char.isDigit))
    else none

/-- The integer that a text writes, the whole of it. -/
def integer? (cs : List Char) : Option Int :=
  match cs with
  | '-' :: rest => (natural? rest).map fun n => -n
  | '+' :: rest => (natural? rest).map fun n => n
  | rest => (natural? rest).map fun n => n

end Text

end CallData
