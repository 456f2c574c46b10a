import CallData.Text.Unprintable

/-!
# Quoted text

A text in double quotes, in which every character can be told from its neighbours: quote and
backslash are escaped, the four commonest control characters have escapes of their own, and
whatever would not show by itself is named by its code point in braces.
-/

namespace CallData

namespace Text

/-- The spelling of a character inside double quotes. -/
def quotedChar (c : Char) : List Char :=
  if c = '\x00' then ['\x5c', '0']
  else if c = '\t' then ['\x5c', 't']
  else if c = '\r' then ['\x5c', 'r']
  else if c = '\n' then ['\x5c', 'n']
  else if c = '\x22' then ['\x5c', '\x22']
  else if c = '\x5c' then ['\x5c', '\x5c']
  else if isUnprintable c then ['\x5c', 'u', '\x7b'] ++ Nat.toDigits 16 c.toNat ++ ['\x7d']
  else [c]

/-- A text in double quotes. -/
def quoted (s : String) : String :=
  String.ofList ('\x22' :: s.toList.flatMap quotedChar ++ ['\x22'])

end Text

end CallData
