/-!
# Cutting a text at a separator

`pieces sep t` are the stretches of `t` between the occurrences of `sep`, found from the left and
without overlap; `join sep ps` puts a separator between neighbours. An empty separator occurs in
front of every character and at the end.
-/

namespace CallData

namespace Text

/-- Puts a character in front of the first piece. -/
def extendFirst (c : Char) : List (List Char) → List (List Char)
  | [] => [[c]]
  | p :: ps => (c :: p) :: ps

/-- The pieces of a text once `skip` characters of it are passed over, which belong to a
separator already found. -/
def piecesAfter (sep : List Char) : (skip : Nat) → List Char → List (List Char)
  | _, [] => [[]]
  | skip + 1, _ :: rest => piecesAfter sep skip rest
  | 0, c :: rest =>
    if sep.isPrefixOf (c :: rest) then [] :: piecesAfter sep (sep.length - 1) rest
    else extendFirst c (piecesAfter sep 0 rest)

/-- The stretches of a text between successive occurrences of a separator. -/
def pieces (sep text : List Char) : List (List Char) :=
  if sep.isEmpty then [] :: (text.map fun c => [c]) ++ [[]]
  else piecesAfter sep 0 text

/-- Pieces with a separator between each two neighbours. -/
def join (sep : List Char) (ps : List (List Char)) : List Char :=
  List.intercalate sep ps

end Text

end CallData
