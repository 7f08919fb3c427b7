/-!
Cutting a text at a separator: at every one, at the first one or at the last one. The separator
itself belongs to no piece.
-/

namespace PeerWatch.Text

/-- The pieces between the separators; a text without a separator is one piece. -/
def pieces (sep : Char) : List Char → List (List Char)
  | [] => [[]]
  | c :: s =>
    if c = sep then [] :: pieces sep s
    else match pieces sep s with
      | [] => [[c]]
      | p :: ps => (c :: p) :: ps

def cutFirst (sep : Char) : List Char → Option (List Char × List Char)
  | [] => none
  | c :: s =>
    if c = sep then some ([], s)
    else (cutFirst sep s).map fun (p, q) => (c :: p, q)

def cutLast (sep : Char) : List Char → Option (List Char × List Char)
  | [] => none
  | c :: s =>
    match cutLast sep s with
    | some (p, q) => some (c :: p, q)
    | none => if c = sep then some ([], s) else none

def join (sep : List Char) : List (List Char) → List Char
  | [] => []
  | [p] => p
  | p :: ps => p ++ sep ++ join sep ps

end PeerWatch.Text
