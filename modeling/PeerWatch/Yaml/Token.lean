import PeerWatch.Yaml.Name

/-!
The tokens of YAML text. What stands before a colon is known to be a key only at the colon, so the
place where a key may have begun is remembered and the key's token is put in there. Indentation
opens and closes block collections, outside brackets only. Anchors are numbered: a name that is
given again gets the number that the next new name gets too, if there is one.
-/

namespace PeerWatch.Yaml

inductive Token
  | directive | documentStart | documentEnd
  | blockSequence | blockMapping | blockEnd
  | openSequence | closeSequence | openMapping | closeMapping
  | entry | separator | key | value
  | anchor (id : Nat) | reference (id : Nat) | tag (name : Tag)
  | scalar (style : Style) (text : String)
  deriving DecidableEq

/-- A place where a key may have begun: its column, its line, and how many bytes and tokens come
before it. A required key is one that the block it stands in needs. -/
structure KeyPlace where
  required : Bool
  tokens : Nat
  line : Nat
  col : Nat
  index : Nat

/-- A scan under way. `blocks` holds the columns of the open block collections, innermost first;
`here` is the place where a key may have begun at the present bracket level and `outer` those of
the levels around it; `keyAllowed` says whether a key may begin next. `versioned`, `handles` and
`anchors` keep what the directives and the anchors have said. -/
structure Scan where
  cursor : Cursor
  tokens : Array Token := #[]
  blocks : List Nat := []
  here : Option KeyPlace := none
  outer : List (Option KeyPlace) := []
  keyAllowed : Bool := true
  versioned : Bool := false
  handles : Handles := []
  anchors : List (String × Nat) := []

namespace Scan

def inFlow (s : Scan) : Bool := !s.outer.isEmpty

/-- The least column of text that belongs to the innermost block. -/
def indent (s : Scan) : Nat :=
  match s.blocks with
  | [] => 0
  | n :: _ => n + 1

def push (s : Scan) (t : Token) : Scan := { s with tokens := s.tokens.push t }

/-- Forgets the place where a key may have begun, unless a key is required there. -/
def dropKey (s : Scan) : Option Scan :=
  match s.here with
  | some k => if k.required then none else some { s with here := none }
  | none => some s

def saveKey (s : Scan) : Option Scan :=
  if s.keyAllowed then do
    let s ← s.dropKey
    let required := !s.inFlow && s.blocks.head? == some s.cursor.col
    return { s with here := some ⟨required, s.tokens.size, s.cursor.line, s.cursor.col,
      s.cursor.index⟩ }
  else some s

/-- A key stands on one line and has at most 1024 bytes. -/
def keepKey (c : Cursor) : Option KeyPlace → Option (Option KeyPlace)
  | some k =>
    if k.line < c.line ∨ k.index + 1024 < c.index then
      if k.required then none else some none
    else some (some k)
  | none => some none

def dropStale (s : Scan) : Option Scan := do
  let here ← keepKey s.cursor s.here
  let outer ← s.outer.mapM (keepKey s.cursor)
  return { s with here := here, outer := outer }

/-- Opens a block collection whose first token goes before the token numbered `place`, if the
column lies further right than the innermost block. -/
def openBlock (s : Scan) (col place : Nat) (t : Token) : Scan :=
  if s.inFlow || col < s.indent then s
  else { s with blocks := col :: s.blocks, tokens := s.tokens.insertIdxIfInBounds place t }

def closeBlocks (s : Scan) (p : Nat → Bool) : Scan :=
  if s.inFlow then s
  else
    let closed := (s.blocks.takeWhile p).length
    { s with blocks := s.blocks.drop closed,
             tokens := s.tokens ++ Array.replicate closed .blockEnd }

/-- Passes over spaces, comments, line ends, and a byte order mark that starts a line. Outside
brackets a tab does not count as space where a key may begin, and a key may begin on a new line. -/
def toNext (s : Scan) : Nat → Scan
  | 0 => s
  | fuel + 1 =>
    let c := s.cursor
    let c := if c.col = 0 && c.sees '\ufeff' then c.next else c
    let c := c.skipWhile fun ch => ch == ' ' || ((s.inFlow || !s.keyAllowed) && ch == '\t')
    let c := if c.sees '#' then c.skipLine else c
    if (c.at? 0).any isBreak then
      toNext { s with cursor := c.next, keyAllowed := !s.inFlow || s.keyAllowed } fuel
    else { s with cursor := c }

def take (s : Scan) (n : Nat) (t : Token) : Scan :=
  { s.push t with cursor := s.cursor.advance n }

def closeAll (s : Scan) : Option Scan := do
  let s ← (s.closeBlocks fun _ => true).dropKey
  return { s with keyAllowed := false }

/-- Reads a directive. The version may be given once, and so may what a handle stands for. -/
def directive (s : Scan) : Option Scan := do
  let s ← s.closeAll
  let (d, c) ← s.cursor.directive?
  let s := { s.push .directive with cursor := c }
  match d with
  | .version => if s.versioned then none else return { s with versioned := true }
  | .handle name tag =>
    if (s.handles.lookup name).isSome then none
    else return { s with handles := (name, tag) :: s.handles }

def anchor (s : Scan) : Option Scan := do
  let s ← s.saveKey
  let (name, c) ← s.cursor.anchor?
  let id := s.anchors.length
  let others := s.anchors.filter (·.1 ≠ name)
  return { s.push (.anchor id) with
    cursor := c, keyAllowed := false, anchors := (name, id) :: others }

def reference (s : Scan) : Option Scan := do
  let s ← s.saveKey
  let (name, c) ← s.cursor.anchor?
  return { s.push (.reference (← s.anchors.lookup name)) with cursor := c, keyAllowed := false }

def tag (s : Scan) : Option Scan := do
  let s ← s.saveKey
  let (tag, c) ← s.cursor.tag? (s.handles ++ Handles.standard) s.inFlow
  return { s.push (.tag tag) with cursor := c, keyAllowed := false }

def openFlow (s : Scan) (t : Token) : Option Scan := do
  let s ← s.saveKey
  return { s.take 1 t with here := none, outer := s.here :: s.outer, keyAllowed := true }

def closeFlow (s : Scan) (t : Token) : Option Scan := do
  let s ← s.dropKey
  let s := { s.take 1 t with keyAllowed := false }
  return match s.outer with
  | [] => s
  | k :: outer => { s with here := k, outer := outer }

def separator (s : Scan) : Option Scan := do
  let s ← s.dropKey
  return { s.take 1 .separator with keyAllowed := true }

def blockMark (s : Scan) (opener t : Token) : Option Scan := do
  if !s.inFlow && !s.keyAllowed then none
  let s ← (s.openBlock s.cursor.col s.tokens.size opener).dropKey
  return { s.take 1 t with keyAllowed := !s.inFlow || t == .entry }

def value (s : Scan) : Option Scan := do
  match s.here with
  | some k =>
    let s := { s with tokens := s.tokens.insertIdxIfInBounds k.tokens .key, here := none }
    return { (s.openBlock k.col k.tokens .blockMapping).take 1 .value with keyAllowed := false }
  | none =>
    if !s.inFlow && !s.keyAllowed then none
    let s := s.openBlock s.cursor.col s.tokens.size .blockMapping
    return { s.take 1 .value with keyAllowed := !s.inFlow }

def blockScalar (s : Scan) (literal : Bool) : Option Scan := do
  let s ← s.dropKey
  let (text, c) ← block literal s.blocks.head? s.cursor
  let style := if literal then Style.literal else .other
  return { s.push (.scalar style (String.ofList text)) with cursor := c, keyAllowed := true }

def quotedScalar (s : Scan) (quote : Char) : Option Scan := do
  let s ← s.saveKey
  let (text, c) ← quoted quote s.cursor
  return { s.push (.scalar .other (String.ofList text)) with cursor := c, keyAllowed := false }

/-- Reads a plain scalar. A key may begin on the line after it. -/
def plainScalar (s : Scan) : Option Scan := do
  let s ← s.saveKey
  let (text, broken, c) ← plain s.inFlow s.indent s.cursor
  return { s.push (.scalar .plain (String.ofList text)) with cursor := c, keyAllowed := broken }

def indicators : List Char := "-?:,[]{}#&*!|>'\"%@`".toList

def atPlain (s : Scan) (ch : Char) : Bool :=
  !(isGap ch || isBreak ch || ch ∈ indicators) ||
    (ch == '-' && !(s.cursor.at? 1).any isGap) ||
    (!s.inFlow && (ch == '?' || ch == ':') && !s.cursor.blankAt 1)

def token (s : Scan) (ch : Char) : Option Scan :=
  let c := s.cursor
  if c.col == 0 && ch == '%' then s.directive
  else if c.atMarker then do
    let s ← s.closeAll
    return s.take 3 (if ch == '-' then .documentStart else .documentEnd)
  else match ch with
    | '[' => s.openFlow .openSequence
    | '{' => s.openFlow .openMapping
    | ']' => s.closeFlow .closeSequence
    | '}' => s.closeFlow .closeMapping
    | ',' => s.separator
    | _ =>
      if ch == '-' && c.blankAt 1 then s.blockMark .blockSequence .entry
      else if ch == '?' && (s.inFlow || c.blankAt 1) then s.blockMark .blockMapping .key
      else if ch == ':' && (s.inFlow || c.blankAt 1) then s.value
      else if ch == '&' then s.anchor
      else if ch == '*' then s.reference
      else if ch == '!' then s.tag
      else if ch == '|' && !s.inFlow then s.blockScalar true
      else if ch == '>' && !s.inFlow then s.blockScalar false
      else if ch == '\'' || ch == '"' then s.quotedScalar ch
      else if s.atPlain ch then s.plainScalar
      else none

def run : Nat → Scan → Option (List Token)
  | 0, _ => none
  | fuel + 1, s => do
    let s ← (s.toNext (s.cursor.left + 1)).dropStale
    let s := s.closeBlocks fun n => s.cursor.col < n
    match s.cursor.at? 0 with
    | some ch => run fuel (← s.token ch)
    | none => return (← s.closeAll).tokens.toList

end Scan

def tokens? (text : String) : Option (List Token) :=
  let chars := text.toList
  if chars.all isAllowed then
    Scan.run (2 * chars.length + 4) { cursor := .start (unifyBreaks chars) }
  else none

end PeerWatch.Yaml
