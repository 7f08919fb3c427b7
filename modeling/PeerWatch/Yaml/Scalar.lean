import PeerWatch.Text.Decimal

/-!
YAML text and the scalars in it. A cursor is a place in the text with its line and column. Scalars
may run over several lines: outside block scalars a single line end between two words is read as
a space, and of several the first is dropped.
-/

namespace PeerWatch.Yaml

def isAllowed (c : Char) : Bool :=
  let n := c.toNat
  n == 9 || n == 10 || n == 13 || (32 ≤ n && n ≤ 0x7E) || n == 0x85 ||
    (0xA0 ≤ n && n ≤ 0xFFFD) || 0x10000 ≤ n

/-- Writes every line end as a newline; the line and paragraph separators stay what they are. -/
def unifyBreaks : List Char → List Char
  | [] => []
  | '\r' :: '\n' :: s => '\n' :: unifyBreaks s
  | '\r' :: s => '\n' :: unifyBreaks s
  | '\u0085' :: s => '\n' :: unifyBreaks s
  | c :: s => c :: unifyBreaks s

def isBreak (c : Char) : Bool := c == '\n' || c == '\u2028' || c == '\u2029'

def isGap (c : Char) : Bool := c == ' ' || c == '\t'

inductive Style
  | plain | literal | other
  deriving DecidableEq, Inhabited

/-- A place in the text; `index` counts the bytes before it, and `left` the characters after it. -/
structure Cursor where
  rest : List Char
  line : Nat
  col : Nat
  index : Nat
  left : Nat

namespace Cursor

def start (text : List Char) : Cursor := ⟨text, 0, 0, 0, text.length⟩

def next (c : Cursor) : Cursor :=
  match c.rest with
  | [] => c
  | ch :: r =>
    let index := c.index + ch.utf8Size
    if isBreak ch then ⟨r, c.line + 1, 0, index, c.left - 1⟩
    else ⟨r, c.line, c.col + 1, index, c.left - 1⟩

def advance (c : Cursor) : Nat → Cursor
  | 0 => c
  | n + 1 => c.next.advance n

def at? (c : Cursor) (n : Nat) : Option Char := c.rest[n]?

def sees (c : Cursor) (ch : Char) : Bool := c.at? 0 == some ch

def skipWhile (p : Char → Bool) (c : Cursor) : Cursor := c.advance (c.rest.takeWhile p).length

/-- Is the text at its end, or is there a gap or a line end, `n` characters on? -/
def blankAt (c : Cursor) (n : Nat) : Bool :=
  match c.at? n with
  | none => true
  | some ch => isGap ch || isBreak ch

def atMarker (c : Cursor) : Bool :=
  c.col == 0 && (c.rest.take 3 == ['-', '-', '-'] || c.rest.take 3 == ['.', '.', '.']) &&
    c.blankAt 3

def skipLine (c : Cursor) : Cursor := c.skipWhile fun ch => !isBreak ch

end Cursor

structure Gap where
  blanks : List Char
  breaks : List Char

def Gap.text (g : Gap) : List Char :=
  match g.breaks with
  | [] => g.blanks
  | ['\n'] => [' ']
  | '\n' :: more => more
  | breaks => breaks

/-- Reads a gap of which some has been read, the last character first. A tab after a line end may
stand only at column `indent` or later. -/
def readGap (indent : Nat) : Nat → Gap → Cursor → Option (Gap × Cursor)
  | 0, _, _ => none
  | fuel + 1, g, c =>
    match (c.at? 0).filter fun ch => isGap ch || isBreak ch with
    | none => some (⟨g.blanks.reverse, g.breaks.reverse⟩, c)
    | some ch =>
      if isBreak ch then readGap indent fuel ⟨[], ch :: g.breaks⟩ c.next
      else if g.breaks.isEmpty then readGap indent fuel ⟨ch :: g.blanks, []⟩ c.next
      else if ch = '\t' ∧ c.col < indent then none
      else readGap indent fuel g c.next

def isFlowMark (ch : Char) : Bool := ch ∈ [',', '[', ']', '{', '}']

/-- Reads a word of a plain scalar, which ends before a gap, at a colon before a gap, and at the
marks of a flow collection inside one. -/
def plainWord (flow : Bool) : Nat → List Char → Cursor → Option (List Char × Cursor)
  | 0, _, _ => none
  | fuel + 1, word, c =>
    match c.at? 0 with
    | none => some (word.reverse, c)
    | some ch =>
      if isGap ch || isBreak ch then some (word.reverse, c)
      else if flow && ch == ':' && (c.at? 1).any (fun d => isFlowMark d || d == '?') then none
      else if (ch == ':' && c.blankAt 1) || (flow && isFlowMark ch) then some (word.reverse, c)
      else plainWord flow fuel (ch :: word) c.next

/-- Reads the words of a plain scalar at block column `indent` onto the text before them, which
stands in reverse; also answers whether lines ended after the last word. -/
def plainWords (flow : Bool) (indent : Nat) :
    Nat → List Char → Gap → Cursor → Option (List Char × Bool × Cursor)
  | 0, _, _, _ => none
  | fuel + 1, text, gap, c => do
    let broken := !gap.breaks.isEmpty
    if c.atMarker || c.sees '#' then return (text.reverse, broken, c)
    let (word, c') ← plainWord flow (c.left + 1) [] c
    if word.isEmpty then return (text.reverse, broken, c)
    let text := word.reverseAux (if text.isEmpty then [] else gap.text.reverseAux text)
    if c'.rest.isEmpty || !c'.blankAt 0 then return (text.reverse, false, c')
    let (gap, c'') ← readGap indent (c'.left + 1) ⟨[], []⟩ c'
    if !flow && c''.col < indent then return (text.reverse, !gap.breaks.isEmpty, c'')
    plainWords flow indent fuel text gap c''

def plain (flow : Bool) (indent : Nat) (c : Cursor) : Option (List Char × Bool × Cursor) :=
  plainWords flow indent (c.left + 1) [] ⟨[], []⟩ c

def simpleEscapes : List (Char × Char) :=
  [('0', '\x00'), ('a', '\x07'), ('b', '\x08'), ('t', '\t'), ('\t', '\t'), ('n', '\n'),
    ('v', '\x0b'), ('f', '\x0c'), ('r', '\r'), ('e', '\x1b'), (' ', ' '), ('"', '"'), ('/', '/'),
    ('\\', '\\'), ('N', '\u0085'), ('_', '\u00a0'), ('L', '\u2028'), ('P', '\u2029')]

def hexEscapes : List (Char × Nat) := [('x', 2), ('u', 4), ('U', 8)]

def escape? (c : Cursor) : Option (Char × Cursor) := do
  let ch ← c.at? 1
  match simpleEscapes.lookup ch with
  | some d => return (d, c.advance 2)
  | none =>
    let n ← hexEscapes.lookup ch
    let digits := (c.rest.drop 2).take n
    if digits.length ≠ n then none
    let code ← Text.numberIn? 16 digits
    if code.isValidChar then return (Char.ofNat code, c.advance (2 + n)) else none

/-- Reads the part of a quoted scalar up to a gap or the closing quote; also answers whether it
ended with an escaped line end. -/
def quotedWord (quote : Char) : Nat → List Char → Cursor → Option (List Char × Bool × Cursor)
  | 0, _, _ => none
  | fuel + 1, word, c =>
    match c.at? 0 with
    | none => some (word.reverse, false, c)
    | some ch =>
      if isGap ch || isBreak ch then some (word.reverse, false, c)
      else if quote == '\'' && ch == '\'' && c.at? 1 == some '\'' then
        quotedWord quote fuel ('\'' :: word) (c.advance 2)
      else if ch == quote then some (word.reverse, false, c)
      else if quote == '"' && ch == '\\' then
        if (c.at? 1).any isBreak then some (word.reverse, true, c.advance 2)
        else match escape? c with
          | some (d, c') => quotedWord quote fuel (d :: word) c'
          | none => none
      else quotedWord quote fuel (ch :: word) c.next

/-- Reads the parts of a quoted scalar after its opening quote onto the text before them, which
stands in reverse. -/
def quotedParts (quote : Char) : Nat → List Char → Cursor → Option (List Char × Cursor)
  | 0, _, _ => none
  | fuel + 1, text, c => do
    if c.atMarker || c.rest.isEmpty then none
    let (word, joined, c) ← quotedWord quote (c.left + 1) [] c
    let text := word.reverseAux text
    if !joined && c.sees quote then return (text.reverse, c.next)
    let (gap, c) ← readGap 0 (c.left + 1) ⟨[], if joined then ['\x00'] else []⟩ c
    let between := if joined then gap.breaks.drop 1 else gap.text
    quotedParts quote fuel (between.reverseAux text) c

def quoted (quote : Char) (c : Cursor) : Option (List Char × Cursor) :=
  quotedParts quote (c.left + 1) [] c.next

inductive Chomp
  | strip | clip | keep
  deriving DecidableEq

def chomp? (c : Cursor) : Option (Chomp × Cursor) :=
  if c.sees '+' then some (.keep, c.next) else if c.sees '-' then some (.strip, c.next) else none

def indentDigit? (c : Cursor) : Option (Nat × Cursor) :=
  match (c.at? 0).bind (Text.digitIn? 10) with
  | some n => if n = 0 then none else some (n, c.next)
  | none => none

def blockHeader (c : Cursor) : Chomp × Nat × Cursor :=
  match chomp? c with
  | some (chomp, c) =>
    match indentDigit? c with
    | some (n, c) => (chomp, n, c)
    | none => (chomp, 0, c)
  | none =>
    match indentDigit? c with
    | none => (.clip, 0, c)
    | some (n, c) =>
      match chomp? c with
      | some (chomp, c) => (chomp, n, c)
      | none => (.clip, n, c)

/-- Passes over indentation and empty lines. Answers the line ends, of which those before stand in
reverse, the largest column seen and the place of the next line's text; `indent` is 0 while it is
not known. -/
def emptyLines (indent : Nat) :
    Nat → List Char → Nat → Cursor → Option (List Char × Nat × Cursor)
  | 0, _, _, _ => none
  | fuel + 1, breaks, widest, c =>
    let spaces := (c.rest.takeWhile (· = ' ')).length
    let c := c.advance (if indent = 0 then spaces else min spaces (indent - c.col))
    let widest := max widest c.col
    match c.at? 0 with
    | some ch =>
      if ch = '\t' ∧ (indent = 0 ∨ c.col < indent) then none
      else if isBreak ch then emptyLines indent fuel (ch :: breaks) widest c.next
      else some (breaks.reverse, widest, c)
    | none => some (breaks.reverse, widest, c)

/-- Reads the lines of a block scalar onto the text before them, which stands in reverse. `lead` is
the end of the line before, `empty` the ends of the empty lines after it, and `indented` says
whether that line started with a gap. -/
def blockLines (literal : Bool) (chomp : Chomp) (indent : Nat) :
    Nat → List Char → List Char → List Char → Bool → Cursor → Option (List Char × Cursor)
  | 0, _, _, _, _, _ => none
  | fuel + 1, text, lead, empty, indented, c =>
    if c.col = indent ∧ !c.rest.isEmpty then do
      let gapped := (c.at? 0).any isGap
      let joint :=
        if !literal && lead == ['\n'] && !indented && !gapped then
          if empty.isEmpty then [' '] else []
        else lead
      let line := c.rest.takeWhile fun ch => !isBreak ch
      let c := c.advance line.length
      let lead := c.rest.take 1
      let (empty', _, c) ← emptyLines indent (c.left + 2) [] 0 c.next
      let text := line.reverseAux (empty.reverseAux (joint.reverseAux text))
      blockLines literal chomp indent fuel text lead empty' gapped c
    else
      let tail := match chomp with
        | .strip => []
        | .clip => lead
        | .keep => lead ++ empty
      some ((tail.reverseAux text).reverse, c)

def block (literal : Bool) (parent : Option Nat) (c : Cursor) : Option (List Char × Cursor) := do
  let (chomp, digit, c) := blockHeader c.next
  let c := c.skipWhile isGap
  let c := if c.sees '#' then c.skipLine else c
  if !(c.rest.isEmpty || (c.at? 0).any isBreak) then none
  let c := c.next
  let given := if digit = 0 then 0 else parent.getD 0 + digit
  let (empty, widest, c) ← emptyLines given (c.left + 2) [] 0 c
  let least := match parent with
    | some n => n + 1
    | none => 1
  let indent := if given = 0 then max widest least else given
  blockLines literal chomp indent (c.left + 2) [] [] empty false c

end PeerWatch.Yaml
