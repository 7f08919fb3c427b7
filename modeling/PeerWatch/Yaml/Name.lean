import PeerWatch.Text.Utf8
import PeerWatch.Yaml.Scalar

/-!
Names in YAML text: those of anchors, of tags and of directives. A tag is a sequence of bytes. It
is written out between angle brackets, or else as a handle and a rest; a handle stands for bytes,
and directives give handles. In a tag a percent sign and two digits write a byte, and the bytes
that are written so come as whole characters.
-/

namespace PeerWatch.Yaml

abbrev Tag := List UInt8

/-- The tag that says nothing of a scalar. -/
def Tag.plain : Tag := Utf8.ofString "!"

def Tag.standard (name : String) : Tag := Utf8.ofString ("tag:yaml.org,2002:" ++ name)

/-- What handles stand for, the ones given last first. -/
abbrev Handles := List (String × Tag)

def Handles.standard : Handles := [("!", Tag.plain), ("!!", Tag.standard "")]

def isNameChar (ch : Char) : Bool := ch.isAlphanum || ch == '_' || ch == '-'

def tagMarks : List Char := ";/?:@&=+$.%!~*'()".toList

/-- Does the character stand in tags? Commas and brackets do only if the tag is `whole`: written
out between angle brackets, or by a directive. -/
def isTagChar (whole : Bool) (ch : Char) : Bool :=
  isNameChar ch || ch ∈ tagMarks || (whole && (ch == ',' || ch == '[' || ch == ']'))

namespace Cursor

def name (c : Cursor) : String × Cursor :=
  (String.ofList (c.rest.takeWhile isNameChar), c.skipWhile isNameChar)

def anchorEnds : List Char := "?:,]\x7d%@`".toList

def anchor? (c : Cursor) : Option (String × Cursor) :=
  let (n, c) := c.next.name
  if n.isEmpty || !(c.blankAt 0 || (c.at? 0).any (· ∈ anchorEnds)) then none else some (n, c)

def escapedByte? (c : Cursor) : Option (UInt8 × Cursor) := do
  if !c.sees '%' then none
  let hi ← (c.at? 1).bind (Text.digitIn? 16)
  let lo ← (c.at? 2).bind (Text.digitIn? 16)
  return ((16 * hi + lo).toUInt8, c.advance 3)

def bytesAfter? (b : UInt8) : Option Nat :=
  if b < 0x80 then some 0
  else if 0xC0 ≤ b ∧ b < 0xE0 then some 1
  else if 0xE0 ≤ b ∧ b < 0xF0 then some 2
  else if 0xF0 ≤ b ∧ b < 0xF8 then some 3
  else none

def moreBytes? : Nat → Cursor → Option (List UInt8 × Cursor)
  | 0, c => some ([], c)
  | n + 1, c => do
    let (b, c) ← c.escapedByte?
    if b < 0x80 ∨ 0xC0 ≤ b then none
    let (bs, c) ← moreBytes? n c
    return (b :: bs, c)

def tagChar? (c : Cursor) (ch : Char) : Option (List UInt8 × Cursor) :=
  if ch = '%' then do
    let (b, c) ← c.escapedByte?
    let (bs, c) ← moreBytes? (← bytesAfter? b) c
    return (b :: bs, c)
  else some (Utf8.encodeChar ch, c.next)

def tagBytes? (whole : Bool) : Nat → Cursor → Option (List UInt8 × Cursor)
  | 0, _ => none
  | fuel + 1, c =>
    match (c.at? 0).filter (isTagChar whole) with
    | none => some ([], c)
    | some ch => do
      let (bs, c) ← c.tagChar? ch
      let (more, c) ← tagBytes? whole fuel c
      return (bs ++ more, c)

/-- Reads the characters of a tag and answers whether there were any. A byte 0 ends it early. -/
def tagText? (c : Cursor) (whole : Bool) : Option (Tag × Bool × Cursor) := do
  let (bs, c) ← tagBytes? whole (c.left + 1) c
  return (bs.takeWhile (· ≠ 0), !bs.isEmpty, c)

def wholeTag? (c : Cursor) : Option (Tag × Cursor) := do
  let (tag, found, c) ← (c.advance 2).tagText? true
  if found && c.sees '>' then return (tag, c.next) else none

/-- Reads a tag that begins with a handle: `!name!rest` with the handle `!name!`, or `!rest` with the
handle `!`. A mark with nothing after it is the tag that says nothing. -/
def shortTag? (handles : Handles) (c : Cursor) : Option (Tag × Cursor) := do
  let (n, c) := c.next.name
  if c.sees '!' then
    let (rest, found, c) ← c.next.tagText? false
    if !found then none
    return ((← handles.lookup ("!" ++ n ++ "!")) ++ rest, c)
  else
    let (rest, _, c) ← c.tagText? false
    let rest := Utf8.ofString n ++ rest
    if rest.isEmpty then return (Tag.plain, c)
    return ((← handles.lookup "!") ++ rest, c)

/-- Reads a tag. Inside brackets a comma may follow it. -/
def tag? (handles : Handles) (flow : Bool) (c : Cursor) : Option (Tag × Cursor) := do
  let (tag, c) ← if c.at? 1 == some '<' then c.wholeTag? else c.shortTag? handles
  if c.blankAt 0 || (flow && c.sees ',') then return (tag, c) else none

end Cursor

inductive Directive
  | version
  | handle (name : String) (stands : Tag)

namespace Cursor

def versionNumber? (c : Cursor) : Option (Nat × Cursor) := do
  let digits := c.rest.takeWhile Char.isDigit
  if 9 < digits.length then none
  return (← Text.number? digits, c.advance digits.length)

def version? (c : Cursor) : Option (Directive × Cursor) := do
  let (major, c) ← c.versionNumber?
  if !c.sees '.' then none
  let (minor, c) ← c.next.versionNumber?
  if major = 1 ∧ (minor = 1 ∨ minor = 2) then return (.version, c) else none

def handle? (c : Cursor) : Option (Directive × Cursor) := do
  if !c.sees '!' then none
  let (n, c) := c.next.name
  let closed := c.sees '!'
  if !closed && !n.isEmpty then none
  let c := if closed then c.next else c
  if !(c.at? 0).any isGap then none
  let (tag, found, c) ← (c.skipWhile isGap).tagText? true
  if found && c.blankAt 0 then
    return (.handle ("!" ++ n ++ if closed then "!" else "") tag, c)
  else none

def directive? (c : Cursor) : Option (Directive × Cursor) := do
  let (n, c) := c.next.name
  if !c.blankAt 0 then none
  let c := c.skipWhile isGap
  let (d, c) ←
    match n with
    | "YAML" => c.version?
    | "TAG" => c.handle?
    | _ => none
  let c := c.skipWhile isGap
  let c := if c.sees '#' then c.skipLine else c
  if c.rest.isEmpty then return (d, c)
  else if (c.at? 0).any isBreak then return (d, c.next)
  else none

end Cursor
end PeerWatch.Yaml
