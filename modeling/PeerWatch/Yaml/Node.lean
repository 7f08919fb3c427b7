import PeerWatch.Yaml.Token

/-!
YAML documents. A missing value is a plain scalar without text. Each function reads one kind of
node or entry from the front of the tokens and answers the tokens after it; every call passes on
one unit of fuel less, and no document is nested deeper than it has tokens.
-/

namespace PeerWatch

/-- A node of a document. A reference stands for the node that has the anchor of its number. -/
inductive Yaml
  | scalar (style : Yaml.Style) (tag : Option Yaml.Tag) (text : String)
  | sequence (items : List Yaml)
  | mapping (entries : List (Yaml × Yaml))
  | anchored (id : Nat) (content : Yaml)
  | reference (id : Nat)
  deriving Inhabited

namespace Yaml

def missing : Yaml := .scalar .plain none ""

structure Properties where
  anchor : Option Nat
  tag : Option Tag

namespace Properties

def read : List Token → Properties × List Token
  | .anchor id :: .tag t :: ts | .tag t :: .anchor id :: ts => (⟨some id, some t⟩, ts)
  | .anchor id :: ts => (⟨some id, none⟩, ts)
  | .tag t :: ts => (⟨none, some t⟩, ts)
  | ts => (⟨none, none⟩, ts)

def scalar (p : Properties) (style : Style) (text : String) : Yaml :=
  .scalar style (if p.tag = some Tag.plain then none else p.tag) text

def alone? (p : Properties) : Option Yaml :=
  if p.anchor.isNone && p.tag.isNone then none else some (.scalar .plain p.tag "")

def hold (p : Properties) (content : Yaml) : Yaml :=
  match p.anchor with
  | some id => .anchored id content
  | none => content

end Properties

def ahead (ts : List Token) (among : List Token) : Bool :=
  match ts with
  | t :: _ => t ∈ among
  | [] => true

mutual

def node (fuel : Nat) (inBlock flush : Bool) (ts : List Token) : Option (Yaml × List Token) :=
  match fuel, ts with
  | _ + 1, .reference id :: ts => some (.reference id, ts)
  | fuel + 1, ts => do
    let (p, ts) := Properties.read ts
    let (content, ts) ← body fuel inBlock flush p ts
    return (p.hold content, ts)
  | 0, _ => none
termination_by structural fuel

/-- Reads the content of a node, which may be missing after properties. Block collections may begin
only where `inBlock` holds, and a sequence without indentation of its own only where `flush` holds
too. -/
def body (fuel : Nat) (inBlock flush : Bool) (p : Properties) (ts : List Token) :
    Option (Yaml × List Token) :=
  match fuel, ts with
  | _ + 1, .scalar style text :: ts => some (p.scalar style text, ts)
  | fuel + 1, .openSequence :: ts => do
    let (items, ts) ← flowItems fuel true ts
    return (.sequence items, ts)
  | fuel + 1, .openMapping :: ts => do
    let (entries, ts) ← flowEntries fuel true ts
    return (.mapping entries, ts)
  | fuel + 1, t :: ts =>
    if inBlock && t = .blockSequence then do
      let (items, ts) ← blockItems fuel ts
      return (.sequence items, ts)
    else if inBlock && t = .blockMapping then do
      let (entries, ts) ← blockEntries fuel ts
      return (.mapping entries, ts)
    else if inBlock && flush && t = .entry then do
      let (items, ts) ← flushItems fuel (t :: ts)
      return (.sequence items, ts)
    else p.alone?.map fun content => (content, t :: ts)
  | _ + 1, [] => p.alone?.map fun content => (content, [])
  | 0, _ => none
termination_by structural fuel

def nodeBefore (fuel : Nat) (ends : List Token) (inBlock flush : Bool) (ts : List Token) :
    Option (Yaml × List Token) :=
  match fuel with
  | 0 => none
  | fuel + 1 => if ahead ts ends then some (missing, ts) else node fuel inBlock flush ts
termination_by structural fuel

def valueBefore (fuel : Nat) (ends : List Token) (inBlock : Bool) (ts : List Token) :
    Option (Yaml × List Token) :=
  match fuel, ts with
  | fuel + 1, .value :: ts => nodeBefore fuel ends inBlock inBlock ts
  | _ + 1, ts => some (missing, ts)
  | 0, _ => none
termination_by structural fuel

def blockItems (fuel : Nat) (ts : List Token) : Option (List Yaml × List Token) :=
  match fuel, ts with
  | fuel + 1, .entry :: ts => do
    let (item, ts) ← nodeBefore fuel [.entry, .blockEnd] true false ts
    let (items, ts) ← blockItems fuel ts
    return (item :: items, ts)
  | _ + 1, .blockEnd :: ts => some ([], ts)
  | _, _ => none
termination_by structural fuel

/-- Reads the items of a block sequence that stands at its parent's column. -/
def flushItems (fuel : Nat) (ts : List Token) : Option (List Yaml × List Token) :=
  match fuel, ts with
  | fuel + 1, .entry :: ts => do
    let (item, ts) ← nodeBefore fuel [.entry, .key, .value, .blockEnd] true false ts
    let (items, ts) ← flushItems fuel ts
    return (item :: items, ts)
  | _ + 1, ts => some ([], ts)
  | 0, _ => none
termination_by structural fuel

def blockEntries (fuel : Nat) (ts : List Token) : Option (List (Yaml × Yaml) × List Token) :=
  match fuel, ts with
  | fuel + 1, .key :: ts => do
    let (k, ts) ← nodeBefore fuel [.key, .value, .blockEnd] true true ts
    let (v, ts) ← valueBefore fuel [.key, .value, .blockEnd] true ts
    let (entries, ts) ← blockEntries fuel ts
    return ((k, v) :: entries, ts)
  | _ + 1, .blockEnd :: ts => some ([], ts)
  | _, _ => none
termination_by structural fuel

/-- Reads the items of a flow sequence; all but the first need a comma before them. -/
def flowItems (fuel : Nat) (first : Bool) (ts : List Token) : Option (List Yaml × List Token) :=
  match fuel, ts with
  | _ + 1, .closeSequence :: ts => some ([], ts)
  | fuel + 1, ts =>
    match first, ts with
    | true, ts | false, .separator :: ts =>
      if ts.head? = some .closeSequence then flowItems fuel true ts else do
        let (item, ts) ← flowItem fuel ts
        let (items, ts) ← flowItems fuel false ts
        return (item :: items, ts)
    | _, _ => none
  | 0, _ => none
termination_by structural fuel

/-- Reads an item of a flow sequence: a node, or a mapping of one entry without brackets. -/
def flowItem (fuel : Nat) (ts : List Token) : Option (Yaml × List Token) :=
  match fuel, ts with
  | fuel + 1, .key :: ts => do
    let (k, ts) ←
      if ahead ts [.value, .separator, .closeSequence] then pure (missing, ts.drop 1)
      else node fuel false false ts
    let (v, ts) ← valueBefore fuel [.separator, .closeSequence] false ts
    return (.mapping [(k, v)], ts)
  | fuel + 1, ts => node fuel false false ts
  | 0, _ => none
termination_by structural fuel

def flowEntries (fuel : Nat) (first : Bool) (ts : List Token) :
    Option (List (Yaml × Yaml) × List Token) :=
  match fuel, ts with
  | _ + 1, .closeMapping :: ts => some ([], ts)
  | fuel + 1, ts =>
    match first, ts with
    | true, ts | false, .separator :: ts =>
      if ts.head? = some .closeMapping then flowEntries fuel true ts else do
        let (entry, ts) ← flowEntry fuel ts
        let (entries, ts) ← flowEntries fuel false ts
        return (entry :: entries, ts)
    | _, _ => none
  | 0, _ => none
termination_by structural fuel

def flowEntry (fuel : Nat) (ts : List Token) : Option ((Yaml × Yaml) × List Token) :=
  match fuel, ts with
  | fuel + 1, .key :: ts => do
    let (k, ts) ← nodeBefore fuel [.value, .separator, .closeMapping] false false ts
    let (v, ts) ← valueBefore fuel [.separator, .closeMapping] false ts
    return ((k, v), ts)
  | fuel + 1, ts => do
    let (k, ts) ← node fuel false false ts
    return ((k, missing), ts)
  | 0, _ => none
termination_by structural fuel

end

mutual

/-- The nodes with anchors that a node consists of, in the order of the text. -/
def anchors : Yaml → List (Nat × Yaml)
  | .anchored id content => (id, content) :: anchors content
  | .sequence items => anchorsOfItems items
  | .mapping entries => anchorsOfEntries entries
  | .scalar .. | .reference _ => []

def anchorsOfItems : List Yaml → List (Nat × Yaml)
  | [] => []
  | v :: vs => anchors v ++ anchorsOfItems vs

def anchorsOfEntries : List (Yaml × Yaml) → List (Nat × Yaml)
  | [] => []
  | (k, v) :: es => anchors k ++ anchors v ++ anchorsOfEntries es

end

/-- A document: its outermost node, and the nodes with anchors in the order of the text. -/
structure Document where
  root : Yaml
  anchors : List (Nat × Yaml)

namespace Document

def ofNode (root : Yaml) : Document := ⟨root, root.anchors⟩

/-- What a node of the document stands for: its content, and for a reference the content of the
last node with the anchor of its number. -/
def content (d : Document) : Yaml → Yaml
  | .anchored _ v => v
  | .reference id => (d.anchors.reverse.lookup id).getD (.reference id)
  | v => v

def fuelFor (ts : List Token) : Nat := 12 * ts.length + 12

/-- Reads the tokens of a text that holds at most one document; one that holds none is an empty
mapping. After a marker the document may be missing. -/
def ofTokens? : List Token → Option Document
  | [] => some (ofNode (.mapping []))
  | ts => do
    let (root, rest) ←
      match ts.dropWhile (· == .directive) with
      | .documentStart :: ts =>
        nodeBefore (fuelFor ts) [.directive, .documentStart, .documentEnd] true false ts
      | _ => node (fuelFor ts) true false ts
    if rest.all (· == .documentEnd) then some (ofNode root) else none

def parse? (text : String) : Option Document := (tokens? text).bind ofTokens?

end Document
end Yaml
end PeerWatch
