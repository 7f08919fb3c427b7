import PeerWatch.Json.Value

/-!
Reading JSON text one byte at a time. The reader is a machine: where it stands inside the value
at hand, and the arrays and objects that are still open around it. It never recurses, so depth
costs no more than length, and reading two parts one after the other is reading them together.
-/

namespace PeerWatch.Json

inductive Escape
  | none
  | letter
  | hex (left : Nat)
  deriving DecidableEq, Repr

inductive NumberPart
  | minus | zero | whole | point | fraction | exponent | exponentSign | exponentDigits
  deriving DecidableEq, Repr

/-- What the reader is in the middle of. What has been read of a string or number is kept with
the last byte first. -/
inductive Mode
  | value
  | firstItem
  | firstKey
  | key
  | colon
  | after
  | string (isKey : Bool) (esc : Escape) (raw : List UInt8)
  | number (part : NumberPart) (text : List UInt8)
  | word (left : List UInt8) (v : Json)
  | done (v : Json)

/-- An open array, an open object between its members, or an open object inside the value of
`key`. What has been read of it is kept with the last item first. -/
inductive Frame
  | array (items : List Json)
  | object (members : List (List UInt8 × Json))
  | member (members : List (List UInt8 × Json)) (key : List UInt8)

structure State where
  mode : Mode
  stack : List Frame

def State.start : State := ⟨.value, []⟩

def State.complete (v : Json) : List Frame → Option State
  | [] => some ⟨.done v, []⟩
  | .array items :: st => some ⟨.after, .array (v :: items) :: st⟩
  | .member members k :: st => some ⟨.after, .object ((k, v) :: members) :: st⟩
  | .object _ :: _ => none

def isSpace (b : UInt8) : Bool := b = 32 || b = 9 || b = 10 || b = 13

def isDigit (b : UInt8) : Bool := 48 ≤ b && b ≤ 57

def isHex (b : UInt8) : Bool := (hexDigit? b).isSome

def NumberPart.complete : NumberPart → Bool
  | .zero | .whole | .fraction | .exponentDigits => true
  | _ => false

def NumberPart.next? (p : NumberPart) (b : UInt8) : Option NumberPart :=
  let e := b = byte 'e' ∨ b = byte 'E'
  match p with
  | .minus => if b = byte '0' then some .zero else if isDigit b then some .whole else none
  | .zero => if b = byte '.' then some .point else if e then some .exponent else none
  | .whole =>
    if isDigit b then some .whole
    else if b = byte '.' then some .point
    else if e then some .exponent else none
  | .point => if isDigit b then some .fraction else none
  | .fraction => if isDigit b then some .fraction else if e then some .exponent else none
  | .exponent =>
    if b = byte '+' ∨ b = byte '-' then some .exponentSign
    else if isDigit b then some .exponentDigits else none
  | .exponentSign | .exponentDigits => if isDigit b then some .exponentDigits else none

def startValue (b : UInt8) (mode : Mode) (stack : List Frame) : Option State :=
  if isSpace b then some ⟨mode, stack⟩
  else if b = byte '"' then some ⟨.string false .none [], stack⟩
  else if b = byte '[' then some ⟨.firstItem, .array [] :: stack⟩
  else if b = byte '{' then some ⟨.firstKey, .object [] :: stack⟩
  else if b = byte '-' then some ⟨.number .minus [b], stack⟩
  else if b = byte '0' then some ⟨.number .zero [b], stack⟩
  else if isDigit b then some ⟨.number .whole [b], stack⟩
  else if b = byte 't' then some ⟨.word [byte 'r', byte 'u', byte 'e'] (.bool true), stack⟩
  else if b = byte 'f' then
    some ⟨.word [byte 'a', byte 'l', byte 's', byte 'e'] (.bool false), stack⟩
  else if b = byte 'n' then some ⟨.word [byte 'u', byte 'l', byte 'l'] .null, stack⟩
  else none

def afterValue (b : UInt8) (stack : List Frame) : Option State :=
  if isSpace b then some ⟨.after, stack⟩
  else match stack with
    | .array items :: st =>
      if b = byte ',' then some ⟨.value, stack⟩
      else if b = byte ']' then State.complete (.array items.reverse) st
      else none
    | .object members :: st =>
      if b = byte ',' then some ⟨.key, stack⟩
      else if b = byte '}' then State.complete (.object members.reverse) st
      else none
    | _ => none

def startKey (b : UInt8) (mode : Mode) (stack : List Frame) : Option State :=
  if isSpace b then some ⟨mode, stack⟩
  else if b = byte '"' then some ⟨.string true .none [], stack⟩
  else none

def insideString (b : UInt8) (isKey : Bool) (esc : Escape) (raw : List UInt8)
    (stack : List Frame) : Option State :=
  match esc with
  | .none =>
    if b = byte '"' then
      if isKey then
        match stack with
        | .object members :: st => some ⟨.colon, .member members raw.reverse :: st⟩
        | _ => none
      else State.complete (.string raw.reverse) stack
    else if b = byte '\\' then some ⟨.string isKey .letter (b :: raw), stack⟩
    else if b < 32 then none
    else some ⟨.string isKey .none (b :: raw), stack⟩
  | .letter =>
    if b = byte 'u' then some ⟨.string isKey (.hex 3) (b :: raw), stack⟩
    else if (escapedByte? b).isSome then some ⟨.string isKey .none (b :: raw), stack⟩
    else none
  | .hex left =>
    if isHex b then
      some ⟨.string isKey (if left = 0 then .none else .hex (left - 1)) (b :: raw), stack⟩
    else none

def stepToken (s : State) (b : UInt8) : Option State :=
  match s.mode with
  | .value => startValue b .value s.stack
  | .firstItem =>
    if b = byte ']' then
      match s.stack with
      | .array items :: st => State.complete (.array items.reverse) st
      | _ => none
    else startValue b .firstItem s.stack
  | .firstKey =>
    if b = byte '}' then
      match s.stack with
      | .object members :: st => State.complete (.object members.reverse) st
      | _ => none
    else startKey b .firstKey s.stack
  | .key => startKey b .key s.stack
  | .colon =>
    if isSpace b then some s else if b = byte ':' then some ⟨.value, s.stack⟩ else none
  | .after => afterValue b s.stack
  | .string isKey esc raw => insideString b isKey esc raw s.stack
  | .word [] _ => none
  | .word [c] v => if b = c then State.complete v s.stack else none
  | .word (c :: left) v => if b = c then some ⟨.word left v, s.stack⟩ else none
  | .done v => if isSpace b then some ⟨.done v, []⟩ else none
  | .number .. => none

/-- One byte. A number ends at the first byte that does not belong to it. -/
def step (s : State) (b : UInt8) : Option State :=
  match s.mode with
  | .number part text =>
    match part.next? b with
    | some part' => some ⟨.number part' (b :: text), s.stack⟩
    | none =>
      if part.complete then
        (State.complete (.number text.reverse) s.stack).bind fun s' => stepToken s' b
      else none
  | _ => stepToken s b

def run (s : State) : List UInt8 → Option State
  | [] => some s
  | b :: bs => (step s b).bind fun s' => run s' bs

def State.finish? (s : State) : Option Json :=
  match s.mode, s.stack with
  | .done v, _ => some v
  | .number part text, [] => if part.complete then some (.number text.reverse) else none
  | _, _ => none

def parse? (bs : List UInt8) : Option Json := (run .start bs).bind State.finish?

end PeerWatch.Json
