import PeerWatch.Text.Utf8
import PeerWatch.Text.Decimal

/-!
JSON values as they are written: a string keeps its bytes between the quotes, escapes included,
and a number keeps its text. So a value can be passed over whatever its strings and numbers mean,
and whoever wants to know reads them with `Json.text?` or `Json.int?`.
-/

namespace PeerWatch

inductive Json
  | null
  | bool (b : Bool)
  | number (text : List UInt8)
  | string (raw : List UInt8)
  | array (items : List Json)
  | object (members : List (List UInt8 × Json))
  deriving Inhabited

namespace Json

abbrev byte (c : Char) : UInt8 := c.toNat.toUInt8

def escapeChar (c : Char) : List Char :=
  if c = '"' then ['\\', '"']
  else if c = '\\' then ['\\', '\\']
  else if c = '\n' then ['\\', 'n']
  else if c = '\r' then ['\\', 'r']
  else if c = '\t' then ['\\', 't']
  else if c = '\x08' then ['\\', 'b']
  else if c = '\x0c' then ['\\', 'f']
  else if c.toNat < 32 then
    ['\\', 'u', '0', '0', Text.digitChar (c.toNat / 16), Text.digitChar (c.toNat % 16)]
  else [c]

def escape (s : List Char) : List UInt8 := Utf8.encode (s.flatMap escapeChar)

def ofText (s : String) : Json := .string (escape s.toList)

def ofInt (n : Int) : Json := .number (Utf8.encode (Text.decimalInt n))

def ofNat (n : Nat) : Json := ofInt n

def ofFields (fields : List (String × Json)) : Json :=
  .object (fields.map fun (k, v) => (escape k.toList, v))

mutual
def render : Json → List UInt8
  | .null => Utf8.ofString "null"
  | .bool true => Utf8.ofString "true"
  | .bool false => Utf8.ofString "false"
  | .number text => text
  | .string raw => byte '"' :: raw ++ [byte '"']
  | .array items => byte '[' :: renderItems items ++ [byte ']']
  | .object members => byte '{' :: renderMembers members ++ [byte '}']
def renderItems : List Json → List UInt8
  | [] => []
  | [v] => v.render
  | v :: vs => v.render ++ byte ',' :: renderItems vs
def renderMembers : List (List UInt8 × Json) → List UInt8
  | [] => []
  | [m] => renderMember m
  | m :: ms => renderMember m ++ byte ',' :: renderMembers ms
def renderMember : List UInt8 × Json → List UInt8
  | (k, v) => byte '"' :: k ++ byte '"' :: byte ':' :: v.render
end

def hexDigit? (b : UInt8) : Option Nat := Text.digitValue? (Char.ofNat b.toNat)

def hexQuad? : List UInt8 → Option (Nat × List UInt8)
  | a :: b :: c :: d :: rest => do
    let a ← hexDigit? a
    let b ← hexDigit? b
    let c ← hexDigit? c
    let d ← hexDigit? d
    return (4096 * a + 256 * b + 16 * c + d, rest)
  | _ => none

def escapedByte? (b : UInt8) : Option UInt8 :=
  if b = byte '"' ∨ b = byte '\\' ∨ b = byte '/' then some b
  else if b = byte 'b' then some 8
  else if b = byte 'f' then some 12
  else if b = byte 'n' then some 10
  else if b = byte 'r' then some 13
  else if b = byte 't' then some 9
  else none

/-- The code point of an escape after its `\u`, and what follows it. A leading surrogate needs a
trailing one right behind it, and none may stand alone. -/
def codePoint? (bs : List UInt8) : Option (Nat × List UInt8) :=
  match hexQuad? bs with
  | none => none
  | some (n, rest) =>
    if n < 0xD800 ∨ 0xE000 ≤ n then some (n, rest)
    else if 0xDC00 ≤ n then none
    else match rest with
      | s :: u :: rest =>
        if s = byte '\\' ∧ u = byte 'u' then
          match hexQuad? rest with
          | some (m, rest) =>
            if 0xDC00 ≤ m ∧ m ≤ 0xDFFF then
              some (0x10000 + (n - 0xD800) * 0x400 + (m - 0xDC00), rest)
            else none
          | none => none
        else none
      | _ => none

theorem hexQuad?_length {bs rest : List UInt8} {n : Nat} (h : hexQuad? bs = some (n, rest)) :
    rest.length < bs.length := by
  unfold hexQuad? at h
  split at h
  · simp only [Option.pure_def, Option.bind_eq_bind, Option.bind_eq_some_iff, Option.some.injEq,
      Prod.mk.injEq] at h
    obtain ⟨_, _, _, _, _, _, _, _, _, rfl⟩ := h
    simp only [List.length_cons]
    omega
  · cases h

theorem codePoint?_length {bs rest : List UInt8} {n : Nat} (h : codePoint? bs = some (n, rest)) :
    rest.length < bs.length := by
  unfold codePoint? at h
  split at h
  · simp at h
  next m r hq =>
    have hr := hexQuad?_length hq
    split at h
    · simp only [Option.some.injEq, Prod.mk.injEq] at h
      exact h.2 ▸ hr
    split at h
    · simp at h
    split at h
    · split at h
      · split at h
        next hq' =>
          have hr' := hexQuad?_length hq'
          split at h
          · simp only [Option.some.injEq, Prod.mk.injEq] at h
            obtain ⟨-, rfl⟩ := h
            simp only [List.length_cons] at hr
            omega
          · simp at h
        · simp at h
      · simp at h
    · simp at h

def unescape (bs : List UInt8) : Option (List UInt8) :=
  match bs with
  | [] => some []
  | b :: bs =>
    if b = byte '\\' then
      match bs with
      | [] => none
      | e :: bs =>
        if e = byte 'u' then
          match h : codePoint? bs with
          | none => none
          | some (n, rest) =>
            have := codePoint?_length h
            (unescape rest).map (Utf8.encodeNat n ++ ·)
        else match escapedByte? e with
          | none => none
          | some c => (unescape bs).map (c :: ·)
    else (unescape bs).map (b :: ·)
termination_by bs.length

def textOf? (raw : List UInt8) : Option String :=
  ((unescape raw).bind Utf8.decode?).map String.ofList

def text? : Json → Option String
  | .string raw => textOf? raw
  | _ => none

def bool? : Json → Option Bool
  | .bool b => some b
  | _ => none

/-- The integer that a number's text writes as an integer. A fraction or an exponent makes a
number no integer whatever its value, and so does the sign of `-0`. -/
def intOf? (text : List UInt8) : Option Int :=
  match text.map fun b => Char.ofNat b.toNat with
  | '-' :: ds => (Text.number? ds).bind fun n => if n = 0 then none else some (-n)
  | ds => (Text.number? ds).map Int.ofNat

def int? : Json → Option Int
  | .number text => intOf? text
  | _ => none

def items? : Json → Option (List Json)
  | .array vs => some vs
  | _ => none

end Json
end PeerWatch
