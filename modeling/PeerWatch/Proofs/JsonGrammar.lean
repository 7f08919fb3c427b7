import PeerWatch.Proofs.Decimal
import PeerWatch.Proofs.JsonReader
import PeerWatch.Proofs.Utf8

/-! The grammar of JSON text, and that whatever it allows is read. White space may stand around every
value and every key, and values may stand in one another to any depth. A text of a value is read as
this value: its strings and numbers as they are written, its items and members in their order. -/
namespace PeerWatch.Json
variable {s : State} {m : Mode} {st : List Frame} {v : Json} {vs : List Json} {b c : UInt8}
  {bs cs text raw key before after : List UInt8} {p q : NumberPart} {n : Nat}
  {ms : List (List UInt8 × Json)}

def IsSpaces (bs : List UInt8) : Prop :=
  ∀ b ∈ bs, b = byte ' ' ∨ b = byte '\t' ∨ b = byte '\n' ∨ b = byte '\r'

def IsDigits (bs : List UInt8) : Prop := ∀ b ∈ bs, byte '0' ≤ b ∧ b ≤ byte '9'

/-- The digits before the point. There are more of them only if the first one is not zero. -/
inductive IsWhole : List UInt8 → Prop
  | zero : IsWhole [byte '0']
  | digits {b : UInt8} {bs : List UInt8} (first : byte '1' ≤ b ∧ b ≤ byte '9') (h : IsDigits bs) :
    IsWhole (b :: bs)

inductive IsFraction : List UInt8 → Prop
  | none : IsFraction []
  | digits {bs : List UInt8} (h : IsDigits bs) (ne : bs ≠ []) : IsFraction (byte '.' :: bs)

inductive IsExponent : List UInt8 → Prop
  | none : IsExponent []
  | digits {e : UInt8} {sign bs : List UInt8} (letter : e = byte 'e' ∨ e = byte 'E')
    (signed : sign = [] ∨ sign = [byte '+'] ∨ sign = [byte '-']) (h : IsDigits bs) (ne : bs ≠ []) :
    IsExponent (e :: (sign ++ bs))

inductive IsNumeral : List UInt8 → Prop
  | intro {sign whole fraction exponent : List UInt8} (signed : sign = [] ∨ sign = [byte '-'])
    (isWhole : IsWhole whole) (isFraction : IsFraction fraction) (isExponent : IsExponent exponent) :
    IsNumeral (sign ++ whole ++ fraction ++ exponent)

def IsQuad (quad : List UInt8) (n : Nat) : Prop :=
  ∃ ds : List Char, quad = ds.map byte ∧ ds.length = 4 ∧ Text.Writes 16 ds n

def escapes : List (Char × Char) :=
  [('"', '"'), ('\\', '\\'), ('/', '/'), ('b', '\x08'), ('f', '\x0c'), ('n', '\n'), ('r', '\r'),
    ('t', '\t')]

/-- What may stand between quotes. It need not be any text: a surrogate may stand alone. -/
inductive IsQuoted : List UInt8 → Prop
  | nil : IsQuoted []
  | plain {b : UInt8} {raw : List UInt8} (control : byte ' ' ≤ b) (quote : b ≠ byte '"')
    (backslash : b ≠ byte '\\') (h : IsQuoted raw) : IsQuoted (b :: raw)
  | letter {e c : Char} {raw : List UInt8} (mem : (e, c) ∈ escapes) (h : IsQuoted raw) :
    IsQuoted (byte '\\' :: byte e :: raw)
  | code {quad raw : List UInt8} {n : Nat} (isQuad : IsQuad quad n) (h : IsQuoted raw) :
    IsQuoted (byte '\\' :: byte 'u' :: (quad ++ raw))

/-- The ways to write a character between quotes. One that sixteen bits do not hold may be written as
a pair of surrogates. -/
inductive Escaped (c : Char) : List UInt8 → Prop
  | plain (control : ' ' ≤ c) (quote : c ≠ '"') (backslash : c ≠ '\\') :
    Escaped c (Utf8.encodeChar c)
  | letter {e : Char} (mem : (e, c) ∈ escapes) : Escaped c [byte '\\', byte e]
  | code {quad : List UInt8} (isQuad : IsQuad quad c.toNat) :
    Escaped c (byte '\\' :: byte 'u' :: quad)
  | pair {high low : List UInt8} {m n : Nat} (isHigh : IsQuad high (0xD800 + m))
    (isLow : IsQuad low (0xDC00 + n)) (hm : m < 0x400) (hn : n < 0x400)
    (char : c.toNat = 0x10000 + 0x400 * m + n) :
    Escaped c (byte '\\' :: byte 'u' :: (high ++ byte '\\' :: byte 'u' :: low))

inductive Quotes : List Char → List UInt8 → Prop
  | nil : Quotes [] []
  | cons {c : Char} {s : List Char} {bs raw : List UInt8} (hc : Escaped c bs) (h : Quotes s raw) :
    Quotes (c :: s) (bs ++ raw)

/-- The parts of the grammar: a value, and one with white space around it; several of those; a member
of an object; and several members. -/
inductive Part
  | value (v : Json)
  | element (v : Json)
  | elements (vs : List Json)
  | member (key : List UInt8) (v : Json)
  | members (ms : List (List UInt8 × Json))

inductive Spells : Part → List UInt8 → Prop
  | null : Spells (.value .null) (Utf8.ofString "null")
  | true : Spells (.value (.bool true)) (Utf8.ofString "true")
  | false : Spells (.value (.bool false)) (Utf8.ofString "false")
  | number {text : List UInt8} (h : IsNumeral text) : Spells (.value (.number text)) text
  | string {raw : List UInt8} (h : IsQuoted raw) :
    Spells (.value (.string raw)) (byte '"' :: raw ++ [byte '"'])
  | noElements {ws : List UInt8} (h : IsSpaces ws) :
    Spells (.value (.array [])) (byte '[' :: ws ++ [byte ']'])
  | array {vs : List Json} {bs : List UInt8} (h : Spells (.elements vs) bs) :
    Spells (.value (.array vs)) (byte '[' :: bs ++ [byte ']'])
  | noMembers {ws : List UInt8} (h : IsSpaces ws) :
    Spells (.value (.object [])) (byte '{' :: ws ++ [byte '}'])
  | object {ms : List (List UInt8 × Json)} {bs : List UInt8} (h : Spells (.members ms) bs) :
    Spells (.value (.object ms)) (byte '{' :: bs ++ [byte '}'])
  | element {v : Json} {before bs after : List UInt8} (hbefore : IsSpaces before)
    (h : Spells (.value v) bs) (hafter : IsSpaces after) :
    Spells (.element v) (before ++ bs ++ after)
  | lastElement {v : Json} {bs : List UInt8} (h : Spells (.element v) bs) :
    Spells (.elements [v]) bs
  | elements {v : Json} {vs : List Json} {bs cs : List UInt8} (h : Spells (.element v) bs)
    (rest : Spells (.elements vs) cs) : Spells (.elements (v :: vs)) (bs ++ byte ',' :: cs)
  | member {key before after : List UInt8} {v : Json} {bs : List UInt8} (hbefore : IsSpaces before)
    (isKey : IsQuoted key) (hafter : IsSpaces after) (h : Spells (.element v) bs) :
    Spells (.member key v) (before ++ byte '"' :: (key ++ byte '"' :: (after ++ byte ':' :: bs)))
  | lastMember {key : List UInt8} {v : Json} {bs : List UInt8} (h : Spells (.member key v) bs) :
    Spells (.members [(key, v)]) bs
  | members {key : List UInt8} {v : Json} {ms : List (List UInt8 × Json)} {bs cs : List UInt8}
    (h : Spells (.member key v) bs) (rest : Spells (.members ms) cs) :
    Spells (.members ((key, v) :: ms)) (bs ++ byte ',' :: cs)

def IsText (v : Json) (bs : List UInt8) : Prop := Spells (.element v) bs

def Mode.StartsValue (m : Mode) : Prop := m = .value ∨ m = .firstItem

def Mode.StartsKey (m : Mode) : Prop := m = .key ∨ m = .firstKey

def TakesValue : List Frame → Prop
  | .object _ :: _ => False
  | _ => True

/-- The reader has read a value that stands in the frames `st`. It has seen where the value ends or,
if that is a number, it will at the next byte that does not belong to it. -/
inductive HasRead (v : Json) (st : List Frame) : State → Prop
  | closed {s : State} (complete : State.complete v st = some s) : HasRead v st s
  | number {part : NumberPart} {text : List UInt8} (complete : part.complete = true)
      (value : v = .number text.reverse) : HasRead v st ⟨.number part text, st⟩

def Part.IsRead : Part → List UInt8 → Prop
  | .value v, bs | .element v, bs => ∀ m st, m.StartsValue → TakesValue st →
    ∃ s, run ⟨m, st⟩ bs = some s ∧ HasRead v st s
  | .elements vs, bs => ∀ m st read, m.StartsValue →
    run ⟨m, .array read :: st⟩ (bs ++ [byte ']']) =
      State.complete (.array (read.reverse ++ vs)) st
  | .member key v, bs => ∀ m st read, m.StartsKey →
    ∃ s, run ⟨m, .object read :: st⟩ bs = some s ∧ HasRead v (.member read key :: st) s
  | .members ms, bs => ∀ m st read, m.StartsKey →
    run ⟨m, .object read :: st⟩ (bs ++ [byte '}']) =
      State.complete (.object (read.reverse ++ ms)) st

theorem IsSpaces.isSpace (h : IsSpaces bs) (hb : b ∈ bs) : isSpace b = true := by
  rcases h b hb with rfl | rfl | rfl | rfl <;> rfl

/-- White space that is passed over. -/
theorem run_spaces (h : IsSpaces bs) (hs : ∀ b, isSpace b = true → step s b = some s)
    (cs : List UInt8) : run s (bs ++ cs) = run s cs := by
  induction bs with
  | nil => rfl
  | cons b bs ih =>
    rw [List.cons_append, run_cons, hs b (h.isSpace List.mem_cons_self), Option.bind_some]
    exact ih fun c hc => h c (List.mem_cons_of_mem _ hc)

theorem step_startsValue (hm : m.StartsValue) (hb : b ≠ byte ']') :
    step ⟨m, st⟩ b = startValue b m st := by
  rcases hm with rfl | rfl
  · rfl
  · exact if_neg hb

theorem step_startsKey (hm : m.StartsKey) (hb : b ≠ byte '}') :
    step ⟨m, st⟩ b = startKey b m st := by
  rcases hm with rfl | rfl
  · rfl
  · exact if_neg hb

theorem ne_of_kind {kind : UInt8 → Bool} (hb : kind b = true) (hc : kind c = false) : b ≠ c := by
  rintro rfl
  rw [hb] at hc
  cases hc

theorem run_spaces_value (hm : m.StartsValue) (h : IsSpaces bs) (cs : List UInt8) :
    run ⟨m, st⟩ (bs ++ cs) = run ⟨m, st⟩ cs :=
  run_spaces h (fun b hb => by
    rw [step_startsValue hm (ne_of_kind hb rfl), startValue, if_pos hb]) cs

theorem run_spaces_key (hm : m.StartsKey) (h : IsSpaces bs) (cs : List UInt8) :
    run ⟨m, st⟩ (bs ++ cs) = run ⟨m, st⟩ cs :=
  run_spaces h (fun b hb => by
    rw [step_startsKey hm (ne_of_kind hb rfl), startKey, if_pos hb]) cs

theorem TakesValue.complete (h : TakesValue st) (v : Json) :
    ∃ s, State.complete v st = some s := by
  match st, h with
  | [], _ => exact ⟨_, rfl⟩
  | .array _ :: _, _ => exact ⟨_, rfl⟩
  | .member _ _ :: _, _ => exact ⟨_, rfl⟩

/-- A byte that can follow a value and belongs to no number. -/
def IsSeparator (b : UInt8) : Prop :=
  b = byte ',' ∨ b = byte ']' ∨ b = byte '}' ∨ isSpace b = true

theorem IsSeparator.next? (h : IsSeparator b) : p.next? b = none := by
  rcases h with rfl | rfl | rfl | hb
  · cases p <;> rfl
  · cases p <;> rfl
  · cases p <;> rfl
  · simp only [isSpace, Bool.or_eq_true, decide_eq_true_eq] at hb
    rcases hb with ((rfl | rfl) | rfl) | rfl <;> cases p <;> rfl

theorem step_of_complete (h : State.complete v st = some s) : step s b = stepToken s b := by
  unfold State.complete at h
  split at h <;> cases h <;> rfl

/-- A separator shows where a value ends. -/
theorem HasRead.step (h : HasRead v st s) (hb : IsSeparator b) :
    step s b = (State.complete v st).bind fun s' => stepToken s' b := by
  cases h with
  | closed hc => rw [hc, step_of_complete hc, Option.bind_some]
  | number hp hv => simp only [Json.step, hb.next?, if_pos hp, hv]

theorem HasRead.finish? (h : HasRead v [] s) : s.finish? = some v := by
  cases h with
  | closed hc =>
    cases hc
    rfl
  | number hp hv => simp only [State.finish?, hp, if_true, hv]

/-- White space after a value shows where it ends, too. -/
theorem HasRead.run_spaces (h : HasRead v st s) (hst : TakesValue st) (hbs : IsSpaces bs) :
    ∃ s', run s bs = some s' ∧ HasRead v st s' := by
  cases bs with
  | nil => exact ⟨s, rfl, h⟩
  | cons b bs =>
    obtain ⟨s', hs'⟩ := hst.complete v
    have hspace (b : UInt8) (hb : isSpace b = true) : stepToken s' b = some s' := by
      match st, hst, hs' with
      | [], _, rfl => exact if_pos hb
      | .array _ :: _, _, rfl => exact if_pos hb
      | .member _ _ :: _, _, rfl => exact if_pos hb
    have hb := hbs.isSpace List.mem_cons_self
    refine ⟨s', ?_, .closed hs'⟩
    rw [run_cons, h.step (Or.inr (Or.inr (Or.inr hb))), hs', Option.bind_some, hspace b hb,
      Option.bind_some]
    have hrun := Json.run_spaces (fun c hc => hbs c (List.mem_cons_of_mem _ hc))
      (fun c hc => (step_of_complete hs').trans (hspace c hc)) []
    rwa [List.append_nil] at hrun

/-- The bytes of a number move the reader through its parts. -/
theorem run_number (h : bs.foldlM NumberPart.next? p = some q) (acc : List UInt8) :
    run ⟨.number p acc, st⟩ bs = some ⟨.number q (bs.reverse ++ acc), st⟩ := by
  induction bs generalizing p acc with
  | nil =>
    cases h
    rfl
  | cons b bs ih =>
    obtain ⟨p', hp', h⟩ := Option.bind_eq_some_iff.1 h
    have hs : step ⟨.number p acc, st⟩ b = some ⟨.number p' (b :: acc), st⟩ := by
      simp only [step, hp']
    rw [run_cons, hs, Option.bind_some, ih h]
    simp

theorem isDigit_iff : isDigit b = true ↔ byte '0' ≤ b ∧ b ≤ byte '9' := by
  simp [isDigit]

theorem IsDigits.foldlM (h : IsDigits bs) (hp : ∀ b, isDigit b = true → p.next? b = some q)
    (hq : ∀ b, isDigit b = true → q.next? b = some q) (ne : bs ≠ []) :
    bs.foldlM NumberPart.next? p = some q := by
  induction bs generalizing p with
  | nil => exact absurd rfl ne
  | cons b bs ih =>
    rw [List.foldlM_cons, hp b (isDigit_iff.2 (h b List.mem_cons_self)), Option.bind_eq_bind,
      Option.bind_some]
    cases bs with
    | nil => rfl
    | cons c bs => exact ih (fun c hc => h c (List.mem_cons_of_mem _ hc)) hq (List.cons_ne_nil _ _)

theorem IsFraction.foldlM (h : IsFraction bs) (hp : p = .zero ∨ p = .whole) :
    ∃ q, bs.foldlM NumberPart.next? p = some q ∧ (q = .zero ∨ q = .whole ∨ q = .fraction) := by
  cases h with
  | none => exact ⟨p, rfl, hp.imp_right Or.inl⟩
  | digits h ne =>
    have hpoint : p.next? (byte '.') = some .point := by rcases hp with rfl | rfl <;> rfl
    have hdigits := h.foldlM (p := .point) (q := .fraction) (fun b hb => if_pos hb)
      (fun b hb => if_pos hb) ne
    exact ⟨.fraction, by rw [List.foldlM_cons, hpoint]; exact hdigits, Or.inr (Or.inr rfl)⟩

theorem IsExponent.foldlM (h : IsExponent bs) (hp : p = .zero ∨ p = .whole ∨ p = .fraction) :
    ∃ q, bs.foldlM NumberPart.next? p = some q ∧ q.complete = true := by
  cases h with
  | none => exact ⟨p, rfl, by rcases hp with rfl | rfl | rfl <;> rfl⟩
  | @digits e sign bs letter signed h ne =>
    have hletter : p.next? e = some .exponent := by
      rcases hp with rfl | rfl | rfl <;> rcases letter with rfl | rfl <;> rfl
    have hdigit (b : UInt8) (hb : isDigit b = true) :
        NumberPart.exponent.next? b = some .exponentDigits := by
      have hsign : ¬ (b = byte '+' ∨ b = byte '-') :=
        not_or.2 ⟨ne_of_kind hb rfl, ne_of_kind hb rfl⟩
      exact (if_neg hsign).trans (if_pos hb)
    have hdigits : (sign ++ bs).foldlM NumberPart.next? .exponent = some .exponentDigits := by
      rcases signed with rfl | rfl | rfl
      · exact h.foldlM hdigit (fun b hb => if_pos hb) ne
      · exact h.foldlM (p := .exponentSign) (fun b hb => if_pos hb) (fun b hb => if_pos hb) ne
      · exact h.foldlM (p := .exponentSign) (fun b hb => if_pos hb) (fun b hb => if_pos hb) ne
    exact ⟨.exponentDigits, by rw [List.foldlM_cons, hletter]; exact hdigits, rfl⟩

theorem IsWhole.foldlM (h : IsWhole bs) :
    ∃ b cs p, bs = b :: cs ∧ isDigit b = true ∧ (p = .zero ∨ p = .whole) ∧
      bs.foldlM NumberPart.next? .minus = some p := by
  cases h with
  | zero => exact ⟨_, _, .zero, rfl, rfl, Or.inl rfl, rfl⟩
  | @digits b bs first h =>
    have hb : isDigit b = true := isDigit_iff.2 ⟨UInt8.le_trans (by decide) first.1, first.2⟩
    have hzero : b ≠ byte '0' := by
      rintro rfl
      exact absurd first.1 (by decide)
    have hfirst : NumberPart.minus.next? b = some .whole := (if_neg hzero).trans (if_pos hb)
    refine ⟨b, bs, .whole, rfl, hb, Or.inr rfl, ?_⟩
    rw [List.foldlM_cons, hfirst]
    by_cases ne : bs = []
    · rw [ne]
      rfl
    · exact h.foldlM (fun b hb => if_pos hb) (fun b hb => if_pos hb) ne

/-- The first digit of a number is read like the one behind a minus sign. -/
theorem startValue_digit (hb : isDigit b = true) :
    startValue b m st = (NumberPart.minus.next? b).map fun p => ⟨.number p [b], st⟩ := by
  have hne {c : UInt8} (hc : isDigit c = false) : b ≠ c := ne_of_kind hb hc
  have hspace : ¬ isSpace b = true := by
    simp [isSpace, hne (c := 32) rfl, hne (c := 9) rfl, hne (c := 10) rfl, hne (c := 13) rfl]
  rw [startValue, if_neg hspace, if_neg (hne rfl), if_neg (hne rfl), if_neg (hne rfl),
    if_neg (hne rfl), NumberPart.next?, hb]
  by_cases hzero : b = byte '0'
  · rw [if_pos hzero, if_pos hzero]
    rfl
  · rw [if_neg hzero, if_neg hzero]
    rfl

theorem IsNumeral.isRead (h : IsNumeral text) : (Part.value (.number text)).IsRead text := by
  intro m st hm hst
  cases h with
  | @intro sign whole fraction exponent signed isWhole isFraction isExponent =>
    obtain ⟨b, cs, p₁, rfl, hb, hp₁, hwhole⟩ := isWhole.foldlM
    obtain ⟨p₂, hfraction, hp₂⟩ := isFraction.foldlM hp₁
    obtain ⟨p₃, hexponent, hp₃⟩ := isExponent.foldlM hp₂
    have hall : (b :: cs ++ fraction ++ exponent).foldlM NumberPart.next? .minus = some p₃ := by
      simp only [List.foldlM_append, hwhole, hfraction, hexponent, Option.bind_eq_bind,
        Option.bind_some]
    refine ⟨⟨.number p₃ (sign ++ (b :: cs) ++ fraction ++ exponent).reverse, st⟩, ?_,
      .number hp₃ (by rw [List.reverse_reverse])⟩
    rcases signed with rfl | rfl
    · obtain ⟨p, hp, hrest⟩ := Option.bind_eq_some_iff.1 hall
      have hstep : step ⟨m, st⟩ b = some ⟨.number p [b], st⟩ := by
        rw [step_startsValue hm (ne_of_kind hb rfl), startValue_digit hb, hp]
        rfl
      have hrun : run ⟨.number p [b], st⟩ _ = _ := run_number hrest [b]
      rw [List.nil_append]
      simp only [List.cons_append, run_cons, hstep, Option.bind_some]
      simpa using hrun
    · have hstep : step ⟨m, st⟩ (byte '-') = some ⟨.number .minus [byte '-'], st⟩ := by
        rw [step_startsValue hm (by decide)]
        rfl
      have hrun : run ⟨.number .minus [byte '-'], st⟩ _ = _ := run_number hall [byte '-']
      simp only [List.cons_append, run_cons, hstep, Option.bind_some]
      simpa using hrun

def Quotable (raw : List UInt8) : Prop :=
  ∀ isKey acc st, run ⟨.string isKey .none acc, st⟩ raw =
    some ⟨.string isKey .none (raw.reverse ++ acc), st⟩

theorem Quotable.append {xs ys : List UInt8} (hx : Quotable xs) (hy : Quotable ys) :
    Quotable (xs ++ ys) := by
  intro isKey acc st
  rw [run_append, hx, Option.bind_some, hy, List.reverse_append, List.append_assoc]

theorem hexDigit?_byte {c : Char} {d : Nat} (h : Text.IsDigit 16 c d) :
    hexDigit? (byte c) = some d := by
  have hall : ∀ e < 16, hexDigit? (byte (Text.digitChar e)) = some e ∧
      hexDigit? (byte (Text.digitChar e).toUpper) = some e := by decide
  rcases h with ⟨hd, rfl | rfl⟩
  · exact (hall d hd).1
  · exact (hall d hd).2

theorem IsQuad.isHex (h : IsQuad raw n) : raw.length = 4 ∧ ∀ b ∈ raw, isHex b = true := by
  obtain ⟨ds, rfl, hlen, hds⟩ := h
  refine ⟨by rw [List.length_map, hlen], fun b hb => ?_⟩
  obtain ⟨c, hc, rfl⟩ := List.mem_map.1 hb
  obtain ⟨d, hd⟩ := hds.exists_of_mem hc
  rw [Json.isHex, hexDigit?_byte hd]
  rfl

theorem IsQuad.hexQuad? (h : IsQuad raw n) (rest : List UInt8) :
    hexQuad? (raw ++ rest) = some (n, rest) := by
  obtain ⟨ds, rfl, hlen, hds⟩ := h
  match ds, hlen with
  | [a, b, c, d], _ =>
    have hread : Text.readDigits 16 0 [a, b, c, d] = some n :=
      (Text.numberIn?_eq_some_iff (by decide)).2 hds
    simp only [Text.readDigits, Option.bind_eq_some_iff, Option.some_inj,
      Text.digitIn?_eq_some_iff (by decide : 16 ≤ 16)] at hread
    obtain ⟨x, hx, y, hy, z, hz, w, hw, rfl⟩ := hread
    have hn : 4096 * x + 256 * y + 16 * z + w = 16 * (16 * (16 * (16 * 0 + x) + y) + z) + w := by
      omega
    rw [← hn]
    simp only [List.map_cons, List.map_nil, List.cons_append, List.nil_append, Json.hexQuad?,
      hexDigit?_byte hx, hexDigit?_byte hy, hexDigit?_byte hz, hexDigit?_byte hw]
    rfl

/-- The rest of an escape by number. -/
theorem run_hex {left : Nat} (h : ∀ b ∈ bs, isHex b = true) (hlen : bs.length = left + 1)
    (isKey : Bool) (acc : List UInt8) : run ⟨.string isKey (.hex left) acc, st⟩ bs =
      some ⟨.string isKey .none (bs.reverse ++ acc), st⟩ := by
  induction left generalizing bs acc with
  | zero =>
    obtain ⟨b, rfl⟩ := List.length_eq_one_iff.1 hlen
    have hs : step ⟨.string isKey (.hex 0) acc, st⟩ b = _ := if_pos (h b List.mem_cons_self)
    rw [run_cons, hs]
    rfl
  | succ left ih =>
    obtain ⟨b, bs, rfl⟩ := List.exists_cons_of_length_eq_add_one hlen
    have hs : step ⟨.string isKey (.hex (left + 1)) acc, st⟩ b = _ := if_pos (h b List.mem_cons_self)
    rw [run_cons, hs, Option.bind_some, if_neg (Nat.succ_ne_zero left), Nat.add_sub_cancel,
      ih (fun b hb => h b (List.mem_cons_of_mem _ hb)) (Nat.succ.inj hlen)]
    simp

theorem quotable_plain (control : byte ' ' ≤ b) (quote : b ≠ byte '"') (backslash : b ≠ byte '\\') :
    Quotable [b] := by
  intro isKey acc st
  have hs : step ⟨.string isKey .none acc, st⟩ b = some ⟨.string isKey .none (b :: acc), st⟩ := by
    have hcontrol : ¬ b < 32 := UInt8.not_lt.2 control
    simp only [step, stepToken, insideString, if_neg quote, if_neg backslash, if_neg hcontrol]
  rw [run_cons, hs]
  rfl

theorem quotable_letter {e c : Char} (mem : (e, c) ∈ escapes) : Quotable [byte '\\', byte e] := by
  intro isKey acc st
  simp only [escapes, List.mem_cons, Prod.mk.injEq, List.not_mem_nil, or_false] at mem
  rcases mem with ⟨rfl, -⟩ | ⟨rfl, -⟩ | ⟨rfl, -⟩ | ⟨rfl, -⟩ | ⟨rfl, -⟩ | ⟨rfl, -⟩ | ⟨rfl, -⟩ |
    ⟨rfl, -⟩ <;> rfl

theorem quotable_code (h : IsQuad raw n) : Quotable (byte '\\' :: byte 'u' :: raw) := by
  intro isKey acc st
  have hrun : run ⟨.string isKey .none acc, st⟩ (byte '\\' :: byte 'u' :: raw) =
    run ⟨.string isKey (.hex 3) (byte 'u' :: byte '\\' :: acc), st⟩ raw := rfl
  rw [hrun, run_hex h.isHex.2 h.isHex.1]
  simp

theorem IsQuoted.quotable (h : IsQuoted raw) : Quotable raw := by
  induction h with
  | nil => exact fun _ _ _ => rfl
  | plain control quote backslash _ ih => exact (quotable_plain control quote backslash).append ih
  | letter mem _ ih => exact (quotable_letter mem).append ih
  | code isQuad _ ih => exact (quotable_code isQuad).append ih

theorem isRead_of_run (hm : ∀ m st, m.StartsValue → run ⟨m, st⟩ bs = State.complete v st) :
    (Part.value v).IsRead bs := by
  intro m st hstart hst
  obtain ⟨s, hs⟩ := hst.complete v
  exact ⟨s, by rw [hm m st hstart, hs], .closed hs⟩

theorem IsQuoted.isRead (h : IsQuoted raw) :
    (Part.value (.string raw)).IsRead (byte '"' :: raw ++ [byte '"']) := by
  refine isRead_of_run fun m st hm => ?_
  have hopen : step ⟨m, st⟩ (byte '"') = some ⟨.string false .none [], st⟩ := by
    rw [step_startsValue hm (by decide)]
    rfl
  have hclose : step ⟨.string false .none raw.reverse, st⟩ (byte '"') =
      State.complete (.string raw.reverse.reverse) st := rfl
  rw [List.cons_append, run_cons, hopen, Option.bind_some, run_append, h.quotable, List.append_nil,
    Option.bind_some, run_cons, hclose, List.reverse_reverse]
  exact Option.bind_fun_some _

theorem run_word (left : List UInt8) (h : left ≠ []) :
    run ⟨.word left v, st⟩ left = State.complete v st := by
  induction left with
  | nil => exact absurd rfl h
  | cons c left ih =>
    cases left with
    | nil =>
      have hs : step ⟨.word [c] v, st⟩ c = State.complete v st := if_pos rfl
      rw [run_cons, hs]
      exact Option.bind_fun_some _
    | cons d left =>
      have hs : step ⟨.word (c :: d :: left) v, st⟩ c = some ⟨.word (d :: left) v, st⟩ := if_pos rfl
      rw [run_cons, hs]
      exact ih (List.cons_ne_nil _ _)

theorem isRead_word {left : List UInt8} (h : ∀ m st, startValue b m st = some ⟨.word left v, st⟩)
    (hb : b ≠ byte ']') (hleft : left ≠ []) : (Part.value v).IsRead (b :: left) := by
  refine isRead_of_run fun m st hm => ?_
  rw [run_cons, step_startsValue hm hb, h, Option.bind_some, run_word left hleft]

theorem isRead_element (hbefore : IsSpaces before) (h : (Part.value v).IsRead bs)
    (hafter : IsSpaces after) : (Part.element v).IsRead (before ++ bs ++ after) := by
  intro m st hm hst
  obtain ⟨s, hs, hread⟩ := h m st hm hst
  obtain ⟨s', hs', hread'⟩ := hread.run_spaces hst hafter
  refine ⟨s', ?_, hread'⟩
  rw [List.append_assoc, run_spaces_value hm hbefore, run_append, hs, Option.bind_some, hs']

/-- What follows a value is read as after that value. -/
theorem HasRead.run_separator (h : HasRead v st s) (hb : IsSeparator b) (cs : List UInt8) :
    run s (b :: cs) = (State.complete v st).bind fun s => (stepToken s b).bind fun s => run s cs := by
  rw [run_cons, h.step hb, Option.bind_assoc]

theorem isRead_lastElement (h : (Part.element v).IsRead bs) : (Part.elements [v]).IsRead bs := by
  intro m st read hm
  obtain ⟨s, hs, hread⟩ := h m (.array read :: st) hm trivial
  rw [run_append, hs, Option.bind_some, hread.run_separator (Or.inr (Or.inl rfl))]
  change (State.complete (.array (v :: read).reverse) st).bind _ = _
  rw [List.reverse_cons]
  exact Option.bind_fun_some _

theorem isRead_elements (h : (Part.element v).IsRead bs) (rest : (Part.elements vs).IsRead cs) :
    (Part.elements (v :: vs)).IsRead (bs ++ byte ',' :: cs) := by
  intro m st read hm
  obtain ⟨s, hs, hread⟩ := h m (.array read :: st) hm trivial
  rw [List.append_assoc, run_append, hs, Option.bind_some, List.cons_append,
    hread.run_separator (Or.inl rfl)]
  change run ⟨.value, .array (v :: read) :: st⟩ (cs ++ [byte ']']) = _
  rw [rest .value st (v :: read) (Or.inl rfl), List.reverse_cons, List.append_assoc]
  rfl

theorem step_bracket (hm : m.StartsValue) :
    step ⟨m, st⟩ (byte '[') = some ⟨.firstItem, .array [] :: st⟩ := by
  rw [step_startsValue hm (by decide)]
  rfl

theorem step_brace (hm : m.StartsValue) :
    step ⟨m, st⟩ (byte '{') = some ⟨.firstKey, .object [] :: st⟩ := by
  rw [step_startsValue hm (by decide)]
  rfl

theorem isRead_noElements (h : IsSpaces bs) :
    (Part.value (.array [])).IsRead (byte '[' :: bs ++ [byte ']']) := by
  refine isRead_of_run fun m st hm => ?_
  rw [List.cons_append, run_cons, step_bracket hm, Option.bind_some, run_spaces_value (Or.inr rfl) h]
  exact Option.bind_fun_some _

theorem isRead_array (h : (Part.elements vs).IsRead bs) :
    (Part.value (.array vs)).IsRead (byte '[' :: bs ++ [byte ']']) := by
  refine isRead_of_run fun m st hm => ?_
  rw [List.cons_append, run_cons, step_bracket hm, Option.bind_some, h .firstItem st [] (Or.inr rfl)]
  rfl

theorem isRead_noMembers (h : IsSpaces bs) :
    (Part.value (.object [])).IsRead (byte '{' :: bs ++ [byte '}']) := by
  refine isRead_of_run fun m st hm => ?_
  rw [List.cons_append, run_cons, step_brace hm, Option.bind_some, run_spaces_key (Or.inr rfl) h]
  exact Option.bind_fun_some _

theorem isRead_object (h : (Part.members ms).IsRead bs) :
    (Part.value (.object ms)).IsRead (byte '{' :: bs ++ [byte '}']) := by
  refine isRead_of_run fun m st hm => ?_
  rw [List.cons_append, run_cons, step_brace hm, Option.bind_some, h .firstKey st [] (Or.inr rfl)]
  rfl

/-- The key of a member is read, and its value comes next. -/
theorem isRead_member (hbefore : IsSpaces before) (isKey : IsQuoted key) (hafter : IsSpaces after)
    (h : (Part.element v).IsRead bs) : (Part.member key v).IsRead
      (before ++ byte '"' :: (key ++ byte '"' :: (after ++ byte ':' :: bs))) := by
  intro m st read hm
  have hopen : step ⟨m, .object read :: st⟩ (byte '"') =
      some ⟨.string true .none [], .object read :: st⟩ := by
    rw [step_startsKey hm (by decide)]
    rfl
  have hclose : step ⟨.string true .none key.reverse, .object read :: st⟩ (byte '"') =
      some ⟨.colon, .member read key.reverse.reverse :: st⟩ := rfl
  have hcolon : step ⟨.colon, .member read key :: st⟩ (byte ':') =
      some ⟨.value, .member read key :: st⟩ := rfl
  have hspace (b : UInt8) (hb : isSpace b = true) : step ⟨.colon, .member read key :: st⟩ b =
      some ⟨.colon, .member read key :: st⟩ := if_pos hb
  obtain ⟨s, hs, hread⟩ := h .value (.member read key :: st) (Or.inl rfl) trivial
  refine ⟨s, ?_, hread⟩
  rw [run_spaces_key hm hbefore, run_cons, hopen, Option.bind_some, run_append, isKey.quotable,
    List.append_nil, Option.bind_some, run_cons, hclose, List.reverse_reverse, Option.bind_some,
    run_spaces hafter hspace, run_cons, hcolon, Option.bind_some, hs]

theorem isRead_lastMember (h : (Part.member key v).IsRead bs) :
    (Part.members [(key, v)]).IsRead bs := by
  intro m st read hm
  obtain ⟨s, hs, hread⟩ := h m st read hm
  rw [run_append, hs, Option.bind_some, hread.run_separator (Or.inr (Or.inr (Or.inl rfl)))]
  change (State.complete (.object ((key, v) :: read).reverse) st).bind _ = _
  rw [List.reverse_cons]
  exact Option.bind_fun_some _

theorem isRead_members (h : (Part.member key v).IsRead bs) (rest : (Part.members ms).IsRead cs) :
    (Part.members ((key, v) :: ms)).IsRead (bs ++ byte ',' :: cs) := by
  intro m st read hm
  obtain ⟨s, hs, hread⟩ := h m st read hm
  rw [List.append_assoc, run_append, hs, Option.bind_some, List.cons_append,
    hread.run_separator (Or.inl rfl)]
  change run ⟨.key, .object ((key, v) :: read) :: st⟩ (cs ++ [byte '}']) = _
  rw [rest .key st ((key, v) :: read) (Or.inl rfl), List.reverse_cons, List.append_assoc]
  rfl

/-- Whatever the grammar allows is read, part by part. -/
theorem Spells.isRead {part : Part} (h : Spells part bs) : part.IsRead bs := by
  induction h with
  | null => exact isRead_word (fun _ _ => rfl) (by decide) (List.cons_ne_nil _ _)
  | true => exact isRead_word (fun _ _ => rfl) (by decide) (List.cons_ne_nil _ _)
  | false => exact isRead_word (fun _ _ => rfl) (by decide) (List.cons_ne_nil _ _)
  | number h => exact h.isRead
  | string h => exact h.isRead
  | noElements h => exact isRead_noElements h
  | array _ ih => exact isRead_array ih
  | noMembers h => exact isRead_noMembers h
  | object _ ih => exact isRead_object ih
  | element hbefore _ hafter ih => exact isRead_element hbefore ih hafter
  | lastElement _ ih => exact isRead_lastElement ih
  | elements _ _ ih ihrest => exact isRead_elements ih ihrest
  | member hbefore isKey hafter _ ih => exact isRead_member hbefore isKey hafter ih
  | lastMember _ ih => exact isRead_lastMember ih
  | members _ _ ih ihrest => exact isRead_members ih ihrest

/-- A JSON text of a value is read as this value. -/
theorem IsText.parse? (h : IsText v bs) : parse? bs = some v := by
  obtain ⟨s, hs, hread⟩ := h.isRead .value [] (Or.inl rfl) trivial
  rw [Json.parse?, State.start, hs]
  exact hread.finish?

theorem IsSpaces.nil : IsSpaces [] := List.forall_mem_nil _

theorem Spells.bare (h : Spells (.value v) bs) : Spells (.element v) bs := by
  simpa using Spells.element .nil h .nil

def WellFormed (v : Json) : Prop := Spells (.value v) v.render

theorem wellFormed_bool (b : Bool) : WellFormed (.bool b) := by
  cases b with
  | true => exact .true
  | false => exact .false

theorem spells_renderItems (h : ∀ v ∈ vs, WellFormed v) (ne : vs ≠ []) :
    Spells (.elements vs) (renderItems vs) := by
  induction vs with
  | nil => exact absurd rfl ne
  | cons v vs ih =>
    obtain ⟨hv, hvs⟩ := List.forall_mem_cons.1 h
    cases vs with
    | nil => exact .lastElement (Spells.bare hv)
    | cons w vs =>
      rw [renderItems]
      · exact .elements (Spells.bare hv) (ih hvs (List.cons_ne_nil _ _))
      · exact List.cons_ne_nil _ _

theorem wellFormed_array (h : ∀ v ∈ vs, WellFormed v) : WellFormed (.array vs) := by
  cases vs with
  | nil => exact .noElements .nil
  | cons v vs => exact .array (spells_renderItems h (List.cons_ne_nil _ _))

theorem spells_renderMember (isKey : IsQuoted key) (h : WellFormed v) :
    Spells (.member key v) (renderMember (key, v)) := by
  have hmember := Spells.member .nil isKey .nil (Spells.bare h)
  rw [renderMember]
  exact hmember

theorem spells_renderMembers (hkeys : ∀ m ∈ ms, IsQuoted m.1) (h : ∀ m ∈ ms, WellFormed m.2)
    (ne : ms ≠ []) : Spells (.members ms) (renderMembers ms) := by
  induction ms with
  | nil => exact absurd rfl ne
  | cons m ms ih =>
    obtain ⟨hkey, hkeys⟩ := List.forall_mem_cons.1 hkeys
    obtain ⟨hm, hms⟩ := List.forall_mem_cons.1 h
    cases ms with
    | nil => exact .lastMember (spells_renderMember hkey hm)
    | cons m' ms =>
      rw [renderMembers]
      · exact .members (spells_renderMember hkey hm) (ih hkeys hms (List.cons_ne_nil _ _))
      · exact List.cons_ne_nil _ _

theorem wellFormed_object (hkeys : ∀ m ∈ ms, IsQuoted m.1) (h : ∀ m ∈ ms, WellFormed m.2) :
    WellFormed (.object ms) := by
  cases ms with
  | nil => exact .noMembers .nil
  | cons m ms => exact .object (spells_renderMembers hkeys h (List.cons_ne_nil _ _))

theorem render_object (members : List (List UInt8 × Json)) :
    (Json.object members).render = byte '{' :: (renderMembers members ++ [byte '}']) := by
  rw [render, List.cons_append]

theorem parse?_render (h : WellFormed v) : parse? v.render = some v :=
  IsText.parse? (Spells.bare h)

end PeerWatch.Json
