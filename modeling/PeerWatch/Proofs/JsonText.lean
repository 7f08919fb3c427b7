import Mathlib.Tactic.IntervalCases
import PeerWatch.Json.Record
import PeerWatch.Proofs.JsonGrammar

/-! Texts, integers and records in JSON. What is written of them is as the grammar allows, and it is
read as the same text, integer or record. A text is read from each of the ways to write it. -/
namespace PeerWatch.Json
variable {b x : UInt8} {bs rest raw : List UInt8} {c e : Char} {s : List Char} {n : Nat}

theorem mem_encodeChar (control : ' ' ≤ c) (quote : c ≠ '"') (backslash : c ≠ '\\')
    (hb : b ∈ Utf8.encodeChar c) : byte ' ' ≤ b ∧ b ≠ byte '"' ∧ b ≠ byte '\\' := by
  have hcontrol : 32 ≤ c.toNat := control
  by_cases hc : c.toNat < 0x80
  · rw [Utf8.encodeChar, Utf8.encodeNat_of_lt hc, List.mem_singleton] at hb
    have hn : b.toNat = c.toNat := by rw [hb, Utf8.toNat_toUInt8 (by omega)]
    have hne {d : Char} (hd : d.toNat < 256) (h : c ≠ d) : b ≠ byte d := by
      rintro rfl
      rw [Utf8.toNat_toUInt8 hd] at hn
      exact h (Char.toNat_inj.1 hn.symm)
    refine ⟨?_, hne (by decide) quote, hne (by decide) backslash⟩
    rw [UInt8.le_iff_toNat_le, hn]
    exact hcontrol
  · have hle := Utf8.le_of_mem_encodeNat (Nat.not_lt.1 hc) (by have := Utf8.toNat_lt c; omega) hb
    refine ⟨?_, ?_, ?_⟩
    · rw [UInt8.le_iff_toNat_le]
      exact Nat.le_trans (by decide) hle
    · rintro rfl
      exact absurd hle (by decide)
    · rintro rfl
      exact absurd hle (by decide)

theorem isDigit_digitChar {b d : Nat} (h : d < b) : Text.IsDigit b (Text.digitChar d) d :=
  ⟨h, Or.inl rfl⟩

theorem isQuad_control (h : n < 32) : IsQuad
    [byte '0', byte '0', byte (Text.digitChar (n / 16)), byte (Text.digitChar (n % 16))] n := by
  refine ⟨['0', '0', Text.digitChar (n / 16), Text.digitChar (n % 16)], rfl, rfl, ?_⟩
  have hzero : Text.IsDigit 16 '0' 0 := isDigit_digitChar (by decide)
  have hwrites := Text.Writes.concat (.concat (.concat (.digit hzero) hzero)
    (isDigit_digitChar (by omega : n / 16 < 16))) (isDigit_digitChar (by omega : n % 16 < 16))
  have hn : 16 * (16 * (16 * 0 + 0) + n / 16) + n % 16 = n := by omega
  rwa [hn] at hwrites

theorem escaped_escapeChar (c : Char) : Escaped c (Utf8.encode (escapeChar c)) := by
  unfold escapeChar
  split_ifs with h₁ h₂ h₃ h₄ h₅ h₆ h₇ h₈
  · subst h₁
    exact .letter (e := '"') (by decide)
  · subst h₂
    exact .letter (e := '\\') (by decide)
  · subst h₃
    exact .letter (e := 'n') (by decide)
  · subst h₄
    exact .letter (e := 'r') (by decide)
  · subst h₅
    exact .letter (e := 't') (by decide)
  · subst h₆
    exact .letter (e := 'b') (by decide)
  · subst h₇
    exact .letter (e := 'f') (by decide)
  · have hd {d : Nat} (h : d < 16) :
        Utf8.encodeChar (Text.digitChar d) = [byte (Text.digitChar d)] :=
      Utf8.encodeNat_of_lt (Text.digitChar_lt h)
    have hs := Escaped.code (isQuad_control h₈)
    simp only [Utf8.encode, List.flatMap_cons, List.flatMap_nil, hd (by omega : c.toNat / 16 < 16),
      hd (by omega : c.toNat % 16 < 16)]
    exact hs
  · have hs : Utf8.encode [c] = Utf8.encodeChar c := List.append_nil _
    rw [hs]
    exact .plain (Nat.not_lt.1 h₈) h₁ h₂

theorem escape_cons (c : Char) (s : List Char) :
    escape (c :: s) = Utf8.encode (escapeChar c) ++ escape s := by
  rw [escape, List.flatMap_cons, Utf8.encode_append]
  rfl

/-- What is written of a text is one of the ways to write it. -/
theorem quotes_escape (s : List Char) : Quotes s (escape s) := by
  induction s with
  | nil => exact .nil
  | cons c s ih =>
    rw [escape_cons]
    exact .cons (escaped_escapeChar c) ih

theorem isQuoted_append (h : ∀ b ∈ bs, byte ' ' ≤ b ∧ b ≠ byte '"' ∧ b ≠ byte '\\')
    (hraw : IsQuoted raw) : IsQuoted (bs ++ raw) := by
  induction bs with
  | nil => exact hraw
  | cons b bs ih =>
    obtain ⟨⟨control, quote, backslash⟩, h⟩ := List.forall_mem_cons.1 h
    exact .plain control quote backslash (ih h)

theorem Escaped.isQuoted (h : Escaped c bs) (hraw : IsQuoted raw) : IsQuoted (bs ++ raw) := by
  cases h with
  | plain control quote backslash =>
    exact isQuoted_append (fun b hb => mem_encodeChar control quote backslash hb) hraw
  | letter mem => exact .letter mem hraw
  | code isQuad => exact .code isQuad hraw
  | pair isHigh isLow =>
    have hpair := IsQuoted.code isHigh (.code isLow hraw)
    simpa using hpair

theorem Quotes.isQuoted (h : Quotes s raw) : IsQuoted raw := by
  induction h with
  | nil => exact .nil
  | cons hc _ ih => exact hc.isQuoted ih

theorem ne_of_escapedByte? {e : UInt8} (h : escapedByte? e = some x) : e ≠ byte 'u' := by
  rintro rfl
  cases h

theorem escapedByte?_of_mem (h : (e, c) ∈ escapes) :
    ∃ x, escapedByte? (byte e) = some x ∧ Utf8.encodeChar c = [x] := by
  simp only [escapes, List.mem_cons, Prod.mk.injEq, List.not_mem_nil, or_false] at h
  rcases h with ⟨rfl, rfl⟩ | ⟨rfl, rfl⟩ | ⟨rfl, rfl⟩ | ⟨rfl, rfl⟩ | ⟨rfl, rfl⟩ | ⟨rfl, rfl⟩ |
    ⟨rfl, rfl⟩ | ⟨rfl, rfl⟩ <;> exact ⟨_, rfl, rfl⟩

theorem unescape_plain (hb : b ≠ byte '\\') (bs : List UInt8) :
    unescape (b :: bs) = (unescape bs).map (b :: ·) := by
  rw [unescape.eq_def]
  exact if_neg hb

theorem unescape_letter {e : UInt8} (h : escapedByte? e = some x) (bs : List UInt8) :
    unescape (byte '\\' :: e :: bs) = (unescape bs).map (x :: ·) := by
  rw [unescape, if_pos rfl, if_neg (ne_of_escapedByte? h), h]

theorem unescape_code (h : codePoint? bs = some (n, rest)) :
    unescape (byte '\\' :: byte 'u' :: bs) = (unescape rest).map (Utf8.encodeNat n ++ ·) := by
  rw [unescape, if_pos rfl, if_pos rfl]
  split
  · next hn => rw [h] at hn; cases hn
  · next hn => rw [h] at hn; cases hn; rfl

theorem unescape_append_plain {xs : List UInt8} (h : ∀ b ∈ xs, b ≠ byte '\\')
    (rest : List UInt8) : unescape (xs ++ rest) = (unescape rest).map (xs ++ ·) := by
  induction xs with
  | nil => simp
  | cons b xs ih =>
    rw [List.cons_append, unescape_plain (h b List.mem_cons_self),
      ih fun b hb => h b (List.mem_cons_of_mem _ hb), Option.map_map]
    rfl

theorem codePoint?_quad (h : IsQuad raw c.toNat) (rest : List UInt8) :
    codePoint? (raw ++ rest) = some (c.toNat, rest) := by
  have hc := Utf8.toNat_lt c
  simp only [codePoint?, h.hexQuad? rest]
  exact if_pos (by omega)

theorem codePoint?_pair {high low : List UInt8} {m n : Nat} (isHigh : IsQuad high (0xD800 + m))
    (isLow : IsQuad low (0xDC00 + n)) (hm : m < 0x400) (hn : n < 0x400) (rest : List UInt8) :
    codePoint? (high ++ byte '\\' :: byte 'u' :: (low ++ rest)) =
      some (0x10000 + 0x400 * m + n, rest) := by
  have hrange : 0xDC00 ≤ 0xDC00 + n ∧ 0xDC00 + n ≤ 0xDFFF := by omega
  have hchar : 0x10000 + (0xD800 + m - 0xD800) * 0x400 + (0xDC00 + n - 0xDC00) =
      0x10000 + 0x400 * m + n := by omega
  simp only [codePoint?, isHigh.hexQuad?, isLow.hexQuad?, and_self, if_true]
  rw [if_neg (by omega), if_neg (by omega), if_pos hrange, hchar]

/-- A character is read as itself, however it is written. -/
theorem Escaped.unescape_append (h : Escaped c bs) (rest : List UInt8) :
    unescape (bs ++ rest) = (unescape rest).map (Utf8.encodeChar c ++ ·) := by
  cases h with
  | plain control quote backslash =>
    exact unescape_append_plain (fun b hb => (mem_encodeChar control quote backslash hb).2.2) rest
  | letter mem =>
    obtain ⟨x, hx, hc⟩ := escapedByte?_of_mem mem
    rw [hc]
    exact unescape_letter hx rest
  | code isQuad => exact unescape_code (codePoint?_quad isQuad rest)
  | pair isHigh isLow hm hn char =>
    have hpair := codePoint?_pair isHigh isLow hm hn rest
    rw [← char] at hpair
    simpa [Utf8.encodeChar] using unescape_code hpair

theorem Quotes.unescape (h : Quotes s raw) : unescape raw = some (Utf8.encode s) := by
  induction h with
  | nil => exact unescape.eq_1
  | cons hc _ ih =>
    rw [hc.unescape_append, ih]
    rfl

/-- A text is read from each of the ways to write it. -/
theorem Quotes.textOf? (h : Quotes s raw) : textOf? raw = some (String.ofList s) := by
  rw [Json.textOf?, h.unescape, Option.bind_some, Utf8.decode?_encode]
  rfl

theorem text?_ofText (s : String) : text? (ofText s) = some s := by
  rw [ofText, text?, (quotes_escape _).textOf?, String.ofList_toList]

theorem exists_of_mem_decimal (h : c ∈ Text.decimal n) : ∃ d < 10, c = Text.digitChar d :=
  Text.exists_of_mem_digitsIn h

/-- A positive number begins with a digit that is not zero. -/
theorem isWhole_decimal (n : Nat) : IsWhole (Utf8.encode (Text.decimal n)) := by
  rcases Nat.eq_zero_or_pos n with rfl | hn
  · rw [Text.decimal_zero]
    exact .zero
  obtain ⟨d, ds, hpos, hlt, hds⟩ := Text.digitsIn_of_pos (b := 8) hn
  have hd {e : Nat} (he : e < 10) :
      Utf8.encodeChar (Text.digitChar e) = [byte (Text.digitChar e)] :=
    Utf8.encodeNat_of_lt (Text.digitChar_lt (by omega))
  rw [Text.decimal, hds, Utf8.encode, List.flatMap_cons, hd hlt]
  refine .digits ?_ fun b hb => ?_
  · interval_cases d <;> decide
  · obtain ⟨c, hc, hb⟩ := List.mem_flatMap.1 hb
    obtain ⟨e, he, rfl⟩ := exists_of_mem_decimal (hds ▸ List.mem_cons_of_mem _ hc)
    rw [hd he, List.mem_singleton] at hb
    rw [hb]
    interval_cases e <;> decide

theorem isNumeral_decimalInt (n : Int) : IsNumeral (Utf8.encode (Text.decimalInt n)) := by
  cases n with
  | ofNat n =>
    have h := IsNumeral.intro (Or.inl rfl) (isWhole_decimal n) .none .none
    rw [List.append_nil, List.append_nil] at h
    exact h
  | negSucc n =>
    have h := IsNumeral.intro (Or.inr rfl) (isWhole_decimal (n + 1)) .none .none
    rw [List.append_nil, List.append_nil] at h
    exact h

/-- Characters below U+0080 come back one from each byte. -/
theorem map_ofNat_encode {s : List Char} (h : ∀ c ∈ s, c.toNat < 0x80) :
    (Utf8.encode s).map (fun b => Char.ofNat b.toNat) = s := by
  induction s with
  | nil => rfl
  | cons c s ih =>
    have hc := h c List.mem_cons_self
    have he : Utf8.encode (c :: s) = c.toNat.toUInt8 :: Utf8.encode s := by
      rw [Utf8.encode, List.flatMap_cons, Utf8.encodeChar, Utf8.encodeNat_of_lt hc]
      rfl
    rw [he, List.map_cons, Utf8.toNat_toUInt8 (by omega), Char.ofNat_toNat,
      ih fun c hc => h c (List.mem_cons_of_mem _ hc)]

theorem map_ofNat_decimal (n : Nat) :
    (Utf8.encode (Text.decimal n)).map (fun b => Char.ofNat b.toNat) = Text.decimal n := by
  refine map_ofNat_encode fun c hc => ?_
  obtain ⟨d, hd, rfl⟩ := exists_of_mem_decimal hc
  exact Text.digitChar_lt (by omega)

/-- A written integer is read as itself. -/
theorem intOf?_decimalInt (n : Int) : intOf? (Utf8.encode (Text.decimalInt n)) = some n := by
  match n with
  | .ofNat n =>
    rw [Text.decimalInt, intOf?, map_ofNat_decimal]
    split
    · next ds hds =>
      -- no digit is a sign
      obtain ⟨d, hd, hc⟩ := exists_of_mem_decimal (hds ▸ List.mem_cons_self : '-' ∈ Text.decimal n)
      have hall : ∀ e < 10, '-' ≠ Text.digitChar e := by decide
      exact absurd hc (hall d hd)
    · rw [Text.number?_decimal]
      rfl
  | .negSucc n =>
    have hm : (Utf8.encode (Text.decimalInt (.negSucc n))).map (fun b => Char.ofNat b.toNat) =
        '-' :: Text.decimal (n + 1) := congrArg ('-' :: ·) (map_ofNat_decimal (n + 1))
    rw [intOf?, hm]
    simp only [Text.number?_decimal, Option.bind_some, if_neg (Nat.succ_ne_zero n)]
    rfl

theorem int64?_ofInt (n : Int64) : int64? (ofInt n.toInt) = some n := by
  have hlo := n.le_toInt
  have hhi := n.toInt_lt
  have hint : int? (ofInt n.toInt) = some n.toInt := intOf?_decimalInt n.toInt
  rw [int64?, hint, Option.bind_some, if_pos (by omega), Int64.ofInt_toInt]

theorem list?_map {α : Type} {read : Json → Option α} {write : α → Json}
    (h : ∀ x, read (write x) = some x) (xs : List α) :
    list? read (.array (xs.map write)) = some xs := by
  simp only [list?, items?, Option.bind_some]
  induction xs with
  | nil => rfl
  | cons x xs ih =>
    rw [List.map_cons, List.mapM_cons, h, ih]
    rfl

theorem wellFormed_ofText (s : String) : WellFormed (ofText s) := .string (quotes_escape _).isQuoted

theorem wellFormed_ofInt (n : Int) : WellFormed (ofInt n) := .number (isNumeral_decimalInt n)

theorem wellFormed_ofFields {fields : List (String × Json)} (h : ∀ f ∈ fields, WellFormed f.2) :
    WellFormed (ofFields fields) := by
  refine wellFormed_object ?_ ?_
  · intro m hm
    obtain ⟨f, -, rfl⟩ := List.mem_map.1 hm
    exact (quotes_escape _).isQuoted
  · intro m hm
    obtain ⟨f, hf, rfl⟩ := List.mem_map.1 hm
    exact h f hf

theorem named?_ofFields (fields : List (String × Json)) :
    named? (fields.map fun (k, v) => (escape k.toList, v)) = some fields := by
  induction fields with
  | nil => rfl
  | cons f fields ih =>
    have hf : (textOf? (escape f.1.toList)).map (fun name => (name, f.2)) = some f := by
      rw [(quotes_escape _).textOf?, String.ofList_toList]
      rfl
    rw [named?] at ih ⊢
    rw [List.map_cons, List.mapM_cons, ih]
    exact congrArg (fun o => o.bind fun m => some (m :: fields)) hf

/-- A record has the fields that were written of it. -/
theorem fields?_ofFields {names : List String} {fields : List (String × Json)}
    (hsub : (fields.map Prod.fst).Sublist names) (hnodup : names.Nodup) :
    fields? names (ofFields fields) = some fields := by
  have hall : (fields.filter fun m => names.contains m.1) = fields := by
    refine List.filter_eq_self.2 fun f hf => ?_
    simpa using hsub.subset (List.mem_map_of_mem hf)
  rw [ofFields, fields?, named?_ofFields]
  change (if ((fields.filter fun m => names.contains m.1).map (·.1)).Nodup then
    some (fields.filter fun m => names.contains m.1) else none) = _
  rw [hall, if_pos (hsub.nodup hnodup)]

end PeerWatch.Json
