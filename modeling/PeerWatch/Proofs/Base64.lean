import Mathlib.Data.List.Basic
import PeerWatch.Proofs.Utf8
import PeerWatch.Text.Base64

/-! Base64 texts that were written are read back, and no others are read. One that was cut short is no
text, or it is the text of fewer bytes: the first symbol that is missing takes a byte with it. -/
namespace PeerWatch.Base64
variable {bs out p : List UInt8} {xs : List Nat} {n k : Nat} {b : UInt8}

def IsSymbol (b : UInt8) : Prop := (value? b).isSome = true

theorem value?_symbol (h : n < 64) : value? (symbol n) = some n := by
  have hall : ∀ m < 64, value? (symbol m) = some m := by decide
  exact hall n h

theorem isSymbol_symbol (h : n < 64) : IsSymbol (symbol n) := by
  rw [IsSymbol, value?_symbol h]
  rfl

theorem IsSymbol.ne {c : UInt8} (h : IsSymbol b) (hc : value? c = none) : b ≠ c := by
  rintro rfl
  rw [IsSymbol, hc] at h
  cases h

theorem IsSymbol.isNone_eq (h : IsSymbol b) : (value? b).isNone = false := by
  rw [IsSymbol] at h
  simpa using h

theorem lt_of_mem_sextets (h : n ∈ sextets bs) : n < 64 := by
  fun_induction sextets bs with
  | case1 => cases h
  | case2 a =>
    have ha := a.toNat_lt
    simp only [List.mem_cons, List.not_mem_nil, or_false] at h
    omega
  | case3 a b =>
    have ha := a.toNat_lt
    have hb := b.toNat_lt
    simp only [List.mem_cons, List.not_mem_nil, or_false] at h
    omega
  | case4 a b c rest ih =>
    have ha := a.toNat_lt
    have hb := b.toNat_lt
    have hc := c.toNat_lt
    simp only [List.mem_cons] at h
    rcases h with h | h | h | h | h
    · omega
    · omega
    · omega
    · omega
    · exact ih h

theorem isSymbol_of_mem_encode (h : b ∈ encode bs) : IsSymbol b := by
  obtain ⟨n, hn, rfl⟩ := List.mem_map.1 h
  exact isSymbol_symbol (lt_of_mem_sextets hn)

/-- The symbols are the letters, the digits, plus and slash. -/
theorem isSymbol_iff :
    IsSymbol b ↔ let c := Char.ofNat b.toNat; c.isAlphanum ∨ c = '+' ∨ c = '/' := by
  have hall : ∀ m < 256, (value? (UInt8.ofNat m)).isSome = true ↔
      (Char.ofNat m).isAlphanum ∨ Char.ofNat m = '+' ∨ Char.ofNat m = '/' := by decide +kernel
  have hb := hall b.toNat b.toNat_lt
  rwa [UInt8.ofNat_toNat] at hb

theorem IsSymbol.lt (h : IsSymbol b) : b.toNat < 0x80 := by
  rw [IsSymbol, value?] at h
  split_ifs at h
  all_goals first | omega | cases h

/-- Only letters, digits, plus and slash are written. -/
theorem isAlphanum_of_mem_encode (h : b ∈ encode bs) :
    let c := Char.ofNat b.toNat
    c.isAlphanum ∨ c = '+' ∨ c = '/' :=
  isSymbol_iff.1 (isSymbol_of_mem_encode h)

theorem length_sextets (bs : List UInt8) : (sextets bs).length = (4 * bs.length + 2) / 3 := by
  fun_induction sextets bs with
  | case1 => rfl
  | case2 a => simp
  | case3 a b => simp
  | case4 a b c rest ih =>
    simp only [List.length_cons, ih]
    omega

/-- Four values stand for three bytes, and no value stands alone. -/
theorem length_of_unsextets (h : unsextets xs = some out) :
    out.length = 3 * xs.length / 4 ∧ xs.length % 4 ≠ 1 := by
  fun_induction unsextets xs generalizing out with
  | case1 =>
    cases h
    simp
  | case2 a => cases h
  | case3 a b hb =>
    cases h
    simp
  | case4 a b hb => cases h
  | case5 a b c hc =>
    cases h
    simp
  | case6 a b c hc => cases h
  | case7 a b c d rest ih =>
    obtain ⟨out, ho, rfl⟩ := Option.map_eq_some_iff.1 h
    obtain ⟨hl, hm⟩ := ih ho
    simp only [List.length_cons, hl]
    omega

theorem unsextets_sextets (bs : List UInt8) : unsextets (sextets bs) = some bs := by
  fun_induction sextets bs with
  | case1 => rfl
  | case2 a =>
    have ha : (4 * (a.toNat / 4) + a.toNat % 4 * 16 / 16).toUInt8 = a := Utf8.toUInt8_eq (by omega)
    have hs : a.toNat % 4 * 16 % 16 = 0 := by omega
    rw [unsextets, if_pos hs, ha]
  | case3 a b =>
    have hb := b.toNat_lt
    have h₁ : (4 * (a.toNat / 4) + (a.toNat % 4 * 16 + b.toNat / 16) / 16).toUInt8 = a :=
      Utf8.toUInt8_eq (by omega)
    have h₂ : ((a.toNat % 4 * 16 + b.toNat / 16) % 16 * 16 + b.toNat % 16 * 4 / 4).toUInt8 = b :=
      Utf8.toUInt8_eq (by omega)
    have hs : b.toNat % 16 * 4 % 4 = 0 := by omega
    rw [unsextets, if_pos hs, h₁, h₂]
  | case4 a b c rest ih =>
    have hb := b.toNat_lt
    have hc := c.toNat_lt
    have h₁ : (4 * (a.toNat / 4) + (a.toNat % 4 * 16 + b.toNat / 16) / 16).toUInt8 = a :=
      Utf8.toUInt8_eq (by omega)
    have h₂ : ((a.toNat % 4 * 16 + b.toNat / 16) % 16 * 16 +
        (b.toNat % 16 * 4 + c.toNat / 64) / 4).toUInt8 = b := Utf8.toUInt8_eq (by omega)
    have h₃ : ((b.toNat % 16 * 4 + c.toNat / 64) % 4 * 64 + c.toNat % 64).toUInt8 = c :=
      Utf8.toUInt8_eq (by omega)
    rw [unsextets, ih, Option.map_some, h₁, h₂, h₃]

/-- The bytes that values stand for begin with those that the first values stand for. -/
theorem prefix_of_unsextets {ys : List Nat} {part : List UInt8} (hp : unsextets xs = some part)
    (h : unsextets (xs ++ ys) = some out) : part <+: out := by
  fun_induction unsextets xs generalizing part out with
  | case1 =>
    cases hp
    exact List.nil_prefix
  | case2 a => cases hp
  | case3 a b hb =>
    -- a second or third byte takes the first one as it is
    cases hp
    match ys with
    | [] =>
      rw [List.append_nil, unsextets, if_pos hb] at h
      cases h
      exact List.prefix_rfl
    | [c] =>
      simp only [List.cons_append, List.nil_append, unsextets] at h
      split_ifs at h
      cases h
      simp
    | c :: d :: ys =>
      obtain ⟨rest, -, rfl⟩ := Option.map_eq_some_iff.1 h
      simp
  | case4 a b hb => cases hp
  | case5 a b c hc =>
    cases hp
    match ys with
    | [] =>
      rw [List.append_nil, unsextets, if_pos hc] at h
      cases h
      exact List.prefix_rfl
    | d :: ys =>
      obtain ⟨rest, -, rfl⟩ := Option.map_eq_some_iff.1 h
      simp
  | case6 a b c hc => cases hp
  | case7 a b c d rest ih =>
    obtain ⟨part, hpart, rfl⟩ := Option.map_eq_some_iff.1 hp
    obtain ⟨out, hout, rfl⟩ := Option.map_eq_some_iff.1 h
    simpa using ih hpart hout

theorem filterMap_value?_symbol (h : ∀ x ∈ xs, x < 64) :
    (xs.map symbol).filterMap value? = xs := by
  rw [List.filterMap_map]
  have hv : ∀ x ∈ xs, (value? ∘ symbol) x = some x := fun x hx => value?_symbol (h x hx)
  rw [List.filterMap_congr hv, List.filterMap_some]

theorem foreign?_eq_none (i : Nat) (h : ∀ b ∈ bs, IsSymbol b) : foreign? i bs = none := by
  induction bs generalizing i with
  | nil => rfl
  | cons b bs ih =>
    rw [foreign?, (h b List.mem_cons_self).isNone_eq, if_neg Bool.false_ne_true]
    exact ih _ fun b hb => h b (List.mem_cons_of_mem _ hb)

theorem blockFault?_eq_none (start i : Nat) (h : ∀ b ∈ bs, IsSymbol b) :
    blockFault? start i none bs = none := by
  induction bs generalizing i with
  | nil => rfl
  | cons b bs ih =>
    have hb : IsSymbol b := h b List.mem_cons_self
    rw [blockFault?, if_neg (hb.ne (by decide)), hb.isNone_eq, if_neg Bool.false_ne_true]
    exact ih _ fun b hb => h b (List.mem_cons_of_mem _ hb)

/-- Of symbols alone nothing is wrong but a lone one at the end or bits that are set in it. -/
theorem decode_symbols (h : ∀ x ∈ xs, x < 64) :
    decode (xs.map symbol) = .ok out ↔ unsextets xs = some out := by
  have hs : ∀ b ∈ xs.map symbol, IsSymbol b := by
    intro b hb
    obtain ⟨x, hx, rfl⟩ := List.mem_map.1 hb
    exact isSymbol_symbol (h x hx)
  by_cases hm : xs.length % 4 = 1
  · have hu : unsextets xs ≠ some out := fun hu => (length_of_unsextets hu).2 hm
    simp [decode, fault?, hm, hu]
  · have hf : fault? (xs.map symbol) = none := by
      simp only [fault?, List.length_map, if_neg hm]
      rw [foreign?_eq_none _ fun b hb => hs b (List.mem_of_mem_take hb)]
      exact blockFault?_eq_none _ _ fun b hb => hs b (List.mem_of_mem_drop hb)
    rw [decode, hf, filterMap_value?_symbol h]
    cases unsextets xs <;> simp

theorem decode_encode (bs : List UInt8) : decode (encode bs) = .ok bs :=
  (decode_symbols fun _ => lt_of_mem_sextets).2 (unsextets_sextets bs)

/-- A byte with a value is the symbol of it. -/
theorem symbol_of_value? (h : value? b = some n) : n < 64 ∧ symbol n = b := by
  unfold value? at h
  dsimp only at h
  split_ifs at h with h₁ h₂ h₃ h₄ h₅ <;> cases h
  · refine ⟨by omega, ?_⟩
    rw [symbol, if_pos (by omega)]
    exact Utf8.toUInt8_eq (by omega)
  · refine ⟨by omega, ?_⟩
    rw [symbol, if_neg (by omega), if_pos (by omega)]
    exact Utf8.toUInt8_eq (by omega)
  · refine ⟨by omega, ?_⟩
    rw [symbol, if_neg (by omega), if_neg (by omega), if_pos (by omega)]
    exact Utf8.toUInt8_eq (by omega)
  · exact ⟨by decide, Utf8.toUInt8_eq (n := 43) h₄.symm⟩
  · exact ⟨by decide, Utf8.toUInt8_eq (n := 47) h₅.symm⟩

theorem map_symbol_filterMap_value? (h : ∀ b ∈ bs, IsSymbol b) :
    (bs.filterMap value?).map symbol = bs := by
  induction bs with
  | nil => rfl
  | cons b bs ih =>
    obtain ⟨hb, hbs⟩ := List.forall_mem_cons.1 h
    obtain ⟨n, hn⟩ := Option.isSome_iff_exists.1 hb
    rw [List.filterMap_cons_some hn, List.map_cons, ih hbs, (symbol_of_value? hn).2]

theorem lt_of_mem_filterMap_value? (h : n ∈ bs.filterMap value?) : n < 64 := by
  obtain ⟨b, -, hb⟩ := List.mem_filterMap.1 h
  exact (symbol_of_value? hb).1

/-- Only the values of bytes stand for them. -/
theorem sextets_of_unsextets (hxs : ∀ x ∈ xs, x < 64) (h : unsextets xs = some out) :
    sextets out = xs := by
  fun_induction unsextets xs generalizing out with
  | case1 =>
    cases h
    rfl
  | case2 a => cases h
  | case3 a b hb =>
    cases h
    simp only [List.forall_mem_cons, List.not_mem_nil, false_implies, implies_true, and_true] at hxs
    rw [sextets, Utf8.toNat_toUInt8 (by omega)]
    have h₁ : (4 * a + b / 16) / 4 = a := by omega
    have h₂ : (4 * a + b / 16) % 4 * 16 = b := by omega
    rw [h₁, h₂]
  | case4 a b hb => cases h
  | case5 a b c hc =>
    cases h
    simp only [List.forall_mem_cons, List.not_mem_nil, false_implies, implies_true, and_true] at hxs
    rw [sextets, Utf8.toNat_toUInt8 (by omega), Utf8.toNat_toUInt8 (by omega)]
    have h₁ : (4 * a + b / 16) / 4 = a := by omega
    have h₂ : (4 * a + b / 16) % 4 * 16 + (b % 16 * 16 + c / 4) / 16 = b := by omega
    have h₃ : (b % 16 * 16 + c / 4) % 16 * 4 = c := by omega
    rw [h₁, h₂, h₃]
  | case6 a b c hc => cases h
  | case7 a b c d rest ih =>
    obtain ⟨out, ho, rfl⟩ := Option.map_eq_some_iff.1 h
    simp only [List.forall_mem_cons] at hxs
    obtain ⟨ha, hb, hc, hd, hrest⟩ := hxs
    rw [sextets, ih hrest ho, Utf8.toNat_toUInt8 (by omega), Utf8.toNat_toUInt8 (by omega),
      Utf8.toNat_toUInt8 (by omega)]
    have h₁ : (4 * a + b / 16) / 4 = a := by omega
    have h₂ : (4 * a + b / 16) % 4 * 16 + (b % 16 * 16 + c / 4) / 16 = b := by omega
    have h₃ : (b % 16 * 16 + c / 4) % 16 * 4 + (c % 4 * 64 + d) / 64 = c := by omega
    have h₄ : (c % 4 * 64 + d) % 64 = d := by omega
    rw [h₁, h₂, h₃, h₄]

theorem isSymbol_of_foreign? {i : Nat} (h : foreign? i bs = none) : ∀ b ∈ bs, IsSymbol b := by
  induction bs generalizing i with
  | nil => exact List.forall_mem_nil _
  | cons b bs ih =>
    rw [foreign?] at h
    split_ifs at h with hb
    exact List.forall_mem_cons.2 ⟨by simpa [IsSymbol, Option.isSome_iff_ne_none] using hb, ih h⟩

/-- Once a padding sign was seen there is a fault. -/
theorem blockFault?_padded (start i first : Nat) (bs : List UInt8) :
    blockFault? start i (some first) bs ≠ none := by
  induction bs generalizing i with
  | nil => simp [blockFault?]
  | cons b bs ih =>
    rw [blockFault?]
    split_ifs
    · simp
    · exact ih _
    · simp

theorem isSymbol_of_blockFault? {start i : Nat} (h : blockFault? start i none bs = none) :
    ∀ b ∈ bs, IsSymbol b := by
  induction bs generalizing i with
  | nil => exact List.forall_mem_nil _
  | cons b bs ih =>
    rw [blockFault?] at h
    split_ifs at h with hpad hi hb
    · exact absurd h (blockFault?_padded _ _ _ _)
    · exact List.forall_mem_cons.2 ⟨by simpa [IsSymbol, Option.isSome_iff_ne_none] using hb, ih h⟩

theorem isSymbol_of_fault? (h : fault? bs = none) : ∀ b ∈ bs, IsSymbol b := by
  unfold fault? at h
  dsimp only at h
  split_ifs at h
  split at h
  · cases h
  · next hforeign =>
    intro b hb
    rw [← List.take_append_drop (lastBlock bs.length) bs] at hb
    rcases List.mem_append.1 hb with hb | hb
    · exact isSymbol_of_foreign? hforeign b hb
    · exact isSymbol_of_blockFault? h b hb

/-- What is decoded is what encoding gives, and nothing else is. -/
theorem decode_eq_ok_iff : decode bs = .ok out ↔ bs = encode out := by
  constructor
  · intro h
    have hsymbols : ∀ b ∈ bs, IsSymbol b := by
      unfold decode at h
      split at h
      · cases h
      · exact isSymbol_of_fault? ‹_›
    have hlt : ∀ x ∈ bs.filterMap value?, x < 64 := fun x => lt_of_mem_filterMap_value?
    rw [← map_symbol_filterMap_value? hsymbols, decode_symbols hlt] at h
    rw [encode, sextets_of_unsextets hlt h, map_symbol_filterMap_value? hsymbols]
  · rintro rfl
    exact decode_encode out

/-- The bits of the last value that are part of no byte. -/
def spareBits (xs : List Nat) : Nat :=
  if xs.length % 4 = 2 then xs.getLastD 0 % 16
  else if xs.length % 4 = 3 then xs.getLastD 0 % 4
  else 0

theorem length_add_four (a b c d : Nat) (xs : List Nat) :
    (a :: b :: c :: d :: xs).length % 4 = xs.length % 4 := by
  simp only [List.length_cons]
  omega

theorem spareBits_cons (a b c d : Nat) (xs : List Nat) :
    spareBits (a :: b :: c :: d :: xs) = spareBits xs := by
  rw [spareBits, length_add_four, spareBits]
  cases xs with
  | nil => simp
  | cons x xs => simp only [List.getLastD_cons]

/-- Values stand for bytes unless one stands alone or spare bits are set. -/
theorem exists_unsextets_iff :
    (∃ out, unsextets xs = some out) ↔ xs.length % 4 ≠ 1 ∧ spareBits xs = 0 := by
  fun_induction unsextets xs with
  | case1 => simp [spareBits]
  | case2 a => simp
  | case3 a b hb => simp [spareBits, hb]
  | case4 a b hb => simp [spareBits, hb]
  | case5 a b c hc => simp [spareBits, hc]
  | case6 a b c hc => simp [spareBits, hc]
  | case7 a b c d rest ih =>
    rw [length_add_four, spareBits_cons, ← ih]
    simp [Option.map_eq_some_iff]

/-- The texts that are read: symbols alone, none of them left over at the end, no spare bit set. -/
theorem exists_encode_iff : (∃ out, bs = encode out) ↔
    (∀ b ∈ bs, IsSymbol b) ∧ bs.length % 4 ≠ 1 ∧ spareBits (bs.filterMap value?) = 0 := by
  have hlen (h : ∀ b ∈ bs, IsSymbol b) : (bs.filterMap value?).length = bs.length := by
    conv_rhs => rw [← map_symbol_filterMap_value? h, List.length_map]
  constructor
  · rintro ⟨out, rfl⟩
    have hsymbols : ∀ b ∈ encode out, IsSymbol b := fun b => isSymbol_of_mem_encode
    have hxs : (encode out).filterMap value? = sextets out :=
      filterMap_value?_symbol fun _ => lt_of_mem_sextets
    have h := exists_unsextets_iff.1 ⟨out, unsextets_sextets out⟩
    rw [← hxs, hlen hsymbols] at h
    exact ⟨hsymbols, h⟩
  · rintro ⟨hsymbols, h⟩
    rw [← hlen hsymbols] at h
    obtain ⟨out, hout⟩ := exists_unsextets_iff.2 h
    have hlt : ∀ x ∈ bs.filterMap value?, x < 64 := fun x => lt_of_mem_filterMap_value?
    rw [← decode_symbols hlt, map_symbol_filterMap_value? hsymbols, decode_eq_ok_iff] at hout
    exact ⟨out, hout⟩

theorem encode_ne_nil (h : bs ≠ []) : encode bs ≠ [] := by
  have hlen := List.length_pos_iff.2 h
  rw [← List.length_pos_iff, encode, List.length_map, length_sextets]
  omega

/-- What a text says that was cut short is the beginning of what the whole text says. -/
theorem prefix_of_decode (hp : p <+: encode bs) (hne : p ≠ encode bs) (h : decode p = .ok out) :
    out <+: bs ∧ out ≠ bs := by
  have hk : p = ((sextets bs).take p.length).map symbol := by
    rw [List.map_take]
    exact List.prefix_iff_eq_take.1 hp
  have hlt : ∀ x ∈ (sextets bs).take p.length, x < 64 :=
    fun x hx => lt_of_mem_sextets (List.mem_of_mem_take hx)
  have hall : unsextets ((sextets bs).take p.length ++ (sextets bs).drop p.length) = some bs := by
    rw [List.take_append_drop]
    exact unsextets_sextets bs
  rw [hk, decode_symbols hlt] at h
  refine ⟨prefix_of_unsextets h hall, ?_⟩
  rintro rfl
  have hlen : p.length < (encode out).length :=
    Nat.lt_of_le_of_ne hp.length_le fun he => hne (hp.eq_of_length he)
  obtain ⟨hl, -⟩ := length_of_unsextets h
  rw [encode, List.length_map] at hlen
  rw [List.length_take, Nat.min_eq_left (Nat.le_of_lt hlen)] at hl
  rw [length_sextets] at hlen
  omega

end PeerWatch.Base64
