import Mathlib.Tactic.SplitIfs
import PeerWatch.Text.Utf8

/-! Encoded text is decoded again, character by character, and nothing else is decoded. A character
below U+0080 is its own byte, and no byte of any other one is below 128. -/
namespace PeerWatch.Utf8
variable {c : Char} {s done out : List Char} {bs : List UInt8} {b : UInt8} {n valid : Nat}

theorem toNat_toUInt8 (h : n < 256) : n.toUInt8.toNat = n := by
  simpa using Nat.mod_eq_of_lt h

theorem encode_append (s t : List Char) : encode (s ++ t) = encode s ++ encode t :=
  List.flatMap_append

theorem encodeNat_of_lt (h : n < 0x80) : encodeNat n = [n.toUInt8] := if_pos h

/-- The bytes of a character that is not one byte are all of the upper half. -/
theorem le_of_mem_encodeNat (hn : 0x80 ≤ n) (hlt : n < 0x110000) (h : b ∈ encodeNat n) :
    0x80 ≤ b.toNat := by
  unfold encodeNat at h
  split_ifs at h
  · omega
  · simp only [List.mem_cons, List.not_mem_nil, or_false] at h
    rcases h with rfl | rfl <;> rw [toNat_toUInt8] <;> omega
  · simp only [List.mem_cons, List.not_mem_nil, or_false] at h
    rcases h with rfl | rfl | rfl <;> rw [toNat_toUInt8] <;> omega
  · simp only [List.mem_cons, List.not_mem_nil, or_false] at h
    rcases h with rfl | rfl | rfl | rfl <;> rw [toNat_toUInt8] <;> omega

theorem toNat_lt (c : Char) : c.toNat < 0xD800 ∨ 0xDFFF < c.toNat ∧ c.toNat < 0x110000 := by
  have h := c.valid
  simp only [UInt32.isValidChar, Nat.isValidChar] at h
  exact h

theorem encodeChar_of_lt {c : Char} (h : c.toNat < 0x80) : encodeChar c = [c.toNat.toUInt8] :=
  encodeNat_of_lt h

theorem le_of_mem_encodeChar {c : Char} (h : 0x80 ≤ c.toNat) (hb : b ∈ encodeChar c) :
    0x80 ≤ b.toNat := by
  have hlt := toNat_lt c
  exact le_of_mem_encodeNat h (by omega) hb

theorem encodeChar_ne_nil (c : Char) : encodeChar c ≠ [] := by
  rw [encodeChar, encodeNat]
  split_ifs
  all_goals exact List.cons_ne_nil _ _

theorem lead?_two (h : 0xC2 ≤ n ∧ n ≤ 0xDF) : lead? n = some (1, 0x80, 0xBF) := by
  rw [lead?, if_neg (by omega), if_pos h]

theorem lead?_three (h : 0xE0 ≤ n ∧ n ≤ 0xEF) :
    lead? n = some (2, if n = 0xE0 then 0xA0 else 0x80, if n = 0xED then 0x9F else 0xBF) := by
  rw [lead?, if_neg (by omega), if_neg (by omega)]
  by_cases hfirst : n = 0xE0
  · subst hfirst
    rfl
  · by_cases hsurrogate : n = 0xED
    · subst hsurrogate
      rfl
    · rw [if_neg hfirst, if_neg hsurrogate, if_pos (by omega), if_neg hfirst, if_neg hsurrogate]

theorem lead?_four (h : 0xF0 ≤ n ∧ n ≤ 0xF4) :
    lead? n = some (3, if n = 0xF0 then 0x90 else 0x80, if n = 0xF4 then 0x8F else 0xBF) := by
  rw [lead?, if_neg (by omega), if_neg (by omega), if_neg (by omega), if_neg (by omega),
    if_neg (by omega)]
  by_cases hfirst : n = 0xF0
  · subst hfirst
    rfl
  · by_cases hlast : n = 0xF4
    · subst hlast
      rfl
    · rw [if_neg hfirst, if_pos (by omega), if_neg hfirst, if_neg hlast]

/-- A byte inside a character, when more of them are owed. -/
theorem decodeFrom_inside {owed lo hi bits seen : Nat} (hlo : lo ≤ n) (hhi : n ≤ hi)
    (hn : n < 256) (ho : 1 < owed) :
    decodeFrom done valid (.inside owed lo hi bits seen) (n.toUInt8 :: bs) =
      decodeFrom done valid (.inside (owed - 1) 0x80 0xBF (64 * bits + n % 64) (seen + 1)) bs := by
  rw [decodeFrom, toNat_toUInt8 hn, if_pos ⟨hlo, hhi⟩]
  simp only [if_neg (Nat.not_le.2 ho)]

theorem decodeFrom_last {lo hi bits seen : Nat} (hlo : lo ≤ n) (hhi : n ≤ hi) (hn : n < 256) :
    decodeFrom done valid (.inside 1 lo hi bits seen) (n.toUInt8 :: bs) =
      decodeFrom (Char.ofNat (64 * bits + n % 64) :: done) (valid + seen + 1) .between bs := by
  rw [decodeFrom, toNat_toUInt8 hn, if_pos ⟨hlo, hhi⟩]
  rfl

theorem decodeFrom_first {owed lo hi : Nat} (hn : n < 256)
    (hl : lead? n = some (owed + 1, lo, hi)) :
    decodeFrom done valid .between (n.toUInt8 :: bs) =
      decodeFrom done valid (.inside (owed + 1) lo hi (leadBits (owed + 1) n) 1) bs := by
  rw [decodeFrom, toNat_toUInt8 hn, hl]

theorem decodeFrom_encodeChar (done : List Char) (valid : Nat) (c : Char) (bs : List UInt8) :
    ∃ valid', decodeFrom done valid .between (encodeChar c ++ bs) =
      decodeFrom (c :: done) valid' .between bs := by
  have hc := toNat_lt c
  have hofNat (m : Nat) (hm : m = c.toNat) : Char.ofNat m = c := by rw [hm, Char.ofNat_toNat]
  unfold encodeChar encodeNat
  split_ifs with h₁ h₂ h₃
  · refine ⟨valid + 1, ?_⟩
    have hl : lead? c.toNat = some (0, 0x80, 0xBF) := if_pos h₁
    rw [List.cons_append, decodeFrom, toNat_toUInt8 (by omega), hl]
    simp
  · refine ⟨valid + 1 + 1, ?_⟩
    rw [List.cons_append, List.cons_append, List.nil_append,
      decodeFrom_first (by omega) (lead?_two (by omega)),
      decodeFrom_last (by omega) (by omega) (by omega), hofNat]
    change 64 * ((0xC0 + c.toNat / 64) % 32) + _ = _
    omega
  · refine ⟨valid + 2 + 1, ?_⟩
    rw [List.cons_append, List.cons_append, List.cons_append, List.nil_append,
      decodeFrom_first (by omega) (lead?_three (by omega)),
      decodeFrom_inside (by split_ifs <;> omega) (by split_ifs <;> omega) (by omega) (by omega),
      decodeFrom_last (by omega) (by omega) (by omega), hofNat]
    change 64 * (64 * ((0xE0 + c.toNat / 4096) % 16) + _) + _ = _
    omega
  · refine ⟨valid + 3 + 1, ?_⟩
    rw [List.cons_append, List.cons_append, List.cons_append, List.cons_append, List.nil_append,
      decodeFrom_first (by omega) (lead?_four (by omega)),
      decodeFrom_inside (by split_ifs <;> omega) (by split_ifs <;> omega) (by omega) (by omega),
      decodeFrom_inside (by omega) (by omega) (by omega) (by omega),
      decodeFrom_last (by omega) (by omega) (by omega), hofNat]
    change 64 * (64 * (64 * ((0xF0 + c.toNat / 262144) % 8) + _) + _) + _ = _
    omega

theorem decodeFrom_encode (done : List Char) (valid : Nat) (s : List Char) :
    decodeFrom done valid .between (encode s) = .ok (done.reverse ++ s) := by
  induction s generalizing done valid with
  | nil => simp [encode, decodeFrom]
  | cons c s ih =>
    obtain ⟨valid', h⟩ := decodeFrom_encodeChar done valid c (encode s)
    have hs : encode (c :: s) = encodeChar c ++ encode s := rfl
    rw [hs, h, ih]
    simp

theorem decode_encode (s : List Char) : decode (encode s) = .ok s := by
  rw [decode, decodeFrom_encode, List.reverse_nil, List.nil_append]

theorem decode?_encode (s : List Char) : decode? (encode s) = some s := by
  rw [decode?, decode_encode]

theorem toNat_ofNat (h : n < 0xD800 ∨ 0xDFFF < n ∧ n < 0x110000) : (Char.ofNat n).toNat = n := by
  have hv : n.isValidChar := h
  rw [Char.ofNat, dif_pos hv]
  rfl

theorem toUInt8_eq (h : n = b.toNat) : n.toUInt8 = b := by
  rw [h]
  exact UInt8.ofNat_toNat

section
variable {w x y z : Nat}

theorem encodeNat_two (hn : n = 64 * x + y) (hx : 2 ≤ x ∧ x < 32) (hy : y < 64) :
    encodeNat n = [(0xC0 + x).toUInt8, (0x80 + y).toUInt8] := by
  have h₁ : n / 64 = x := by omega
  have h₂ : n % 64 = y := by omega
  rw [encodeNat, if_neg (by omega), if_pos (by omega), h₁, h₂]

theorem encodeNat_three (hn : n = 64 * (64 * x + y) + z) (hx : 0x800 ≤ n ∧ x < 16) (hy : y < 64)
    (hz : z < 64) :
    encodeNat n = [(0xE0 + x).toUInt8, (0x80 + y).toUInt8, (0x80 + z).toUInt8] := by
  have h₁ : n / 4096 = x := by omega
  have h₂ : n / 64 % 64 = y := by omega
  have h₃ : n % 64 = z := by omega
  rw [encodeNat, if_neg (by omega), if_neg (by omega), if_pos (by omega), h₁, h₂, h₃]

theorem encodeNat_four (hn : n = 64 * (64 * (64 * w + x) + y) + z) (hw : 0x10000 ≤ n)
    (hx : x < 64) (hy : y < 64) (hz : z < 64) :
    encodeNat n =
      [(0xF0 + w).toUInt8, (0x80 + x).toUInt8, (0x80 + y).toUInt8, (0x80 + z).toUInt8] := by
  have h₁ : n / 262144 = w := by omega
  have h₂ : n / 4096 % 64 = x := by omega
  have h₃ : n / 64 % 64 = y := by omega
  have h₄ : n % 64 = z := by omega
  rw [encodeNat, if_neg (by omega), if_neg (by omega), if_neg (by omega), h₁, h₂, h₃, h₄]

end

/-- How long a character is that begins with this byte, and the bounds of its second byte. -/
theorem lead?_cases {owed lo hi : Nat} (h : lead? n = some (owed, lo, hi)) :
    owed = 0 ∧ n < 0x80 ∨
    owed = 1 ∧ (0xC2 ≤ n ∧ n ≤ 0xDF) ∧ 0x80 ≤ lo ∧ hi ≤ 0xBF ∨
    owed = 2 ∧ (0xE0 ≤ n ∧ n ≤ 0xEF) ∧ (0x80 ≤ lo ∧ (n = 0xE0 → 0xA0 ≤ lo)) ∧
      hi ≤ 0xBF ∧ (n = 0xED → hi ≤ 0x9F) ∨
    owed = 3 ∧ (0xF0 ≤ n ∧ n ≤ 0xF4) ∧ (0x80 ≤ lo ∧ (n = 0xF0 → 0x90 ≤ lo)) ∧
      hi ≤ 0xBF ∧ (n = 0xF4 → hi ≤ 0x8F) := by
  by_cases hzero : n < 0x80
  · rw [lead?, if_pos hzero] at h
    cases h
    exact Or.inl ⟨rfl, hzero⟩
  by_cases hone : 0xC2 ≤ n ∧ n ≤ 0xDF
  · rw [lead?_two hone] at h
    cases h
    exact Or.inr (Or.inl ⟨rfl, hone, Nat.le_refl _, Nat.le_refl _⟩)
  by_cases htwo : 0xE0 ≤ n ∧ n ≤ 0xEF
  · rw [lead?_three htwo] at h
    cases h
    exact Or.inr (Or.inr (Or.inl ⟨rfl, htwo, by split_ifs <;> omega, by split_ifs <;> omega⟩))
  by_cases hthree : 0xF0 ≤ n ∧ n ≤ 0xF4
  · rw [lead?_four hthree] at h
    cases h
    exact Or.inr (Or.inr (Or.inr ⟨rfl, hthree, by split_ifs <;> omega, by split_ifs <;> omega⟩))
  rw [lead?, if_neg hzero, if_neg hone, if_neg (by omega), if_neg (by omega), if_neg (by omega),
    if_neg (by omega), if_neg (by omega), if_neg (by omega)] at h
  cases h

/-- Inside a character a byte comes that may stand there. -/
theorem exists_of_inside {owed lo hi bits seen : Nat}
    (h : decodeFrom done valid (.inside (owed + 2) lo hi bits seen) bs = .ok out) :
    ∃ b rest, bs = b :: rest ∧ lo ≤ b.toNat ∧ b.toNat ≤ hi ∧ decodeFrom done valid
      (.inside (owed + 1) 0x80 0xBF (64 * bits + b.toNat % 64) (seen + 1)) rest = .ok out := by
  cases bs with
  | nil => cases h
  | cons b rest =>
    rw [decodeFrom] at h
    by_cases hb : lo ≤ b.toNat ∧ b.toNat ≤ hi
    · rw [if_pos hb] at h
      exact ⟨b, rest, rfl, hb.1, hb.2, h⟩
    · rw [if_neg hb] at h
      cases h

theorem exists_of_last {lo hi bits seen : Nat}
    (h : decodeFrom done valid (.inside 1 lo hi bits seen) bs = .ok out) :
    ∃ b rest, bs = b :: rest ∧ lo ≤ b.toNat ∧ b.toNat ≤ hi ∧
      decodeFrom (Char.ofNat (64 * bits + b.toNat % 64) :: done) (valid + seen + 1) .between rest =
        .ok out := by
  cases bs with
  | nil => cases h
  | cons b rest =>
    rw [decodeFrom] at h
    by_cases hb : lo ≤ b.toNat ∧ b.toNat ≤ hi
    · rw [if_pos hb] at h
      exact ⟨b, rest, rfl, hb.1, hb.2, h⟩
    · rw [if_neg hb] at h
      cases h

/-- What is decoded begins with the bytes of a character. -/
theorem exists_of_between (h : decodeFrom done valid .between (b :: bs) = .ok out) :
    ∃ c valid' rest, b :: bs = encodeChar c ++ rest ∧
      decodeFrom (c :: done) valid' .between rest = .ok out := by
  rw [decodeFrom] at h
  split at h
  · cases h
  · next hl =>
    have hlt : b.toNat < 0x80 := by
      rcases lead?_cases hl with h | h | h | h <;> omega
    refine ⟨_, _, bs, ?_, h⟩
    rw [encodeChar, toNat_ofNat (by omega), encodeNat_of_lt hlt, toUInt8_eq rfl]
    rfl
  · next owed lo hi hl =>
    rcases lead?_cases hl with ⟨hk, -⟩ | ⟨hk, hb, hlo, hhi⟩ | ⟨hk, hb, hlo, hhi⟩ | ⟨hk, hb, hlo, hhi⟩
    · cases hk
    · cases hk
      obtain ⟨b₁, bs, rfl, hlo₁, hhi₁, h⟩ := exists_of_last h
      refine ⟨_, _, bs, ?_, h⟩
      have hbits : leadBits (0 + 1) b.toNat = b.toNat % 32 := rfl
      rw [hbits, encodeChar, toNat_ofNat (by omega), encodeNat_two rfl (by omega) (by omega),
        toUInt8_eq (b := b) (by omega), toUInt8_eq (b := b₁) (by omega)]
      rfl
    · cases hk
      obtain ⟨b₁, bs, rfl, hlo₁, hhi₁, h⟩ := exists_of_inside h
      obtain ⟨b₂, bs, rfl, hlo₂, hhi₂, h⟩ := exists_of_last h
      refine ⟨_, _, bs, ?_, h⟩
      have hbits : leadBits (1 + 1) b.toNat = b.toNat % 16 := rfl
      rw [hbits, encodeChar, toNat_ofNat (by omega),
        encodeNat_three rfl (by omega) (by omega) (by omega), toUInt8_eq (b := b) (by omega),
        toUInt8_eq (b := b₁) (by omega), toUInt8_eq (b := b₂) (by omega)]
      rfl
    · cases hk
      obtain ⟨b₁, bs, rfl, hlo₁, hhi₁, h⟩ := exists_of_inside h
      obtain ⟨b₂, bs, rfl, hlo₂, hhi₂, h⟩ := exists_of_inside h
      obtain ⟨b₃, bs, rfl, hlo₃, hhi₃, h⟩ := exists_of_last h
      refine ⟨_, _, bs, ?_, h⟩
      have hbits : leadBits (2 + 1) b.toNat = b.toNat % 8 := rfl
      rw [hbits, encodeChar, toNat_ofNat (by omega),
        encodeNat_four rfl (by omega) (by omega) (by omega) (by omega),
        toUInt8_eq (b := b) (by omega), toUInt8_eq (b := b₁) (by omega),
        toUInt8_eq (b := b₂) (by omega), toUInt8_eq (b := b₃) (by omega)]
      rfl

theorem encode_of_decodeFrom (h : decodeFrom done valid .between bs = .ok out) :
    ∃ s, out = done.reverse ++ s ∧ bs = encode s := by
  induction hn : bs.length using Nat.strongRecOn generalizing bs done valid with
  | _ n ih =>
    cases bs with
    | nil =>
      cases h
      exact ⟨[], (List.append_nil _).symm, rfl⟩
    | cons b bs =>
      obtain ⟨c, valid', rest, hbs, h⟩ := exists_of_between h
      have hlt : rest.length < n := by
        have hpos := List.length_pos_iff.2 (encodeChar_ne_nil c)
        rw [← hn, hbs, List.length_append]
        omega
      obtain ⟨s, rfl, rfl⟩ := ih _ hlt h rfl
      exact ⟨c :: s, by simp, hbs⟩

/-- What is decoded is the encoding of its text. -/
theorem decode_eq_ok_iff : decode bs = .ok s ↔ bs = encode s := by
  constructor
  · intro h
    obtain ⟨t, rfl, hbs⟩ := encode_of_decodeFrom h
    exact hbs
  · rintro rfl
    exact decode_encode s

theorem encode_concat (s : List Char) (c : Char) :
    encode (s ++ [c]) = encode s ++ encodeChar c := by
  rw [encode_append]
  exact congrArg (encode s ++ ·) (List.append_nil _)

theorem encode_eq_nil_iff : encode s = [] ↔ s = [] := by
  cases s with
  | nil => simp [encode]
  | cons c s => simp [encode, encodeChar_ne_nil]

theorem encode_inj {t : List Char} : encode s = encode t ↔ s = t := by
  constructor
  · intro h
    have hs := decode_encode s
    rw [h, decode_encode] at hs
    exact (Except.ok.inj hs).symm
  · exact congrArg encode

/-- A newline is encoded as itself, and no other character has its byte. -/
theorem not_mem_encode (h : '\n' ∉ s) : (10 : UInt8) ∉ encode s := by
  intro hm
  obtain ⟨c, hc, hm⟩ := List.mem_flatMap.1 hm
  have hlt := toNat_lt c
  by_cases hn : c.toNat < 0x80
  · rw [encodeChar_of_lt hn, List.mem_singleton] at hm
    have hten : '\n'.toNat = c.toNat := by
      have := congrArg UInt8.toNat hm
      rwa [toNat_toUInt8 (by omega)] at this
    exact h (Char.toNat_inj.1 hten ▸ hc)
  · have := le_of_mem_encodeChar (Nat.not_lt.1 hn) hm
    simp at this

end PeerWatch.Utf8
