import Mathlib.Algebra.Group.Nat.Defs
import Mathlib.Data.List.Induction
import Mathlib.Tactic.SplitIfs
import PeerWatch.Text.Decimal

/-! The digits of a number, in any base up to sixteen, are read as that number. They begin with a
zero only if the number is zero, and then there is no other digit. So of the decimal texts of a number
only one begins with no idle zero. -/
namespace PeerWatch.Text
variable {b d n : Nat} {s t : List Char} {c : Char}

theorem digitValue?_digitChar (h : d < 16) : digitValue? (digitChar d) = some d := by
  have hall : ∀ e < 16, digitValue? (digitChar e) = some e := by decide
  exact hall d h

theorem digitChar_lt (h : d < 16) : (digitChar d).toNat < 0x80 := by
  have hall : ∀ e < 16, (digitChar e).toNat < 0x80 := by decide
  exact hall d h

theorem digitIn?_digitChar (h : d < b) (hb : b ≤ 16) : digitIn? b (digitChar d) = some d := by
  rw [digitIn?, digitValue?_digitChar (by omega)]
  simp [Option.filter, h]

theorem readDigits_append (b n : Nat) (s t : List Char) :
    readDigits b n (s ++ t) = (readDigits b n s).bind fun m => readDigits b m t := by
  induction s generalizing n with
  | nil => rfl
  | cons c s ih =>
    simp only [List.cons_append, readDigits]
    cases digitIn? b c with
    | none => rfl
    | some d => exact ih _

theorem digitsIn_of_lt (h : n < b + 2) : digitsIn b n = [digitChar n] := by
  rw [digitsIn, dif_pos h]

theorem digitsIn_of_le (h : b + 2 ≤ n) :
    digitsIn b n = digitsIn b (n / (b + 2)) ++ [digitChar (n % (b + 2))] := by
  rw [digitsIn, dif_neg (Nat.not_lt.2 h)]

theorem div_base_lt (h : b + 2 ≤ n) : n / (b + 2) < n := Nat.div_lt_self (by omega) (by omega)

theorem readDigits_digitsIn (hb : b ≤ 14) (n : Nat) :
    readDigits (b + 2) 0 (digitsIn b n) = some n := by
  induction n using Nat.strongRecOn with
  | _ n ih =>
    by_cases h : n < b + 2
    · rw [digitsIn_of_lt h, readDigits, digitIn?_digitChar h (by omega)]
      simp [readDigits]
    · have hle := Nat.not_lt.1 h
      have hd : n % (b + 2) < b + 2 := Nat.mod_lt _ (by omega)
      rw [digitsIn_of_le hle, readDigits_append, ih _ (div_base_lt hle), Option.bind_some,
        readDigits, digitIn?_digitChar hd (by omega)]
      simp [readDigits, Nat.div_add_mod]

theorem digitsIn_ne_nil (b n : Nat) : digitsIn b n ≠ [] := by
  rw [digitsIn]
  split_ifs <;> simp

theorem numberIn?_digitsIn (hb : b ≤ 14) (n : Nat) :
    numberIn? (b + 2) (digitsIn b n) = some n := by
  rw [numberIn?, List.isEmpty_eq_false_iff.2 (digitsIn_ne_nil b n)]
  exact readDigits_digitsIn hb n

theorem number?_decimal (n : Nat) : number? (decimal n) = some n :=
  numberIn?_digitsIn (by decide) n

theorem exists_of_mem_digitsIn (h : c ∈ digitsIn b n) : ∃ d < b + 2, c = digitChar d := by
  induction n using Nat.strongRecOn with
  | _ n ih =>
    by_cases hn : n < b + 2
    · rw [digitsIn_of_lt hn] at h
      exact ⟨n, hn, List.mem_singleton.1 h⟩
    · have hle := Nat.not_lt.1 hn
      rw [digitsIn_of_le hle] at h
      rcases List.mem_append.1 h with h | h
      · exact ih _ (div_base_lt hle) h
      · exact ⟨n % (b + 2), Nat.mod_lt _ (by omega), List.mem_singleton.1 h⟩

/-- The first digit of a number that is not zero is not zero. -/
theorem digitsIn_of_pos (h : 0 < n) :
    ∃ d ds, 0 < d ∧ d < b + 2 ∧ digitsIn b n = digitChar d :: ds := by
  induction n using Nat.strongRecOn with
  | _ n ih =>
    by_cases hn : n < b + 2
    · exact ⟨n, [], h, hn, digitsIn_of_lt hn⟩
    · have hle := Nat.not_lt.1 hn
      have hpos : 0 < n / (b + 2) := Nat.div_pos hle (by omega)
      obtain ⟨d, ds, hd, hlt, he⟩ := ih _ (div_base_lt hle) hpos
      refine ⟨d, ds ++ [digitChar (n % (b + 2))], hd, hlt, ?_⟩
      rw [digitsIn_of_le hle, he]
      rfl

theorem decimal_zero : decimal 0 = ['0'] := digitsIn_of_lt (by decide)

def IsDigit (b : Nat) (c : Char) (d : Nat) : Prop :=
  d < b ∧ (c = digitChar d ∨ c = (digitChar d).toUpper)

/-- Do the characters write `n` in base `b`? They are digits, the most significant first. -/
inductive Writes (b : Nat) : List Char → Nat → Prop
  | digit {c : Char} {d : Nat} (h : IsDigit b c d) : Writes b [c] d
  | concat {s : List Char} {n : Nat} {c : Char} {d : Nat} (hs : Writes b s n) (h : IsDigit b c d) :
    Writes b (s ++ [c]) (b * n + d)

theorem digitValue?_eq_some (h : digitValue? c = some d) : IsDigit 16 c d := by
  have hc {n : Nat} (hn : n = c.toNat) : c = Char.ofNat n := by rw [hn, Char.ofNat_toNat]
  unfold digitValue? at h
  split_ifs at h with h₁ h₂ h₃
  · cases h
    obtain ⟨hlo, hhi⟩ : 48 ≤ c.toNat ∧ c.toNat ≤ 57 := h₁
    refine ⟨by omega, Or.inl ?_⟩
    rw [digitChar, if_pos (by omega)]
    exact hc (by omega)
  · cases h
    obtain ⟨hlo, hhi⟩ : 97 ≤ c.toNat ∧ c.toNat ≤ 102 := h₂
    refine ⟨by omega, Or.inl ?_⟩
    rw [digitChar, if_neg (by omega)]
    exact hc (by omega)
  · cases h
    obtain ⟨hlo, hhi⟩ : 65 ≤ c.toNat ∧ c.toNat ≤ 70 := h₃
    have hall : ∀ e < 16, 9 < e → (digitChar e).toUpper = Char.ofNat (55 + e) := by decide
    refine ⟨by omega, Or.inr ?_⟩
    rw [hall _ (by omega) (by omega)]
    exact hc (by omega)

theorem digitValue?_toUpper (h : d < 16) : digitValue? (digitChar d).toUpper = some d := by
  have hall : ∀ e < 16, digitValue? (digitChar e).toUpper = some e := by decide
  exact hall d h

theorem digitIn?_eq_some_iff (hb : b ≤ 16) : digitIn? b c = some d ↔ IsDigit b c d := by
  rw [digitIn?, Option.filter_eq_some_iff, decide_eq_true_eq]
  constructor
  · rintro ⟨hd, hlt⟩
    exact ⟨hlt, (digitValue?_eq_some hd).2⟩
  · rintro ⟨hlt, rfl | rfl⟩
    · exact ⟨digitValue?_digitChar (by omega), hlt⟩
    · exact ⟨digitValue?_toUpper (by omega), hlt⟩

theorem readDigits_concat {m : Nat} : readDigits b 0 (s ++ [c]) = some m ↔
    ∃ n d, readDigits b 0 s = some n ∧ digitIn? b c = some d ∧ b * n + d = m := by
  simp [readDigits_append, readDigits, Option.bind_eq_some_iff]

/-- What is read as a number is a text of it. -/
theorem numberIn?_eq_some_iff (hb : b ≤ 16) : numberIn? b s = some n ↔ Writes b s n := by
  constructor
  · intro h
    induction s using List.reverseRecOn generalizing n with
    | nil => cases h
    | append_singleton s c ih =>
      rw [numberIn?, if_neg (by simp)] at h
      obtain ⟨m, d, hm, hd, rfl⟩ := readDigits_concat.1 h
      have hdigit := (digitIn?_eq_some_iff hb).1 hd
      cases s with
      | nil =>
        cases hm
        rw [Nat.mul_zero, Nat.zero_add]
        exact .digit hdigit
      | cons a s => exact .concat (ih hm) hdigit
  · intro h
    have hread : readDigits b 0 s = some n := by
      induction h with
      | digit hd =>
        exact readDigits_concat (s := []).2 ⟨0, _, rfl, (digitIn?_eq_some_iff hb).2 hd, by simp⟩
      | concat hs hd ih => exact readDigits_concat.2 ⟨_, _, ih, (digitIn?_eq_some_iff hb).2 hd, rfl⟩
    have hne : s ≠ [] := by
      cases h <;> simp
    rw [numberIn?, if_neg (by simpa using hne), hread]

theorem Writes.lt_pow (h : Writes b s n) : n < b ^ s.length := by
  induction h with
  | digit hd => simpa using hd.1
  | @concat s n c d hs hd ih =>
    rw [List.length_append, List.length_singleton, Nat.pow_succ]
    calc b * n + d < b * n + b := Nat.add_lt_add_left hd.1 _
      _ = b * (n + 1) := rfl
      _ ≤ b * b ^ s.length := Nat.mul_le_mul_left _ ih
      _ = b ^ s.length * b := Nat.mul_comm _ _

theorem length_digitsIn_le {k : Nat} (hk : 0 < k) (h : n < (b + 2) ^ k) :
    (digitsIn b n).length ≤ k := by
  induction k generalizing n with
  | zero => omega
  | succ k ih =>
    by_cases hn : n < b + 2
    · rw [digitsIn_of_lt hn]
      simp
    · have hle := Nat.not_lt.1 hn
      have hk : 0 < k := by
        rcases Nat.eq_zero_or_pos k with rfl | hk
        · rw [Nat.pow_one] at h
          exact absurd h hn
        · exact hk
      rw [digitsIn_of_le hle, List.length_append, List.length_singleton]
      exact Nat.succ_le_succ (ih hk (Nat.div_lt_of_lt_mul (by rwa [Nat.pow_succ'] at h)))

theorem decimal_concat (hn : 0 < n) (hd : d < 10) :
    decimal (10 * n + d) = decimal n ++ [digitChar d] := by
  have hle : 8 + 2 ≤ 10 * n + d := by omega
  have hdiv : (10 * n + d) / (8 + 2) = n := by omega
  have hmod : (10 * n + d) % (8 + 2) = d := by omega
  rw [decimal, digitsIn_of_le hle, hdiv, hmod, decimal]

theorem digitChar_eq (h : d < 10) : Nat.digitChar d = digitChar d := by
  have hall : ∀ e < 10, Nat.digitChar e = digitChar e := by decide
  exact hall d h

/-- A number prints as its decimal text. -/
theorem toDigits_eq (n : Nat) : Nat.toDigits 10 n = decimal n := by
  induction n using Nat.strongRecOn with
  | _ n ih =>
    by_cases hn : n < 10
    · rw [Nat.toDigits_of_lt_base hn, decimal, digitsIn_of_lt hn, digitChar_eq hn]
    · have hmod : n % 10 < 10 := Nat.mod_lt _ (by decide)
      have hsplit := Nat.toDigits_append_toDigits (b := 10) (n := n / 10) (d := n % 10) (by decide)
        (by omega) hmod
      rw [Nat.div_add_mod, ih _ (by omega), Nat.toDigits_of_lt_base hmod, digitChar_eq hmod,
        ← decimal_concat (by omega) hmod, Nat.div_add_mod] at hsplit
      exact hsplit.symm

/-- A decimal text without an idle zero is the shortest one. -/
theorem Writes.eq_decimal (h : Writes 10 s n) (hz : s.length = 1 ∨ s.head? ≠ some '0') :
    s = decimal n := by
  have hlower {c : Char} {d : Nat} (h : IsDigit 10 c d) : c = digitChar d := by
    have hall : ∀ e < 10, (digitChar e).toUpper = digitChar e := by decide
    rcases h with ⟨hd, rfl | rfl⟩
    · rfl
    · exact hall d hd
  induction h with
  | digit hd => rw [hlower hd, decimal, digitsIn_of_lt hd.1]
  | @concat s n c d hs hd ih =>
    obtain ⟨a, s, rfl⟩ : ∃ a t, s = a :: t := List.exists_cons_of_ne_nil (by cases hs <;> simp)
    have hhead : a ≠ '0' := by simpa using hz
    have hs' : a :: s = decimal n := ih (Or.inr (by simpa using hhead))
    have hn : 0 < n := by
      rcases Nat.eq_zero_or_pos n with rfl | hn
      · rw [decimal_zero] at hs'
        exact absurd (List.cons.inj hs').1 hhead
      · exact hn
    rw [hs', hlower hd, decimal_concat hn hd.1]

theorem decimal_no_idle_zero (n : Nat) : (decimal n).length = 1 ∨ (decimal n).head? ≠ some '0' := by
  rcases Nat.eq_zero_or_pos n with rfl | hn
  · rw [decimal_zero]
    exact Or.inl rfl
  · obtain ⟨d, ds, hd, hlt, he⟩ := digitsIn_of_pos (b := 8) hn
    have hall : ∀ e < 10, 0 < e → digitChar e ≠ '0' := by decide
    right
    rw [decimal, he]
    simpa using hall d hlt hd

theorem writes_digitsIn (hb : b ≤ 14) (n : Nat) : Writes (b + 2) (digitsIn b n) n :=
  (numberIn?_eq_some_iff (by omega)).1 (numberIn?_digitsIn hb n)

theorem Writes.exists_of_mem (h : Writes b s n) (hc : c ∈ s) : ∃ d, IsDigit b c d := by
  induction h with
  | digit hd => exact ⟨_, List.mem_singleton.1 hc ▸ hd⟩
  | concat hs hd ih =>
    rcases List.mem_append.1 hc with hc | hc
    · exact ih hc
    · exact ⟨_, List.mem_singleton.1 hc ▸ hd⟩

end PeerWatch.Text
