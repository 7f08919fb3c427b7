import Mathlib.Data.List.Nodup
import PeerWatch.Store.Basic

/-! Lists of pairs into which values are assigned by their keys. No key occurs twice, keys stay in
the order in which they came, and what was not assigned was there before. -/
namespace PeerWatch
variable {α β : Type} [DecidableEq α] {a k : α} {b : β} {l : List (α × β)}

def keys (l : List (α × β)) : List α := l.map Prod.fst

theorem keys_assign (a : α) (b : β) (l : List (α × β)) :
    keys (assign a b l) = if a ∈ keys l then keys l else keys l ++ [a] := by
  induction l with
  | nil => rfl
  | cons p l ih =>
    obtain ⟨k, c⟩ := p
    by_cases hk : k = a
    · simp [assign, keys, hk]
    · have hk' : ¬ a = k := fun h => hk h.symm
      simp only [keys] at ih
      simp only [assign, if_neg hk, keys, List.map_cons, ih, List.mem_cons, hk', false_or]
      split_ifs with ha <;> simp [ha]

theorem mem_keys_assign : k ∈ keys (assign a b l) ↔ k ∈ keys l ∨ k = a := by
  rw [keys_assign]
  split_ifs with h
  · refine ⟨Or.inl, ?_⟩
    rintro (hk | rfl)
    · exact hk
    · exact h
  · simp

theorem nodup_keys_assign (h : (keys l).Nodup) : (keys (assign a b l)).Nodup := by
  rw [keys_assign]
  split_ifs with ha
  · exact h
  · refine List.nodup_append.2 ⟨h, List.nodup_singleton a, ?_⟩
    intro k hk c hc
    rw [List.mem_singleton.1 hc]
    exact fun he => ha (he ▸ hk)

theorem eq_or_mem_of_mem_assign {p : α × β} (h : p ∈ assign a b l) : p = (a, b) ∨ p ∈ l := by
  induction l with
  | nil => exact Or.inl (List.mem_singleton.1 h)
  | cons q l ih =>
    obtain ⟨k, c⟩ := q
    by_cases hk : k = a
    · rw [assign, if_pos hk] at h
      rcases List.mem_cons.1 h with h | h
      · exact Or.inl h
      · exact Or.inr (List.mem_cons_of_mem _ h)
    · rw [assign, if_neg hk] at h
      rcases List.mem_cons.1 h with h | h
      · exact Or.inr (h ▸ List.mem_cons_self)
      · exact (ih h).imp id (List.mem_cons_of_mem _)

theorem lookup_cons_ne {c : β} (hk : a ≠ k) : ((k, c) :: l).lookup a = l.lookup a := by
  simp [List.lookup_cons, beq_false_of_ne hk]

theorem lookup_assign_self (a : α) (b : β) (l : List (α × β)) :
    (assign a b l).lookup a = some b := by
  induction l with
  | nil => exact List.lookup_cons_self
  | cons p l ih =>
    obtain ⟨k, c⟩ := p
    by_cases hk : k = a
    · rw [assign, if_pos hk, List.lookup_cons_self]
    · rw [assign, if_neg hk, lookup_cons_ne (Ne.symm hk), ih]

theorem lookup_assign_ne (h : k ≠ a) : (assign a b l).lookup k = l.lookup k := by
  induction l with
  | nil => rw [assign, lookup_cons_ne h]
  | cons p l ih =>
    obtain ⟨k', c⟩ := p
    by_cases hk : k' = a
    · subst hk
      rw [assign, if_pos rfl, lookup_cons_ne h, lookup_cons_ne h]
    · rw [assign, if_neg hk, List.lookup_cons, List.lookup_cons, ih]

theorem lookup_filter_self (a : α) (l : List (α × β)) : (l.filter (·.1 ≠ a)).lookup a = none := by
  induction l with
  | nil => rfl
  | cons p l ih =>
    by_cases hp : p.1 = a
    · simpa [hp] using ih
    · rw [List.filter_cons_of_pos (by simpa using hp), lookup_cons_ne (Ne.symm hp), ih]

theorem lookup_filter_ne (h : k ≠ a) : (l.filter (·.1 ≠ a)).lookup k = l.lookup k := by
  induction l with
  | nil => rfl
  | cons p l ih =>
    obtain ⟨k', c⟩ := p
    by_cases hk : k' = a
    · subst hk
      rw [List.filter_cons_of_neg (by simp), lookup_cons_ne h, ih]
    · rw [List.filter_cons_of_pos (by simpa using hk), List.lookup_cons, List.lookup_cons, ih]

/-- A key that occurs once is looked up where it occurs. -/
theorem lookup_eq_some_iff (h : (keys l).Nodup) : l.lookup a = some b ↔ (a, b) ∈ l := by
  induction l with
  | nil => simp
  | cons p l ih =>
    obtain ⟨k, c⟩ := p
    obtain ⟨hk, hl⟩ := List.nodup_cons.1 h
    by_cases hka : a = k
    · subst hka
      have hn : (a, b) ∉ l := fun hm => hk (List.mem_map.2 ⟨(a, b), hm, rfl⟩)
      simp [List.lookup_cons_self, hn, eq_comm]
    · simp [lookup_cons_ne hka, hka, ih hl]

/-- What is there after an assignment is what was assigned, or has another key. -/
theorem mem_assign_of_nodup {p : α × β} (h : (keys l).Nodup) (hp : p ∈ assign a b l) :
    p = (a, b) ∨ p.1 ≠ a ∧ p ∈ l := by
  obtain ⟨k, c⟩ := p
  have hlookup := (lookup_eq_some_iff (nodup_keys_assign h)).2 hp
  by_cases hk : k = a
  · subst hk
    rw [lookup_assign_self] at hlookup
    exact Or.inl (by rw [Option.some.inj hlookup])
  · rw [lookup_assign_ne hk] at hlookup
    exact Or.inr ⟨hk, (lookup_eq_some_iff h).1 hlookup⟩

/-- What is found under a key that occurs once. -/
theorem find?_key_eq_some_iff {γ κ : Type} [DecidableEq κ] {f : γ → κ} {xs : List γ} {k : κ}
    {x : γ} (h : (xs.map f).Nodup) : xs.find? (f · = k) = some x ↔ x ∈ xs ∧ f x = k := by
  refine ⟨fun hf => ⟨List.mem_of_find?_eq_some hf, by simpa using List.find?_some hf⟩, ?_⟩
  rintro ⟨hx, rfl⟩
  induction xs with
  | nil => cases hx
  | cons y ys ih =>
    obtain ⟨hy, hys⟩ := List.nodup_cons.1 h
    rcases List.mem_cons.1 hx with rfl | hx
    · simp
    · have hne : f y ≠ f x := fun he => hy (he ▸ List.mem_map_of_mem hx)
      rw [List.find?_cons_of_neg (by simpa using hne), ih hys hx]

/-- What is looked up of every key in its turn is the list itself. -/
theorem filterMap_lookup_keys (h : (keys l).Nodup) :
    ((keys l).filterMap fun k => (l.lookup k).map (k, ·)) = l := by
  rw [keys, List.filterMap_map]
  have hall : ∀ p ∈ l, ((fun k => (l.lookup k).map (k, ·)) ∘ Prod.fst) p = some p := by
    rintro ⟨k, c⟩ hp
    simp [(lookup_eq_some_iff h).2 hp]
  rw [List.filterMap_congr hall, List.filterMap_some]

end PeerWatch
