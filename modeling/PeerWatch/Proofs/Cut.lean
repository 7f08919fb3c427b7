import Mathlib.Data.List.DropRight
import Mathlib.Tactic.SplitIfs
import PeerWatch.Text.Blank
import PeerWatch.Text.Cut

/-! Texts that are cut at separators are the pieces with the separators between them, and a text that
is stripped at its ends is what stands between two runs of what was taken off. -/
namespace PeerWatch.Text
variable {c sep : Char} {p q s t : List Char} {ps : List (List Char)} {f g : Char → Bool}

theorem pieces_ne_nil (sep : Char) (s : List Char) : pieces sep s ≠ [] := by
  cases s with
  | nil => exact List.cons_ne_nil _ _
  | cons c s =>
    rw [pieces]
    split_ifs
    · exact List.cons_ne_nil _ _
    · split <;> exact List.cons_ne_nil _ _

theorem pieces_sep (sep : Char) (s : List Char) : pieces sep (sep :: s) = [] :: pieces sep s :=
  if_pos rfl

theorem pieces_cons (hc : c ≠ sep) (h : pieces sep s = p :: ps) :
    pieces sep (c :: s) = (c :: p) :: ps := by
  rw [pieces, if_neg hc, h]

theorem length_pieces (sep : Char) (s : List Char) :
    (pieces sep s).length = s.count sep + 1 := by
  induction s with
  | nil => rfl
  | cons c s ih =>
    by_cases hc : c = sep
    · subst hc
      rw [pieces_sep, List.length_cons, ih, List.count_cons_self]
    · obtain ⟨p, ps, hp⟩ := List.exists_cons_of_ne_nil (pieces_ne_nil sep s)
      rw [pieces_cons hc hp, List.count_cons_of_ne hc, ← ih, hp]
      rfl

theorem pieces_of_notMem (h : sep ∉ s) : pieces sep s = [s] := by
  induction s with
  | nil => rfl
  | cons c s ih =>
    rw [List.mem_cons, not_or] at h
    exact pieces_cons (Ne.symm h.1) (ih h.2)

theorem pieces_append (sep : Char) (s t : List Char) :
    pieces sep (s ++ sep :: t) = pieces sep s ++ pieces sep t := by
  induction s with
  | nil => exact pieces_sep sep t
  | cons c s ih =>
    by_cases hc : c = sep
    · subst hc
      rw [List.cons_append, pieces_sep, pieces_sep, ih]
      rfl
    · obtain ⟨p, ps, hp⟩ := List.exists_cons_of_ne_nil (pieces_ne_nil sep s)
      rw [hp, List.cons_append] at ih
      rw [List.cons_append, pieces_cons hc ih, pieces_cons hc hp]
      rfl

theorem pieces_join (hps : ∀ p ∈ ps, sep ∉ p) (hne : ps ≠ []) :
    pieces sep (join [sep] ps) = ps := by
  induction ps with
  | nil => exact absurd rfl hne
  | cons p ps ih =>
    obtain ⟨hp, hps⟩ := List.forall_mem_cons.1 hps
    cases ps with
    | nil => exact pieces_of_notMem hp
    | cons q ps =>
      rw [join, List.append_assoc, List.singleton_append, pieces_append, pieces_of_notMem hp,
        ih hps (List.cons_ne_nil _ _)]
      · rfl
      · exact List.cons_ne_nil _ _

theorem join_cons_cons (c : Char) (p : List Char) (ps : List (List Char)) :
    join [sep] ((c :: p) :: ps) = c :: join [sep] (p :: ps) := by
  cases ps <;> rfl

theorem join_pieces (sep : Char) (s : List Char) : join [sep] (pieces sep s) = s := by
  induction s with
  | nil => rfl
  | cons c s ih =>
    obtain ⟨p, ps, hp⟩ := List.exists_cons_of_ne_nil (pieces_ne_nil sep s)
    by_cases hc : c = sep
    · subst hc
      rw [pieces_sep, hp, join]
      · rw [← hp, ih]
        rfl
      · exact List.cons_ne_nil _ _
    · rw [pieces_cons hc hp, join_cons_cons, ← hp, ih]

theorem notMem_of_mem_pieces (h : p ∈ pieces sep s) : sep ∉ p := by
  induction s generalizing p with
  | nil =>
    rw [List.mem_singleton.1 h]
    exact List.not_mem_nil
  | cons c s ih =>
    obtain ⟨q, qs, hq⟩ := List.exists_cons_of_ne_nil (pieces_ne_nil sep s)
    by_cases hc : c = sep
    · subst hc
      rw [pieces_sep] at h
      rcases List.mem_cons.1 h with rfl | h
      · exact List.not_mem_nil
      · exact ih h
    · rw [pieces_cons hc hq] at h
      rw [hq] at ih
      rcases List.mem_cons.1 h with rfl | h
      · exact List.not_mem_cons_of_ne_of_not_mem (Ne.symm hc) (ih List.mem_cons_self)
      · exact ih (List.mem_cons_of_mem _ h)

/-- The pieces of a text are those that it is put together from again. -/
theorem pieces_eq_iff (hne : ps ≠ []) :
    pieces sep s = ps ↔ (∀ p ∈ ps, sep ∉ p) ∧ s = join [sep] ps := by
  constructor
  · rintro rfl
    exact ⟨fun p hp => notMem_of_mem_pieces hp, (join_pieces sep s).symm⟩
  · rintro ⟨hps, rfl⟩
    exact pieces_join hps hne

theorem cutFirst_eq_some_iff : cutFirst sep s = some (p, q) ↔ sep ∉ p ∧ s = p ++ sep :: q := by
  induction s generalizing p with
  | nil => simp [cutFirst]
  | cons c s ih =>
    rw [cutFirst]
    split_ifs with hc
    · subst hc
      cases p with
      | nil => simp [eq_comm]
      | cons d p => simp +contextual [eq_comm]
    · rw [Option.map_eq_some_iff]
      cases p with
      | nil => simp [hc]
      | cons d p =>
        constructor
        · rintro ⟨⟨p', q'⟩, hcut, he⟩
          cases he
          obtain ⟨hp, rfl⟩ := ih.1 hcut
          exact ⟨List.not_mem_cons_of_ne_of_not_mem (Ne.symm hc) hp, rfl⟩
        · rintro ⟨hp, he⟩
          obtain ⟨rfl, rfl⟩ := List.cons.inj he
          exact ⟨(p, q), ih.2 ⟨List.not_mem_of_not_mem_cons hp, rfl⟩, rfl⟩

theorem cutFirst_eq_none (h : sep ∉ s) : cutFirst sep s = none := by
  cases hcut : cutFirst sep s with
  | none => rfl
  | some cut =>
    obtain ⟨-, rfl⟩ := cutFirst_eq_some_iff.1 hcut
    simp at h

theorem isSome_cutLast : (cutLast sep s).isSome = true ↔ sep ∈ s := by
  induction s with
  | nil => simp [cutLast]
  | cons c s ih =>
    rw [cutLast]
    split
    · next h => simp [ih.1 (by rw [h]; rfl)]
    · next h =>
      rw [h] at ih
      have hs : sep ∉ s := fun hs => by simpa using ih.2 hs
      simp only [List.mem_cons, hs, or_false]
      split_ifs with hc
      · simp [hc]
      · simp [Ne.symm hc]

theorem cutLast_eq_none : cutLast sep s = none ↔ sep ∉ s := by
  rw [← isSome_cutLast, Option.not_isSome_iff_eq_none]

theorem cutLast_append (h : sep ∉ q) (p : List Char) :
    cutLast sep (p ++ sep :: q) = some (p, q) := by
  induction p with
  | nil => rw [List.nil_append, cutLast, cutLast_eq_none.2 h, if_pos rfl]
  | cons c p ih => rw [List.cons_append, cutLast, ih]

theorem of_cutLast (h : cutLast sep s = some (p, q)) : sep ∉ q ∧ s = p ++ sep :: q := by
  induction s generalizing p with
  | nil => cases h
  | cons c s ih =>
    rw [cutLast] at h
    split at h
    · next hs =>
      cases h
      obtain ⟨hq, rfl⟩ := ih hs
      exact ⟨hq, rfl⟩
    · next hs =>
      split_ifs at h with hc
      cases h
      exact ⟨cutLast_eq_none.1 hs, by rw [hc]; rfl⟩

theorem cutLast_eq_some_iff : cutLast sep s = some (p, q) ↔ sep ∉ q ∧ s = p ++ sep :: q := by
  refine ⟨of_cutLast, ?_⟩
  rintro ⟨hq, rfl⟩
  exact cutLast_append hq p

/-- Is `t` what is left of `s` once no more of `f` can be taken off in front and no more of `g` at
the end? -/
structure Stripped (f g : Char → Bool) (s t : List Char) : Prop where
  exists_ends : ∃ l r, s = l ++ t ++ r ∧ (∀ c ∈ l, f c = true) ∧ ∀ c ∈ r, g c = true
  head : ∀ c ∈ t.head?, f c = false
  last : ∀ c ∈ t.getLast?, g c = false

theorem dropWhile_of_head (h : ∀ c ∈ s.head?, f c = false) : s.dropWhile f = s := by
  cases s with
  | nil => rfl
  | cons c s => exact List.dropWhile_cons_of_neg (by simpa using h c rfl)

theorem dropEndWhile_of_last (h : ∀ c ∈ s.getLast?, f c = false) : dropEndWhile f s = s := by
  rw [dropEndWhile, dropWhile_of_head (by simpa using h), List.reverse_reverse]

theorem dropEndWhile_append (h : ∀ c ∈ q, f c = true) (s : List Char) :
    dropEndWhile f (s ++ q) = dropEndWhile f s := by
  rw [dropEndWhile, List.reverse_append, List.dropWhile_append_of_pos (by simpa using h),
    dropEndWhile]

theorem head?_dropWhile (f : Char → Bool) (s : List Char) :
    ∀ c ∈ (s.dropWhile f).head?, f c = false := by
  intro c hc
  have h := List.head?_dropWhile_not f s
  rw [Option.mem_def.1 hc] at h
  exact h

theorem stripped_dropWhile (f g : Char → Bool) (s : List Char) :
    Stripped f g s (dropEndWhile g (s.dropWhile f)) := by
  have happend : dropEndWhile g (s.dropWhile f) ++ (s.dropWhile f).rtakeWhile g = s.dropWhile f :=
    List.rdropWhile_append_rtakeWhile ..
  refine ⟨⟨s.takeWhile f, (s.dropWhile f).rtakeWhile g, ?_, ?_, ?_⟩, ?_, ?_⟩
  · rw [List.append_assoc, happend, List.takeWhile_append_dropWhile]
  · exact fun c hc => List.mem_takeWhile_imp hc
  · exact fun c hc => List.mem_rtakeWhile_imp hc
  · intro c hc
    refine head?_dropWhile f s c ?_
    rw [← happend, List.head?_append, Option.mem_def.1 hc]
    rfl
  · intro c hc
    rw [dropEndWhile, List.getLast?_reverse] at hc
    exact head?_dropWhile g _ c hc

/-- What is left of a text is what stripping it gives. -/
theorem stripped_iff : Stripped f g s t ↔ t = dropEndWhile g (s.dropWhile f) := by
  constructor
  · rintro ⟨⟨l, r, rfl, hl, hr⟩, hhead, hlast⟩
    rw [List.append_assoc, List.dropWhile_append_of_pos hl]
    cases t with
    | nil =>
      have hnil : dropEndWhile g (([] ++ r).dropWhile f) = [] := by
        have := dropEndWhile_append (q := r.dropWhile f)
          (fun c hc => hr c (List.dropWhile_sublist f |>.subset hc)) []
        simpa [dropEndWhile] using this
      exact hnil.symm
    | cons c t =>
      rw [List.cons_append, List.dropWhile_cons_of_neg (by simpa using hhead c rfl),
        ← List.cons_append, dropEndWhile_append hr, dropEndWhile_of_last hlast]
  · rintro rfl
    exact stripped_dropWhile f g s

theorem trim_eq_iff : trim s = t ↔ Stripped isBlank isBlank s t := by
  rw [stripped_iff, trim, eq_comm]

end PeerWatch.Text
