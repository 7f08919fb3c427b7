import Mathlib.Data.List.DropRight
import Mathlib.Tactic.SplitIfs
import PeerWatch.Json.Reader

/-! The reader of JSON text. Text that opens a bracket is read only when the bracket is closed: it
cannot be cut short and still be read. -/
namespace PeerWatch.Json
variable {s s' : State} {st : List Frame} {v w : Json} {b c : UInt8} {bs text raw : List UInt8}

theorem run_cons (s : State) (b : UInt8) (bs : List UInt8) :
    run s (b :: bs) = (step s b).bind fun s' => run s' bs := rfl

theorem run_append (s : State) (xs ys : List UInt8) :
    run s (xs ++ ys) = (run s xs).bind fun s' => run s' ys := by
  induction xs generalizing s with
  | nil => rfl
  | cons b xs ih =>
    rw [List.cons_append, run_cons, run_cons]
    cases step s b with
    | none => rfl
    | some s' => exact ih s'

def IsScalar : Json → Prop
  | .array _ | .object _ => False
  | _ => True

structure Inside (s : State) : Prop where
  stack : s.stack ≠ []
  mode : ∀ v, s.mode ≠ .done v

inductive Bare : State → Prop
  | string (esc : Escape) (raw : List UInt8) : Bare ⟨.string false esc raw, []⟩
  | number (part : NumberPart) (text : List UInt8) : Bare ⟨.number part text, []⟩
  | word (left : List UInt8) {v : Json} (scalar : IsScalar v) : Bare ⟨.word left v, []⟩
  | done {v : Json} (scalar : IsScalar v) : Bare ⟨.done v, []⟩

def IsClosing (b : UInt8) : Prop := b = byte ']' ∨ b = byte '}'

/-- If reading goes on at all, then inside a bracket, or after the byte has closed the last one. -/
def Advances (b : UInt8) (o : Option State) : Prop :=
  ∀ s, o = some s → Inside s ∨ IsClosing b ∧ ∃ v, s = ⟨.done v, []⟩

namespace Advances

theorem none : Advances b .none := by
  intro s h
  cases h

theorem inside {m : Mode} (hst : st ≠ []) (hm : ∀ v, m ≠ .done v) :
    Advances b (some ⟨m, st⟩) := by
  intro s h
  cases h
  exact Or.inl ⟨hst, hm⟩

theorem ite {p : Prop} [Decidable p] {x y : Option State} (hx : p → Advances b x)
    (hy : Advances b y) : Advances b (if p then x else y) := by
  split
  · exact hx ‹_›
  · exact hy

theorem complete (hb : IsClosing b) (v : Json) (st : List Frame) :
    Advances b (State.complete v st) := by
  match st with
  | [] =>
    intro s h
    cases h
    exact Or.inr ⟨hb, v, rfl⟩
  | .array _ :: _ => exact inside (List.cons_ne_nil _ _) nofun
  | .member _ _ :: _ => exact inside (List.cons_ne_nil _ _) nofun
  | .object _ :: _ => exact none

/-- A value inside something open leaves it open. -/
theorem complete_inside (hst : st ≠ []) (v : Json) : Advances b (State.complete v st) := by
  match st, hst with
  | .array _ :: _, _ => exact inside (List.cons_ne_nil _ _) nofun
  | .member _ _ :: _, _ => exact inside (List.cons_ne_nil _ _) nofun
  | .object _ :: _, _ => exact none

theorem startValue {m : Mode} (hst : st ≠ []) (hm : ∀ v, m ≠ .done v) :
    Advances b (startValue b m st) := by
  unfold Json.startValue
  refine ite (fun _ => inside hst hm) ?_
  repeat' refine ite (fun _ => ?_) ?_
  all_goals first
    | exact inside hst nofun
    | exact inside (List.cons_ne_nil _ _) nofun
    | exact none

theorem startKey {m : Mode} (hst : st ≠ []) (hm : ∀ v, m ≠ .done v) :
    Advances b (startKey b m st) :=
  ite (fun _ => inside hst hm) (ite (fun _ => inside hst nofun) none)

theorem afterValue (hst : st ≠ []) : Advances b (afterValue b st) := by
  unfold Json.afterValue
  refine ite (fun _ => inside hst nofun) ?_
  split
  · exact ite (fun _ => inside hst nofun) (ite (fun hb => complete (Or.inl hb) _ _) none)
  · exact ite (fun _ => inside hst nofun) (ite (fun hb => complete (Or.inr hb) _ _) none)
  · exact none

theorem insideString (isKey : Bool) (esc : Escape) (hst : st ≠ []) :
    Advances b (insideString b isKey esc raw st) := by
  have hinside (esc : Escape) : Advances b (some ⟨.string isKey esc (b :: raw), st⟩) :=
    inside hst nofun
  cases esc with
  | none =>
    refine ite (fun _ => ite (fun _ => ?_) (complete_inside hst _))
      (ite (fun _ => hinside _) (ite (fun _ => none) (hinside _)))
    split
    · exact inside (List.cons_ne_nil _ _) nofun
    · exact none
  | letter => exact ite (fun _ => hinside _) (ite (fun _ => hinside _) none)
  | hex left => exact ite (fun _ => hinside _) none

theorem stepToken {m : Mode} (hst : st ≠ []) (hm : ∀ v, m ≠ .done v) :
    Advances b (stepToken ⟨m, st⟩ b) := by
  cases m with
  | value => exact startValue hst nofun
  | firstItem =>
    refine ite (fun hb => ?_) (startValue hst nofun)
    split
    · exact complete (Or.inl hb) _ _
    · exact none
  | firstKey =>
    refine ite (fun hb => ?_) (startKey hst nofun)
    split
    · exact complete (Or.inr hb) _ _
    · exact none
  | key => exact startKey hst nofun
  | colon =>
    exact ite (fun _ => inside hst nofun) (ite (fun _ => inside hst nofun) none)
  | after => exact afterValue hst
  | string isKey esc raw => exact insideString isKey esc hst
  | number part text => exact none
  | word left v =>
    match left with
    | [] => exact none
    | [c] => exact ite (fun _ => complete_inside hst _) none
    | c :: d :: left => exact ite (fun _ => inside hst nofun) none
  | done v => exact absurd rfl (hm v)

end Advances

theorem step_done (h : step ⟨.done v, st⟩ b = some s) : isSpace b = true ∧ s = ⟨.done v, []⟩ := by
  simp only [step, stepToken] at h
  split_ifs at h with hb
  cases h
  exact ⟨hb, rfl⟩

/-- A number that ends inside something open leaves it open. -/
theorem after_of_complete (hst : st ≠ []) (h : State.complete v st = some s) :
    s.stack ≠ [] ∧ s.mode = .after := by
  unfold State.complete at h
  split at h
  · exact absurd rfl hst
  · cases h
    exact ⟨List.cons_ne_nil _ _, rfl⟩
  · cases h
    exact ⟨List.cons_ne_nil _ _, rfl⟩
  · cases h

theorem step_eq_stepToken {m : Mode} (h : ∀ part text, m ≠ .number part text) :
    step ⟨m, st⟩ b = stepToken ⟨m, st⟩ b := by
  cases m with
  | number part text => exact absurd rfl (h part text)
  | _ => rfl

theorem Inside.step (hs : Inside s) : Advances b (step s b) := by
  obtain ⟨m, st⟩ := s
  cases m with
  | number part text =>
    intro s' h
    simp only [Json.step] at h
    split at h
    · cases h
      exact Or.inl ⟨hs.stack, nofun⟩
    · split at h
      · -- the number ends, and the byte is read again as what follows it
        obtain ⟨s₁, hc, h⟩ := Option.bind_eq_some_iff.1 h
        obtain ⟨hst, hafter⟩ := after_of_complete hs.stack hc
        exact Advances.stepToken (m := s₁.mode) hst (by rw [hafter]; exact nofun) s' h
      · cases h
  | _ =>
    rw [step_eq_stepToken (by rintro _ _ ⟨⟩)]
    exact Advances.stepToken hs.stack hs.mode

theorem Inside.finish? (hs : Inside s) : s.finish? = none := by
  obtain ⟨m, st⟩ := s
  cases m with
  | done v => exact absurd rfl (hs.mode v)
  | number part text =>
    cases st with
    | nil => exact absurd rfl hs.stack
    | cons => rfl
  | _ => rfl

/-- What a text begins with: white space, a bracket, or a value without brackets. -/
theorem step_start (h : step .start b = some s) : s = .start ∨ Inside s ∨ Bare s := by
  have hite {p : Prop} [Decidable p] {x y : Option State} {Q : State → Prop}
      (hx : ∀ s, x = some s → Q s) (hy : ∀ s, y = some s → Q s) :
      ∀ s, (if p then x else y) = some s → Q s := by
    split
    · exact hx
    · exact hy
  have hinside {m : Mode} {f : Frame} (hm : ∀ v, m ≠ .done v) :
      ∀ s, some ⟨m, [f]⟩ = some s → s = .start ∨ Inside s ∨ Bare s := by
    rintro s ⟨⟩
    exact Or.inr (Or.inl ⟨List.cons_ne_nil _ _, hm⟩)
  have hbare {s₁ : State} (hs₁ : Bare s₁) :
      ∀ s, some s₁ = some s → s = .start ∨ Inside s ∨ Bare s := by
    rintro s ⟨⟩
    exact Or.inr (Or.inr hs₁)
  suffices hall : ∀ s, startValue b .value [] = some s → s = .start ∨ Inside s ∨ Bare s from
    hall s h
  unfold startValue
  repeat' refine hite ?_ ?_
  · rintro s ⟨⟩
    exact Or.inl rfl
  · exact hbare (.string _ _)
  · exact hinside nofun
  · exact hinside nofun
  · exact hbare (.number _ _)
  · exact hbare (.number _ _)
  · exact hbare (.number _ _)
  · exact hbare (.word _ trivial)
  · exact hbare (.word _ trivial)
  · exact hbare (.word _ trivial)
  · exact nofun

/-- A value without brackets has no more than white space after it. -/
theorem Bare.step (hs : Bare s) (h : step s b = some s') : Bare s' := by
  cases hs with
  | string esc raw =>
    change insideString b false esc raw [] = some s' at h
    unfold insideString at h
    split at h
    · split_ifs at h <;> cases h
      · exact .done trivial
      · exact .string _ _
      · exact .string _ _
    · split_ifs at h <;> cases h <;> exact .string _ _
    · split_ifs at h <;> cases h <;> exact .string _ _
  | number part text =>
    simp only [Json.step] at h
    split at h
    · cases h
      exact .number _ _
    · split_ifs at h
      have hdone : Json.step ⟨.done (.number text.reverse), []⟩ b = some s' := h
      rw [(step_done hdone).2]
      exact .done trivial
  | word left hv =>
    match left with
    | [] => cases h
    | [c] =>
      simp only [Json.step, stepToken] at h
      split_ifs at h
      cases h
      exact .done hv
    | c :: d :: left =>
      simp only [Json.step, stepToken] at h
      split_ifs at h
      cases h
      exact .word _ hv
  | done hv =>
    rw [(step_done h).2]
    exact .done hv

theorem Bare.run (hs : Bare s) (h : run s bs = some s') : Bare s' := by
  induction bs generalizing s with
  | nil =>
    cases h
    exact hs
  | cons b bs ih =>
    obtain ⟨s₁, hb, h⟩ := Option.bind_eq_some_iff.1 h
    exact ih (hs.step hb) h

theorem Bare.scalar_of_finish? (hs : Bare s) (h : s.finish? = some v) : IsScalar v := by
  cases hs with
  | number part text =>
    simp only [State.finish?] at h
    split_ifs at h
    cases h
    trivial
  | done hv =>
    cases h
    exact hv
  | _ => cases h

theorem Bare.not_inside (hs : Bare s) : ¬ Inside s := by
  rintro ⟨hst, -⟩
  cases hs <;> exact hst rfl

/-- After a whole value there is only white space. -/
theorem space_of_run_done (h : run ⟨.done v, st⟩ bs = some s) :
    (∀ b ∈ bs, isSpace b = true) ∧ s.mode = .done v := by
  induction bs generalizing st with
  | nil =>
    cases h
    exact ⟨by simp, rfl⟩
  | cons b bs ih =>
    obtain ⟨s₁, hb, h⟩ := Option.bind_eq_some_iff.1 h
    obtain ⟨hspace, rfl⟩ := step_done hb
    obtain ⟨hall, hmode⟩ := ih h
    exact ⟨List.forall_mem_cons.2 ⟨hspace, hall⟩, hmode⟩

theorem run_space (h : ∀ b ∈ bs, isSpace b = true) :
    run ⟨.done v, []⟩ bs = some ⟨.done v, []⟩ := by
  induction bs with
  | nil => rfl
  | cons b bs ih =>
    obtain ⟨hb, h⟩ := List.forall_mem_cons.1 h
    have hstep : step ⟨.done v, []⟩ b = some ⟨.done v, []⟩ := if_pos hb
    rw [run_cons, hstep, Option.bind_some, ih h]

/-- The bytes close what they open: after those of `body` a bracket is open still, `last` is the one
that closes the value `v`, and there is white space after it. -/
structure Closes (s : State) (bs body : List UInt8) (last : UInt8) (v : Json) : Prop where
  exists_space : ∃ space, bs = body ++ last :: space ∧ ∀ b ∈ space, isSpace b = true
  closing : IsClosing last
  body : ∃ s', run s body = some s' ∧ Inside s' ∧ step s' last = some ⟨.done v, []⟩

theorem Closes.cons {body : List UInt8} {last : UInt8} (hb : step s b = some s')
    (h : Closes s' bs body last v) : Closes s (b :: bs) (b :: body) last v := by
  obtain ⟨⟨space, rfl, hspace⟩, hlast, s₂, hr, hs₂⟩ := h
  refine ⟨⟨space, rfl, hspace⟩, hlast, s₂, ?_, hs₂⟩
  rw [run_cons, hb, Option.bind_some, hr]

/-- A bracket is open until it is closed. -/
theorem Inside.run (hs : Inside s) (h : run s bs = some s') :
    Inside s' ∨ ∃ body last v, Closes s bs body last v ∧ s' = ⟨.done v, []⟩ := by
  induction bs generalizing s with
  | nil =>
    cases h
    exact Or.inl hs
  | cons b bs ih =>
    obtain ⟨s₁, hb, h⟩ := Option.bind_eq_some_iff.1 h
    rcases hs.step s₁ hb with hs₁ | ⟨hclosing, v, rfl⟩
    · rcases ih hs₁ h with hs' | ⟨body, last, v, hcloses, hs'⟩
      · exact Or.inl hs'
      · exact Or.inr ⟨b :: body, last, v, hcloses.cons hb, hs'⟩
    · have hspace := (space_of_run_done h).1
      rw [run_space hspace] at h
      cases h
      exact Or.inr ⟨[], b, v, ⟨⟨bs, rfl, hspace⟩, hclosing, s, rfl, hs, hb⟩, rfl⟩

/-- How far a text has got: nothing has begun, a value without brackets has, or a bracket was opened,
and may have been closed. -/
theorem run_start (h : run .start bs = some s) : s = .start ∨ Bare s ∨ Inside s ∨
    ∃ body last v, Closes .start bs body last v ∧ s = ⟨.done v, []⟩ := by
  induction bs with
  | nil =>
    cases h
    exact Or.inl rfl
  | cons b bs ih =>
    obtain ⟨s₁, hb, h⟩ := Option.bind_eq_some_iff.1 h
    rcases step_start hb with rfl | hs₁ | hs₁
    · rcases ih h with hs | hs | hs | ⟨body, last, v, hcloses, hs⟩
      · exact Or.inl hs
      · exact Or.inr (Or.inl hs)
      · exact Or.inr (Or.inr (Or.inl hs))
      · exact Or.inr (Or.inr (Or.inr ⟨b :: body, last, v, hcloses.cons hb, hs⟩))
    · rcases hs₁.run h with hs | ⟨body, last, v, hcloses, hs⟩
      · exact Or.inr (Or.inr (Or.inl hs))
      · exact Or.inr (Or.inr (Or.inr ⟨b :: body, last, v, hcloses.cons hb, hs⟩))
    · exact Or.inr (Or.inl (hs₁.run h))

/-- Before the last bracket nothing is read as a whole. -/
theorem Closes.parse?_of_prefix {body p : List UInt8} {last : UInt8}
    (h : Closes .start bs body last v) (hp : p <+: body) : parse? p = none := by
  obtain ⟨rest, rfl⟩ := hp
  obtain ⟨s', hr, hs', -⟩ := h.body
  rw [run_append] at hr
  obtain ⟨s₁, hp, hrest⟩ := Option.bind_eq_some_iff.1 hr
  rw [parse?, hp, Option.bind_some]
  -- what has been read goes on into an open bracket, so it is neither a scalar nor whole
  rcases run_start hp with rfl | hs₁ | hs₁ | ⟨-, -, w, -, rfl⟩
  · rfl
  · exact absurd hs' (hs₁.run hrest).not_inside
  · exact hs₁.finish?
  · exact absurd (space_of_run_done hrest).2 (hs'.mode w)

/-- Once the last bracket has been read, the value has, and there is nothing after it but white
space. -/
theorem Closes.run_of_prefix {body p : List UInt8} {last : UInt8} (h : Closes s bs body last v)
    (hp : p <+: bs) (hlen : body.length < p.length) : run s p = some ⟨.done v, []⟩ := by
  obtain ⟨space, rfl, hspace⟩ := h.exists_space
  obtain ⟨s', hr, -, hlast⟩ := h.body
  have hbody : body <+: p :=
    List.prefix_of_prefix_length_le (List.prefix_append _ _) hp (Nat.le_of_lt hlen)
  obtain ⟨q, rfl⟩ := hbody
  cases q with
  | nil => simp at hlen
  | cons c q =>
    obtain ⟨rfl, hq⟩ := List.cons_prefix_cons.1 ((List.prefix_append_right_inj _).1 hp)
    rw [run_append, hr, Option.bind_some, run_cons, hlast, Option.bind_some]
    exact run_space fun b hb => hspace b (hq.subset hb)

theorem rdropWhile_space {body space : List UInt8} {last : UInt8} (hlast : IsClosing last)
    (hspace : ∀ b ∈ space, isSpace b = true) :
    (body ++ last :: space).rdropWhile isSpace = body ++ [last] := by
  have hreverse : (body ++ last :: space).reverse = space.reverse ++ last :: body.reverse := by simp
  rw [List.rdropWhile, hreverse, List.dropWhile_append_of_pos (by simpa using hspace),
    List.dropWhile_cons_of_neg (by rcases hlast with rfl | rfl <;> decide)]
  simp

/-- A text of an array or an object is read if it has the last bracket, and not before. -/
theorem parse?_prefix (h : parse? bs = some v) (hv : ¬ IsScalar v) :
    (∃ body last, bs.rdropWhile isSpace = body ++ [last] ∧ IsClosing last) ∧
      ∀ p, p <+: bs → parse? p = if bs.rdropWhile isSpace <+: p then some v else none := by
  obtain ⟨s, hs, hfinish⟩ := Option.bind_eq_some_iff.1 h
  rcases run_start hs with rfl | hs | hs | ⟨body, last, w, hcloses, rfl⟩
  · cases hfinish
  · exact absurd (hs.scalar_of_finish? hfinish) hv
  · rw [hs.finish?] at hfinish
    cases hfinish
  · obtain rfl : w = v := Option.some.inj hfinish
    obtain ⟨space, hbs, hspace⟩ := hcloses.exists_space
    have htext : bs.rdropWhile isSpace = body ++ [last] := by
      rw [hbs, rdropWhile_space hcloses.closing hspace]
    have htext_bs : body ++ [last] <+: bs := htext ▸ List.rdropWhile_prefix isSpace bs
    have hlength : (body ++ [last]).length = body.length + 1 := List.length_append
    refine ⟨⟨body, last, htext, hcloses.closing⟩, fun p hp => ?_⟩
    rw [htext]
    split_ifs with htext_p
    · have hlen := htext_p.length_le
      rw [hlength] at hlen
      rw [parse?, hcloses.run_of_prefix hp hlen]
      rfl
    · refine hcloses.parse?_of_prefix ?_
      refine List.prefix_of_prefix_length_le hp ((List.prefix_append _ _).trans htext_bs) ?_
      by_contra hlen
      exact htext_p (List.prefix_of_prefix_length_le htext_bs hp (by omega))

/-- Text that opens a bracket and is read needs all of its bytes but white space at its end. -/
theorem space_of_parse?_append {rest : List UInt8} (hb : b = byte '{' ∨ b = byte '[')
    (hpart : parse? (b :: bs) = some v) (h : parse? (b :: bs ++ rest) = some w) :
    ∀ c ∈ rest, isSpace c = true := by
  obtain ⟨s, hs, hv⟩ := Option.bind_eq_some_iff.1 hpart
  obtain ⟨s', hs', -⟩ := Option.bind_eq_some_iff.1 h
  obtain ⟨s₁, hfirst, hrun⟩ := Option.bind_eq_some_iff.1 hs
  have hinside : Inside s₁ := by
    rcases hb with rfl | rfl <;> cases hfirst <;> exact ⟨List.cons_ne_nil _ _, nofun⟩
  rw [run_append, hs, Option.bind_some] at hs'
  rcases hinside.run hrun with hs | ⟨_, _, _, -, rfl⟩
  · rw [hs.finish?] at hv
    cases hv
  · exact (space_of_run_done hs').1

end PeerWatch.Json
