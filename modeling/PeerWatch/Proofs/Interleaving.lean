import Mathlib.Logic.Relation
import PeerWatch.Proofs.Errands
import PeerWatch.Rehearsal.Interleaving

/-! What can come to pass in a rehearsal. Passes and their errands are sound after whatever comes
next, and all that the clock lets go on, in its order, is a run of what may come next. -/
namespace PeerWatch.Rehearsal.World
open Relation
variable {c : Setup} {w w' : World c} {e : Errand c.fetch} {p : Walk} {number : Nat}

theorem mem_waiting_errand {m : Moment} (h : (m, Ready.errand e) ∈ w.waiting) : e ∈ w.errands := by
  simp only [waiting, List.mem_append, List.mem_map, List.mem_filterMap] at h
  rcases h with ((⟨f, hf, he⟩ | ⟨l, -, hl⟩) | ⟨x, -, hx⟩) | ⟨x, -, hx⟩
  · cases he
    exact hf
  · split at hl <;> cases hl
  · obtain ⟨x₁, -, hx⟩ := Option.map_eq_some_iff.1 hx
    cases hx
  · cases hx

theorem Sound.next (hs : w.Sound) (h : Next w w') : w'.Sound := by
  cases h with
  | @go m ready waits =>
    have hs' (turn : Agent) : ({ w with turn } : World c).Sound := hs.congr rfl rfl rfl rfl
    cases ready with
    | errand e =>
      exact (hs' (w.agent (.errand e))).comes (mem_waiting_errand waits) (comes_goOn _ e)
    | loop l => exact (hs' _).beat l
    | session n => exact (hs' _).serve n
    | cancel place token =>
      refine Sound.cancel ?_ token
      exact hs.congr rfl rfl rfl rfl
  | serve number => exact hs.serve number
  | time turn later => exact hs.congr rfl rfl rfl rfl
  | ask token distinct => exact (hs.startWalk token .direct distinct).1
  | tick active => exact (hs.startWalk _ .tick (nodup_ids_ofStore _ _ _)).1
  | spawn token => exact hs.addLoop token
  | cancel token => exact hs.cancel token
  | forget found ended =>
    exact ⟨hs.toManned.remove found ended, fun q hq => hs.tended q (List.mem_of_mem_filter hq),
      hs.loops⟩
  | other => exact hs.congr rfl rfl rfl rfl

theorem sound_start : ({} : World c).Sound :=
  ⟨⟨List.nodup_nil, nofun, nofun, nofun, nofun⟩, nofun, rfl⟩

theorem Sound.run (hs : w.Sound) (h : Relation.ReflTransGen Next w w') : w'.Sound := by
  induction h with
  | refl => exact hs
  | tail _ hnext ih => exact ih.next hnext

/-- Of those that wait, the first is one. -/
theorem mem_of_first {x : Moment × Ready c} : ∀ {xs : List (Moment × Ready c)},
    w.first xs = some x → x ∈ xs
  | [], h => by cases h
  | y :: ys, h => by
    rw [first] at h
    split at h
    · obtain rfl := Option.some.inj h
      exact List.mem_cons_self
    · next z hz =>
      split_ifs at h
      · obtain rfl := Option.some.inj h
        exact List.mem_cons_of_mem _ (mem_of_first hz)
      · obtain rfl := Option.some.inj h
        exact List.mem_cons_self

theorem next_of_step (h : w.step = some w') : Next w w' := by
  obtain ⟨x, hx, rfl⟩ := Option.map_eq_some_iff.1 h
  exact .go (List.mem_of_mem_filter (mem_of_first hx))

theorem run_serveAll (w : World c) : ReflTransGen Next w w.serveAll := by
  suffices h : ∀ ns : List Nat, ∀ w : World c, ReflTransGen Next w (ns.foldl serve w) from h _ w
  intro ns
  induction ns with
  | nil => exact fun w => .refl
  | cons n ns ih => exact fun w => .head (.serve n) (ih _)

theorem run_settle (w : World c) : ReflTransGen Next w w.settle := by
  suffices h : ∀ fuel, ∀ w : World c, ReflTransGen Next w (settleWithin fuel w) from h bound w
  intro fuel
  induction fuel with
  | zero => exact fun w => .refl
  | succ fuel ih =>
    intro w
    rw [settleWithin]
    split
    · next w' hstep => exact .head (next_of_step hstep) (ih w')
    · exact run_serveAll w

theorem run_reach (w : World c) (due : Nat) : ReflTransGen Next w (w.reach due) :=
  .head (.time .self (Nat.le_max_left _ _)) (run_settle _)

theorem run_sleep (w : World c) (ms : Nat) : ReflTransGen Next w (w.sleep ms) := by
  suffices h : ∀ target fuel, ∀ w : World c, ReflTransGen Next w (passWithin target fuel w) from
    (run_settle w).trans (h _ _ _)
  intro target fuel
  induction fuel with
  | zero => exact fun w => .refl
  | succ fuel ih =>
    intro w
    rw [passWithin]
    split
    · next due _ => exact (run_reach w due).trans (ih _)
    · exact run_reach w target

/-- The pass that is answered was over in a world on the way. -/
theorem run_finish (w : World c) (number : Nat) :
    ReflTransGen Next w (w.finish number).2 ∧ ∀ p, (w.finish number).1 = some p →
      ∃ w', ReflTransGen Next w w' ∧ w'.walk? number = some p := by
  suffices h : ∀ fuel, ∀ w : World c, ReflTransGen Next w (finishWithin number fuel w).2 ∧
      ∀ p, (finishWithin number fuel w).1 = some p →
        ∃ w', ReflTransGen Next w w' ∧ w'.walk? number = some p by
    obtain ⟨hrun, hfound⟩ := h bound w.settle
    refine ⟨(run_settle w).trans hrun, fun p hp => ?_⟩
    obtain ⟨w', hrun', hwalk⟩ := hfound p hp
    exact ⟨w', (run_settle w).trans hrun', hwalk⟩
  intro fuel
  induction fuel with
  | zero => exact fun w => ⟨.refl, nofun⟩
  | succ fuel ih =>
    intro w
    rw [finishWithin]
    split
    · exact ⟨.refl, nofun⟩
    · next p hp =>
      split_ifs with hover
      · refine ⟨.single (.forget hp hover), fun q hq => ?_⟩
        obtain rfl := Option.some.inj hq
        exact ⟨w, .refl, hp⟩
      · split
        · next due _ =>
          obtain ⟨hrun, hfound⟩ := ih (w.reach due)
          refine ⟨(run_reach w due).trans hrun, fun q hq => ?_⟩
          obtain ⟨w', hrun', hwalk⟩ := hfound q hq
          exact ⟨w', (run_reach w due).trans hrun', hwalk⟩
        · exact ⟨.refl, nofun⟩

theorem nodup_ids_ofSeeds (p : DiscoveryPolicy) (seeds : List PeerAddress) :
    (Candidate.ids (Pass.ofSeeds p seeds).waiting).Nodup := Candidate.nodup_ids_distinct _

theorem fetch_eq (w : World c) (address : PeerAddress) (token : String) :
    w.fetch address token =
      let r := (w.startWalk token .direct { waiting := [⟨address, .advertised⟩] }).2.finish w.walkCount
      (r.1.bind (·.last), r.2) := rfl

theorem pass_eq (w : World c) (token : String) (purpose : Purpose) (pass : Pass) :
    w.pass token purpose pass =
      let r := (w.startWalk token purpose pass).2.finish w.walkCount
      (r.1.elim {} (·.pass.report), r.2) := rfl

/-- All that can be asked of the passes and loops of a rehearsal is a run of what may come next. -/
theorem run_asked (w : World c) (token : String) :
    (∀ address, ReflTransGen Next w (w.fetch address token).2) ∧
    (∀ seeds, ReflTransGen Next w (w.bootstrap seeds token).2) ∧
    ReflTransGen Next w (w.tick token).2 ∧ ReflTransGen Next w (w.spawn token) ∧
    ∀ ms, ReflTransGen Next w (w.cancelAfter token ms) := by
  refine ⟨fun address => ?_, fun seeds => ?_, ?_, ?_, fun ms => ?_⟩
  · have hids : ([⟨address, .advertised⟩].map Candidate.id).Nodup := List.nodup_singleton _
    rw [fetch_eq]
    exact .head (.ask token hids) (run_finish _ _).1
  · rw [bootstrap, pass_eq]
    exact .head (.ask token (nodup_ids_ofSeeds _ _)) (run_finish _ _).1
  · rw [tick]
    split_ifs with hc
    · exact run_settle w
    · rw [pass_eq]
      exact .head (.tick (by simpa using hc)) (run_finish _ _).1
  · exact .head (.spawn token) (run_settle _)
  · cases ms with
    | none => exact .head (.cancel token) (run_settle _)
    | some ms => exact .head (.other _ _ _ _ _ _) (run_settle _)

end PeerWatch.Rehearsal.World
