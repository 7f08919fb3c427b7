import PeerWatch.Proofs.RoundOrder
import PeerWatch.Rehearsal.Steps

/-! Passes and their errands. Whatever comes next in a rehearsal, a pass has one errand for each of
its probes that has started and not ended, and as many of them as there is room for. -/
namespace PeerWatch.Rehearsal
variable {c : Setup} {w w' : World c} {e e' : Errand c.fetch} {p q : Walk} {number n : Nat}
  {candidate : Candidate} {pass pass' : Pass}

namespace World

inductive Comes (w : World c) (e : Errand c.fetch) : World c → Prop
  | waits {e' : Errand c.fetch} (network : Network) (places : Nat) (owner : e'.owner = e.owner)
      (candidate : e'.candidate = e.candidate) :
      Comes w e { w with network, places, errands := w.errands ++ [e'] }
  | ends (network : Network) (places : Nat) (size : Option Nat)
      (result : Except ProbeError Document) :
      Comes w e (conclude { w with network, places } e size result)

theorem comes_await (w : World c) (e : Errand c.fetch) (m : Moment) (a : Awaited) :
    Comes w e (w.await e m a) := .waits w.network w.places rfl rfl

theorem comes_forward (w : World c) (e : Errand c.fetch) (k : CallKind) (m : Moment) :
    Comes w e (w.forward e k m) := by
  unfold forward
  dsimp only
  split
  · exact .waits _ _ rfl rfl
  · exact .waits _ _ rfl rfl

theorem comes_call (w : World c) (e : Errand c.fetch) : Comes w e (w.call e) := by
  unfold call
  dsimp only
  split
  · exact comes_await w e _ _
  · exact .waits _ _ rfl rfl

theorem comes_listen (w : World c) (e : Errand c.fetch) (room : Nat) (m : Moment) :
    Comes w e (w.listen e room m) := by
  unfold listen
  split
  · exact comes_await w e _ _
  · cases e.held <;> exact .waits _ _ rfl rfl
  · exact .waits _ _ rfl rfl

theorem Comes.of_eq {network : Network} {places : Nat}
    (h : Comes { w with network, places } e' w') (ho : e'.owner = e.owner)
    (hc : e'.candidate = e.candidate) (hs : e'.started = e.started) : Comes w e w' := by
  cases h with
  | waits network places owner candidate =>
    exact .waits network places (owner.trans ho) (candidate.trans hc)
  | ends network places size result =>
    have hconclude : conclude { w with network, places } e' size result =
        conclude { w with network, places } e size result := by
      simp only [conclude, writeDown, ho, hc, hs]
    exact hconclude ▸ .ends network places size result

theorem comes_proceed (w : World c) (e : Errand c.fetch) : Comes w e (w.proceed e) := by
  unfold proceed
  split
  · exact comes_call w e
  · exact (comes_listen _ e _ _).of_eq rfl rfl rfl
  · exact comes_await w e _ _

theorem comes_deliver (w : World c) (e : Errand c.fetch) (r : Reply) :
    Comes w e (w.deliver e r) := by
  unfold deliver
  split
  · exact (comes_proceed w _).of_eq rfl rfl rfl
  · exact .ends w.network w.places _ _

theorem comes_goOn (w : World c) (e : Errand c.fetch) : Comes w e (w.goOn e) := by
  unfold goOn
  dsimp only
  split_ifs
  · exact .ends w.network w.places _ _
  split
  · exact (comes_deliver _ e _).of_eq rfl rfl rfl
  · split_ifs
    · exact comes_await w e _ _
    · exact comes_forward w e _ _
  · exact (comes_deliver _ e _).of_eq rfl rfl rfl
  · exact (comes_deliver _ e _).of_eq rfl rfl rfl
  · split
    · exact (comes_listen _ _ _ _).of_eq rfl rfl rfl
    · exact comes_deliver w e _
  · exact comes_deliver w e _
  · exact comes_deliver w e _

def errandsOf (w : World c) (number : Nat) : List Candidate :=
  (w.errands.filter (·.owner = number)).map Errand.candidate

/-- Passes have numbers of their own and probe every peer once at most; each of their running probes
has an errand, and there are no other errands. -/
structure Manned (w : World c) : Prop where
  numbers : (w.walks.map Walk.number).Nodup
  bounded : ∀ p ∈ w.walks, p.number < w.walkCount
  distinct : ∀ p ∈ w.walks, (Candidate.ids p.pass.candidates).Nodup
  errands : ∀ p ∈ w.walks, (w.errandsOf p.number).Perm p.pass.running
  owned : ∀ e ∈ w.errands, ∃ p ∈ w.walks, p.number = e.owner

end World

def Walk.unstarted (p : Walk) : Walk :=
  { p with pass := { waiting := p.pass.candidates, report := p.pass.report } }

theorem Walk.of_unstarted (h : p.unstarted = q.unstarted) :
    p.number = q.number ∧ p.token = q.token ∧ p.purpose = q.purpose ∧ p.last = q.last ∧
      p.pass.report = q.pass.report ∧ p.pass.candidates = q.pass.candidates := by
  simp only [unstarted, Walk.mk.injEq, Pass.mk.injEq] at h
  obtain ⟨hnumber, htoken, hpurpose, ⟨hcandidates, -, hreport⟩, hlast⟩ := h
  exact ⟨hnumber, htoken, hpurpose, hlast, hreport, hcandidates⟩

/-- A pass has a probe running as long as any is waiting. -/
def Walk.IsTended (p : Walk) : Prop := p.pass.running = [] → p.pass.waiting = []

namespace World

theorem walk?_eq_some_iff (hm : w.Manned) : w.walk? n = some p ↔ p ∈ w.walks ∧ p.number = n :=
  find?_key_eq_some_iff hm.numbers

theorem Manned.eq_of_number (hm : w.Manned) (hp : p ∈ w.walks) (hq : q ∈ w.walks)
    (h : p.number = q.number) : p = q := List.inj_on_of_nodup_map hm.numbers hp hq h

theorem exists_of_unstarted (h : w'.walks.map Walk.unstarted = w.walks.map Walk.unstarted)
    (hp : p ∈ w'.walks) : ∃ q ∈ w.walks, q.unstarted = p.unstarted := by
  have hmem := List.mem_map_of_mem (f := Walk.unstarted) hp
  rw [h] at hmem
  exact List.mem_map.1 hmem

/-- A pass that starts a probe has the same candidates, and runs one more. -/
theorem start?_spec {width : Nat} (h : pass.start? width = some (candidate, pass')) :
    pass'.candidates = pass.candidates ∧ pass'.report = pass.report ∧
      pass'.running = pass.running ++ [candidate] := by
  obtain ⟨hc, hr⟩ := Pass.candidates_start h
  refine ⟨hc, hr, ?_⟩
  unfold Pass.start? at h
  split at h
  · split_ifs at h
    cases h
    rfl
  · cases h

theorem walks_dispatch (w : World c) (number : Nat) (candidate : Candidate) (pass : Pass) :
    (w.dispatch number candidate pass).walks =
      w.walks.map fun p => if p.number = number then { p with pass := pass } else p := rfl

theorem errandsOf_dispatch (w : World c) (number : Nat) (candidate : Candidate) (pass : Pass) :
    (w.dispatch number candidate pass).errandsOf n =
      w.errandsOf n ++ if number = n then [candidate] else [] := by
  have herrands : (w.dispatch number candidate pass).errands = w.errands ++
    [{ owner := number, candidate, started := w.now, probe := .asking, moment := ⟨w.now, w.places⟩ }] := rfl
  rw [errandsOf, herrands, List.filter_append, List.map_append]
  by_cases hn : number = n <;> simp [errandsOf, hn]

/-- Starting a probe changes nothing that does not tell which probes have started. -/
theorem unstarted_dispatch (hm : w.Manned) (hp : w.walk? number = some p)
    (hs : p.pass.start? n = some (candidate, pass)) :
    (w.dispatch number candidate pass).walks.map Walk.unstarted = w.walks.map Walk.unstarted := by
  obtain ⟨hmem, rfl⟩ := (walk?_eq_some_iff hm).1 hp
  obtain ⟨hcandidates, hreport, -⟩ := start?_spec hs
  rw [walks_dispatch, List.map_map]
  refine List.map_congr_left fun q hq => ?_
  by_cases hn : q.number = p.number
  · obtain rfl := hm.eq_of_number hq hmem hn
    simp [Walk.unstarted, hcandidates, hreport]
  · simp [hn]

theorem Manned.of_unstarted (hm : w.Manned)
    (h : w'.walks.map Walk.unstarted = w.walks.map Walk.unstarted)
    (hcount : w'.walkCount = w.walkCount)
    (herrands : ∀ p ∈ w'.walks, (w'.errandsOf p.number).Perm p.pass.running)
    (howned : ∀ e ∈ w'.errands, ∃ p ∈ w.walks, p.number = e.owner) : w'.Manned where
  numbers := by
    have hn := congrArg (List.map Walk.number) h
    rw [List.map_map, List.map_map] at hn
    exact (congrArg List.Nodup hn).mpr hm.numbers
  bounded p hp := by
    obtain ⟨q, hq, he⟩ := exists_of_unstarted h hp
    rw [hcount, ← (Walk.of_unstarted he).1]
    exact hm.bounded q hq
  distinct p hp := by
    obtain ⟨q, hq, he⟩ := exists_of_unstarted h hp
    obtain ⟨-, -, -, -, -, hcandidates⟩ := Walk.of_unstarted he
    rw [← hcandidates]
    exact hm.distinct q hq
  errands := herrands
  owned e he := by
    obtain ⟨q, hq, hnumber⟩ := howned e he
    obtain ⟨p, hp, he⟩ := exists_of_unstarted h.symm hq
    exact ⟨p, hp, (Walk.of_unstarted he).1.trans hnumber⟩

theorem Manned.dispatch (hm : w.Manned) (hp : w.walk? number = some p)
    (hs : p.pass.start? n = some (candidate, pass)) :
    (w.dispatch number candidate pass).Manned := by
  refine hm.of_unstarted (unstarted_dispatch hm hp hs) rfl (fun q hq => ?_) (fun e he => ?_)
  · obtain ⟨hmem, rfl⟩ := (walk?_eq_some_iff hm).1 hp
    obtain ⟨-, -, hrunning⟩ := start?_spec hs
    rw [walks_dispatch] at hq
    obtain ⟨r, hr, rfl⟩ := List.mem_map.1 hq
    by_cases hn : r.number = p.number
    · obtain rfl := hm.eq_of_number hr hmem hn
      rw [if_pos rfl, errandsOf_dispatch, if_pos rfl, hrunning]
      exact (hm.errands r hr).append_right _
    · rw [if_neg hn, errandsOf_dispatch, if_neg (Ne.symm hn), List.append_nil]
      exact hm.errands r hr
  · rcases List.mem_append.1 (show e ∈ w.errands ++ [_] from he) with he | he
    · exact hm.owned e he
    · obtain rfl := List.mem_singleton.1 he
      exact ⟨p, (walk?_eq_some_iff hm).1 hp⟩

structure Same (w w' : World c) : Prop where
  store : w'.monitor.store = w.monitor.store
  network : w'.network = w.network
  now : w'.now = w.now
  cancelled : w'.cancelled = w.cancelled
  walkCount : w'.walkCount = w.walkCount

/-- What can be told of a world in which some probes of a pass have started since. -/
structure Starts (number : Nat) (w w' : World c) : Prop extends Same w w' where
  loops : w'.loops = w.loops
  walks : w'.walks.map Walk.unstarted = w.walks.map Walk.unstarted
  errands : ∀ e ∈ w'.errands, e ∈ w.errands ∨ e.owner = number ∧ e.moment.due = w.now

theorem Starts.refl (number : Nat) (w : World c) : Starts number w w :=
  ⟨⟨rfl, rfl, rfl, rfl, rfl⟩, rfl, rfl, fun _ he => .inl he⟩

theorem Starts.dispatch (h : Starts number w w') (hm : w'.Manned) (hp : w'.walk? number = some p)
    (hs : p.pass.start? n = some (candidate, pass)) :
    Starts number w (w'.dispatch number candidate pass) where
  store := h.store
  network := h.network
  now := h.now
  cancelled := h.cancelled
  walkCount := h.walkCount
  loops := h.loops
  walks := (unstarted_dispatch hm hp hs).trans h.walks
  errands e he := by
    rcases List.mem_append.1 (show e ∈ w'.errands ++ [_] from he) with he | he
    · exact h.errands e he
    · obtain rfl := List.mem_singleton.1 he
      exact .inr ⟨rfl, h.now⟩

/-- What holds before and what every start keeps still holds when probes have started. -/
theorem startErrands_induct {P : World c → Prop} (number n : Nat) (hm : w.Manned) (hP : P w)
    (hstep : ∀ w p candidate pass, Manned w → P w → w.walk? number = some p →
      p.pass.start? (Pass.width c.discovery) = some (candidate, pass) →
      P (w.dispatch number candidate pass)) :
    (startErrands number n w).Manned ∧ P (startErrands number n w) := by
  induction n generalizing w with
  | zero => exact ⟨hm, hP⟩
  | succ n ih =>
    rw [startErrands]
    split
    · exact ⟨hm, hP⟩
    · next candidate pass hstart =>
      obtain ⟨p, hp, hs⟩ := Option.bind_eq_some_iff.1 hstart
      exact ih (hm.dispatch hp hs) (hstep w p candidate pass hm hP hp hs)

/-- All passes are tended but perhaps one. -/
def TendedBut (number : Nat) (w : World c) : Prop :=
  ∀ p ∈ w.walks, p.number ≠ number → p.IsTended

theorem TendedBut.dispatch (ht : TendedBut number w) (candidate : Candidate) (pass : Pass) :
    TendedBut number (w.dispatch number candidate pass) := by
  intro p hp hn
  rw [walks_dispatch] at hp
  obtain ⟨q, hq, rfl⟩ := List.mem_map.1 hp
  split_ifs at hn ⊢ with hnumber
  · exact absurd hnumber hn
  · exact ht q hq hn

theorem running_dispatch (hs : p.pass.start? n = some (candidate, pass)) :
    ∀ q ∈ (w.dispatch number candidate pass).walks, q.number = number → q.pass.running ≠ [] := by
  intro q hq hn
  rw [walks_dispatch] at hq
  obtain ⟨r, -, rfl⟩ := List.mem_map.1 hq
  obtain ⟨-, -, hrunning⟩ := start?_spec hs
  by_cases hr : r.number = number
  · simp [hr, hrunning]
  · rw [if_neg hr] at hn
    exact absurd hn hr

theorem tended_startErrands (hm : w.Manned) (ht : TendedBut number w) (n : Nat) :
    ∀ p ∈ (startErrands number (n + 1) w).walks, p.IsTended := by
  rw [startErrands]
  split
  · next hnone =>
    intro p hp
    by_cases hn : p.number = number
    · rw [(walk?_eq_some_iff hm).2 ⟨hp, hn⟩, Option.bind_some, Pass.start?] at hnone
      intro hrunning
      split at hnone
      · rw [hrunning, if_pos (by simp only [Pass.width, List.length_nil]; omega)] at hnone
        cases hnone
      · assumption
    · exact ht p hp hn
  · next candidate pass hstart =>
    obtain ⟨p, hp, hs⟩ := Option.bind_eq_some_iff.1 hstart
    -- From the first start on a probe of the pass is running.
    obtain ⟨-, htended, hruns⟩ := startErrands_induct
      (P := fun w => TendedBut number w ∧ ∀ q ∈ w.walks, q.number = number → q.pass.running ≠ [])
      number n (hm.dispatch hp hs) ⟨ht.dispatch candidate pass, running_dispatch hs⟩
      fun _ _ candidate pass _ hw _ hs => ⟨hw.1.dispatch candidate pass, running_dispatch hs⟩
    intro q hq
    by_cases hn : q.number = number
    · exact fun hrunning => absurd hrunning (hruns q hq hn)
    · exact htended q hq hn

structure Sound (w : World c) : Prop extends Manned w where
  tended : ∀ p ∈ w.walks, p.IsTended
  loops : w.loops.map Loop.number = List.range w.loops.length

theorem Sound.nodup_loops (hl : w.loops.map Loop.number = List.range w.loops.length) :
    (w.loops.map Loop.number).Nodup := hl ▸ List.nodup_range

theorem map_number_of_state (ls : List Loop) (n : Nat) (state : LoopState) :
    (ls.map fun l => if l.number = n then { l with state } else l).map Loop.number =
      ls.map Loop.number := by
  rw [List.map_map]
  refine List.map_congr_left fun l _ => ?_
  rw [Function.comp_apply]
  split_ifs <;> rfl

/-- A loop that comes to rest has ended if it was cancelled. -/
theorem rest_spec (hl : (w.loops.map Loop.number).Nodup) (n : Nat) :
    ∃ places state, w.rest n = { w with
      places, loops := w.loops.map fun l => if l.number = n then { l with state } else l } ∧
      ∀ l ∈ w.loops, l.number = n → w.isCancelled l.token = true → state = .ended := by
  unfold rest
  split
  · next hnone =>
    refine ⟨w.places, .ended, ?_, fun _ _ _ _ => rfl⟩
    have hmap : (w.loops.map fun l => if l.number = n then { l with state := .ended } else l) =
        w.loops := by
      refine (List.map_congr_left fun l hl => ?_).trans (List.map_id _)
      have hne := List.find?_eq_none.1 hnone l hl
      rw [if_neg (by simpa using hne)]
      rfl
    rw [hmap]
  · next l hfind =>
    obtain ⟨hmem, rfl⟩ := (find?_key_eq_some_iff hl).1 hfind
    have heq {l' : Loop} (hl' : l' ∈ w.loops) (hn : l'.number = l.number) : l' = l :=
      List.inj_on_of_nodup_map hl hl' hmem hn
    split_ifs with hcancelled
    · exact ⟨w.places, .ended, rfl, fun _ _ _ _ => rfl⟩
    · refine ⟨w.places + 1, _, rfl, fun l' hl' hn hc => ?_⟩
      rw [heq hl' hn] at hc
      exact absurd hc hcancelled

structure Tends (number : Nat) (w w' : World c) : Prop extends Same w w' where
  errands : ∀ e ∈ w'.errands, e ∈ w.errands ∨ e.owner = number ∧ e.moment.due = w.now
  walks : ∀ p ∈ w'.walks, ∃ q ∈ w.walks, q.unstarted = p.unstarted
  kept : ∀ q ∈ w.walks, (∃ p ∈ w'.walks, p.unstarted = q.unstarted) ∨
    q.number = number ∧ q.pass.candidates = []
  loops : ∀ l' ∈ w'.loops, ∃ l ∈ w.loops, l'.number = l.number ∧ l'.token = l.token ∧
    (l'.state = l.state ∨ (w.isCancelled l.token = true → l'.state = .ended))

theorem Starts.tends (h : Starts number w w') : Tends number w w' where
  toSame := h.toSame
  errands := h.errands
  walks _ hp := exists_of_unstarted h.walks hp
  kept _ hq := .inl (exists_of_unstarted h.walks.symm hq)
  loops l hl := ⟨l, h.loops ▸ hl, rfl, rfl, .inl rfl⟩

theorem candidates_of_isOver (h : pass.isOver = true) : pass.candidates = [] := by
  rw [Pass.isOver, Bool.and_eq_true, List.isEmpty_iff, List.isEmpty_iff] at h
  rw [Pass.candidates, h.1, h.2, List.append_nil]

/-- The passes but one that is over. -/
theorem Manned.remove (hm : w.Manned) (hp : w.walk? number = some p) (ho : p.pass.isOver = true) :
    ({ w with walks := w.walks.filter (·.number ≠ number) } : World c).Manned := by
  obtain ⟨hmem, rfl⟩ := (walk?_eq_some_iff hm).1 hp
  have hsub : (w.walks.filter (·.number ≠ p.number)).Sublist w.walks := List.filter_sublist
  refine ⟨hm.numbers.sublist (hsub.map _), fun q hq => hm.bounded q (hsub.subset hq),
    fun q hq => hm.distinct q (hsub.subset hq), fun q hq => hm.errands q (hsub.subset hq),
    fun e he => ?_⟩
  obtain ⟨q, hq, hn⟩ := hm.owned e he
  refine ⟨q, List.mem_filter.2 ⟨hq, decide_eq_true fun hqp => ?_⟩, hn⟩
  -- The pass that is over has no errand.
  have hnil : w.errandsOf p.number = [] := by
    have hrunning : p.pass.running = [] :=
      (List.append_eq_nil_iff.1 (candidates_of_isOver ho)).1
    exact List.Perm.eq_nil (hrunning ▸ hm.errands p hmem)
  have he' : e.candidate ∈ w.errandsOf p.number :=
    List.mem_map_of_mem (List.mem_filter.2 ⟨he, decide_eq_true (hn.symm.trans hqp)⟩)
  rw [hnil] at he'
  cases he'

theorem Manned.congr (hm : w.Manned) (hwalks : w'.walks = w.walks)
    (herrands : w'.errands = w.errands) (hcount : w'.walkCount = w.walkCount) : w'.Manned :=
  hm.of_unstarted (by rw [hwalks]) hcount
    (fun p hp => by rw [errandsOf, herrands]; exact hm.errands p (hwalks ▸ hp))
    (fun e he => hm.owned e (herrands ▸ he))

theorem Sound.congr (hs : w.Sound) (hwalks : w'.walks = w.walks)
    (herrands : w'.errands = w.errands) (hcount : w'.walkCount = w.walkCount)
    (hloops : w'.loops.map Loop.number = w.loops.map Loop.number) : w'.Sound where
  toManned := hs.toManned.congr hwalks herrands hcount
  tended p hp := hs.tended p (hwalks ▸ hp)
  loops := by
    have hlength := congrArg List.length hloops
    rw [List.length_map, List.length_map] at hlength
    rw [hloops, hlength, hs.loops]

theorem sound_startErrands (hm : w.Manned) (ht : TendedBut number w)
    (hl : w.loops.map Loop.number = List.range w.loops.length) :
    (startErrands number (Pass.width c.discovery) w).Sound ∧
      Starts number w (startErrands number (Pass.width c.discovery) w) := by
  obtain ⟨hm', hstarts⟩ := startErrands_induct (P := Starts number w) number
    (Pass.width c.discovery) hm (.refl number w) fun _ _ _ _ hm h hp hs => h.dispatch hm hp hs
  obtain ⟨n, hn⟩ : ∃ n, Pass.width c.discovery = n + 1 :=
    ⟨Pass.width c.discovery - 1, by simp only [Pass.width]; omega⟩
  refine ⟨⟨hm', ?_, by rw [hstarts.loops, hl]⟩, hstarts⟩
  rw [hn]
  exact tended_startErrands hm ht n

/-- Tending a pass leaves none untended. -/
theorem sound_tend (hm : w.Manned) (ht : TendedBut number w)
    (hl : w.loops.map Loop.number = List.range w.loops.length) :
    (w.tend number).Sound ∧ Tends number w (w.tend number) := by
  obtain ⟨hs, hstarts⟩ := sound_startErrands hm ht hl
  have htends := hstarts.tends
  unfold tend
  dsimp only
  generalize startErrands number (Pass.width c.discovery) w = w₁ at hs hstarts htends ⊢
  split
  case h_2 => exact ⟨hs, htends⟩
  next p hp =>
  split_ifs with hover
  case neg => exact ⟨hs, htends⟩
  rw [Bool.and_eq_true] at hover
  split
  case h_2 => exact ⟨hs.congr rfl rfl rfl rfl, ⟨⟨htends.store, htends.network, htends.now,
    htends.cancelled, htends.walkCount⟩, htends.errands, htends.walks, htends.kept, htends.loops⟩⟩
  next n _ =>
  have hremoved := hs.toManned.remove hp hover.1
  obtain ⟨places, state, hrest, hended⟩ := rest_spec (w := { w₁ with
    monitor.metrics := w₁.monitor.metrics.countTick
    walks := w₁.walks.filter (·.number ≠ number) }) (Sound.nodup_loops hs.loops) n
  rw [hrest]
  refine ⟨⟨hremoved.congr rfl rfl rfl, fun q hq => hs.tended q (List.mem_of_mem_filter hq), ?_⟩,
    ⟨⟨htends.store, htends.network, htends.now, htends.cancelled, htends.walkCount⟩,
      htends.errands, fun q hq => htends.walks q (List.mem_of_mem_filter hq), fun q hq => ?_,
      fun l' hl' => ?_⟩⟩
  · rw [map_number_of_state, List.length_map]
    exact hs.loops
  · obtain ⟨r, hr, he⟩ := exists_of_unstarted hstarts.walks.symm hq
    obtain ⟨hnumber, -, -, -, -, hcandidates⟩ := Walk.of_unstarted he
    by_cases hn : r.number = number
    · obtain rfl : r = p := hs.toManned.eq_of_number hr ((walk?_eq_some_iff hs.toManned).1 hp).1
        (hn.trans ((walk?_eq_some_iff hs.toManned).1 hp).2.symm)
      exact .inr ⟨hnumber ▸ hn, hcandidates ▸ candidates_of_isOver hover.1⟩
    · exact .inl ⟨r, List.mem_filter.2 ⟨hr, decide_eq_true hn⟩, he⟩
  · obtain ⟨l, hl, rfl⟩ := List.mem_map.1 hl'
    refine ⟨l, hstarts.loops ▸ hl, ?_⟩
    split_ifs with hn
    · refine ⟨rfl, rfl, .inr fun hc => hended l hl hn ?_⟩
      rwa [isCancelled, ← hstarts.cancelled] at hc
    · exact ⟨rfl, rfl, .inl rfl⟩

theorem perm_cons_filter {cs : List Candidate} (hn : (Candidate.ids cs).Nodup)
    (hc : candidate ∈ cs) : cs.Perm (candidate :: cs.filter (·.id ≠ candidate.id)) := by
  have hinj := List.inj_on_of_nodup_map hn
  have hfilter : cs.erase candidate = cs.filter (·.id ≠ candidate.id) := by
    rw [hn.of_map.erase_eq_filter]
    refine List.filter_congr fun d hd => ?_
    by_cases hd' : d = candidate
    · simp [hd']
    · have hid : d.id ≠ candidate.id := fun h => hd' (hinj hd hc h)
      rw [bne_iff_ne.2 hd', decide_eq_true hid]
  exact hfilter ▸ List.perm_cons_erase hc

/-- An errand that is taken up is missing from its pass, and nothing else is missing. -/
theorem errandsOf_takeUp (hm : w.Manned) (he : e ∈ w.errands) (n : Nat) :
    (w.errandsOf n).Perm
      ((if e.owner = n then [e.candidate] else []) ++ (w.takeUp e).errandsOf n) := by
  obtain ⟨p, hp, hnumber⟩ := hm.owned e he
  by_cases hn : e.owner = n
  · subst hn
    have hmem : e.candidate ∈ w.errandsOf e.owner :=
      List.mem_map_of_mem (List.mem_filter.2 ⟨he, decide_eq_true rfl⟩)
    have hids : (Candidate.ids (w.errandsOf e.owner)).Nodup := by
      rw [← hnumber]
      refine ((hm.errands p hp).map Candidate.id).nodup_iff.2 ?_
      exact (hm.distinct p hp).sublist ((List.sublist_append_left _ _).map _)
    have htaken : (w.takeUp e).errandsOf e.owner =
        (w.errandsOf e.owner).filter (·.id ≠ e.candidate.id) := by
      rw [errandsOf, errandsOf, takeUp, List.filter_map, List.filter_filter, List.filter_filter]
      refine congrArg (List.map Errand.candidate) (List.filter_congr fun f _ => ?_)
      by_cases hf : f.owner = e.owner <;> simp [hf]
    rw [if_pos rfl, htaken]
    exact perm_cons_filter hids hmem
  · have htaken : (w.takeUp e).errandsOf n = w.errandsOf n := by
      rw [errandsOf, errandsOf, takeUp, List.filter_filter]
      refine congrArg (List.map Errand.candidate) (List.filter_congr fun f _ => ?_)
      by_cases hf : f.owner = n
      · simp [hf, Ne.symm hn]
      · simp [hf]
    rw [if_neg hn, htaken, List.nil_append]

theorem Sound.waits (hs : w.Sound) (he : e ∈ w.errands) (ho : e'.owner = e.owner)
    (hc : e'.candidate = e.candidate) (network : Network) (places : Nat) :
    ({ w.takeUp e with network, places, errands := (w.takeUp e).errands ++ [e'] } : World c).Sound := by
  refine ⟨hs.toManned.of_unstarted rfl rfl (fun p hp => ?_) (fun f hf => ?_), hs.tended, hs.loops⟩
  · have hback : ((w.takeUp e).errandsOf p.number ++
        if e.owner = p.number then [e.candidate] else []).Perm p.pass.running :=
      List.perm_append_comm.trans
        ((errandsOf_takeUp hs.toManned he p.number).symm.trans (hs.errands p hp))
    rw [errandsOf, List.filter_append, List.map_append]
    by_cases hn : e.owner = p.number <;> simpa [errandsOf, hn, ho, hc] using hback
  · rcases List.mem_append.1 hf with hf | hf
    · exact hs.owned f (List.mem_of_mem_filter hf)
    · obtain rfl := List.mem_singleton.1 hf
      rw [ho]
      exact hs.owned e he

theorem mem_running (hm : w.Manned) (he : e ∈ w.errands) (hp : p ∈ w.walks)
    (hn : p.number = e.owner) : e.candidate ∈ p.pass.running :=
  (hm.errands p hp).subset (List.mem_map_of_mem (List.mem_filter.2 ⟨he, decide_eq_true hn.symm⟩))

theorem walks_writeDown (w : World c) (e : Errand c.fetch) (size : Option Nat)
    (result : Except ProbeError Document) : (w.writeDown e size result).walks =
      w.walks.map fun p => if p.number = e.owner then
        { p with pass := p.pass.finish e.candidate result, last := some result } else p := rfl

theorem mem_writeDown {size : Option Nat} {result : Except ProbeError Document}
    (hq : q ∈ (w.writeDown e size result).walks) : ∃ p ∈ w.walks, p.number = q.number ∧
      (p.number = e.owner ∧
        q = { p with pass := p.pass.finish e.candidate result, last := some result } ∨
      p.number ≠ e.owner ∧ q = p) := by
  rw [walks_writeDown] at hq
  obtain ⟨p, hp, rfl⟩ := List.mem_map.1 hq
  refine ⟨p, hp, ?_⟩
  by_cases hn : p.number = e.owner
  · rw [if_pos hn]
    exact ⟨rfl, .inl ⟨hn, rfl⟩⟩
  · rw [if_neg hn]
    exact ⟨rfl, .inr ⟨hn, rfl⟩⟩

/-- The outcome of an errand that was taken up is written down. Then only its pass may be untended. -/
theorem Sound.writeDown (hs : w.Sound) (he : e ∈ w.errands) (network : Network) (places : Nat)
    (size : Option Nat) (result : Except ProbeError Document) :
    (writeDown { w.takeUp e with network, places } e size result).Manned ∧
      TendedBut e.owner (writeDown { w.takeUp e with network, places } e size result) := by
  refine ⟨⟨?_, fun q hq => ?_, fun q hq => ?_, fun q hq => ?_, fun f hf => ?_⟩, fun q hq hn => ?_⟩
  · rw [walks_writeDown, List.map_map]
    refine (congrArg List.Nodup (List.map_congr_left fun p _ => ?_)).mpr hs.numbers
    rw [Function.comp_apply]
    split_ifs <;> rfl
  · obtain ⟨p, hp, hn, -⟩ := mem_writeDown hq
    exact hn ▸ hs.bounded p hp
  · obtain ⟨p, hp, -, ⟨hn, rfl⟩ | ⟨-, rfl⟩⟩ := mem_writeDown hq
    · have hperm := Pass.perm_candidates (mem_running hs.toManned he hp hn) result
      exact (List.nodup_cons.1 ((hperm.map Candidate.id).nodup_iff.1 (hs.distinct p hp))).2
    · exact hs.distinct q hp
  · obtain ⟨p, hp, hnumber, hq⟩ := mem_writeDown hq
    have htaken := (errandsOf_takeUp hs.toManned he p.number).symm.trans (hs.errands p hp)
    rw [← hnumber]
    rcases hq with ⟨hn, rfl⟩ | ⟨hn, rfl⟩
    · rw [if_pos hn.symm] at htaken
      exact (htaken.trans (List.perm_cons_erase (mem_running hs.toManned he hp hn))).cons_inv
    · rw [if_neg (Ne.symm hn)] at htaken
      exact htaken
  · obtain ⟨p, hp, hn⟩ := hs.owned f (List.mem_of_mem_filter hf)
    rw [walks_writeDown]
    refine ⟨_, List.mem_map_of_mem hp, ?_⟩
    split_ifs <;> exact hn
  · obtain ⟨p, hp, hnumber, ⟨hp', -⟩ | ⟨-, rfl⟩⟩ := mem_writeDown hq
    · exact absurd (hnumber.symm.trans hp') hn
    · exact hs.tended q hp

theorem Sound.comes (hs : w.Sound) (he : e ∈ w.errands) (h : Comes (w.takeUp e) e w') :
    w'.Sound := by
  cases h with
  | waits network places owner candidate => exact hs.waits he owner candidate network places
  | ends network places size result =>
    obtain ⟨hm, ht⟩ := hs.writeDown he network places size result
    exact (sound_tend hm ht hs.loops).1

def addWalk (w : World c) (token : String) (purpose : Purpose) (cs : List Candidate) : World c :=
  { w with
    walkCount := w.walkCount + 1
    walks := w.walks ++ [⟨w.walkCount, token, purpose, { waiting := cs }, none⟩] }

theorem Sound.addWalk (hs : w.Sound) (token : String) (purpose : Purpose) {cs : List Candidate}
    (hd : (Candidate.ids cs).Nodup) :
    (w.addWalk token purpose cs).Manned ∧ TendedBut w.walkCount (w.addWalk token purpose cs) := by
  have hnew (p : Walk) (hp : p ∈ w.walks) : p.number ≠ w.walkCount :=
    Nat.ne_of_lt (hs.bounded p hp)
  have hmem {p : Walk} (hp : p ∈ (w.addWalk token purpose cs).walks) : p ∈ w.walks ∨
      p = ⟨w.walkCount, token, purpose, { waiting := cs }, none⟩ :=
    (List.mem_append.1 hp).imp_right List.mem_singleton.1
  refine ⟨⟨?_, fun p hp => ?_, fun p hp => ?_, fun p hp => ?_, fun e he => ?_⟩, fun p hp hn => ?_⟩
  · rw [World.addWalk, List.map_append, List.map_singleton, List.nodup_append_comm,
      List.singleton_append, List.nodup_cons]
    refine ⟨fun h => ?_, hs.numbers⟩
    obtain ⟨p, hp, hn⟩ := List.mem_map.1 h
    exact hnew p hp hn
  · rcases hmem hp with hp | rfl
    · exact Nat.lt_succ_of_lt (hs.bounded p hp)
    · exact Nat.lt_succ_self _
  · rcases hmem hp with hp | rfl
    · exact hs.distinct p hp
    · exact hd
  · rcases hmem hp with hp | rfl
    · exact hs.errands p hp
    · have hnil : w.errands.filter (·.owner = w.walkCount) = [] := by
        refine List.filter_eq_nil_iff.2 fun e he => ?_
        obtain ⟨p, hp, hn⟩ := hs.owned e he
        rw [← hn]
        simpa using hnew p hp
      rw [errandsOf, World.addWalk]
      simp [hnil]
  · obtain ⟨p, hp, hn⟩ := hs.owned e he
    exact ⟨p, List.mem_append_left _ hp, hn⟩
  · rcases hmem hp with hp | rfl
    · exact hs.tended p hp
    · exact absurd rfl hn

theorem Sound.startWalk (hs : w.Sound) (token : String) (purpose : Purpose) {cs : List Candidate}
    (hd : (Candidate.ids cs).Nodup) :
    (w.startWalk token purpose { waiting := cs }).2.Sound ∧
      Tends w.walkCount (w.addWalk token purpose cs)
        (w.startWalk token purpose { waiting := cs }).2 := by
  obtain ⟨hm, ht⟩ := hs.addWalk token purpose hd
  exact sound_tend hm ht hs.loops

theorem Sound.modifyLoop (hs : w.Sound) (f : Loop → Loop) (hf : ∀ l, (f l).number = l.number) :
    (w.modifyLoop n f).Sound := by
  refine hs.congr rfl rfl rfl ?_
  rw [World.modifyLoop, List.map_map]
  refine List.map_congr_left fun l _ => ?_
  rw [Function.comp_apply]
  split_ifs
  · exact hf l
  · rfl

theorem nodup_ids_ofStore (p : DiscoveryPolicy) (s : Store) (now : Nat) :
    (Candidate.ids (Pass.ofStore p s now).waiting).Nodup := Candidate.nodup_ids_distinct _

theorem Sound.beat (hs : w.Sound) (l : Loop) : (w.beat l).Sound := by
  unfold World.beat
  split_ifs
  · exact hs.modifyLoop _ fun _ => rfl
  · exact ((hs.modifyLoop (fun l => { l with state := .walking, interval := l.interval.take w.now })
      fun _ => rfl).startWalk _ _ (nodup_ids_ofStore _ _ _)).1

theorem renew_spec (w : World c) (s : Serving) : ∃ places s', w.renew s = (s', { w with places }) ∧
    s'.served = s.served ∧ s'.token = s.token := by
  unfold renew
  dsimp only
  split_ifs
  · exact ⟨w.places, s, rfl, rfl, rfl⟩
  · split
    · split <;> exact ⟨_, _, rfl, rfl, rfl⟩
    · exact ⟨w.places, s, rfl, rfl, rfl⟩
  · split <;> exact ⟨_, _, rfl, rfl, rfl⟩

/-- What a session does leaves all the rest as it is. -/
theorem serve_spec {s : Serving} (h : w.sessions[number]? = some s) : ∃ places s',
    w.serve number = { w with
      places
      monitor := (Served.serve c.session w.now (w.isCancelled s.token) bound w.monitor s.served).1
      sessions := w.sessions.set number s' } ∧
    s'.served =
      (Served.serve c.session w.now (w.isCancelled s.token) bound w.monitor s.served).2 ∧
    s'.token = s.token := by
  unfold serve
  rw [h]
  dsimp only
  generalize Served.serve c.session w.now (w.isCancelled s.token) bound w.monitor s.served = r
  obtain ⟨places, s', hrenew, hserved, htoken⟩ :=
    renew_spec { w with monitor := r.1 } { s with served := r.2 }
  rw [hrenew]
  exact ⟨places, s', rfl, hserved, htoken⟩

theorem Sound.serve (hs : w.Sound) (number : Nat) : (w.serve number).Sound := by
  cases h : w.sessions[number]? with
  | none => rwa [World.serve, h]
  | some s =>
    obtain ⟨places, s', hserve, -⟩ := serve_spec h
    rw [hserve]
    exact hs.congr rfl rfl rfl rfl

theorem Sound.cancel (hs : w.Sound) (token : String) : (w.cancel token).Sound := by
  have herrands (n : Nat) : (w.cancel token).errandsOf n = w.errandsOf n := by
    rw [errandsOf, errandsOf, World.cancel, List.filter_map, List.map_map]
    have hkept (e : Errand c.fetch) : (if w.isUnder token e.owner then
        { e with moment.due := w.now } else e).owner = e.owner ∧ (if w.isUnder token e.owner then
        { e with moment.due := w.now } else e).candidate = e.candidate := by
      split_ifs <;> exact ⟨rfl, rfl⟩
    refine (List.map_congr_left fun e _ => (hkept e).2).trans (congrArg _ ?_)
    exact List.filter_congr fun e _ => by rw [Function.comp_apply, (hkept e).1]
  refine ⟨hs.toManned.of_unstarted rfl rfl (fun p hp => herrands _ ▸ hs.errands p hp)
    fun e he => ?_, hs.tended, ?_⟩
  · obtain ⟨f, hf, rfl⟩ := List.mem_map.1 (show e ∈ w.errands.map _ from he)
    split_ifs <;> exact hs.owned f hf
  · have hnumbers : (w.cancel token).loops.map Loop.number = w.loops.map Loop.number := by
      rw [World.cancel, List.map_map]
      refine List.map_congr_left fun l _ => ?_
      rw [Function.comp_apply]
      split
      · split_ifs <;> rfl
      · rfl
    rw [hnumbers, hs.loops, World.cancel, List.length_map]

theorem Sound.addLoop (hs : w.Sound) (token : String) : (w.addLoop token).Sound := by
  refine ⟨hs.toManned.congr rfl rfl rfl, hs.tended, ?_⟩
  rw [World.addLoop]
  simp [World.moment, hs.loops, List.range_succ]

end World
end PeerWatch.Rehearsal
