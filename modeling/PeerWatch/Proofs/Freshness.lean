import PeerWatch.Proofs.Convergence

/-! How old the entries are after a tick. Whatever the probes give, a tick that runs to its end leaves
no entry older than the threshold was when it started: what was stale then is probed again, and
what is probed is renewed. The own peer is never among those that are probed. -/
namespace PeerWatch
variable {h : Hub} {p : DiscoveryPolicy} {r r' : Round} {m : Move} {ms : List Move} {c : Candidate}
  {localPeer : Option PeerId} {es : List (PeerId × Entry)} {u : Update} {t now : Nat}
  {address : PeerAddress} {result : Except ProbeError Document} {seeds : List PeerAddress}

namespace Update

theorem of_ofResult (hu : Update.ofResult now address result = some u) :
    u.now = now ∧ u.address = address := by
  cases result with
  | ok d =>
    cases hu
    exact ⟨rfl, rfl⟩
  | error e =>
    simp only [ofResult] at hu
    split_ifs at hu
    cases hu
    exact ⟨rfl, rfl⟩

/-- Only a probe that was cancelled writes nothing down. -/
theorem exists_ofResult (now : Nat) (address : PeerAddress) (hr : isCancelled result = false) :
    ∃ u, Update.ofResult now address result = some u := by
  cases result with
  | ok d => exact ⟨_, rfl⟩
  | error e =>
    have he : e.isCancelled = false := hr
    exact ⟨_, by simp only [ofResult, he]; rfl⟩

theorem now_le_entry (u : Update) (es : List (PeerId × Entry)) :
    u.now ≤ (u.entry es).probedAt := by
  rw [entry]
  cases es.lookup u.address.id with
  | none => exact Nat.le_refl _
  | some e => exact Nat.le_max_right _ _

end Update

/-- Every peer has one entry, under its own name, and the own peer has none. -/
structure Foreign (localPeer : Option PeerId) (es : List (PeerId × Entry)) : Prop where
  nodup : (keys es).Nodup
  address : ∀ e ∈ es, e.2.address.id = e.1
  other : ∀ e ∈ es, some e.1 ≠ localPeer

theorem Foreign.nil (localPeer : Option PeerId) : Foreign localPeer [] := by
  constructor <;> simp [keys]

theorem Foreign.write (hf : Foreign localPeer es) (hu : some u.address.id ≠ localPeer) :
    Foreign localPeer (u.write es) where
  nodup := nodup_keys_assign hf.nodup
  address e he := by
    rcases eq_or_mem_of_mem_assign he with rfl | he
    · rfl
    · exact hf.address e he
  other e he := by
    rcases eq_or_mem_of_mem_assign he with rfl | he
    · exact hu
    · exact hf.other e he

/-- Nothing is written down but what the probes give. -/
def Move.IsOwn : Move → Prop
  | .other a => a.update? = none
  | _ => True

/-- A probe that ends has an outcome, and does not end before the time `t`. -/
def Move.IsTimely (t : Nat) : Move → Prop
  | .start => True
  | .finish _ _ now _ result => t ≤ now ∧ isCancelled result = false
  | .other a => a.update? = none

theorem Move.IsTimely.isOwn (hm : m.IsTimely t) : m.IsOwn := by
  cases m with
  | other a => exact hm
  | _ => trivial

namespace Round

structure Guarded (localPeer : Option PeerId) (r : Round) : Prop where
  entries : Foreign localPeer r.entries
  pending : ∀ id ∈ r.pass.pending, some id ≠ localPeer

theorem mem_pending_of_running (hc : c ∈ r.pass.running) : c.id ∈ r.pass.pending :=
  Candidate.mem_ids.2 ⟨c, List.mem_append_left _ hc, rfl⟩

theorem Guarded.move (hg : r.Guarded localPeer) (hm : r.move p m = some r') (ho : m.IsOwn) :
    r'.Guarded localPeer := by
  cases m with
  | start =>
    obtain ⟨⟨c, pass⟩, hs, rfl⟩ := Option.map_eq_some_iff.1 hm
    refine ⟨hg.entries, fun id hid => hg.pending id ?_⟩
    rwa [← Pass.pending_start hs]
  | finish c started now size result =>
    simp only [Round.move] at hm
    split_ifs at hm with hc
    cases hm
    refine ⟨?_, fun id hid => hg.pending id ((Pass.mem_pending_finish hc result).2 (Or.inr hid))⟩
    cases hu : (Act.record started now c.address size result).update? with
    | none =>
      have hes := Hub.entries_step_of_no_update (h := r.hub) hu
      rw [Round.entries, hes]
      exact hg.entries
    | some u =>
      have hes := Hub.entries_step_update (h := r.hub) hu
      have hid : u.address.id = c.id := congrArg PeerAddress.id (Update.of_ofResult hu).2
      rw [Round.entries, hes]
      exact hg.entries.write (hid ▸ hg.pending c.id (mem_pending_of_running hc))
  | other a =>
    cases hm
    refine ⟨?_, hg.pending⟩
    rw [Round.entries, Hub.entries_step_of_no_update ho]
    exact hg.entries

theorem Guarded.run (hg : r.Guarded localPeer) (hr : r.run p ms = some r')
    (ho : ∀ m ∈ ms, m.IsOwn) : r'.Guarded localPeer := by
  induction ms generalizing r with
  | nil =>
    cases hr
    exact hg
  | cons m ms ih =>
    obtain ⟨r₁, hm, hr⟩ := Option.bind_eq_some_iff.1 hr
    exact ih (hg.move hm (ho m List.mem_cons_self)) hr fun m hm => ho m (List.mem_cons_of_mem _ hm)

theorem guarded_ofSeeds (hf : Foreign p.localPeer h.store.entries) :
    (ofSeeds p h seeds).Guarded p.localPeer :=
  ⟨hf, fun _ hid => (Candidate.mem_ids_plan.1 hid).1⟩

theorem guarded_ofStore (hf : Foreign p.localPeer h.store.entries) :
    (ofStore p h now).Guarded p.localPeer :=
  ⟨hf, fun _ hid => (Candidate.mem_ids_plan.1 hid).1⟩

/-- An entry that was too old at the time `t` is still to be renewed. -/
def Renews (age t : Nat) (r : Round) : Prop :=
  ∀ e ∈ r.entries, t ≤ e.2.probedAt + age ∨ e.1 ∈ r.pass.pending

/-- A tick has all stale entries in its plan, for none of them is of the own peer. -/
theorem renews_ofStore (hf : Foreign p.localPeer h.store.entries) :
    (ofStore p h t).Renews p.refreshMs t := by
  intro e he
  by_cases hs : e.2.isStale p.refreshMs t = true
  · have hstale : e.2.address ∈ h.store.staleAddresses p.refreshMs t :=
      List.mem_map.2 ⟨e, List.mem_filter.2 ⟨he, hs⟩, rfl⟩
    have hcand : e.1 ∈ Candidate.ids (Candidate.ofStore h.store p.refreshMs t) :=
      Candidate.mem_ids.2 ⟨⟨e.2.address, .stale⟩,
        List.mem_append_left _ (List.mem_map_of_mem hstale), hf.address e he⟩
    exact Or.inr (Candidate.mem_ids_plan.2 ⟨hf.other e he, hcand⟩)
  · refine Or.inl ?_
    simp only [Entry.isStale, decide_eq_true_eq] at hs
    omega

theorem Renews.move {age : Nat} (hn : r.Renews age t) (hnodup : (keys r.entries).Nodup)
    (hm : r.move p m = some r') (ht : m.IsTimely t) : r'.Renews age t := by
  cases m with
  | start =>
    obtain ⟨⟨c, pass⟩, hs, rfl⟩ := Option.map_eq_some_iff.1 hm
    intro e he
    rw [Pass.pending_start hs]
    exact hn e he
  | finish c started now size result =>
    simp only [Round.move] at hm
    split_ifs at hm with hc
    cases hm
    obtain ⟨u, hu⟩ := Update.exists_ofResult now c.address ht.2
    obtain ⟨rfl, hua⟩ := Update.of_ofResult hu
    have hua : u.address.id = c.id := congrArg PeerAddress.id hua
    have hes := Hub.entries_step_update (h := r.hub)
      (a := .record started u.now c.address size result) hu
    -- The entry is the one that was written just now, or that of another peer.
    intro e he
    rw [Round.entries, hes] at he
    rcases mem_assign_of_nodup hnodup he with rfl | ⟨hid, he⟩
    · exact Or.inl (Nat.le_add_right_of_le (Nat.le_trans ht.1 (u.now_le_entry _)))
    · have hne : e.1 ≠ c.id := hua ▸ hid
      exact (hn e he).imp_right fun hp => ((Pass.mem_pending_finish hc result).1 hp).resolve_left hne
  | other a =>
    cases hm
    intro e he
    rw [Round.entries, Hub.entries_step_of_no_update ht] at he
    exact hn e he

theorem Renews.run {age : Nat} (hn : r.Renews age t) (hg : r.Guarded localPeer)
    (hr : r.run p ms = some r') (ht : ∀ m ∈ ms, m.IsTimely t) : r'.Renews age t := by
  induction ms generalizing r with
  | nil =>
    cases hr
    exact hn
  | cons m ms ih =>
    obtain ⟨r₁, hm, hr⟩ := Option.bind_eq_some_iff.1 hr
    have hmt := ht m List.mem_cons_self
    exact ih (hn.move hg.entries.nodup hm hmt) (hg.move hm hmt.isOwn) hr
      fun m hm => ht m (List.mem_cons_of_mem _ hm)

theorem pending_of_isOver (hover : r.pass.isOver = true) : r.pass.pending = [] := by
  simp only [Pass.isOver, Bool.and_eq_true, List.isEmpty_iff] at hover
  rw [Pass.pending, hover.1, hover.2]
  rfl

end Round

/-- The hubs that bootstraps and ticks get to, at any time in them, and whatever their probes give:
nothing else is written down. -/
inductive Voyage (p : DiscoveryPolicy) : Hub → Prop
  | start (policy : NotifyPolicy) : Voyage p (.start policy)
  | bootstrap {h : Hub} {r : Round} (seeds : List PeerAddress) (ms : List Move)
      (before : Voyage p h) (own : ∀ m ∈ ms, m.IsOwn)
      (run : (Round.ofSeeds p h seeds).run p ms = some r) : Voyage p r.hub
  | tick {h : Hub} {r : Round} (now : Nat) (ms : List Move) (before : Voyage p h)
      (own : ∀ m ∈ ms, m.IsOwn) (run : (Round.ofStore p h now).run p ms = some r) :
      Voyage p r.hub

theorem Voyage.foreign (hv : Voyage p h) : Foreign p.localPeer h.store.entries := by
  induction hv with
  | start policy => exact .nil p.localPeer
  | bootstrap seeds ms before own run ih => exact ((Round.guarded_ofSeeds ih).run run own).entries
  | tick now ms before own run ih => exact ((Round.guarded_ofStore ih).run run own).entries

/-- The own peer never has an entry. A tick that starts at a time `t`, in which no probe is cancelled
and the clock does not go back behind `t`, leaves no entry, old or new, that was probed longer before
`t` than the threshold. -/
theorem entries_fresh_after_tick (hv : Voyage p h) :
    (∀ id ∈ keys h.store.entries, some id ≠ p.localPeer) ∧
    ∀ t ms r, (Round.ofStore p h t).run p ms = some r → (∀ m ∈ ms, m.IsTimely t) →
      r.pass.isOver = true → ∀ id e, r.hub.store.get? id = some e → t ≤ e.probedAt + p.refreshMs := by
  have hf := hv.foreign
  refine ⟨fun id hid => ?_, fun t ms r hr ht hover id e he => ?_⟩
  · obtain ⟨e, he, rfl⟩ := List.mem_map.1 hid
    exact hf.other e he
  · have hguarded : (Round.ofStore p h t).Guarded p.localPeer := Round.guarded_ofStore hf
    have hn := (Round.renews_ofStore hf).run hguarded hr ht
    have hnodup := (hguarded.run hr fun m hm => (ht m hm).isOwn).entries.nodup
    have hmem : (id, e) ∈ r.entries := (lookup_eq_some_iff hnodup).1 he
    exact (hn _ hmem).resolve_right (by simp [Round.pending_of_isOver hover])

/-- When the tick starts, the one seed is just not stale and the other one is. The first one
advertises the own peer and a new one, which is probed together with the stale one. -/
theorem entries_fresh_after_tick_boundary :
    let a : PeerAddress := ⟨⟨"A", by decide, by decide⟩, []⟩
    let b : PeerAddress := ⟨⟨"B", by decide, by decide⟩, [⟨.dns "b", 8302⟩]⟩
    let c : PeerAddress := ⟨⟨"C", by decide, by decide⟩, []⟩
    let own : PeerId := ⟨"L", by decide, by decide⟩
    let p : DiscoveryPolicy := { refreshMs := 10, maxConcurrent := 2, localPeer := some own }
    let doc : Document := { Document.empty with adverts := [⟨"l", "L", 1⟩, ⟨"b", "B", 8302⟩] }
    let fault : Except ProbeError Document := .error (.connect c.id "refused")
    let h := (Hub.start {}).run [.record 0 4 c none fault, .record 0 5 a none (.ok doc)]
    let ms : List Move := [.start, .start, .finish ⟨b, .advertised⟩ 15 15 none (.ok .empty),
      .finish ⟨c, .stale⟩ 15 17 none fault]
    Voyage p h ∧ (∀ m ∈ ms, m.IsTimely 15) ∧ ∃ r, (Round.ofStore p h 15).run p ms = some r ∧
      r.hub.store.entries.map (fun e => (e.1.text, e.2.probedAt)) = [("C", 17), ("A", 5), ("B", 15)] ∧
      ∀ id e, r.hub.store.get? id = some e → 15 ≤ e.probedAt + p.refreshMs := by
  intro a b c own p doc fault h ms
  have hv : Voyage p h := by
    refine .bootstrap (r := ⟨h, ⟨[], [], ⟨0, 2, 1⟩⟩⟩) [a, c] [.start, .start,
      .finish ⟨c, .advertised⟩ 0 4 none fault, .finish ⟨a, .advertised⟩ 0 5 none (.ok doc)]
      (.start {}) ?_ rfl
    simp [Move.IsOwn]
  have ht : ∀ m ∈ ms, m.IsTimely 15 := by
    simp [ms, Move.IsTimely, isCancelled, fault, ProbeError.isCancelled]
  have hr : (Round.ofStore p h 15).run p ms = some ⟨_, ⟨[], [], ⟨1, 1, 1⟩⟩⟩ := rfl
  exact ⟨hv, ht, _, hr, rfl, (entries_fresh_after_tick hv).2 15 ms _ hr ht rfl⟩

end PeerWatch
