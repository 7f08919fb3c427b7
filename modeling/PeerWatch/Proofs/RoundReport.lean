import PeerWatch.Proofs.Freshness
import PeerWatch.Proofs.RoundOrder

/-! Which peers a round probes, at which address, and what it reports of them. A plan has the first
candidate of each identity, so that a stale entry comes before any advert of its peer. Every
candidate is handed out once, in the order of the plan, and what its probe gives is counted once,
unless it was cancelled. -/
namespace PeerWatch
variable {p : DiscoveryPolicy} {r r' : Round} {m : Move} {ms : List Move} {c : Candidate}
  {cs : List Candidate} {localPeer : Option PeerId} {id : PeerId} {s : Store} {age now : Nat}
  {es : List (PeerId × Entry)} {us : List Update} {seeds : List PeerAddress} {a : PeerAddress}

namespace Candidate

theorem find?_distinct (cs : List Candidate) (id : PeerId) :
    (distinct cs).find? (·.id = id) = cs.find? (·.id = id) := by
  induction cs with
  | nil => rfl
  | cons c cs ih =>
    by_cases hc : c.id = id
    · simp [distinct, hc]
    · have hne (d : Candidate) : (d.id ≠ c.id ∧ d.id = id) ↔ d.id = id := by
        refine ⟨And.right, fun hd => ⟨fun he => hc (he ▸ hd), hd⟩⟩
      rw [distinct, List.find?_cons_of_neg (by simpa using hc),
        List.find?_cons_of_neg (by simpa using hc), List.find?_filter, ← ih]
      simp only [decide_eq_true_eq, hne]

/-- A plan has the first candidate of every identity but the own one. -/
theorem mem_plan_iff :
    c ∈ plan localPeer cs ↔ some c.id ≠ localPeer ∧ cs.find? (·.id = c.id) = some c := by
  have hmem : c ∈ plan localPeer cs ↔ (plan localPeer cs).find? (·.id = c.id) = some c := by
    rw [plan, find?_eq_some_iff (nodup_ids_distinct _), and_iff_left rfl]
  rw [hmem, plan, find?_distinct, List.find?_filter]
  by_cases hl : some c.id = localPeer
  · have hnone : cs.find? (fun d => decide (decide (some d.id ≠ localPeer) = true ∧
        decide (d.id = c.id) = true)) = none := by
      rw [List.find?_eq_none]
      intro d _ hd
      obtain ⟨hd, hc⟩ := of_decide_eq_true hd
      exact of_decide_eq_true hd (by rw [of_decide_eq_true hc, hl])
    rw [hnone]
    simp [hl]
  · have hsame (d : Candidate) : (some d.id ≠ localPeer ∧ d.id = c.id) ↔ d.id = c.id := by
      refine ⟨And.right, fun hd => ⟨?_, hd⟩⟩
      rwa [hd]
    simp only [decide_eq_true_eq, hsame, and_iff_right (show some c.id ≠ localPeer from hl)]

end Candidate

namespace Store

/-- Every peer has one entry, which is that of a probe of this peer. -/
structure Named (es : List (PeerId × Entry)) : Prop where
  nodup : (keys es).Nodup
  address : ∀ e ∈ es, e.2.address.id = e.1

theorem Named.write {u : Update} (h : Named es) : Named (u.write es) where
  nodup := nodup_keys_assign h.nodup
  address e he := by
    rcases eq_or_mem_of_mem_assign he with rfl | he
    · rfl
    · exact h.address e he

theorem Named.run (policy : NotifyPolicy) (acts : List Act) :
    Named ((Hub.start policy).run acts).store.entries := by
  rw [Hub.entries_start]
  generalize acts.filterMap Act.update? = us
  have hall (us : List Update) : ∀ es, Named es → Named (us.foldl Update.write es) := by
    induction us with
    | nil => exact fun _ h => h
    | cons u us ih => exact fun es h => ih _ h.write
  exact hall us [] ⟨List.nodup_nil, by simp⟩

def isStale (s : Store) (age now : Nat) (id : PeerId) : Bool := (s.get? id).any (·.isStale age now)

theorem mem_staleAddresses (h : Named s.entries) :
    a ∈ s.staleAddresses age now ∧ a.id = id ↔
      ∃ e, s.get? id = some e ∧ e.isStale age now = true ∧ e.address = a := by
  rw [staleAddresses, List.mem_map]
  constructor
  · rintro ⟨⟨⟨i, e⟩, he, rfl⟩, rfl⟩
    obtain ⟨he, hs⟩ := List.mem_filter.1 he
    have hi : e.address.id = i := h.address _ he
    exact ⟨e, (lookup_eq_some_iff h.nodup).2 (hi ▸ he), hs, rfl⟩
  · rintro ⟨e, he, hs, rfl⟩
    have he : (id, e) ∈ s.entries := (lookup_eq_some_iff h.nodup).1 he
    exact ⟨⟨(id, e), List.mem_filter.2 ⟨he, hs⟩, rfl⟩, h.address _ he⟩

theorem find?_staleAddresses (h : Named s.entries) :
    (s.staleAddresses age now).find? (·.id = id) = some a ↔
      ∃ e, s.get? id = some e ∧ e.isStale age now = true ∧ e.address = a := by
  have hids : (s.staleAddresses age now).map PeerAddress.id =
      keys (s.entries.filter fun e => e.2.isStale age now) := by
    rw [staleAddresses, keys, List.map_map]
    refine List.map_congr_left fun e he => ?_
    exact h.address e (List.mem_filter.1 he).1
  have hn : ((s.staleAddresses age now).map PeerAddress.id).Nodup := by
    rw [hids]
    exact h.nodup.sublist (List.filter_sublist.map _)
  rw [find?_key_eq_some_iff hn, mem_staleAddresses h]

theorem isStale_iff : s.isStale age now id = true ↔
    ∃ e, s.get? id = some e ∧ e.isStale age now = true := by
  rw [isStale, Option.any_eq_true]

/-- The peers that a store gives are those that are stale or have an advert with an address. -/
theorem mem_ids_ofStore (h : Named s.entries) : id ∈ Candidate.ids (Candidate.ofStore s age now) ↔
    s.isStale age now id = true ∨ ∃ ad ∈ s.adverts, ∃ a, ad.address = .ok a ∧ a.id = id := by
  have hstale : (∃ a ∈ s.staleAddresses age now, a.id = id) ↔ s.isStale age now id = true := by
    simp only [mem_staleAddresses h, isStale_iff]
    constructor
    · rintro ⟨a, e, he, hs, -⟩
      exact ⟨e, he, hs⟩
    · rintro ⟨e, he, hs⟩
      exact ⟨e.address, e, he, hs, rfl⟩
  have hadv : (∃ a ∈ s.adverts.filterMap Advert.address?, a.id = id) ↔
      ∃ ad ∈ s.adverts, ∃ a, ad.address = .ok a ∧ a.id = id := by
    simp only [List.mem_filterMap, Advert.address?_eq_some]
    constructor
    · rintro ⟨a, ⟨ad, had, ha⟩, hid⟩
      exact ⟨ad, had, a, ha, hid⟩
    · rintro ⟨ad, had, a, ha, hid⟩
      exact ⟨a, ⟨ad, had, ha⟩, hid⟩
  rw [← hstale, ← hadv]
  simp [Candidate.mem_ids, Candidate.ofStore, Candidate.id, or_and_right, exists_or]

/-- A store gives a peer that is stale the address of its entry, and any other one that of its first
advert with an address. -/
theorem find?_ofStore (h : Named s.entries) (c : Candidate) :
    (Candidate.ofStore s age now).find? (·.id = c.id) = some c ↔
      (c.origin = .stale ∧ ∃ e, s.get? c.id = some e ∧ e.isStale age now = true ∧
        c.address = e.address) ∨
      c.origin = .advertised ∧ s.isStale age now c.id = false ∧
        (s.adverts.filterMap Advert.address?).find? (·.id = c.id) = some c.address := by
  obtain ⟨a, o⟩ := c
  have hmap (as : List PeerAddress) (o' : Origin) :
      (as.map (Candidate.mk · o')).find? (·.id = a.id) =
        (as.find? (·.id = a.id)).map (Candidate.mk · o') := by
    rw [List.find?_map]
    rfl
  change (Candidate.ofStore s age now).find? (·.id = a.id) = some ⟨a, o⟩ ↔ (o = .stale ∧
    ∃ e, s.get? a.id = some e ∧ e.isStale age now = true ∧ a = e.address) ∨
    o = .advertised ∧ s.isStale age now a.id = false ∧
      (s.adverts.filterMap Advert.address?).find? (·.id = a.id) = some a
  rw [Candidate.ofStore, List.find?_append, hmap, hmap]
  cases hst : s.isStale age now a.id with
  | true =>
    obtain ⟨e, he, hs⟩ := isStale_iff.1 hst
    rw [(find?_staleAddresses h).2 ⟨e, he, hs, rfl⟩, he]
    constructor
    · intro hc
      cases hc
      exact Or.inl ⟨rfl, e, rfl, hs, rfl⟩
    · rintro (⟨rfl, e', he', -, rfl⟩ | ⟨-, hst, -⟩)
      · cases he'
        rfl
      · cases hst
  | false =>
    have hno : ∀ e, s.get? a.id = some e → e.isStale age now = false := by
      intro e he
      cases hs : e.isStale age now with
      | false => rfl
      | true => rw [isStale_iff.2 ⟨e, he, hs⟩] at hst; cases hst
    have hnone : (s.staleAddresses age now).find? (·.id = a.id) = none := by
      refine Option.eq_none_iff_forall_ne_some.2 fun b hb => ?_
      obtain ⟨e, he, hs, -⟩ := (find?_staleAddresses h).1 hb
      rw [hno e he] at hs
      cases hs
    rw [hnone, Option.map_none, Option.none_or, Option.map_eq_some_iff]
    constructor
    · rintro ⟨b, hb, hab⟩
      cases hab
      exact Or.inr ⟨rfl, rfl, hb⟩
    · rintro (⟨-, e, he, hs, -⟩ | ⟨rfl, -, hb⟩)
      · rw [hno e he] at hs
        cases hs
      · exact ⟨a, hb, rfl⟩

end Store

def Move.probe? : Move → Option (Candidate × Except ProbeError Document)
  | .finish c _ _ _ result => some (c, result)
  | _ => none

def Move.ownUpdate? : Move → Option Update
  | .finish c started now size result => (Act.record started now c.address size result).update?
  | _ => none

def Move.IsForeign (id : PeerId) (m : Move) : Prop :=
  ∃ a u, m = .other a ∧ a.update? = some u ∧ u.address.id = id

namespace Report
variable {ps : List (Candidate × Except ProbeError Document)}

def recorded (ps : List (Candidate × Except ProbeError Document)) :
    List (Candidate × Except ProbeError Document) :=
  ps.filter fun x => !isCancelled x.2

/-- The counts of probes that have ended, whichever of them ended first. -/
def ofProbes (ps : List (Candidate × Except ProbeError Document)) : Report where
  refreshed := (recorded ps).countP fun x => x.1.origin = .stale
  discovered := (recorded ps).countP fun x => x.1.origin = .advertised
  failed := (recorded ps).countP fun x => !x.2.isOk

theorem count_add_ofProbes (r : Report) (c : Candidate) (result : Except ProbeError Document)
    (ps : List (Candidate × Except ProbeError Document)) :
    (r.count c.origin result).add (ofProbes ps) = r.add (ofProbes ((c, result) :: ps)) := by
  cases hc : isCancelled result with
  | true => simp [count, ofProbes, recorded, hc]
  | false =>
    cases result <;> cases ho : c.origin <;>
      simp [count, add, ofProbes, recorded, hc, ho, Except.isOk, Except.toBool] <;> omega

theorem add_ofProbes_append (r : Report) (ps qs : List (Candidate × Except ProbeError Document)) :
    (r.add (ofProbes ps)).add (ofProbes qs) = r.add (ofProbes (ps ++ qs)) := by
  simp only [add, ofProbes, recorded, List.filter_append, List.countP_append, Nat.add_assoc]

/-- Every probe with an outcome is counted under its origin. -/
theorem refreshed_add_discovered (ps : List (Candidate × Except ProbeError Document)) :
    (ofProbes ps).refreshed + (ofProbes ps).discovered = (recorded ps).length := by
  have hother : (fun x : Candidate × Except ProbeError Document =>
      decide (x.1.origin = .advertised)) = fun x => !decide (x.1.origin = .stale) := by
    funext x
    cases x.1.origin <;> rfl
  have hlen := List.length_eq_countP_add_countP (fun x => decide (x.1.origin = .stale))
    (l := recorded ps)
  simp only [ofProbes, hother]
  simpa using hlen.symm

theorem failed_le (ps : List (Candidate × Except ProbeError Document)) :
    (ofProbes ps).failed ≤ (ofProbes ps).refreshed + (ofProbes ps).discovered := by
  rw [refreshed_add_discovered]
  exact List.countP_le_length

end Report

namespace Round

def started? (p : DiscoveryPolicy) (r : Round) : Move → Option Candidate
  | .start => (r.pass.start? (Pass.width p)).map Prod.fst
  | _ => none

def handedOut (p : DiscoveryPolicy) (r : Round) : List Move → List Candidate
  | [] => []
  | m :: ms => (r.started? p m).toList ++ (r.move p m).elim [] fun r => r.handedOut p ms

/-- What a round has done with the candidates that waited: some were handed out, and the probes of
these have ended and were counted, or are running. -/
structure Conducts (p : DiscoveryPolicy) (r : Round) (ms : List Move) (r' : Round) : Prop where
  waiting : r.handedOut p ms ++ r'.pass.waiting = r.pass.waiting
  ended : ((ms.filterMap Move.probe?).map Prod.fst ++ r'.pass.running).Perm
    (r.pass.running ++ r.handedOut p ms)
  report : r'.pass.report = r.pass.report.add (.ofProbes (ms.filterMap Move.probe?))

theorem conducts_move (hm : r.move p m = some r') : Conducts p r [m] r' := by
  have hone : r.handedOut p [m] = (r.started? p m).toList := by
    rw [handedOut, hm]
    exact List.append_nil _
  cases m with
  | start =>
    obtain ⟨⟨c, pass⟩, hs, rfl⟩ := Option.map_eq_some_iff.1 hm
    have hc : (r.started? p .start).toList = [c] := by
      rw [started?, hs]
      rfl
    have hpass : pass.running = r.pass.running ++ [c] ∧ r.pass.waiting = c :: pass.waiting ∧
        pass.report = r.pass.report := by
      unfold Pass.start? at hs
      split at hs
      · next hw =>
        split_ifs at hs
        cases hs
        exact ⟨rfl, hw, rfl⟩
      · cases hs
    obtain ⟨hrun, hwait, hrep⟩ := hpass
    refine ⟨by rw [hone, hc, hwait]; rfl, ?_, hrep⟩
    rw [hone, hc, hrun]
    exact List.Perm.refl _
  | finish c started now size result =>
    simp only [move] at hm
    split_ifs at hm with hc
    cases hm
    refine ⟨by rw [hone]; rfl, ?_, ?_⟩
    · rw [hone]
      exact (List.perm_cons_erase hc).symm.trans (List.Perm.of_eq (List.append_nil _).symm)
    · exact (r.pass.report.count_add_ofProbes c result []).symm ▸ rfl
  | other a =>
    cases hm
    refine ⟨by rw [hone]; rfl, ?_, rfl⟩
    rw [hone]
    exact List.Perm.of_eq (List.append_nil _).symm

theorem handedOut_cons (hm : r.move p m = some r') :
    r.handedOut p (m :: ms) = r.handedOut p [m] ++ r'.handedOut p ms := by
  rw [handedOut, handedOut, hm]
  simp [handedOut]

theorem conducts_run (hr : r.run p ms = some r') : Conducts p r ms r' := by
  induction ms generalizing r with
  | nil =>
    cases hr
    exact ⟨rfl, List.Perm.of_eq (List.append_nil _).symm, rfl⟩
  | cons m ms ih =>
    obtain ⟨r₁, hm, hr⟩ := Option.bind_eq_some_iff.1 hr
    have h₁ := conducts_move hm
    have h := ih hr
    have hprobes : (m :: ms).filterMap Move.probe? =
        [m].filterMap Move.probe? ++ ms.filterMap Move.probe? := by
      rw [← List.filterMap_append]
      rfl
    refine ⟨?_, ?_, ?_⟩
    · rw [handedOut_cons hm, List.append_assoc, h.waiting, h₁.waiting]
    · have hfirst := h₁.ended.append_right (r₁.handedOut p ms)
      have hrest := h.ended.append_left (([m].filterMap Move.probe?).map Prod.fst)
      rw [← List.append_assoc] at hrest
      rw [handedOut_cons hm, hprobes, List.map_append, ← List.append_assoc]
      exact hrest.trans ((List.Perm.of_eq (List.append_assoc ..).symm).trans hfirst)
    · rw [h.report, h₁.report, Report.add_ofProbes_append, hprobes]

/-- A round writes down the peers that it was handed, and nobody else. -/
theorem get?_run (hr : r.run p ms = some r')
    (hid : ∀ x ∈ ms.filterMap Move.probe?, x.1.id ≠ id) (hother : ∀ m ∈ ms, ¬ m.IsForeign id) :
    r'.hub.store.get? id = r.hub.store.get? id := by
  rw [hub_run hr, Store.get?, Store.get?, Hub.entries_run]
  have hus : ∀ u ∈ (ms.filterMap Move.act?).filterMap Act.update?, u.address.id ≠ id := by
    intro u hu
    obtain ⟨a, ha, hu⟩ := List.mem_filterMap.1 hu
    obtain ⟨m, hm, ha⟩ := List.mem_filterMap.1 ha
    cases m with
    | start => cases ha
    | finish c started now size result =>
      cases ha
      rw [(Update.of_ofResult hu).2]
      exact hid (c, result) (List.mem_filterMap.2 ⟨_, hm, rfl⟩)
    | other a' =>
      cases ha
      exact fun hid => hother _ hm ⟨a, u, rfl, hu, hid⟩
  generalize (ms.filterMap Move.act?).filterMap Act.update? = us at hus
  generalize r.hub.store.entries = es
  induction us generalizing es with
  | nil => rfl
  | cons u us ih =>
    obtain ⟨hu, hus⟩ := List.forall_mem_cons.1 hus
    rw [List.foldl_cons, ih hus, Update.write, lookup_assign_ne hu.symm]

/-- What a round writes down are the outcomes that it counts. -/
theorem length_ownUpdates (ms : List Move) : (ms.filterMap Move.ownUpdate?).length =
    (Report.recorded (ms.filterMap Move.probe?)).length := by
  induction ms with
  | nil => rfl
  | cons m ms ih =>
    cases m with
    | start => exact ih
    | other a => exact ih
    | finish c started now size result =>
      cases hc : isCancelled result with
      | false =>
        obtain ⟨u, hu⟩ := Update.exists_ofResult now c.address hc
        have hown : Move.ownUpdate? (.finish c started now size result) = some u := hu
        rw [List.filterMap_cons_some hown, List.length_cons, ih]
        simp [Move.probe?, Report.recorded, hc]
      | true =>
        have hown : Move.ownUpdate? (.finish c started now size result) = none := by
          cases result with
          | ok d => cases hc
          | error e =>
            have he : e.isCancelled = true := hc
            simp [Move.ownUpdate?, Act.update?, Update.ofResult, he]
        rw [List.filterMap_cons_none hown, ih]
        simp [Move.probe?, Report.recorded, hc]

/-- What holds of every round that starts with the plan of some candidates, at any time in it. -/
structure Follows (localPeer : Option PeerId) (cs : List Candidate) (p : DiscoveryPolicy)
    (r : Round) (ms : List Move) (r' : Round) : Prop where
  nodup : (Candidate.ids (r.handedOut p ms)).Nodup
  first : ∀ c ∈ r.handedOut p ms,
    some c.id ≠ localPeer ∧ cs.find? (·.id = c.id) = some c
  complete : r'.pass.isOver = true →
    ∀ id, id ∈ Candidate.ids (r.handedOut p ms) ↔ some id ≠ localPeer ∧ id ∈ Candidate.ids cs
  ended : ((ms.filterMap Move.probe?).map Prod.fst ++ r'.pass.running).Perm (r.handedOut p ms)
  report : r'.pass.report = .ofProbes (ms.filterMap Move.probe?)
  others : ∀ id, id ∉ Candidate.ids (r.handedOut p ms) → (∀ m ∈ ms, ¬ m.IsForeign id) →
    r'.hub.store.get? id = r.hub.store.get? id

theorem follows_plan (hpass : r.pass = { waiting := Candidate.plan localPeer cs })
    (hr : r.run p ms = some r') : Follows localPeer cs p r ms r' := by
  have h := conducts_run hr
  have hwait : r.handedOut p ms ++ r'.pass.waiting = Candidate.plan localPeer cs := by
    rw [h.waiting, hpass]
  have hended : ((ms.filterMap Move.probe?).map Prod.fst ++ r'.pass.running).Perm
      (r.handedOut p ms) := by
    have he := h.ended
    rwa [hpass, List.nil_append] at he
  have hsub : (r.handedOut p ms).Sublist (Candidate.plan localPeer cs) := by
    rw [← hwait]
    exact List.sublist_append_left _ _
  refine ⟨?_, fun c hc => Candidate.mem_plan_iff.1 (hsub.subset hc), ?_, hended, ?_, ?_⟩
  · exact (Candidate.nodup_ids_distinct _).sublist (hsub.map _)
  · intro hover id
    simp only [Pass.isOver, Bool.and_eq_true, List.isEmpty_iff] at hover
    rw [hover.1, List.append_nil] at hwait
    rw [hwait]
    exact Candidate.mem_ids_plan
  · rw [h.report, hpass]
    simp [Report.add]
  · intro id hid hother
    refine get?_run hr (fun x hx he => hid ?_) hother
    have hmem : x.1 ∈ (ms.filterMap Move.probe?).map Prod.fst ++ r'.pass.running :=
      List.mem_append_left _ (List.mem_map_of_mem hx)
    exact Candidate.mem_ids.2 ⟨x.1, hended.subset hmem, he⟩

/-- A probe that was recorded is one of those that were handed out. -/
theorem Follows.mem_handedOut (h : Follows localPeer cs p r ms r')
    {x : Candidate × Except ProbeError Document}
    (hx : x ∈ Report.recorded (ms.filterMap Move.probe?)) : x.1 ∈ r.handedOut p ms :=
  h.ended.subset (List.mem_append_left _ (List.mem_map_of_mem (List.mem_filter.1 hx).1))

/-- A candidate that a store gives is stale if its peer is. -/
theorem Follows.origin_ofStore (hn : Store.Named s.entries)
    (h : Follows localPeer (Candidate.ofStore s age now) p r ms r') (hc : c ∈ r.handedOut p ms) :
    (c.origin = .stale ↔ s.isStale age now c.id = true) ∧
      (c.origin = .advertised ↔ s.isStale age now c.id = false) := by
  rcases (Store.find?_ofStore hn c).1 (h.first c hc).2 with ⟨ho, e, he, hs, -⟩ | ⟨ho, hs, -⟩
  · simp [ho, Store.isStale_iff.2 ⟨e, he, hs⟩]
  · simp [ho, hs]

theorem Follows.address_ofStore (hn : Store.Named s.entries)
    (h : Follows localPeer (Candidate.ofStore s age now) p r ms r') (hc : c ∈ r.handedOut p ms) :
    if s.isStale age now c.id then ∃ e, s.get? c.id = some e ∧ c.address = e.address
    else (s.adverts.filterMap Advert.address?).find? (·.id = c.id) = some c.address := by
  rcases (Store.find?_ofStore hn c).1 (h.first c hc).2 with ⟨-, e, he, hs, ha⟩ | ⟨-, hs, hfind⟩
  · rw [if_pos (Store.isStale_iff.2 ⟨e, he, hs⟩)]
    exact ⟨e, he, ha⟩
  · rw [if_neg (Bool.eq_false_iff.1 hs)]
    exact hfind

theorem Follows.report_ofStore (hn : Store.Named s.entries)
    (h : Follows localPeer (Candidate.ofStore s age now) p r ms r') :
    let recorded := Report.recorded (ms.filterMap Move.probe?)
    r'.pass.report = ⟨recorded.countP fun x => s.isStale age now x.1.id,
      recorded.countP fun x => !s.isStale age now x.1.id, recorded.countP fun x => !x.2.isOk⟩ := by
  intro recorded
  rw [h.report, Report.ofProbes, Report.mk.injEq]
  refine ⟨List.countP_congr fun x hx => ?_, List.countP_congr fun x hx => ?_, rfl⟩
  · rw [decide_eq_true_iff]
    exact (h.origin_ofStore hn (h.mem_handedOut hx)).1
  · rw [decide_eq_true_iff, Bool.not_eq_true']
    exact (h.origin_ofStore hn (h.mem_handedOut hx)).2

theorem Follows.first_ofSeeds (h : Follows localPeer (Candidate.ofSeeds seeds) p r ms r')
    (hc : c ∈ r.handedOut p ms) :
    c.origin = .advertised ∧ seeds.find? (·.id = c.id) = some c.address := by
  have hc := (h.first c hc).2
  rw [Candidate.ofSeeds, List.find?_map, Option.map_eq_some_iff] at hc
  obtain ⟨a, ha, hca⟩ := hc
  rw [← hca] at ha ⊢
  exact ⟨rfl, ha⟩

theorem Follows.report_ofSeeds (h : Follows localPeer (Candidate.ofSeeds seeds) p r ms r') :
    let recorded := Report.recorded (ms.filterMap Move.probe?)
    r'.pass.report = ⟨0, recorded.length, recorded.countP fun x => !x.2.isOk⟩ := by
  intro recorded
  have horigin : ∀ x ∈ recorded, x.1.origin = .advertised :=
    fun x hx => (h.first_ofSeeds (h.mem_handedOut hx)).1
  rw [h.report, Report.ofProbes, Report.mk.injEq]
  refine ⟨List.countP_eq_zero.2 fun x hx => ?_, List.countP_eq_length.2 fun x hx => ?_, rfl⟩
  · simp [horigin x hx]
  · simp [horigin x hx]

/-- The counts of a round that follows a plan are those of the outcomes that it writes down. -/
theorem Follows.counts (h : Follows localPeer cs p r ms r') :
    r'.pass.report.refreshed + r'.pass.report.discovered =
        (ms.filterMap Move.ownUpdate?).length ∧
      r'.pass.report.failed ≤ r'.pass.report.refreshed + r'.pass.report.discovered := by
  rw [h.report]
  exact ⟨(Report.refreshed_add_discovered _).trans (length_ownUpdates ms).symm,
    Report.failed_le _⟩

/-- From wherever a round stands, it can be brought to its end. -/
theorem exists_isOver (p : DiscoveryPolicy) (r : Round) :
    ∃ ms r', r.run p ms = some r' ∧ r'.pass.isOver = true := by
  obtain ⟨ms, r', -, -, hr, hover⟩ := r.exists_finish (fun _ => .failure) p _ rfl
  exact ⟨ms, r', hr, hover⟩

end Round

/-- Whatever a store has got to, a tick over it probes the peers that are stale or advertised, but
for the own one, each once: a stale one at the address of its entry, any other at that of its first
advert with an address. Its report counts the probes with an outcome, which are those that it writes
down, and no other entry changes by it. The first round does the same with the seeds. Both can be
brought to their end from wherever they stand. -/
theorem round_probes_plan (p : DiscoveryPolicy) (policy : NotifyPolicy) (acts : List Act) :
    let h := (Hub.start policy).run acts
    (∀ now ms r, (Round.ofStore p h now).run p ms = some r →
      let handed := (Round.ofStore p h now).handedOut p ms
      let recorded := Report.recorded (ms.filterMap Move.probe?)
      let stale := h.store.isStale p.refreshMs now
      (handed.map Candidate.id).Nodup ∧
      (∀ c ∈ handed, some c.id ≠ p.localPeer ∧
        if stale c.id then ∃ e, h.store.get? c.id = some e ∧ c.address = e.address
        else (h.store.adverts.filterMap Advert.address?).find? (·.id = c.id) = some c.address) ∧
      (r.pass.isOver = true → ∀ id, id ∈ handed.map Candidate.id ↔ some id ≠ p.localPeer ∧
        (stale id = true ∨ ∃ s ∈ h.store.adverts, ∃ a, s.address = .ok a ∧ a.id = id)) ∧
      ((ms.filterMap Move.probe?).map Prod.fst ++ r.pass.running).Perm handed ∧
      r.pass.report = ⟨recorded.countP fun x => stale x.1.id, recorded.countP fun x => !stale x.1.id,
        recorded.countP fun x => !x.2.isOk⟩ ∧
      r.pass.report.refreshed + r.pass.report.discovered =
        (ms.filterMap Move.ownUpdate?).length ∧
      r.pass.report.failed ≤ r.pass.report.refreshed + r.pass.report.discovered ∧
      (∀ id, id ∉ handed.map Candidate.id → (∀ m ∈ ms, ¬ m.IsForeign id) →
        r.hub.store.get? id = h.store.get? id) ∧
      ∃ ms' r', r.run p ms' = some r' ∧ r'.pass.isOver = true) ∧
    ∀ seeds ms r, (Round.ofSeeds p h seeds).run p ms = some r →
      let handed := (Round.ofSeeds p h seeds).handedOut p ms
      let recorded := Report.recorded (ms.filterMap Move.probe?)
      (handed.map Candidate.id).Nodup ∧
      (∀ c ∈ handed, some c.id ≠ p.localPeer ∧ seeds.find? (·.id = c.id) = some c.address) ∧
      (r.pass.isOver = true → ∀ id, id ∈ handed.map Candidate.id ↔
        some id ≠ p.localPeer ∧ ∃ a ∈ seeds, a.id = id) ∧
      ((ms.filterMap Move.probe?).map Prod.fst ++ r.pass.running).Perm handed ∧
      r.pass.report = ⟨0, recorded.length, recorded.countP fun x => !x.2.isOk⟩ ∧
      r.pass.report.discovered = (ms.filterMap Move.ownUpdate?).length ∧
      r.pass.report.failed ≤ r.pass.report.discovered ∧
      (∀ id, id ∉ handed.map Candidate.id → (∀ m ∈ ms, ¬ m.IsForeign id) →
        r.hub.store.get? id = h.store.get? id) ∧
      ∃ ms' r', r.run p ms' = some r' ∧ r'.pass.isOver = true := by
  intro h
  have hn : Store.Named h.store.entries := .run policy acts
  refine ⟨fun now ms r hr => ?_, fun seeds ms r hr => ?_⟩
  · intro handed recorded stale
    have hf : Round.Follows p.localPeer (Candidate.ofStore h.store p.refreshMs now) p
      (Round.ofStore p h now) ms r := Round.follows_plan rfl hr
    refine ⟨hf.nodup, fun c hc => ⟨(hf.first c hc).1, hf.address_ofStore hn hc⟩, fun hover id => ?_,
      hf.ended, hf.report_ofStore hn, hf.counts.1, hf.counts.2, hf.others, r.exists_isOver p⟩
    exact (hf.complete hover id).trans (and_congr_right fun _ => Store.mem_ids_ofStore hn)
  · intro handed recorded
    have hf : Round.Follows p.localPeer (Candidate.ofSeeds seeds) p (Round.ofSeeds p h seeds) ms r :=
      Round.follows_plan rfl hr
    obtain ⟨hsum, hle⟩ := hf.counts
    rw [hf.report_ofSeeds, Nat.zero_add] at hsum hle
    rw [hf.report_ofSeeds]
    refine ⟨hf.nodup, fun c hc => ⟨(hf.first c hc).1, (hf.first_ofSeeds hc).2⟩, fun hover id => ?_,
      hf.ended, rfl, hsum, hle, hf.others, r.exists_isOver p⟩
    exact (hf.complete hover id).trans (and_congr_right fun _ => Candidate.mem_ids_ofSeeds)

/-- The stale entry advertises itself elsewhere, twice a new peer, at first with a port that is none,
the own peer and a third one, whose probe is cancelled. An entry that is not stale stays as it is. -/
theorem round_probes_plan_cancelled :
    let a : PeerAddress := ⟨⟨"A", by decide, by decide⟩, []⟩
    let b : PeerAddress := ⟨⟨"B", by decide, by decide⟩, [⟨.dns "b", 8302⟩]⟩
    let c : PeerAddress := ⟨⟨"C", by decide, by decide⟩, [⟨.dns "c", 8302⟩]⟩
    let d : PeerAddress := ⟨⟨"D", by decide, by decide⟩, []⟩
    let p : DiscoveryPolicy :=
      { refreshMs := 10, maxConcurrent := 2, localPeer := some ⟨"L", by decide, by decide⟩ }
    let doc : Document := { Document.empty with adverts := [⟨"b", "B", 70000⟩, ⟨"a", "A", 1⟩,
      ⟨"b", "B", 8302⟩, ⟨"l", "L", 1⟩, ⟨"c", "C", 8302⟩, ⟨"b", "B", 1⟩] }
    let refused : Except ProbeError Document := .error (.connect d.id "refused")
    let acts : List Act := [.record 0 0 a none (.ok doc), .record 0 15 d none refused]
    let h := (Hub.start {}).run acts
    let ms : List Move := [.start, .start, .finish ⟨b, .advertised⟩ 20 21 none (.ok .empty), .start,
      .finish ⟨a, .stale⟩ 20 22 none (.error (.parse a.id "cut")),
      .finish ⟨c, .advertised⟩ 21 23 none (.error (.cancelled c.id))]
    ∃ r, (Round.ofStore p h 20).run p ms = some r ∧ r.pass.isOver = true ∧
      (Round.ofStore p h 20).handedOut p ms = [⟨a, .stale⟩, ⟨b, .advertised⟩, ⟨c, .advertised⟩] ∧
      r.pass.report = ⟨1, 1, 1⟩ ∧ r.pass.report.failed ≤ 1 + 1 ∧
      r.hub.store.get? d.id = h.store.get? d.id := by
  intro a b c d p doc refused acts h ms
  have hr : (Round.ofStore p h 20).run p ms = some ⟨_, ⟨[], [], ⟨1, 1, 1⟩⟩⟩ := rfl
  have hhanded : (Round.ofStore p h 20).handedOut p ms =
    [⟨a, .stale⟩, ⟨b, .advertised⟩, ⟨c, .advertised⟩] := rfl
  obtain ⟨-, -, -, -, -, -, hle, hothers, -⟩ := (round_probes_plan p {} acts).1 20 ms _ hr
  refine ⟨_, hr, rfl, hhanded, rfl, hle, hothers d.id ?_ ?_⟩
  · rw [hhanded]
    decide
  · intro m hm
    rintro ⟨act, u, rfl, -, -⟩
    simp [ms] at hm

end PeerWatch
