import PeerWatch.Proofs.Convergence
import PeerWatch.Proofs.FetchRecord
import PeerWatch.Proofs.StoreHistory

/-! The order in which the probes of a round end. What a round reports and what it leaves in the
store of every peer is settled when it begins: by the network for the peers of the plan, and by the
store for all others. How many probes run at once, and which of them ends first, decides only where
new entries stand and how old the entries are. -/
namespace PeerWatch
variable {p : DiscoveryPolicy} {net : PeerId → Outcome} {r r' : Round} {m : Move} {ms : List Move}
  {c : Candidate} {cs ds : List Candidate} {id : PeerId} {pass pass' : Pass}
  {result : Except ProbeError Document}

/-- What an entry says of its peer, whenever that was found out. -/
def Entry.told (e : Entry) : Bool × Option Document × PeerAddress :=
  (e.connected, e.document, e.address)

namespace Report

def add (r s : Report) : Report :=
  ⟨r.refreshed + s.refreshed, r.discovered + s.discovered, r.failed + s.failed⟩

def tally (net : PeerId → Outcome) (cs : List Candidate) : Report where
  refreshed := cs.countP fun c => c.origin = .stale
  discovered := cs.countP fun c => c.origin = .advertised
  failed := cs.countP fun c => (net c.id).document? = none

theorem add_tally_nil (net : PeerId → Outcome) (r : Report) : r.add (tally net []) = r := rfl

theorem tally_perm (net : PeerId → Outcome) (h : cs.Perm ds) : tally net cs = tally net ds := by
  simp only [tally, h.countP_eq]

/-- A probe that has ended as the network says counts as the tally has it. -/
theorem count_add_tally (hr : Outcome.ofResult result = some (net c.id)) (r : Report) :
    (r.count c.origin result).add (tally net cs) = r.add (tally net (c :: cs)) := by
  cases result with
  | ok d =>
    have hnet : net c.id = .document d := (Option.some.inj hr).symm
    cases ho : c.origin <;>
      simp [count, isCancelled, add, tally, ho, hnet, Outcome.document?] <;> omega
  | error e =>
    have hnet : e.isCancelled = false ∧ (net c.id).document? = none := by
      simp only [Outcome.ofResult] at hr
      split_ifs at hr with he hresp <;> rw [← Option.some.inj hr] <;>
        exact ⟨Bool.eq_false_iff.2 he, rfl⟩
    cases ho : c.origin <;>
      simp [count, isCancelled, add, tally, ho, hnet] <;> omega

end Report

namespace Candidate

theorem nodup_ids_distinct (cs : List Candidate) : (ids (distinct cs)).Nodup := by
  induction cs with
  | nil => exact List.nodup_nil
  | cons c cs ih =>
    refine List.nodup_cons.2 ⟨fun hc => ?_, ih.sublist (List.filter_sublist.map _)⟩
    obtain ⟨d, hd, he⟩ := mem_ids.1 hc
    exact of_decide_eq_true (List.mem_filter.1 hd).2 he

theorem find?_eq_some_iff (hn : (ids cs).Nodup) :
    cs.find? (·.id = id) = some c ↔ c ∈ cs ∧ c.id = id := find?_key_eq_some_iff hn

theorem find?_perm (h : cs.Perm ds) (hn : (ids cs).Nodup) :
    cs.find? (·.id = id) = ds.find? (·.id = id) := by
  refine Option.ext fun c => ?_
  rw [find?_eq_some_iff hn, find?_eq_some_iff ((h.map _).nodup_iff.1 hn), h.mem_iff]

end Candidate

namespace Pass

def candidates (pass : Pass) : List Candidate := pass.running ++ pass.waiting

theorem pending_eq (pass : Pass) : pass.pending = Candidate.ids pass.candidates := rfl

theorem candidates_start {w : Nat} (h : pass.start? w = some (c, pass')) :
    pass'.candidates = pass.candidates ∧ pass'.report = pass.report := by
  unfold start? at h
  split at h
  · next hw =>
    split_ifs at h
    cases h
    simp [candidates, hw]
  · cases h

theorem perm_candidates (hc : c ∈ pass.running) (result : Except ProbeError Document) :
    pass.candidates.Perm (c :: (pass.finish c result).candidates) :=
  (List.perm_cons_erase hc).append_right pass.waiting

end Pass

namespace Round

/-- What will be known of a peer when the round is over. -/
def outlook (net : PeerId → Outcome) (r : Round) (id : PeerId) :
    Option (Bool × Option Document × PeerAddress) :=
  match r.pass.candidates.find? (·.id = id) with
  | some c => some ((net id).connected, (net id).document?, c.address)
  | none => (r.hub.store.get? id).map Entry.told

def forecast (net : PeerId → Outcome) (r : Round) : Report :=
  r.pass.report.add (.tally net r.pass.candidates)

def expected (r : Round) : List PeerId :=
  keys r.entries ++ r.pass.pending.filter (· ∉ keys r.entries)

/-- Two rounds that come to the same, whatever was written down in between. -/
structure Agrees (net : PeerId → Outcome) (r r' : Round) : Prop where
  outlook : ∀ id, r'.outlook net id = r.outlook net id
  forecast : r'.forecast net = r.forecast net
  expected : r'.expected.Perm r.expected

theorem Agrees.refl (net : PeerId → Outcome) (r : Round) : Agrees net r r :=
  ⟨fun _ => rfl, rfl, .refl _⟩

theorem Agrees.trans {r₁ r₂ r₃ : Round} (h : Agrees net r₁ r₂) (h' : Agrees net r₂ r₃) :
    Agrees net r₁ r₃ :=
  ⟨fun id => (h'.outlook id).trans (h.outlook id), h'.forecast.trans h.forecast,
    h'.expected.trans h.expected⟩

theorem agrees_of_same (he : r'.entries = r.entries)
    (hc : r'.pass.candidates = r.pass.candidates) (hr : r'.pass.report = r.pass.report) :
    Agrees net r r' := by
  have hget (id : PeerId) : r'.hub.store.get? id = r.hub.store.get? id :=
    congrArg (List.lookup id) he
  refine ⟨fun id => ?_, ?_, ?_⟩
  · rw [outlook, outlook, hc, hget]
  · rw [forecast, forecast, hc, hr]
  · rw [expected, expected, he, Pass.pending_eq, Pass.pending_eq, hc]

/-- A peer that leaves the pass for the store is in the store what it would have been. -/
theorem outlook_of_assign {e : Entry} (hes : r'.entries = assign c.id e r.entries)
    (he : e.told = ((net c.id).connected, (net c.id).document?, c.address))
    (hperm : r.pass.candidates.Perm (c :: r'.pass.candidates)) (hn : r.pass.pending.Nodup) :
    r'.outlook net id = r.outlook net id := by
  have hfresh := (List.nodup_cons.1 ((hperm.map Candidate.id).nodup_iff.1 hn)).1
  rw [outlook, outlook, Candidate.find?_perm hperm hn]
  by_cases hid : id = c.id
  · subst hid
    have hnone : r'.pass.candidates.find? (·.id = c.id) = none := by
      rw [List.find?_eq_none]
      intro d hd hid
      exact hfresh (Candidate.mem_ids.2 ⟨d, hd, of_decide_eq_true hid⟩)
    have hget : r'.hub.store.get? c.id = some e := by
      rw [Store.get?, ← entries, hes, lookup_assign_self]
    rw [hnone, List.find?_cons_of_pos (by simp), hget]
    exact congrArg some he
  · have hget : r'.hub.store.get? id = r.hub.store.get? id := by
      rw [Store.get?, ← entries, hes, lookup_assign_ne hid]
      rfl
    rw [hget, List.find?_cons_of_neg (by simpa using Ne.symm hid)]

theorem expected_of_assign {e : Entry} (hes : r'.entries = assign c.id e r.entries)
    (hperm : r.pass.candidates.Perm (c :: r'.pass.candidates)) (hn : r.pass.pending.Nodup) :
    r'.expected.Perm r.expected := by
  have hids := hperm.map Candidate.id
  have hfresh := (List.nodup_cons.1 (hids.nodup_iff.1 hn)).1
  have hrest := (hids.filter (· ∉ keys r.entries)).append_left (keys r.entries)
  rw [expected, expected, hes, keys_assign]
  refine List.Perm.trans ?_ hrest.symm
  rw [List.map_cons]
  split_ifs with hin
  · rw [List.filter_cons_of_neg (by simpa using hin)]
    exact List.Perm.refl _
  · -- Its key is a new one, which none of the others has.
    rw [List.filter_cons_of_pos (by simpa using hin), List.append_assoc]
    refine List.Perm.of_eq (congrArg (keys r.entries ++ c.id :: ·) (List.filter_congr ?_))
    intro k hk
    have hne : k ≠ c.id := fun he => hfresh (he ▸ hk)
    simp [hne]

theorem agrees_finish {started now : Nat} {size : Option Nat} (hc : c ∈ r.pass.running)
    (hr : Outcome.ofResult result = some (net c.id)) (hn : r.pass.pending.Nodup) :
    Agrees net r
      ⟨(r.hub.step (.record started now c.address size result)).2, r.pass.finish c result⟩ := by
  have hu : (Act.record started now c.address size result).update? = some _ :=
    Outcome.update_ofResult hr now c.address
  have hes := Hub.entries_step_update (h := r.hub) hu
  have hperm := Pass.perm_candidates hc result
  refine ⟨fun id => outlook_of_assign hes rfl hperm hn, ?_, expected_of_assign hes hperm hn⟩
  rw [forecast, forecast, Report.tally_perm net hperm, ← Report.count_add_tally hr]
  rfl

theorem agrees_move (hm : r.move p m = some r') (ho : m.Obeys net)
    (hn : r.pass.pending.Nodup) :
    Agrees net r r' ∧ r'.pass.pending.Nodup := by
  cases m with
  | start =>
    obtain ⟨⟨c, pass⟩, hs, rfl⟩ := Option.map_eq_some_iff.1 hm
    obtain ⟨hc, hrep⟩ := Pass.candidates_start hs
    exact ⟨agrees_of_same rfl hc hrep, (congrArg List.Nodup (Pass.pending_start hs)).mpr hn⟩
  | finish c started now size result =>
    simp only [move] at hm
    split_ifs at hm with hc
    cases hm
    have hperm := (Pass.perm_candidates hc result).map Candidate.id
    exact ⟨agrees_finish hc ho hn, (List.nodup_cons.1 (hperm.nodup_iff.1 hn)).2⟩
  | other a =>
    cases hm
    exact ⟨agrees_of_same (Hub.entries_step_of_no_update ho) rfl rfl, hn⟩

theorem agrees_run (hr : r.run p ms = some r') (ho : ∀ m ∈ ms, m.Obeys net)
    (hn : r.pass.pending.Nodup) : Agrees net r r' := by
  induction ms generalizing r with
  | nil =>
    cases hr
    exact Agrees.refl net _
  | cons m ms ih =>
    obtain ⟨r₁, hm, hr⟩ := Option.bind_eq_some_iff.1 hr
    obtain ⟨h₁, hn₁⟩ := agrees_move hm (ho m List.mem_cons_self) hn
    exact h₁.trans (ih hr (fun m hm => ho m (List.mem_cons_of_mem _ hm)) hn₁)

/-- What a round over leaves behind, told from how it began. -/
theorem of_isOver (hr : r.run p ms = some r') (ho : ∀ m ∈ ms, m.Obeys net)
    (hn : r.pass.pending.Nodup) (hover : r'.pass.isOver = true) :
    r'.pass.report = r.forecast net ∧
      (∀ id, (r'.hub.store.get? id).map Entry.told = r.outlook net id) ∧
      ∃ new, keys r'.entries = keys r.entries ++ new ∧
        new.Perm (r.pass.pending.filter (· ∉ keys r.entries)) := by
  have hnil : r'.pass.candidates = [] := by
    simp only [Pass.isOver, Bool.and_eq_true, List.isEmpty_iff] at hover
    rw [Pass.candidates, hover.1, hover.2, List.append_nil]
  have h := agrees_run hr ho hn
  refine ⟨?_, fun id => ?_, ?_⟩
  · rw [← h.forecast, forecast, hnil, Report.add_tally_nil]
  · rw [← h.outlook id, outlook, hnil]
    rfl
  · obtain ⟨new, hnew⟩ : keys r.entries <+: keys r'.entries := by
      rw [entries, entries, hub_run hr]
      exact (Hub.entries_run_kept r.hub _).1
    have hperm := h.expected
    rw [expected, expected, r'.pass.pending_eq, hnil, ← hnew] at hperm
    refine ⟨new, hnew.symm, (List.perm_append_left_iff (keys r.entries)).1 ?_⟩
    simpa [Candidate.ids] using hperm

theorem nodup_of_start {h : Hub} (hstart : (∃ now, r = ofStore p h now) ∨
    ∃ seeds, r = ofSeeds p h seeds) : r.pass.pending.Nodup := by
  rcases hstart with ⟨now, rfl⟩ | ⟨seeds, rfl⟩ <;> exact Candidate.nodup_ids_distinct _

theorem run_width_zero (r : Round) (ms : List Move) :
    r.run { p with maxConcurrent := 0 } ms = r.run { p with maxConcurrent := 1 } ms := by
  induction ms generalizing r with
  | nil => rfl
  | cons m ms ih =>
    have hm : r.move { p with maxConcurrent := 0 } m = r.move { p with maxConcurrent := 1 } m := rfl
    rw [run, run, hm]
    simp only [ih]

end Round

/-- A round over a plan, whether of seeds or of what a store gives, comes to an end however many
probes run at once, and from wherever it stands. Whatever their number, and in whatever order they
end, it reports the same and leaves the same connection, document and address of every peer: only
the times of the entries and the order of the new ones are left open. -/
theorem round_order_irrelevant (p : DiscoveryPolicy) (net : PeerId → Outcome) (h : Hub) (r : Round)
    (hstart : (∃ now, r = Round.ofStore p h now) ∨ ∃ seeds, r = Round.ofSeeds p h seeds) :
    (∀ ms, r.run { p with maxConcurrent := 0 } ms = r.run { p with maxConcurrent := 1 } ms) ∧
    (∀ n ms r₁, r.run { p with maxConcurrent := n } ms = some r₁ →
      ∃ ms' r₂, (∀ m ∈ ms', m.Obeys net) ∧ r₁.run { p with maxConcurrent := n } ms' = some r₂ ∧
        r₂.pass.isOver = true) ∧
    ∀ n₁ n₂ ms₁ ms₂ r₁ r₂, (∀ m ∈ ms₁, m.Obeys net) → (∀ m ∈ ms₂, m.Obeys net) →
      r.run { p with maxConcurrent := n₁ } ms₁ = some r₁ →
      r.run { p with maxConcurrent := n₂ } ms₂ = some r₂ →
      r₁.pass.isOver = true → r₂.pass.isOver = true →
      r₁.pass.report = r₂.pass.report ∧
      (∀ id, (r₁.hub.store.get? id).map (fun e => (e.connected, e.document, e.address)) =
        (r₂.hub.store.get? id).map fun e => (e.connected, e.document, e.address)) ∧
      ∃ new₁ new₂, keys r₁.hub.store.entries = keys h.store.entries ++ new₁ ∧
        keys r₂.hub.store.entries = keys h.store.entries ++ new₂ ∧ new₁.Perm new₂ := by
  have hn := Round.nodup_of_start hstart
  have hh : r.entries = h.store.entries := by
    rcases hstart with ⟨now, rfl⟩ | ⟨seeds, rfl⟩ <;> rfl
  refine ⟨r.run_width_zero, fun n ms r₁ hr => ?_, ?_⟩
  · obtain ⟨ms', r₂, ho, -, hr₂, hover⟩ := Round.exists_finish net { p with maxConcurrent := n } _ rfl
    exact ⟨ms', r₂, ho, hr₂, hover⟩
  · intro n₁ n₂ ms₁ ms₂ r₁ r₂ ho₁ ho₂ hr₁ hr₂ hover₁ hover₂
    obtain ⟨hrep₁, htold₁, new₁, hkeys₁, hnew₁⟩ := Round.of_isOver hr₁ ho₁ hn hover₁
    obtain ⟨hrep₂, htold₂, new₂, hkeys₂, hnew₂⟩ := Round.of_isOver hr₂ ho₂ hn hover₂
    rw [hh] at hkeys₁ hkeys₂
    exact ⟨hrep₁.trans hrep₂.symm, fun id => (htold₁ id).trans (htold₂ id).symm, new₁, new₂,
      hkeys₁, hkeys₂, hnew₁.trans hnew₂.symm⟩

/-- Two seeds, of which the one fails. They are probed one by one, and then both at once with the
last one first. -/
theorem round_order_irrelevant_seeds :
    let a : PeerAddress := ⟨⟨"A", by decide, by decide⟩, []⟩
    let b : PeerAddress := ⟨⟨"B", by decide, by decide⟩, []⟩
    let net : PeerId → Outcome := fun id => if id = a.id then .document .empty else .failure
    let r := Round.ofSeeds {} (Hub.start {}) [a, b, a]
    let endA (now : Nat) : Move := .finish ⟨a, .advertised⟩ 0 now none (.ok .empty)
    let endB (now : Nat) : Move :=
      .finish ⟨b, .advertised⟩ 0 now none (.error (.connect b.id "refused"))
    let one := [.start, endA 1, .start, endB 2]
    let two := [.start, .start, .other .subscribe, endB 3, endA 4]
    (∀ m ∈ one, m.Obeys net) ∧ (∀ m ∈ two, m.Obeys net) ∧
      ∃ r₁ r₂, r.run { maxConcurrent := 0 } one = some r₁ ∧
      r.run { maxConcurrent := 2 } two = some r₂ ∧
      r₁.pass.report = r₂.pass.report ∧
      (∀ id, (r₁.hub.store.get? id).map (fun e => (e.connected, e.document, e.address)) =
        (r₂.hub.store.get? id).map fun e => (e.connected, e.document, e.address)) ∧
      keys r₁.hub.store.entries = [a.id, b.id] ∧ keys r₂.hub.store.entries = [b.id, a.id] := by
  intro a b net r endA endB one two
  have hne : b.id ≠ a.id := by decide
  have hone : ∀ m ∈ one, m.Obeys net := by
    simp [one, endA, endB, Move.Obeys, Outcome.ofResult, net, Candidate.id, hne,
      ProbeError.isCancelled, ProbeError.responded]
  have htwo : ∀ m ∈ two, m.Obeys net := by
    simp [two, endA, endB, Move.Obeys, Outcome.ofResult, net, Candidate.id, hne,
      ProbeError.isCancelled, ProbeError.responded, Act.update?]
  have hr₁ : r.run { maxConcurrent := 0 } one = some ⟨_, ⟨[], [], ⟨0, 2, 1⟩⟩⟩ := rfl
  have hr₂ : r.run { maxConcurrent := 2 } two = some ⟨_, ⟨[], [], ⟨0, 2, 1⟩⟩⟩ := rfl
  obtain ⟨hrep, htold, -⟩ := (round_order_irrelevant {} net (Hub.start {}) r
    (Or.inr ⟨_, rfl⟩)).2.2 0 2 one two _ _ hone htwo hr₁ hr₂ rfl rfl
  exact ⟨hone, htwo, _, _, hr₁, hr₂, hrep, htold, rfl, rfl⟩

end PeerWatch
