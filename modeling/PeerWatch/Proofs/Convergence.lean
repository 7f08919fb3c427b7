import PeerWatch.Discovery.Round
import PeerWatch.Proofs.Entries
import PeerWatch.Proofs.Hub

/-! Discovery over a network that answers as it always does. After the seeds and `k` ticks the store
has the peers that are at most `k` adverts away from a seed, and of each what the network says of
it. A round gets there in whatever order its probes end, and whatever is stale. -/
namespace PeerWatch
variable {h : Hub} {p : DiscoveryPolicy} {r r' : Round} {m : Move} {ms : List Move}
  {localPeer : Option PeerId} {seeds : List PeerAddress} {id : PeerId} {c : Candidate}
  {cs : List Candidate} {es : List (PeerId × Entry)} {k : Nat}

inductive Outcome
  | document (d : Document)
  | unusable
  | failure

namespace Outcome

def connected : Outcome → Bool
  | .document _ | .unusable => true
  | .failure => false

def document? : Outcome → Option Document
  | .document d => some d
  | _ => none

def ofResult : Except ProbeError Document → Option Outcome
  | .ok d => some (.document d)
  | .error e => if e.isCancelled then none else some (if e.responded then .unusable else .failure)

def result (peer : PeerId) : Outcome → Except ProbeError Document
  | .document d => .ok d
  | .unusable => .error (.parse peer "")
  | .failure => .error (.connect peer "")

theorem ofResult_result (o : Outcome) (peer : PeerId) : ofResult (o.result peer) = some o := by
  cases o <;> rfl

theorem document?_eq_some {o : Outcome} {d : Document} :
    o.document? = some d ↔ o = .document d := by
  cases o <;> simp [document?]

theorem update_ofResult {o : Outcome} {result : Except ProbeError Document}
    (h : ofResult result = some o) (now : Nat) (address : PeerAddress) :
    Update.ofResult now address result = some ⟨now, address, o.connected, o.document?⟩ := by
  cases result with
  | ok d =>
    cases h
    rfl
  | error e =>
    cases e <;> cases h <;> rfl

end Outcome

variable {net : PeerId → Outcome}

/-- Every entry is under the peer's own name and says what the network says. -/
structure Truthful (net : PeerId → Outcome) (es : List (PeerId × Entry)) : Prop where
  nodup : (keys es).Nodup
  address : ∀ e ∈ es, e.2.address.id = e.1
  connected : ∀ e ∈ es, e.2.connected = (net e.1).connected
  document : ∀ e ∈ es, e.2.document = (net e.1).document?

theorem Truthful.nil (net : PeerId → Outcome) : Truthful net [] := by
  constructor <;> simp [keys]

/-- An outcome that is written down keeps the entries truthful. -/
theorem Truthful.write {u : Update} (ht : Truthful net es)
    (hc : u.connected = (net u.address.id).connected)
    (hd : u.document = (net u.address.id).document?) : Truthful net (u.write es) where
  nodup := nodup_keys_assign ht.nodup
  address e he := by
    rcases eq_or_mem_of_mem_assign he with rfl | he
    · rfl
    · exact ht.address e he
  connected e he := by
    rcases eq_or_mem_of_mem_assign he with rfl | he
    · exact hc
    · exact ht.connected e he
  document e he := by
    rcases eq_or_mem_of_mem_assign he with rfl | he
    · exact hd
    · exact ht.document e he

namespace Candidate

def ids (cs : List Candidate) : List PeerId := cs.map Candidate.id

theorem mem_ids : id ∈ ids cs ↔ ∃ c ∈ cs, c.id = id := List.mem_map

theorem mem_ids_distinct : id ∈ ids (distinct cs) ↔ id ∈ ids cs := by
  induction cs with
  | nil => rfl
  | cons c cs ih =>
    simp only [mem_ids] at ih
    by_cases hc : c.id = id
    · simp [distinct, ids, hc]
    · have hne (d : Candidate) : (d.id ≠ c.id ∧ d.id = id) ↔ d.id = id := by
        refine ⟨And.right, fun hd => ⟨?_, hd⟩⟩
        rintro he
        exact hc (he ▸ hd)
      simp [distinct, mem_ids, hc, ← ih, and_assoc, hne]

/-- A plan leaves out the own identity and no other. -/
theorem mem_ids_plan : id ∈ ids (plan localPeer cs) ↔ some id ≠ localPeer ∧ id ∈ ids cs := by
  rw [plan, mem_ids_distinct, mem_ids, mem_ids]
  constructor
  · rintro ⟨c, hc, rfl⟩
    obtain ⟨hc, hl⟩ := List.mem_filter.1 hc
    exact ⟨of_decide_eq_true hl, c, hc, rfl⟩
  · rintro ⟨hl, c, hc, rfl⟩
    exact ⟨c, List.mem_filter.2 ⟨hc, decide_eq_true hl⟩, rfl⟩

theorem mem_ids_ofSeeds : id ∈ ids (ofSeeds seeds) ↔ ∃ a ∈ seeds, a.id = id := by
  simp [mem_ids, ofSeeds, Candidate.id]

end Candidate

def Advertises (net : PeerId → Outcome) (peer id : PeerId) : Prop :=
  ∃ d, net peer = .document d ∧ ∃ s ∈ d.adverts, ∃ a, s.address = .ok a ∧ a.id = id

/-- The peers within so many adverts of a seed, through peers that can be known themselves. -/
def Known (net : PeerId → Outcome) (localPeer : Option PeerId) (seeds : List PeerAddress) :
    Nat → PeerId → Prop
  | 0, id => some id ≠ localPeer ∧ ∃ a ∈ seeds, a.id = id
  | k + 1, id => Known net localPeer seeds k id ∨
      some id ≠ localPeer ∧ ∃ peer, Known net localPeer seeds k peer ∧ Advertises net peer id

theorem Advert.address?_eq_some {s : Advert} {a : PeerAddress} :
    s.address? = some a ↔ s.address = .ok a := by
  unfold Advert.address?
  cases s.address <;> simp

/-- What a truthful store has advertised is what its peers advertise. -/
theorem Truthful.mem_adverts {s : Store} (ht : Truthful net s.entries) :
    id ∈ (s.adverts.filterMap Advert.address?).map PeerAddress.id ↔
      ∃ peer ∈ keys s.entries, Advertises net peer id := by
  simp only [List.mem_map, List.mem_filterMap, Store.adverts, List.mem_flatMap,
    Advert.address?_eq_some]
  constructor
  · rintro ⟨a, ⟨s, ⟨d, ⟨e, he, hd⟩, hs⟩, ha⟩, rfl⟩
    have hnet := Outcome.document?_eq_some.1 ((ht.document e he).symm.trans hd)
    exact ⟨e.1, List.mem_map_of_mem he, d, hnet, s, hs, a, ha, rfl⟩
  · rintro ⟨peer, hp, d, hnet, s, hs, a, ha, rfl⟩
    obtain ⟨e, he, rfl⟩ := List.mem_map.1 hp
    have hd := (ht.document e he).trans (Outcome.document?_eq_some.2 hnet)
    exact ⟨a, ⟨s, ⟨d, ⟨e, he, hd⟩, hs⟩, ha⟩, rfl⟩

theorem Truthful.mem_keys_of_stale {s : Store} {a : PeerAddress} {age now : Nat}
    (ht : Truthful net s.entries) (ha : a ∈ s.staleAddresses age now) :
    a.id ∈ keys s.entries := by
  obtain ⟨e, he, rfl⟩ := List.mem_map.1 ha
  have he := (List.mem_filter.1 he).1
  rw [ht.address e he]
  exact List.mem_map_of_mem he

namespace Pass

def pending (p : Pass) : List PeerId := Candidate.ids (p.running ++ p.waiting)

theorem pending_start {w : Nat} {pass pass' : Pass} (h : pass.start? w = some (c, pass')) :
    pass'.pending = pass.pending := by
  unfold start? at h
  split at h
  · next hw =>
    split_ifs at h
    cases h
    simp [pending, hw]
  · cases h

theorem mem_pending_finish {pass : Pass} (hc : c ∈ pass.running)
    (result : Except ProbeError Document) :
    id ∈ pass.pending ↔ id = c.id ∨ id ∈ (pass.finish c result).pending := by
  have hp := ((List.perm_cons_erase hc).append_right pass.waiting).map Candidate.id
  exact hp.mem_iff.trans (by simp [pending, finish, Candidate.ids])

/-- The starts and ends of probes that are left. -/
def work (p : Pass) : Nat := 2 * p.waiting.length + p.running.length

theorem isOver_iff_work {pass : Pass} : pass.isOver = true ↔ pass.work = 0 := by
  rw [isOver, Bool.and_eq_true, List.isEmpty_iff_length_eq_zero, List.isEmpty_iff_length_eq_zero,
    work]
  omega

end Pass

/-- A move that goes as the network says: a probe that ends has the outcome of its peer, and nothing
else is written down. -/
def Move.Obeys (net : PeerId → Outcome) : Move → Prop
  | .start => True
  | .finish c _ _ _ result => Outcome.ofResult result = some (net c.id)
  | .other a => a.update? = none

def Move.isWork : Move → Bool
  | .other _ => false
  | _ => true

namespace Round

def entries (r : Round) : List (PeerId × Entry) := r.hub.store.entries

def Covers (r : Round) (id : PeerId) : Prop := id ∈ keys r.entries ∨ id ∈ r.pass.pending

/-- A probe that ends as the network says moves its peer from the pass to the store. -/
theorem covers_finish {started now : Nat} {size : Option Nat}
    {result : Except ProbeError Document} (hc : c ∈ r.pass.running)
    (hr : Outcome.ofResult result = some (net c.id)) (ht : Truthful net r.entries) :
    let r' : Round :=
      ⟨(r.hub.step (.record started now c.address size result)).2, r.pass.finish c result⟩
    Truthful net r'.entries ∧ ∀ id, r'.Covers id ↔ r.Covers id := by
  intro r'
  have hes : r'.entries = Update.write r.entries _ :=
    Hub.entries_step_update (Outcome.update_ofResult hr now c.address)
  refine ⟨?_, fun id => ?_⟩
  · rw [hes]
    exact ht.write rfl rfl
  · have hkeys : id ∈ keys r'.entries ↔ id ∈ keys r.entries ∨ id = c.id := by
      rw [hes]
      exact mem_keys_assign
    rw [Covers, Covers, hkeys, Pass.mem_pending_finish hc result, or_assoc]

/-- No move loses a peer or finds one, it only takes the round further. -/
theorem covers_move (hm : r.move p m = some r') (ho : m.Obeys net) (ht : Truthful net r.entries) :
    Truthful net r'.entries ∧ ∀ id, r'.Covers id ↔ r.Covers id := by
  cases m with
  | start =>
    obtain ⟨⟨c, pass⟩, hs, rfl⟩ := Option.map_eq_some_iff.1 hm
    refine ⟨ht, fun id => ?_⟩
    rw [Covers, Covers, Pass.pending_start hs]
    rfl
  | finish c started now size result =>
    simp only [move] at hm
    split_ifs at hm with hc
    cases hm
    exact covers_finish hc ho ht
  | other a =>
    cases hm
    have hes : (⟨(r.hub.step a).2, r.pass⟩ : Round).entries = r.entries :=
      Hub.entries_step_of_no_update ho
    rw [hes]
    refine ⟨ht, fun id => ?_⟩
    rw [Covers, hes]
    rfl

theorem covers_run (hr : r.run p ms = some r') (ho : ∀ m ∈ ms, m.Obeys net)
    (ht : Truthful net r.entries) :
    Truthful net r'.entries ∧ ∀ id, r'.Covers id ↔ r.Covers id := by
  induction ms generalizing r with
  | nil =>
    cases hr
    exact ⟨ht, fun _ => Iff.rfl⟩
  | cons m ms ih =>
    obtain ⟨r₁, hm, hr⟩ := Option.bind_eq_some_iff.1 hr
    obtain ⟨ht₁, hc₁⟩ := covers_move hm (ho m List.mem_cons_self) ht
    obtain ⟨ht', hc'⟩ := ih hr (fun m hm => ho m (List.mem_cons_of_mem _ hm)) ht₁
    exact ⟨ht', fun id => (hc' id).trans (hc₁ id)⟩

/-- A round that is over has written down all that it covered. -/
theorem mem_keys_of_run (hr : r.run p ms = some r') (ho : ∀ m ∈ ms, m.Obeys net)
    (ht : Truthful net r.entries) (hover : r'.pass.isOver = true) :
    Truthful net r'.entries ∧ ∀ id, id ∈ keys r'.entries ↔ r.Covers id := by
  obtain ⟨ht', hc⟩ := covers_run hr ho ht
  refine ⟨ht', fun id => ?_⟩
  simp only [Pass.isOver, Bool.and_eq_true, List.isEmpty_iff] at hover
  rw [← hc id, Covers, Pass.pending, hover.1, hover.2]
  simp [Candidate.ids]

theorem covers_ofSeeds (he : h.store.entries = []) :
    (ofSeeds p h seeds).Covers id ↔ Known net p.localPeer seeds 0 id := by
  have hk : id ∉ keys (ofSeeds p h seeds).entries := by
    have he' : (ofSeeds p h seeds).entries = [] := he
    simp [he', keys]
  have hp : (ofSeeds p h seeds).pass.pending =
      Candidate.ids (Candidate.plan p.localPeer (Candidate.ofSeeds seeds)) := rfl
  rw [Covers, hp, Candidate.mem_ids_plan, Candidate.mem_ids_ofSeeds, or_iff_right hk]
  rfl

/-- A round over a truthful store covers what is known and what that advertises; what is stale adds
nothing to it. -/
theorem covers_ofStore (ht : Truthful net h.store.entries) {now : Nat}
    (hk : ∀ id, id ∈ keys h.store.entries ↔ Known net p.localPeer seeds k id) :
    (ofStore p h now).Covers id ↔ Known net p.localPeer seeds (k + 1) id := by
  have hp : (ofStore p h now).pass.pending =
      Candidate.ids (Candidate.plan p.localPeer (Candidate.ofStore h.store p.refreshMs now)) := rfl
  have hcand : id ∈ Candidate.ids (Candidate.ofStore h.store p.refreshMs now) ↔
      (∃ a ∈ h.store.staleAddresses p.refreshMs now, a.id = id) ∨
        ∃ peer ∈ keys h.store.entries, Advertises net peer id := by
    rw [← ht.mem_adverts]
    simp [Candidate.ids, Candidate.ofStore, Candidate.id, Function.comp_def]
  have hes : (ofStore p h now).entries = h.store.entries := rfl
  have hadv : (∃ peer ∈ keys h.store.entries, Advertises net peer id) ↔
      ∃ peer, Known net p.localPeer seeds k peer ∧ Advertises net peer id := by
    simp only [hk]
  rw [Covers, hp, Candidate.mem_ids_plan, hcand, hadv, hes, Known, ← hk id]
  constructor
  · rintro (hid | ⟨hl, ⟨a, ha, rfl⟩ | hid⟩)
    · exact Or.inl hid
    · exact Or.inl (ht.mem_keys_of_stale ha)
    · exact Or.inr ⟨hl, hid⟩
  · rintro (hid | ⟨hl, hid⟩)
    · exact Or.inl hid
    · exact Or.inr ⟨hl, Or.inr hid⟩

theorem work_move (hm : r.move p m = some r') :
    r'.pass.work + m.isWork.toNat = r.pass.work := by
  cases m with
  | start =>
    obtain ⟨⟨c, pass⟩, hs, rfl⟩ := Option.map_eq_some_iff.1 hm
    unfold Pass.start? at hs
    split at hs
    · next hw =>
      split_ifs at hs
      cases hs
      simp only [Pass.work, hw, List.length_cons, List.length_append, List.length_nil,
        Move.isWork, Bool.toNat_true]
      omega
    · cases hs
  | finish c started now size result =>
    simp only [move] at hm
    split_ifs at hm with hc
    cases hm
    have hlen := List.length_erase_of_mem hc
    have hpos := List.length_pos_of_mem hc
    simp only [Pass.work, Pass.finish, hlen, Move.isWork, Bool.toNat_true]
    omega
  | other a =>
    cases hm
    rfl

/-- Every start and every end of a probe takes a round nearer to its end. -/
theorem work_run (hr : r.run p ms = some r') :
    r'.pass.work + ms.countP Move.isWork = r.pass.work := by
  induction ms generalizing r with
  | nil =>
    cases hr
    rfl
  | cons m ms ih =>
    obtain ⟨r₁, hm, hr⟩ := Option.bind_eq_some_iff.1 hr
    have hm := work_move hm
    have hr := ih hr
    rw [List.countP_cons]
    cases hw : m.isWork <;> simp [hw] at hm ⊢ <;> omega

/-- As long as a round is not over a probe can start or end, the latter as the network says. -/
theorem exists_move (net : PeerId → Outcome) (p : DiscoveryPolicy)
    (hover : r.pass.work ≠ 0) :
    ∃ m r', m.Obeys net ∧ m.isWork = true ∧ r.move p m = some r' := by
  cases hr : r.pass.running with
  | cons c running =>
    have hc : c ∈ r.pass.running := hr ▸ List.mem_cons_self
    exact ⟨.finish c 0 0 none ((net c.id).result c.id), _, Outcome.ofResult_result _ _, rfl,
      if_pos hc⟩
  | nil =>
    cases hw : r.pass.waiting with
    | nil => simp [Pass.work, hr, hw] at hover
    | cons c waiting =>
      have hwidth : 0 < Pass.width p := Nat.le_max_left 1 _
      have hs : r.pass.start? (Pass.width p) =
          some (c, { r.pass with waiting := waiting, running := [c] }) := by
        simp [Pass.start?, hw, hr, hwidth]
      exact ⟨.start, _, trivial, rfl, by rw [move, hs]; rfl⟩

theorem exists_finish (net : PeerId → Outcome) (p : DiscoveryPolicy) (n : Nat)
    (hn : r.pass.work = n) :
    ∃ ms r', (∀ m ∈ ms, m.Obeys net) ∧ ms.length = n ∧ r.run p ms = some r' ∧
      r'.pass.isOver = true := by
  induction n generalizing r with
  | zero =>
    exact ⟨[], r, by simp, rfl, rfl, Pass.isOver_iff_work.2 hn⟩
  | succ n ih =>
    obtain ⟨m, r₁, ho, hw, hm⟩ := exists_move net p (by omega : r.pass.work ≠ 0)
    have hn₁ := work_move hm
    rw [hw, Bool.toNat_true] at hn₁
    obtain ⟨ms, r', hos, hlen, hr, hover⟩ := ih (by omega : r₁.pass.work = n)
    refine ⟨m :: ms, r', List.forall_mem_cons.2 ⟨ho, hos⟩, by rw [List.length_cons, hlen], ?_, hover⟩
    rw [run, hm]
    exact hr

end Round

/-- The seeds are probed and then the network is walked `k` times, always as the network says; at
the end the hub is `h`. -/
inductive Journey (p : DiscoveryPolicy) (net : PeerId → Outcome) (seeds : List PeerAddress) :
    Nat → Hub → Prop
  | bootstrap (h : Hub) (ms : List Move) {r : Round} (empty : h.store.entries = [])
      (obeys : ∀ m ∈ ms, m.Obeys net) (run : (Round.ofSeeds p h seeds).run p ms = some r)
      (complete : r.pass.isOver = true) : Journey p net seeds 0 r.hub
  | tick {k : Nat} {h : Hub} (now : Nat) (ms : List Move) {r : Round}
      (before : Journey p net seeds k h) (obeys : ∀ m ∈ ms, m.Obeys net)
      (run : (Round.ofStore p h now).run p ms = some r) (complete : r.pass.isOver = true) :
      Journey p net seeds (k + 1) r.hub

theorem Journey.truthful (hj : Journey p net seeds k h) :
    Truthful net h.store.entries ∧
      ∀ id, id ∈ keys h.store.entries ↔ Known net p.localPeer seeds k id := by
  induction hj with
  | bootstrap h ms empty obeys run complete =>
    have ht := Truthful.nil net
    rw [← empty] at ht
    obtain ⟨ht', hc⟩ := Round.mem_keys_of_run run obeys ht complete
    exact ⟨ht', fun id => (hc id).trans (Round.covers_ofSeeds empty)⟩
  | tick now ms before obeys run complete ih =>
    obtain ⟨ht, hk⟩ := ih
    obtain ⟨ht', hc⟩ := Round.mem_keys_of_run run obeys ht complete
    exact ⟨ht', fun id => (hc id).trans (Round.covers_ofStore ht hk)⟩

/-- After the seeds and `k` ticks the store has exactly the peers within `k` adverts of a seed, each
once and with the connection and the document that the network gives it. No round takes more starts
and ends of probes than two for each candidate, and from wherever it stands it comes to its end. -/
theorem discovery_converges (p : DiscoveryPolicy) (net : PeerId → Outcome)
    (seeds : List PeerAddress) :
    (∀ k h, Journey p net seeds k h →
      (keys h.store.entries).Nodup ∧
      (∀ id, id ∈ keys h.store.entries ↔ Known net p.localPeer seeds k id) ∧
      ∀ id e, (id, e) ∈ h.store.entries →
        e.connected = (net id).connected ∧ e.document = (net id).document?) ∧
    ∀ r ms r', (∀ m ∈ ms, m.Obeys net) → Round.run p r ms = some r' →
      ms.countP Move.isWork ≤ r.pass.work ∧
      ∃ ms' r'', (∀ m ∈ ms', m.Obeys net) ∧ ms'.length = r'.pass.work ∧
        r'.run p ms' = some r'' ∧ r''.pass.isOver = true := by
  refine ⟨fun k h hj => ?_, fun r ms r' ho hr => ⟨?_, Round.exists_finish net p _ rfl⟩⟩
  · obtain ⟨ht, hk⟩ := hj.truthful
    exact ⟨ht.nodup, hk, fun id e he => ⟨ht.connected _ he, ht.document _ he⟩⟩
  · have hw := Round.work_run hr
    omega

/-- The seed advertises itself, the own peer, nobody, and twice a peer that does not answer: it is
stale at the first tick, which finds the other one. -/
theorem discovery_converges_first_tick :
    let seed : PeerAddress := ⟨⟨"A", by decide, by decide⟩, []⟩
    let found : PeerAddress := ⟨⟨"B", by decide, by decide⟩, [⟨.dns "b", 8302⟩]⟩
    let own : PeerId := ⟨"L", by decide, by decide⟩
    let p : DiscoveryPolicy := { localPeer := some own }
    let doc : Document := { Document.empty with
      adverts := [⟨"a", "A", 1⟩, ⟨"l", "L", 1⟩, ⟨"", "", 1⟩, ⟨"b", "B", 8302⟩, ⟨"c", "B", 1⟩] }
    let net : PeerId → Outcome := fun id => if id = seed.id then .document doc else .failure
    let h := ((Hub.start {}).run [.record 0 0 seed none (.ok doc),
      .record 70000 70001 seed none (.ok doc),
      .record 70001 70002 found none (.error (.connect found.id "refused"))])
    Journey p net [seed] 1 h ∧ keys h.store.entries = [seed.id, found.id] ∧
      ∀ id, id ∈ keys h.store.entries ↔ Known net (some own) [seed] 1 id := by
  intro seed found own p doc net h
  have hfirst : Journey p net [seed] 0 ((Hub.start {}).run [.record 0 0 seed none (.ok doc)]) := by
    refine .bootstrap (Hub.start {}) [.start, .finish ⟨seed, .advertised⟩ 0 0 none (.ok doc)]
      (r := ⟨_, ⟨[], [], ⟨0, 1, 0⟩⟩⟩) rfl ?_ rfl rfl
    simp [Move.Obeys, Outcome.ofResult, net, Candidate.id]
  have hj : Journey p net [seed] 1 h := by
    refine .tick 70000 [.start, .finish ⟨seed, .stale⟩ 70000 70001 none (.ok doc), .start,
      .finish ⟨found, .advertised⟩ 70001 70002 none (.error (.connect found.id "refused"))]
      (r := ⟨_, ⟨[], [], ⟨1, 1, 1⟩⟩⟩) hfirst ?_ rfl rfl
    simp [Move.Obeys, Outcome.ofResult, net, Candidate.id, seed, found, ProbeError.isCancelled,
      ProbeError.responded]
  exact ⟨hj, rfl, ((discovery_converges p net [seed]).1 1 h hj).2.1⟩

end PeerWatch
