import PeerWatch.Discovery.Fetch
import PeerWatch.Discovery.Round
import PeerWatch.Proofs.Entries
import PeerWatch.Proofs.Hub

/-! What a fetch writes down. Whatever the network replies, a fetch comes to an end and then writes
down one outcome under the address that it was given, or nothing if it was cancelled. Since no
outcome has a document of a peer that was not reached, discovery follows nobody but the peers that
are reached. -/
namespace PeerWatch
variable {l : FetchLimits} {h : Hub} {f : Fetch l} {p q : Probe l} {es : List FetchEvent}
  {e : FetchEvent} {a : Act} {as : List Act} {peer : PeerId} {now : Nat} {size : Option Nat}
  {result : Except ProbeError Document} {u : Update} {r r' : Round} {ms : List Move}

/-- A probe does not cancel itself. -/
theorem Probe.isCancelled_of_step {r : Reply} (h : p.step peer r = .ended size result) :
    isCancelled result = false := by
  have hread {progress : Progress l} (h : read peer progress = .ended size result) :
      isCancelled result = false := by
    cases progress with
    | more r => cases h
    | done data =>
      cases h
      rw [conclude]
      cases Document.parse? data.toList <;> rfl
    | failed fault =>
      cases h
      cases fault <;> rfl
  unfold step at h
  split at h
  case h_9 => exact hread h
  case h_10 => exact hread h
  all_goals
    cases h
    try rfl

namespace FetchEvent

def other? : FetchEvent → Option Act
  | .other a => some a
  | _ => none

def isReply : FetchEvent → Bool
  | .reply .. => true
  | _ => false

end FetchEvent

namespace Fetch

/-- What can happen to a probe that waits. -/
theorem step_cases (hp : f.state = .waiting p) (e : FetchEvent) :
    (∃ a, e = .other a ∧ f.step e = { f with hub := (f.hub.step a).2 }) ∨
    (∃ now r q, e = .reply now r ∧ q.rank < p.rank ∧ f.step e = { f with state := .waiting q }) ∨
    ∃ now size result, e.other? = none ∧ (isCancelled result = true ↔ e = .cancel now) ∧
      f.step e = f.conclude now size result := by
  cases e with
  | other a => exact Or.inl ⟨a, rfl, by simp only [step]⟩
  | cancel now =>
    refine Or.inr (Or.inr ⟨now, none, .error (.cancelled f.address.id), rfl, ?_, ?_⟩)
    · exact iff_of_true rfl rfl
    · simp only [step, hp]
  | reply now r =>
    cases hs : p.step f.address.id r with
    | going q =>
      exact Or.inr (Or.inl ⟨now, r, q, rfl, Probe.rank_lt_of_step hs, by simp only [step, hp, hs]⟩)
    | ended size result =>
      refine Or.inr (Or.inr ⟨now, size, result, rfl, ?_, by simp only [step, hp, hs]⟩)
      simp [Probe.isCancelled_of_step hs]

@[simp] theorem run_cons (f : Fetch l) (e : FetchEvent) (es : List FetchEvent) :
    f.run (e :: es) = (f.step e).run es := rfl

theorem step_ended (hf : f.state = .ended result) (e : FetchEvent) :
    f.step e = { f with hub := f.hub.run e.other?.toList } := by
  obtain ⟨hub, address, started, state⟩ := f
  cases hf
  cases e <;> rfl

theorem run_ended (hf : f.state = .ended result) (es : List FetchEvent) :
    f.run es = { f with hub := f.hub.run (es.filterMap (·.other?)) } := by
  induction es generalizing f with
  | nil => rfl
  | cons e es ih =>
    rw [run_cons, step_ended hf, ih (f := { f with hub := f.hub.run e.other?.toList }) hf]
    cases e <;> rfl

/-- A fetch still waits, and then nothing was done to the hub but what others did, or one of the
events has ended it, with what others did before and after. -/
theorem run_cases (hp : f.state = .waiting p) (es : List FetchEvent) :
    (∃ q, f.run es = { f with state := .waiting q, hub := f.hub.run (es.filterMap (·.other?)) } ∧
      es.countP (·.isReply) + q.rank ≤ p.rank ∧ ∀ now, .cancel now ∉ es) ∨
    ∃ es₁ e es₂ now size result, es = es₁ ++ e :: es₂ ∧ e.other? = none ∧
      (isCancelled result = true ↔ e = .cancel now) ∧
      f.run es = { f with
        state := .ended result
        hub := (((f.hub.run (es₁.filterMap (·.other?))).step
          (.record f.started now f.address size result)).2).run (es₂.filterMap (·.other?)) } := by
  induction es generalizing f p with
  | nil => exact Or.inl ⟨p, by rw [← hp]; rfl, by simp, by simp⟩
  | cons e es ih =>
    rw [run_cons]
    rcases step_cases hp e with ⟨a, rfl, hs⟩ | ⟨now, r, q, rfl, hlt, hs⟩ |
      ⟨now, size, result, ho, hc, hs⟩
    · rw [hs]
      rcases ih (f := { f with hub := (f.hub.step a).2 }) hp with ⟨q, hrun, hle, hno⟩ |
        ⟨es₁, e, es₂, now, size, result, rfl, ho, hc, hrun⟩
      · refine Or.inl ⟨q, hrun, by simpa [FetchEvent.isReply] using hle, ?_⟩
        simpa using hno
      · exact Or.inr ⟨.other a :: es₁, e, es₂, now, size, result, rfl, ho, hc, hrun⟩
    · rw [hs]
      rcases ih (f := { f with state := .waiting q }) rfl with ⟨q', hrun, hle, hno⟩ |
        ⟨es₁, e, es₂, now', size, result, rfl, ho, hc, hrun⟩
      · refine Or.inl ⟨q', hrun, ?_, by simpa using hno⟩
        rw [List.countP_cons_of_pos rfl]
        omega
      · exact Or.inr ⟨.reply now r :: es₁, e, es₂, now', size, result, rfl, ho, hc, hrun⟩
    · refine Or.inr ⟨[], e, es, now, size, result, rfl, ho, hc, ?_⟩
      rw [hs, run_ended rfl]
      rfl

/-- Whoever drives a probe to its end carries out a fetch. -/
theorem exists_run_drive {σ : Type} (answer : σ → Probe l → Option Reply × σ) (s : σ)
    (hp : f.state = .waiting p) (hpeer : f.address.id = peer) (now : Nat) :
    ∃ es, f.run es = f.conclude now (Probe.drive answer peer p s).1.1
      (Probe.drive answer peer p s).1.2 := by
  fun_induction Probe.drive answer peer p s generalizing f with
  | case1 p s s' hs => exact ⟨[.cancel now], by rw [← hpeer]; simp only [run_cons, step, hp]; rfl⟩
  | case2 p s r s' hs q hstep hlt ih =>
    obtain ⟨es, hes⟩ := ih (f := { f with state := .waiting q }) rfl hpeer
    refine ⟨.reply now r :: es, ?_⟩
    rw [run_cons]
    simp only [step, hp, hpeer, hstep]
    exact hes
  | case3 p s r s' hs size result hstep =>
    exact ⟨[.reply now r], by simp only [run_cons, step, hp, hpeer, hstep]; rfl⟩

end Fetch

structure Finding (result : Except ProbeError Document)
    (found : Option (Bool × Option Document)) : Prop where
  nothing : found = none ↔ ∃ e, result = .error e ∧ e.kind = "cancelled"
  document : ∀ d, found = some (true, some d) ↔ result = .ok d
  unusable : found = some (true, none) ↔ ∃ e, result = .error e ∧ e.kind = "parse"
  unreached : found = some (false, none) ↔ ∃ e, result = .error e ∧
    e.kind ∈ ["connect", "stream_open", "read", "size_exceeded"]

/-- A result says one thing of a peer, and that is what is written down. -/
theorem exists_finding (result : Except ProbeError Document) :
    ∃ found, Finding result found ∧ (found = none ↔ isCancelled result = true) ∧
      ∀ now address, Update.ofResult now address result =
        found.map fun (connected, document) => ⟨now, address, connected, document⟩ := by
  cases result with
  | ok d =>
    have hfound : Finding (.ok d) (some (true, some d)) := by
      constructor <;> simp [eq_comm]
    exact ⟨_, hfound, by simp [isCancelled], fun now address => rfl⟩
  | error e =>
    have hfound : Finding (.error e) (if e.isCancelled then none else some (e.responded, none)) := by
      cases e <;> constructor <;> simp [ProbeError.kind, ProbeError.isCancelled, ProbeError.responded]
    refine ⟨_, hfound, by simp [isCancelled], fun now address => ?_⟩
    simp only [Update.ofResult]
    split_ifs <;> rfl

/-- The store after a probe has ended: what was found is written down once, or nothing is. -/
theorem Hub.store_step_finding {found : Option (Bool × Option Document)} {started : Nat}
    {address : PeerAddress} (hf : Update.ofResult now address result =
      found.map fun (connected, document) => ⟨now, address, connected, document⟩) :
    let after := (h.step (.record started now address size result)).2.store
    after = found.elim h.store (fun (connected, document) =>
        (h.store.upsert now address connected document).2) ∧
      (∀ id, id ≠ address.id → after.get? id = h.store.get? id) ∧
      ∀ connected document, found = some (connected, document) →
        ∃ t, after.get? address.id = some ⟨connected, document, address, t⟩ := by
  intro after
  cases found with
  | none =>
    have hstore : after = h.store := store_step_record hf
    exact ⟨hstore, fun id hid => by rw [hstore], by simp⟩
  | some c =>
    obtain ⟨connected, document⟩ := c
    have hu : (Act.record started now address size result).update? =
        some ⟨now, address, connected, document⟩ := hf
    have hes : after.entries = Update.write h.store.entries ⟨now, address, connected, document⟩ :=
      entries_step_update hu
    refine ⟨store_step_update hu, fun id hid => ?_, ?_⟩
    · simp only [Store.get?, hes, Update.write, lookup_assign_ne hid]
    · rintro _ _ ⟨rfl, rfl⟩
      exact ⟨_, by simp only [Store.get?, hes, Update.write, lookup_assign_self]; rfl⟩

def Act.IsUpsert (a : Act) : Prop := ∃ u, a = .upsert u

def Entry.Current (e : Entry) : Prop := e.connected = false → e.document = none

theorem Update.document_of_ofResult {address : PeerAddress}
    (hu : Update.ofResult now address result = some u) (hc : u.connected = false) :
    u.document = none := by
  cases result with
  | ok d =>
    cases hu
    cases hc
  | error e =>
    simp only [Update.ofResult] at hu
    split_ifs at hu
    cases hu
    rfl

namespace Hub

theorem current_step (ha : ¬ a.IsUpsert) (hc : ∀ e ∈ h.store.entries, e.2.Current) :
    ∀ e ∈ (h.step a).2.store.entries, e.2.Current := by
  cases hu : a.update? with
  | none => rwa [entries_step_of_no_update hu]
  | some u =>
    intro e he
    rw [entries_step_update hu] at he
    rcases eq_or_mem_of_mem_assign he with rfl | he
    · cases a with
      | record started now address size result => exact Update.document_of_ofResult hu
      | upsert u => exact absurd ⟨u, rfl⟩ ha
      | _ => cases hu
    · exact hc e he

theorem current_run (ha : ∀ a ∈ as, ¬ a.IsUpsert) (hc : ∀ e ∈ h.store.entries, e.2.Current) :
    ∀ e ∈ (h.run as).store.entries, e.2.Current := by
  induction as generalizing h with
  | nil => exact hc
  | cons a as ih =>
    obtain ⟨ha, has⟩ := List.forall_mem_cons.1 ha
    exact ih has (current_step ha hc)

end Hub

def Move.act? : Move → Option Act
  | .start => none
  | .finish c started now size result => some (.record started now c.address size result)
  | .other a => some a

/-- The hub of a round is asked what the moves ask of it. -/
theorem Round.hub_run {p : DiscoveryPolicy} (hr : r.run p ms = some r') :
    r'.hub = r.hub.run (ms.filterMap (·.act?)) := by
  induction ms generalizing r with
  | nil =>
    cases hr
    rfl
  | cons m ms ih =>
    obtain ⟨r₁, hm, hr⟩ := Option.bind_eq_some_iff.1 hr
    rw [ih hr]
    cases m with
    | start =>
      obtain ⟨⟨c, pass⟩, -, rfl⟩ := Option.map_eq_some_iff.1 hm
      rfl
    | finish c started now size result =>
      simp only [move] at hm
      split_ifs at hm
      cases hm
      rfl
    | other a =>
      cases hm
      rfl

theorem Round.not_isUpsert (hms : ∀ a, .other a ∈ ms → ¬ a.IsUpsert) :
    ∀ a ∈ ms.filterMap (·.act?), ¬ a.IsUpsert := by
  intro a ha
  obtain ⟨m, hm, hact⟩ := List.mem_filterMap.1 ha
  cases m with
  | start => cases hact
  | finish c started now size result =>
    cases hact
    rintro ⟨u, hu⟩
    cases hu
  | other a' =>
    cases hact
    exact hms a hm

theorem FetchEvent.not_isUpsert (hes : ∀ a, .other a ∈ es → ¬ a.IsUpsert) :
    ∀ a ∈ es.filterMap (·.other?), ¬ a.IsUpsert := by
  intro a ha
  obtain ⟨e, he, hother⟩ := List.mem_filterMap.1 ha
  cases e <;> cases hother
  exact hes a he

theorem Fetch.current_run (hp : f.state = .waiting p) (hes : ∀ a, .other a ∈ es → ¬ a.IsUpsert)
    (hc : ∀ e ∈ f.hub.store.entries, e.2.Current) :
    ∀ e ∈ (f.run es).hub.store.entries, e.2.Current := by
  rcases run_cases hp es with ⟨q, hrun, -⟩ | ⟨es₁, e, es₂, now, size, result, rfl, -, -, hrun⟩
  · rw [hrun]
    exact Hub.current_run (FetchEvent.not_isUpsert hes) hc
  · have h₁ : ∀ e ∈ (f.hub.run (es₁.filterMap (·.other?))).store.entries, e.2.Current :=
      Hub.current_run (FetchEvent.not_isUpsert fun a ha => hes a (by simp [ha])) hc
    rw [hrun]
    refine Hub.current_run (FetchEvent.not_isUpsert fun a ha => hes a (by simp [ha])) ?_
    refine Hub.current_step ?_ h₁
    rintro ⟨u, hu⟩
    cases hu

/-- The hubs that fetches, bootstraps and ticks get to, whatever else is asked meanwhile, but for
entries that nobody has probed. -/
inductive Explored : Hub → Prop
  | start (p : NotifyPolicy) : Explored (.start p)
  | fetch {h : Hub} (l : FetchLimits) (address : PeerAddress) (started : Nat)
      (es : List FetchEvent) (before : Explored h) (probed : ∀ a, .other a ∈ es → ¬ a.IsUpsert) :
      Explored ((Fetch.start l h address started).run es).hub
  | bootstrap {h : Hub} (p : DiscoveryPolicy) (seeds : List PeerAddress) (ms : List Move)
      {r : Round} (before : Explored h) (probed : ∀ a, .other a ∈ ms → ¬ a.IsUpsert)
      (run : (Round.ofSeeds p h seeds).run p ms = some r) : Explored r.hub
  | tick {h : Hub} (p : DiscoveryPolicy) (now : Nat) (ms : List Move) {r : Round}
      (before : Explored h) (probed : ∀ a, .other a ∈ ms → ¬ a.IsUpsert)
      (run : (Round.ofStore p h now).run p ms = some r) : Explored r.hub

theorem Explored.current (hx : Explored h) : ∀ e ∈ h.store.entries, e.2.Current := by
  induction hx with
  | start p =>
    intro e he
    cases he
  | fetch l address started es before probed ih => exact Fetch.current_run rfl probed ih
  | bootstrap p seeds ms before probed run ih =>
    rw [Round.hub_run run]
    exact Hub.current_run (Round.not_isUpsert probed) ih
  | tick p now ms before probed run ih =>
    rw [Round.hub_run run]
    exact Hub.current_run (Round.not_isUpsert probed) ih

namespace Candidate

theorem mem_of_mem_distinct {c : Candidate} {cs : List Candidate} (hc : c ∈ distinct cs) :
    c ∈ cs := by
  induction cs with
  | nil => exact hc
  | cons d cs ih =>
    rcases List.mem_cons.1 hc with rfl | hc
    · exact List.mem_cons_self
    · exact List.mem_cons_of_mem _ (ih (List.mem_filter.1 hc).1)

/-- A candidate that was advertised was advertised by a document in the store. -/
theorem exists_advert {c : Candidate} {s : Store} {localPeer : Option PeerId} {refreshMs now : Nat}
    (hc : c ∈ plan localPeer (ofStore s refreshMs now)) (ho : c.origin = .advertised) :
    ∃ e ∈ s.entries, ∃ d, e.2.document = some d ∧
      ∃ ad ∈ d.adverts, ad.address? = some c.address := by
  have hc := (List.mem_filter.1 (mem_of_mem_distinct hc)).1
  rcases List.mem_append.1 hc with hc | hc
  · obtain ⟨a, -, rfl⟩ := List.mem_map.1 hc
    cases ho
  · obtain ⟨a, ha, rfl⟩ := List.mem_map.1 hc
    obtain ⟨ad, had, ha⟩ := List.mem_filterMap.1 ha
    obtain ⟨d, hd, had⟩ := List.mem_flatMap.1 had
    obtain ⟨e, he, hd⟩ := List.mem_filterMap.1 hd
    exact ⟨e, he, d, hd, ad, had, ha⟩

end Candidate

/-- A fetch ends when it is cancelled and within so many replies otherwise. All that it does is to
write down once, under the address that it was given, what its result says; if it was cancelled
nothing is changed. To drive a probe is to fetch. So whatever is fetched, nobody who was not reached
last has a document, and all that is advertised is advertised by peers that were reached. -/
theorem fetch_writes_once :
    (∀ (l : FetchLimits) (h : Hub) (address : PeerAddress) (started : Nat)
      (es : List FetchEvent),
      let others (es : List FetchEvent) : List Act := es.filterMap (·.other?)
      let f := (Fetch.start l h address started).run es
      (∃ p, f.state = .waiting p ∧ f.hub = h.run (others es) ∧ (∀ now, .cancel now ∉ es) ∧
        es.countP (·.isReply) ≤ l.maxBytes + l.chunk + 3) ∨
      ∃ es₁ e es₂ now size result found, es = es₁ ++ e :: es₂ ∧ e.other? = none ∧
        f.state = .ended result ∧ Finding result found ∧ (found = none ↔ e = .cancel now) ∧
        let before := h.run (others es₁)
        let after := (before.step (.record started now address size result)).2
        f.hub = after.run (others es₂) ∧
        after.store = found.elim before.store (fun (connected, document) =>
          (before.store.upsert now address connected document).2) ∧
        (∀ id, id ≠ address.id → after.store.get? id = before.store.get? id) ∧
        ∀ connected document, found = some (connected, document) →
          ∃ t, after.store.get? address.id = some ⟨connected, document, address, t⟩) ∧
    (∀ (l : FetchLimits) (σ : Type) (answer : σ → Probe l → Option Reply × σ) (s : σ) (h : Hub)
      (address : PeerAddress) (started now : Nat),
      let (size, result) := (Probe.drive answer address.id .asking s).1
      ∃ es, (Fetch.start l h address started).run es =
        (Fetch.start l h address started).conclude now size result) ∧
    ∀ h, Explored h →
      (∀ id e, (id, e) ∈ h.store.entries → e.connected = false → e.document = none) ∧
      ∀ p now c, c ∈ (Round.ofStore p h now).pass.waiting → c.origin = .advertised →
        ∃ id e d, (id, e) ∈ h.store.entries ∧ e.connected = true ∧ e.document = some d ∧
          ∃ ad ∈ d.adverts, ad.address? = some c.address := by
  refine ⟨fun l h address started es => ?_, fun l σ answer s h address started now =>
    Fetch.exists_run_drive answer s rfl rfl now, fun h hx => ⟨fun id e he => hx.current _ he, ?_⟩⟩
  · intro others f
    rcases Fetch.run_cases (f := Fetch.start l h address started) rfl es with
      ⟨q, hrun, hle, hno⟩ | ⟨es₁, e, es₂, now, size, result, hes, ho, hc, hrun⟩
    · refine Or.inl ⟨q, congrArg Fetch.state hrun, congrArg Fetch.hub hrun, hno, ?_⟩
      simp only [Probe.rank] at hle
      omega
    · obtain ⟨found, hfound, hnone, hof⟩ := exists_finding result
      exact Or.inr ⟨es₁, e, es₂, now, size, result, found, hes, ho, congrArg Fetch.state hrun,
        hfound, hnone.trans hc, congrArg Fetch.hub hrun, Hub.store_step_finding (hof now address)⟩
  · intro p now c hc ho
    obtain ⟨⟨id, e⟩, he, d, hd, had⟩ := Candidate.exists_advert hc ho
    refine ⟨id, e, d, he, ?_, hd, had⟩
    cases hconn : e.connected with
    | true => rfl
    | false =>
      rw [hx.current _ he hconn] at hd
      cases hd

/-- The seed advertises a peer and then cannot be connected to: its document goes, and with it what
it advertised. -/
theorem fetch_writes_once_unreached :
    let seed : PeerAddress := ⟨⟨"A", by decide, by decide⟩, []⟩
    let doc : Document := { Document.empty with adverts := [⟨"b", "B", 8302⟩] }
    let h₁ := ((Hub.start {}).run [.record 0 1 seed none (.ok doc)])
    let f := (Fetch.start {} h₁ seed 2).run
      [.reply 2 (.connected false), .other .subscribe, .reply 3 (.failed "refused")]
    let c : Candidate := ⟨⟨⟨"B", by decide, by decide⟩, [⟨.dns "b", 8302⟩]⟩, .advertised⟩
    Explored h₁ ∧ c ∈ (Round.ofStore {} h₁ 2).pass.waiting ∧
      (∃ id e d, (id, e) ∈ h₁.store.entries ∧ e.connected = true ∧ e.document = some d ∧
        ∃ ad ∈ d.adverts, ad.address? = some c.address) ∧
      Explored f.hub ∧ f.hub.store.entries = [(seed.id, ⟨false, none, seed, 3⟩)] ∧
      ∀ id e, (id, e) ∈ f.hub.store.entries → e.connected = false → e.document = none := by
  intro seed doc h₁ f c
  have hx₁ : Explored h₁ :=
    .bootstrap {} [seed] [.start, .finish ⟨seed, .advertised⟩ 0 1 none (.ok doc)]
      (r := ⟨h₁, ⟨[], [], ⟨0, 1, 0⟩⟩⟩) (.start {}) (by simp) rfl
  have hx : Explored f.hub := by
    refine .fetch {} seed 2 _ hx₁ fun a ha => ?_
    obtain rfl : a = .subscribe := by simpa using ha
    rintro ⟨u, hu⟩
    cases hu
  have hc : c ∈ (Round.ofStore {} h₁ 2).pass.waiting := by
    have hp : (Round.ofStore {} h₁ 2).pass.waiting = [c] := rfl
    rw [hp]
    exact List.mem_cons_self
  exact ⟨hx₁, hc, (fetch_writes_once.2.2 h₁ hx₁).2 {} 2 c hc rfl, hx, rfl,
    (fetch_writes_once.2.2 f.hub hx).1⟩

end PeerWatch
