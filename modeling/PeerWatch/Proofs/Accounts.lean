import PeerWatch.Discovery.Process
import PeerWatch.Proofs.Entries
import PeerWatch.Proofs.Hub

/-! The metrics of a process agree with its state. Whoever is registered still receives, so that an
update is either queued for him or dropped, and gauges that an operation does not touch are right as
they are. Every operation keeps the accounts, and so does all that happens in a process, where probes
are recorded with the size of a response if and only if they have read one. -/
namespace PeerWatch
variable {s : Subscriber} {r : Registry} {v : View} {p : NotifyPolicy} {id : Nat} {m : Monitor}
  {h : Hub} {a : Act} {P : Process} {e : Happening} {es : List Happening}

namespace Registry

def Attended (r : Registry) : Prop :=
  ∀ s ∈ r.subscribers, s.registered = true → s.receiving = true

theorem Attended.modify (h : r.Attended) (f : Subscriber → Subscriber)
    (hf : ∀ s ∈ r.subscribers, (f s).registered = true → (f s).receiving = true) :
    (r.modify id f).Attended := by
  intro s hs
  obtain ⟨t, ht, rfl⟩ := List.mem_map.1 hs
  split_ifs
  · exact hf t ht
  · exact h t ht

theorem Attended.clear (h : r.Attended) : (r.clear id).2.Attended :=
  h.modify _ fun _ _ hs => Bool.noConfusion hs

theorem Attended.release (h : r.Attended) : (r.release id).2.Attended := by
  intro s hs
  obtain ⟨t, ht, rfl⟩ := List.mem_map.1 hs
  obtain ⟨u, hu, rfl⟩ := List.mem_map.1 ht
  by_cases hid : u.id = id
  · simp [hid]
  · simpa [hid] using h u hu

theorem Attended.receive (h : r.Attended) : (r.receive id).2.Attended := by
  unfold Registry.receive
  split
  · exact h
  · split
    · exact h.modify _ h
    · exact h

theorem Attended.register (h : r.Attended) : r.register.2.Attended := by
  intro s hs
  unfold Registry.register at hs
  dsimp only at hs
  split_ifs at hs
  · exact h s (List.mem_filter.1 hs).1
  · rcases List.mem_append.1 hs with hs | hs
    · exact h s (List.mem_filter.1 hs).1
    · rw [List.mem_singleton.1 hs]
      exact fun _ => rfl

/-- What becomes of an update that is offered to one who receives if he is registered. -/
theorem offer_cases (hs : s.registered = true → s.receiving = true) :
    (s.registered = false ∧ s.offer p v = (.absent, s)) ∨
      s.registered = true ∧ (s.offer p v).2.receiving = true ∧
        (((s.offer p v).1 = .delivered ∨ (s.offer p v).1 = .dropped) ∧
            (s.offer p v).2.registered = true ∨
          (s.offer p v).1 = .evicted ∧ (s.offer p v).2.registered = false) := by
  cases hreg : s.registered with
  | false => simp [Subscriber.offer, hreg]
  | true =>
    refine Or.inr ⟨rfl, by simp [hs hreg], ?_⟩
    simp only [Subscriber.offer, hreg, hs hreg]
    split_ifs <;> simp_all

theorem Attended.publish (h : r.Attended) : (r.publish v).2.Attended := by
  intro s hs
  simp only [Registry.publish, List.map_map, List.mem_map] at hs
  obtain ⟨t, ht, rfl⟩ := hs
  rcases offer_cases (p := r.policy) (v := v) (h t ht) with ⟨hreg, ho⟩ | ⟨-, hrec, -⟩
  · simp [Function.comp_apply, ho, hreg]
  · exact fun _ => hrec

def countOffers (p : NotifyPolicy) (v : View) (subscribers : List Subscriber) (o : Offer) : Nat :=
  subscribers.countP fun s => decide ((s.offer p v).1 = o)

theorem countOffers_spec (subscribers : List Subscriber)
    (h : ∀ s ∈ subscribers, s.registered = true → s.receiving = true) :
    let count := countOffers p v subscribers
    count .delivered + (count .dropped + count .evicted) = subscribers.countP (·.registered) ∧
      (subscribers.countP fun s => (s.offer p v).2.registered) + count .evicted =
        subscribers.countP (·.registered) ∧ count .closed = 0 := by
  induction subscribers with
  | nil => exact ⟨rfl, rfl, rfl⟩
  | cons s subscribers ih =>
    obtain ⟨hs, h⟩ := List.forall_mem_cons.1 h
    have ih := ih h
    simp only [countOffers, List.countP_cons] at ih ⊢
    rcases offer_cases (p := p) (v := v) hs with
      ⟨hreg, ho⟩ | ⟨hreg, -, ⟨ho | ho, hreg'⟩ | ⟨ho, hreg'⟩⟩
    · simpa [ho, hreg] using ih
    all_goals
      simp only [ho, hreg, hreg', decide_true, if_true, reduceCtorEq, decide_false,
        Bool.false_eq_true, if_false]
      omega

/-- Every update is queued for a subscriber who is registered, or dropped; who is evicted has
dropped it too, and nobody else is removed. -/
theorem Attended.publish_spec (h : r.Attended) :
    let report := (r.publish v).1
    report.delivered + report.dropped = r.active ∧
      (r.publish v).2.active + report.evicted = r.active ∧
      report.evicted ≤ report.dropped ∧ report.removed = decide (0 < report.evicted) := by
  obtain ⟨hsum, hactive, hclosed⟩ := countOffers_spec (p := r.policy) (v := v) r.subscribers h
  have hcount (o : Offer) : (r.subscribers.map (·.offer r.policy v)).countP (·.1 = o) =
      countOffers r.policy v r.subscribers o := by
    rw [List.countP_map]
    rfl
  simp only [Registry.publish, active, hcount, hclosed, List.map_map, List.countP_map]
  exact ⟨hsum, hactive, Nat.le_add_left .., rfl⟩

/-- Those who no longer receive are forgotten; they were not registered. -/
theorem Attended.active_register (h : r.Attended) :
    r.register.2.active = r.active + if r.register.1 = none then 0 else 1 := by
  have hkept : (r.subscribers.filter (·.receiving)).countP (·.registered) = r.active := by
    rw [List.countP_filter]
    refine List.countP_congr fun s hs => ?_
    simpa using h s hs
  unfold Registry.register
  dsimp only
  split_ifs with hfull hnone hnone
  · exact hkept
  · exact absurd rfl hnone
  · cases hnone
  · simp only [active, List.countP_append]
    exact congrArg (· + 1) hkept

theorem active_modify (f : Subscriber → Subscriber)
    (hf : ∀ s ∈ r.subscribers, s.id = id → (f s).registered = s.registered) :
    (r.modify id f).active = r.active := by
  simp only [active, modify, List.countP_map]
  refine List.countP_congr fun s hs => ?_
  rw [Function.comp_apply]
  split_ifs with hid
  · rw [hf s hs hid]
  · rfl

theorem active_receive : (r.receive id).2.active = r.active := by
  unfold receive
  split
  · rfl
  · split
    · exact active_modify _ fun _ _ _ => rfl
    · rfl

/-- Unless somebody is removed, as many are registered as before. -/
theorem active_clear (h : (r.clear id).1 = false) : (r.clear id).2.active = r.active := by
  refine active_modify _ fun s hs hid => ?_
  have hno : ¬(s.id = id ∧ s.registered = true) := by
    simpa using List.any_eq_false.1 h s hs
  cases hreg : s.registered with
  | false => rfl
  | true => exact absurd ⟨hid, hreg⟩ hno

theorem active_release : (r.release id).2.active = (r.clear id).2.active :=
  active_modify _ fun _ _ _ => rfl

end Registry

namespace Metrics
variable {metrics : Metrics} {label : String} {secs : Float}

def probedBut (m : Metrics) (outcome : String) : Nat :=
  m.probes.foldr (fun (o, n) total => if o = outcome then total else n + total) 0

theorem probedBut_observeProbe (outcome : String) :
    (metrics.observeProbe label secs).probedBut outcome =
      metrics.probedBut outcome + if label = outcome then 0 else 1 := by
  simp only [probedBut, observeProbe, probed]
  induction metrics.probes with
  | nil => simp [assign]
  | cons x xs ih =>
    obtain ⟨o, n⟩ := x
    by_cases ho : o = label
    · subst ho
      simp only [assign, if_true, List.lookup_cons_self, Option.getD_some, List.foldr_cons]
      split_ifs <;> omega
    · simp only [assign, if_neg ho, lookup_cons_ne (Ne.symm ho), List.foldr_cons, ih]
      split_ifs <;> omega

theorem probed_observeProbe (outcome : String) : (metrics.observeProbe label secs).probed outcome =
    metrics.probed outcome + if label = outcome then 1 else 0 := by
  by_cases ho : label = outcome
  · subst ho
    simp [probed, observeProbe, lookup_assign_self]
  · simp [probed, observeProbe, lookup_assign_ne (Ne.symm ho), ho]

def Timed (m : Metrics) : Prop :=
  ∀ outcome, (m.latency.lookup outcome).map Histogram.count = m.probes.lookup outcome

theorem Timed.observeProbe (h : metrics.Timed) : (metrics.observeProbe label secs).Timed := by
  intro outcome
  by_cases ho : outcome = label
  · subst ho
    have hcount : ((metrics.latency.lookup outcome).getD (.ofBounds latencyBounds)).count =
        metrics.probed outcome := by
      rw [probed, ← h outcome]
      cases metrics.latency.lookup outcome <;> rfl
    simp [Metrics.observeProbe, lookup_assign_self, Histogram.observe, hcount]
  · simpa [Metrics.observeProbe, lookup_assign_ne ho] using h outcome

def responded (m : Metrics) : Nat := m.probed "ok" + m.probed "parse"

theorem responded_observeProbe (metrics : Metrics) (label : String) (secs : Float) :
    (metrics.observeProbe label secs).responded =
      metrics.responded + if label = "ok" ∨ label = "parse" then 1 else 0 := by
  simp only [responded, probed_observeProbe]
  by_cases hok : label = "ok"
  · subst hok
    simp only [if_true, true_or, String.reduceEq, if_false]
    omega
  · simp only [hok, if_false, false_or]
    omega

theorem countUpdate_eq (report : PublishReport) (s : Store) : metrics.countUpdate report s =
    { metrics with
      subscribers := if report.removed then s.registry.active else metrics.subscribers
      sent := metrics.sent + report.delivered
      dropped := metrics.dropped + report.dropped
      evicted := metrics.evicted + report.evicted
      peersKnown := s.size
      peersConnected := s.connectedCount } := by
  unfold countUpdate
  cases report.removed <;> rfl

end Metrics

namespace Monitor

/-- The gauges are right, and who was evicted has dropped an update before. -/
structure Gauged (m : Monitor) : Prop where
  attended : m.store.registry.Attended
  known : m.metrics.peersKnown = m.store.size
  connected : m.metrics.peersConnected = m.store.connectedCount
  subscribers : m.metrics.subscribers = m.store.registry.active
  evicted : m.metrics.evicted ≤ m.metrics.dropped

theorem Gauged.upsert (hm : m.Gauged) (u : Update) :
    (m.upsert u.now u.address u.connected u.document).Gauged := by
  obtain ⟨-, hactive, hle, hremoved⟩ := hm.attended.publish_spec (v := u.view)
  refine ⟨hm.attended.publish, ?_, ?_, ?_, ?_⟩ <;> simp only [Monitor.upsert, Metrics.countUpdate_eq]
  · change (if (m.store.registry.publish u.view).1.removed then
      (m.store.registry.publish u.view).2.active else m.metrics.subscribers) =
        (m.store.registry.publish u.view).2.active
    rw [hremoved, hm.subscribers]
    split_ifs with hevicted
    · rfl
    · have hnone : (m.store.registry.publish u.view).1.evicted = 0 := by simpa using hevicted
      omega
  · exact Nat.add_le_add hm.evicted hle

/-- Everybody who is registered is sent an update or drops it. -/
theorem Gauged.offered_upsert (hm : m.Gauged) (u : Update) :
    let m' := m.upsert u.now u.address u.connected u.document
    m'.metrics.sent + m'.metrics.dropped =
      m.metrics.sent + m.metrics.dropped + m.store.registry.active := by
  obtain ⟨hsum, -, -, -⟩ := hm.attended.publish_spec (v := u.view)
  simp only [Monitor.upsert, Metrics.countUpdate_eq]
  change m.metrics.sent + (m.store.registry.publish u.view).1.delivered +
    (m.metrics.dropped + (m.store.registry.publish u.view).1.dropped) = _
  omega

theorem Gauged.subscribe (hm : m.Gauged) : m.subscribe.2.Gauged := by
  have hattended := hm.attended.register
  have hactive := hm.attended.active_register
  unfold Monitor.subscribe Store.subscribe
  cases hreg : m.store.registry.register with
  | mk id? r =>
    rw [hreg] at hattended hactive
    cases id? with
    | none => exact ⟨hattended, hm.known, hm.connected, hm.subscribers.trans hactive.symm, hm.evicted⟩
    | some id => exact ⟨hattended, hm.known, hm.connected, rfl, hm.evicted⟩

theorem Gauged.withRegistry (hm : m.Gauged) {removed : Bool} (hr : r.Attended)
    (hactive : removed = false → r.active = m.store.registry.active) :
    (m.withRegistry removed r).Gauged := by
  cases removed with
  | true => exact ⟨hr, hm.known, hm.connected, rfl, hm.evicted⟩
  | false =>
    exact ⟨hr, hm.known, hm.connected, hm.subscribers.trans (hactive rfl).symm, hm.evicted⟩

theorem Gauged.clear (hm : m.Gauged) : (m.clear id).2.Gauged :=
  hm.withRegistry hm.attended.clear Registry.active_clear

theorem Gauged.release (hm : m.Gauged) : (m.release id).Gauged :=
  hm.withRegistry hm.attended.release fun h =>
    Registry.active_release.trans (Registry.active_clear h)

theorem Gauged.receive (hm : m.Gauged) : (m.receive id).2.Gauged :=
  hm.withRegistry hm.attended.receive fun _ => Registry.active_receive

def counting (m : Monitor) (f : Metrics → Metrics) : Monitor := { m with metrics := f m.metrics }

def write (m : Monitor) (u? : Option Update) : Monitor :=
  u?.elim m fun u => m.upsert u.now u.address u.connected u.document

theorem record_eq (m : Monitor) (started now : Nat) (address : PeerAddress)
    (result : Except ProbeError Document) : m.record started now address result =
      (m.write (Update.ofResult now address result)).counting
        (·.observeProbe (outcomeLabel result) (seconds (now - started))) := by
  cases result with
  | ok d => rfl
  | error e =>
    simp only [record, Store.record, Update.ofResult]
    split_ifs <;> rfl

def sized (m : Monitor) (size : Option Nat) : Monitor :=
  m.counting fun metrics => size.elim metrics metrics.observeResponse

theorem counts_sized (m : Monitor) (size : Option Nat) :
    (m.sized size).metrics.probes = m.metrics.probes ∧
      (m.sized size).metrics.latency = m.metrics.latency ∧
      (m.sized size).metrics.responseBytes.count =
        m.metrics.responseBytes.count + if size.isSome then 1 else 0 := by
  cases size <;> exact ⟨rfl, rfl, rfl⟩

theorem Gauged.sized (hm : m.Gauged) (size : Option Nat) : (m.sized size).Gauged := by
  cases size <;> exact ⟨hm.attended, hm.known, hm.connected, hm.subscribers, hm.evicted⟩

/-- A probe is recorded with the size of its response, with what it says of the peer, and with its
outcome. -/
theorem recordProbe_eq (m : Monitor) (started now : Nat) (address : PeerAddress)
    (size : Option Nat) (result : Except ProbeError Document) :
    m.recordProbe started now address size result =
      ((m.sized size).write (Update.ofResult now address result)).counting
        (·.observeProbe (outcomeLabel result) (seconds (now - started))) := by
  rw [← record_eq]
  cases size <;> rfl

theorem Gauged.write (hm : m.Gauged) (u? : Option Update) : (m.write u?).Gauged := by
  cases u? with
  | none => exact hm
  | some u => exact hm.upsert u

theorem Gauged.offered_write (hm : m.Gauged) (u? : Option Update) :
    (m.write u?).metrics.sent + (m.write u?).metrics.dropped = m.metrics.sent +
      m.metrics.dropped + if u?.isSome then m.store.registry.active else 0 := by
  cases u? with
  | none => rfl
  | some u => exact hm.offered_upsert u

/-- Of the probes nothing is counted when an update is written down. -/
theorem counts_write (m : Monitor) (u? : Option Update) :
    (m.write u?).metrics.probes = m.metrics.probes ∧
      (m.write u?).metrics.latency = m.metrics.latency ∧
      (m.write u?).metrics.responseBytes = m.metrics.responseBytes := by
  cases u? with
  | none => exact ⟨rfl, rfl, rfl⟩
  | some u =>
    simp only [write, Option.elim_some, upsert, Metrics.countUpdate_eq, and_self]

variable {started now : Nat} {address : PeerAddress} {size : Option Nat}
  {result : Except ProbeError Document}

theorem Gauged.recordProbe (hm : m.Gauged) :
    (m.recordProbe started now address size result).Gauged := by
  have hwrite := (hm.sized size).write (Update.ofResult now address result)
  rw [recordProbe_eq]
  exact ⟨hwrite.attended, hwrite.known, hwrite.connected, hwrite.subscribers, hwrite.evicted⟩

theorem Gauged.offered_recordProbe (hm : m.Gauged) :
    let m' := m.recordProbe started now address size result
    m'.metrics.sent + m'.metrics.dropped = m.metrics.sent + m.metrics.dropped +
      if (Update.ofResult now address result).isSome then m.store.registry.active else 0 := by
  have hwrite := (hm.sized size).offered_write (Update.ofResult now address result)
  rw [recordProbe_eq]
  cases size <;> exact hwrite

/-- A probe is counted under its outcome, and its response if it has read one. -/
theorem counts_recordProbe (m : Monitor) (started now : Nat) (address : PeerAddress)
    (size : Option Nat) (result : Except ProbeError Document) :
    let metrics' := (m.recordProbe started now address size result).metrics
    let observed := m.metrics.observeProbe (outcomeLabel result) (seconds (now - started))
    metrics'.probes = observed.probes ∧ metrics'.latency = observed.latency ∧
      metrics'.responseBytes.count =
        m.metrics.responseBytes.count + if size.isSome then 1 else 0 := by
  obtain ⟨hprobes, hlatency, hcount⟩ := m.counts_sized size
  obtain ⟨hprobes', hlatency', hbytes⟩ :=
    (m.sized size).counts_write (Update.ofResult now address result)
  rw [recordProbe_eq]
  simp only [counting, Metrics.observeProbe, Metrics.probed, hprobes', hlatency', hbytes, hprobes,
    hlatency, hcount, and_self]

end Monitor

def Act.IsMeasured (a : Act) : Prop :=
  ∀ started now address size result, a = .record started now address size result →
    (size.isSome = true ↔ outcomeLabel result = "ok" ∨ outcomeLabel result = "parse")

/-- What a probe counts as that was not cancelled. -/
theorem outcomeLabel_eq_cancelled (now : Nat) (address : PeerAddress)
    (result : Except ProbeError Document) :
    outcomeLabel result = "cancelled" ↔ (Update.ofResult now address result).isSome = false := by
  cases result with
  | ok d => simp [outcomeLabel, Update.ofResult]
  | error e => cases e <;> simp [outcomeLabel, Update.ofResult, ProbeError.kind, ProbeError.isCancelled]

namespace Hub

def offersMade (h : Hub) (a : Act) : Nat := if a.update?.isSome then h.registry.active else 0

def fetched (_ : Hub) (a : Act) : Nat := if a.isRecord && a.update?.isSome then 1 else 0

def SameCounts (m m' : Metrics) : Prop := { m with subscribers := m'.subscribers } = m'

/-- What an act does to the metrics: an update or a probe is counted, or nothing but the number of
subscribers changes. -/
theorem monitor_step_cases (h : Hub) (a : Act) :
    (∃ u, a = .upsert u ∧ (h.step a).2.monitor = h.monitor.write (some u)) ∨
    (∃ started now address size result, a = .record started now address size result ∧
      (h.step a).2.monitor = h.monitor.recordProbe started now address size result) ∨
    a.update? = none ∧ a.isRecord = false ∧
      (h.monitor.Gauged → (h.step a).2.monitor.Gauged) ∧
      SameCounts h.monitor.metrics (h.step a).2.monitor.metrics := by
  cases a with
  | upsert u => exact Or.inl ⟨u, rfl, rfl⟩
  | record started now address size result =>
    exact Or.inr (Or.inl ⟨started, now, address, size, result, rfl, rfl⟩)
  | subscribe =>
    refine Or.inr (Or.inr ⟨rfl, rfl, ?_⟩)
    have hmonitor : h.subscribe.2.monitor = h.monitor.subscribe.2 := by
      unfold subscribe
      split <;> simp_all
    refine ⟨fun hm => hmonitor ▸ hm.subscribe, ?_⟩
    change SameCounts _ h.subscribe.2.monitor.metrics
    rw [hmonitor]
    unfold Monitor.subscribe
    split <;> rfl
  | takeSnapshot i =>
    refine Or.inr (Or.inr ⟨rfl, rfl, ?_⟩)
    have hmonitor : (h.takeSnapshot i).2.monitor = h.monitor := by
      unfold takeSnapshot
      split <;> rfl
    change (_ → (h.takeSnapshot i).2.monitor.Gauged) ∧
      SameCounts _ (h.takeSnapshot i).2.monitor.metrics
    rw [hmonitor]
    exact ⟨id, rfl⟩
  | receive i =>
    refine Or.inr (Or.inr ⟨rfl, rfl, ?_⟩)
    change (_ → (h.receive i).2.monitor.Gauged) ∧ SameCounts _ (h.receive i).2.monitor.metrics
    unfold receive
    split_ifs
    · exact ⟨fun hm => hm.receive, rfl⟩
    · exact ⟨id, rfl⟩
  | release i =>
    refine Or.inr (Or.inr ⟨rfl, rfl, ?_⟩)
    change (_ → (h.release i).2.monitor.Gauged) ∧ SameCounts _ (h.release i).2.monitor.metrics
    unfold release
    split_ifs
    · refine ⟨fun hm => hm.release, ?_⟩
      simp only [Monitor.release, Monitor.withRegistry]
      split_ifs <;> rfl
    · exact ⟨id, rfl⟩
  | clear i =>
    refine Or.inr (Or.inr ⟨rfl, rfl, fun hm => hm.clear, ?_⟩)
    simp only [step, Monitor.clear, Monitor.withRegistry]
    split_ifs <;> rfl

theorem gauged_step (hm : h.monitor.Gauged) (a : Act) : (h.step a).2.monitor.Gauged := by
  rcases h.monitor_step_cases a with ⟨u, rfl, ha⟩ | ⟨_, _, _, _, _, rfl, ha⟩ | ⟨-, -, hkept, -⟩
  · exact ha ▸ hm.write _
  · exact ha ▸ hm.recordProbe
  · exact hkept hm

theorem offersMade_step (hm : h.monitor.Gauged) (a : Act) :
    (h.step a).2.monitor.metrics.sent + (h.step a).2.monitor.metrics.dropped =
      h.monitor.metrics.sent + h.monitor.metrics.dropped + h.offersMade a := by
  rcases h.monitor_step_cases a with ⟨u, rfl, ha⟩ | ⟨_, _, _, _, _, rfl, ha⟩ | ⟨hu, -, -, hsame⟩
  · rw [ha]
    exact hm.offered_write _
  · rw [ha]
    exact hm.offered_recordProbe
  · rw [offersMade, hu, ← hsame]
    rfl

theorem fetched_step (h : Hub) (a : Act) :
    (h.step a).2.monitor.metrics.probedBut "cancelled" =
      h.monitor.metrics.probedBut "cancelled" + h.fetched a := by
  rcases h.monitor_step_cases a with ⟨u, rfl, ha⟩ | ⟨started, now, address, size, result, rfl, ha⟩ |
    ⟨-, hr, -, hsame⟩
  · rw [ha, Metrics.probedBut, (h.monitor.counts_write _).1]
    rfl
  · rw [ha, Metrics.probedBut, (h.monitor.counts_recordProbe ..).1]
    refine (Metrics.probedBut_observeProbe "cancelled").trans (congrArg _ ?_)
    have hlabel := outcomeLabel_eq_cancelled now address result
    simp only [fetched, Act.isRecord, Act.update?, Bool.true_and, hlabel]
    cases (Update.ofResult now address result).isSome <;> rfl
  · rw [fetched, hr, ← hsame]
    rfl

structure Probed (m : Metrics) : Prop where
  timed : m.Timed
  responses : m.responseBytes.count = m.responded

theorem probed_step (hp : Probed h.monitor.metrics) (ha : a.IsMeasured) :
    Probed (h.step a).2.monitor.metrics := by
  rcases h.monitor_step_cases a with ⟨u, rfl, hs⟩ | ⟨started, now, address, size, result, rfl, hs⟩ |
    ⟨-, -, -, hsame⟩
  · obtain ⟨hprobes, hlatency, hbytes⟩ := h.monitor.counts_write (some u)
    rw [hs]
    refine ⟨fun outcome => ?_, ?_⟩
    · rw [hprobes, hlatency]
      exact hp.timed outcome
    · simpa only [Metrics.responded, Metrics.probed, hprobes, hbytes] using hp.responses
  · obtain ⟨hprobes, hlatency, hbytes⟩ := h.monitor.counts_recordProbe started now address size result
    rw [hs]
    refine ⟨fun outcome => ?_, ?_⟩
    · rw [hprobes, hlatency]
      exact hp.timed.observeProbe outcome
    · have hresponded := h.monitor.metrics.responded_observeProbe (outcomeLabel result)
        (seconds (now - started))
      have hsame : (h.monitor.recordProbe started now address size result).metrics.responded =
          (h.monitor.metrics.observeProbe (outcomeLabel result)
            (seconds (now - started))).responded := by
        simp only [Metrics.responded, Metrics.probed, hprobes]
      rw [hbytes, hp.responses, hsame, hresponded]
      simp only [ha _ _ _ _ _ rfl]
  · rw [← hsame]
    exact ⟨hp.timed, hp.responses⟩

end Hub

/-- A probe that ends tells the size of a response if and only if its outcome says that it has read
one. -/
theorem Probe.isSome_size_of_step {l : FetchLimits} {q : Probe l} {peer : PeerId} {reply : Reply}
    {size : Option Nat} {result : Except ProbeError Document}
    (h : q.step peer reply = .ended size result) :
    size.isSome = true ↔ outcomeLabel result = "ok" ∨ outcomeLabel result = "parse" := by
  have hread {progress : Progress l} (h : read peer progress = .ended size result) :
      size.isSome = true ↔ outcomeLabel result = "ok" ∨ outcomeLabel result = "parse" := by
    cases progress with
    | more r => cases h
    | done data =>
      cases h
      rw [conclude]
      cases Document.parse? data.toList <;> simp [outcomeLabel, ProbeError.kind]
    | failed fault =>
      cases h
      cases fault <;> simp [outcomeLabel, ReadFault.toProbeError, ProbeError.kind]
  unfold step at h
  split at h
  case h_9 => exact hread h
  case h_10 => exact hread h
  all_goals
    cases h
    try simp [outcomeLabel, ProbeError.kind]

namespace Process

def act? (P : Process) : Happening → Option Act
  | .reply n now r =>
    (P.fetches[n]?).bind fun f =>
      match f.probe.step f.candidate.id r with
      | .going _ => none
      | .ended size result => some (outcome f now size result)
  | .cancel n now =>
    (P.fetches[n]?).map fun f => outcome f now none (.error (.cancelled f.candidate.id))
  | .ask a => some a.1
  | _ => none

def total (count : Hub → Act → Nat) (P : Process) : List Happening → Nat
  | [] => 0
  | e :: es => (P.act? e).elim 0 (count P.hub) + (P.step e).total count es

def Ticked (h h' : Hub) : Prop := ∃ ticks, h' = { h with monitor.metrics.ticks := ticks }

theorem Ticked.refl (h : Hub) : Ticked h h := ⟨h.monitor.metrics.ticks, rfl⟩

theorem ticked_tend (P : Process) (n : Nat) : Ticked P.hub (P.tend n).hub := by
  unfold tend
  split_ifs
  · exact ⟨_, rfl⟩
  · exact .refl _

theorem ticked_conclude (P : Process) (n : Nat) (f : Fetching) (now : Nat) (size : Option Nat)
    (result : Except ProbeError Document) :
    Ticked (P.hub.step (outcome f now size result)).2 (P.conclude n f now size result).hub := by
  unfold conclude
  dsimp only
  split
  · exact .refl _
  · exact ticked_tend _ _

/-- Whatever happens, the hub does what it is asked, and ticks are counted. -/
theorem ticked_step (P : Process) (e : Happening) :
    Ticked ((P.act? e).elim P.hub fun a => (P.hub.step a).2) (P.step e).hub := by
  cases e with
  | fetch l address now => exact .refl _
  | bootstrap p seeds => exact ticked_tend _ _
  | tick p now => exact ticked_tend _ _
  | handOut sweep l now =>
    change Ticked P.hub (P.handOut sweep l now).hub
    unfold handOut
    split
    · exact .refl _
    · split <;> exact .refl _
  | reply n now r =>
    change Ticked _ (P.reply n now r).hub
    unfold reply
    cases hf : P.fetches[n]? with
    | none => simpa [act?, hf] using Ticked.refl _
    | some f =>
      cases hs : f.probe.step f.candidate.id r with
      | going probe => simpa [act?, hf, hs] using Ticked.refl _
      | ended size result => simpa [act?, hf, hs] using P.ticked_conclude n f now size result
  | cancel n now =>
    change Ticked _ (P.cancel n now).hub
    unfold cancel
    cases hf : P.fetches[n]? with
    | none => simpa [act?, hf] using Ticked.refl _
    | some f => simpa [act?, hf] using P.ticked_conclude n f now none _
  | ask a => exact .refl _

/-- What fetches write down is measured, and nobody else writes down what a probe gave. -/
theorem isMeasured_of_act? (ha : P.act? e = some a) : a.IsMeasured := by
  rintro started now address size result rfl
  cases e with
  | reply n now' r =>
    obtain ⟨f, -, hf⟩ := Option.bind_eq_some_iff.1 ha
    split at hf
    · cases hf
    · next hs =>
      cases hf
      exact Probe.isSome_size_of_step hs
  | cancel n now' =>
    obtain ⟨f, -, hf⟩ := Option.map_eq_some_iff.1 ha
    cases hf
    simp [outcomeLabel, ProbeError.kind]
  | ask a =>
    have hrecord := a.2
    rw [Option.some.inj ha] at hrecord
    cases hrecord
  | _ => cases ha

structure Accounts (P : Process) : Prop where
  gauged : P.hub.monitor.Gauged
  probed : Hub.Probed P.hub.monitor.metrics

theorem accounts_start (policy : NotifyPolicy) : (start policy).Accounts :=
  ⟨⟨nofun, rfl, rfl, rfl, Nat.le_refl _⟩, ⟨fun _ => rfl, rfl⟩⟩

theorem Accounts.step (h : P.Accounts) (e : Happening) : (P.step e).Accounts := by
  have hdone : let h' := (P.act? e).elim P.hub fun a => (P.hub.step a).2
      h'.monitor.Gauged ∧ Hub.Probed h'.monitor.metrics := by
    cases ha : P.act? e with
    | none => exact ⟨h.gauged, h.probed⟩
    | some a => exact ⟨Hub.gauged_step h.gauged a, Hub.probed_step h.probed (isMeasured_of_act? ha)⟩
  obtain ⟨ticks, hhub⟩ := P.ticked_step e
  obtain ⟨⟨hattended, hknown, hconnected, hsubscribers, hevicted⟩, htimed, hresponses⟩ := hdone
  constructor
  · rw [hhub]
    exact ⟨hattended, hknown, hconnected, hsubscribers, hevicted⟩
  · rw [hhub]
    exact ⟨htimed, hresponses⟩

theorem Accounts.run (h : P.Accounts) (es : List Happening) : (P.run es).Accounts := by
  induction es generalizing P with
  | nil => exact h
  | cons e es ih => exact ih (h.step e)

/-- What every act adds to a count adds up, in a run, to the total. -/
theorem total_run (measure : Metrics → Nat) (count : Hub → Act → Nat)
    (hticks : ∀ m ticks, measure { m with ticks } = measure m)
    (hstep : ∀ h a, h.monitor.Gauged →
      measure (h.step a).2.monitor.metrics = measure h.monitor.metrics + count h a)
    (hP : P.Accounts) (es : List Happening) :
    measure (P.run es).hub.monitor.metrics = measure P.hub.monitor.metrics + P.total count es := by
  induction es generalizing P with
  | nil => rfl
  | cons e es ih =>
    have hadd : measure (P.step e).hub.monitor.metrics =
        measure P.hub.monitor.metrics + (P.act? e).elim 0 (count P.hub) := by
      obtain ⟨ticks, hhub⟩ := P.ticked_step e
      rw [hhub]
      refine (hticks _ ticks).trans ?_
      cases P.act? e with
      | none => rfl
      | some a => exact hstep _ a hP.gauged
    refine (ih (hP.step e)).trans ?_
    rw [hadd, total, Nat.add_assoc]

end Process

/-- After whatever happens in a process, its metrics agree with its state: the peers known and those
connected, and the subscribers, are as many as the store has; every update was sent to, or dropped
for, each subscriber who was registered then; who was evicted has dropped one; the probes that were
not cancelled are the updates of fetches; every probe has a latency; and the responses are those of
the probes that have read one. -/
theorem metrics_agree_with_state (policy : NotifyPolicy) (es : List Happening) :
    let P := (Process.start policy).run es
    let m := P.hub.monitor.metrics
    m.peersKnown = P.hub.store.size ∧
      m.peersConnected = P.hub.store.connectedCount ∧
      m.subscribers = P.hub.registry.active ∧
      m.sent + m.dropped = (Process.start policy).total Hub.offersMade es ∧
      m.evicted ≤ m.dropped ∧
      m.probedBut "cancelled" = (Process.start policy).total Hub.fetched es ∧
      (∀ outcome, (m.latency.lookup outcome).map Histogram.count = m.probes.lookup outcome) ∧
      m.responseBytes.count = m.probed "ok" + m.probed "parse" := by
  intro P m
  have hstart := Process.accounts_start policy
  obtain ⟨⟨-, hknown, hconnected, hsubscribers, hevicted⟩, htimed, hresponses⟩ := hstart.run es
  have hoffered := Process.total_run (fun m => m.sent + m.dropped) Hub.offersMade
    (fun _ _ => rfl) (fun _ a hm => Hub.offersMade_step hm a) hstart es
  have hfetched := Process.total_run (·.probedBut "cancelled") Hub.fetched
    (fun _ _ => rfl) (fun h a _ => h.fetched_step a) hstart es
  exact ⟨hknown, hconnected, hsubscribers, hoffered.trans (Nat.zero_add _), hevicted,
    hfetched.trans (Nat.zero_add _), htimed, hresponses⟩

/-- A seed is probed twice while somebody subscribes, and then no more: the first probe is cancelled
and the second finds no stream. -/
example :
    let seed : PeerAddress := ⟨⟨"A", by decide, by decide⟩, []⟩
    let es : List Happening := [.ask ⟨.subscribe, rfl⟩, .bootstrap {} [seed], .handOut 0 {} 0,
      .fetch {} seed 0, .reply 1 1 (.connected true), .cancel 0 2, .reply 0 3 (.failed "reset"),
      .ask ⟨.clear 1, rfl⟩]
    let m := ((Process.start {}).run es).hub.monitor.metrics
    (m.probes, m.sent, m.subscribers) = ([("cancelled", 1), ("stream_open", 1)], 1, 0) := rfl

end PeerWatch
