import PeerWatch.Proofs.Hub

/-! Who is registered, after whatever was done. A slot is a subscriber that is registered; it is left
by a clearing, a release, an eviction, or because nobody receives any more, and these may fall upon
one subscriber in any order. There are never more slots than the policy allows, identifiers are
given out in order and once, and whoever left a slot takes nobody else out of one. -/
namespace PeerWatch
variable {r : Registry} {s : Store} {p : NotifyPolicy} {v : View} {i id : Nat}

namespace Registry

def slots (r : Registry) : List Subscriber := r.subscribers.filter (·.registered)

def openSlots (r : Registry) : List Subscriber := r.slots.filter (·.receiving)

theorem ids_openSlots (r : Registry) :
    (r.openSlots.map (·.id)).Sublist (r.slots.map (·.id)) := (List.filter_sublist ..).map _

theorem active_eq (r : Registry) : r.active = r.slots.length := List.countP_eq_length_filter

theorem slots_prune (r : Registry) :
    slots { r with subscribers := r.subscribers.filter (·.receiving) } = r.openSlots := by
  rw [slots, openSlots, slots, List.filter_filter, List.filter_filter]
  exact List.filter_congr fun s _ => Bool.and_comm ..

theorem register_refused (h : r.register.1 = none) :
    r.policy.maxSubscribers ≤ r.openSlots.length ∧ r.register.2.slots = r.openSlots ∧
      r.register.2.nextId = r.nextId := by
  unfold register at h ⊢
  dsimp only at h ⊢
  split_ifs at h ⊢ with hfull
  rw [active_eq, slots_prune] at hfull
  exact ⟨hfull, slots_prune r, rfl⟩

theorem register_granted (h : r.register.1 = some i) :
    r.openSlots.length < r.policy.maxSubscribers ∧ i = r.nextId ∧
      r.register.2.slots = r.openSlots ++ [⟨r.nextId, [], 0, true, true⟩] ∧
      r.register.2.nextId = r.nextId + 1 := by
  unfold register at h ⊢
  dsimp only at h ⊢
  split_ifs at h ⊢ with hfull
  rw [active_eq, slots_prune] at hfull
  refine ⟨Nat.not_le.1 hfull, (Option.some.inj h).symm, ?_, rfl⟩
  rw [← slots_prune, slots, slots, List.filter_append]
  rfl

/-- If there was room for everybody before, nobody has hung up unnoticed. -/
theorem slots_of_refused (hcap : r.slots.length ≤ r.policy.maxSubscribers)
    (h : r.register.1 = none) : r.register.2.slots = r.slots := by
  obtain ⟨hfull, hslots, -⟩ := register_refused h
  rw [hslots]
  exact List.filter_sublist.eq_of_length_le (Nat.le_trans hcap hfull)

theorem isSome_register :
    r.register.1.isSome = true ↔ r.openSlots.length < r.policy.maxSubscribers := by
  cases h : r.register.1 with
  | none => simpa using (register_refused h).1
  | some i => simpa using (register_granted h).1

/-- What registers nobody is done to the slots, and leaves those that it does not remove. -/
theorem filter_map_registered (g : Subscriber → Subscriber)
    (hg : ∀ s, (g s).registered = true → s.registered = true) (ss : List Subscriber) :
    (ss.map g).filter (·.registered) = ((ss.filter (·.registered)).map g).filter (·.registered) := by
  rw [List.filter_map, List.filter_map, List.filter_filter]
  refine congrArg (List.map g) (List.filter_congr fun s _ => ?_)
  cases h : (g s).registered with
  | false => simp [h]
  | true => simp [h, hg s h]

theorem ids_map (g : Subscriber → Subscriber) (hg : ∀ s, (g s).id = s.id) (ss : List Subscriber) :
    (ss.map g).map (·.id) = ss.map (·.id) := by
  rw [List.map_map]
  exact List.map_congr_left fun s _ => hg s

/-- A change that registers nobody and removes nobody changes the slots one by one. -/
theorem slots_modify (f : Subscriber → Subscriber) (hf : ∀ s, (f s).registered = s.registered) :
    (r.modify i f).slots = r.slots.map fun s => if s.id = i then f s else s := by
  have hreg (s : Subscriber) : (if s.id = i then f s else s).registered = s.registered := by
    split_ifs
    · exact hf s
    · rfl
  simp only [slots, modify, List.filter_map, Function.comp_def, hreg]

/-- A change to one subscriber changes nothing where that one is not. -/
theorem map_filter_ne (f : Subscriber → Subscriber) (ss : List Subscriber) :
    (ss.filter (·.id ≠ id)).map (fun s => if s.id = id then f s else s) = ss.filter (·.id ≠ id) := by
  refine (List.map_congr_left fun s hs => ?_).trans (List.map_id _)
  exact if_neg (by simpa using (List.mem_filter.1 hs).2)

theorem clear_eq_true : (r.clear id).1 = true ↔ ∃ s ∈ r.slots, s.id = id := by
  simp only [clear, slots, List.any_eq_true, Bool.and_eq_true, decide_eq_true_eq, List.mem_filter]
  exact exists_congr fun s => by tauto

theorem slots_clear : (r.clear id).2.slots = r.slots.filter (·.id ≠ id) := by
  have hreg : ∀ s ∈ r.slots, s.registered = true := fun s hs => (List.mem_filter.1 hs).2
  change (r.subscribers.map _).filter _ = _
  rw [filter_map_registered, ← slots, List.filter_map]
  · have hfilter : ∀ s ∈ r.slots,
        (if s.id = id then { s with registered := false } else s).registered = decide (s.id ≠ id) := by
      intro s hs
      by_cases h : s.id = id
      · simp [h]
      · simp [h, hreg s hs]
    exact (congrArg (List.map _) (List.filter_congr hfilter)).trans (map_filter_ne _ _)
  · intro s h
    split_ifs at h
    exact h

/-- A release takes one subscriber out of its slot, if it is in one, and does nothing to the rest. -/
theorem slots_release : (r.release id).2.slots = r.slots.filter (·.id ≠ id) := by
  rw [release_eq, hangUp, slots_modify (fun s => { s with receiving := false }) fun _ => rfl,
    slots_clear, map_filter_ne]

theorem ids_modify (f : Subscriber → Subscriber) (hf : ∀ s, (f s).registered = s.registered)
    (hid : ∀ s, (f s).id = s.id) : (r.modify i f).slots.map (·.id) = r.slots.map (·.id) := by
  rw [slots_modify f hf]
  refine ids_map _ (fun s => ?_) _
  split_ifs
  · exact hid s
  · rfl

theorem ids_receive : (r.receive id).2.slots.map (·.id) = r.slots.map (·.id) := by
  unfold receive
  split
  · rfl
  · split
    · exact ids_modify _ (fun _ => rfl) fun _ => rfl
    · rfl

/-- An update registers nobody; who receives no more, or drops too much, leaves its slot. -/
theorem slots_publish : (r.publish v).2.slots =
    (r.slots.map fun s => (s.offer r.policy v).2).filter (·.registered) := by
  change (((r.subscribers.map _).map _).filter _ : List Subscriber) = _
  rw [List.map_map]
  refine filter_map_registered (fun s => (s.offer r.policy v).2) (fun s h => ?_) r.subscribers
  cases hs : s.registered with
  | true => rfl
  | false => simp [Subscriber.offer, hs] at h

theorem gone_iff : r.Gone id ↔ ∀ s ∈ r.slots, s.id ≠ id := by
  constructor
  · intro h s hs hid
    obtain ⟨hmem, hreg⟩ := List.mem_filter.1 hs
    rw [h s hmem hid] at hreg
    cases hreg
  · intro h s hs hid
    cases hreg : s.registered with
    | false => rfl
    | true => exact (h s (List.mem_filter.2 ⟨hs, hreg⟩) hid).elim

/-- What is true of the slots when the identifiers `out` were given out so far, in their order. -/
structure Disciplined (r : Registry) (out : List Nat) : Prop where
  cap : r.slots.length ≤ r.policy.maxSubscribers
  ids : (r.slots.map (·.id)).Sublist out
  inOrder : out = List.range' 1 out.length
  next : r.nextId = out.length + 1

namespace Disciplined
variable {r' : Registry} {out : List Nat}

/-- What gives no identifier out and registers nobody keeps the discipline. -/
theorem of_sublist (h : r.Disciplined out)
    (hs : (r'.slots.map (·.id)).Sublist (r.slots.map (·.id)))
    (hn : r'.nextId = r.nextId) (hp : r'.policy = r.policy) : r'.Disciplined out := by
  have hlen := hs.length_le
  rw [List.length_map, List.length_map] at hlen
  exact ⟨hp ▸ Nat.le_trans hlen h.cap, hs.trans h.ids, h.inOrder, hn.trans h.next⟩

theorem register (h : r.Disciplined out) :
    r.register.2.Disciplined (out ++ r.register.1.toList) := by
  cases hr : r.register.1 with
  | none =>
    obtain ⟨-, hslots, hnext⟩ := register_refused hr
    rw [Option.toList_none, List.append_nil]
    exact h.of_sublist (hslots ▸ ids_openSlots r) hnext register_policy
  | some i =>
    obtain ⟨hroom, rfl, hslots, hnext⟩ := register_granted hr
    refine ⟨?_, ?_, ?_, ?_⟩
    · rw [hslots, register_policy, List.length_append, List.length_singleton]
      exact hroom
    · rw [hslots, List.map_append]
      exact ((ids_openSlots r).trans h.ids).append (List.Sublist.refl _)
    · rw [Option.toList_some, List.length_append, List.length_singleton, List.range'_1_concat,
        ← h.inOrder, h.next, Nat.add_comm]
    · rw [hnext, h.next, Option.toList_some, List.length_append, List.length_singleton]

theorem publish (h : r.Disciplined out) : (r.publish v).2.Disciplined out := by
  refine h.of_sublist ?_ rfl rfl
  rw [slots_publish, ← ids_map (fun s => (s.offer r.policy v).2) (fun _ => Subscriber.offer_id)
    r.slots]
  exact (List.filter_sublist ..).map _

theorem receive (h : r.Disciplined out) : (r.receive i).2.Disciplined out :=
  h.of_sublist (by rw [ids_receive]) nextId_receive receive_policy

theorem hangUp (h : r.Disciplined out) : (r.hangUp i).Disciplined out := by
  refine h.of_sublist ?_ rfl rfl
  rw [Registry.hangUp, ids_modify (fun s => { s with receiving := false }) (fun _ => rfl)
    fun _ => rfl]

theorem clear (h : r.Disciplined out) : (r.clear i).2.Disciplined out := by
  refine h.of_sublist ?_ rfl rfl
  rw [slots_clear]
  exact (List.filter_sublist ..).map _

theorem release (h : r.Disciplined out) : (r.release i).2.Disciplined out := h.clear.hangUp

theorem nodup_out (h : r.Disciplined out) : out.Nodup := by
  rw [h.inOrder]
  exact List.nodup_range'

theorem nodup_ids (h : r.Disciplined out) : (r.slots.map (·.id)).Nodup := h.ids.nodup h.nodup_out

theorem lt_next (h : r.Disciplined out) (hi : i ∈ out) : i < r.nextId := by
  rw [h.inOrder, List.mem_range'_1] at hi
  rw [h.next]
  omega

end Disciplined
end Registry

namespace Store

/-- What can be done to a store and to its subscribers. Whoever hangs up does not say so: that
nobody receives is found out later. -/
inductive Deed
  | upsert (u : Update)
  | subscribe
  | receive (id : Nat)
  | hangUp (id : Nat)
  | release (id : Nat)
  | clear (id : Nat)

def step (s : Store) : Deed → Store
  | .upsert u => (s.upsert u.now u.address u.connected u.document).2
  | .subscribe => s.subscribe.2
  | .receive id => { s with registry := (s.registry.receive id).2 }
  | .hangUp id => { s with registry := s.registry.hangUp id }
  | .release id => { s with registry := (s.registry.release id).2 }
  | .clear id => { s with registry := (s.registry.clear id).2 }

def run (s : Store) (ds : List Deed) : Store := ds.foldl step s

def granted? (s : Store) : Deed → Option Nat
  | .subscribe => s.subscribe.1.map (·.1)
  | _ => none

def issued (s : Store) : List Deed → List Nat
  | [] => []
  | d :: ds => (s.granted? d).toList ++ (s.step d).issued ds

variable {out : List Nat} {d : Deed}

theorem run_append (ds later : List Deed) : s.run (ds ++ later) = (s.run ds).run later :=
  List.foldl_append

theorem granted?_subscribe : s.granted? .subscribe = s.registry.register.1 := by
  unfold granted? subscribe
  rw [Option.map_map]
  exact Option.map_id'

theorem disciplined_step (h : s.registry.Disciplined out) (d : Deed) :
    (s.step d).registry.Disciplined (out ++ (s.granted? d).toList) := by
  cases d with
  | subscribe =>
    rw [granted?_subscribe]
    exact h.register
  | upsert u => exact (List.append_nil out).symm ▸ h.publish
  | receive id => exact (List.append_nil out).symm ▸ h.receive
  | hangUp id => exact (List.append_nil out).symm ▸ h.hangUp
  | release id => exact (List.append_nil out).symm ▸ h.release
  | clear id => exact (List.append_nil out).symm ▸ h.clear

theorem disciplined_run (h : s.registry.Disciplined out) (ds : List Deed) :
    (s.run ds).registry.Disciplined (out ++ s.issued ds) := by
  induction ds generalizing s out with
  | nil => exact (List.append_nil out).symm ▸ h
  | cons d ds ih =>
    rw [issued, ← List.append_assoc]
    exact ih (disciplined_step h d)

theorem disciplined_empty (p : NotifyPolicy) : (empty p).registry.Disciplined [] :=
  ⟨Nat.zero_le _, List.Sublist.refl _, rfl, rfl⟩

theorem policy_step : (s.step d).registry.policy = s.registry.policy := by
  cases d with
  | subscribe => exact Registry.register_policy
  | receive id => exact Registry.receive_policy
  | _ => rfl

theorem policy_run (ds : List Deed) : (s.run ds).registry.policy = s.registry.policy := by
  induction ds generalizing s with
  | nil => rfl
  | cons d ds ih => exact ih.trans policy_step

theorem nextId_le_step : s.registry.nextId ≤ (s.step d).registry.nextId := by
  cases d with
  | subscribe => exact Registry.nextId_le_register
  | receive id => exact Nat.le_of_eq Registry.nextId_receive.symm
  | _ => exact Nat.le_refl _

theorem gone_step (hid : id < s.registry.nextId) (hg : s.registry.Gone id) :
    (s.step d).registry.Gone id := by
  cases d with
  | upsert u => exact hg.publish
  | subscribe => exact hg.register hid
  | receive i => exact hg.receive
  | hangUp i => exact hg.hangUp
  | release i => exact hg.release
  | clear i => exact hg.clear

theorem gone_run (hid : id < s.registry.nextId) (hg : s.registry.Gone id) (ds : List Deed) :
    (s.run ds).registry.Gone id := by
  induction ds generalizing s with
  | nil => exact hg
  | cons d ds ih => exact ih (Nat.lt_of_lt_of_le hid nextId_le_step) (gone_step hid hg)

/-- What holds of the subscribers of a store, of the policy `p`, when the identifiers `out` were
given out so far. -/
structure KeepsSubscribers (p : NotifyPolicy) (out : List Nat) (s : Store) : Prop where
  cap : s.registry.slots.length ≤ p.maxSubscribers
  distinct : (s.registry.slots.map (·.id)).Nodup
  below : ∀ later, ∀ t ∈ s.registry.slots, ∀ i ∈ s.issued later, t.id < i
  once : ∀ later, (out ++ s.issued later).Nodup
  room : s.subscribe.1.isSome = true ↔ s.registry.openSlots.length < p.maxSubscribers
  granted : ∀ id views, s.subscribe.1 = some (id, views) →
    s.subscribe.2.registry.slots = s.registry.openSlots ++ [⟨id, [], 0, true, true⟩]
  refused : s.subscribe.1 = none → s.subscribe.2.entries = s.entries ∧
    s.subscribe.2.registry.slots = s.registry.slots ∧
    s.subscribe.2.registry.nextId = s.registry.nextId
  removes : ∀ id, (s.registry.clear id).1 = true ↔ ∃ t ∈ s.registry.slots, t.id = id
  cleared : ∀ id, (s.step (.clear id)).registry.slots = s.registry.slots.filter (·.id ≠ id)
  released : ∀ id, (s.step (.release id)).registry.slots = s.registry.slots.filter (·.id ≠ id)
  gone : ∀ id ∈ out, (∀ t ∈ s.registry.slots, t.id ≠ id) → ∀ later,
    (∀ t ∈ (s.run later).registry.slots, t.id ≠ id) ∧
      ((s.run later).step (.release id)).registry.slots = (s.run later).registry.slots

theorem subscribe_fst : s.subscribe.1 = s.registry.register.1.map fun id => (id, s.views) := rfl

theorem registry_subscribe : s.subscribe.2.registry = s.registry.register.2 := rfl

theorem keepsSubscribers_of_disciplined (h : s.registry.Disciplined out) :
    KeepsSubscribers s.registry.policy out s := by
  refine ⟨h.cap, h.nodup_ids, ?below, fun later => (disciplined_run h later).nodup_out, ?room,
    ?granted, ?refused, fun id => Registry.clear_eq_true, fun id => Registry.slots_clear,
    fun id => Registry.slots_release, ?gone⟩
  case below =>
    intro later t ht i hi
    have hlater := disciplined_run h later
    have hpair : (out ++ s.issued later).Pairwise (· < ·) := by
      rw [hlater.inOrder]
      exact List.pairwise_lt_range'
    exact (List.pairwise_append.1 hpair).2.2 _ (h.ids.subset (List.mem_map_of_mem ht)) i hi
  case room => rw [subscribe_fst, Option.isSome_map, Registry.isSome_register]
  case granted =>
    intro id views hs
    obtain ⟨i, hi, hviews⟩ := Option.map_eq_some_iff.1 (subscribe_fst ▸ hs)
    obtain ⟨-, hnext, hslots, -⟩ := Registry.register_granted hi
    cases hviews
    rw [registry_subscribe, hslots, hnext]
  case refused =>
    intro hs
    have hnone := Option.map_eq_none_iff.1 (subscribe_fst ▸ hs)
    exact ⟨rfl, Registry.slots_of_refused h.cap hnone, (Registry.register_refused hnone).2.2⟩
  case gone =>
    intro id hid hgone later
    have hlater := Registry.gone_iff.1 (gone_run (h.lt_next hid) (Registry.gone_iff.2 hgone) later)
    refine ⟨hlater, Registry.slots_release.trans ?_⟩
    rw [List.filter_eq_self]
    exact fun t ht => decide_eq_true (hlater t ht)

/-- However registrations, updates, receipts, releases, clearings and hang-ups follow each other. -/
theorem keepsSubscribers_run (p : NotifyPolicy) (ds : List Deed) :
    KeepsSubscribers p ((empty p).issued ds) ((empty p).run ds) := by
  have h := keepsSubscribers_of_disciplined (disciplined_run (disciplined_empty p) ds)
  rw [policy_run] at h
  exact h

example : ((empty ⟨4, 4, 1⟩).run [.subscribe, .hangUp 1, .subscribe, .release 1]).registry.slots =
    [⟨2, [], 0, true, true⟩] := by decide

end Store

namespace Hub
variable {h : Hub} {a : Act}

/-- What an act does to the store. Nothing is done for a subscription that nobody holds. -/
def deed? (h : Hub) : Act → Option Store.Deed
  | .subscribe => some .subscribe
  | .receive id => if h.holds id then some (.receive id) else none
  | .release id => if h.holds id then some (.release id) else none
  | .clear id => some (.clear id)
  | a => a.update?.map .upsert

def deeds (h : Hub) : List Act → List Store.Deed
  | [] => []
  | a :: as => (h.deed? a).toList ++ (h.step a).2.deeds as

theorem store_step (a : Act) : (h.step a).2.store = h.store.run (h.deed? a).toList := by
  cases hu : a.update? with
  | some u =>
    have hd : h.deed? a = some (.upsert u) := by
      cases a with
      | upsert u' => exact congrArg (Option.map _) hu
      | record started now address size result => exact congrArg (Option.map _) hu
      | _ => cases hu
    rw [store_step_update hu, hd]
    rfl
  | none =>
    cases a with
    | upsert u => cases hu
    | record started now address size result =>
      have hd : h.deed? (.record started now address size result) = none :=
        congrArg (Option.map _) hu
      rw [store_step_record hu, hd]
      rfl
    | takeSnapshot i => exact store_takeSnapshot i
    | subscribe => exact store_subscribe
    | clear i => rfl
    | receive i =>
      refine (store_receive i).trans ?_
      rw [deed?]
      split_ifs <;> rfl
    | release i =>
      refine (store_release i).trans ?_
      rw [deed?]
      split_ifs <;> rfl

/-- The store of a hub goes through deeds. -/
theorem store_run (as : List Act) : (h.run as).store = h.store.run (h.deeds as) := by
  induction as generalizing h with
  | nil => rfl
  | cons a as ih => rw [run_cons, ih, store_step, deeds, Store.run_append]

/-- The subscribers of a hub are kept as those of a store are. -/
theorem disciplined_run (p : NotifyPolicy) (as : List Act) :
    ((start p).run as).registry.Disciplined ((Store.empty p).issued ((start p).deeds as)) := by
  rw [registry, store_run]
  exact Store.disciplined_run (Store.disciplined_empty p) _

end Hub
end PeerWatch
