import PeerWatch.Proofs.Registry
import PeerWatch.Store.Hub

/-! What one act does to the entries of a hub and to a single subscriber. Entries change by updates
alone; a subscriber changes by updates and by what is done to it, never by what others do. -/
namespace PeerWatch
variable {h : Hub} {a : Act} {u : Update} {s : Subscriber} {id : Nat}

def Update.ofResult (now : Nat) (address : PeerAddress) :
    Except ProbeError Document → Option Update
  | .ok d => some ⟨now, address, true, some d⟩
  | .error e => if e.isCancelled then none else some ⟨now, address, e.responded, none⟩

def Act.update? : Act → Option Update
  | .upsert u => some u
  | .record _ now address _ result => Update.ofResult now address result
  | _ => none

/-- What can befall a subscriber. The last two are the doing of whoever holds the subscription. -/
inductive QueueAct
  | offer (v : View)
  | remove
  | receive
  | release
  deriving DecidableEq

namespace QueueAct

def byHolder : QueueAct → Bool
  | .receive | .release => true
  | .offer _ | .remove => false

def effect (p : NotifyPolicy) (s : Subscriber) : QueueAct → Subscriber
  | .offer v => (s.offer p v).2
  | .remove => { s with registered := false }
  | .receive => { s with queue := s.queue.tail }
  | .release => { s with registered := false, receiving := false }

end QueueAct

def Act.own? (id : Nat) : Act → Option QueueAct
  | .receive i => if i = id then some .receive else none
  | .release i => if i = id then some .release else none
  | .clear i => if i = id then some .remove else none
  | a => a.update?.map fun u => .offer u.view

/-- The entry that an update makes. It is never older than the one it renews. -/
def Update.entry (u : Update) (es : List (PeerId × Entry)) : Entry where
  connected := u.connected
  document := u.document
  address := u.address
  probedAt := (es.lookup u.address.id).elim u.now fun e => max e.probedAt u.now

def Update.write (es : List (PeerId × Entry)) (u : Update) : List (PeerId × Entry) :=
  assign u.address.id (u.entry es) es

namespace Hub

def registry (h : Hub) : Registry := h.store.registry

def slot (h : Hub) (id : Nat) : Option Subscriber := h.registry.find? id

def isRegistered (h : Hub) (id : Nat) : Bool := (h.slot id).any (·.registered)

@[simp] theorem run_nil : h.run [] = h := rfl

@[simp] theorem run_cons (as : List Act) : h.run (a :: as) = (h.step a).2.run as := rfl

theorem store_step_update (hu : a.update? = some u) :
    (h.step a).2.store = (h.store.upsert u.now u.address u.connected u.document).2 := by
  cases a with
  | upsert u' =>
    cases hu
    rfl
  | record started now address size result =>
    have hs : (h.step (.record started now address size result)).2.store =
        (h.store.record now address result).2 := by cases size <;> rfl
    rw [hs]
    cases result with
    | ok d =>
      cases hu
      rfl
    | error e =>
      simp only [Act.update?, Update.ofResult] at hu
      split_ifs at hu with he
      cases hu
      simp only [Store.record, he]
      rfl
  | _ => cases hu

theorem entries_step_update (hu : a.update? = some u) :
    (h.step a).2.store.entries = u.write h.store.entries := by
  rw [store_step_update hu]
  change assign _ (Entry.mk _ _ _ _) _ = assign _ (Entry.mk _ _ _ _) _
  simp only [Store.probeTime, Store.get?]
  cases h.store.entries.lookup u.address.id <;> rfl

/-- A record of a cancelled probe is the only one that writes nothing down. -/
theorem store_step_record {started now : Nat} {address : PeerAddress} {size : Option Nat}
    {result : Except ProbeError Document}
    (hu : (Act.record started now address size result).update? = none) :
    (h.step (.record started now address size result)).2.store = h.store := by
  have hs : (h.step (.record started now address size result)).2.store =
      (h.store.record now address result).2 := by cases size <;> rfl
  rw [hs]
  cases result with
  | ok d => cases hu
  | error e =>
    simp only [Act.update?, Update.ofResult] at hu
    split_ifs at hu with he
    simp only [Store.record, he, if_true]

@[simp] theorem store_takeSnapshot (i : Nat) : (h.takeSnapshot i).2.store = h.store := by
  unfold takeSnapshot
  split <;> rfl

theorem store_subscribe :
    h.subscribe.2.store = { h.store with registry := h.registry.register.2 } := by
  unfold subscribe Monitor.subscribe Store.subscribe registry store
  cases h.monitor.store.registry.register with
  | mk id? r => cases id? <;> rfl

theorem store_receive (i : Nat) : (h.receive i).2.store =
    if h.holds i then { h.store with registry := (h.registry.receive i).2 } else h.store := by
  unfold receive
  split_ifs <;> rfl

theorem store_release (i : Nat) : (h.release i).2.store =
    if h.holds i then { h.store with registry := (h.registry.release i).2 } else h.store := by
  unfold release
  split_ifs <;> rfl

/-- An act that writes nothing down leaves the entries as they are. -/
theorem entries_step_of_no_update (hu : a.update? = none) :
    (h.step a).2.store.entries = h.store.entries := by
  cases a with
  | upsert u => cases hu
  | record started now address size result => rw [store_step_record hu]
  | subscribe =>
    change h.subscribe.2.store.entries = _
    rw [store_subscribe]
  | takeSnapshot i =>
    change (h.takeSnapshot i).2.store.entries = _
    rw [store_takeSnapshot]
  | receive i =>
    change (h.receive i).2.store.entries = _
    rw [store_receive]
    split_ifs <;> rfl
  | release i =>
    change (h.release i).2.store.entries = _
    rw [store_release]
    split_ifs <;> rfl
  | clear i => rfl

/-- The entries after a run are those before it with all updates written, in their order. -/
theorem entries_run (as : List Act) : (h.run as).store.entries =
    (as.filterMap Act.update?).foldl Update.write h.store.entries := by
  induction as generalizing h with
  | nil => rfl
  | cons a as ih =>
    rw [run_cons, ih]
    cases hu : a.update? with
    | none => simp [hu, entries_step_of_no_update hu]
    | some u => simp [hu, entries_step_update hu]

theorem registry_step_update (hu : a.update? = some u) :
    (h.step a).2.registry = (h.registry.publish u.view).2 := by
  rw [registry, store_step_update hu]
  rfl

theorem registry_step_record {started now : Nat} {address : PeerAddress} {size : Option Nat}
    {result : Except ProbeError Document}
    (hu : (Act.record started now address size result).update? = none) :
    (h.step (.record started now address size result)).2.registry = h.registry := by
  rw [registry, store_step_record hu]
  rfl

@[simp] theorem registry_takeSnapshot (i : Nat) :
    (h.step (.takeSnapshot i)).2.registry = h.registry := congrArg Store.registry (store_takeSnapshot i)

theorem registry_subscribe : (h.step .subscribe).2.registry = h.registry.register.2 := by
  change h.subscribe.2.store.registry = _
  rw [store_subscribe]

theorem registry_receive (i : Nat) : (h.step (.receive i)).2.registry =
    if h.holds i then (h.registry.receive i).2 else h.registry := by
  change (h.receive i).2.store.registry = _
  rw [store_receive]
  split_ifs <;> rfl

theorem registry_release (i : Nat) : (h.step (.release i)).2.registry =
    if h.holds i then (h.registry.release i).2 else h.registry := by
  change (h.release i).2.store.registry = _
  rw [store_release]
  split_ifs <;> rfl

theorem registry_clear (i : Nat) :
    (h.step (.clear i)).2.registry = (h.registry.clear i).2 := rfl

/-- What the operations of the registry keep, every act keeps. -/
theorem registry_step_induction {P : Registry → Prop} (hr : P h.registry)
    (hpublish : ∀ v, P (h.registry.publish v).2) (hregister : P h.registry.register.2)
    (hreceive : ∀ i, P (h.registry.receive i).2) (hrelease : ∀ i, P (h.registry.release i).2)
    (hclear : ∀ i, P (h.registry.clear i).2) : P (h.step a).2.registry := by
  cases hu : a.update? with
  | some u =>
    rw [registry_step_update hu]
    exact hpublish u.view
  | none =>
    cases a with
    | upsert u => cases hu
    | record started now address size result =>
      rw [registry_step_record hu]
      exact hr
    | subscribe =>
      rw [registry_subscribe]
      exact hregister
    | takeSnapshot i =>
      rw [registry_takeSnapshot]
      exact hr
    | receive i =>
      rw [registry_receive]
      split_ifs
      · exact hreceive i
      · exact hr
    | release i =>
      rw [registry_release]
      split_ifs
      · exact hrelease i
      · exact hr
    | clear i => exact hclear i

@[simp] theorem policy_step : (h.step a).2.registry.policy = h.registry.policy :=
  registry_step_induction (P := fun r => r.policy = h.registry.policy) rfl (fun _ => rfl)
    Registry.register_policy (fun _ => Registry.receive_policy) (fun _ => rfl) fun _ => rfl

theorem fresh_step (hf : h.registry.Fresh) : (h.step a).2.registry.Fresh :=
  registry_step_induction hf (fun _ => hf.publish) hf.register (fun _ => hf.receive)
    (fun _ => hf.release) fun _ => hf.clear

theorem nextId_le_step : h.registry.nextId ≤ (h.step a).2.registry.nextId :=
  registry_step_induction (P := fun r => h.registry.nextId ≤ r.nextId) (Nat.le_refl _)
    (fun _ => Nat.le_refl _) Registry.nextId_le_register
    (fun _ => Nat.le_of_eq Registry.nextId_receive.symm) (fun _ => Nat.le_refl _)
    fun _ => Nat.le_refl _

/-- Whoever is gone does not come back. -/
theorem gone_step (hid : id < h.registry.nextId) (hg : h.registry.Gone id) :
    (h.step a).2.registry.Gone id :=
  registry_step_induction (P := fun r => r.Gone id) hg (fun _ => hg.publish) (hg.register hid)
    (fun _ => hg.receive) (fun _ => hg.release) fun _ => hg.clear

@[simp] theorem policy_run (as : List Act) :
    (h.run as).registry.policy = h.registry.policy := by
  induction as generalizing h with
  | nil => rfl
  | cons a as ih => rw [run_cons, ih, policy_step]

theorem fresh_run (hf : h.registry.Fresh) (as : List Act) : (h.run as).registry.Fresh := by
  induction as generalizing h with
  | nil => exact hf
  | cons a as ih => exact ih (fresh_step hf)

theorem fresh_start (p : NotifyPolicy) : (start p).registry.Fresh := by
  intro s hs
  cases hs

/-- What an act means to a subscriber, as far as it can be done: nobody receives for, or gives up,
a subscription that nobody holds. -/
def own? (h : Hub) (id : Nat) (a : Act) : Option QueueAct :=
  (a.own? id).filter fun o => h.holds id || !o.byHolder

theorem own?_update (hu : a.update? = some u) : a.own? id = some (.offer u.view) := by
  cases a with
  | upsert u' =>
    cases hu
    rfl
  | record started now address size result => simp only [Act.own?, hu, Option.map_some]
  | _ => cases hu

theorem own?_of_none (ho : a.own? id = none) : h.own? id a = none := by
  rw [own?, ho]
  rfl

theorem own?_of_holds (hh : h.holds id = true) : h.own? id a = a.own? id := by
  cases ho : a.own? id <;> simp [own?, ho, hh, Option.filter]

/-- Nobody receives for, or gives up, a subscription that nobody holds. -/
theorem own?_of_holder {o : QueueAct} (ho : a.own? id = some o) (hb : o.byHolder = true) :
    h.own? id a = if h.holds id then some o else none := by
  cases hh : h.holds id <;> simp [own?, ho, hh, hb, Option.filter]

theorem own?_of_other {o : QueueAct} (ho : a.own? id = some o) (hb : o.byHolder = false) :
    h.own? id a = some o := by
  simp [own?, ho, hb, Option.filter]

theorem slot_step_update (hu : a.update? = some u) :
    (h.step a).2.slot id = (h.slot id).map fun s => (s.offer h.registry.policy u.view).2 := by
  rw [slot, registry_step_update hu, Registry.find?_publish]
  rfl

theorem slot_receive_self : (h.step (.receive id)).2.slot id =
    if h.holds id then (h.slot id).map fun s => { s with queue := s.queue.tail }
    else h.slot id := by
  rw [slot, registry_receive]
  split_ifs
  · exact Registry.find?_receive_self
  · rfl

theorem slot_receive_ne {i : Nat} (hi : id ≠ i) :
    (h.step (.receive i)).2.slot id = h.slot id := by
  rw [slot, registry_receive]
  split_ifs
  · exact Registry.find?_receive_ne hi
  · rfl

theorem slot_release_self : (h.step (.release id)).2.slot id =
    if h.holds id then
      (h.slot id).map fun s => { s with registered := false, receiving := false }
    else h.slot id := by
  rw [slot, registry_release]
  split_ifs
  · exact Registry.find?_release_self
  · rfl

theorem slot_release_ne {i : Nat} (hi : id ≠ i) :
    (h.step (.release i)).2.slot id = h.slot id := by
  rw [slot, registry_release]
  split_ifs
  · exact Registry.find?_release_ne hi
  · rfl

theorem slot_clear_self :
    (h.step (.clear id)).2.slot id = (h.slot id).map fun s => { s with registered := false } := by
  rw [slot, registry_clear, Registry.find?_clear_self]
  rfl

theorem slot_clear_ne {i : Nat} (hi : id ≠ i) :
    (h.step (.clear i)).2.slot id = h.slot id := by
  rw [slot, registry_clear]
  exact Registry.find?_clear_ne hi

/-- A subscriber that still receives is changed by what the act means to it, and by nothing else. -/
theorem slot_step (hs : h.slot id = some s) (hr : s.receiving = true) :
    (h.step a).2.slot id =
      some (((h.own? id a).map (·.effect h.registry.policy s)).getD s) := by
  cases hu : a.update? with
  | some u =>
    rw [slot_step_update hu, hs, own?_of_other (own?_update hu) rfl]
    rfl
  | none =>
    cases a with
    | upsert u => cases hu
    | record started now address size result =>
      have ho : (Act.record started now address size result).own? id = none := by
        simp only [Act.own?, hu, Option.map_none]
      rw [slot, registry_step_record hu, own?_of_none ho]
      exact hs
    | subscribe =>
      rw [slot, registry_subscribe, Registry.find?_register_of_receiving hs hr]
      rfl
    | takeSnapshot i =>
      rw [slot, registry_takeSnapshot]
      exact hs
    | receive i =>
      by_cases hi : i = id
      · subst hi
        have ho : (Act.receive i).own? i = some .receive := if_pos rfl
        rw [slot_receive_self, hs, own?_of_holder ho rfl]
        split_ifs <;> rfl
      · have ho : (Act.receive i).own? id = none := if_neg hi
        rw [slot_receive_ne (Ne.symm hi), hs, own?_of_none ho]
        rfl
    | release i =>
      by_cases hi : i = id
      · subst hi
        have ho : (Act.release i).own? i = some .release := if_pos rfl
        rw [slot_release_self, hs, own?_of_holder ho rfl]
        split_ifs <;> rfl
      · have ho : (Act.release i).own? id = none := if_neg hi
        rw [slot_release_ne (Ne.symm hi), hs, own?_of_none ho]
        rfl
    | clear i =>
      by_cases hi : i = id
      · subst hi
        have ho : (Act.clear i).own? i = some .remove := if_pos rfl
        rw [slot_clear_self, hs, own?_of_other ho rfl]
        rfl
      · have ho : (Act.clear i).own? id = none := if_neg hi
        rw [slot_clear_ne (Ne.symm hi), hs, own?_of_none ho]
        rfl

theorem subscribe_granted {h₁ : Hub} (hf : h.registry.Fresh)
    (hsub : h.step .subscribe = (.subscribed id, h₁)) :
    id = h.registry.nextId ∧ h₁.slot id = some ⟨id, [], 0, true, true⟩ ∧
      h₁.held = h.held ++ [⟨id, h.store.views⟩] ∧ h₁.store.entries = h.store.entries ∧
      h₁.registry = h.registry.register.2 := by
  have hr : h₁.registry = h.registry.register.2 := by
    rw [← registry_subscribe, hsub]
  have he : h₁.store.entries = h.store.entries := by
    have he := entries_step_of_no_update (h := h) (a := .subscribe) rfl
    rwa [hsub] at he
  have hg : h.registry.register.1 = some id ∧ h₁.held = h.held ++ [⟨id, h.store.views⟩] := by
    change h.subscribe = _ at hsub
    unfold subscribe Monitor.subscribe Store.subscribe at hsub
    change _ = _ at hsub
    cases hreg : h.registry.register with
    | mk id? r =>
      have hreg' : h.monitor.store.registry.register = (id?, r) := hreg
      rw [hreg'] at hsub
      cases id? with
      | none => cases hsub
      | some i =>
        cases hsub
        exact ⟨rfl, rfl⟩
  refine ⟨Registry.id_of_register hg.1, ?_, hg.2, he, hr⟩
  rw [slot, hr]
  exact Registry.find?_register hf hg.1

def Known (h : Hub) : Prop := ∀ t ∈ h.held, t.id < h.registry.nextId

/-- A subscription that is held after an act was held before, or is the one that was granted. -/
theorem held_step {t : Subscription} (ht : t ∈ (h.step a).2.held) :
    (∃ t' ∈ h.held, t'.id = t.id) ∨
      a = .subscribe ∧ h.step .subscribe = (.subscribed t.id, (h.step .subscribe).2) := by
  cases a with
  | upsert u => exact Or.inl ⟨t, ht, rfl⟩
  | record started now address size result => exact Or.inl ⟨t, ht, rfl⟩
  | clear i => exact Or.inl ⟨t, ht, rfl⟩
  | subscribe =>
    change t ∈ h.subscribe.2.held at ht
    change _ ∨ _ ∧ h.subscribe = (_, h.subscribe.2)
    unfold subscribe at ht ⊢
    split at ht
    · rcases List.mem_append.1 ht with ht | ht
      · exact Or.inl ⟨t, ht, rfl⟩
      · rw [List.mem_singleton.1 ht]
        exact Or.inr ⟨rfl, rfl⟩
    · exact Or.inl ⟨t, ht, rfl⟩
  | takeSnapshot i =>
    change t ∈ (h.takeSnapshot i).2.held at ht
    unfold takeSnapshot at ht
    split at ht
    · obtain ⟨t', ht', rfl⟩ := List.mem_map.1 ht
      refine Or.inl ⟨t', ht', ?_⟩
      split_ifs <;> rfl
    · exact Or.inl ⟨t, ht, rfl⟩
  | receive i =>
    change t ∈ (h.receive i).2.held at ht
    unfold receive at ht
    split_ifs at ht <;> exact Or.inl ⟨t, ht, rfl⟩
  | release i =>
    change t ∈ (h.release i).2.held at ht
    unfold release at ht
    split_ifs at ht
    · exact Or.inl ⟨t, (List.mem_filter.1 ht).1, rfl⟩
    · exact Or.inl ⟨t, ht, rfl⟩

theorem known_step (hf : h.registry.Fresh) (hk : h.Known) : (h.step a).2.Known := by
  intro t ht
  rcases held_step ht with ⟨t', ht', he⟩ | ⟨rfl, hsub⟩
  · rw [← he]
    exact Nat.lt_of_lt_of_le (hk t' ht') nextId_le_step
  · obtain ⟨-, hslot, -⟩ := subscribe_granted hf hsub
    exact fresh_step hf _ (List.mem_of_find?_eq_some hslot)

theorem known_run (hf : h.registry.Fresh) (hk : h.Known) (as : List Act) : (h.run as).Known := by
  induction as generalizing h with
  | nil => exact hk
  | cons a as ih => exact ih (fresh_step hf) (known_step hf hk)

theorem known_start (p : NotifyPolicy) : (start p).Known := by
  intro t ht
  cases ht

theorem own?_record_ne_release {started now : Nat} {address : PeerAddress} {size : Option Nat}
    {result : Except ProbeError Document} :
    (Act.record started now address size result).own? id ≠ some .release := by
  simp only [Act.own?]
  cases (Act.record started now address size result).update? <;> simp

theorem holds_subscribe (hid : id < h.registry.nextId) :
    (h.step .subscribe).2.holds id = h.holds id := by
  change h.subscribe.2.holds id = _
  cases hreg : h.registry.register with
  | mk id? r =>
    have hreg' : h.monitor.store.registry.register = (id?, r) := hreg
    simp only [subscribe, Monitor.subscribe, Store.subscribe, hreg']
    cases id? with
    | none => rfl
    | some i =>
      have hi : i = h.registry.nextId := Registry.id_of_register (congrArg Prod.fst hreg)
      simp only [holds, Option.map_some, List.any_append, List.any_cons, List.any_nil]
      have hne : i ≠ id := by omega
      simp [hne]

theorem holds_takeSnapshot (i : Nat) :
    (h.step (.takeSnapshot i)).2.holds id = h.holds id := by
  change (h.takeSnapshot i).2.holds id = _
  unfold takeSnapshot
  split
  · have hid : ∀ s : Subscription, (if s.id = i then s.take.2 else s).id = s.id := by
      intro s
      split_ifs <;> rfl
    simp only [holds, List.any_map, Function.comp_def, hid]
  · rfl

theorem holds_receive (i : Nat) : (h.step (.receive i)).2.holds id = h.holds id := by
  change (h.receive i).2.holds id = _
  unfold receive
  split_ifs <;> rfl

theorem holds_release_self : (h.step (.release id)).2.holds id = false := by
  change (h.release id).2.holds id = _
  unfold release
  split_ifs with hh
  · simp [holds]
  · simpa using hh

theorem holds_release_ne {i : Nat} (hi : id ≠ i) :
    (h.step (.release i)).2.holds id = h.holds id := by
  change (h.release i).2.holds id = _
  unfold release
  split_ifs with hh
  · simp only [holds, List.any_filter]
    refine congrArg h.held.any (funext fun s => ?_)
    by_cases hs : s.id = id <;> simp [hs, hi]
  · rfl

/-- A subscription is held until it is given up. -/
theorem holds_step (hid : id < h.registry.nextId) :
    (h.step a).2.holds id = (h.holds id && decide (a.own? id ≠ some .release)) := by
  cases a with
  | upsert u => simp [step, holds, Act.own?, Act.update?]
  | record started now address size result =>
    simp [step, holds, own?_record_ne_release]
  | subscribe => simp [holds_subscribe hid, Act.own?, Act.update?]
  | takeSnapshot i => simp [holds_takeSnapshot, Act.own?, Act.update?]
  | receive i =>
    have ho : (Act.receive i).own? id ≠ some .release := by
      simp only [Act.own?]
      split_ifs <;> simp
    simp [holds_receive, ho]
  | release i =>
    by_cases hi : id = i
    · subst hi
      simp [holds_release_self, Act.own?]
    · simp [holds_release_ne hi, Act.own?, Ne.symm hi]
  | clear i =>
    have ho : (Act.clear i).own? id ≠ some .release := by
      simp only [Act.own?]
      split_ifs <;> simp
    simp [step, holds, ho]

end Hub
end PeerWatch
