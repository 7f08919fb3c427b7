import Mathlib.Data.List.Basic
import PeerWatch.Store.Registry

/-! What every operation of the registry does to one subscriber, found by its identifier. The other
subscribers do not occur in these equations. Identifiers are given out once, so that whoever
registers is found under a new one. -/
namespace PeerWatch
variable {s : Subscriber} {r : Registry} {v : View} {p : NotifyPolicy} {id i : Nat}

namespace Subscriber

@[simp] theorem offer_id : (s.offer p v).2.id = s.id := by
  unfold offer
  split_ifs <;> rfl

@[simp] theorem offer_receiving : (s.offer p v).2.receiving = s.receiving := by
  unfold offer
  split_ifs <;> rfl

end Subscriber

namespace Registry

@[simp] theorem register_policy : r.register.2.policy = r.policy := by
  unfold register
  dsimp only
  split_ifs <;> rfl

@[simp] theorem receive_policy : (r.receive id).2.policy = r.policy := by
  unfold receive
  split
  · rfl
  · split <;> rfl

theorem id_of_find? (h : r.find? id = some s) : s.id = id := by
  simpa using List.find?_some h

theorem find?_publish :
    (r.publish v).2.find? id = (r.find? id).map fun s => (s.offer r.policy v).2 := by
  simp only [find?, publish, List.map_map, List.find?_map, Function.comp_def,
    Subscriber.offer_id]

/-- A change that keeps identifiers changes whoever is found. -/
theorem find?_modify (f : Subscriber → Subscriber) (hf : ∀ s, (f s).id = s.id) :
    (r.modify i f).find? id = (r.find? id).map fun s => if s.id = i then f s else s := by
  have hid : ∀ s : Subscriber, (if s.id = i then f s else s).id = s.id := by
    intro s
    split_ifs
    · exact hf s
    · rfl
  simp only [find?, modify, List.find?_map, Function.comp_def, hid]

theorem find?_modify_self (f : Subscriber → Subscriber) (hf : ∀ s, (f s).id = s.id) :
    (r.modify id f).find? id = (r.find? id).map f := by
  rw [find?_modify f hf]
  cases h : r.find? id with
  | none => rfl
  | some s => simp [id_of_find? h]

theorem find?_modify_ne (f : Subscriber → Subscriber) (hf : ∀ s, (f s).id = s.id) (hi : id ≠ i) :
    (r.modify i f).find? id = r.find? id := by
  rw [find?_modify f hf]
  cases h : r.find? id with
  | none => rfl
  | some s => simp [id_of_find? h, hi]

theorem find?_clear_self :
    (r.clear id).2.find? id = (r.find? id).map fun s => { s with registered := false } :=
  find?_modify_self _ fun _ => rfl

theorem find?_clear_ne (hi : id ≠ i) : (r.clear i).2.find? id = r.find? id :=
  find?_modify_ne _ (fun _ => rfl) hi

theorem find?_hangUp_self :
    (r.hangUp id).find? id = (r.find? id).map fun s => { s with receiving := false } :=
  find?_modify_self _ fun _ => rfl

theorem find?_hangUp_ne (hi : id ≠ i) : (r.hangUp i).find? id = r.find? id :=
  find?_modify_ne _ (fun _ => rfl) hi

theorem release_eq : (r.release id).2 = (r.clear id).2.hangUp id := rfl

theorem find?_release_self :
    (r.release id).2.find? id =
      (r.find? id).map fun s => { s with registered := false, receiving := false } := by
  rw [release_eq, find?_hangUp_self, find?_clear_self, Option.map_map]
  rfl

theorem find?_release_ne (hi : id ≠ i) : (r.release i).2.find? id = r.find? id := by
  rw [release_eq, find?_hangUp_ne hi, find?_clear_ne hi]

def told (s : Subscriber) : Received :=
  match s.queue with
  | v :: _ => .view v
  | [] => if s.registered then .empty else .closed

theorem receive_told (h : r.find? id = some s) : (r.receive id).1 = told s := by
  simp only [receive, told, h]
  cases s.queue <;> rfl

theorem find?_receive_self :
    (r.receive id).2.find? id = (r.find? id).map fun s => { s with queue := s.queue.tail } := by
  cases h : r.find? id with
  | none => simp only [receive, h, Option.map_none]
  | some s =>
    cases hq : s.queue with
    | nil =>
      have hs : ({ s with queue := [] } : Subscriber) = s := by rw [← hq]
      simp only [receive, h, hq, Option.map_some, List.tail_nil, hs]
    | cons v queue =>
      have hm : (r.modify id fun s => { s with queue := queue }).find? id =
          (r.find? id).map fun s => { s with queue := queue } :=
        find?_modify_self _ fun _ => rfl
      simp only [receive, h, hq, hm, Option.map_some, List.tail_cons]

theorem find?_receive_ne (hi : id ≠ i) : (r.receive i).2.find? id = r.find? id := by
  unfold receive
  split
  · rfl
  · split
    · exact find?_modify_ne _ (fun _ => rfl) hi
    · rfl

def Fresh (r : Registry) : Prop := ∀ s ∈ r.subscribers, s.id < r.nextId

theorem Fresh.modify (h : r.Fresh) (f : Subscriber → Subscriber) (hf : ∀ s, (f s).id = s.id) :
    (r.modify i f).Fresh := by
  intro s hs
  obtain ⟨t, ht, rfl⟩ := List.mem_map.1 hs
  have := h t ht
  simp only [Registry.modify]
  split_ifs
  · rw [hf]
    exact this
  · exact this

theorem Fresh.publish (h : r.Fresh) : (r.publish v).2.Fresh := by
  intro s hs
  simp only [Registry.publish, List.map_map, List.mem_map] at hs
  obtain ⟨t, ht, rfl⟩ := hs
  simpa [Registry.publish] using h t ht

theorem Fresh.clear (h : r.Fresh) : (r.clear i).2.Fresh := h.modify _ fun _ => rfl

theorem Fresh.release (h : r.Fresh) : (r.release i).2.Fresh :=
  h.clear.modify _ fun _ => rfl

theorem Fresh.receive (h : r.Fresh) : (r.receive i).2.Fresh := by
  unfold Registry.receive
  split
  · exact h
  · split
    · exact h.modify _ fun _ => rfl
    · exact h

theorem Fresh.register (h : r.Fresh) : r.register.2.Fresh := by
  intro s hs
  unfold Registry.register at hs ⊢
  dsimp only at hs ⊢
  split_ifs at hs ⊢
  · exact h s (List.mem_filter.1 hs).1
  · rcases List.mem_append.1 hs with hs | hs
    · exact Nat.lt_succ_of_lt (h s (List.mem_filter.1 hs).1)
    · rw [List.mem_singleton.1 hs]
      exact Nat.lt_succ_self _

theorem nextId_le_register : r.nextId ≤ r.register.2.nextId := by
  unfold register
  dsimp only
  split_ifs
  · exact Nat.le_refl _
  · exact Nat.le_succ _

theorem nextId_receive : (r.receive i).2.nextId = r.nextId := by
  unfold receive
  split
  · rfl
  · split <;> rfl

def Gone (r : Registry) (id : Nat) : Prop :=
  ∀ s ∈ r.subscribers, s.id = id → s.registered = false

theorem gone_modify (f : Subscriber → Subscriber) (hf : ∀ s, (f s).id = s.id)
    (hg : ∀ s, s.id = i → s.id = id → (f s).registered = true → s.registered = true)
    (h : r.Gone id) : (r.modify i f).Gone id := by
  intro s hs hid
  obtain ⟨t, ht, rfl⟩ := List.mem_map.1 hs
  split_ifs at hid ⊢ with hi
  · rw [hf] at hid
    cases hr : (f t).registered with
    | false => rfl
    | true => exact absurd (hg t hi hid hr) (by simp [h t ht hid])
  · exact h t ht hid

theorem gone_clear_self : (r.clear id).2.Gone id := by
  intro s hs hid
  obtain ⟨t, _, rfl⟩ := List.mem_map.1 hs
  dsimp only at hid ⊢
  split_ifs at hid ⊢
  · rfl
  · contradiction

theorem Gone.clear (h : r.Gone id) : (r.clear i).2.Gone id :=
  gone_modify _ (fun _ => rfl) (fun _ _ _ hr => Bool.noConfusion hr) h

theorem Gone.hangUp (h : r.Gone id) : (r.hangUp i).Gone id :=
  gone_modify _ (fun _ => rfl) (fun _ _ _ hr => hr) h

theorem gone_release_self : (r.release id).2.Gone id := gone_clear_self.hangUp

theorem Gone.release (h : r.Gone id) : (r.release i).2.Gone id := h.clear.hangUp

theorem Gone.receive (h : r.Gone id) : (r.receive i).2.Gone id := by
  unfold Registry.receive
  split
  · exact h
  · split
    · exact gone_modify _ (fun _ => rfl) (fun _ _ _ hr => hr) h
    · exact h

theorem Gone.publish (h : r.Gone id) : (r.publish v).2.Gone id := by
  intro s hs hid
  simp only [Registry.publish, List.map_map, List.mem_map] at hs
  obtain ⟨t, ht, rfl⟩ := hs
  have ht' : t.registered = false := h t ht (by simpa using hid)
  simp [Subscriber.offer, ht']

theorem Gone.register (h : r.Gone id) (hid : id < r.nextId) : r.register.2.Gone id := by
  intro s hs hs'
  unfold Registry.register at hs
  dsimp only at hs
  split_ifs at hs
  · exact h s (List.mem_filter.1 hs).1 hs'
  · rcases List.mem_append.1 hs with hs | hs
    · exact h s (List.mem_filter.1 hs).1 hs'
    · rw [List.mem_singleton.1 hs] at hs'
      exact absurd hs' (Nat.ne_of_gt hid)

/-- Whoever still receives is there after a registration, as it was. -/
theorem find?_register_of_receiving (h : r.find? id = some s) (hs : s.receiving = true) :
    r.register.2.find? id = some s := by
  have hf : (r.subscribers.filter (·.receiving)).find? (·.id = id) = some s := by
    obtain ⟨hp, as, bs, hl, hn⟩ := List.find?_eq_some_iff_append.1 h
    rw [hl, List.filter_append, List.filter_cons_of_pos hs]
    refine List.find?_eq_some_iff_append.2 ⟨hp, _, _, rfl, ?_⟩
    intro t ht
    exact hn t (List.mem_filter.1 ht).1
  unfold register
  dsimp only
  split_ifs
  · exact hf
  · simp only [find?, List.find?_append, hf, Option.some_or]

theorem id_of_register (hr : r.register.1 = some i) : i = r.nextId := by
  unfold register at hr
  dsimp only at hr
  split_ifs at hr
  exact (Option.some.inj hr).symm

theorem find?_register (h : r.Fresh) (hr : r.register.1 = some i) :
    r.register.2.find? i = some ⟨i, [], 0, true, true⟩ := by
  obtain rfl := id_of_register hr
  unfold register at hr ⊢
  dsimp only at hr ⊢
  split_ifs at hr ⊢
  have hn : (r.subscribers.filter (·.receiving)).find? (·.id = r.nextId) = none := by
    rw [List.find?_eq_none]
    intro s hs
    simpa using Nat.ne_of_lt (h s (List.mem_filter.1 hs).1)
  simp only [find?, List.find?_append, hn, Option.none_or]
  simp

end Registry
end PeerWatch
