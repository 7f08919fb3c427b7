import Mathlib.Data.List.Induction
import PeerWatch.Proofs.Entries
import PeerWatch.Proofs.Hub

/-! The store as a history of updates. A peer has its entry where its first update put it, with what
its last update says and the latest time of all of them; every question to the store is answered
from these entries, in their order. Nothing that is done to a store takes an entry out of it, moves
it, or makes it older. -/
namespace PeerWatch
variable {u : Update} {us : List Update} {id : PeerId} {es : List (PeerId × Entry)}

theorem eraseDups_concat {α : Type} [DecidableEq α] (l : List α) (a : α) :
    (l ++ [a]).eraseDups = if a ∈ l then l.eraseDups else l.eraseDups ++ [a] := by
  rw [List.eraseDups_append]
  split_ifs with h <;> simp [List.removeAll, h, List.eraseDups_cons]

/-- The peers of a history, each where it comes first. -/
def Update.peers (us : List Update) : List PeerId := (us.map fun u => u.address.id).eraseDups

def Update.ofPeer (us : List Update) (id : PeerId) : List Update :=
  us.filter fun u => u.address.id = id

/-- What a history says of a peer: what its last update says, at the latest time of all. -/
def Entry.ofHistory? (us : List Update) (id : PeerId) : Option Entry :=
  let own := Update.ofPeer us id
  own.getLast?.map fun u => ⟨u.connected, u.document, u.address, (own.map (·.now)).foldl max 0⟩

namespace Entry

theorem ofHistory?_concat_self (us : List Update) (u : Update) :
    ofHistory? (us ++ [u]) u.address.id = some ⟨u.connected, u.document, u.address,
      (ofHistory? us u.address.id).elim u.now fun e => max e.probedAt u.now⟩ := by
  have hown : Update.ofPeer (us ++ [u]) u.address.id = Update.ofPeer us u.address.id ++ [u] := by
    simp [Update.ofPeer]
  simp only [ofHistory?, hown, List.getLast?_concat, Option.map_some, List.map_append,
    List.foldl_append, List.map_cons, List.map_nil, List.foldl_cons, List.foldl_nil]
  cases hl : (Update.ofPeer us u.address.id).getLast? with
  | none => simp [List.getLast?_eq_none_iff.1 hl]
  | some v => rfl

theorem ofHistory?_concat_ne (us : List Update) (hid : id ≠ u.address.id) :
    ofHistory? (us ++ [u]) id = ofHistory? us id := by
  have hown : Update.ofPeer (us ++ [u]) id = Update.ofPeer us id := by
    simp [Update.ofPeer, Ne.symm hid]
  rw [ofHistory?, hown]
  rfl

theorem isSome_ofHistory? : (ofHistory? us id).isSome ↔ id ∈ Update.peers us := by
  rw [Update.peers, List.mem_eraseDups, ofHistory?, Option.isSome_map, List.getLast?_isSome]
  simp [Update.ofPeer, List.filter_eq_nil_iff]

end Entry

namespace Update

theorem keys_foldl_write (us : List Update) : keys (us.foldl write []) = peers us := by
  induction us using List.reverseRecOn with
  | nil => rfl
  | append_singleton us u ih =>
    rw [List.foldl_concat, write, keys_assign, ih, peers, peers,
      List.map_append, List.map_cons, List.map_nil, eraseDups_concat]
    simp only [List.mem_eraseDups]

theorem nodup_keys_foldl_write (hn : (keys es).Nodup) (us : List Update) :
    (keys (us.foldl write es)).Nodup := by
  induction us generalizing es with
  | nil => exact hn
  | cons u us ih => exact ih (nodup_keys_assign hn)

theorem lookup_foldl_write (us : List Update) (id : PeerId) :
    (us.foldl write []).lookup id = Entry.ofHistory? us id := by
  induction us using List.reverseRecOn with
  | nil => rfl
  | append_singleton us u ih =>
    rw [List.foldl_concat, write]
    by_cases hid : id = u.address.id
    · subst hid
      rw [lookup_assign_self, entry, ih, Entry.ofHistory?_concat_self]
    · rw [lookup_assign_ne hid, ih, Entry.ofHistory?_concat_ne us hid]

/-- The entries that a history leaves. -/
theorem foldl_write (us : List Update) : us.foldl write [] =
    (peers us).filterMap fun id => (Entry.ofHistory? us id).map (id, ·) := by
  have h₀ : (keys ([] : List (PeerId × Entry))).Nodup := List.nodup_nil
  have hn := nodup_keys_foldl_write h₀ us
  rw [← filterMap_lookup_keys hn, keys_foldl_write]
  simp only [lookup_foldl_write]

end Update

namespace Store

theorem size_eq (s : Store) : s.size = (keys s.entries).length := (List.length_map _).symm

theorem connectedCount_eq (s : Store) :
    s.connectedCount = (s.entries.map Prod.snd).countP (·.connected) := by
  rw [List.countP_map]
  rfl

theorem staleAddresses_eq (s : Store) (age now : Nat) : s.staleAddresses age now =
    ((s.entries.map Prod.snd).filter fun e => age + e.probedAt < now).map (·.address) := by
  have hstale (e : Entry) : e.isStale age now = decide (age + e.probedAt < now) := by
    simp only [Entry.isStale, decide_eq_decide]
    omega
  simp [staleAddresses, List.filter_map, Function.comp_def, hstale]

theorem adverts_eq (s : Store) : s.adverts =
    (s.entries.map Prod.snd).flatMap fun e => e.document.elim [] (·.adverts) := by
  rw [adverts, List.flatMap_map]
  induction s.entries with
  | nil => rfl
  | cons p es ih =>
    rw [List.flatMap_cons, ← ih]
    cases hd : p.2.document <;> simp [hd]

end Store

namespace Hub

theorem entries_start (p : NotifyPolicy) (as : List Act) : ((start p).run as).store.entries =
    (as.filterMap Act.update?).foldl Update.write [] := entries_run as

/-- No act takes an entry out, moves it or makes it older. -/
theorem entries_step_kept (h : Hub) (a : Act) :
    keys h.store.entries <+: keys (h.step a).2.store.entries ∧
      ∀ id e, h.store.get? id = some e →
        ∃ e', (h.step a).2.store.get? id = some e' ∧ e.probedAt ≤ e'.probedAt := by
  cases hu : a.update? with
  | none =>
    simp only [Store.get?, entries_step_of_no_update hu]
    exact ⟨List.prefix_refl _, fun id e he => ⟨e, he, Nat.le_refl _⟩⟩
  | some u =>
    simp only [Store.get?, entries_step_update hu]
    refine ⟨?_, fun id e he => ?_⟩
    · rw [Update.write, keys_assign]
      split_ifs
      · exact List.prefix_refl _
      · exact List.prefix_append _ _
    · by_cases hid : id = u.address.id
      · subst hid
        refine ⟨_, lookup_assign_self _ _ _, ?_⟩
        rw [Update.entry, he]
        exact Nat.le_max_left _ _
      · exact ⟨e, by rw [Update.write, lookup_assign_ne hid, he], Nat.le_refl _⟩

theorem entries_run_kept (h : Hub) (as : List Act) :
    keys h.store.entries <+: keys (h.run as).store.entries ∧
      ∀ id e, h.store.get? id = some e →
        ∃ e', (h.run as).store.get? id = some e' ∧ e.probedAt ≤ e'.probedAt := by
  induction as generalizing h with
  | nil => exact ⟨List.prefix_refl _, fun id e he => ⟨e, he, Nat.le_refl _⟩⟩
  | cons a as ih =>
    obtain ⟨hk, hp⟩ := h.entries_step_kept a
    obtain ⟨hk', hp'⟩ := ih (h.step a).2
    refine ⟨hk.trans hk', fun id e he => ?_⟩
    obtain ⟨e₁, he₁, hle⟩ := hp id e he
    obtain ⟨e₂, he₂, hle'⟩ := hp' id e₁ he₁
    exact ⟨e₂, he₂, Nat.le_trans hle hle'⟩

/-- A store has one entry for each peer of its history, in the order of their first updates, with
what the last update of the peer says and the latest of its times; what it answers to any question
is read off these entries in their order. No act takes an entry out, moves it or makes it older. -/
theorem store_tells_history :
    (∀ (p : NotifyPolicy) (as : List Act),
      let s := ((start p).run as).store
      let us := as.filterMap Act.update?
      let told := (Update.peers us).filterMap (Entry.ofHistory? us)
      s.entries = (Update.peers us).filterMap (fun id => (Entry.ofHistory? us id).map (id, ·)) ∧
      (∀ id, s.get? id = Entry.ofHistory? us id ∧
        ((s.get? id).isSome ↔ id ∈ us.map fun u => u.address.id)) ∧
      s.size = (Update.peers us).length ∧ told.length = (Update.peers us).length ∧
      s.connectedCount = told.countP (·.connected) ∧
      (∀ age now, s.staleAddresses age now =
        (told.filter fun e => age + e.probedAt < now).map (·.address)) ∧
      s.adverts = told.flatMap fun e => e.document.elim [] (·.adverts)) ∧
    ∀ (h : Hub) (as : List Act), keys h.store.entries <+: keys (h.run as).store.entries ∧
      ∀ id e, h.store.get? id = some e →
        ∃ e', (h.run as).store.get? id = some e' ∧ e.probedAt ≤ e'.probedAt := by
  refine ⟨fun p as => ?_, entries_run_kept⟩
  intro s us told
  have hes : s.entries = us.foldl Update.write [] := entries_start p as
  have hget (id : PeerId) : s.get? id = Entry.ofHistory? us id := by
    rw [Store.get?, hes, Update.lookup_foldl_write]
  have hkeys : keys s.entries = Update.peers us := by rw [hes, Update.keys_foldl_write]
  have htold : s.entries.map Prod.snd = told := by
    rw [hes, Update.foldl_write, List.map_filterMap]
    simp only [Option.map_map, Function.comp_def, Option.map_id']
    rfl
  have hlen : s.size = (Update.peers us).length := by rw [Store.size_eq, hkeys]
  refine ⟨by rw [hes, Update.foldl_write], fun id => ⟨hget id, ?_⟩, hlen, ?_, ?_, ?_, ?_⟩
  · rw [hget, Entry.isSome_ofHistory?, Update.peers, List.mem_eraseDups]
  · rw [← htold, List.length_map]
    exact hlen
  · rw [Store.connectedCount_eq, htold]
  · intro age now
    rw [Store.staleAddresses_eq, htold]
  · rw [Store.adverts_eq, htold]

/-- The clock goes back between the updates of a peer, which is unreachable at last. -/
theorem store_tells_history_back :
    let a : PeerAddress := ⟨⟨"A", by decide, by decide⟩, []⟩
    let b : PeerAddress := ⟨⟨"B", by decide, by decide⟩, [⟨.dns "b", 8302⟩]⟩
    let h := (start {}).run [.upsert ⟨9, a, true, some .empty⟩, .upsert ⟨7, b, true, none⟩]
    let e : Entry := ⟨true, some .empty, a, 9⟩
    let h' := h.run [.upsert ⟨5, a, false, none⟩]
    h.store.get? a.id = some e ∧
      (∃ e', h'.store.get? a.id = some e' ∧ e.probedAt ≤ e'.probedAt) ∧
      h'.store.entries = [(a.id, ⟨false, none, a, 9⟩), (b.id, ⟨true, none, b, 7⟩)] := by
  intro a b h e h'
  have he : h.store.get? a.id = some e := rfl
  exact ⟨he, (store_tells_history.2 h [.upsert ⟨5, a, false, none⟩]).2 a.id e he, rfl⟩

end Hub
end PeerWatch
