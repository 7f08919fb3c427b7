import PeerWatch.Proofs.Overlay
import PeerWatch.Proofs.PrivateQueue

/-! What a subscriber knows. It starts from a snapshot and lays over it the updates that it received
and those still queued for it. A peer whose last update was not dropped is then shown as the store
has it, and if nothing was dropped all is shown as the store has it. No act of the subscriber or of
others, in whatever order, comes between the snapshot and the updates. -/
namespace PeerWatch
open PrivateQueue
variable {h h₁ : Hub} {a : Act} {s : Subscriber} {id : Nat} {past : List Encounter} {peer : PeerId}

def Encounter.offered? : Encounter → Option View
  | .offered v _ => some v
  | _ => none

def offered (past : List Encounter) : List View := past.filterMap Encounter.offered?

def lastOffer (peer : PeerId) (past : List Encounter) : Option Offer :=
  (past.filterMap fun
    | .offered v o => if v.peerId = peer then some o else none
    | _ => none).getLast?

theorem offered_concat (e : Encounter) :
    offered (past ++ [e]) = offered past ++ e.offered?.toList := by
  cases h : e.offered? <;> simp [offered, List.filterMap_append, h]

/-- If only delivered and dropped updates are offered, and the last one of a peer was not dropped,
then it is also the last one of the peer that was queued. -/
theorem getLast?_offered (hall : ∀ v o, .offered v o ∈ past → o = .delivered ∨ o = .dropped)
    (hlast : lastOffer peer past ≠ some .dropped) :
    (viewsOf peer (offered past)).getLast? = (viewsOf peer (appended past)).getLast? := by
  induction past using List.reverseRecOn with
  | nil => rfl
  | append_singleton past e ih =>
    have hall' : ∀ v o, .offered v o ∈ past → o = .delivered ∨ o = .dropped :=
      fun v o hm => hall v o (List.mem_append_left _ hm)
    rw [offered_concat, appended_concat]
    cases e with
    | offered v o =>
      by_cases hv : v.peerId = peer
      · have ho : o ≠ .dropped := by
          intro ho
          simp [lastOffer, List.filterMap_append, hv, ho] at hlast
        obtain rfl := (hall v o (by simp)).resolve_right ho
        simp [viewsOf, hv, Encounter.offered?, Encounter.appended?]
      · have hlast' : lastOffer peer past ≠ some .dropped := by
          simpa [lastOffer, List.filterMap_append, hv] using hlast
        have ih' := ih hall' hlast'
        simp only [viewsOf] at ih'
        rcases hall v o (by simp) with rfl | rfl <;>
          simp [viewsOf, hv, Encounter.offered?, Encounter.appended?, ih']
    | _ =>
      have hlast' : lastOffer peer past ≠ some .dropped := by
        simpa [lastOffer, List.filterMap_append] using hlast
      simpa [Encounter.offered?, Encounter.appended?] using ih hall' hlast'

theorem offered_eq_appended (hall : ∀ v o, .offered v o ∈ past → o = .delivered) :
    offered past = appended past := by
  refine List.filterMap_congr fun e he => ?_
  cases e with
  | offered v o =>
    obtain rfl := hall v o he
    rfl
  | _ => rfl

theorem distinct_views {s : Store} (hn : (keys s.entries).Nodup) : Distinct s.views := by
  have hids : s.views.map View.peerId = keys s.entries := peerIds_viewsOfEntries s.entries
  rw [Distinct, hids]
  exact hn

theorem viewsOf_views {s : Store} (hn : (keys s.entries).Nodup) (peer : PeerId) :
    viewsOf peer s.views = ((s.get? peer).map (·.view peer)).toList := by
  cases hg : s.get? peer with
  | some e =>
    have hm : (peer, e) ∈ s.entries := (lookup_eq_some_iff hn).1 hg
    have hv : (e.view peer).peerId = peer := peerId_make ..
    have hs := viewsOf_eq_singleton (distinct_views hn) (List.mem_map_of_mem hm)
    rw [hv] at hs
    exact hs
  | none =>
    rw [Option.map_none, Option.toList_none, viewsOf, List.filter_eq_nil_iff]
    intro v hv
    obtain ⟨⟨k, e⟩, hm, rfl⟩ := List.mem_map.1 hv
    have hk : (e.view k).peerId = k := peerId_make ..
    have hne : k ≠ peer := by
      rintro rfl
      rw [Store.get?, (lookup_eq_some_iff hn).2 hm] at hg
      cases hg
    simpa [hk] using hne

namespace Hub

theorem keys_start (p : NotifyPolicy) : (keys (start p).store.entries).Nodup := List.nodup_nil

theorem nodup_keys_step (hn : (keys h.store.entries).Nodup) :
    (keys (h.step a).2.store.entries).Nodup := by
  cases hu : a.update? with
  | none => rwa [entries_step_of_no_update hu]
  | some u =>
    rw [entries_step_update hu]
    exact nodup_keys_assign hn

theorem nodup_keys_run (hn : (keys h.store.entries).Nodup) (as : List Act) :
    (keys (h.run as).store.entries).Nodup := by
  induction as generalizing h with
  | nil => exact hn
  | cons a as ih => exact ih (nodup_keys_step hn)

/-- The views of the store after a run are those before it with all updates laid over them. -/
theorem views_run (hn : (keys h.store.entries).Nodup) (as : List Act) : (h.run as).store.views =
    overlay h.store.views ((as.filterMap Act.update?).map Update.view) := by
  induction as generalizing h with
  | nil => rfl
  | cons a as ih =>
    rw [run_cons, ih (nodup_keys_step hn)]
    have hviews (h : Hub) : h.store.views = viewsOfEntries h.store.entries := rfl
    cases hu : a.update? with
    | none => simp [hviews, hu, entries_step_of_no_update hu]
    | some u =>
      rw [hviews, entries_step_update hu, Update.write, viewsOfEntries_assign hn]
      simp only [List.filterMap_cons, hu, List.map_cons, overlay, List.foldl_cons]
      rfl

/-- Every update is offered to every subscriber. -/
theorem offered_encounters (as : List Act) :
    offered (encounters id h as) = (as.filterMap Act.update?).map Update.view := by
  induction as generalizing h with
  | nil => rfl
  | cons a as ih =>
    have ih' := ih (h := (h.step a).2)
    simp only [offered] at ih'
    rw [encounters, offered, List.filterMap_append, ih']
    cases hu : a.update? with
    | some u => simp [own?_update hu, hu, meet, Encounter.offered?]
    | none =>
      have hown : ((a.own? id).map (h.meet id)).bind Encounter.offered? = none := by
        cases a with
        | upsert u => cases hu
        | record started now address size result => simp only [Act.own?, hu]; rfl
        | subscribe => rfl
        | takeSnapshot i => rfl
        | receive i => simp only [Act.own?]; split_ifs <;> rfl
        | release i => simp only [Act.own?]; split_ifs <;> rfl
        | clear i => simp only [Act.own?]; split_ifs <;> rfl
      cases ho : (a.own? id).map (h.meet id) with
      | none => simp [hu]
      | some e =>
        rw [ho] at hown
        simp [hu, show e.offered? = none from hown]

def untaken (h : Hub) (id : Nat) : List View := ((h.subscription? id).map (·.snapshot)).getD []

def given (h : Hub) (id : Nat) : Act → List View
  | .takeSnapshot i =>
    if i = id then
      match (h.takeSnapshot i).1 with
      | .snapshot views => views
      | _ => []
    else []
  | _ => []

def snapshotTaken (id : Nat) : Hub → List Act → List View
  | _, [] => []
  | h, a :: as => h.given id a ++ snapshotTaken id (h.step a).2 as

theorem untaken_eq {t : Subscription} (ht : h.subscription? id = some t) :
    h.untaken id = t.snapshot := by
  simp [untaken, ht]

/-- A subscription that was granted has all views of the store as its snapshot. -/
theorem subscription?_of_granted (hf : h.registry.Fresh) (hk : h.Known)
    (hsub : h.step .subscribe = (.subscribed id, h₁)) :
    h₁.subscription? id = some ⟨id, h.store.views⟩ := by
  obtain ⟨hid, -, hheld, -, -⟩ := subscribe_granted hf hsub
  have hnone : h.held.find? (·.id = id) = none := by
    rw [List.find?_eq_none]
    intro t ht
    simpa [hid] using Nat.ne_of_lt (hk t ht)
  rw [subscription?, hheld, List.find?_append, hnone, Option.none_or]
  simp

theorem subscription?_subscribe {t : Subscription} (ht : h.subscription? id = some t) :
    h.subscribe.2.subscription? id = some t := by
  unfold subscribe
  split
  · exact (List.find?_append).trans (by rw [show h.held.find? (·.id = id) = some t from ht]; rfl)
  · exact ht

theorem subscription?_release_ne {i : Nat} (hi : id ≠ i) :
    (h.release i).2.subscription? id = h.subscription? id := by
  unfold release
  split_ifs
  · simp only [subscription?, List.find?_filter]
    refine congrArg (fun p => h.held.find? p) (funext fun t => ?_)
    by_cases ht : t.id = id <;> simp [ht, hi]
  · rfl

/-- Taking a snapshot changes the subscription that it is taken from. -/
theorem subscription?_takeSnapshot {t : Subscription} (i : Nat)
    (ht : h.subscription? id = some t) : (h.takeSnapshot i).2.subscription? id =
      some (if i = id then t.take.2 else t) := by
  have hid : t.id = id := by simpa using List.find?_some ht
  unfold takeSnapshot
  cases hi : h.subscription? i with
  | none =>
    have hne : ¬ i = id := by
      rintro rfl
      rw [ht] at hi
      cases hi
    simpa [hne] using ht
  | some t' =>
    have hmap : ∀ t : Subscription, (if t.id = i then t.take.2 else t).id = t.id := by
      intro t
      split_ifs <;> rfl
    simp only [subscription?, List.find?_map, Function.comp_def, hmap]
    rw [show h.held.find? (·.id = id) = some t from ht, Option.map_some, hid]
    simp only [eq_comm]

/-- Nothing of a snapshot is lost or given twice while the subscription is held. -/
theorem given_append_untaken (hh : h.holds id = true) (hr : a.own? id ≠ some .release) :
    h.given id a ++ (h.step a).2.untaken id = h.untaken id := by
  obtain ⟨t, ht⟩ : ∃ t, h.subscription? id = some t := by
    rw [← Option.isSome_iff_exists, subscription?, List.find?_isSome]
    simpa [holds] using hh
  have keep (h' : Hub) (ht' : h'.subscription? id = some t) : h'.untaken id = h.untaken id := by
    rw [untaken_eq ht, untaken_eq ht']
  cases a with
  | upsert u => exact keep _ ht
  | record started now address size result => exact keep _ ht
  | clear i => exact keep _ ht
  | receive i =>
    refine keep (h.receive i).2 ?_
    unfold receive
    split_ifs <;> exact ht
  | subscribe => exact keep h.subscribe.2 (subscription?_subscribe ht)
  | release i =>
    have hi : id ≠ i := by
      rintro rfl
      simp [Act.own?] at hr
    exact keep (h.release i).2 ((subscription?_release_ne hi).trans ht)
  | takeSnapshot i =>
    have ht' := subscription?_takeSnapshot i ht
    by_cases hi : i = id
    · subst hi
      have hg : h.given i (.takeSnapshot i) = t.snapshot := by
        simp [given, takeSnapshot, ht, Subscription.take]
      rw [if_pos rfl] at ht'
      rw [hg, untaken_eq ht]
      change _ ++ (h.takeSnapshot i).2.untaken i = _
      rw [untaken_eq ht']
      simp [Subscription.take]
    · have hg : h.given id (.takeSnapshot i) = [] := if_neg hi
      rw [if_neg hi] at ht'
      rw [hg, List.nil_append]
      exact keep (h.takeSnapshot i).2 ht'

/-- What was given of the snapshot and what is left make up the whole, in order. -/
theorem snapshotTaken_append_untaken (hs : h.Serves id past) (as : List Act)
    (hh : isHeld (past ++ encounters id h as) = true) :
    snapshotTaken id h as ++ (h.run as).untaken id = h.untaken id := by
  induction as generalizing h past with
  | nil => rfl
  | cons a as ih =>
    rw [encounters, ← List.append_assoc] at hh
    have hh' := isHeld_of_append hh
    have hr : a.own? id ≠ some .release := by
      intro ho
      simp [ho, isHeld, meet] at hh'
    rw [snapshotTaken, run_cons, List.append_assoc, ih hs.step hh]
    exact given_append_untaken (hs.holds.trans (isHeld_of_append hh')) hr

/-- Whoever is registered after a run was fed all the time: nothing offered to it was lost but by a
drop. -/
theorem Serves.fed (hs : h.Serves id []) (as : List Act) (hslot : (h.run as).slot id = some s)
    (hreg : s.registered = true) :
    isHeld (encounters id h as) = true ∧
      taken (encounters id h as) ++ s.queue = appended (encounters id h as) ∧
      ∀ v o, .offered v o ∈ encounters id h as → o = .delivered ∨ o = .dropped := by
  obtain ⟨hend, hmet⟩ := hs.run as
  rw [List.nil_append] at hend hmet
  obtain ⟨hopen, hf⟩ := hend.fits hslot hreg
  refine ⟨isHeld_of_isOpen hopen, hf.queue, ?_⟩
  have hoffers := offers_of_isOpen (p := h.registry.policy) (as.filterMap (Act.own? id))
  rw [← hmet] at hoffers
  exact hoffers hopen

/-- A subscriber that lays over its snapshot, in order, the updates that it received and those that
are queued for it shows every peer whose last update was not dropped as the store has it; if none
was dropped, it shows exactly the store's views in their order, each peer once. -/
theorem overlay_shows_store (p : NotifyPolicy) (before after : List Act) (id : Nat) (h : Hub)
    (s : Subscriber) (hsub : ((start p).run before).step .subscribe = (.subscribed id, h))
    (hs : (h.run after).slot id = some s) (hreg : s.registered = true) :
    let past := encounters id h after
    let snapshot := snapshotTaken id h after ++ (h.run after).untaken id
    let shown := overlay snapshot (taken past ++ s.queue)
    let store := (h.run after).store
    snapshot = ((start p).run before).store.views ∧
    (∀ peer, lastOffer peer past ≠ some .dropped →
      viewsOf peer shown = ((store.get? peer).map (·.view peer)).toList) ∧
    ((∀ v, .offered v .dropped ∉ past) →
      shown = store.views ∧ shown.map View.peerId = keys store.entries ∧
        (shown.map View.peerId).Nodup) := by
  intro past snapshot shown store
  have hfresh := fresh_run (fresh_start p) before
  have hserves := Serves.start hfresh hsub
  obtain ⟨hheld, hqueue, hoffers⟩ := hserves.fed after hs hreg
  -- the snapshot is what the store had at the registration
  obtain ⟨-, -, hheldsub, hentries, -⟩ := subscribe_granted hfresh hsub
  have hsnap : snapshot = ((start p).run before).store.views := by
    have hknown := known_run (fresh_start p) (known_start p) before
    have hgranted := untaken_eq (subscription?_of_granted hfresh hknown hsub)
    exact (snapshotTaken_append_untaken hserves after hheld).trans hgranted
  have hn : (keys h.store.entries).Nodup := by
    rw [hentries]
    exact nodup_keys_run (keys_start p) before
  have hviews : store.views = overlay snapshot (offered past) := by
    rw [hsnap, offered_encounters]
    refine (views_run hn after).trans ?_
    simp only [Store.views, hentries]
  have hshown : shown = overlay snapshot (appended past) := by
    rw [← hqueue]
  have hn' : (keys store.entries).Nodup := nodup_keys_run hn after
  have hdistinct : Distinct snapshot := by
    rw [hsnap]
    exact distinct_views (nodup_keys_run (keys_start p) before)
  refine ⟨hsnap, ?_, ?_⟩
  · intro peer hlast
    rw [hshown, viewsOf_overlay hdistinct, ← getLast?_offered hoffers hlast,
      ← viewsOf_overlay hdistinct, ← hviews]
    exact viewsOf_views hn' peer
  · intro hdrop
    have hall : ∀ v o, .offered v o ∈ past → o = .delivered := by
      intro v o hm
      exact (hoffers v o hm).resolve_right fun ho => hdrop v (ho ▸ hm)
    have heq : shown = store.views := by
      rw [hshown, hviews, offered_eq_appended hall]
    have hids : store.views.map View.peerId = keys store.entries :=
      peerIds_viewsOfEntries store.entries
    rw [heq, hids]
    exact ⟨rfl, rfl, hn'⟩

/-- The queue of one is full when the second peer is found. The first peer is shown as the store
has it all the same. -/
theorem overlay_shows_store_after_drop :
    let p : NotifyPolicy := ⟨1, 3, 4⟩
    let first : PeerId := ⟨"A", by decide, by decide⟩
    let second : PeerId := ⟨"B", by decide, by decide⟩
    let old : Update := ⟨0, ⟨first, []⟩, true, none⟩
    let new : Update := ⟨5, ⟨first, []⟩, false, none⟩
    let lost : Update := ⟨9, ⟨second, []⟩, true, none⟩
    let h := (((start p).run [.upsert old]).step .subscribe).2
    let after : List Act := [.takeSnapshot 1, .upsert new, .upsert lost]
    ((start p).run [.upsert old]).step .subscribe = (.subscribed 1, h) ∧
      (h.run after).slot 1 = some ⟨1, [new.view], 1, true, true⟩ ∧
      lastOffer first (encounters 1 h after) ≠ some .dropped ∧
      .offered lost.view .dropped ∈ encounters 1 h after ∧
      viewsOf first (overlay (snapshotTaken 1 h after ++ (h.run after).untaken 1)
        (taken (encounters 1 h after) ++ [new.view])) = [new.view] := by
  intro p first second old new lost h after
  have hlast : lastOffer first (encounters 1 h after) ≠ some .dropped := by decide
  have hshown := overlay_shows_store p [.upsert old] after 1 h ⟨1, [new.view], 1, true, true⟩
    rfl rfl rfl
  exact ⟨rfl, rfl, hlast, by decide, hshown.2.1 first hlast⟩

end Hub
end PeerWatch
