import Mathlib.Data.List.Induction
import PeerWatch.Proofs.Entries
import PeerWatch.Proofs.Hub

/-! Views laid over views: one takes the place of the view of the same peer, or comes last if there
is none. Whoever lays all updates over the views of a store has the views of the store after them,
in the same order. -/
namespace PeerWatch
variable {shown vs ws : List View} {v w : View} {id : PeerId} {es : List (PeerId × Entry)}

def View.over (shown : List View) (v : View) : List View :=
  if v.peerId ∈ shown.map View.peerId then shown.map fun w => if w.peerId = v.peerId then v else w
  else shown ++ [v]

def overlay (shown vs : List View) : List View := vs.foldl View.over shown

def viewsOf (id : PeerId) (vs : List View) : List View := vs.filter fun v => v.peerId = id

def Distinct (shown : List View) : Prop := (shown.map View.peerId).Nodup

@[simp] theorem overlay_concat : overlay shown (vs ++ [v]) = View.over (overlay shown vs) v := by
  simp [overlay]

theorem peerIds_over : (View.over shown v).map View.peerId =
    if v.peerId ∈ shown.map View.peerId then shown.map View.peerId
    else shown.map View.peerId ++ [v.peerId] := by
  unfold View.over
  split_ifs
  · rw [List.map_map]
    refine List.map_congr_left fun w _ => ?_
    simp only [Function.comp]
    split_ifs with h
    · exact h.symm
    · rfl
  · simp

theorem Distinct.over (h : Distinct shown) : Distinct (View.over shown v) := by
  unfold Distinct
  rw [peerIds_over]
  split_ifs with hv
  · exact h
  · refine List.nodup_append.2 ⟨h, List.nodup_singleton _, ?_⟩
    intro a ha b hb
    rw [List.mem_singleton.1 hb]
    exact fun he => hv (he ▸ ha)

theorem Distinct.overlay (h : Distinct shown) (vs : List View) : Distinct (overlay shown vs) := by
  induction vs using List.reverseRecOn with
  | nil => exact h
  | append_singleton vs v ih =>
    rw [overlay_concat]
    exact ih.over

theorem viewsOf_eq_singleton (h : Distinct shown) (hw : w ∈ shown) :
    viewsOf w.peerId shown = [w] := by
  obtain ⟨as, bs, rfl⟩ := List.append_of_mem hw
  simp only [Distinct, List.map_append, List.map_cons] at h
  obtain ⟨-, hbs, has⟩ := List.nodup_append.1 h
  have has' : viewsOf w.peerId as = [] := by
    rw [viewsOf, List.filter_eq_nil_iff]
    intro x hx
    simpa using has _ (List.mem_map_of_mem hx) _ List.mem_cons_self
  have hbs' : viewsOf w.peerId bs = [] := by
    rw [viewsOf, List.filter_eq_nil_iff]
    intro x hx he
    exact (List.nodup_cons.1 hbs).1 (List.mem_map.2 ⟨x, hx, by simpa using he⟩)
  simp only [viewsOf] at has' hbs' ⊢
  simp [has', hbs']

theorem mem_over_self : v ∈ View.over shown v := by
  unfold View.over
  split_ifs with hv
  · obtain ⟨w, hw, he⟩ := List.mem_map.1 hv
    exact List.mem_map.2 ⟨w, hw, if_pos he⟩
  · simp

/-- The view that was laid over is the only one of its peer. -/
theorem viewsOf_over_self (h : Distinct shown) : viewsOf v.peerId (View.over shown v) = [v] :=
  viewsOf_eq_singleton h.over mem_over_self

theorem viewsOf_over_ne (hv : v.peerId ≠ id) :
    viewsOf id (View.over shown v) = viewsOf id shown := by
  have hmap (ws : List View) :
      viewsOf id (ws.map fun w => if w.peerId = v.peerId then v else w) = viewsOf id ws := by
    induction ws with
    | nil => rfl
    | cons w ws ih =>
      simp only [viewsOf] at ih
      by_cases hw : w.peerId = v.peerId
      · simp [viewsOf, hw, hv, ih]
      · simp [viewsOf, hw, ih, List.filter_cons]
  unfold View.over
  split_ifs
  · exact hmap shown
  · simp [viewsOf, hv]

/-- Of the views that are laid over, a peer's last one counts. -/
theorem viewsOf_overlay (h : Distinct shown) (vs : List View) (id : PeerId) :
    viewsOf id (overlay shown vs) =
      match (viewsOf id vs).getLast? with
      | some v => [v]
      | none => viewsOf id shown := by
  induction vs using List.reverseRecOn with
  | nil => rfl
  | append_singleton vs v ih =>
    rw [overlay_concat]
    by_cases hv : v.peerId = id
    · subst hv
      rw [viewsOf_over_self (h.overlay vs)]
      simp [viewsOf]
    · rw [viewsOf_over_ne hv, ih]
      simp [viewsOf, hv]

def viewsOfEntries (es : List (PeerId × Entry)) : List View := es.map fun p => p.2.view p.1

theorem peerId_make (id : PeerId) (c : Bool) (d : Option Document) :
    (View.make id c d).peerId = id := by
  cases d <;> rfl

theorem peerIds_viewsOfEntries (es : List (PeerId × Entry)) :
    (viewsOfEntries es).map View.peerId = keys es := by
  rw [viewsOfEntries, List.map_map]
  refine List.map_congr_left fun p _ => ?_
  exact peerId_make ..

theorem replace_of_notMem (h : v.peerId ∉ shown.map View.peerId) :
    (shown.map fun w => if w.peerId = v.peerId then v else w) = shown := by
  have hw : ∀ w ∈ shown, (if w.peerId = v.peerId then v else w) = w := by
    intro w hw
    exact if_neg fun he : w.peerId = v.peerId => h (he ▸ List.mem_map_of_mem hw)
  exact (List.map_congr_left hw).trans (List.map_id' shown)

/-- Views and entries correspond, so that an entry that is assigned is a view that is laid over. -/
theorem viewsOfEntries_assign (h : (keys es).Nodup) (e : Entry) :
    viewsOfEntries (assign id e es) = View.over (viewsOfEntries es) (e.view id) := by
  have hid : (e.view id).peerId = id := peerId_make ..
  induction es with
  | nil => rfl
  | cons p es ih =>
    obtain ⟨k, c⟩ := p
    obtain ⟨hk, hes⟩ := List.nodup_cons.1 h
    have hkc : (c.view k).peerId = k := peerId_make ..
    by_cases hki : k = id
    · -- the entry is the first one, and no other view is of its peer
      subst hki
      have hrest : (e.view k).peerId ∉ (viewsOfEntries es).map View.peerId := by
        rw [hid, peerIds_viewsOfEntries]
        exact hk
      have hr := replace_of_notMem hrest
      simp only [viewsOfEntries, hid] at hr
      simp [viewsOfEntries, assign, View.over, hid, hkc, hr]
    · have ih' := ih hes
      simp only [viewsOfEntries, View.over, hid] at ih'
      have hki' : ¬ id = k := fun he => hki he.symm
      simp only [viewsOfEntries, assign, if_neg hki, List.map_cons, ih', View.over, hid, hkc,
        List.mem_cons, hki', false_or]
      split_ifs <;> rfl

end PeerWatch
