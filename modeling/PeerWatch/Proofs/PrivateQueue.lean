import Mathlib.Data.List.Induction
import PeerWatch.Proofs.Hub

/-! Every subscriber has a bounded queue of its own. What the queue does next is told by what it has
met so far: `next` is a function of that past alone, in which no other subscriber occurs. The main
statement is that a subscriber of a hub meets just this, whatever else is asked of the hub. -/
namespace PeerWatch

inductive Encounter
  | offered (v : View) (o : Offer)
  | received (r : Received)
  | removed
  | released
  deriving DecidableEq

namespace Encounter

def appended? : Encounter → Option View
  | .offered v .delivered => some v
  | _ => none

def taken? : Encounter → Option View
  | .received (.view v) => some v
  | _ => none

def offer? : Encounter → Option Offer
  | .offered _ o => some o
  | _ => none

def closes : Encounter → Bool
  | .offered _ .evicted | .removed | .released => true
  | _ => false

end Encounter

namespace PrivateQueue
variable {past : List Encounter} {e : Encounter} {p : NotifyPolicy} {v : View}

def appended (past : List Encounter) : List View := past.filterMap Encounter.appended?

def taken (past : List Encounter) : List View := past.filterMap Encounter.taken?

def isOpen (past : List Encounter) : Bool := !past.any Encounter.closes

def isHeld (past : List Encounter) : Bool := !past.contains .released

def waiting (past : List Encounter) : List View :=
  if isHeld past then (appended past).drop (taken past).length else []

/-- How many updates in a row were dropped, up to now. -/
def streak (past : List Encounter) : Nat :=
  ((past.filterMap Encounter.offer?).reverse.takeWhile (· = .dropped)).length

def room (p : NotifyPolicy) : Nat := max 1 p.queueCapacity

def limit (p : NotifyPolicy) : Nat := max 1 p.maxDrops

def verdict (p : NotifyPolicy) (past : List Encounter) : Offer :=
  if !isOpen past then .absent
  else if (waiting past).length < room p then .delivered
  else if streak past + 1 = limit p then .evicted
  else .dropped

def answer (past : List Encounter) : Received :=
  match waiting past with
  | v :: _ => .view v
  | [] => if isOpen past then .empty else .closed

def next (p : NotifyPolicy) (past : List Encounter) : QueueAct → Encounter
  | .offer v => .offered v (verdict p past)
  | .receive => .received (answer past)
  | .remove => .removed
  | .release => .released

def history (p : NotifyPolicy) (past : List Encounter) (os : List QueueAct) : List Encounter :=
  os.foldl (fun past o => past ++ [next p past o]) past

theorem history_concat (os : List QueueAct) (o : QueueAct) :
    history p past (os ++ [o]) = history p past os ++ [next p (history p past os) o] := by
  simp [history]

/-- Only the bounds of a policy count. -/
theorem history_congr {p' : NotifyPolicy} (hr : room p' = room p) (hl : limit p' = limit p) :
    history p' = history p := by
  have hn : next p' = next p := by
    funext past o
    cases o <;> simp only [next, verdict, hr, hl]
  funext past os
  simp only [history, hn]

/-- What holds of a past, and goes on holding, holds of all that follows. -/
theorem history_induction {P : List Encounter → Prop} (h₀ : P past)
    (hs : ∀ past o, P past → P (past ++ [next p past o])) (os : List QueueAct) :
    P (history p past os) := by
  induction os using List.reverseRecOn with
  | nil => exact h₀
  | append_singleton os o ih =>
    rw [history_concat]
    exact hs _ o ih

@[simp] theorem appended_concat :
    appended (past ++ [e]) = appended past ++ e.appended?.toList := by
  cases h : e.appended? <;> simp [appended, List.filterMap_append, h]

@[simp] theorem taken_concat : taken (past ++ [e]) = taken past ++ e.taken?.toList := by
  cases h : e.taken? <;> simp [taken, List.filterMap_append, h]

@[simp] theorem isOpen_concat : isOpen (past ++ [e]) = (isOpen past && !e.closes) := by
  simp [isOpen]

@[simp] theorem isHeld_concat :
    isHeld (past ++ [e]) = (isHeld past && decide (e ≠ .released)) := by
  simp [isHeld, eq_comm]

theorem isHeld_of_append {es : List Encounter} (h : isHeld (past ++ es) = true) :
    isHeld past = true := by
  simp_all [isHeld]

theorem isHeld_of_isOpen (h : isOpen past = true) : isHeld past = true := by
  simp only [isOpen, Bool.not_eq_true', List.any_eq_false] at h
  simp only [isHeld, Bool.not_eq_true', List.contains_eq_mem, decide_eq_false_iff_not]
  intro hm
  exact h _ hm rfl

theorem streak_concat_of_none (h : e.offer? = none) : streak (past ++ [e]) = streak past := by
  simp [streak, List.filterMap_append, h]

theorem streak_concat_offered (o : Offer) :
    streak (past ++ [.offered v o]) = if o = .dropped then streak past + 1 else 0 := by
  simp only [streak, List.filterMap_append, List.filterMap_cons, Encounter.offer?,
    List.filterMap_nil, List.reverse_append, List.reverse_singleton, List.singleton_append,
    List.takeWhile_cons]
  split_ifs <;> simp_all

theorem waiting_eq {queue : List View} (hh : isHeld past = true)
    (hq : taken past ++ queue = appended past) : waiting past = queue := by
  rw [waiting, if_pos hh, ← hq, List.drop_left]

theorem waiting_of_not_held (hh : isHeld past = false) : waiting past = [] := by
  simp [waiting, hh]

/-- Views are taken in the order in which they were put in, none twice and none left out. -/
theorem taken_prefix (h₀ : taken past <+: appended past) (os : List QueueAct) :
    taken (history p past os) <+: appended (history p past os) := by
  refine history_induction (P := fun past => taken past <+: appended past) h₀ ?_ os
  intro past o ih
  rw [taken_concat, appended_concat]
  cases o with
  | offer v => exact (by simpa [next, Encounter.taken?] using ih.trans (List.prefix_append _ _))
  | remove => simpa [next, Encounter.taken?, Encounter.appended?] using ih
  | release => simpa [next, Encounter.taken?, Encounter.appended?] using ih
  | receive =>
    simp only [next, Encounter.appended?, Option.toList_none, List.append_nil, answer]
    cases hw : waiting past with
    | nil => cases isOpen past <;> simpa [Encounter.taken?] using ih
    | cons v rest =>
      have hh : isHeld past = true := by
        by_contra hh
        simp [waiting_of_not_held (by simpa using hh)] at hw
      obtain ⟨queue, hq⟩ := ih
      have hv : queue = v :: rest := (waiting_eq hh hq).symm.trans hw
      exact ⟨rest, by simp [Encounter.taken?, ← hq, hv]⟩

/-- A queue that is still fed has delivered or dropped whatever it was offered. -/
theorem offers_of_isOpen (os : List QueueAct) : isOpen (history p [] os) = true →
    ∀ v o, .offered v o ∈ history p [] os → o = .delivered ∨ o = .dropped := by
  refine history_induction (P := fun past => isOpen past = true →
    ∀ v o, .offered v o ∈ past → o = .delivered ∨ o = .dropped) (fun _ v o hm => ?_) ?_ os
  · cases hm
  intro past act ih ho v o hm
  rw [isOpen_concat, Bool.and_eq_true] at ho
  rcases List.mem_append.1 hm with hm | hm
  · exact ih ho.1 v o hm
  · have he := List.mem_singleton.1 hm
    rw [← he] at ho
    cases act with
    | offer v' =>
      simp only [next, Encounter.offered.injEq, verdict, ho.1] at he
      obtain ⟨-, rfl⟩ := he
      simp only [ho.1, Bool.not_true, Bool.false_eq_true, if_false] at ho ⊢
      split_ifs at ho ⊢ <;> simp_all [Encounter.closes]
    | _ => simp [next] at he

theorem isOpen_of_not_held (hh : isHeld past = false) : isOpen past = false := by
  by_contra ho
  simp [isHeld_of_isOpen (by simpa using ho)] at hh

/-- A subscriber is in the state that the past of its queue leads to. -/
structure Fits (p : NotifyPolicy) (past : List Encounter) (s : Subscriber) : Prop where
  receiving : s.receiving = true
  registered : s.registered = isOpen past
  queue : taken past ++ s.queue = appended past
  bound : s.queue.length ≤ room p
  drops : isOpen past = true → s.drops = streak past ∧ s.drops < limit p

variable {s : Subscriber}

theorem Fits.offer_eq (hf : Fits p past s) (hh : isHeld past = true) :
    (s.offer p v).1 = verdict p past := by
  have hw := waiting_eq hh hf.queue
  simp only [Subscriber.offer, hf.registered, hf.receiving, verdict, hw]
  cases ho : isOpen past with
  | false => simp
  | true =>
    obtain ⟨hd, hlt⟩ := hf.drops ho
    have hl : s.drops + 1 < p.maxDrops ↔ ¬ streak past + 1 = limit p := by
      simp only [limit] at hlt ⊢
      omega
    simp only [NotifyPolicy.capacity, room, hl]
    by_cases hroom : s.queue.length < max 1 p.queueCapacity
    · simp [hroom]
    · by_cases hlim : streak past + 1 = limit p <;> simp [hroom, hlim]

theorem Fits.offer (hf : Fits p past s) :
    Fits p (past ++ [.offered v (s.offer p v).1]) (s.offer p v).2 := by
  have hr := hf.registered
  have hq := hf.queue
  unfold Subscriber.offer
  split_ifs with h₁ h₂ h₃ h₄
  · -- removed before: nothing changes
    refine ⟨hf.receiving, ?_, ?_, hf.bound, ?_⟩
    · simp_all [Encounter.closes]
    · simpa [Encounter.appended?, Encounter.taken?] using hq
    · simp_all [Encounter.closes]
  · simp [hf.receiving] at h₂
  · -- there is room
    refine ⟨hf.receiving, ?_, ?_, ?_, ?_⟩
    · simpa [Encounter.closes] using hr
    · simp [Encounter.appended?, Encounter.taken?, ← hq]
    · simp only [NotifyPolicy.capacity] at h₃
      simp only [List.length_append, List.length_singleton, room]
      omega
    · intro _
      simp only [streak_concat_offered, limit]
      exact ⟨rfl, by omega⟩
  · -- a drop that the limit allows
    refine ⟨hf.receiving, ?_, ?_, hf.bound, ?_⟩
    · simpa [Encounter.closes] using hr
    · simpa [Encounter.appended?, Encounter.taken?] using hq
    · intro ho
      have hd := (hf.drops (by simpa [Encounter.closes] using ho)).1
      simp only [streak_concat_offered, limit, if_true]
      omega
  · -- the drop that reaches the limit
    refine ⟨hf.receiving, ?_, ?_, hf.bound, ?_⟩
    · simp [Encounter.closes]
    · simpa [Encounter.appended?, Encounter.taken?] using hq
    · simp [Encounter.closes]

theorem Fits.receive (hf : Fits p past s) :
    Fits p (past ++ [.received (Registry.told s)]) { s with queue := s.queue.tail } := by
  have hc : Encounter.closes (.received (Registry.told s)) = false := rfl
  have hn : Encounter.offer? (.received (Registry.told s)) = none := rfl
  have hlen : s.queue.tail.length ≤ room p := by
    have := hf.bound
    rw [List.length_tail]
    omega
  refine ⟨hf.receiving, ?_, ?_, hlen, ?_⟩
  · simpa [hc] using hf.registered
  · have hq := hf.queue
    unfold Registry.told
    cases hs : s.queue with
    | nil =>
      rw [hs] at hq
      cases s.registered <;> simpa [Encounter.appended?, Encounter.taken?] using hq
    | cons v queue =>
      rw [hs] at hq
      simpa [Encounter.appended?, Encounter.taken?] using hq
  · intro ho
    rw [streak_concat_of_none hn]
    exact hf.drops (by simpa [hc] using ho)

theorem Fits.remove (hf : Fits p past s) :
    Fits p (past ++ [.removed]) { s with registered := false } := by
  refine ⟨hf.receiving, ?_, ?_, hf.bound, ?_⟩
  · simp [Encounter.closes]
  · simpa [Encounter.appended?, Encounter.taken?] using hf.queue
  · simp [Encounter.closes]

end PrivateQueue

namespace Hub
open PrivateQueue
variable {h h₁ : Hub} {a : Act} {s : Subscriber} {id : Nat} {past : List Encounter}

theorem eq_release_of_own? (ho : a.own? id = some .release) : a = .release id := by
  cases a with
  | receive i => simp [Act.own?] at ho
  | release i => simpa [Act.own?] using ho
  | clear i => simp [Act.own?] at ho
  | record => exact absurd ho own?_record_ne_release
  | upsert => cases ho
  | subscribe => cases ho
  | takeSnapshot => cases ho

def fate (h : Hub) (id : Nat) (v : View) : Offer :=
  (h.slot id).elim .absent fun s => (s.offer h.registry.policy v).1

def told (h : Hub) (id : Nat) : Received :=
  match (h.receive id).1 with
  | .received r => r
  | _ => .closed

def meet (h : Hub) (id : Nat) : QueueAct → Encounter
  | .offer v => .offered v (h.fate id v)
  | .receive => .received (h.told id)
  | .remove => .removed
  | .release => .released

def encounters (id : Nat) : Hub → List Act → List Encounter
  | _, [] => []
  | h, a :: as => ((a.own? id).map (h.meet id)).toList ++ encounters id (h.step a).2 as

structure Serves (h : Hub) (id : Nat) (past : List Encounter) : Prop where
  fresh : h.registry.Fresh
  given : id < h.registry.nextId
  holds : h.holds id = isHeld past
  slot : isHeld past = true → ∃ s, h.slot id = some s ∧ Fits h.registry.policy past s
  gone : isHeld past = false → h.registry.Gone id

theorem fate_of_gone (hg : h.registry.Gone id) (v : View) : h.fate id v = .absent := by
  unfold fate
  cases hs : h.slot id with
  | none => rfl
  | some s =>
    have hr : s.registered = false :=
      hg s (List.mem_of_find?_eq_some hs) (Registry.id_of_find? hs)
    simp [Subscriber.offer, hr]

theorem told_of_not_holds (hh : h.holds id = false) : h.told id = .closed := by
  simp [told, receive, hh]

theorem told_of_holds (hh : h.holds id = true) (hs : h.slot id = some s) :
    h.told id = Registry.told s := by
  simp only [told, receive, hh, if_true]
  exact Registry.receive_told hs

theorem Serves.fate_eq (hs : h.Serves id past) (v : View) :
    h.fate id v = verdict h.registry.policy past := by
  cases hh : isHeld past with
  | false =>
    rw [fate_of_gone (hs.gone hh)]
    simp [verdict, isOpen_of_not_held hh]
  | true =>
    obtain ⟨s, hslot, hf⟩ := hs.slot hh
    simp only [fate, hslot, Option.elim_some]
    exact hf.offer_eq hh

theorem Serves.told_eq (hs : h.Serves id past) : h.told id = answer past := by
  cases hh : isHeld past with
  | false =>
    have hw := waiting_of_not_held hh
    have ho := isOpen_of_not_held hh
    simp [told_of_not_holds (hs.holds.trans hh), answer, hw, ho]
  | true =>
    obtain ⟨s, hslot, hf⟩ := hs.slot hh
    have hw := waiting_eq hh hf.queue
    rw [told_of_holds (hs.holds.trans hh) hslot]
    cases hq : s.queue <;> simp [Registry.told, answer, hw, hq, hf.registered]

theorem Serves.meet_eq (hs : h.Serves id past) (o : QueueAct) :
    h.meet id o = next h.registry.policy past o := by
  cases o with
  | offer v => simp only [meet, next, hs.fate_eq v]
  | receive => simp only [meet, next, hs.told_eq]
  | remove => rfl
  | release => rfl

theorem Serves.gone_release (hs : h.Serves id past) (ho : a.own? id = some .release) :
    (h.step a).2.registry.Gone id := by
  obtain rfl := eq_release_of_own? ho
  rw [registry_release]
  split_ifs with hh
  · exact Registry.gone_release_self
  · exact hs.gone (hs.holds.symm.trans (by simpa using hh))

theorem fits_meet {o : QueueAct} (hf : Fits h.registry.policy past s) (hslot : h.slot id = some s)
    (hh : h.holds id = true) (ho : o ≠ .release) :
    Fits h.registry.policy (past ++ [h.meet id o]) (o.effect h.registry.policy s) := by
  cases o with
  | offer v =>
    simp only [Hub.meet, fate, hslot, Option.elim_some]
    exact hf.offer
  | receive =>
    simp only [Hub.meet, told_of_holds hh hslot]
    exact hf.receive
  | remove => exact hf.remove
  | release => exact absurd rfl ho

theorem meet_ne_released (h : Hub) (id : Nat) {o : QueueAct} (ho : o ≠ .release) :
    h.meet id o ≠ .released := by
  cases o with
  | release => exact absurd rfl ho
  | _ => simp [Hub.meet]

/-- What an act means to a subscriber adds to the past of its queue, and all else does not. -/
theorem Serves.step (hs : h.Serves id past) :
    (h.step a).2.Serves id (past ++ ((a.own? id).map (h.meet id)).toList) := by
  have hfresh := fresh_step (a := a) hs.fresh
  have hgiven := Nat.lt_of_lt_of_le hs.given (nextId_le_step (h := h) (a := a))
  have hholds := holds_step (a := a) hs.given
  rw [hs.holds] at hholds
  cases ho : a.own? id with
  | none =>
    rw [Option.map_none, Option.toList_none, List.append_nil]
    refine ⟨hfresh, hgiven, by simpa [ho] using hholds, ?_, ?_⟩
    · intro hh
      obtain ⟨s, hslot, hf⟩ := hs.slot hh
      refine ⟨s, ?_, by rwa [policy_step]⟩
      rw [slot_step hslot hf.receiving, own?_of_none ho]
      rfl
    · intro hh
      exact gone_step hs.given (hs.gone hh)
  | some o =>
    rw [Option.map_some, Option.toList_some]
    by_cases hr : o = .release
    · subst hr
      refine ⟨hfresh, hgiven, by simpa [ho, Hub.meet] using hholds, ?_, ?_⟩
      · intro hh
        simp [Hub.meet] at hh
      · intro _
        exact hs.gone_release ho
    · have hm := meet_ne_released h id hr
      refine ⟨hfresh, hgiven, by simpa [ho, hr, hm] using hholds, ?_, ?_⟩
      · intro hh
        have hh' : isHeld past = true := by simpa [hm] using hh
        have hheld := hs.holds.trans hh'
        obtain ⟨s, hslot, hf⟩ := hs.slot hh'
        refine ⟨o.effect h.registry.policy s, ?_, ?_⟩
        · rw [slot_step hslot hf.receiving, own?_of_holds hheld, ho]
          rfl
        · rw [policy_step]
          exact fits_meet hf hslot hheld hr
      · intro hh
        exact gone_step hs.given (hs.gone (by simpa [hm] using hh))

/-- A run of the hub is for a subscriber a run of its own queue. -/
theorem Serves.run (hs : h.Serves id past) (as : List Act) :
    (h.run as).Serves id (past ++ encounters id h as) ∧
      past ++ encounters id h as =
        history h.registry.policy past (as.filterMap (Act.own? id)) := by
  induction as generalizing h past with
  | nil => simpa [encounters, history] using hs
  | cons a as ih =>
    obtain ⟨hend, hpast⟩ := ih hs.step
    rw [policy_step] at hpast
    rw [encounters, ← List.append_assoc, run_cons]
    refine ⟨hend, hpast.trans ?_⟩
    cases ho : a.own? id with
    | none => simp [ho]
    | some o => simp [ho, history, hs.meet_eq]

/-- What is taken during a run goes on in the order in which it was put in. -/
theorem Serves.order (hs : h.Serves id past) (h₀ : taken past <+: appended past)
    (as : List Act) :
    taken (past ++ encounters id h as) <+: appended (past ++ encounters id h as) := by
  rw [(hs.run as).2]
  exact taken_prefix h₀ _

/-- A subscriber that registers is served as a new queue. -/
theorem Serves.start (hf : h.registry.Fresh)
    (hsub : h.step .subscribe = (.subscribed id, h₁)) : h₁.Serves id [] := by
  obtain ⟨hid, hslot, hheld, -, hreg⟩ := subscribe_granted hf hsub
  have hfresh : h₁.registry.Fresh := by
    rw [hreg]
    exact hf.register
  refine ⟨hfresh, hfresh _ (List.mem_of_find?_eq_some hslot), ?_, ?_, ?_⟩
  · simp [Hub.holds, hheld, isHeld]
  · intro _
    exact ⟨_, hslot, rfl, rfl, rfl, Nat.zero_le _, fun _ => ⟨rfl, by simp only [limit]; omega⟩⟩
  · intro hh
    simp [isHeld] at hh

theorem Serves.isRegistered_eq (hs : h.Serves id past) : h.isRegistered id = isOpen past := by
  unfold isRegistered
  cases hh : isHeld past with
  | true =>
    obtain ⟨s, hslot, hf⟩ := hs.slot hh
    simp [hslot, hf.registered]
  | false =>
    rw [isOpen_of_not_held hh, Option.any_eq_false]
    intro s hslot
    simpa using hs.gone hh s (List.mem_of_find?_eq_some hslot) (Registry.id_of_find? hslot)

theorem Serves.fits (hs : h.Serves id past) (hslot : h.slot id = some s)
    (hreg : s.registered = true) : isOpen past = true ∧ Fits h.registry.policy past s := by
  have hopen : isOpen past = true := by
    rw [← hs.isRegistered_eq, isRegistered, hslot, Option.any_some, hreg]
  obtain ⟨s', hslot', hf⟩ := hs.slot (isHeld_of_isOpen hopen)
  obtain rfl := Option.some.inj (hslot.symm.trans hslot')
  exact ⟨hopen, hf⟩

/-- A subscriber that registered at `h` has, after `as`, the queue that its own part in `as` leads
to. Its drops in a row stay below the limit, within 32 bits if the limit is. -/
structure ServedAlone (p : NotifyPolicy) (h : Hub) (id : Nat) (as : List Act) : Prop where
  met : encounters id h as = history p [] (as.filterMap (Act.own? id))
  registered : (h.run as).isRegistered id = isOpen (encounters id h as)
  queue : isHeld (encounters id h as) = true → ∃ s, (h.run as).slot id = some s ∧
    s.queue = waiting (encounters id h as) ∧ s.queue.length ≤ room p
  drops : ∀ s, (h.run as).slot id = some s → s.registered = true →
    s.drops = streak (encounters id h as) ∧ s.drops < limit p ∧
      (p.maxDrops < 4294967296 → s.drops + 1 < 4294967296)
  order : taken (encounters id h as) <+: appended (encounters id h as)

theorem Serves.servedAlone {p : NotifyPolicy} (hs : h.Serves id []) (hp : h.registry.policy = p)
    (as : List Act) : h.ServedAlone p id as := by
  obtain ⟨hend, hmet⟩ := hs.run as
  rw [List.nil_append] at hend
  rw [List.nil_append, hp] at hmet
  have hpol : (h.run as).registry.policy = p := (policy_run as).trans hp
  refine ⟨hmet, hend.isRegistered_eq, ?_, ?_, hs.order (List.prefix_refl _) as⟩
  · intro hh
    obtain ⟨s, hslot, hf⟩ := hend.slot hh
    exact ⟨s, hslot, (waiting_eq hh hf.queue).symm, hpol ▸ hf.bound⟩
  · intro s hslot hreg
    obtain ⟨hopen, hf⟩ := hend.fits hslot hreg
    obtain ⟨hd, hlt⟩ := hf.drops hopen
    rw [hpol] at hlt
    refine ⟨hd, hlt, ?_⟩
    simp only [limit] at hlt
    omega

/-- Every subscriber of every run is served as if it were alone: what its queue meets is a function
of the updates since its registration and of what is done to itself. Two such subscribers of any two
runs meet the same if these are the same, and the entries are a function of the updates. -/
theorem subscriber_served_alone (p : NotifyPolicy) (before after : List Act) (id : Nat) (h : Hub)
    (hsub : ((start p).run before).step .subscribe = (.subscribed id, h)) :
    h.ServedAlone p id after ∧
    (∀ (p' : NotifyPolicy) (before' after' : List Act) (id' : Nat) (h' : Hub),
      ((start p').run before').step .subscribe = (.subscribed id', h') →
      room p' = room p → limit p' = limit p →
      after'.filterMap (Act.own? id') = after.filterMap (Act.own? id) →
      encounters id' h' after' = encounters id h after) ∧
    ∀ (p' : NotifyPolicy) (as as' : List Act),
      as'.filterMap Act.update? = as.filterMap Act.update? →
      ((start p').run as').store.entries = ((start p).run as).store.entries := by
  have alone (p : NotifyPolicy) (before after : List Act) (id : Nat) (h : Hub)
      (hsub : ((start p).run before).step .subscribe = (.subscribed id, h)) :
      h.ServedAlone p id after := by
    have hs := Serves.start (fresh_run (fresh_start p) before) hsub
    refine hs.servedAlone ?_ after
    have hpol := policy_step (h := (start p).run before) (a := .subscribe)
    rw [hsub] at hpol
    exact hpol.trans (policy_run before)
  refine ⟨alone p before after id h hsub, ?_, ?_⟩
  · intro p' before' after' id' h' hsub' hr hl hown
    rw [(alone p before after id h hsub).met, (alone p' before' after' id' h' hsub').met, hown,
      history_congr hr hl]
  · intro p' as as' hu
    rw [entries_run, entries_run, hu]
    rfl

/-- A policy of zeros: room for one view, and the first drop is the last. What was queued is still
received after the eviction. -/
theorem subscriber_served_alone_zero :
    let p : NotifyPolicy := ⟨0, 0, 1⟩
    let u : Update := ⟨0, ⟨⟨"A", by decide, by decide⟩, []⟩, true, none⟩
    let h := ((start p).run [.upsert u]).step .subscribe |>.2
    let after : List Act := [.upsert u, .upsert u, .upsert u, .receive 1, .receive 1]
    ((start p).run [.upsert u]).step .subscribe = (.subscribed 1, h) ∧
      h.ServedAlone p 1 after ∧
      encounters 1 h after = [.offered u.view .delivered, .offered u.view .evicted,
        .offered u.view .absent, .received (.view u.view), .received .closed] := by
  intro p u h after
  exact ⟨rfl, (subscriber_served_alone p [.upsert u] after 1 h rfl).1, by decide⟩

end Hub
end PeerWatch
