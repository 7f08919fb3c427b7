import Mathlib.Data.List.ReduceOption
import PeerWatch.Proofs.Base64
import PeerWatch.Proofs.SessionStep

/-! What a session writes. The bytes that its writer has accepted are whole records and, if a write
has failed, the beginning of one more. The records are those of the snapshot and then those of the
queued updates, none left out and none twice, with a keep-alive only where nothing was queued. -/
namespace PeerWatch
open PrivateQueue
variable {p : SessionPolicy} {h : Hub} {s : Session} {e : SessionEvent} {c : Course}
  {acts : List Act} {new : Option (List UInt8)} {views : List View} {past : List Encounter}
  {id : Nat}

theorem View.render_ne_nil (v : View) : v.render ≠ [] := List.cons_ne_nil _ _

theorem View.encode_render_ne_nil (v : View) : Base64.encode v.render ≠ [] :=
  Base64.encode_ne_nil v.render_ne_nil

theorem View.record_ne_keepAlive (v : View) : v.record ≠ keepAlive := by
  intro he
  have hnil : Base64.encode v.render ++ [10] = [] ++ [10] := he
  exact v.encode_render_ne_nil (List.append_cancel_right hnil)

def line : Option View → List UInt8
  | some v => v.record
  | none => keepAlive

/-- A record that was begun, and the updates that were waiting then. -/
structure Begun where
  record : List UInt8
  waiting : List View
  deriving DecidableEq

/-- The records that were begun are those accepted and, at their end, what is still unsent. -/
structure Framed (records : List (List UInt8)) (accepted : List UInt8) (s : Session) : Prop where
  sent : accepted ++ s.unsent = records.flatten
  rests : s.writing = false → s.unsent = []
  writes : s.writing = true → ∃ r, records.getLast? = some r ∧ s.unsent <:+ r

namespace Framed
variable {records : List (List UInt8)} {accepted : List UInt8} {t : Session} {r : List UInt8}

theorem begins (hf : Framed records accepted s) (rests : s.writing = false)
    (hw : t.writing = true) (hu : t.unsent = r) :
    Framed (records ++ [r]) (accepted ++ []) t := by
  have hsent := hf.sent
  rw [hf.rests rests, List.append_nil] at hsent
  refine ⟨?_, by simp [hw], fun _ => ⟨r, by simp, hu ▸ List.suffix_refl _⟩⟩
  simp [hsent, hu]

theorem stays (hf : Framed records accepted s) (hw : t.writing = s.writing)
    (hu : t.unsent = s.unsent) : Framed (records ++ []) (accepted ++ []) t := by
  rw [List.append_nil, List.append_nil]
  exact ⟨hu ▸ hf.sent, hw ▸ hu ▸ hf.rests, hw ▸ hu ▸ hf.writes⟩

theorem goes (hf : Framed records accepted s) (hg : Goes h s e acts new c) :
    Framed (records ++ new.toList) (accepted ++ Course.accepts ⟨s, none⟩ e) c.session := by
  cases hg with
  | idle accepts =>
    rw [accepts]
    exact hf.stays rfl rfl
  | cancel rests => exact hf.stays rfl rfl
  | tell rests next => exact hf.begins rests rfl rfl
  | update rests live told => exact hf.begins rests rfl rfl
  | keepAlive rests live told => exact hf.begins rests rfl rfl
  | wait rests told => exact hf.stays rfl rfl
  | evict rests live told => exact hf.stays rfl rfl
  | @accept n writes =>
    obtain ⟨r, hr, hsuf⟩ := hf.writes writes
    have haccepts : Course.accepts ⟨s, none⟩ (.reply (.accepted n)) = s.unsent.take n := by
      simp [Course.accepts, writes]
    rw [haccepts, Option.toList_none, List.append_nil]
    refine ⟨?_, by simp [writes], fun _ => ⟨r, hr, (List.drop_suffix n s.unsent).trans hsuf⟩⟩
    rw [List.append_assoc, List.take_append_drop, hf.sent]
  | flush writes =>
    rw [Option.toList_none, List.append_nil]
    refine ⟨by simpa [Course.accepts] using hf.sent, ?_, fun _ => hf.writes writes⟩
    intro hw
    simpa using hw
  | @fail r why writes broken refuses =>
    have haccepts : Course.accepts ⟨s, none⟩ (.reply r) = [] := by
      cases r with
      | accepted n => exact absurd rfl (refuses n)
      | _ => rfl
    rw [haccepts]
    exact hf.stays rfl rfl

/-- What a framed session has sent: whole records, and the beginning of one more only while it
writes. -/
theorem split (hf : Framed records accepted s) :
    ∃ done rest part, records = done ++ rest ∧ accepted = done.flatten ++ part ∧
      (rest = [] ∧ part = [] ∨
        ∃ r, rest = [r] ∧ part <+: r ∧ part ≠ r ∧ s.writing = true) := by
  have hsent := hf.sent
  by_cases hu : s.unsent = []
  · rw [hu, List.append_nil] at hsent
    exact ⟨records, [], [], by simp, by simp [hsent], Or.inl ⟨rfl, rfl⟩⟩
  · have hw : s.writing = true := by
      by_contra hw
      exact hu (hf.rests (by simpa using hw))
    obtain ⟨r, hlast, part, hr⟩ := hf.writes hw
    obtain ⟨done, rfl⟩ := List.getLast?_eq_some_iff.1 hlast
    refine ⟨done, [r], part, rfl, ?_, Or.inr ⟨r, rfl, ⟨s.unsent, hr⟩, ?_, hw⟩⟩
    · rw [List.flatten_append, List.flatten_singleton, ← hr, ← List.append_assoc] at hsent
      exact List.append_cancel_right hsent
    · rintro rfl
      exact hu (List.append_right_eq_self.1 hr)

end Framed

/-- The records are those of the snapshot so far, and only after all of it those of what was taken
from the queue, with keep-alives among them. -/
def Ordered (views : List View) (past : List Encounter) (records : List (List UInt8))
    (snapshot : List View) : Prop :=
  ∃ shown live, shown ++ snapshot = views ∧ (live = [] ∨ snapshot = []) ∧
    records = shown.map View.record ++ live.map line ∧ live.reduceOption = taken past

@[simp] theorem Hub.encounters_nil : h.encounters id [] = [] := rfl

@[simp] theorem Hub.encounters_receive :
    h.encounters id [.receive id] = [.received (h.told id)] := by
  simp [Hub.encounters, Act.own?, Hub.meet]

@[simp] theorem Hub.encounters_release : h.encounters id [.release id] = [.released] := by
  simp [Hub.encounters, Act.own?, Hub.meet]

@[simp] theorem Hub.encounters_receive_release :
    h.encounters id [.receive id, .release id] = [.received (h.told id), .released] := by
  simp [Hub.encounters, Act.own?, Hub.meet]

theorem Ordered.goes {records : List (List UInt8)} (ho : Ordered views past records s.snapshot)
    (hg : Goes h s e acts new c) :
    Ordered views (past ++ h.encounters s.subscriber acts) (records ++ new.toList)
      c.session.snapshot := by
  obtain ⟨shown, live, hviews, hlive, hrec, htaken⟩ := ho
  have stays {t : List View} {es : List Encounter} (ht : t = s.snapshot)
      (hes : taken (past ++ es) = taken past) : Ordered views (past ++ es) (records ++ []) t := by
    rw [List.append_nil, ht]
    exact ⟨shown, live, hviews, hlive, hrec, htaken.trans hes.symm⟩
  cases hg with
  | idle accepts => exact stays rfl (by simp)
  | accept writes => exact stays rfl (by simp)
  | flush writes => exact stays rfl (by simp)
  | cancel rests => exact stays rfl (by simp [taken, Encounter.taken?])
  | fail writes broken refuses => exact stays rfl (by simp [taken, Encounter.taken?])
  | wait rests told => exact stays rfl (by simp [told, taken, Encounter.taken?])
  | evict rests live told => exact stays rfl (by simp [told, taken, Encounter.taken?])
  | @tell now v rest d rests next =>
    obtain rfl : live = [] := hlive.resolve_right (by simp [next])
    refine ⟨shown ++ [v], [], ?_, Or.inl rfl, ?_, ?_⟩
    · rw [← hviews, next, List.append_assoc, List.singleton_append]
    · simp [hrec]
    · simpa using htaken
  | @update now v d k rests hs told =>
    refine ⟨shown, live ++ [some v], hviews, Or.inr hs, ?_, ?_⟩
    · simp [hrec, line]
    · simp [told, List.reduceOption_append, htaken, Encounter.taken?]
  | keepAlive rests hs told =>
    refine ⟨shown, live ++ [none], hviews, Or.inr hs, ?_, ?_⟩
    · simp [hrec, line]
    · simp [told, List.reduceOption_append, htaken, Encounter.taken?]

namespace Hub

def queue (h : Hub) (id : Nat) : List View := (h.slot id).elim [] (·.queue)

theorem Serves.queue_eq (hs : h.Serves id past) (hh : isHeld past = true) :
    h.queue id = waiting past ∧ taken past ++ h.queue id = appended past := by
  obtain ⟨t, hslot, hf⟩ := hs.slot hh
  rw [queue, hslot, Option.elim_some, waiting_eq hh hf.queue]
  exact ⟨rfl, hf.queue⟩

/-- Whoever is told that there is nothing has nothing queued. -/
theorem Serves.queue_of_told (hs : h.Serves id past) (hh : isHeld past = true)
    (ht : ∀ v, h.told id ≠ .view v) : h.queue id = [] := by
  rw [(hs.queue_eq hh).1]
  cases hw : waiting past with
  | nil => rfl
  | cons v rest =>
    refine absurd ?_ (ht v)
    rw [hs.told_eq, answer, hw]

end Hub

/-- How a session may have ended: in the middle of a record only by its writer, and by eviction only
when all is told that was ever queued. -/
def Over (past : List Encounter) (s : Session) (why : SessionEnd) : Prop :=
  (s.writing = true → why.isWrite = true) ∧
    (why = .evicted → s.snapshot = [] ∧ taken past = appended past)

theorem Over.goes (hs : h.Serves s.subscriber past) (hh : isHeld past = true)
    (hg : Goes h s e acts new c) {why : SessionEnd} (hc : c.ended = some why) :
    Over (past ++ h.encounters s.subscriber acts) c.session why := by
  cases hg <;> cases hc
  case cancel rests => exact ⟨by simp [rests], by simp⟩
  case fail writes refuses broken =>
    refine ⟨fun _ => broken, ?_⟩
    rintro rfl
    cases broken
  case evict k rests live told =>
    have hq := hs.queue_of_told hh (by simp [told])
    have happ := (hs.queue_eq hh).2
    rw [hq, List.append_nil] at happ
    refine ⟨by simp [rests], fun _ => ⟨live, ?_⟩⟩
    simpa [told, appended, taken, List.filterMap_cons, Encounter.taken?, Encounter.appended?]
      using happ

namespace Goes

theorem subscriber_eq (hg : Goes h s e acts new c) : c.session.subscriber = s.subscriber := by
  cases hg <;> rfl

/-- A session holds its subscription until it ends. -/
theorem isHeld_eq (hh : isHeld past = true) (hg : Goes h s e acts new c) :
    isHeld (past ++ h.encounters s.subscriber acts) = c.ended.isNone := by
  cases hg <;> simp_all [isHeld]

/-- A session puts nothing into its own queue. -/
theorem appended_eq (hg : Goes h s e acts new c) :
    appended (past ++ h.encounters s.subscriber acts) = appended past := by
  cases hg <;> simp [appended, List.filterMap_cons, Encounter.appended?]

/-- A keep-alive begins only where nothing is queued. -/
theorem queue_of_keepAlive (hs : h.Serves s.subscriber past) (hh : isHeld past = true)
    (hg : Goes h s e acts (some PeerWatch.keepAlive) c) : h.queue s.subscriber = [] := by
  generalize hn : PeerWatch.keepAlive = r at hg
  cases hg with
  | @tell _ v => exact absurd hn.symm v.record_ne_keepAlive
  | @update _ v => exact absurd hn.symm v.record_ne_keepAlive
  | keepAlive rests live told => exact hs.queue_of_told hh (by simp [told])

theorem acts_own (hg : Goes h s e acts new c) :
    ∀ a ∈ acts, a = .receive s.subscriber ∨ a = .release s.subscriber := by
  cases hg <;> simp

end Goes

/-- Receiving and giving up change no other subscriber and no entry. -/
theorem Hub.frame_run (ha : ∀ a ∈ acts, a = .receive id ∨ a = .release id) :
    (h.run acts).store.entries = h.store.entries ∧
      ∀ i, i ≠ id → (h.run acts).slot i = h.slot i := by
  induction acts generalizing h with
  | nil => exact ⟨rfl, fun _ _ => rfl⟩
  | cons a acts ih =>
    obtain ⟨hentries, hslot⟩ := ih (h := (h.step a).2) fun a ha' => ha a (List.mem_cons_of_mem _ ha')
    rw [Hub.run_cons, hentries]
    rcases ha a List.mem_cons_self with rfl | rfl
    · exact ⟨entries_step_of_no_update rfl, fun i hi => (hslot i hi).trans (slot_receive_ne hi)⟩
    · exact ⟨entries_step_of_no_update rfl, fun i hi => (hslot i hi).trans (slot_release_ne hi)⟩

namespace Scene

def begun? (p : SessionPolicy) (s : Scene) : Incident → Option Begun
  | .session e =>
    (s.course.begun? (s.hub.serve p s.course e).2).map fun r => ⟨r, s.hub.queue s.id⟩
  | .other _ => none

def log (p : SessionPolicy) : Scene → List Incident → List Begun
  | _, [] => []
  | s, i :: is => (s.begun? p i).toList ++ log p (s.step p i) is

def queues (s : Scene) : Incident → Option View
  | .session _ => none
  | .other a => (a.update?.map Update.view).filter fun v => s.hub.fate s.id v = .delivered

def queued (p : SessionPolicy) : Scene → List Incident → List View
  | _, [] => []
  | s, i :: is => (s.queues i).toList ++ queued p (s.step p i) is

end Scene

/-- What holds of a session that has begun the records of `log`, given the past of its queue. -/
structure Tells (id : Nat) (views : List View) (past : List Encounter) (log : List Begun)
    (s : Scene) : Prop where
  id_eq : s.id = id
  serves : s.hub.Serves id past
  held : isHeld past = s.course.ended.isNone
  order : taken past <+: appended past
  framed : Framed (log.map Begun.record) s.accepted s.course.session
  ordered : Ordered views past (log.map Begun.record) s.course.session.snapshot
  quiet : ∀ b ∈ log, b.record = keepAlive → b.waiting = []
  closing : ∀ why, s.course.ended = some why → Over past s.course.session why

variable {log : List Begun} {t : Scene}

theorem Tells.session (ht : Tells id views past log t) (p : SessionPolicy) (e : SessionEvent) :
    ∃ past', appended past' = appended past ∧
      Tells id views past' (log ++ (t.begun? p (.session e)).toList) (t.step p (.session e)) := by
  obtain rfl := ht.id_eq
  obtain ⟨h, ⟨s, ended⟩, accepted⟩ := t
  have hheld := ht.serves.holds.trans ht.held
  cases ended with
  | some why =>
    have hserve : h.serve p ⟨s, some why⟩ e = (h, ⟨s, some why⟩) := Hub.serve_of_ended rfl hheld
    have haccepts : Course.accepts ⟨s, some why⟩ e = [] := by
      cases e with
      | turn cancelled now => rfl
      | reply r => cases r <;> rfl
    refine ⟨past, rfl, ?_⟩
    simp only [Scene.step, Scene.begun?, hserve, haccepts, List.append_nil]
    simpa [Course.begun?] using ht
  | none =>
    obtain ⟨acts, new, hg, hrun⟩ := Hub.serve_goes p e hheld
    have hh : isHeld past = true := ht.held
    have hbegun : Scene.begun? p ⟨h, ⟨s, none⟩, accepted⟩ (.session e) =
        new.map fun r => ⟨r, h.queue s.subscriber⟩ := by
      rw [Scene.begun?, hg.begun?_eq]
      rfl
    have hlog : (log ++ (new.map fun r => (⟨r, h.queue s.subscriber⟩ : Begun)).toList).map
        Begun.record = log.map Begun.record ++ new.toList := by
      cases new <;> simp
    rw [hbegun]
    have hserves := (ht.serves.run acts).1
    rw [← hrun] at hserves
    refine ⟨_, hg.appended_eq, hg.subscriber_eq, hserves, hg.isHeld_eq hh,
      ht.serves.order ht.order acts, ?_, ?_, ?_, fun why => .goes ht.serves hh hg⟩
    · rw [hlog]
      exact ht.framed.goes hg
    · rw [hlog]
      exact ht.ordered.goes hg
    · intro b hb hkeep
      rcases List.mem_append.1 hb with hb | hb
      · exact ht.quiet b hb hkeep
      · obtain ⟨r, rfl, rfl⟩ := Option.map_eq_some_iff.1 (Option.mem_toList.1 hb)
        obtain rfl : r = keepAlive := hkeep
        exact hg.queue_of_keepAlive ht.serves hh

/-- What others ask is at most an update or a removal to the session's queue. -/
theorem Act.own?_of_not_byHolder {a : Act} (ha : a.byHolder id = false) :
    a.own? id = (a.update?.map fun u => .offer u.view) ∨
      a.update? = none ∧ a.own? id = some .remove := by
  cases a with
  | upsert u => exact Or.inl rfl
  | record started now address size result => exact Or.inl rfl
  | subscribe => exact Or.inl rfl
  | takeSnapshot i => exact Or.inl rfl
  | receive i =>
    have hi : ¬ i = id := by simpa [byHolder] using ha
    exact Or.inl (if_neg hi)
  | release i =>
    have hi : ¬ i = id := by simpa [byHolder] using ha
    exact Or.inl (if_neg hi)
  | clear i =>
    by_cases hi : i = id
    · exact Or.inr ⟨rfl, if_pos hi⟩
    · exact Or.inl (if_neg hi)

/-- What others ask neither takes from the session's queue nor gives up its subscription, and puts
in what is delivered. -/
theorem Hub.meet_of_not_byHolder (h : Hub) (past : List Encounter) {a : Act}
    (ha : a.byHolder id = false) :
    let es := ((a.own? id).map (h.meet id)).toList
    taken (past ++ es) = taken past ∧ isHeld (past ++ es) = isHeld past ∧
      appended (past ++ es) = appended past ++
        ((a.update?.map Update.view).filter fun v => h.fate id v = .delivered).toList := by
  intro es
  rcases Act.own?_of_not_byHolder ha with ho | ⟨hu, ho⟩
  · cases hu : a.update? with
    | none =>
      have hes : es = [] := by simp [es, ho, hu]
      simp [hes]
    | some u =>
      have hes : es = [.offered u.view (h.fate id u.view)] := by simp [es, ho, hu, meet]
      rw [hes]
      refine ⟨by simp [Encounter.taken?], by simp, ?_⟩
      by_cases hd : h.fate id u.view = .delivered
      · simp [hd, Encounter.appended?, Option.filter]
      · have happ : Encounter.appended? (.offered u.view (h.fate id u.view)) = none := by
          cases hf : h.fate id u.view <;> simp_all [Encounter.appended?]
        simp [hd, happ]
  · have hes : es = [.removed] := by simp [es, ho, meet]
    simp [hes, hu, Encounter.taken?, Encounter.appended?]

theorem Tells.other (ht : Tells id views past log t) (p : SessionPolicy) (a : Act) :
    ∃ past', appended past' = appended past ++ (t.queues (.other a)).toList ∧
      Tells id views past' log (t.step p (.other a)) := by
  obtain rfl := ht.id_eq
  cases ha : a.byHolder t.id with
  | true =>
    have hu : a.update? = none := by
      cases a <;> first | rfl | cases ha
    refine ⟨past, by simp [Scene.queues, hu], ?_⟩
    rwa [Scene.step, if_pos ha]
  | false =>
    obtain ⟨htaken, hheld, happ⟩ := Hub.meet_of_not_byHolder t.hub past ha
    refine ⟨past ++ ((a.own? t.id).map (t.hub.meet t.id)).toList, happ, ?_⟩
    rw [Scene.step, if_neg (by simp [ha])]
    have horder := ht.order.trans (happ ▸ List.prefix_append _ _)
    refine ⟨rfl, ht.serves.step, hheld.trans ht.held, htaken ▸ horder, ht.framed, ?_, ht.quiet, ?_⟩
    · obtain ⟨shown, live, hviews, hlive, hrec, hlt⟩ := ht.ordered
      exact ⟨shown, live, hviews, hlive, hrec, hlt.trans htaken.symm⟩
    · intro why hwhy
      obtain ⟨hw, hev⟩ := ht.closing why hwhy
      -- nothing more is queued for a session that has ended
      have hgone : t.hub.registry.Gone t.id := ht.serves.gone (by rw [ht.held, hwhy]; rfl)
      have hnone : t.queues (.other a) = none := by
        simp [Scene.queues, Hub.fate_of_gone hgone]
      refine ⟨hw, fun he => ⟨(hev he).1, ?_⟩⟩
      rw [htaken, happ, (hev he).2]
      simp only [Scene.queues] at hnone
      rw [hnone, Option.toList_none, List.append_nil]

theorem Tells.step (ht : Tells id views past log t) (p : SessionPolicy) (i : Incident) :
    ∃ past', appended past' = appended past ++ (t.queues i).toList ∧
      Tells id views past' (log ++ (t.begun? p i).toList) (t.step p i) := by
  cases i with
  | session e =>
    obtain ⟨past', happ, ht'⟩ := ht.session p e
    exact ⟨past', by simpa [Scene.queues] using happ, ht'⟩
  | other a =>
    obtain ⟨past', happ, ht'⟩ := ht.other p a
    exact ⟨past', happ, by simpa [Scene.begun?] using ht'⟩

theorem Tells.run (ht : Tells id views past log t) (p : SessionPolicy) (is : List Incident) :
    ∃ past', appended past' = appended past ++ t.queued p is ∧
      Tells id views past' (log ++ t.log p is) (t.run p is) := by
  induction is generalizing past log t with
  | nil => exact ⟨past, by simp [Scene.queued], by simpa [Scene.log, Scene.run] using ht⟩
  | cons i is ih =>
    obtain ⟨past₁, happ₁, ht₁⟩ := ht.step p i
    obtain ⟨past', happ', ht'⟩ := ih ht₁
    refine ⟨past', by rw [happ', happ₁, Scene.queued, List.append_assoc], ?_⟩
    rw [Scene.log, ← List.append_assoc]
    exact ht'

/-- A session that starts has written nothing of its snapshot yet. -/
theorem Tells.start (hf : h.registry.Fresh) (hs : Scene.start? h = some t) :
    Tells t.id h.store.views [] [] t := by
  unfold Scene.start? at hs
  split at hs
  · next s m hm =>
    cases hs
    obtain ⟨i, views⟩ := s
    have hsub : h.step .subscribe = (.subscribed i, ⟨m, h.held ++ [⟨i, views⟩]⟩) := by
      simp [Hub.step, Hub.subscribe, hm]
    have hserves := Hub.Serves.start hf hsub
    obtain ⟨-, -, hheld, -, -⟩ := Hub.subscribe_granted hf hsub
    obtain rfl : views = h.store.views := by simpa using hheld
    refine ⟨rfl, ⟨hserves.fresh, hserves.given, ?_, hserves.slot, hserves.gone⟩, rfl,
      List.prefix_refl _, ?_, ⟨[], [], rfl, Or.inl rfl, rfl, rfl⟩, by simp, ?_⟩
    · simp [Hub.holds, isHeld, Scene.id, Course.start]
    · exact ⟨rfl, fun _ => rfl, by simp [Course.start]⟩
    · intro why hwhy
      cases hwhy
  · cases hs

/-- No step of a session changes another subscriber or an entry. -/
theorem Tells.frame (ht : Tells id views past log t) (p : SessionPolicy) (e : SessionEvent) :
    (t.step p (.session e)).hub.store.entries = t.hub.store.entries ∧
      ∀ i, i ≠ id → (t.step p (.session e)).hub.slot i = t.hub.slot i := by
  obtain rfl := ht.id_eq
  obtain ⟨h, ⟨s, ended⟩, accepted⟩ := t
  have hheld := ht.serves.holds.trans ht.held
  cases ended with
  | some why =>
    have hserve : h.serve p ⟨s, some why⟩ e = (h, ⟨s, some why⟩) := Hub.serve_of_ended rfl hheld
    simp [Scene.step, hserve]
  | none =>
    obtain ⟨acts, new, hg, hrun⟩ := Hub.serve_goes p e hheld
    have hframe := Hub.frame_run (h := h) hg.acts_own
    rwa [← hrun] at hframe

namespace Scene

/-- A session that started and has ended, whatever its writer did and whatever else went on, has sent
whole records, and the beginning of one more only if its writer failed or was late. The records are
those of the snapshot, or of a part of it at its beginning, and then those of the updates queued for
the session in their order, with keep-alives among them that begin only where nothing is queued. An
evicted session has told all. Its subscriber is removed, and what the session did has changed no
other one. -/
theorem session_writes_whole_records (n : NotifyPolicy) (p : SessionPolicy) (before : List Act)
    (s₀ : Scene) (is : List Incident) (why : SessionEnd)
    (hstart : Scene.start? ((Hub.start n).run before) = some s₀)
    (hend : (s₀.run p is).course.ended = some why) :
    let s := s₀.run p is
    let log := s₀.log p is
    let records := log.map Begun.record
    let views := ((Hub.start n).run before).store.views
    (∃ done rest part, records = done ++ rest ∧ s.accepted = done.flatten ++ part ∧
      (rest = [] ∧ part = [] ∨
        ∃ r, rest = [r] ∧ part <+: r ∧ part ≠ r ∧ why.isWrite = true)) ∧
    (∃ shown live, shown <+: views ∧ (live = [] ∨ shown = views) ∧
      records = shown.map View.record ++ live.map line ∧
      live.reduceOption <+: s₀.queued p is ∧
      (why = .evicted → shown = views ∧ live.reduceOption = s₀.queued p is)) ∧
    (∀ b ∈ log, b.record = keepAlive → b.waiting = []) ∧
    s.hub.isRegistered s₀.id = false ∧
    ∀ pre e, let t := s₀.run p pre
      (t.step p (.session e)).hub.store.entries = t.hub.store.entries ∧
      ∀ i, i ≠ s₀.id → (t.step p (.session e)).hub.slot i = t.hub.slot i := by
  intro s log records views
  have hbegin := Tells.start (Hub.fresh_run (Hub.fresh_start n) before) hstart
  obtain ⟨past, happ, ht⟩ := hbegin.run p is
  rw [List.nil_append] at ht
  change appended past = s₀.queued p is at happ
  obtain ⟨hover, hevicted⟩ := ht.closing why hend
  refine ⟨?_, ?_, ht.quiet, ?_, ?_⟩
  · obtain ⟨done, rest, part, hrec, hacc, hrest⟩ := ht.framed.split
    refine ⟨done, rest, part, hrec, hacc, hrest.imp_right ?_⟩
    rintro ⟨r, hr, hpre, hne, hw⟩
    exact ⟨r, hr, hpre, hne, hover hw⟩
  · obtain ⟨shown, live, hviews, hlive, hrec, htaken⟩ := ht.ordered
    have hshown (h : s.course.session.snapshot = []) : shown = views := by
      rw [h, List.append_nil] at hviews
      exact hviews
    refine ⟨shown, live, ⟨_, hviews⟩, hlive.imp_right hshown, hrec, ?_, ?_⟩
    · rw [htaken, ← happ]
      exact ht.order
    · intro he
      obtain ⟨hsnap, hall⟩ := hevicted he
      exact ⟨hshown hsnap, by rw [htaken, hall, happ]⟩
  · rw [ht.serves.isRegistered_eq]
    refine isOpen_of_not_held ?_
    rw [ht.held, hend]
    rfl
  · intro pre e
    obtain ⟨_, _, ht'⟩ := hbegin.run p pre
    exact ht'.frame p e

/-- A keep-alive, and then an update of which the writer accepts four bytes and no more. -/
theorem session_writes_whole_records_late :
    let n : NotifyPolicy := ⟨1, 1, 1⟩
    let u : Update := ⟨0, ⟨⟨"A", by decide, by decide⟩, []⟩, true, none⟩
    let s₀ : Scene := ⟨⟨(Hub.start n).monitor.subscribe.2, [⟨1, []⟩]⟩, .start (1, []), []⟩
    let is : List Incident := [.session (.turn false 0), .session (.reply (.accepted 1)),
      .session (.reply .flushed), .other (.upsert u), .other (.upsert u),
      .session (.turn false 1), .session (.reply (.accepted 4)), .session (.reply .late)]
    start? (Hub.start n) = some s₀ ∧
      (s₀.run {} is).course.ended = some (.writeTimeout 10000) ∧
      (s₀.run {} is).accepted = keepAlive ++ u.view.record.take 4 ∧
      s₀.log {} is = [⟨keepAlive, []⟩, ⟨u.view.record, [u.view]⟩] ∧
      (s₀.run {} is).hub.isRegistered s₀.id = false := by
  intro n u s₀ is
  have hend : (s₀.run {} is).course.ended = some (.writeTimeout 10000) := by decide +kernel
  obtain ⟨-, -, -, hgone, -⟩ :=
    session_writes_whole_records n {} [] s₀ is (.writeTimeout 10000) rfl hend
  exact ⟨rfl, hend, by decide +kernel, by decide +kernel, hgone⟩

end Scene

end PeerWatch
