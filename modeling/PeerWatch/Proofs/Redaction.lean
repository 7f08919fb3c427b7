import Mathlib.Data.List.Forall2
import PeerWatch.Proofs.PrivateQueue
import PeerWatch.Session.Stage

/-! What subscribers cannot tell. Two runs in which the same is asked, and whose updates differ only
in what is not broadcast of a peer, are the same to all subscribers: in the answers, in what is
queued, dropped and evicted, and in every byte that a session writes. -/
namespace PeerWatch
variable {h h' : Hub} {a a' : Act} {u u' : Update} {p : SessionPolicy} {c : Course}
  {e : SessionEvent} {m m' : Monitor} {s s' : Stage} {cue cue' : Cue} {cues cues' : List Cue}
  {es es' : List (PeerId × Entry)} {id : Nat}

/-- Two updates of one peer that agree in all that is broadcast of it. No document says what an empty
one says. -/
structure Update.Alike (u u' : Update) : Prop where
  peer : u.address.id = u'.address.id
  connected : u.connected = u'.connected
  syncStatus : (u.document.getD .empty).syncStatus = (u'.document.getD .empty).syncStatus
  stateHash : (u.document.getD .empty).stateHash = (u'.document.getD .empty).stateHash
  gitCommit : (u.document.getD .empty).gitCommit = (u'.document.getD .empty).gitCommit
  uptimeMinutes : (u.document.getD .empty).uptimeMinutes = (u'.document.getD .empty).uptimeMinutes

inductive Act.Alike : Act → Act → Prop
  | same (a : Act) : Act.Alike a a
  | update {a a' : Act} {u u' : Update} (hu : a.update? = some u) (hu' : a'.update? = some u')
      (alike : u.Alike u') : Act.Alike a a'

inductive Cue.Alike : Cue → Cue → Prop
  | enter : Cue.Alike .enter .enter
  | session (number : Nat) (e : SessionEvent) : Cue.Alike (.session number e) (.session number e)
  | other {a a' : Act} (alike : a.Alike a') : Cue.Alike (.other a) (.other a')

theorem View.make_eq (id : PeerId) (connected : Bool) (d : Option Document) :
    View.make id connected d = ⟨connected, id, (d.getD .empty).syncStatus, (d.getD .empty).stateHash,
      (d.getD .empty).gitCommit, (d.getD .empty).uptimeMinutes⟩ := by
  cases d <;> rfl

theorem Update.Alike.view (h : u.Alike u') : u.view = u'.view := by
  simp only [Update.view, View.make_eq, h.peer, h.connected, h.syncStatus, h.stateHash,
    h.gitCommit, h.uptimeMinutes]

/-- Two hubs that subscribers cannot tell apart. -/
structure Hub.Alike (h h' : Hub) : Prop where
  registry : h.registry = h'.registry
  held : h.held = h'.held
  views : h.store.views = h'.store.views

theorem Hub.Alike.refl (h : Hub) : h.Alike h := ⟨rfl, rfl, rfl⟩

def viewOf (e : PeerId × Entry) : View := e.2.view e.1

theorem peerId_viewOf (e : PeerId × Entry) : (viewOf e).peerId = e.1 := by
  rw [viewOf, Entry.view, View.make_eq]

/-- Entries that look alike still do when entries that look alike are assigned. -/
theorem map_viewOf_assign {k : PeerId} {x y : Entry} (hv : x.view k = y.view k)
    (hes : es.map viewOf = es'.map viewOf) :
    (assign k x es).map viewOf = (assign k y es').map viewOf := by
  induction es generalizing es' with
  | nil =>
    obtain rfl : es' = [] := List.map_eq_nil_iff.1 hes.symm
    exact congrArg (· :: []) hv
  | cons e es ih =>
    obtain ⟨⟨k₁, z⟩, es', rfl, he, hrest⟩ := List.map_eq_cons_iff.1 hes.symm
    obtain ⟨k₂, w⟩ := e
    obtain rfl : k₁ = k₂ := by
      have hid := congrArg View.peerId he
      rwa [peerId_viewOf, peerId_viewOf] at hid
    by_cases hk : k₁ = k
    · subst hk
      simp only [assign, if_true, List.map_cons, hrest]
      exact congrArg (· :: _) hv
    · simp only [assign, if_neg hk, List.map_cons, ih hrest.symm, he]

namespace Hub

theorem held_step_update (hu : a.update? = some u) : (h.step a).2.held = h.held := by
  cases a <;> first | rfl | cases hu

theorem answer_step_update (hu : a.update? = some u) : (h.step a).1 = .done := by
  cases a <;> first | rfl | cases hu

theorem Alike.step_update (hh : h.Alike h') (hu : a.update? = some u)
    (hu' : a'.update? = some u') (ha : u.Alike u') : (h.step a).2.Alike (h'.step a').2 where
  registry := by rw [registry_step_update hu, registry_step_update hu', hh.registry, ha.view]
  held := by rw [held_step_update hu, held_step_update hu', hh.held]
  views := by
    have hv : (u.entry h.store.entries).view u.address.id =
        (u'.entry h'.store.entries).view u.address.id :=
      ha.view.trans (by rw [ha.peer]; rfl)
    rw [Store.views, Store.views, entries_step_update hu, entries_step_update hu', Update.write,
      Update.write, ← ha.peer]
    exact map_viewOf_assign hv hh.views

theorem subscribe_eq : ∃ m, h.step .subscribe = (h.registry.register.1.elim .refused .subscribed,
    ⟨m, h.held ++ (h.registry.register.1.map fun i => ⟨i, h.store.views⟩).toList⟩) := by
  simp only [step, subscribe, Monitor.subscribe, Store.subscribe, registry, store]
  cases h.monitor.store.registry.register with
  | mk id? r => cases id? <;> simp

theorem receive_eq (i : Nat) : ∃ m, h.step (.receive i) =
    (if h.holds i then .received (h.registry.receive i).1 else .unheld, ⟨m, h.held⟩) := by
  simp only [step, receive]
  split_ifs <;> exact ⟨_, rfl⟩

theorem release_eq (i : Nat) : ∃ m, h.step (.release i) =
    (if h.holds i then .done else .unheld,
      ⟨m, if h.holds i then h.held.filter (·.id ≠ i) else h.held⟩) := by
  simp only [step, release]
  split_ifs <;> exact ⟨_, rfl⟩

theorem takeSnapshot_eq (i : Nat) : ∃ m, h.step (.takeSnapshot i) =
    ((h.subscription? i).elim .unheld fun s => .snapshot s.take.1,
      ⟨m, (h.subscription? i).elim h.held fun _ =>
        h.held.map fun s => if s.id = i then s.take.2 else s⟩) := by
  simp only [step, takeSnapshot]
  cases h.subscription? i <;> exact ⟨_, rfl⟩

/-- What is asked of two hubs that nobody can tell apart has one answer, and they stay so. -/
theorem Alike.step_same (hh : h.Alike h') (a : Act) :
    (h.step a).1 = (h'.step a).1 ∧ (h.step a).2.Alike (h'.step a).2 := by
  cases hu : a.update? with
  | some u =>
    refine ⟨by rw [answer_step_update hu, answer_step_update hu], hh.step_update hu hu ?_⟩
    exact ⟨rfl, rfl, rfl, rfl, rfl, rfl⟩
  | none =>
    -- No entry changes, and all else goes by the registry and by who holds a subscription.
    have hviews : (h.step a).2.store.views = (h'.step a).2.store.views := by
      rw [Store.views, Store.views, entries_step_of_no_update hu, entries_step_of_no_update hu]
      exact hh.views
    have hholds (i : Nat) : h.holds i = h'.holds i := by rw [holds, holds, hh.held]
    cases a with
    | upsert u => cases hu
    | record started now address size result =>
      refine ⟨rfl, ?_, hh.held, hviews⟩
      rw [registry_step_record hu, registry_step_record hu, hh.registry]
    | subscribe =>
      obtain ⟨m, hs⟩ := h.subscribe_eq
      obtain ⟨m', hs'⟩ := h'.subscribe_eq
      refine ⟨?_, ?_, ?_, hviews⟩
      · rw [hs, hs', hh.registry]
      · rw [registry_subscribe, registry_subscribe, hh.registry]
      · rw [hs, hs', hh.registry, hh.held, hh.views]
    | takeSnapshot i =>
      obtain ⟨m, hs⟩ := h.takeSnapshot_eq i
      obtain ⟨m', hs'⟩ := h'.takeSnapshot_eq i
      have hsub : h.subscription? i = h'.subscription? i := by
        rw [subscription?, subscription?, hh.held]
      refine ⟨?_, ?_, ?_, hviews⟩
      · rw [hs, hs', hsub]
      · rw [registry_takeSnapshot, registry_takeSnapshot, hh.registry]
      · rw [hs, hs', hsub, hh.held]
    | receive i =>
      obtain ⟨m, hs⟩ := h.receive_eq i
      obtain ⟨m', hs'⟩ := h'.receive_eq i
      refine ⟨?_, ?_, ?_, hviews⟩
      · rw [hs, hs', hholds, hh.registry]
      · rw [registry_receive, registry_receive, hholds, hh.registry]
      · rw [hs, hs', hh.held]
    | release i =>
      obtain ⟨m, hs⟩ := h.release_eq i
      obtain ⟨m', hs'⟩ := h'.release_eq i
      refine ⟨?_, ?_, ?_, hviews⟩
      · rw [hs, hs', hholds]
      · rw [registry_release, registry_release, hholds, hh.registry]
      · rw [hs, hs', hholds, hh.held]
    | clear i =>
      refine ⟨?_, ?_, hh.held, hviews⟩
      · exact congrArg (fun r => Answer.cleared (r.clear i).1) hh.registry
      · rw [registry_clear, registry_clear, hh.registry]

theorem Alike.step (hh : h.Alike h') (ha : a.Alike a') :
    (h.step a).1 = (h'.step a').1 ∧ (h.step a).2.Alike (h'.step a').2 := by
  cases ha with
  | same => exact hh.step_same a
  | update hu hu' alike =>
    exact ⟨by rw [answer_step_update hu, answer_step_update hu'], hh.step_update hu hu' alike⟩

end Hub

/-- A session goes by the registry alone, and all that it does is done to the registry. -/
theorem Course.step_congr (hr : m.store.registry = m'.store.registry) (p : SessionPolicy) (c : Course)
    (e : SessionEvent) : (c.step p m e).2 = (c.step p m' e).2 ∧
      (c.step p m e).1.store.registry = (c.step p m' e).1.store.registry ∧
      (c.step p m e).1.store.entries = m.store.entries := by
  obtain ⟨⟨es, r⟩, metrics⟩ := m
  obtain ⟨⟨es', r'⟩, metrics'⟩ := m'
  obtain rfl : r = r' := hr
  have hfinish (c : Course) (why : SessionEnd) (r : Registry) :
      (c.finish why ⟨⟨es, r⟩, metrics⟩).2 = (c.finish why ⟨⟨es', r⟩, metrics'⟩).2 ∧
      (c.finish why ⟨⟨es, r⟩, metrics⟩).1.store.registry =
        (c.finish why ⟨⟨es', r⟩, metrics'⟩).1.store.registry ∧
      (c.finish why ⟨⟨es, r⟩, metrics⟩).1.store.entries = es := ⟨rfl, rfl, rfl⟩
  unfold Course.step
  split_ifs
  · exact ⟨rfl, rfl, rfl⟩
  · cases e with
    | turn cancelled now =>
      cases c.session.writing
      · simp only [Course.turn]
        cases c.session.turn p cancelled now r with
        | mk t rest =>
          obtain ⟨r, session⟩ := rest
          cases t with
          | stop why => exact hfinish _ why r
          | write => exact ⟨rfl, rfl, rfl⟩
          | wait => exact ⟨rfl, rfl, rfl⟩
      · exact ⟨rfl, rfl, rfl⟩
    | reply w =>
      cases c.session.writing
      · exact ⟨rfl, rfl, rfl⟩
      · simp only [Course.reply]
        cases c.session.wrote p w with
        | ok session => exact ⟨rfl, rfl, rfl⟩
        | error why => exact hfinish c why r

namespace Hub

theorem Alike.serve (hh : h.Alike h') (p : SessionPolicy) (c : Course) (e : SessionEvent) :
    (h.serve p c e).2 = (h'.serve p c e).2 ∧ (h.serve p c e).1.Alike (h'.serve p c e).1 := by
  obtain ⟨hc, hr, hes⟩ := Course.step_congr hh.registry p c e
  obtain ⟨-, -, hes'⟩ := Course.step_congr hh.registry.symm p c e
  refine ⟨hc, hr, ?_, ?_⟩
  · simp only [Hub.serve, hc, hh.held]
  · exact (congrArg (List.map viewOf) hes).trans
      (hh.views.trans (congrArg (List.map viewOf) hes').symm)

/-- A session starts with the snapshot, which nobody else can take then. -/
theorem start?_eq : ∃ m : Monitor, m.store = { h.store with registry := h.registry.register.2 } ∧
    Scene.start? h = h.registry.register.1.map fun i =>
      { hub := ⟨m, h.held ++ [⟨i, []⟩]⟩, course := .start (i, h.store.views) } := by
  simp only [Scene.start?, Monitor.subscribe, Store.subscribe, registry, store]
  cases h.monitor.store.registry.register with
  | mk id? r =>
    cases id? with
    | none => exact ⟨⟨_, h.monitor.metrics⟩, rfl, rfl⟩
    | some i => exact ⟨⟨_, _⟩, rfl, rfl⟩

/-- What becomes of an act for every subscriber, if it is an update. -/
def fates (h : Hub) (a : Act) : List (Nat × Offer) :=
  a.update?.elim [] fun u => h.registry.subscribers.map fun s => (s.id, h.fate s.id u.view)

theorem Alike.fates_eq (hh : h.Alike h') (ha : a.Alike a') : h.fates a = h'.fates a' := by
  have hslot (i : Nat) : h.slot i = h'.slot i := by rw [slot, slot, hh.registry]
  have hfate (i : Nat) (v : View) : h.fate i v = h'.fate i v := by
    rw [fate, fate, hslot, hh.registry]
  cases ha with
  | same => simp only [fates, hfate, hh.registry]
  | update hu hu' alike =>
    simp only [fates, hu, hu', Option.elim_some, hfate, hh.registry, alike.view]

end Hub

namespace Stage

/-- What subscribers are told of a cue: the answer, and what becomes of an update for each of them. -/
def told (p : SessionPolicy) (s : Stage) (c : Cue) : Answer × List (Nat × Offer) :=
  ((s.step p c).1, match c with
    | .other a => s.hub.fates a
    | _ => [])

def log (p : SessionPolicy) : Stage → List Cue → List (Answer × List (Nat × Offer))
  | _, [] => []
  | s, c :: cues => s.told p c :: log p (s.step p c).2 cues

structure Alike (s s' : Stage) : Prop where
  hub : s.hub.Alike s'.hub
  sessions : s.sessions = s'.sessions

theorem Alike.enter (hs : s.Alike s') : s.enter.1 = s'.enter.1 ∧ s.enter.2.Alike s'.enter.2 := by
  obtain ⟨m, hm, hstart⟩ := s.hub.start?_eq
  obtain ⟨m', hm', hstart'⟩ := s'.hub.start?_eq
  have hh := hs.hub
  unfold Stage.enter
  rw [hstart, hstart', hh.registry]
  cases hr : s'.hub.registry.register.1 with
  | none => exact ⟨rfl, (hh.step (.same .subscribe)).2, hs.sessions⟩
  | some i =>
    refine ⟨rfl, ⟨?_, ?_, ?_⟩, ?_⟩
    · change m.store.registry = m'.store.registry
      rw [hm, hm', hh.registry]
    · simp only [Option.map_some, hh.held]
    · change m.store.views = m'.store.views
      rw [hm, hm']
      exact hh.views
    · simp only [Option.map_some, hs.sessions, hh.views]

theorem Alike.proceed (hs : s.Alike s') (p : SessionPolicy) (number : Nat) (e : SessionEvent) :
    (s.proceed p number e).Alike (s'.proceed p number e) := by
  unfold Stage.proceed
  rw [hs.sessions]
  cases s'.sessions[number]? with
  | none => exact hs
  | some t =>
    obtain ⟨c, accepted⟩ := t
    obtain ⟨hc, hh⟩ := hs.hub.serve p c e
    exact ⟨hh, by simp only [hc]⟩

theorem not_reserves_of_update (s : Stage) (hu : a.update? = some u) : s.reserves a = false := by
  cases a with
  | upsert => simp [reserves, Act.byHolder]
  | record => simp [reserves, Act.byHolder]
  | _ => cases hu

theorem reserves_congr (hs : s.Alike s') (ha : a.Alike a') : s.reserves a = s'.reserves a' := by
  cases ha with
  | same => rw [reserves, reserves, hs.sessions]
  | update hu hu' alike => rw [not_reserves_of_update s hu, not_reserves_of_update s' hu']

theorem Alike.step (hs : s.Alike s') (hc : cue.Alike cue') (p : SessionPolicy) :
    s.told p cue = s'.told p cue' ∧ (s.step p cue).2.Alike (s'.step p cue').2 := by
  cases hc with
  | enter =>
    obtain ⟨hanswer, hs'⟩ := hs.enter
    exact ⟨Prod.ext hanswer rfl, hs'⟩
  | session number e => exact ⟨rfl, hs.proceed p number e⟩
  | @other a a' alike =>
    obtain ⟨hanswer, hh⟩ := hs.hub.step alike
    have hr := reserves_congr hs alike
    refine ⟨Prod.ext ?_ (hs.hub.fates_eq alike), ?_⟩
    · simp only [told, Stage.step, hr]
      split_ifs
      · rfl
      · exact hanswer
    · simp only [Stage.step, hr]
      split_ifs
      · exact hs
      · exact ⟨hh, hs.sessions⟩

theorem Alike.run (hs : s.Alike s') (hc : List.Forall₂ Cue.Alike cues cues') (p : SessionPolicy) :
    s.log p cues = s'.log p cues' ∧ (s.run p cues).Alike (s'.run p cues') := by
  induction hc generalizing s s' with
  | nil => exact ⟨rfl, hs⟩
  | cons hc hcs ih =>
    obtain ⟨htold, hs⟩ := hs.step hc p
    obtain ⟨hlog, hrun⟩ := ih hs
    exact ⟨List.cons_eq_cons.2 ⟨htold, hlog⟩, hrun⟩

end Stage

/-- Two runs in which the same is asked, with updates that agree in the peer, its connection and the
four values that are broadcast of it, are the same to all subscribers: they have the same answers
(refusals, snapshots, updates received), the same updates are delivered to them and dropped, and the
same of them evicted; and at every time the same is queued for them and their sessions have written
the same bytes. -/
theorem hidden_fields_never_show (policy : NotifyPolicy) (p : SessionPolicy)
    (hc : List.Forall₂ Cue.Alike cues cues') :
    let s := Stage.start policy
    s.log p cues = s.log p cues' ∧ ∀ n,
      let t := s.run p (cues.take n)
      let t' := s.run p (cues'.take n)
      t.sessions = t'.sessions ∧ t.hub.registry = t'.hub.registry ∧ t.hub.held = t'.hub.held ∧
        t.hub.store.views = t'.hub.store.views := by
  intro s
  have hs : s.Alike s := ⟨.refl _, rfl⟩
  refine ⟨(hs.run hc p).1, fun n => ?_⟩
  have ht := (hs.run (List.forall₂_take n hc) p).2
  exact ⟨ht.sessions, ht.hub.registry, ht.hub.held, ht.hub.views⟩

/-- One session and one subscriber who receives nothing. In the one run the peer has another address
and says where it is and whom it knows; later its document is missing in the one run and empty in the
other one. -/
theorem hidden_fields_never_show_evicted :
    let a : PeerAddress := ⟨⟨"A", by decide, by decide⟩, []⟩
    let a' : PeerAddress := ⟨a.id, [⟨.dns "a", 8302⟩]⟩
    let doc : Document := { Document.empty with syncStatus := "Synced" }
    let doc' : Document := { doc with
      ipAddr := "10.0.0.1", peerId := "A", adverts := [⟨"b", "B", 8302⟩], blockHashes := [("h", "1")] }
    let u : Update := ⟨4, a, true, some doc⟩
    let cues (u v : Update) : List Cue := [.enter, .other .subscribe, .other (.upsert u),
      .session 0 (.turn false 4), .session 0 (.reply (.accepted 100)), .other (.upsert v),
      .other (.record 5 6 a none (.error (.cancelled a.id))), .other (.upsert v)]
    let run := cues u ⟨7, a, true, none⟩
    let run' := cues ⟨4, a', true, some doc'⟩ ⟨7, a', true, some .empty⟩
    let s := Stage.start ⟨1, 2, 2⟩
    List.Forall₂ Cue.Alike run run' ∧
      (s.run {} run).hub.store ≠ (s.run {} run').hub.store ∧
      (s.run {} run).sessions.map Prod.snd = [u.view.record.take 100] ∧
      (s.run {} run').sessions.map Prod.snd = [u.view.record.take 100] ∧
      (s.log {} run').map Prod.snd = [[], [], [(1, .delivered), (2, .delivered)], [], [],
        [(1, .delivered), (2, .dropped)], [], [(1, .dropped), (2, .evicted)]] ∧
      s.log {} run = s.log {} run' := by
  intro a a' doc doc' u cues run run' s
  have hc : List.Forall₂ Cue.Alike run run' := by
    refine .cons .enter (.cons (.other (.same _)) (.cons (.other (.update rfl rfl ?_))
      (.cons (.session _ _) (.cons (.session _ _) (.cons (.other (.update rfl rfl ?_))
      (.cons (.other (.same _)) (.cons (.other (.update rfl rfl ?_)) .nil)))))))
    all_goals exact ⟨rfl, rfl, rfl, rfl, rfl, rfl⟩
  obtain ⟨hlog, hrun⟩ := hidden_fields_never_show ⟨1, 2, 2⟩ {} hc
  have hbytes : (s.run {} run).sessions.map Prod.snd = [u.view.record.take 100] := by
    decide +kernel
  refine ⟨hc, by decide +kernel, hbytes, ?_, by decide +kernel, hlog⟩
  have hsessions := (hrun 8).1
  exact hsessions ▸ hbytes

end PeerWatch
