import PeerWatch.Proofs.PrivateQueue
import PeerWatch.Session.Scene

/-! What a session can do in one step: which acts of the hub it amounts to, and how the session is
afterwards. All that is proved of sessions goes by these cases. -/
namespace PeerWatch
open PrivateQueue
variable {h : Hub} {c : Course} {s : Session} {e : SessionEvent} {p : SessionPolicy}

def SessionEnd.isWrite : SessionEnd → Bool
  | .writeFailed _ | .writeTimeout _ => true
  | _ => false

/-- What can come of an event while a session goes on: the acts of the hub that it amounts to, the
record that is begun, and the session afterwards. Deadline and keep-alive are left open. -/
inductive Goes (h : Hub) (s : Session) :
    SessionEvent → List Act → Option (List UInt8) → Course → Prop
  | idle {e : SessionEvent} (accepts : Course.accepts ⟨s, none⟩ e = []) :
      Goes h s e [] none ⟨s, none⟩
  | cancel {now k} (rests : s.writing = false) :
      Goes h s (.turn true now) [.release s.subscriber] none
        ⟨{ s with keepalive := k }, some .cancelled⟩
  | tell {now v rest d} (rests : s.writing = false) (next : s.snapshot = v :: rest) :
      Goes h s (.turn false now) [] (some v.record)
        ⟨{ s with snapshot := rest, writing := true, unsent := v.record, deadline := d }, none⟩
  | update {now v d k} (rests : s.writing = false) (live : s.snapshot = [])
      (told : h.told s.subscriber = .view v) :
      Goes h s (.turn false now) [.receive s.subscriber] (some v.record)
        ⟨{ s with writing := true, unsent := v.record, deadline := d, keepalive := k }, none⟩
  | keepAlive {now d k} (rests : s.writing = false) (live : s.snapshot = [])
      (told : h.told s.subscriber = .empty) :
      Goes h s (.turn false now) [.receive s.subscriber] (some PeerWatch.keepAlive)
        ⟨{ s with writing := true, unsent := PeerWatch.keepAlive, deadline := d, keepalive := k },
          none⟩
  | wait {now k} (rests : s.writing = false) (told : h.told s.subscriber = .empty) :
      Goes h s (.turn false now) [.receive s.subscriber] none ⟨{ s with keepalive := k }, none⟩
  | evict {now k} (rests : s.writing = false) (live : s.snapshot = [])
      (told : h.told s.subscriber = .closed) :
      Goes h s (.turn false now) [.receive s.subscriber, .release s.subscriber] none
        ⟨{ s with keepalive := k }, some .evicted⟩
  | accept {n} (writes : s.writing = true) :
      Goes h s (.reply (.accepted n)) [] none ⟨{ s with unsent := s.unsent.drop n }, none⟩
  | flush (writes : s.writing = true) :
      Goes h s (.reply .flushed) [] none ⟨{ s with writing := !s.unsent.isEmpty }, none⟩
  | fail {r why} (writes : s.writing = true) (broken : why.isWrite = true)
      (refuses : ∀ n, r ≠ .accepted n) :
      Goes h s (.reply r) [.release s.subscriber] none ⟨s, some why⟩

/-- The record that a step of a session begins: writing was off and is on. -/
def Course.begun? (c c' : Course) : Option (List UInt8) :=
  if !c.session.writing && c'.session.writing then some c'.session.unsent else none

theorem Goes.begun?_eq {acts : List Act} {new : Option (List UInt8)} {c : Course}
    (hg : Goes h s e acts new c) : Course.begun? ⟨s, none⟩ c = new := by
  cases hg <;> simp_all [Course.begun?]

namespace Hub

theorem told_eq (hh : h.holds s.subscriber = true) :
    (h.registry.receive s.subscriber).1 = h.told s.subscriber := by
  simp only [told, receive, hh, if_true]
  rfl

theorem run_release {id : Nat} (hh : h.holds id = true) :
    h.run [.release id] = ⟨h.monitor.release id, h.held.filter (·.id ≠ id)⟩ := by
  simp [Hub.run, step, release, hh]

theorem run_receive {id : Nat} (hh : h.holds id = true) :
    h.run [.receive id] =
      ⟨h.monitor.withRegistry false (h.registry.receive id).2, h.held⟩ := by
  simp only [Hub.run, List.foldl_cons, List.foldl_nil, step, receive, hh, if_true]
  rfl

def StepsAs (p : SessionPolicy) (h : Hub) (s : Session) (e : SessionEvent) : Prop :=
  ∃ acts new, Goes h s e acts new (h.serve p ⟨s, none⟩ e).2 ∧
    (h.serve p ⟨s, none⟩ e).1 = h.run acts

theorem stepsAs_of_serve {acts : List Act} {new : Option (List UInt8)} {h' : Hub} {c' : Course}
    (hs : h.serve p ⟨s, none⟩ e = (h', c')) (hrun : h' = h.run acts)
    (hg : Goes h s e acts new c') : StepsAs p h s e := by
  rw [StepsAs, hs]
  exact ⟨acts, new, hg, hrun⟩

theorem serve_live (p : SessionPolicy) (now : Nat) (hh : h.holds s.subscriber = true)
    (hw : s.writing = false) (hs : s.snapshot = []) : StepsAs p h s (.turn false now) := by
  obtain ⟨i, snapshot, writing, unsent, d, k⟩ := s
  obtain rfl : writing = false := hw
  obtain rfl : snapshot = [] := hs
  obtain ⟨r, hrec⟩ : ∃ r, h.monitor.store.registry.receive i = (h.told i, r) :=
    ⟨_, Prod.ext (told_eq hh) rfl⟩
  have hrun : h.run [.receive i] = ⟨h.monitor.withRegistry false r, h.held⟩ := by
    rw [run_receive hh, registry, store, hrec]
  let rhythm : Interval := k.getD (.start p.keepaliveMs now)
  cases ht : h.told i with
  | view v =>
    rw [ht] at hrec
    refine stepsAs_of_serve ?_ hrun.symm
      (.update (d := now + p.writeMs) (k := some rhythm) rfl rfl ht)
    simp only [serve, Course.step, Course.turn, Session.turn, Session.liveTurn, hrec]
    rfl
  | closed =>
    rw [ht] at hrec
    have hrun' : h.run [.receive i, .release i] =
        ⟨(h.monitor.withRegistry false r).release i, h.held.filter (·.id ≠ i)⟩ := by
      change (h.run [.receive i]).run [.release i] = _
      rw [hrun]
      exact run_release (h := ⟨h.monitor.withRegistry false r, h.held⟩) hh
    refine stepsAs_of_serve ?_ hrun'.symm (.evict (k := some rhythm) rfl rfl ht)
    simp only [serve, Course.step, Course.turn, Session.turn, Session.liveTurn, hrec]
    rfl
  | empty =>
    rw [ht] at hrec
    have hrhythm : Session.rhythm p now ⟨i, [], false, unsent, d, k⟩ = rhythm := rfl
    by_cases hdue : rhythm.isDue now = true
    · refine stepsAs_of_serve ?_ hrun.symm
        (.keepAlive (d := now + p.writeMs) (k := some (rhythm.take now)) rfl rfl ht)
      simp only [serve, Course.step, Course.turn, Session.turn, Session.liveTurn, hrec, hrhythm,
        hdue]
      rfl
    · refine stepsAs_of_serve ?_ hrun.symm (.wait (k := some rhythm) rfl ht)
      simp only [serve, Course.step, Course.turn, Session.turn, Session.liveTurn, hrec, hrhythm,
        hdue]
      rfl

theorem serve_turn (p : SessionPolicy) (cancelled : Bool) (now : Nat)
    (hh : h.holds s.subscriber = true) (hw : s.writing = false) :
    StepsAs p h s (.turn cancelled now) := by
  cases hs : s.snapshot with
  | cons v rest =>
    obtain ⟨i, snapshot, writing, unsent, d, k⟩ := s
    obtain rfl : writing = false := hw
    obtain rfl : snapshot = v :: rest := hs
    cases cancelled with
    | true => exact stepsAs_of_serve rfl (run_release hh).symm (.cancel rfl)
    | false => exact stepsAs_of_serve rfl h.run_nil.symm (.tell rfl rfl)
  | nil =>
    cases cancelled with
    | false => exact serve_live p now hh hw hs
    | true =>
      obtain ⟨i, snapshot, writing, unsent, d, k⟩ := s
      obtain rfl : writing = false := hw
      obtain rfl : snapshot = [] := hs
      exact stepsAs_of_serve rfl (run_release hh).symm (.cancel rfl)

theorem serve_reply (p : SessionPolicy) (r : WriteReply) (hh : h.holds s.subscriber = true)
    (hw : s.writing = true) : StepsAs p h s (.reply r) := by
  obtain ⟨i, snapshot, writing, unsent, d, k⟩ := s
  obtain rfl : writing = true := hw
  cases r with
  | accepted n => exact stepsAs_of_serve rfl h.run_nil.symm (.accept rfl)
  | flushed => exact stepsAs_of_serve rfl h.run_nil.symm (.flush rfl)
  | failed reason => exact stepsAs_of_serve rfl (run_release hh).symm (.fail rfl rfl (by simp))
  | late => exact stepsAs_of_serve rfl (run_release hh).symm (.fail rfl rfl (by simp))

/-- Every step of a session is one of the cases. -/
theorem serve_goes (p : SessionPolicy) (e : SessionEvent) (hh : h.holds s.subscriber = true) :
    StepsAs p h s e := by
  -- an event out of turn changes nothing
  have hidle (hs : h.serve p ⟨s, none⟩ e = (h, ⟨s, none⟩))
      (ha : Course.accepts ⟨s, none⟩ e = []) : StepsAs p h s e :=
    stepsAs_of_serve hs h.run_nil.symm (.idle ha)
  cases e with
  | turn cancelled now =>
    cases hw : s.writing with
    | false => exact serve_turn p cancelled now hh hw
    | true => exact hidle (by simp [serve, Course.step, hw]) rfl
  | reply r =>
    cases hw : s.writing with
    | true => exact serve_reply p r hh hw
    | false =>
      refine hidle (by simp [serve, Course.step, hw]) ?_
      cases r <;> simp [Course.accepts, hw]

/-- Once a session has ended, nothing comes of an event. -/
theorem serve_of_ended (hc : c.ended.isSome = true)
    (hh : h.holds c.session.subscriber = false) : h.serve p c e = (h, c) := by
  have hheld : h.held.filter (·.id ≠ c.session.subscriber) = h.held := by
    rw [List.filter_eq_self]
    simpa [holds] using hh
  have hstep : c.step p h.monitor e = (h.monitor, c) := if_pos hc
  simp only [serve, hstep, hc, if_true, hheld]

end Hub
end PeerWatch
