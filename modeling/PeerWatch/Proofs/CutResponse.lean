import PeerWatch.Proofs.FetchRecord
import PeerWatch.Proofs.JsonReader
import PeerWatch.Proofs.ResponseReader

/-! Responses that are cut short. A status document is read once its last bracket is there, and not
before. So a peer that closes its stream or goes quiet inside its document is known to have answered,
but nothing that it told of itself is kept. -/
namespace PeerWatch
variable {l : FetchLimits} {σ : Type} {F : Feed σ} {s : σ} {p : Probe l} {f : Fetch l}
  {es : List FetchEvent} {result : Except ProbeError Document} {b : List UInt8} {v : Json}
  {d : Document}

namespace Document

/-- A document is written between brackets. -/
theorem not_isScalar (h : ofJson? v = some d) : ¬ v.IsScalar := by
  intro hv
  cases v with
  | array items => exact hv
  | object members => exact hv
  | _ => cases h

theorem parse?_prefix (h : parse? b = some d) :
    (∃ body last, b.rdropWhile Json.isSpace = body ++ [last] ∧ Json.IsClosing last) ∧
      ∀ p, p <+: b → parse? p = if b.rdropWhile Json.isSpace <+: p then some d else none := by
  obtain ⟨v, hv, hd⟩ := Option.bind_eq_some_iff.1 h
  obtain ⟨hlast, hall⟩ := Json.parse?_prefix hv (not_isScalar hd)
  refine ⟨hlast, fun p hp => ?_⟩
  rw [parse?, hall p hp]
  split_ifs
  · exact hd
  · rfl

end Document

/-- What a probe learns that can open a stream to the peer. It finds a connection, or gets one. -/
def Feed.answer (F : Feed σ) (online : Bool) (s : σ) : Probe l → Option Reply × σ
  | .asking => (some (.connected online), s)
  | .connecting | .opening => (some .done, s)
  | .reading r =>
    let (a, s) := F.read s r.room r.patience
    (some (.arrived a), s)

/-- Are the replies among the events those that are given, up to the end of the probe, and is it not
cancelled before? -/
def Answered (answer : σ → Probe l → Option Reply × σ) (peer : PeerId) :
    Probe l → σ → List FetchEvent → Prop
  | _, _, [] => True
  | p, s, .other _ :: es => Answered answer peer p s es
  | _, _, .cancel _ :: _ => False
  | p, s, .reply _ r :: es => (answer s p).1 = some r ∧
    match p.step peer r with
    | .going q => Answered answer peer q (answer s p).2 es
    | .ended .. => True

instance Answered.decidable (answer : σ → Probe l → Option Reply × σ) (peer : PeerId) :
    (p : Probe l) → (s : σ) → (es : List FetchEvent) → Decidable (Answered answer peer p s es)
  | _, _, [] => isTrue trivial
  | p, s, .other _ :: es => Answered.decidable answer peer p s es
  | _, _, .cancel _ :: _ => isFalse id
  | p, s, .reply _ r :: es =>
    let rest := match p.step peer r with
      | .going q => Answered.decidable answer peer q (answer s p).2 es
      | .ended .. => isTrue trivial
    @instDecidableAnd _ _ _ rest

namespace Probe

theorem drive_eq (answer : σ → Probe l → Option Reply × σ) (peer : PeerId) (p : Probe l) (s : σ) :
    (drive answer peer p s).1 = match (answer s p).1 with
      | none => (none, .error (.cancelled peer))
      | some r => match p.step peer r with
        | .going q => (drive answer peer q (answer s p).2).1
        | .ended size result => (size, result) := by
  rw [drive]
  split
  · simp_all
  · split <;> simp_all

/-- A probe that reads makes of the response what it says. -/
theorem drive_reading (F : Feed σ) (online : Bool) (peer : PeerId) (r : Reader l) (s : σ) :
    (drive (F.answer online) peer (.reading r) s).1 = match (r.readAll F.read s).1 with
      | .ok data => (some data.size, conclude peer data.toList)
      | .error fault => (none, .error (fault.toProbeError peer)) := by
  induction r, s using Reader.readAll.induct F.read with
  | case1 r s a s' hread r' hstep hlt hbound ih =>
    rw [drive_eq, Reader.readAll_eq]
    simp only [Feed.answer, hread, step, hstep, read]
    exact ih
  | case2 r s a s' hread data hstep =>
    rw [drive_eq, Reader.readAll_eq]
    simp only [Feed.answer, hread, step, hstep, read]
  | case3 r s a s' hread fault hstep =>
    rw [drive_eq, Reader.readAll_eq]
    simp only [Feed.answer, hread, step, hstep, read]

theorem drive_feed (F : Feed σ) (online : Bool) (peer : PeerId) (s : σ) :
    (drive (F.answer online) peer (.asking (l := l)) s).1 = match F.response l peer s with
      | .ok data => (some data.size, conclude peer data.toList)
      | .error e => (none, .error e) := by
  have hopening : (drive (F.answer online) peer (.opening (l := l)) s).1 =
      match F.response l peer s with
      | .ok data => (some data.size, conclude peer data.toList)
      | .error e => (none, .error e) := by
    rw [drive_eq]
    simp only [Feed.answer, step, drive_reading, Feed.response]
    cases ((Reader.start l).readAll F.read s).1 <;> rfl
  rw [drive_eq]
  cases online with
  | true => exact hopening
  | false =>
    simp only [Feed.answer, step]
    rw [drive_eq]
    exact hopening

end Probe

/-- A fetch comes to what its probe is driven to, whatever else the hub is asked meanwhile. -/
theorem Answered.result_eq {answer : σ → Probe l → Option Reply × σ}
    (h : Answered answer f.address.id p s es) (hp : f.state = .waiting p)
    (hr : (f.run es).state = .ended result) :
    result = (Probe.drive answer f.address.id p s).1.2 := by
  induction es generalizing f p s with
  | nil =>
    rw [Fetch.run, List.foldl_nil, hp] at hr
    cases hr
  | cons e es ih =>
    rw [Fetch.run_cons] at hr
    cases e with
    | other a => exact ih (f := { f with hub := (f.hub.step a).2 }) h hp hr
    | cancel now => exact h.elim
    | reply now r =>
      obtain ⟨hanswer, h⟩ := h
      rw [Probe.drive_eq, hanswer]
      cases hstep : p.step f.address.id r with
      | going q =>
        rw [hstep] at h
        simp only [hstep]
        have hnext : f.step (.reply now r) = { f with state := .waiting q } := by
          simp only [Fetch.step, hp, hstep]
        rw [hnext] at hr
        exact ih (f := { f with state := .waiting q }) h rfl hr
      | ended size result =>
        simp only [hstep]
        have hnext : f.step (.reply now r) = f.conclude now size result := by
          simp only [Fetch.step, hp, hstep]
        rw [hnext, Fetch.run_ended rfl] at hr
        cases hr
        rfl

/-- The text of a document, without the white space that may follow it, ends with a bracket. A part
from its beginning is read if it has that bracket, and then as the same document. A probe to which no
more than a part without it is sent, before the peer closes the stream or goes quiet, tells that there
is no document; and that the peer answered without one is what is written down. -/
theorem cut_response_has_no_document (hb : Document.parse? b = some d) :
    let text := b.rdropWhile Json.isSpace
    (∃ body last, text = body ++ [last] ∧ Json.IsClosing last) ∧
    (∀ p, p <+: b → Document.parse? p = if text <+: p then some d else none) ∧
    ∀ (l : FetchLimits) (σ : Type) (F : Feed σ) (s : σ) (online : Bool) (address : PeerAddress)
      (sent : List UInt8) (stop : Stop),
      let t := F.timeline s
      let answer : σ → Probe l → Option Reply × σ := F.answer online
      sent <+: b → ¬ text <+: sent → sent ≠ [] → sent.length ≤ l.maxBytes → stop ≠ .failed →
      t.Ends (some l.readMs) l.idleMs sent.length stop → t.bytes sent.length = sent →
      ∃ reason, (Probe.drive answer address.id .asking s).1 =
          (some sent.length, .error (.parse address.id reason)) ∧
        ∀ (h : Hub) (started : Nat) (es : List FetchEvent),
          Answered answer address.id .asking s es →
          let others (es : List FetchEvent) : List Act := es.filterMap (·.other?)
          let f := (Fetch.start l h address started).run es
          (∃ q, f.state = .waiting q ∧ f.hub = h.run (others es)) ∨
          f.state = .ended (.error (.parse address.id reason)) ∧
            ∃ es₁ e es₂ now size, es = es₁ ++ e :: es₂ ∧ e.other? = none ∧
              let before := h.run (others es₁)
              let after := (before.step
                (.record started now address size (.error (.parse address.id reason)))).2
              f.hub = after.run (others es₂) ∧
              after.store = (before.store.upsert now address true none).2 ∧
              ∃ t, after.store.get? address.id = some ⟨true, none, address, t⟩ := by
  intro text
  obtain ⟨hlast, hall⟩ := Document.parse?_prefix hb
  refine ⟨hlast, hall, ?_⟩
  intro l σ F s online address sent stop t answer hsent hcut hne hlen hstop hends hbytes
  have hstarts := hends.1.startsBy (List.length_pos_iff.2 hne)
  have hresponse : F.response l address.id s = .ok sent.toArray := by
    rw [Feed.response_eq_ok, Reader.response_eq_ok, List.size_toArray]
    exact ⟨hstarts, ⟨stop, hstop, hstarts.ends_iff.2 hends⟩, hlen, hbytes.symm⟩
  have hparse : Document.parse? sent = none := by rw [hall sent hsent, if_neg hcut]
  have hdrive : (Probe.drive answer address.id .asking s).1 =
      (some sent.length, .error (.parse address.id "not a status document")) := by
    rw [Probe.drive_feed, hresponse]
    simp only [Probe.conclude, hparse, List.size_toArray]
  refine ⟨_, hdrive, fun h started es hes => ?_⟩
  intro others f
  -- an event that ends the fetch ends it as the probe is driven, however much goes on in between
  rcases Fetch.run_cases (f := Fetch.start l h address started) rfl es with
    ⟨q, hrun, -⟩ | ⟨es₁, e, es₂, now, size, result, hsplit, ho, -, hrun⟩
  · exact Or.inl ⟨q, congrArg Fetch.state hrun, congrArg Fetch.hub hrun⟩
  · have hstate : f.state = .ended result := congrArg Fetch.state hrun
    have hresult : result = .error (.parse address.id "not a status document") :=
      (hes.result_eq (f := Fetch.start l h address started) rfl hstate).trans
        (congrArg Prod.snd hdrive)
    subst hresult
    obtain ⟨found, hfound, -, hof⟩ :=
      exists_finding (.error (.parse address.id "not a status document"))
    obtain rfl : found = some (true, none) := hfound.unusable.2 ⟨_, rfl, rfl⟩
    obtain ⟨hstore, -, hentry⟩ := Hub.store_step_finding (hof now address)
    exact Or.inr ⟨hstate, es₁, e, es₂, now, size, hsplit, ho, congrArg Fetch.hub hrun, hstore,
      hentry true none rfl⟩

/-- All of an object comes but its last bracket, for which the peer takes too long. -/
theorem cut_response_has_no_document_late :
    let address : PeerAddress := ⟨⟨"A", by decide, by decide⟩, []⟩
    let sent := [Json.byte '{', Json.byte '"', Json.byte 'a', Json.byte '"', Json.byte ':',
      Json.byte '[', Json.byte ']']
    let b := sent ++ [Json.byte '}', Json.byte '\n']
    let l : FetchLimits := { chunkSize := 4, maxBytes := 7, readMs := 10, idleMs := 5 }
    let s := Playback.start [.wait 10, .bytes (sent.take 3), .bytes (sent.drop 3), .wait 6,
      .bytes [Json.byte '}']] 0
    let es : List FetchEvent := [.reply 0 (.connected false), .reply 1 .done, .other .subscribe,
      .reply 2 .done, .reply 12 (.arrived (.bytes (sent.take 3))),
      .reply 12 (.arrived (.bytes [Json.byte '"'])), .reply 12 (.arrived (.bytes (sent.drop 4))),
      .reply 17 (.arrived .quiet)]
    let f := (Fetch.start l (.start {}) address 0).run es
    Document.parse? b = some Document.empty ∧ Document.parse? sent = none ∧
      (∃ reason, (Probe.drive (Playback.feed.answer false) address.id (.asking (l := l)) s).1 =
          (some 7, .error (.parse address.id reason)) ∧
        f.state = .ended (.error (.parse address.id reason))) ∧
      f.hub.store.entries = [(address.id, ⟨true, none, address, 17⟩)] := by
  intro address sent b l s es f
  have hb : Document.parse? b = some Document.empty := by decide +kernel
  obtain ⟨-, hall, hprobe⟩ := cut_response_has_no_document hb
  have hsent : sent <+: b := List.prefix_append _ _
  have hcut : ¬ b.rdropWhile Json.isSpace <+: sent := by decide
  have hparse : Document.parse? sent = none := by rw [hall sent hsent, if_neg hcut]
  have hentries : f.hub.store.entries = [(address.id, ⟨true, none, address, 17⟩)] := by
    decide +kernel
  refine ⟨hb, hparse, ?_, hentries⟩
  have hends : (Playback.feed.timeline s).Ends (some l.readMs) l.idleMs sent.length .paused := by
    decide
  have hbytes : (Playback.feed.timeline s).bytes sent.length = sent := by decide
  obtain ⟨reason, hdrive, hfetch⟩ := hprobe l Playback Playback.feed s false address sent .paused hsent
    hcut (List.cons_ne_nil _ _) (Nat.le_refl 7) nofun hends hbytes
  have hanswered : Answered (Playback.feed.answer false) address.id (.asking (l := l)) s es := by
    decide +kernel
  rcases hfetch (.start {}) 0 es hanswered with ⟨q, -, hhub⟩ | ⟨hended, -⟩
  · have hnone : f.hub.store.entries = [] := by
      rw [hhub]
      rfl
    rw [hentries] at hnone
    cases hnone
  · exact ⟨reason, hdrive, hended⟩

end PeerWatch
