import PeerWatch.Net.Loopback
import PeerWatch.Net.Visit
import PeerWatch.Proofs.FetchRecord

/-! The socket on which a stream is opened, against the address that is written down. A transport
remembers sockets by identity: a stream is opened on the socket that was found for the identity
last, at whatever address that was. It is a socket of the address that is written down if the
identity has kept its address, and need not be one otherwise. -/
namespace PeerWatch
variable {l : FetchLimits} {link : Link} {address : PeerAddress} {x : SocketAddr} {t : Transport}
  {v : Visit} {s : Passage} {p q : Probe l} {id : PeerId} {peer : PeerId}

/-- Does an internet address resolve to itself? -/
def Link.IsLiteral (link : Link) : Prop :=
  ∀ ip port, link.resolve ⟨.ip ip, port⟩ = .ok [ip.socket port]

def Link.Resolves (link : Link) (address : PeerAddress) (x : SocketAddr) : Prop :=
  ∃ host ∈ address.hosts, ∃ sockets, link.resolve host = .ok sockets ∧ x ∈ sockets

namespace Transport

theorem mem_sockets?_iff : .ok x ∈ sockets? link address ↔ link.Resolves address x := by
  simp only [sockets?, List.mem_flatMap, Link.Resolves]
  refine exists_congr fun host => and_congr_right fun _ => ?_
  cases link.resolve host <;> simp

/-- The socket that accepts is one of those that are tried. -/
theorem mem_of_firstOpen {last : Option LinkFault} {tried : List (Except LinkFault SocketAddr)}
    (h : firstOpen link last tried = .ok x) : .ok x ∈ tried := by
  induction tried generalizing last with
  | nil => cases h
  | cons y tried ih =>
    cases y with
    | error fault => exact List.mem_cons_of_mem _ (ih h)
    | ok y =>
      rw [firstOpen] at h
      split at h
      · cases h
        exact List.mem_cons_self
      · exact List.mem_cons_of_mem _ (ih h)

theorem resolves_of_reach (h : reach link address = .ok x) : link.Resolves address x := by
  unfold reach at h
  split at h
  · next hopen =>
    cases h
    exact mem_sockets?_iff.1 (mem_of_firstOpen hopen)
  · cases h
  · cases h

end Transport

namespace Probe

def isReading : Probe l → Bool
  | .reading _ => true
  | _ => false

def reached : Except ProbeError Document → Bool
  | .ok _ => true
  | .error e => e.responded

theorem isReading_of_read {progress : Progress l} (h : read peer progress = .going q) :
    q.isReading = true := by
  cases progress <;> cases h
  rfl

/-- A response is read from the moment when a stream was opened. -/
theorem isReading_of_step {r : Reply} (h : p.step peer r = .going q) :
    q.isReading = true ↔ p.isReading = true ∨ p = .opening ∧ r = .done := by
  unfold step at h
  split at h
  case h_6 =>
    cases h
    exact iff_of_true rfl (Or.inr ⟨rfl, rfl⟩)
  case h_9 => exact iff_of_true (isReading_of_read h) (Or.inl rfl)
  case h_10 => exact iff_of_true (isReading_of_read h) (Or.inl rfl)
  all_goals
    cases h
    try simp [isReading]

/-- Only a response that was read shows that a peer was reached. -/
theorem isReading_of_reached {r : Reply} {size : Option Nat} {result : Except ProbeError Document}
    (h : p.step peer r = .ended size result) (hreached : reached result = true) :
    p.isReading = true := by
  unfold step at h
  split at h
  case h_9 => rfl
  case h_10 => rfl
  all_goals
    cases h
    try cases hreached

theorem drive_step {σ : Type} (answer : σ → Probe l → Option Reply × σ) (peer : PeerId)
    (p : Probe l) (s : σ) : drive answer peer p s = match (answer s p).1 with
      | none => ((none, .error (.cancelled peer)), (answer s p).2)
      | some r => match p.step peer r with
        | .going q => drive answer peer q (answer s p).2
        | .ended size result => ((size, result), (answer s p).2) := by
  rw [drive]
  split
  · simp_all
  · split <;> simp_all

/-- A response is read next if a stream is being opened, or a response read already. -/
theorem isReading_of_opening {r : Reply} (hp : p = .opening ∨ p.isReading = true)
    (h : p.step peer r = .going q) : q.isReading = true := by
  refine (isReading_of_step h).2 ?_
  rcases hp with rfl | hp
  · cases r with
    | done => exact Or.inr ⟨rfl, rfl⟩
    | _ => cases h
  · exact Or.inl hp

/-- Two who answer alike, as long as `S` holds, drive a probe to the same end. -/
theorem drive_sim {σ τ : Type} (answer : σ → Probe l → Option Reply × σ)
    (answer' : τ → Probe l → Option Reply × τ) (peer : PeerId) (f : σ → τ) {S : σ → Probe l → Prop}
    (hstep : ∀ {s p r s' q}, S s p → answer s p = (some r, s') → p.step peer r = .going q → S s' q)
    (hanswer : ∀ {s p}, S s p → answer' (f s) p = ((answer s p).1, f (answer s p).2)) {s : σ}
    (hs : S s p) :
    drive answer' peer p (f s) = ((drive answer peer p s).1, f (drive answer peer p s).2) := by
  fun_induction drive answer peer p s with
  | case1 p s s' ha => rw [drive_step, hanswer hs, ha]
  | case2 p s r s' ha q hq hlt ih =>
    rw [drive_step, hanswer hs, ha]
    simp only [hq]
    exact ih (hstep hs ha hq)
  | case3 p s r s' ha size result hq =>
    rw [drive_step, hanswer hs, ha]
    simp only [hq]

end Probe

/-- What is written down of a probe says whether the peer was reached, unless it was cancelled. -/
theorem Hub.get?_record (h : Hub) (started now : Nat) (address : PeerAddress) (size : Option Nat)
    (result : Except ProbeError Document) :
    let after := (h.step (.record started now address size result)).2.store
    (isCancelled result = true → after = h.store) ∧ (isCancelled result = false →
      ∃ e, after.get? address.id = some e ∧ e.address = address ∧
        e.connected = Probe.reached result) := by
  have hwritten {connected : Bool} {document : Option Document}
      (hu : Update.ofResult now address result = some ⟨now, address, connected, document⟩) :
      ∃ e, (h.step (.record started now address size result)).2.store.get? address.id = some e ∧
        e.address = address ∧ e.connected = connected := by
    obtain ⟨t, ht⟩ := (Hub.store_step_finding
      (show _ = Option.map _ (some (connected, document)) from hu)).2.2 _ _ rfl
    exact ⟨_, ht, rfl, rfl⟩
  intro after
  cases result with
  | ok d => exact ⟨fun hc => (by cases hc), fun _ => hwritten rfl⟩
  | error e =>
    refine ⟨fun hc => Hub.store_step_record (if_pos hc), fun hc => hwritten (if_neg ?_)⟩
    exact Bool.eq_false_iff.1 hc

/-- What a question to a transport can come to. -/
inductive Visit.Asked (v : Visit) (s : Passage) (p : Probe l) : Option Reply → Passage → Prop
  | idle {r : Option Reply} {s' : Passage} (transport : s'.transport = s.transport)
    (found : s'.found = s.found) (opened : s'.opened = s.opened)
    (undone : r = some .done → p ≠ .opening) : Asked v s p r s'
  | connected {x : SocketAddr} {s' : Passage} (connecting : p = .connecting)
    (reached : Transport.reach v.link v.address = .ok x)
    (transport : s'.transport = s.transport.remember v.address.id x) (found : s'.found = some x)
    (opened : s'.opened = s.opened) : Asked v s p (some .done) s'
  | opened {x : SocketAddr} {rest : List Segment} {s' : Passage} (opening : p = .opening)
    (remembered : v.remembered s.transport = some x)
    (accepted : Transport.openOn v.link s.transport.key nodeStatusProtocol x = .ok rest)
    (transport : s'.transport = s.transport) (found : s'.found = s.found)
    (opened : s'.opened = some x) : Asked v s p (some .done) s'
  | lost {reason : String} {s' : Passage} (opening : p = .opening)
    (transport : s'.transport = s.transport.invalidate v.address.id) (found : s'.found = s.found)
    (opened : s'.opened = s.opened) : Asked v s p (some (.failed reason)) s'

namespace Visit

theorem remembered_remember (v : Visit) (t : Transport) (x : SocketAddr) :
    v.remembered (t.remember v.address.id x) = some x := lookup_assign_self _ _ _

theorem asked_reply (v : Visit) (s : Passage) (p : Probe l) :
    v.Asked s p (v.reply s p).1 (v.reply s p).2 := by
  cases p with
  | asking => exact .idle rfl rfl rfl nofun
  | reading r => exact .idle rfl rfl rfl nofun
  | connecting =>
    simp only [reply, Transport.answer, Transport.connect]
    cases hreach : Transport.reach v.link v.address with
    | ok x => exact .connected rfl hreach rfl (v.remembered_remember s.transport x) rfl
    | error e => exact .idle rfl rfl rfl nofun
  | opening =>
    simp only [reply, Transport.answer, Transport.openStream]
    cases hsocket : s.transport.sockets.lookup v.address.id with
    | none => exact .idle rfl rfl rfl nofun
    | some x =>
      simp only
      cases hopen : Transport.openOn v.link s.transport.key nodeStatusProtocol x with
      | ok rest => exact .opened rfl hsocket hopen rfl rfl hsocket
      | error e => exact .lost rfl rfl rfl rfl

/-- A question that is answered is answered by the transport. -/
theorem transport_answer (h : v.fate s.asked = .answered) (p : Probe l) :
    Transport.answer v.link v.address (s.transport, s.stream) p =
      ((v.answer s p).1, (v.answer s p).2.transport, (v.answer s p).2.stream) := by
  have hreply : v.answer s p = v.reply { s with asked := s.asked + 1 } p := by
    cases p <;> simp only [answer, h]
  rw [hreply, reply]
  split
  split <;> simp_all

theorem answer_asking {r : Reply} {s' : Passage}
    (h : v.answer s (.asking (l := l)) = (some r, s')) :
    r = .connected (v.remembered s.transport).isSome := by
  cases hfate : v.fate s.asked <;> simp only [answer, hfate] at h <;> cases h <;> rfl

/-- Is there no need for a probe to connect? -/
def Settled (v : Visit) (s : Passage) (p : Probe l) : Prop :=
  p = .asking ∧ (v.remembered s.transport).isSome = true ∨ p = .opening ∨ p.isReading = true

theorem Settled.step {r : Reply} {s' : Passage} (hs : v.Settled s p)
    (ha : v.answer s p = (some r, s')) (hq : p.step peer r = .going q) : v.Settled s' q := by
  rcases hs with ⟨rfl, hs⟩ | hs
  · rw [answer_asking ha, hs] at hq
    cases hq
    exact Or.inr (Or.inl rfl)
  · exact Or.inr (Or.inr (Probe.isReading_of_opening hs hq))

/-- Nobody looks at the hosts of an address but to connect. -/
theorem Settled.answer_hosts (hs : v.Settled s p) (hosts : List HostAddr) :
    ({ v with address := ⟨v.address.id, hosts⟩ } : Visit).answer s p = v.answer s p := by
  cases p with
  | connecting => simp [Settled, Probe.isReading] at hs
  | _ => rfl

theorem Asked.of_count {n : Nat} {r : Option Reply} {s' : Passage}
    (h : v.Asked { s with asked := n } p r s') : v.Asked s p r s' := by
  cases h with
  | idle transport found opened undone => exact .idle transport found opened undone
  | connected connecting reached transport found opened =>
    exact .connected connecting reached transport found opened
  | opened opening remembered accepted transport found opened =>
    exact .opened opening remembered accepted transport found opened
  | lost opening transport found opened => exact .lost opening transport found opened

theorem asked_answer (v : Visit) (s : Passage) (p : Probe l) :
    v.Asked s p (v.answer s p).1 (v.answer s p).2 := by
  unfold answer
  split
  · exact .idle rfl rfl rfl nofun
  · exact .idle rfl rfl rfl nofun
  · exact .idle rfl rfl rfl nofun
  · exact .idle rfl rfl rfl nofun
  · exact (v.asked_reply _ _).of_count
  · exact (v.asked_reply _ _).of_count

end Visit

/-- What holds of a probe that began with the transport `t`. The socket that is remembered for the
peer is the one that was found, or else the one that was remembered before; a stream was opened on
it. -/
structure Passage.Keeps (v : Visit) (t : Transport) (s : Passage) : Prop where
  key : s.transport.key = t.key
  others : ∀ id, id ≠ v.address.id → s.transport.sockets.lookup id = t.sockets.lookup id
  own : ∀ x, v.remembered s.transport = some x →
    s.found = some x ∨ s.found = none ∧ v.remembered t = some x
  found : ∀ x, s.found = some x → v.link.Resolves v.address x
  opened : ∀ x, s.opened = some x → v.remembered s.transport = some x ∧
    ∃ rest, Transport.openOn v.link t.key nodeStatusProtocol x = .ok rest

namespace Passage

theorem keeps_depart (v : Visit) (t : Transport) : (v.depart t).Keeps v t where
  key := rfl
  others _ _ := rfl
  own _ h := Or.inr ⟨rfl, h⟩
  found := nofun
  opened := nofun

section
variable {s' : Passage}

theorem Keeps.idle (k : s.Keeps v t) (transport : s'.transport = s.transport)
    (found : s'.found = s.found) (opened : s'.opened = s.opened) : s'.Keeps v t where
  key := by rw [transport, k.key]
  others := by rw [transport]; exact k.others
  own := by rw [transport, found]; exact k.own
  found := by rw [found]; exact k.found
  opened := by rw [transport, opened]; exact k.opened

/-- The socket that was found takes the place of the one that was remembered. -/
theorem Keeps.connected (k : s.Keeps v t) (hreach : Transport.reach v.link v.address = .ok x)
    (transport : s'.transport = s.transport.remember v.address.id x) (found : s'.found = some x)
    (opened : s'.opened = none) : s'.Keeps v t where
  key := by rw [transport]; exact k.key
  others id hid := by
    rw [transport]
    exact (lookup_assign_ne hid).trans (k.others id hid)
  own y hy := by
    rw [transport, Visit.remembered_remember] at hy
    exact Or.inl (found.trans hy)
  found y hy := by
    rw [found] at hy
    cases hy
    exact Transport.resolves_of_reach hreach
  opened := by rw [opened]; nofun

theorem Keeps.streams {rest : List Segment} (k : s.Keeps v t)
    (hremembered : v.remembered s.transport = some x)
    (haccepted : Transport.openOn v.link s.transport.key nodeStatusProtocol x = .ok rest)
    (transport : s'.transport = s.transport) (found : s'.found = s.found)
    (opened : s'.opened = some x) : s'.Keeps v t where
  key := by rw [transport, k.key]
  others := by rw [transport]; exact k.others
  own := by rw [transport, found]; exact k.own
  found := by rw [found]; exact k.found
  opened y hy := by
    rw [opened] at hy
    cases hy
    exact ⟨transport ▸ hremembered, rest, k.key ▸ haccepted⟩

/-- A socket on which no stream can be opened is no longer remembered. -/
theorem Keeps.lost (k : s.Keeps v t)
    (transport : s'.transport = s.transport.invalidate v.address.id) (found : s'.found = s.found)
    (opened : s'.opened = none) : s'.Keeps v t where
  key := by rw [transport]; exact k.key
  others id hid := by
    rw [transport]
    exact (lookup_filter_ne hid).trans (k.others id hid)
  own y hy := by
    have hforgot : v.remembered s'.transport = none := by
      rw [transport]
      exact lookup_filter_self _ _
    rw [hforgot] at hy
    cases hy
  found := by rw [found]; exact k.found
  opened := by rw [opened]; nofun

end

/-- A question leaves the invariant as it is, and tells whether a stream is open from then on. -/
theorem Keeps.asked {r : Option Reply} {s' : Passage} (k : s.Keeps v t) (h : v.Asked s p r s')
    (hopened : s.opened.isSome = true ↔ p.isReading = true) :
    s'.Keeps v t ∧
      (s'.opened.isSome = true ↔ p.isReading = true ∨ p = .opening ∧ r = some .done) := by
  -- while no response is read there is no stream, so the remembered socket may change
  have hfresh (hp : p.isReading = false) : s.opened = none := by
    rw [← Option.not_isSome_iff_eq_none, hopened, hp]
    nofun
  cases h with
  | idle transport found opened undone =>
    refine ⟨k.idle transport found opened, ?_⟩
    rw [opened, hopened]
    exact (or_iff_left fun h => undone h.2 h.1).symm
  | connected connecting reached transport found opened =>
    subst connecting
    have hnone := opened.trans (hfresh rfl)
    exact ⟨k.connected reached transport found hnone, by simp [hnone, Probe.isReading]⟩
  | opened opening remembered accepted transport found opened =>
    refine ⟨k.streams remembered accepted transport found opened, ?_⟩
    rw [opened]
    exact iff_of_true rfl (Or.inr ⟨opening, rfl⟩)
  | lost opening transport found opened =>
    subst opening
    have hnone := opened.trans (hfresh rfl)
    exact ⟨k.lost transport found hnone, by simp [hnone, Probe.isReading]⟩

/-- What holds of a probe when it has ended. If the peer was reached, then over a stream. -/
theorem Keeps.drive (k : s.Keeps v t) (hopened : s.opened.isSome = true ↔ p.isReading = true) :
    (Probe.drive v.answer v.address.id p s).2.Keeps v t ∧
      (Probe.reached (Probe.drive v.answer v.address.id p s).1.2 = true →
        (Probe.drive v.answer v.address.id p s).2.opened.isSome = true) := by
  fun_induction Probe.drive v.answer v.address.id p s with
  | case1 p s s' hs =>
    have hasked := v.asked_answer s p
    rw [hs] at hasked
    exact ⟨(k.asked hasked hopened).1, fun hr => by cases hr⟩
  | case2 p s r s' hs q hstep hlt ih =>
    have hasked := v.asked_answer s p
    rw [hs] at hasked
    obtain ⟨k', hopened'⟩ := k.asked hasked hopened
    refine ih k' (hopened'.trans ?_)
    rw [Probe.isReading_of_step hstep, Option.some.injEq]
  | case3 p s r s' hs size result hstep =>
    have hasked := v.asked_answer s p
    rw [hs] at hasked
    obtain ⟨k', hopened'⟩ := k.asked hasked hopened
    exact ⟨k', fun hr => hopened'.2 (Or.inl (Probe.isReading_of_reached hstep hr))⟩

end Passage

/-- Are the hosts of a visit hosts of another one, and do their names stand for the same sockets? -/
def Visit.Within (u v : Visit) : Prop := u.address.hosts ⊆ v.address.hosts ∧
  ∀ name port, ⟨.dns name, port⟩ ∈ u.address.hosts →
    u.link.resolve ⟨.dns name, port⟩ = v.link.resolve ⟨.dns name, port⟩

theorem Visit.Within.resolves {u : Visit} (h : u.Within v) (hu : u.link.IsLiteral)
    (hv : v.link.IsLiteral) (hx : u.link.Resolves u.address x) : v.link.Resolves v.address x := by
  obtain ⟨host, hmem, sockets, hresolve, hx⟩ := hx
  refine ⟨host, h.1 hmem, sockets, ?_, hx⟩
  rw [← hresolve]
  obtain ⟨ip | name, port⟩ := host
  · rw [hu, hv]
  · exact (h.2 name port hmem).symm

/-- Is `x` the socket that was found for an identity last, among those of the address for which it
was found? -/
def FoundLast (accounts : List Account) (id : PeerId) (x : SocketAddr) : Prop :=
  ∃ before b after, accounts = before ++ b :: after ∧ b.visit.address.id = id ∧ b.found = some x ∧
    b.visit.link.Resolves b.visit.address x ∧ ∀ c ∈ after, c.visit.address.id = id → c.found = none

section
variable {accounts : List Account} {a : Account}

theorem foundLast_concat_self (hx : a.found = some x)
    (hresolves : a.visit.link.Resolves a.visit.address x) :
    FoundLast (accounts ++ [a]) a.visit.address.id x :=
  ⟨accounts, a, [], rfl, rfl, hx, hresolves, nofun⟩

theorem FoundLast.concat (h : FoundLast accounts id x)
    (ha : a.visit.address.id = id → a.found = none) : FoundLast (accounts ++ [a]) id x := by
  obtain ⟨before, b, after, rfl, hid, hx, hresolves, hafter⟩ := h
  refine ⟨before, b, after ++ [a], by simp, hid, hx, hresolves, fun c hc => ?_⟩
  rcases List.mem_append.1 hc with hc | hc
  · exact hafter c hc
  · rw [List.mem_singleton.1 hc]
    exact ha

theorem FoundLast.exists_mem (h : FoundLast accounts id x) : ∃ b ∈ accounts,
    b.visit.address.id = id ∧ b.visit.link.Resolves b.visit.address x := by
  obtain ⟨before, b, after, rfl, hid, -, hresolves, -⟩ := h
  exact ⟨b, by simp, hid, hresolves⟩

end

namespace Station
variable {st : Station} {accounts : List Account}

/-- A fetch drives a probe, and writes its result down. -/
theorem exists_passage (l : FetchLimits) (st : Station) (v : Visit) :
    ∃ (s : Passage) (size : Option Nat) (result : Except ProbeError Document),
      s.Keeps v st.transport ∧ (Probe.reached result = true → s.opened.isSome = true) ∧
      st.fetch l v = (⟨v, s.found, s.opened, result⟩, ⟨s.transport,
        (st.hub.step (.record v.started s.stream.now v.address size result)).2⟩) := by
  obtain ⟨k, hreached⟩ := (Passage.keeps_depart v st.transport).drive (p := .asking (l := l)) (by
    simp [Visit.depart, Probe.isReading])
  exact ⟨_, _, _, k, hreached, rfl⟩

def Remembers (accounts : List Account) (st : Station) : Prop :=
  ∀ id x, st.transport.sockets.lookup id = some x → FoundLast accounts id x

theorem Remembers.fetch (h : Remembers accounts st) (l : FetchLimits) (v : Visit) :
    Remembers (accounts ++ [(st.fetch l v).1]) (st.fetch l v).2 := by
  obtain ⟨s, size, result, k, -, hfetch⟩ := exists_passage l st v
  rw [hfetch]
  intro id x hx
  by_cases hid : id = v.address.id
  · subst hid
    rcases k.own x hx with hfound | ⟨hfound, hbefore⟩
    · exact foundLast_concat_self hfound (k.found x hfound)
    · exact (h _ x hbefore).concat fun _ => hfound
  · refine (h id x ((k.others id hid).symm.trans hx)).concat fun hv => ?_
    exact absurd hv.symm hid

theorem run_cons (l : FetchLimits) (st : Station) (v : Visit) (vs : List Visit) :
    st.run l (v :: vs) = ((st.fetch l v).1 :: ((st.fetch l v).2.run l vs).1,
      ((st.fetch l v).2.run l vs).2) := rfl

theorem Remembers.run (h : Remembers accounts st) (l : FetchLimits) (vs : List Visit) :
    Remembers (accounts ++ (st.run l vs).1) (st.run l vs).2 := by
  induction vs generalizing accounts st with
  | nil => simpa [Station.run] using h
  | cons v vs ih => simpa [run_cons] using ih (h.fetch l v)

theorem key_run (l : FetchLimits) (st : Station) (vs : List Visit) :
    (st.run l vs).2.transport.key = st.transport.key := by
  induction vs generalizing st with
  | nil => rfl
  | cons v vs ih =>
    obtain ⟨s, size, result, k, -, hfetch⟩ := exists_passage l st v
    rw [run_cons, ih, hfetch]
    exact k.key

theorem visits_run (l : FetchLimits) (st : Station) (vs : List Visit) :
    (st.run l vs).1.map (·.visit) = vs := by
  induction vs generalizing st with
  | nil => rfl
  | cons v vs ih => rw [run_cons, List.map_cons, ih, show (st.fetch l v).1.visit = v from rfl]

/-- If every question is answered, then a fetch is a probe by the transport, and is written down. -/
theorem fetch_eq_probe (l : FetchLimits) (st : Station) (v : Visit)
    (hfate : ∀ n, v.fate n = .answered) :
    let ((size, result), now, transport) := st.transport.probe v.link l v.started v.address
    let fetched := st.fetch l v
    fetched.1.result = result ∧ fetched.2.transport = transport ∧
      fetched.2.hub = (st.hub.step (.record v.started now v.address size result)).2 := by
  have hsim := Probe.drive_sim v.answer (Transport.answer v.link v.address) v.address.id
    (fun s => (s.transport, s.stream)) (S := fun _ (_ : Probe l) => True) (fun _ _ _ => trivial)
    (fun _ => v.transport_answer (hfate _) _) (s := v.depart st.transport) (p := .asking) trivial
  have hhub := congrArg (fun r =>
    (st.hub.step (.record v.started r.2.2.now v.address r.1.1 r.1.2)).2) hsim.symm
  exact ⟨congrArg (·.1.2) hsim.symm, congrArg (·.2.1) hsim.symm, hhub⟩

/-- While a socket is remembered for the identity, the hosts of an address make no difference. -/
theorem fetch_hosts (l : FetchLimits) (st : Station) (v : Visit) (hosts : List HostAddr)
    (hremembered : (v.remembered st.transport).isSome = true) :
    let fetched := st.fetch l v
    let other := st.fetch l { v with address := ⟨v.address.id, hosts⟩ }
    other.1.opened = fetched.1.opened ∧ other.1.result = fetched.1.result ∧
      other.2.transport = fetched.2.transport := by
  have hsim : Probe.drive ({ v with address := ⟨v.address.id, hosts⟩ } : Visit).answer v.address.id
      (.asking (l := l)) (v.depart st.transport) =
      Probe.drive v.answer v.address.id .asking (v.depart st.transport) :=
    Probe.drive_sim _ _ _ id (S := v.Settled) Visit.Settled.step (fun hs => hs.answer_hosts hosts)
      (Or.inl ⟨rfl, hremembered⟩)
  exact ⟨congrArg (·.2.opened) hsim, congrArg (·.1.2) hsim, congrArg (·.2.transport) hsim⟩

/-- The socket of a stream, for any fetches one after the other, between which sockets may open and
close. A peer is written down as reached only if a stream was opened, on the socket that was found
for the identity last. That is a socket of the address that is written down if no other hosts were
visited for the identity before. -/
theorem stream_on_found_socket (l : FetchLimits) (key : String) (h : Hub) (vs : List Visit)
    (v : Visit) :
    let before := (start key h).run l vs
    let fetched := before.2.fetch l v
    let accounts := before.1 ++ [fetched.1]
    let result := fetched.1.result
    accounts.map (·.visit) = vs ++ [v] ∧
    (isCancelled result = true → fetched.2.hub.store = before.2.hub.store) ∧
    (isCancelled result = false → ∃ e, fetched.2.hub.store.get? v.address.id = some e ∧
      e.address = v.address ∧ e.connected = Probe.reached result ∧
      (e.connected = true → fetched.1.opened.isSome = true)) ∧
    ∀ x, fetched.1.opened = some x →
      (∃ rest, Transport.openOn v.link key nodeStatusProtocol x = .ok rest) ∧
      FoundLast accounts v.address.id x ∧
      ((∀ u ∈ v :: vs, u.link.IsLiteral) →
        (∀ u ∈ vs, u.address.id = v.address.id → u.Within v) → v.link.Resolves v.address x) := by
  intro before fetched accounts result
  have hvisits : accounts.map (·.visit) = vs ++ [v] := by
    rw [List.map_append, visits_run]
    rfl
  have hremembers : Remembers accounts fetched.2 := by
    have hstart : Remembers [] (start key h) := fun id x hx => by cases hx
    exact (hstart.run l vs).fetch l v
  obtain ⟨s, size, found, k, hreached, hfetch⟩ := exists_passage l before.2 v
  have hfetched : fetched = _ := hfetch
  have hresult : result = found := congrArg (·.1.result) hfetched
  have hopened : fetched.1.opened = s.opened := congrArg (·.1.opened) hfetched
  have htransport : fetched.2.transport = s.transport := congrArg (·.2.transport) hfetched
  have hkey : before.2.transport.key = key := key_run l (start key h) vs
  obtain ⟨hcancelled, hwritten⟩ :=
    Hub.get?_record before.2.hub v.started s.stream.now v.address size found
  have hhub : fetched.2.hub = _ := congrArg (·.2.hub) hfetched
  rw [hresult, hopened, hhub]
  refine ⟨hvisits, hcancelled, fun hc => ?_, fun x hx => ?_⟩
  · obtain ⟨e, he, haddress, hconnected⟩ := hwritten hc
    exact ⟨e, he, haddress, hconnected, fun hyes => hreached (hconnected ▸ hyes)⟩
  obtain ⟨hx, haccepted⟩ := k.opened x hx
  have hlast : FoundLast accounts v.address.id x := by
    refine hremembers _ x ?_
    rw [htransport]
    exact hx
  refine ⟨hkey ▸ haccepted, hlast, fun hliteral hwithin => ?_⟩
  obtain ⟨b, hb, hid, hresolves⟩ := hlast.exists_mem
  have hb : b.visit ∈ vs ++ [v] := hvisits ▸ List.mem_map_of_mem hb
  rcases List.mem_append.1 hb with hb | hb
  · exact (hwithin _ hb hid).resolves (hliteral _ (List.mem_cons_of_mem _ hb))
      (hliteral _ List.mem_cons_self) hresolves
  · rw [List.mem_singleton.1 hb] at hresolves
    exact hresolves

/-- A machine on which two peers listen. Each has a document that tells its name. -/
def pair : Loopback where
  routed := true
  key := "k"
  listeners := ["A", "B"].map fun name =>
    (name, { key := "k", body := Utf8.ofString ("\x7b\"sync_status\":\"" ++ name ++ "\"\x7d") })

def pairVisit (name : String) : Visit where
  link := pair.link
  address := pair.addressOf ⟨"X", by decide, by decide⟩ [name]
  started := 0

/-- `X` stays at `A`, and is fetched there twice. -/
theorem stream_on_found_socket_twice :
    let before := (start pair.key (.start {})).run pair.limits [pairVisit "A"]
    let second := pairVisit "A"
    let fetched := before.2.fetch pair.limits second
    let found := Loopback.home.socket 40000
    (∃ e, fetched.2.hub.store.get? second.address.id = some e ∧ e.address = second.address ∧
      e.connected = true) ∧
    fetched.1.found = none ∧ fetched.1.opened = some found ∧
      second.link.Resolves second.address found := by
  intro before second fetched found
  have hopened : fetched.1.opened = some found := by decide +kernel
  have hreached : isCancelled fetched.1.result = false ∧ Probe.reached fetched.1.result = true := by
    decide +kernel
  obtain ⟨-, -, hwritten, hsocket⟩ :=
    stream_on_found_socket pair.limits pair.key (.start {}) [pairVisit "A"] second
  obtain ⟨e, he, haddress, hconnected, -⟩ := hwritten hreached.1
  obtain ⟨-, -, hresolves⟩ := hsocket found hopened
  refine ⟨⟨e, he, haddress, hconnected.trans hreached.2⟩, by decide +kernel, hopened, ?_⟩
  refine hresolves ?_ ?_
  · simp [pairVisit, second, Link.IsLiteral, pair, Loopback.link]
  · simp [pairVisit, second, Visit.Within]

/-- The socket that was found for `X` at `A` is used when `X` is at `B`. -/
theorem stream_on_old_socket :
    let before := (start pair.key (.start {})).run pair.limits [pairVisit "A"]
    let second := pairVisit "B"
    let fetched := before.2.fetch pair.limits second
    let old := Loopback.home.socket 40000
    second.link.IsLiteral ∧
    (fetched.2.hub.store.get? second.address.id).map (fun e => (e.connected, e.address)) =
      some (true, second.address) ∧
    fetched.1.result.toOption.map (·.syncStatus) = some "A" ∧
    fetched.1.opened = some old ∧ ¬ second.link.Resolves second.address old := by
  refine ⟨fun _ _ => rfl, by decide +kernel, by decide +kernel, by decide +kernel, ?_⟩
  rintro ⟨host, hmem, sockets, hresolve, hx⟩
  obtain rfl := List.mem_singleton.1 hmem
  cases hresolve
  revert hx
  decide +kernel

end Station
end PeerWatch
