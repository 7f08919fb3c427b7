import PeerWatch.Proofs.Interleaving

/-! Cancellation. From the moment at which a token is cancelled nothing that goes by it writes
anything down, calls anybody or begins a record: its probes end one after the other as cancelled
ones, which no report counts, its loops end without a further pass, and its sessions end with the
record that they are writing. What was written down and counted before stays as it is. -/
namespace PeerWatch
variable {p : SessionPolicy} {m : Monitor} {s : Served} {r : Registry}

def Registry.queues (r : Registry) : List (Nat × List View) :=
  r.subscribers.map fun s => (s.id, s.queue)

theorem Registry.queues_modify (id : Nat) {f : Subscriber → Subscriber}
    (hf : ∀ s, (f s).id = s.id ∧ (f s).queue = s.queue) : (r.modify id f).queues = r.queues := by
  rw [queues, queues, modify, List.map_map]
  refine List.map_congr_left fun s _ => ?_
  rw [Function.comp_apply]
  split_ifs
  · rw [(hf s).1, (hf s).2]
  · rfl

theorem Registry.queues_release (id : Nat) : (r.release id).2.queues = r.queues := by
  have hhangUp : (r.release id).2.queues = (r.clear id).2.queues :=
    queues_modify id fun _ => ⟨rfl, rfl⟩
  exact hhangUp.trans (queues_modify id fun _ => ⟨rfl, rfl⟩)

/-- A session that ends changes no entry, and takes nothing out of a queue. -/
theorem Course.finish_spec (c : Course) (e : SessionEnd) (m : Monitor) :
    (c.finish e m).1.store.entries = m.store.entries ∧
      (c.finish e m).1.store.registry.queues = m.store.registry.queues :=
  ⟨rfl, Registry.queues_release _⟩

/-- Between two records, a cancelled session ends. -/
theorem Course.turn_cancelled (c : Course) (now : Nat) : ∃ k,
    c.turn p true now m = Course.finish { c with session.keepalive := k } .cancelled
      (m.withRegistry false m.store.registry) := by
  unfold Course.turn Session.turn
  cases hs : c.session.snapshot with
  | nil => exact ⟨_, rfl⟩
  | cons v rest => exact ⟨c.session.keepalive, rfl⟩

/-- What a cancelled session does: it brings the record that it is writing further. -/
structure Served.Winds (m m' : Monitor) (s s' : Served) : Prop where
  entries : m'.store.entries = m.store.entries
  queues : m'.store.registry.queues = m.store.registry.queues
  snapshot : s'.session.snapshot = s.session.snapshot
  record : ∃ part, s'.pipe.content = s.pipe.content ++ part ∧
    part ++ s'.session.unsent = s.session.unsent ∧ (s.session.writing = false → part = [])

theorem Served.Winds.refl (m : Monitor) (s : Served) : Winds m m s s :=
  ⟨rfl, rfl, rfl, [], (List.append_nil _).symm, rfl, fun _ => rfl⟩

theorem Served.Winds.trans {m₁ m₂ m₃ : Monitor} {s₁ s₂ s₃ : Served} (h : Winds m₁ m₂ s₁ s₂)
    (h' : Winds m₂ m₃ s₂ s₃) (hw : s₁.session.writing = true) : Winds m₁ m₃ s₁ s₃ := by
  obtain ⟨part, hpart, hunsent, -⟩ := h.record
  obtain ⟨part', hpart', hunsent', -⟩ := h'.record
  refine ⟨h'.entries.trans h.entries, h'.queues.trans h.queues, h'.snapshot.trans h.snapshot,
    part ++ part', ?_, ?_, fun hn => ?_⟩
  · rw [hpart', hpart, List.append_assoc]
  · rw [List.append_assoc, hunsent', hunsent]
  · rw [hw] at hn
    cases hn

/-- What a pipe says: it takes the first bytes of those that are to be written, or changes not. -/
theorem Served.reply?_cases {now : Nat} {reply : WriteReply} {pipe : Pipe}
    (hr : s.reply? now = some (reply, pipe)) : pipe = s.pipe ∧ (∀ n, reply ≠ .accepted n) ∨
      ∃ part rest, s.session.unsent = part ++ rest ∧ reply = .accepted part.length ∧
        pipe = { s.pipe with content := s.pipe.content ++ part } := by
  unfold reply? at hr
  split at hr
  · cases hr
    exact .inl ⟨rfl, nofun⟩
  · split at hr
    · cases hr
      exact .inl ⟨rfl, nofun⟩
    · dsimp only [Pipe.write] at hr
      split at hr
      · cases hr
        exact .inr ⟨_, _, (List.take_append_drop s.pipe.room s.session.unsent).symm, rfl, rfl⟩
      · split at hr
        · cases hr
          exact .inl ⟨rfl, nofun⟩
        · cases hr

/-- What a pipe says to a session brings at most the record further that is being written. -/
theorem Served.winds_reply {now : Nat} {reply : WriteReply} {pipe : Pipe}
    (hr : s.reply? now = some (reply, pipe)) (he : s.ended = none)
    (hw : s.session.writing = true) :
    Winds m (s.toCourse.step p m (.reply reply)).1 s
      ⟨(s.toCourse.step p m (.reply reply)).2, pipe⟩ := by
  have hstep : s.toCourse.step p m (.reply reply) = s.toCourse.reply p reply m := by
    simp [Course.step, he, hw]
  rw [hstep]
  rcases reply?_cases hr with ⟨rfl, hno⟩ | ⟨part, rest, hunsent, rfl, rfl⟩
  · have hfail (why : SessionEnd) : Winds m (s.toCourse.finish why m).1 s
        ⟨(s.toCourse.finish why m).2, s.pipe⟩ := by
      obtain ⟨hentries, hqueues⟩ := Course.finish_spec s.toCourse why m
      exact ⟨hentries, hqueues, rfl, [], (List.append_nil _).symm, rfl, fun _ => rfl⟩
    cases reply with
    | accepted n => exact absurd rfl (hno n)
    | flushed => exact ⟨rfl, rfl, rfl, [], (List.append_nil _).symm, rfl, fun _ => rfl⟩
    | failed reason => exact hfail (.writeFailed reason)
    | late => exact hfail (.writeTimeout p.writeMs)
  · refine ⟨rfl, rfl, rfl, part, rfl, ?_, fun hn => ?_⟩
    · change part ++ s.session.unsent.drop part.length = s.session.unsent
      rw [hunsent, List.drop_left]
    · rw [hw] at hn
      cases hn

theorem Served.serve_between (now fuel : Nat) (m : Monitor) (he : s.ended = none)
    (hw : s.session.writing = false) :
    ∃ k, serve p now true (fuel + 1) m s =
      ((m.withRegistry false m.store.registry).release s.session.subscriber,
        { s with session.keepalive := k, ended := some .cancelled }) := by
  obtain ⟨k, hturn⟩ := Course.turn_cancelled (p := p) (m := m) s.toCourse now
  have hstep : s.toCourse.step p m (.turn true now) = s.toCourse.turn p true now m := by
    simp [Course.step, he, hw]
  refine ⟨k, ?_⟩
  rw [serve, if_neg (by simp [he]), if_neg (by simp [hw]), hstep, hturn]
  simp [Course.finish, hw]

/-- A cancelled session begins no record. -/
theorem Served.winds_serve (now fuel : Nat) (m : Monitor) (s : Served) :
    Winds m (serve p now true fuel m s).1 s (serve p now true fuel m s).2 := by
  induction fuel generalizing m s with
  | zero => exact .refl m s
  | succ fuel ih =>
    cases he : s.ended with
    | some why =>
      rw [serve, if_pos (by simp [he])]
      exact .refl m s
    | none =>
      cases hw : s.session.writing with
      | false =>
        obtain ⟨k, hserve⟩ := serve_between now fuel m he hw
        rw [hserve]
        exact ⟨rfl, Registry.queues_release _, rfl, [], (List.append_nil _).symm, rfl, fun _ => rfl⟩
      | true =>
        rw [serve, if_neg (by simp [he]), if_pos hw]
        split
        · exact .refl m s
        · next reply pipe hr => exact (winds_reply hr he hw).trans (ih _ _) hw

namespace Rehearsal
variable {c : Setup} {w w' w₀ w₁ : World c} {e : Errand c.fetch} {q : Walk} {token other : String}
  {number : Nat} {result : Except ProbeError Document}

/-- A pass as it was when its token was cancelled, or as it starts after that: nothing more is
counted, and every further probe has ended as cancelled. -/
def Walk.Halted (w₀ : World c) (q : Walk) : Prop :=
  (∃ p ∈ w₀.walks, p.number = q.number ∧ p.purpose = q.purpose ∧ q.pass.report = p.pass.report ∧
    (q.last = p.last ∨ ∃ id, q.last = some (.error (.cancelled id)))) ∨
  (w₀.walkCount ≤ q.number ∧ q.purpose = .direct ∧ q.pass.report = {} ∧
    (q.last = none ∨ ∃ id, q.last = some (.error (.cancelled id))))

theorem Walk.Halted.of_eq {q' : Walk} (h : q.Halted w₀) (hn : q.number = q'.number)
    (hp : q.purpose = q'.purpose) (hr : q.pass.report = q'.pass.report)
    (hl : q'.last = q.last ∨ ∃ id, q'.last = some (.error (.cancelled id))) : q'.Halted w₀ := by
  rcases h with ⟨p, hmem, hn', hp', hr', hl'⟩ | ⟨hn', hp', hr', hl'⟩
  · refine .inl ⟨p, hmem, hn'.trans hn, hp'.trans hp, hr.symm.trans hr', ?_⟩
    rcases hl with hl | hl
    · rwa [hl]
    · exact .inr hl
  · refine .inr ⟨hn ▸ hn', hp ▸ hp', hr ▸ hr', ?_⟩
    rcases hl with hl | hl
    · rwa [hl]
    · exact .inr hl

namespace World

/-- What is so at all times from the moment `w₀` on at which a token was cancelled. -/
structure Halts (token : String) (w₀ w : World c) : Prop where
  cancelled : w.isCancelled token = true
  walkCount : w₀.walkCount ≤ w.walkCount
  origins : ∀ q ∈ w.walks, q.number < w₀.walkCount →
    ∃ p ∈ w₀.walks, p.number = q.number ∧ p.token = q.token
  walks : ∀ q ∈ w.walks, q.token = token → q.Halted w₀
  errands : ∀ e ∈ w.errands, ∀ q ∈ w.walks, q.number = e.owner → q.token = token →
    e.moment.due ≤ w.now
  loops : ∀ l ∈ w.loops, l.token = token → ∀ m, l.state = .waiting m → m.due ≤ w.now

theorem Halts.tends (h : Halts token w₀ w) (ht : Tends number w w') : Halts token w₀ w' where
  cancelled := by rw [isCancelled, ht.cancelled]; exact h.cancelled
  walkCount := ht.walkCount ▸ h.walkCount
  origins q hq hlt := by
    obtain ⟨p, hp, he⟩ := ht.walks q hq
    obtain ⟨hn, ht', -⟩ := Walk.of_unstarted he
    rw [← hn, ← ht']
    exact h.origins p hp (hn ▸ hlt)
  walks q hq htoken := by
    obtain ⟨p, hp, he⟩ := ht.walks q hq
    obtain ⟨hn, ht', hpurpose, hlast, hreport, -⟩ := Walk.of_unstarted he
    exact (h.walks p hp (ht'.trans htoken)).of_eq hn hpurpose hreport (.inl hlast.symm)
  errands e he q hq hn htoken := by
    rw [ht.now]
    rcases ht.errands e he with he | ⟨-, hdue⟩
    · obtain ⟨p, hp, hsame⟩ := ht.walks q hq
      obtain ⟨hn', ht', -⟩ := Walk.of_unstarted hsame
      exact h.errands e he p hp (hn'.trans hn) (ht'.trans htoken)
    · exact Nat.le_of_eq hdue
  loops l hl htoken m hm := by
    obtain ⟨l', hl', -, htoken', hstate⟩ := ht.loops l hl
    rw [htoken] at htoken'
    rw [ht.now]
    rcases hstate with hstate | hended
    · exact h.loops l' hl' htoken'.symm m (hstate ▸ hm)
    · rw [hended (htoken' ▸ h.cancelled)] at hm
      cases hm

/-- An errand was taken up, and its outcome is written down: as a cancelled one if it goes by the
token. -/
theorem Halts.writeDown (h : Halts token w₀ w) (network : Network) (places : Nat)
    (size : Option Nat) (hr : ∀ q ∈ w.walks, q.number = e.owner → q.token = token →
      ∃ id, result = .error (.cancelled id)) :
    Halts token w₀ (writeDown { w.takeUp e with network, places } e size result) where
  cancelled := h.cancelled
  walkCount := h.walkCount
  origins q hq hlt := by
    obtain ⟨p, hp, -, ⟨-, rfl⟩ | ⟨-, rfl⟩⟩ := mem_writeDown hq
    · exact h.origins p hp hlt
    · exact h.origins q hp hlt
  walks q hq htoken := by
    obtain ⟨p, hp, -, ⟨hn, rfl⟩ | ⟨-, rfl⟩⟩ := mem_writeDown hq
    · obtain ⟨id, rfl⟩ := hr p hp hn htoken
      exact (h.walks p hp htoken).of_eq rfl rfl rfl (.inr ⟨id, rfl⟩)
    · exact h.walks q hp htoken
  errands f hf q hq hn htoken := by
    obtain ⟨p, hp, hn', hq⟩ := mem_writeDown hq
    have htoken' : p.token = token := by
      rcases hq with ⟨-, rfl⟩ | ⟨-, rfl⟩ <;> exact htoken
    exact h.errands f (List.mem_of_mem_filter hf) p hp (hn'.trans hn) htoken'
  loops := h.loops

/-- An errand that goes by a cancelled token ends its probe as cancelled. -/
theorem goOn_cancelled (hq : w.walk? e.owner = some q) (hc : w.isCancelled q.token = true) :
    w.goOn e = w.conclude e none (.error (.cancelled e.candidate.id)) := by
  unfold goOn
  simp only [hq, Option.any_some, hc, if_true]

theorem Halts.goOn (h : Halts token w₀ w) (hs : w.Sound) (he : e ∈ w.errands) :
    Halts token w₀ ((w.takeUp e).goOn e) := by
  obtain ⟨q, hq, hn⟩ := hs.owned e he
  have heq {p : Walk} (hp : p ∈ w.walks) (hn' : p.number = e.owner) : p = q :=
    hs.toManned.eq_of_number hp hq (hn'.trans hn.symm)
  have hends (network : Network) (places : Nat) (size : Option Nat)
      {result : Except ProbeError Document}
      (hr : q.token = token → ∃ id, result = .error (.cancelled id)) :
      Halts token w₀ (conclude { w.takeUp e with network, places } e size result) := by
    obtain ⟨hm, ht⟩ := hs.writeDown he network places size result
    refine (h.writeDown network places size fun p hp hn' htoken => ?_).tends
      (sound_tend hm ht hs.loops).2
    exact hr (heq hp hn' ▸ htoken)
  by_cases htoken : q.token = token
  · have hwalk : (w.takeUp e).walk? e.owner = some q :=
      (walk?_eq_some_iff hs.toManned).2 ⟨hq, hn⟩
    rw [goOn_cancelled hwalk (htoken ▸ h.cancelled)]
    exact hends w.network w.places none fun _ => ⟨_, rfl⟩
  · have hcomes := comes_goOn (w.takeUp e) e
    generalize (w.takeUp e).goOn e = w' at hcomes
    cases hcomes with
    | waits network places owner candidate =>
      refine ⟨h.cancelled, h.walkCount, h.origins, h.walks, fun f hf p hp hn' htoken' => ?_, h.loops⟩
      rcases List.mem_append.1 hf with hf | hf
      · exact h.errands f (List.mem_of_mem_filter hf) p hp hn' htoken'
      · obtain rfl := List.mem_singleton.1 hf
        exact absurd (heq hp (hn'.trans owner) ▸ htoken') htoken
    | ends network places size result =>
      exact hends network places size fun ht => absurd ht htoken

/-- A pass may start under a token that is not cancelled, or when peers are to be probed. -/
theorem Halts.addWalk (h : Halts token w₀ w) (hs : w.Sound) {purpose : Purpose}
    (hp : other = token → purpose = .direct) (cs : List Candidate) :
    Halts token w₀ (w.addWalk other purpose cs) where
  cancelled := h.cancelled
  walkCount := Nat.le_succ_of_le h.walkCount
  origins q hq hlt := by
    rcases List.mem_append.1 hq with hq | hq
    · exact h.origins q hq hlt
    · obtain rfl := List.mem_singleton.1 hq
      exact absurd h.walkCount (Nat.not_le.2 hlt)
  walks q hq htoken := by
    rcases List.mem_append.1 hq with hq | hq
    · exact h.walks q hq htoken
    · obtain rfl := List.mem_singleton.1 hq
      exact .inr ⟨h.walkCount, hp htoken, rfl, .inl rfl⟩
  errands e he q hq hn htoken := by
    rcases List.mem_append.1 hq with hq | hq
    · exact h.errands e he q hq hn htoken
    · obtain rfl := List.mem_singleton.1 hq
      obtain ⟨p, hp, hn'⟩ := hs.owned e he
      exact absurd (hs.bounded p hp) (by rw [hn', ← hn]; exact Nat.lt_irrefl _)
  loops := h.loops

theorem Halts.startWalk (h : Halts token w₀ w) (hs : w.Sound) {purpose : Purpose}
    (hp : other = token → purpose = .direct) {cs : List Candidate}
    (hd : (Candidate.ids cs).Nodup) :
    Halts token w₀ (w.startWalk other purpose { waiting := cs }).2 :=
  (h.addWalk hs hp cs).tends (hs.startWalk other purpose hd).2

/-- The loops of a number neither wait nor have another token afterwards. -/
theorem Halts.modifyLoop (h : Halts token w₀ w) {f : Loop → Loop}
    (hf : ∀ l, (f l).token = l.token ∧ ∀ m, (f l).state ≠ .waiting m) :
    Halts token w₀ (w.modifyLoop number f) := by
  refine ⟨h.cancelled, h.walkCount, h.origins, h.walks, h.errands, fun l hl htoken m hm => ?_⟩
  obtain ⟨l', hl', rfl⟩ := List.mem_map.1 (show l ∈ w.loops.map _ from hl)
  split_ifs at htoken hm
  · exact absurd hm ((hf l').2 m)
  · exact h.loops l' hl' htoken m hm

theorem Halts.beat (h : Halts token w₀ w) (hs : w.Sound) (l : Loop) :
    Halts token w₀ (w.beat l) := by
  unfold World.beat
  split_ifs with hc
  · exact h.modifyLoop fun _ => ⟨rfl, nofun⟩
  · have hwalks : Halts token w₀ (w.modifyLoop l.number fun l =>
        { l with state := .walking, interval := l.interval.take w.now }) :=
      h.modifyLoop fun _ => ⟨rfl, nofun⟩
    refine hwalks.startWalk (hs.modifyLoop _ fun _ => rfl) (fun ht => ?_) (nodup_ids_ofStore _ _ _)
    exact absurd (ht ▸ h.cancelled) hc

theorem Halts.serve (h : Halts token w₀ w) (number : Nat) : Halts token w₀ (w.serve number) := by
  cases hn : w.sessions[number]? with
  | none => rwa [World.serve, hn]
  | some s =>
    obtain ⟨places, s', hserve, -⟩ := serve_spec hn
    rw [hserve]
    exact ⟨h.cancelled, h.walkCount, h.origins, h.walks, h.errands, h.loops⟩

theorem mem_loops_cancel {l : Loop} {m : Moment} (hl : l ∈ (w.cancel other).loops)
    (hm : l.state = .waiting m) : ∃ l' ∈ w.loops, l'.token = l.token ∧
      (l.token = other ∧ m.due = w.now ∨ l.token ≠ other ∧ l'.state = .waiting m) := by
  obtain ⟨l', hl', he⟩ := List.mem_map.1 (show l ∈ w.loops.map _ from hl)
  refine ⟨l', hl', ?_⟩
  cases hstate : l'.state with
  | waiting m' =>
    simp only [hstate] at he
    split_ifs at he with ht
    · subst he
      cases hm
      exact ⟨rfl, .inl ⟨ht, rfl⟩⟩
    · subst he
      exact ⟨rfl, .inr ⟨ht, hstate ▸ hm⟩⟩
  | walking =>
    simp only [hstate] at he
    rw [← he, hstate] at hm
    cases hm
  | ended =>
    simp only [hstate] at he
    rw [← he, hstate] at hm
    cases hm

theorem Halts.cancel (h : Halts token w₀ w) (other : String) : Halts token w₀ (w.cancel other) where
  cancelled := by
    simp only [isCancelled, World.cancel, List.contains_cons, Bool.or_eq_true]
    exact .inr h.cancelled
  walkCount := h.walkCount
  origins := h.origins
  walks := h.walks
  errands e he q hq hn htoken := by
    obtain ⟨f, hf, rfl⟩ := List.mem_map.1 (show e ∈ w.errands.map _ from he)
    split_ifs at hn ⊢
    · exact Nat.le_refl _
    · exact h.errands f hf q hq hn htoken
  loops l hl htoken m hm := by
    obtain ⟨l', hl', ht, ⟨-, hdue⟩ | ⟨-, hstate⟩⟩ := mem_loops_cancel hl hm
    · exact Nat.le_of_eq hdue
    · exact h.loops l' hl' (ht.trans htoken) m hstate

theorem Halts.next (h : Halts token w₀ w) (hs : w.Sound) (hnext : Next w w') :
    Halts token w₀ w' := by
  cases hnext with
  | @go m ready waits =>
    have h' (turn : Agent) : Halts token w₀ { w with turn } :=
      ⟨h.cancelled, h.walkCount, h.origins, h.walks, h.errands, h.loops⟩
    have hs' (turn : Agent) : ({ w with turn } : World c).Sound := hs.congr rfl rfl rfl rfl
    cases ready with
    | errand e => exact (h' (w.agent (.errand e))).goOn (hs' _) (mem_waiting_errand waits)
    | loop l => exact (h' _).beat (hs' _) l
    | session n => exact (h' _).serve n
    | cancel place token =>
      refine Halts.cancel ?_ token
      exact ⟨h.cancelled, h.walkCount, h.origins, h.walks, h.errands, h.loops⟩
  | serve number => exact h.serve number
  | time turn later =>
    exact ⟨h.cancelled, h.walkCount, h.origins, h.walks,
      fun e he q hq hn ht => Nat.le_trans (h.errands e he q hq hn ht) later,
      fun l hl ht m hm => Nat.le_trans (h.loops l hl ht m hm) later⟩
  | ask token distinct => exact h.startWalk hs (fun _ => rfl) distinct
  | tick active =>
    -- A tick goes by another token.
    refine h.startWalk hs (fun ht => ?_) (nodup_ids_ofStore _ _ _)
    exact absurd (ht ▸ h.cancelled) (by simp [active])
  | spawn other =>
    refine ⟨h.cancelled, h.walkCount, h.origins, h.walks, h.errands, fun l hl htoken m hm => ?_⟩
    rcases List.mem_append.1 (show l ∈ w.loops ++ [_] from hl) with hl | hl
    · exact h.loops l hl htoken m hm
    · obtain rfl := List.mem_singleton.1 hl
      cases hm
      exact Nat.le_refl _
  | cancel other => exact h.cancel other
  | forget found ended =>
    exact ⟨h.cancelled, h.walkCount, fun q hq => h.origins q (List.mem_of_mem_filter hq),
      fun q hq => h.walks q (List.mem_of_mem_filter hq),
      fun e he q hq => h.errands e he q (List.mem_of_mem_filter hq), h.loops⟩
  | other => exact ⟨h.cancelled, h.walkCount, h.origins, h.walks, h.errands, h.loops⟩

theorem Halts.run (h : Halts token w₀ w) (hs : w.Sound)
    (hrun : Relation.ReflTransGen Next w w') : Halts token w₀ w' := by
  induction hrun with
  | refl => exact h
  | tail hrun hnext ih => exact ih.next (hs.run hrun) hnext

/-- Whatever is known from one moment on is known from a later one on. -/
theorem Halts.refl (h : Halts token w₀ w) : Halts token w w :=
  ⟨h.cancelled, Nat.le_refl _, fun q hq _ => ⟨q, hq, rfl, rfl⟩,
    fun q hq _ => .inl ⟨q, hq, rfl, rfl, rfl, .inl rfl⟩, h.errands, h.loops⟩

/-- What becomes of a probe, and of its pass `q`, when its errand goes on as a cancelled one: nothing
is written down and nobody is called, and the pass goes on without the probe, which is not counted. -/
structure Dismissed (w : World c) (e : Errand c.fetch) (q : Walk) (w' : World c) : Prop where
  store : w'.monitor.store = w.monitor.store
  network : w'.network = w.network
  pass : q.pass.candidates = [e.candidate] ∨ ∃ q' ∈ w'.walks, q'.number = q.number ∧
    q'.last = some (.error (.cancelled e.candidate.id)) ∧ q'.pass.report = q.pass.report ∧
    q.pass.candidates.Perm (e.candidate :: q'.pass.candidates)

theorem Halts.dismissed (h : Halts token w₀ w) (hs : w.Sound) (he : e ∈ w.errands)
    (hq : q ∈ w.walks) (hn : q.number = e.owner) (htoken : q.token = token) :
    Dismissed w e q (w.go (.errand e)) := by
  have hs' : ({ w with turn := w.agent (.errand e) } : World c).Sound := hs.congr rfl rfl rfl rfl
  have hgo : w.go (.errand e) = ({ w with turn := w.agent (.errand e) }.takeUp e).conclude e none
      (.error (.cancelled e.candidate.id)) :=
    goOn_cancelled ((walk?_eq_some_iff hs'.toManned).2 ⟨hq, hn⟩) (htoken ▸ h.cancelled)
  obtain ⟨hm, ht⟩ := hs'.writeDown he w.network w.places none
    (.error (.cancelled e.candidate.id))
  obtain ⟨-, htends⟩ := sound_tend hm ht hs.loops
  rw [hgo]
  refine ⟨htends.store, htends.network, ?_⟩
  have hperm := Pass.perm_candidates (mem_running hs.toManned he hq hn)
    (.error (.cancelled e.candidate.id))
  have hmem : ({ q with
      pass := q.pass.finish e.candidate (.error (.cancelled e.candidate.id))
      last := some (.error (.cancelled e.candidate.id)) } : Walk) ∈
      (World.writeDown { { w with turn := w.agent (.errand e) }.takeUp e with
        network := w.network, places := w.places } e none
        (.error (.cancelled e.candidate.id))).walks := by
    rw [walks_writeDown]
    refine List.mem_map.2 ⟨q, hq, if_pos hn⟩
  rcases htends.kept _ hmem with ⟨q', hq', hsame⟩ | ⟨-, hnil⟩
  · obtain ⟨hnumber, -, -, hlast, hreport, hcandidates⟩ := Walk.of_unstarted hsame
    exact .inr ⟨q', hq', hnumber, hlast, hreport, hcandidates ▸ hperm⟩
  · rw [hnil] at hperm
    exact .inl (List.perm_singleton.1 hperm)

/-- A pass under the token for which peers are to be probed counts nothing, and its probes end as
cancelled ones. -/
theorem Halts.asked (h : Halts token w₀ w) (hs : w.Sound) {cs : List Candidate}
    (hd : (Candidate.ids cs).Nodup)
    (hrun : Relation.ReflTransGen Next (w.startWalk token .direct { waiting := cs }).2 w')
    (hq : w'.walk? w.walkCount = some q) :
    q.pass.report = {} ∧ (q.last = none ∨ ∃ id, q.last = some (.error (.cancelled id))) := by
  obtain ⟨hs₁, htends⟩ := hs.startWalk token .direct hd
  have h₁ : Halts token w (w.startWalk token .direct { waiting := cs }).2 :=
    h.refl.startWalk hs (fun _ => rfl) hd
  obtain ⟨hmem, hn⟩ := (walk?_eq_some_iff (hs₁.run hrun).toManned).1 hq
  -- The pass goes by the token, for no older one has its number.
  have htoken : q.token = token := by
    have hlt : q.number < (w.startWalk token .direct { waiting := cs }).2.walkCount := by
      rw [htends.walkCount, hn]
      exact Nat.lt_succ_self _
    obtain ⟨p, hp, hnumber, htoken⟩ := (h₁.refl.run hs₁ hrun).origins q hmem hlt
    obtain ⟨r, hr, hsame⟩ := htends.walks p hp
    obtain ⟨hn', htoken', -⟩ := Walk.of_unstarted hsame
    rcases List.mem_append.1 hr with hr | hr
    · exact absurd (hs.bounded r hr) (by rw [hn', hnumber, hn]; exact Nat.lt_irrefl _)
    · obtain rfl := List.mem_singleton.1 hr
      exact htoken.symm.trans htoken'.symm
  rcases (h₁.run hs₁ hrun).walks q hmem htoken with ⟨p, hp, hnumber, -⟩ | ⟨-, -, hreport, hlast⟩
  · exact absurd (hs.bounded p hp) (by rw [hnumber, hn]; exact Nat.lt_irrefl _)
  · exact ⟨hreport, hlast⟩

/-- What does not happen any more at any time `w` after a token was cancelled at the moment `w₀`. -/
structure Quiet (token : String) (w₀ w : World c) : Prop where
  passes : ∀ q ∈ w.walks, q.token = token → q.Halted w₀
  answers : ∀ number q, (w.finish number).1 = some q → q.token = token → q.Halted w₀
  errands : ∀ e ∈ w.errands, ∃ q ∈ w.walks, q.number = e.owner ∧
    (q.token = token → e.moment.due ≤ w.now ∧ Dismissed w e q (w.go (.errand e)))
  proceeds : ∀ q ∈ w.walks, q.token = token → q.pass.isOver = false →
    ∃ e ∈ w.errands, e.owner = q.number
  loops : ∀ l ∈ w.loops, l.token = token → ∀ m, l.state = .waiting m → m.due ≤ w.now ∧
    w.go (.loop l) = World.modifyLoop { w with turn := .loop l.number } l.number
      fun l => { l with state := .ended }
  starts : ∀ purpose cs, (Candidate.ids cs).Nodup →
    (w.startWalk token purpose { waiting := cs }).2.monitor.store = w.monitor.store ∧
      (w.startWalk token purpose { waiting := cs }).2.network = w.network
  fetch : ∀ address, (w.fetch address token).1 = none ∨
    ∃ id, (w.fetch address token).1 = some (.error (.cancelled id))
  bootstrap : ∀ seeds, (w.bootstrap seeds token).1 = {}
  tick : w.tick token = ({}, w.settle)
  sessions : ∀ (n : Nat) (s : Serving), w.sessions[n]? = some s → s.token = token →
    ∃ s', (w.serve n).sessions[n]? = some s' ∧
      Served.Winds w.monitor (w.serve n).monitor s.served s'.served ∧
      (s.served.session.writing = false → s'.served.ended ≠ none)

theorem Halts.session (h : Halts token w₀ w) {n : Nat} {s : Serving} (hn : w.sessions[n]? = some s)
    (ht : s.token = token) : ∃ s', (w.serve n).sessions[n]? = some s' ∧
      Served.Winds w.monitor (w.serve n).monitor s.served s'.served ∧
      (s.served.session.writing = false → s'.served.ended ≠ none) := by
  obtain ⟨places, s', hserve, hserved, -⟩ := serve_spec hn
  have hc : w.isCancelled s.token = true := ht ▸ h.cancelled
  obtain ⟨hlt, -⟩ := List.getElem?_eq_some_iff.1 hn
  refine ⟨s', by rw [hserve]; exact List.getElem?_set_self hlt, ?_, fun hw => ?_⟩
  · rw [hserve, hserved, hc]
    exact Served.winds_serve _ _ _ _
  · rw [hserved, hc, bound]
    cases he : s.served.ended with
    | some why => rw [Served.serve, if_pos (by simp [he])]; simp [he]
    | none =>
      obtain ⟨k, hk⟩ := Served.serve_between (p := c.session) w.now 999999999 w.monitor he hw
      rw [hk]
      exact nofun

theorem Halts.quiet (h : Halts token w₀ w) (hs : w.Sound) : Quiet token w₀ w where
  passes := h.walks
  answers number q hq ht := by
    obtain ⟨w', hrun, hwalk⟩ := (run_finish w number).2 q hq
    exact (h.run hs hrun).walks q ((walk?_eq_some_iff (hs.run hrun).toManned).1 hwalk).1 ht
  errands e he := by
    obtain ⟨q, hq, hn⟩ := hs.owned e he
    exact ⟨q, hq, hn, fun ht => ⟨h.errands e he q hq hn ht, h.dismissed hs he hq hn ht⟩⟩
  proceeds q hq _ hover := by
    -- It is tended, so one of its probes is running, and that one has an errand.
    have hrunning : q.pass.running ≠ [] := fun hnil => by
      simp [Pass.isOver, hnil, hs.tended q hq hnil] at hover
    obtain ⟨candidate, hc⟩ := List.exists_mem_of_ne_nil _ hrunning
    obtain ⟨e, he, -⟩ := List.mem_map.1 ((hs.errands q hq).symm.subset hc)
    obtain ⟨he, hn⟩ := List.mem_filter.1 he
    exact ⟨e, he, of_decide_eq_true hn⟩
  loops l hl ht m hm := by
    have hc : w.isCancelled l.token = true := ht ▸ h.cancelled
    exact ⟨h.loops l hl ht m hm, if_pos hc⟩
  starts purpose cs hd := by
    obtain ⟨-, htends⟩ := hs.startWalk token purpose hd
    exact ⟨htends.store, htends.network⟩
  fetch address := by
    have hids : (Candidate.ids [⟨address, .advertised⟩]).Nodup := List.nodup_singleton _
    rw [fetch_eq]
    dsimp only
    cases hp : ((w.startWalk token .direct
        { waiting := [⟨address, .advertised⟩] }).2.finish w.walkCount).1 with
    | none => exact .inl rfl
    | some p =>
      obtain ⟨w', hrun, hwalk⟩ := (run_finish _ _).2 p hp
      exact (h.asked hs hids hrun hwalk).2
  bootstrap seeds := by
    rw [World.bootstrap, pass_eq]
    dsimp only
    cases hp : ((w.startWalk token .direct (.ofSeeds c.discovery seeds)).2.finish
        w.walkCount).1 with
    | none => rfl
    | some p =>
      obtain ⟨w', hrun, hwalk⟩ := (run_finish _ _).2 p hp
      exact (h.asked hs (nodup_ids_ofSeeds _ _) hrun hwalk).1
  tick := if_pos h.cancelled
  sessions _ _ hn ht := h.session hn ht

end World
end Rehearsal
end PeerWatch
