import PeerWatch.Net.Meeting
import PeerWatch.Proofs.Handshake

/-! Both parties of a handshake come to an end, and they agree on it. Every step takes the handshake
nearer to its end, whatever the reads are; as long as a party waits there is such a step; and what
has been read on either side is a part of what was written on the other. -/
namespace PeerWatch
open Handshake
variable {p : Parties} {m m' : Meeting} {d : Deed} {ds : List Deed} {reads : List (List UInt8)}
  {r : String} {tail : List Segment}

namespace Meeting

theorem brings_reads (h : [] ∉ reads) (tail : List Segment) :
    Segment.Brings tail reads.flatten (reads.map .bytes ++ tail) := by
  induction reads with
  | nil => exact .nil
  | cons b reads ih =>
    obtain ⟨hb, hreads⟩ := not_or.1 (mt List.mem_cons.2 h)
    exact .bytes (Ne.symm hb) (ih hreads)

theorem settled?_eq_none {α : Type} {r : Except Fault α} :
    settled? r = none ↔ r = .error .stalled := by
  unfold settled?
  split <;> simp_all

theorem settled?_eq_some {α : Type} {r r' : Except Fault α} (h : settled? r = some r') : r = r' := by
  unfold settled? at h
  split at h
  · cases h
  · exact Option.some.inj h

/-- What is true at every time: both streams bring what is written, in order; the listener writes
nothing but its reply unless it has agreed; and the dialer reads after it has written, up to the
end. -/
structure Sound (p : Parties) (m : Meeting) : Prop where
  onward : m.heard.flatten ++ (m.onward ++ m.unsent) = lineBytes p.dialKey ++ lineBytes p.protocol
  heard : [] ∉ m.heard
  back : m.seen.flatten ++ m.back = Utf8.ofString (m.accept p).2 ++ m.said
  said : (m.accept p).1.isOk = false → m.said = []
  closed : m.closed = true → m.listener? p ≠ none
  failed : ∀ e, m.listener? p = some (.error e) → m.closed = true
  seen : m.unsent ≠ [] → m.seen = []
  ended : [] ∈ m.seen → m.closed = true ∧ m.back = [] ∧ ∃ reads, m.seen = reads ++ [[]] ∧ [] ∉ reads

theorem sound_start (p : Parties) : (start p).Sound p where
  onward := ofString_preamble p.dialKey p.protocol
  heard := List.not_mem_nil
  back := rfl
  said _ := rfl
  closed h := by cases h
  failed e h := by cases h
  seen _ := rfl
  ended h := by cases h

theorem dialer?_ne_none (hu : m.unsent = []) (h : [] ∈ m.seen) : m.dialer? p ≠ none := by
  rw [dialer?, if_pos (by simp [hu]), Ne, settled?_eq_none]
  exact fun hd => takeLine_ne_stalled h _ _
    (takeLine_of_readLine_stalled (readLine_of_dial_stalled hd))

/-- As long as the listener waits, nothing is on the way back. -/
theorem Sound.quiet (hs : m.Sound p) (hw : m.listener? p = none) :
    m.back = [] ∧ m.seen.flatten = [] ∧ m.said = [] ∧ m.closed = false := by
  have hst := settled?_eq_none.1 hw
  have hsaid : m.said = [] := hs.said (by rw [hst]; rfl)
  have hback := hs.back
  rw [accept, accept_stalled hst, hsaid] at hback
  obtain ⟨hseen, hback⟩ := List.append_eq_nil_iff.1 hback
  exact ⟨hback, hseen, hsaid, by simpa [hw] using mt hs.closed⟩

theorem isOpen_iff : m.isOpen p = true ↔ (m.accept p).1.isOk = true ∧ m.closed = false := by
  rw [isOpen, Bool.and_eq_true, Bool.not_eq_true']

theorem listener?_of_isOk (h : (m.accept p).1.isOk = true) :
    m.listener? p = some (m.accept p).1 := by
  rw [listener?]
  cases hr : (m.accept p).1 with
  | ok r => rfl
  | error e => simp [hr, Except.isOk, Except.toBool] at h

theorem Sound.hear {n : Nat} (hs : m.Sound p) (hw : m.listener? p = none) (hpos : 0 < n)
    (hlen : n ≤ m.onward.length) :
    (reply p { m with
      heard := m.heard ++ [m.onward.take n], onward := m.onward.drop n }).Sound p := by
  obtain ⟨hback, hseen, hsaid, hclosed⟩ := hs.quiet hw
  have hne : m.onward.take n ≠ [] := by
    rw [← List.length_pos_iff, List.length_take]
    omega
  have honward : (m.heard ++ [m.onward.take n]).flatten ++ (m.onward.drop n ++ m.unsent) =
      lineBytes p.dialKey ++ lineBytes p.protocol := by
    rw [← hs.onward, List.flatten_concat, List.append_assoc, ← List.append_assoc (m.onward.take n),
      List.take_append_drop]
  have hheard : [] ∉ m.heard ++ [m.onward.take n] := by
    simp only [List.mem_append, List.mem_singleton, not_or]
    exact ⟨hs.heard, hne.symm⟩
  have hended (hm : [] ∈ m.seen) : False := by simpa [hclosed] using (hs.ended hm).1
  unfold reply
  split
  · rename_i hw'
    refine ⟨honward, hheard, ?_, fun _ => hsaid, fun hc => ?_, fun e he => ?_, hs.seen,
      fun hm => (hended hm).elim⟩
    · rw [accept, accept_stalled (settled?_eq_none.1 hw')]
      simp [hseen, hback, hsaid, Utf8.ofString, Utf8.encode]
    · simp [hclosed] at hc
    · cases hw'.symm.trans he
  · rename_i r hr
    refine ⟨honward, hheard, ?_, fun _ => hsaid, fun _ hn => ?_, fun e he => ?_, hs.seen,
      fun hm => (hended hm).elim⟩
    · simp only [hseen, hback, hsaid, List.nil_append, List.append_nil]
      rfl
    · cases hr.symm.trans hn
    · obtain rfl := Option.some.inj (hr.symm.trans he)
      rfl

theorem Sound.read {n : Nat} (hs : m.Sound p) (hu : m.unsent = []) (hw : m.dialer? p = none)
    (hn : 0 < n ∧ n ≤ m.back.length ∨ m.back = [] ∧ m.closed = true) :
    ({ m with seen := m.seen ++ [m.back.take n], back := m.back.drop n } : Meeting).Sound p := by
  have hseen : [] ∉ m.seen := fun hm => dialer?_ne_none hu hm hw
  have hback : (m.seen ++ [m.back.take n]).flatten ++ m.back.drop n = m.seen.flatten ++ m.back := by
    rw [List.flatten_concat, List.append_assoc, List.take_append_drop]
  refine { hs with
    back := hback.trans hs.back
    seen := fun hu' => (hu' hu).elim
    ended := fun hm => ?_ }
  have hnil : m.back.take n = [] := by simpa [hseen] using (hm : _ ∈ _ ++ _)
  rcases hn with ⟨hpos, hlen⟩ | ⟨hback, hclosed⟩
  · have := congrArg List.length hnil
    simp only [List.length_take, List.length_nil] at this
    omega
  · exact ⟨hclosed, by simp [hback], m.seen, by simp [hnil], hseen⟩

theorem Sound.step (hs : m.Sound p) (h : m.step? p d = some m') : m'.Sound p := by
  cases d with
  | send n =>
    simp only [step?] at h
    split_ifs at h with hn
    obtain rfl := Option.some.inj h
    refine { hs with
      onward := ?_
      seen := fun hu => hs.seen fun he => hu (by simp [he]) }
    rw [← hs.onward, List.append_assoc m.onward, List.take_append_drop]
  | hear n =>
    simp only [step?] at h
    split_ifs at h with hn
    obtain rfl := Option.some.inj h
    exact hs.hear hn.1 hn.2.1 hn.2.2
  | say bs =>
    simp only [step?] at h
    split_ifs at h with ho
    obtain rfl := Option.some.inj h
    obtain ⟨hok, hclosed⟩ := isOpen_iff.1 ho
    refine { hs with
      back := ?_
      said := fun hn => ?_
      ended := fun hm => ?_ }
    · rw [← List.append_assoc, hs.back, List.append_assoc]
      rfl
    · cases hn.symm.trans hok
    · simpa [hclosed] using (hs.ended hm).1
  | close =>
    simp only [step?] at h
    split_ifs at h with ho
    obtain rfl := Option.some.inj h
    obtain ⟨hok, hclosed⟩ := isOpen_iff.1 ho
    refine { hs with
      closed := fun _ hn => ?_
      failed := fun _ _ => rfl
      ended := fun hm => ?_ }
    · cases hn.symm.trans (listener?_of_isOk hok)
    · simpa [hclosed] using (hs.ended hm).1
  | read n =>
    simp only [step?] at h
    split_ifs at h with hn
    obtain rfl := Option.some.inj h
    exact hs.read hn.1 hn.2.1 hn.2.2

theorem Sound.run (hs : m.Sound p) (h : m.run? p ds = some m') : m'.Sound p := by
  induction ds generalizing m with
  | nil =>
    obtain rfl := Option.some.inj h
    exact hs
  | cons d ds ih =>
    obtain ⟨m₁, hstep, hrun⟩ := Option.bind_eq_some_iff.1 h
    exact ih (hs.step hstep) hrun

/-- How much is to be done at most: every byte is written and read, and a line has 512 bytes. -/
def toDo (p : Parties) (m : Meeting) : Nat :=
  2 * m.unsent.length + m.onward.length +
    if m.dialer? p = none then maxLine - m.seen.flatten.length else 0

theorem toDo_start (p : Parties) :
    (start p).toDo p ≤ 2 * (Utf8.ofString (preamble p.dialKey p.protocol)).length + 512 := by
  have hline : (if (start p).dialer? p = none then maxLine - (start p).seen.flatten.length else 0) ≤
      512 := by
    split_ifs
    · exact Nat.sub_le _ _
    · exact Nat.zero_le _
  exact Nat.add_le_add_left hline _

theorem toDo_reply : (m.reply p).toDo p = m.toDo p := by
  unfold reply
  split <;> rfl

theorem length_seen_lt (hu : m.unsent = []) (h : m.dialer? p = none) :
    m.seen.flatten.length < maxLine := by
  have hseen : [] ∉ m.seen := fun hm => dialer?_ne_none hu hm h
  rw [dialer?, if_pos (by simp [hu]), settled?_eq_none] at h
  exact length_lt_of_stalled (brings_reads hseen [.hang]) (by decide)
    (takeLine_of_readLine_stalled (readLine_of_dial_stalled h))

/-- What is part of the handshake brings it nearer to its end. -/
theorem toDo_step (h : m.step? p d = some m') :
    m'.toDo p + (if d.isHandshake then 1 else 0) ≤ m.toDo p := by
  cases d with
  | send n =>
    simp only [step?] at h
    split_ifs at h with hn
    obtain rfl := Option.some.inj h
    have hw : m.dialer? p = none :=
      if_neg fun he => by simp [List.isEmpty_iff.1 he] at hn; omega
    simp only [toDo, hw, if_true, Deed.isHandshake, List.length_append, List.length_take,
      List.length_drop]
    split_ifs <;> omega
  | hear n =>
    simp only [step?] at h
    split_ifs at h with hn
    obtain rfl := Option.some.inj h
    rw [toDo_reply]
    change 2 * m.unsent.length + (m.onward.drop n).length +
      (if m.dialer? p = none then maxLine - m.seen.flatten.length else 0) + 1 ≤ _
    rw [toDo, List.length_drop]
    omega
  | say bs =>
    simp only [step?] at h
    split_ifs at h
    obtain rfl := Option.some.inj h
    exact Nat.le_refl _
  | close =>
    simp only [step?] at h
    split_ifs at h
    obtain rfl := Option.some.inj h
    exact Nat.le_refl _
  | read n =>
    simp only [step?] at h
    split_ifs at h with hn
    obtain rfl := Option.some.inj h
    obtain ⟨hu, hw, hn⟩ := hn
    have hlt := length_seen_lt hu hw
    simp only [toDo, hw, if_true, Deed.isHandshake, List.flatten_concat, List.length_append,
      List.length_take]
    split_ifs with hw'
    · -- Who waits after a read has not read the end, so the read brought something.
      have hn : 0 < n ∧ n ≤ m.back.length := by
        refine hn.resolve_right fun hback => ?_
        refine dialer?_ne_none ?_ ?_ hw'
        · exact hu
        · simp [hback.1]
      omega
    · omega

theorem toDo_run (h : m.run? p ds = some m') :
    m'.toDo p + ds.countP Deed.isHandshake ≤ m.toDo p := by
  induction ds generalizing m with
  | nil =>
    obtain rfl := Option.some.inj h
    exact Nat.le_refl _
  | cons d ds ih =>
    obtain ⟨m₁, hstep, hrun⟩ := Option.bind_eq_some_iff.1 h
    have hfirst := toDo_step hstep
    have hrest := ih hrun
    rw [List.countP_cons]
    omega

/-- What the listener makes of what it has heard: not enough, another key, or what is agreed upon or
refused. -/
theorem Sound.listener (hs : m.Sound p) (hk : Plain p.dialKey) (hp : Plain p.protocol) :
    m.accept p = (.error .stalled, "") ∧ m.onward ++ m.unsent ≠ [] ∨
    p.dialKey ≠ p.listenKey ∧ m.accept p = (.error .networkMismatch, "") ∨
    p.dialKey = p.listenKey ∧ p.protocol ∈ p.supported ∧
      (∃ left, m.accept p = (.ok (p.protocol, left), s!"{p.protocol}\n")) ∨
    p.dialKey = p.listenKey ∧ p.protocol ∉ p.supported ∧
      m.accept p = (.error (.refused p.protocol), s!"{refusal}\n") := by
  have hb := brings_reads hs.heard [.hang]
  have hpre : m.heard.flatten <+: lineBytes p.dialKey ++ lineBytes p.protocol := ⟨_, hs.onward⟩
  have hmore (h : m.heard.flatten.length < (lineBytes p.dialKey ++ lineBytes p.protocol).length) :
      m.onward ++ m.unsent ≠ [] := fun hnil => by
    have := congrArg List.length hs.onward
    rw [hnil, List.append_nil] at this
    omega
  -- The listener is in the line of the key, in that of the protocol, or at the end of both.
  rcases Nat.lt_or_ge m.heard.flatten.length (lineBytes p.dialKey).length with hlt | hle
  · have hpart := List.prefix_of_prefix_length_le hpre (List.prefix_append _ _) (Nat.le_of_lt hlt)
    exact .inl ⟨accept_key_part hk hb hpart hlt, hmore (by rw [List.length_append]; omega)⟩
  obtain ⟨bs, hbs⟩ := List.prefix_of_prefix_length_le (List.prefix_append _ _) hpre hle
  rw [← hbs] at hb hpre hmore
  by_cases hkey : p.dialKey = p.listenKey
  case neg => exact .inr (.inl ⟨hkey, accept_mismatch hk hkey hb⟩)
  rw [hkey] at hb hk
  have hpart : bs <+: lineBytes p.protocol := (List.prefix_append_right_inj _).1 hpre
  rcases Nat.lt_or_ge bs.length (lineBytes p.protocol).length with hlt | hle
  · refine .inl ⟨accept_protocol_part hk hp hb hpart hlt, hmore ?_⟩
    simp only [List.length_append]
    omega
  obtain rfl := hpart.eq_of_length_le hle
  rw [← List.append_nil (lineBytes p.protocol)] at hb
  by_cases hsup : p.protocol ∈ p.supported
  · obtain ⟨left, hacc, -⟩ := accept_agreed hk hp hsup hb
    exact .inr (.inr (.inl ⟨hkey, hsup, left, hacc⟩))
  · exact .inr (.inr (.inr ⟨hkey, hsup, accept_refused hk hp hsup hb⟩))

/-- When the listener has replied, the reply comes first, and then what it has said. -/
theorem Sound.replied (hs : m.Sound p) (hr : Plain r) (hreply : (m.accept p).2 = s!"{r}\n") :
    (dial p.protocol (soFar m.seen) = .error .stalled ∧ m.back ≠ []) ∨
    ∃ tail rest, Segment.Brings tail (lineBytes r ++ rest) (soFar m.seen) ∧
      Segment.drain tail = [] ∧ rest ++ m.back = m.said := by
  have hback := hs.back
  rw [hreply, ofString_line] at hback
  have hpre : m.seen.flatten <+: lineBytes r ++ m.said := ⟨_, hback⟩
  by_cases hend : [] ∈ m.seen
  · obtain ⟨-, hnil, reads, hseen, hreads⟩ := hs.ended hend
    refine .inr ⟨[.bytes [], .hang], m.said, ?_, rfl, by rw [hnil, List.append_nil]⟩
    have hb := brings_reads hreads [.bytes [], .hang]
    rw [hseen, hnil, List.flatten_concat, List.append_nil, List.append_nil] at hback
    rw [hback] at hb
    simpa [soFar, hseen] using hb
  · have hb := brings_reads hend [.hang]
    rcases Nat.lt_or_ge m.seen.flatten.length (lineBytes r).length with hlt | hle
    · have hpart := List.prefix_of_prefix_length_le hpre (List.prefix_append _ _) (Nat.le_of_lt hlt)
      refine .inl ⟨dial_part hr hb hpart hlt, fun hnil => ?_⟩
      have := congrArg List.length hback
      rw [hnil, List.append_nil, List.length_append] at this
      omega
    · obtain ⟨rest, hrest⟩ := List.prefix_of_prefix_length_le (List.prefix_append _ _) hpre hle
      rw [← hrest] at hb hback
      rw [List.append_assoc] at hback
      exact .inr ⟨[.hang], rest, hb, rfl, List.append_cancel_left hback⟩

/-- When the listener has failed without a reply, the dialer waits for the end or has read it. -/
theorem Sound.unreplied (hs : m.Sound p) (hfail : (m.accept p).1.isOk = false)
    (hreply : (m.accept p).2 = "") :
    m.back = [] ∧ m.seen.flatten = [] ∧
      (dial p.protocol (soFar m.seen) = .error .stalled ∨
        dial p.protocol (soFar m.seen) = .error .closed) := by
  have hback := hs.back
  rw [hreply, hs.said hfail] at hback
  obtain ⟨hseen, hback⟩ := List.append_eq_nil_iff.1 (hback.trans rfl)
  refine ⟨hback, hseen, ?_⟩
  by_cases hend : [] ∈ m.seen
  · obtain ⟨-, -, reads, hreads, hmem⟩ := hs.ended hend
    rw [hreads, List.flatten_concat, List.append_nil] at hseen
    obtain rfl : reads = [] := List.eq_nil_iff_forall_not_mem.2 fun b hb =>
      hmem (List.flatten_eq_nil_iff.1 hseen b hb ▸ hb)
    rw [hreads]
    exact .inr (dial_end p.protocol [.hang])
  · obtain hnil : m.seen = [] := List.eq_nil_iff_forall_not_mem.2 fun b hb =>
      hend (List.flatten_eq_nil_iff.1 hseen b hb ▸ hb)
    exact .inl (by rw [hnil]; rfl)

theorem dialer?_of_unsent (hu : m.unsent = []) :
    m.dialer? p = settled? (dial p.protocol (soFar m.seen)) := by
  rw [dialer?, if_pos (by simp [hu])]

/-- A dialer that has the reply of a listener that agrees need not wait. -/
theorem Sound.back_ne_nil (hs : m.Sound p) (hp : Plain p.protocol) (hu : m.unsent = [])
    (hreply : (m.accept p).2 = s!"{p.protocol}\n") (hw : m.dialer? p = none) : m.back ≠ [] := by
  rcases hs.replied hp hreply with ⟨-, hback⟩ | ⟨tail, rest, hb, -⟩
  · exact hback
  · obtain ⟨left, hdial, -⟩ := dial_agreed hp hb
    rw [dialer?_of_unsent hu, hdial] at hw
    cases hw

/-- As long as a party waits, there is something to do. -/
theorem Sound.proceeds (hs : m.Sound p) (hk : Plain p.dialKey) (hp : Plain p.protocol)
    (hw : m.listener? p = none ∨ m.dialer? p = none) :
    ∃ d, d.isHandshake = true ∧ m.step? p d ≠ none := by
  by_cases hu : m.unsent = []
  case neg =>
    have := List.length_pos_iff.2 hu
    refine ⟨.send 1, rfl, ?_⟩
    rw [step?, if_pos (by omega)]
    exact Option.some_ne_none _
  rcases hl : m.listener? p with _ | l
  · have hst := settled?_eq_none.1 hl
    rcases hs.listener hk hp with ⟨-, hmore⟩ | ⟨-, hacc⟩ | ⟨-, -, left, hacc⟩ | ⟨-, -, hacc⟩
    · rw [hu, List.append_nil] at hmore
      have := List.length_pos_iff.2 hmore
      refine ⟨.hear 1, rfl, ?_⟩
      rw [step?, if_pos ⟨hl, by omega⟩]
      exact Option.some_ne_none _
    all_goals rw [hacc] at hst; cases hst
  · have hw := hw.resolve_left (by simp [hl])
    by_cases hback : m.back = []
    · -- A listener that agrees has its reply under way, and any other one has closed.
      have hclosed : m.closed = true := by
        rcases hs.listener hk hp with ⟨hacc, -⟩ | ⟨-, hacc⟩ | ⟨-, -, left, hacc⟩ | ⟨-, -, hacc⟩
        · rw [listener?, hacc] at hl
          cases hl
        · exact hs.failed _ (by rw [listener?, hacc]; rfl)
        · exact absurd hback (hs.back_ne_nil hp hu (by rw [hacc]) hw)
        · exact hs.failed _ (by rw [listener?, hacc]; rfl)
      refine ⟨.read 0, rfl, ?_⟩
      rw [step?, if_pos ⟨hu, hw, .inr ⟨hback, hclosed⟩⟩]
      exact Option.some_ne_none _
    · have := List.length_pos_iff.2 hback
      refine ⟨.read 1, rfl, ?_⟩
      rw [step?, if_pos ⟨hu, hw, .inl (by omega)⟩]
      exact Option.some_ne_none _

/-- Whatever the reads are, a handshake comes to an end after so many steps, before which there is
always a further one, and both parties come to the same end. If they agree upon a protocol, the
dialer then reads just what the listener says after its reply. A listener that does not serve the
protocol refuses it. A listener of another key writes nothing and takes notice of nothing that comes
after the dialer's key. -/
theorem handshake_agreement (hk : Plain p.dialKey) (hp : Plain p.protocol)
    (hna : p.protocol ≠ refusal) (h : (start p).run? p ds = some m) :
    ds.countP Deed.isHandshake ≤ 2 * (Utf8.ofString (preamble p.dialKey p.protocol)).length + 512 ∧
    (m.listener? p = none ∨ m.dialer? p = none →
      ∃ d, d.isHandshake = true ∧ m.step? p d ≠ none) ∧
    ∀ l r, m.listener? p = some l → m.dialer? p = some r →
      l.isOk = r.isOk ∧
      (p.dialKey = p.listenKey → p.protocol ∈ p.supported →
        (∃ left, l = .ok (p.protocol, left)) ∧
          ∃ rest, r = .ok rest ∧ Segment.drain rest ++ m.back = m.said) ∧
      (p.dialKey = p.listenKey → p.protocol ∉ p.supported →
        l = .error (.refused p.protocol) ∧ r = .error (.refused p.protocol)) ∧
      (p.dialKey ≠ p.listenKey →
        l = .error .networkMismatch ∧ r = .error .closed ∧ m.seen.flatten ++ m.back = [] ∧
          ∀ tail rest script, Segment.Brings tail (lineBytes p.dialKey ++ rest) script →
            Handshake.accept p.listenKey p.supported script = (.error .networkMismatch, "")) := by
  have hs := (sound_start p).run h
  refine ⟨?_, hs.proceeds hk hp, fun l r hl hr => ?_⟩
  · have htoDo := toDo_run h
    have hstart := toDo_start p
    omega
  by_cases hu : m.unsent = []
  case neg =>
    rw [dialer?, if_neg (by simpa using hu)] at hr
    cases hr
  rw [dialer?_of_unsent hu] at hr
  obtain rfl := settled?_eq_some hl
  obtain rfl := settled?_eq_some hr
  rcases hs.listener hk hp with ⟨hacc, -⟩ | ⟨hkey, hacc⟩ | ⟨hkey, hsup, left, hacc⟩ | ⟨hkey, hsup, hacc⟩
  · rw [listener?, hacc] at hl
    cases hl
  · obtain ⟨hback, hseen, hdial⟩ := hs.unreplied (by rw [hacc]; rfl) (by rw [hacc])
    rcases hdial with hdial | hdial
    · rw [hdial] at hr
      cases hr
    · rw [hacc, hdial]
      refine ⟨rfl, fun he => (hkey he).elim, fun he => (hkey he).elim, fun _ => ⟨rfl, rfl, ?_, ?_⟩⟩
      · rw [hseen, hback, List.append_nil]
      · exact fun tail rest script hb => accept_mismatch hk hkey hb
  · rcases hs.replied hp (by rw [hacc]) with ⟨hdial, -⟩ | ⟨tail, rest, hb, htail, hsaid⟩
    · rw [hdial] at hr
      cases hr
    · obtain ⟨after, hdial, hafter⟩ := dial_agreed hp hb
      rw [hacc, hdial]
      refine ⟨rfl, fun _ _ => ⟨⟨left, rfl⟩, after, rfl, ?_⟩, fun _ hn => (hn hsup).elim,
        fun hne => (hne hkey).elim⟩
      rw [hafter.drain, htail, List.append_nil, hsaid]
  · rcases hs.replied plain_refusal (by rw [hacc]) with ⟨hdial, -⟩ | ⟨tail, rest, hb, -⟩
    · rw [hdial] at hr
      cases hr
    · have hdial := dial_refused hna hb
      rw [hacc, hdial]
      exact ⟨rfl, fun _ hmem => (hsup hmem).elim, fun _ _ => ⟨rfl, rfl⟩,
        fun hne => (hne hkey).elim⟩

/-- The preamble comes in three reads, and the end of the reply together with what is said next. -/
theorem handshake_agreement_split :
    let p : Parties := ⟨"ab", "x", "ab", ["y", "x"]⟩
    let ds : List Deed := [.send 2, .hear 1, .send 3, .hear 3, .hear 1, .say [1, 2], .read 1,
      .read 2, .close]
    let m : Meeting := ⟨[], [], [[97], [98, 10, 120], [10]], [2], [[120], [10, 1]], [1, 2], true⟩
    Plain p.dialKey ∧ Plain p.protocol ∧ p.protocol ≠ refusal ∧ (start p).run? p ds = some m ∧
      m.dialer? p = some (.ok [.bytes [1], .hang]) ∧
      (∃ left, m.listener? p = some (.ok ("x", left))) ∧
      Segment.drain [.bytes [1], .hang] ++ m.back = m.said := by
  intro p ds m
  have hk : Plain p.dialKey := ⟨by decide, by decide, by decide⟩
  have hp : Plain p.protocol := ⟨by decide, by decide, by decide⟩
  have hrun : (start p).run? p ds = some m := by decide +kernel
  have hl : m.listener? p = some (.ok ("x", [.hang])) := by rfl
  have hr : m.dialer? p = some (.ok [.bytes [1], .hang]) := by rfl
  obtain ⟨-, -, hend⟩ := handshake_agreement hk hp (by decide) hrun
  obtain ⟨-, hagreed, -, -⟩ := hend _ _ hl hr
  obtain ⟨-, rest, hrest, hsaid⟩ := hagreed rfl (by decide)
  obtain rfl := Except.ok.inj hrest
  exact ⟨hk, hp, by decide, hrun, hr, ⟨_, hl⟩, hsaid⟩

end Meeting
end PeerWatch
