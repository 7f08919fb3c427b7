import PeerWatch.Net.Handshake
import PeerWatch.Proofs.Utf8

/-! The lines of a preamble. However the reads split a line, what is taken is the line, and what
follows it is left; until its newline has come nothing is decided. -/
namespace PeerWatch
variable {bs b word rest : List UInt8} {script tail : List Segment} {s : String} {room : Nat}

/-- A script that brings these bytes and then goes on with `tail`. -/
inductive Segment.Brings (tail : List Segment) : List UInt8 → List Segment → Prop
  | nil : Brings tail [] tail
  | wait {bs : List UInt8} {script : List Segment} (ms : Nat) (h : Brings tail bs script) :
      Brings tail bs (.wait ms :: script)
  | bytes {b bs : List UInt8} {script : List Segment} (hb : b ≠ []) (h : Brings tail bs script) :
      Brings tail (b ++ bs) (.bytes b :: script)

namespace Segment

theorem Brings.putBack (h : Brings tail bs script) (b : List UInt8) :
    Brings tail (b ++ bs) (putBack b script) := by
  cases b with
  | nil => exact h
  | cons x b => exact .bytes (List.cons_ne_nil x b) h

theorem Brings.drain (h : Brings tail bs script) : drain script = bs ++ drain tail := by
  induction h with
  | nil => rfl
  | wait ms h ih => exact ih
  | @bytes b bs script hb h ih =>
    obtain ⟨x, b, rfl⟩ := List.exists_cons_of_ne_nil hb
    rw [Segment.drain, ih, List.append_assoc]

end Segment

namespace Handshake

def lineBytes (s : String) : List UInt8 := Utf8.ofString s ++ [10]

/-- A text that can stand on a line: it has no newline, no carriage return at its end, and room for
the newline. -/
structure Plain (s : String) : Prop where
  noNewline : '\n' ∉ s.toList
  noReturn : s.toList.getLast? ≠ some '\r'
  short : (Utf8.ofString s).length ≤ 511

theorem plain_refusal : Plain refusal := ⟨by decide, by decide, by decide⟩

theorem lineBytes_eq (s : String) : lineBytes s = Utf8.encode (s.toList ++ ['\n']) := by
  rw [Utf8.encode_append]
  rfl

theorem ofString_preamble (key protocol : String) :
    Utf8.ofString (preamble key protocol) = lineBytes key ++ lineBytes protocol := by
  simp only [Utf8.ofString, preamble, lineBytes_eq, ← Utf8.encode_append]
  simp [toString]

theorem ofString_line (s : String) : Utf8.ofString s!"{s}\n" = lineBytes s := by
  simp only [Utf8.ofString, lineBytes_eq]
  simp [toString]

theorem takeWhile_append (h : (10 : UInt8) ∉ bs) (rest : List UInt8) :
    (bs ++ rest).takeWhile (· ≠ 10) = bs ++ rest.takeWhile (· ≠ 10) :=
  List.takeWhile_append_of_pos fun _ hx => decide_eq_true fun he => h (he ▸ hx)

theorem takeLine_bytes (hb : b ≠ []) (hn : (10 : UInt8) ∉ b) (hroom : b.length < room) :
    takeLine room (.bytes b :: script) =
      (takeLine (room - b.length) script).map fun r => (b ++ r.1, r.2) := by
  have hword : b.takeWhile (· ≠ 10) = b := by simpa using takeWhile_append hn []
  rw [takeLine, if_neg (by simpa using hb), List.take_of_length_le (Nat.le_of_lt hroom)]
  simp only [hword, Nat.lt_irrefl, if_false, if_neg (Nat.not_le.2 hroom)]
  cases takeLine (room - b.length) script <;> rfl

theorem takeLine_newline (hn : (10 : UInt8) ∉ word) (hroom : word.length < room) :
    takeLine room (.bytes (word ++ 10 :: b) :: script) = .ok (word ++ [10], Segment.putBack b script) := by
  have htake : (word ++ 10 :: b).take room = word ++ 10 :: b.take (room - word.length - 1) := by
    rw [List.take_append, List.take_of_length_le (Nat.le_of_lt hroom),
      show room - word.length = room - word.length - 1 + 1 by omega, List.take_succ_cons]
    rfl
  rw [takeLine, if_neg (by simp), htake]
  simp only [takeWhile_append hn]
  simp

theorem takeLine_of_brings (h : Segment.Brings tail bs script) (hbs : bs = word ++ 10 :: rest)
    (hn : (10 : UInt8) ∉ word) (hroom : word.length < room) :
    ∃ script', takeLine room script = .ok (word ++ [10], script') ∧
      Segment.Brings tail rest script' := by
  induction h generalizing word room with
  | nil => simp at hbs
  | wait ms h ih =>
    rw [takeLine]
    exact ih hbs hn hroom
  | @bytes b bs script hb h ih =>
    -- The newline is in this read or in a later one.
    have hcases : (∃ word', word = b ++ word' ∧ bs = word' ++ 10 :: rest) ∨
        ∃ b', b = word ++ 10 :: b' ∧ rest = b' ++ bs := by
      rcases List.append_eq_append_iff.1 hbs with ⟨word', hw, hbs⟩ | ⟨b', hb', hrest⟩
      · exact .inl ⟨word', hw, hbs⟩
      · cases b' with
        | nil => exact .inl ⟨[], by simpa using hb'.symm, hrest.symm⟩
        | cons x b' =>
          obtain ⟨rfl, rfl⟩ := List.cons_eq_cons.1 hrest
          exact .inr ⟨b', hb', rfl⟩
    rcases hcases with ⟨word', rfl, rfl⟩ | ⟨b', rfl, rfl⟩
    · simp only [List.mem_append, not_or, List.length_append] at hn hroom
      have hrest : word'.length < room - b.length := by omega
      obtain ⟨script', htake, hb'⟩ := ih rfl hn.2 hrest
      refine ⟨script', ?_, hb'⟩
      rw [takeLine_bytes hb hn.1 (by omega), htake]
      simp [Except.map]
    · exact ⟨_, takeLine_newline hn hroom, h.putBack b'⟩

theorem takeLine_of_brings_part (h : Segment.Brings tail bs script) (hn : (10 : UInt8) ∉ bs)
    (hroom : bs.length < room) :
    takeLine room script = (takeLine (room - bs.length) tail).map fun r => (bs ++ r.1, r.2) := by
  induction h generalizing room with
  | nil => cases takeLine room tail <;> simp [Except.map]
  | wait ms h ih =>
    rw [takeLine]
    exact ih hn hroom
  | @bytes b bs script hb h ih =>
    simp only [List.mem_append, not_or, List.length_append] at hn hroom
    rw [takeLine_bytes hb hn.1 (by omega), ih hn.2 (by omega), List.length_append, Nat.sub_sub]
    cases takeLine (room - (b.length + bs.length)) tail <;> simp [Except.map]

theorem lineText_line {l : List Char} (h : l.getLast? ≠ some '\r') :
    lineText (l ++ ['\n']) = some (String.ofList l) := by
  have hrev : l.reverse.head? ≠ some '\r' := by rwa [List.head?_reverse]
  rw [lineText, List.reverse_append]
  cases hl : l.reverse with
  | nil =>
    obtain rfl : l = [] := List.reverse_eq_nil_iff.1 hl
    rfl
  | cons c r =>
    rw [hl] at hrev
    have hc : c ≠ '\r' := by simpa using hrev
    have hl' : l = (c :: r).reverse := by rw [← hl, List.reverse_reverse]
    simp [hc, hl']

theorem readLine_line (hs : Plain s) (h : Segment.Brings tail (lineBytes s ++ rest) script) :
    ∃ script', readLine script = .ok (s, script') ∧ Segment.Brings tail rest script' := by
  have hbytes : lineBytes s ++ rest = Utf8.ofString s ++ 10 :: rest := by simp [lineBytes]
  have hroom : (Utf8.ofString s).length < maxLine := Nat.lt_succ_of_le hs.short
  obtain ⟨script', htake, hrest⟩ :=
    takeLine_of_brings h hbytes (Utf8.not_mem_encode hs.noNewline) hroom
  refine ⟨script', ?_, hrest⟩
  have hdecode : Utf8.decode (Utf8.ofString s ++ [10]) = .ok (s.toList ++ ['\n']) := by
    rw [← Utf8.decode_encode, ← lineBytes_eq, lineBytes]
  simp [readLine, htake, hdecode, lineText_line hs.noReturn, bind, Except.bind, pure, Except.pure]

/-- As long as a line has not come to its end. -/
theorem readLine_part (hs : Plain s) (h : Segment.Brings [.hang] bs script)
    (hp : bs <+: lineBytes s) (hlt : bs.length < (lineBytes s).length) :
    readLine script = .error .stalled := by
  have hshort := hs.short
  have hp' : bs <+: Utf8.ofString s := by
    refine List.prefix_of_prefix_length_le hp (List.prefix_append _ _) ?_
    simp only [lineBytes, List.length_append, List.length_singleton] at hlt
    omega
  have hlen := hp'.length_le
  have hn : (10 : UInt8) ∉ bs := fun hm =>
    Utf8.not_mem_encode hs.noNewline (hp'.subset hm)
  rw [readLine, takeLine_of_brings_part h hn (by simp only [maxLine]; omega)]
  rfl

/-- Whoever waits after a read has been given something, but neither a newline nor all that a line
can hold. -/
theorem takeLine_bytes_stalled (h : takeLine room (.bytes b :: script) = .error .stalled) :
    b ≠ [] ∧ b.length < room ∧ takeLine (room - b.length) script = .error .stalled := by
  rw [takeLine] at h
  split at h
  case isTrue => cases h
  rename_i hb
  dsimp only at h
  split at h
  case isTrue => cases h
  split at h
  case isTrue => cases h
  rename_i hfull
  refine ⟨by simpa using hb, Nat.not_le.1 hfull, ?_⟩
  cases hr : takeLine (room - b.length) script with
  | ok r => simp [hr, bind, Except.bind, pure, Except.pure] at h
  | error e => simpa [hr, bind, Except.bind] using h

/-- A read of nothing is the end, after which nobody waits. -/
theorem takeLine_ne_stalled {reads : List (List UInt8)} (h : [] ∈ reads) (tail : List Segment)
    (room : Nat) : takeLine room (reads.map .bytes ++ tail) ≠ .error .stalled := by
  intro hs
  induction reads generalizing room with
  | nil => cases h
  | cons b reads ih =>
    obtain ⟨hb, -, hs⟩ := takeLine_bytes_stalled hs
    exact ih ((List.mem_cons.1 h).resolve_left hb.symm) _ hs

theorem length_lt_of_stalled (h : Segment.Brings tail bs script) (hroom : 0 < room)
    (hs : takeLine room script = .error .stalled) : bs.length < room := by
  induction h generalizing room with
  | nil => exact hroom
  | wait ms h ih => exact ih hroom (by rwa [takeLine] at hs)
  | @bytes b bs script hb h ih =>
    obtain ⟨-, hlt, hs⟩ := takeLine_bytes_stalled hs
    have hrest := ih (Nat.sub_pos_of_lt hlt) hs
    rw [List.length_append]
    omega

theorem takeLine_of_readLine_stalled (h : readLine script = .error .stalled) :
    takeLine maxLine script = .error .stalled := by
  rw [readLine] at h
  cases hr : takeLine maxLine script with
  | error e => simpa [hr, bind, Except.bind] using h
  | ok r =>
    simp only [hr, bind, Except.bind] at h
    cases hd : Utf8.decode r.1 with
    | error e => simp [hd, throw, throwThe, MonadExceptOf.throw] at h
    | ok chars =>
      cases hl : lineText chars <;>
        simp [hd, hl, throw, throwThe, MonadExceptOf.throw, pure, Except.pure] at h <;>
        split_ifs at h <;> cases h

section
variable {theirs key protocol reply : String} {supported : List String}

/-- A listener that hears another key says nothing and heeds nothing that comes after it. -/
theorem accept_mismatch (hk : Plain theirs) (hne : theirs ≠ key)
    (h : Segment.Brings tail (lineBytes theirs ++ rest) script) :
    accept key supported script = (.error .networkMismatch, "") := by
  obtain ⟨script', hline, -⟩ := readLine_line hk h
  simp [accept, hline, hne]

theorem accept_key_part (hk : Plain theirs) (h : Segment.Brings [.hang] bs script)
    (hp : bs <+: lineBytes theirs) (hlt : bs.length < (lineBytes theirs).length) :
    accept key supported script = (.error .stalled, "") := by
  simp [accept, readLine_part hk h hp hlt]

theorem accept_protocol_part (hk : Plain key) (hp : Plain protocol)
    (h : Segment.Brings [.hang] (lineBytes key ++ bs) script) (hbs : bs <+: lineBytes protocol)
    (hlt : bs.length < (lineBytes protocol).length) :
    accept key supported script = (.error .stalled, "") := by
  obtain ⟨script', hline, h⟩ := readLine_line hk h
  simp [accept, hline, readLine_part hp h hbs hlt]

theorem accept_agreed (hk : Plain key) (hp : Plain protocol) (hs : protocol ∈ supported)
    (h : Segment.Brings tail (lineBytes key ++ (lineBytes protocol ++ rest)) script) :
    ∃ left, accept key supported script = (.ok (protocol, left), s!"{protocol}\n") ∧
      Segment.Brings tail rest left := by
  obtain ⟨script', hkey, h⟩ := readLine_line hk h
  obtain ⟨left, hline, h⟩ := readLine_line hp h
  exact ⟨left, by simp [accept, hkey, hline, hs], h⟩

theorem accept_refused (hk : Plain key) (hp : Plain protocol) (hs : protocol ∉ supported)
    (h : Segment.Brings tail (lineBytes key ++ (lineBytes protocol ++ rest)) script) :
    accept key supported script = (.error (.refused protocol), s!"{refusal}\n") := by
  obtain ⟨script', hkey, h⟩ := readLine_line hk h
  obtain ⟨left, hline, -⟩ := readLine_line hp h
  simp [accept, hkey, hline, hs]

/-- Who waits says nothing. -/
theorem accept_stalled (h : (accept key supported script).1 = .error .stalled) :
    (accept key supported script).2 = "" := by
  rw [accept] at h ⊢
  split
  · rfl
  · rename_i theirs script hfirst
    simp only [hfirst] at h
    split_ifs at h ⊢ with hkey
    · rfl
    · cases hline : readLine script with
      | error e => rfl
      | ok r =>
        simp only [hline] at h
        split_ifs at h
        cases h

theorem dial_agreed (hp : Plain protocol)
    (h : Segment.Brings tail (lineBytes protocol ++ rest) script) :
    ∃ left, dial protocol script = .ok left ∧ Segment.Brings tail rest left := by
  obtain ⟨left, hline, h⟩ := readLine_line hp h
  exact ⟨left, by simp [dial, hline, bind, Except.bind, pure, Except.pure], h⟩

theorem dial_refused (hna : protocol ≠ refusal)
    (h : Segment.Brings tail (lineBytes refusal ++ rest) script) :
    dial protocol script = .error (.refused protocol) := by
  obtain ⟨left, hline, -⟩ := readLine_line plain_refusal h
  simp [dial, hline, hna.symm, bind, Except.bind, throw, throwThe, MonadExceptOf.throw]

theorem dial_part (hr : Plain reply) (h : Segment.Brings [.hang] bs script)
    (hp : bs <+: lineBytes reply) (hlt : bs.length < (lineBytes reply).length) :
    dial protocol script = .error .stalled := by
  simp [dial, readLine_part hr h hp hlt, bind, Except.bind]

/-- The stream has ended where the reply was to begin. -/
theorem dial_end (protocol : String) (script : List Segment) :
    dial protocol (.bytes [] :: script) = .error .closed := rfl

theorem readLine_of_dial_stalled (h : dial protocol script = .error .stalled) :
    readLine script = .error .stalled := by
  rw [dial] at h
  cases hr : readLine script with
  | error e => simpa [hr, bind, Except.bind] using h
  | ok r =>
    simp only [hr, bind, Except.bind, throw, throwThe, MonadExceptOf.throw, pure, Except.pure] at h
    split_ifs at h <;> cases h

end

end Handshake
end PeerWatch
