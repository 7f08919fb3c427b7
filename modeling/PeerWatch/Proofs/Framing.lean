import PeerWatch.Proofs.Handshake

/-! What comes of a handshake is told by the bytes that a party reads, and not by how the reads split
them. A grammar of lines says which lines are accepted and where what follows them begins. -/
namespace PeerWatch
variable {bs line word after b : List UInt8} {script script' tail : List Segment} {s : String}
  {room : Nat}

theorem Segment.Brings.drain_eq (h : Brings [] bs script) : Segment.drain script = bs := by
  have hnil : Segment.drain [] = [] := rfl
  rw [h.drain, hnil, List.append_nil]

theorem map_eq_ok_iff {ε α β : Type} {x : Except ε α} {f : α → β} {b : β} :
    x.map f = .ok b ↔ ∃ a, x = .ok a ∧ f a = b := by
  cases x <;> simp [Except.map]

namespace Handshake
open Segment (Brings)

def dropReturn (l : List Char) : List Char := if l.getLast? = some '\r' then l.dropLast else l

/-- Do the bytes begin with a line of this text? It is encoded text up to a newline, with at most 512
bytes in all; `rest` follows it. -/
inductive IsLine : List UInt8 → String → List UInt8 → Prop
  | intro {l : List Char} (rest : List UInt8) (noNewline : '\n' ∉ l)
    (short : (Utf8.encode l).length < maxLine) :
    IsLine (Utf8.encode l ++ 10 :: rest) (String.ofList (dropReturn l)) rest

/-- What is taken of bytes for a line: it ends with a newline, with the bytes, or with the room. -/
inductive FirstLine (room : Nat) : List UInt8 → List UInt8 → List UInt8 → Prop
  | whole {word : List UInt8} (rest : List UInt8) (noNewline : 10 ∉ word)
    (fits : word.length < room) : FirstLine room (word ++ 10 :: rest) (word ++ [10]) rest
  | ended {bs : List UInt8} (noNewline : 10 ∉ bs) (fits : bs.length < room) :
    FirstLine room bs bs []
  | full {line : List UInt8} (rest : List UInt8) (noNewline : 10 ∉ line)
    (length_eq : line.length = room) : FirstLine room (line ++ rest) line rest

theorem exists_firstLine (room : Nat) (bs : List UInt8) :
    ∃ line after, FirstLine room bs line after := by
  by_cases hn : 10 ∈ bs.take room
  · obtain ⟨word, rest, htake, hword⟩ := List.eq_append_cons_of_mem hn
    have hlen : word.length < room := by
      have h := congrArg List.length htake
      simp only [List.length_take, List.length_append, List.length_cons] at h
      omega
    have hbs : bs = word ++ 10 :: (rest ++ bs.drop room) := by
      rw [← List.cons_append, ← List.append_assoc, ← htake, List.take_append_drop]
    rw [hbs]
    exact ⟨_, _, .whole _ hword hlen⟩
  · by_cases hlen : bs.length < room
    · rw [List.take_of_length_le (Nat.le_of_lt hlen)] at hn
      exact ⟨_, _, .ended hn hlen⟩
    · rw [← List.take_append_drop room bs]
      exact ⟨_, _, .full _ hn (List.length_take_of_le (Nat.not_lt.1 hlen))⟩

theorem takeLine_full (hpos : 0 < line.length) (hn : 10 ∉ line) :
    takeLine line.length (.bytes (line ++ b) :: script) = .ok (line, Segment.putBack b script) := by
  have hne : line ≠ [] := List.ne_nil_of_length_pos hpos
  have hword : line.takeWhile (· ≠ 10) = line := by simpa using takeWhile_append hn []
  rw [takeLine, if_neg (by simp [hne]), List.take_left' rfl, List.drop_left' rfl]
  simp only [hword, Nat.lt_irrefl, if_false]
  rw [if_pos (by simp)]

/-- Without a newline the line ends where the room does. -/
theorem takeLine_of_brings_full (h : Brings tail bs script) (hbs : bs = line ++ after)
    (hpos : 0 < line.length) (hn : 10 ∉ line) :
    ∃ rest, takeLine line.length script = .ok (line, rest) ∧ Brings tail after rest := by
  induction h generalizing line with
  | nil =>
    obtain ⟨rfl, -⟩ := List.append_eq_nil_iff.1 hbs.symm
    cases hpos
  | wait ms h ih =>
    rw [takeLine]
    exact ih hbs hpos hn
  | @bytes b bs script hb h ih =>
    by_cases hlen : b.length < line.length
    · -- The read ends before the room does.
      obtain ⟨line, rfl⟩ : ∃ l, line = b ++ l := by
        have hp := List.prefix_of_prefix_length_le ⟨_, rfl⟩ ⟨_, hbs.symm⟩ (Nat.le_of_lt hlen)
        exact hp.imp fun _ => Eq.symm
      rw [List.append_assoc, List.append_cancel_left_eq] at hbs
      rw [List.mem_append, not_or] at hn
      rw [List.length_append] at hlen
      obtain ⟨rest, htake, hrest⟩ := ih hbs (by omega) hn.2
      refine ⟨rest, ?_, hrest⟩
      rw [takeLine_bytes hb hn.1 (by rw [List.length_append]; omega), List.length_append,
        Nat.add_sub_cancel_left, htake]
      rfl
    · obtain ⟨b, rfl⟩ : ∃ b', b = line ++ b' := by
        have hp := List.prefix_of_prefix_length_le ⟨_, hbs.symm⟩ ⟨_, rfl⟩ (Nat.not_lt.1 hlen)
        exact hp.imp fun _ => Eq.symm
      rw [List.append_assoc, List.append_cancel_left_eq] at hbs
      exact ⟨_, takeLine_full hpos hn, hbs ▸ h.putBack b⟩

/-- The line that is taken depends on the bytes alone. -/
theorem takeLine_of_firstLine (hl : FirstLine room bs line after) (hpos : 0 < room)
    (h : Brings [] bs script) :
    ∃ rest, takeLine room script = .ok (line, rest) ∧ Brings [] after rest := by
  cases hl with
  | whole rest hn fits => exact takeLine_of_brings h rfl hn fits
  | ended hn fits =>
    refine ⟨[], ?_, .nil⟩
    rw [takeLine_of_brings_part h hn fits, takeLine]
    simp [Except.map]
  | full rest hn hlen =>
    subst hlen
    exact takeLine_of_brings_full h rfl hpos hn

def said (line : List UInt8) : Except Fault String :=
  match Utf8.decode line with
  | .error fault => .error (.io fault.message)
  | .ok chars =>
    if chars.isEmpty then .error .closed
    else match lineText chars with
      | none => .error .badLine
      | some text => .ok text

theorem readLine_eq {rest : List Segment} (h : takeLine maxLine script = .ok (line, rest)) :
    readLine script = (said line).map fun s => (s, rest) := by
  rw [readLine, h, said]
  simp only [bind, Except.bind]
  cases Utf8.decode line with
  | error fault => rfl
  | ok chars =>
    dsimp only
    split_ifs
    · rfl
    · cases lineText chars <;> rfl

theorem lineText_concat (l : List Char) :
    lineText (l ++ ['\n']) = some (String.ofList (dropReturn l)) := by
  by_cases h : l.getLast? = some '\r'
  · obtain ⟨l, rfl⟩ := List.getLast?_eq_some_iff.1 h
    rw [dropReturn, if_pos h, List.dropLast_concat, lineText, List.reverse_append,
      List.reverse_append]
    simp
  · rw [dropReturn, if_neg h, lineText_line h]

theorem exists_of_lineText {chars : List Char} (h : lineText chars = some s) :
    ∃ l, chars = l ++ ['\n'] := by
  unfold lineText at h
  split at h
  · next r hr => exact ⟨r.reverse ++ ['\r'], by simpa using congrArg List.reverse hr⟩
  · next r _ hr => exact ⟨r.reverse, by simpa using congrArg List.reverse hr⟩
  · cases h

/-- A line says something if it is encoded text up to a newline, and only then. -/
theorem said_eq_ok_iff : said line = .ok s ↔
    ∃ l, line = Utf8.encode l ++ [10] ∧ s = String.ofList (dropReturn l) := by
  have hline (l : List Char) : Utf8.encode l ++ [10] = Utf8.encode (l ++ ['\n']) :=
    (Utf8.encode_append l ['\n']).symm
  constructor
  · intro h
    unfold said at h
    split at h
    · cases h
    · next chars hchars =>
      split_ifs at h
      split at h
      · cases h
      · next text htext =>
        cases h
        obtain ⟨l, rfl⟩ := exists_of_lineText htext
        rw [lineText_concat, Option.some_inj] at htext
        exact ⟨l, by rw [hline, Utf8.decode_eq_ok_iff.1 hchars], htext.symm⟩
  · rintro ⟨l, rfl, rfl⟩
    rw [said, hline, Utf8.decode_encode]
    simp [lineText_concat]

theorem newline_mem_encode {l : List Char} (h : '\n' ∈ l) : 10 ∈ Utf8.encode l :=
  List.mem_flatMap.2 ⟨'\n', h, List.mem_singleton_self _⟩

/-- The line is what is taken of the bytes, if that says something, and no other. -/
theorem isLine_iff {rest : List UInt8} (hl : FirstLine maxLine bs line after) :
    IsLine bs s rest ↔ said line = .ok s ∧ rest = after := by
  rw [said_eq_ok_iff]
  constructor
  · rintro @⟨l, rest, hn, hshort⟩
    have hn' := Utf8.not_mem_encode hn
    generalize hbs : Utf8.encode l ++ 10 :: rest = bs at hl
    cases hl with
    | @whole word rest' hword fits =>
      have htake := congrArg (List.takeWhile (· ≠ 10)) hbs
      rw [takeWhile_append hn', takeWhile_append hword] at htake
      simp only [ne_eq, not_true, decide_false, Bool.false_eq_true, not_false_eq_true,
        List.takeWhile_cons_of_neg, List.append_nil] at htake
      subst htake
      rw [List.append_cancel_left_eq, List.cons_inj_right] at hbs
      exact ⟨⟨_, rfl, rfl⟩, hbs⟩
    | ended hnot fits => exact absurd (hbs ▸ by simp) hnot
    | full after hnot hlen =>
      -- The newline would be among the first 512 bytes.
      have hp : Utf8.encode l ++ [10] <+: line := by
        have hnewline : Utf8.encode l ++ [10] <+: line ++ after := ⟨rest, by simpa using hbs⟩
        refine List.prefix_of_prefix_length_le hnewline ⟨_, rfl⟩ ?_
        · rw [hlen, List.length_append]
          exact hshort
      exact absurd (hp.subset (by simp)) hnot
  · rintro ⟨⟨l, hline, rfl⟩, rfl⟩
    cases hl with
    | whole rest hword fits =>
      obtain rfl := List.append_cancel_right hline
      exact .intro _ (fun h => hword (newline_mem_encode h)) fits
    | ended hnot fits => exact absurd (hline ▸ by simp) hnot
    | full rest hnot hlen => exact absurd (hline ▸ by simp) hnot

def afterLine (script : List Segment) : List Segment :=
  match takeLine maxLine script with
  | .ok (_, rest) => rest
  | .error _ => []

def unread (key : String) (script : List Segment) : List Segment :=
  match readLine script with
  | .ok (theirs, rest) => if theirs = key then afterLine rest else rest
  | .error _ => afterLine script

theorem readLine_of_firstLine (hl : FirstLine maxLine bs line after) (h : Brings [] bs script) :
    readLine script = (said line).map (fun s => (s, afterLine script)) ∧
      Brings [] after (afterLine script) := by
  obtain ⟨rest, htake, hrest⟩ := takeLine_of_firstLine hl (by decide) h
  have hafter : afterLine script = rest := by rw [afterLine, htake]
  rw [hafter]
  exact ⟨readLine_eq htake, hrest⟩

section
variable {key protocol : String} {supported : List String} {line₁ line₂ mid : List UInt8}

def judge (protocol reply : String) : Except Fault Unit :=
  if reply = protocol then .ok ()
  else if reply = refusal then .error (.refused protocol)
  else .error (.unexpectedReply reply)

theorem dial_of_firstLine (hl : FirstLine maxLine bs line after) (h : Brings [] bs script) :
    dial protocol script =
      ((said line).bind (judge protocol)).map fun _ => afterLine script := by
  rw [dial, (readLine_of_firstLine hl h).1]
  cases said line with
  | error fault => rfl
  | ok reply =>
    simp only [Except.map, bind, Except.bind, judge]
    split_ifs <;> rfl

/-- What a listener makes of two lines: the protocol that is agreed on, and the reply. -/
def answer (key : String) (supported : List String) (line₁ line₂ : List UInt8) :
    Except Fault String × String :=
  match said line₁ with
  | .error fault => (.error fault, "")
  | .ok theirs =>
    if theirs ≠ key then (.error .networkMismatch, "")
    else match said line₂ with
      | .error fault => (.error fault, "")
      | .ok protocol =>
        if supported.contains protocol then (.ok protocol, s!"{protocol}\n")
        else (.error (.refused protocol), s!"{refusal}\n")

theorem accept_of_firstLine (hl₁ : FirstLine maxLine bs line₁ mid)
    (hl₂ : FirstLine maxLine mid line₂ after) (h : Brings [] bs script) :
    accept key supported script =
      ((answer key supported line₁ line₂).1.map (fun p => (p, afterLine (afterLine script))),
        (answer key supported line₁ line₂).2) := by
  obtain ⟨hread, hmid⟩ := readLine_of_firstLine hl₁ h
  rw [accept, answer, hread]
  cases said line₁ with
  | error fault => rfl
  | ok theirs =>
    simp only [Except.map]
    by_cases hkey : theirs = key
    · have hsame : ¬ theirs ≠ key := fun hne => hne hkey
      rw [if_neg hsame, if_neg hsame, (readLine_of_firstLine hl₂ hmid).1]
      cases said line₂ with
      | error fault => rfl
      | ok protocol =>
        simp only [Except.map]
        split_ifs <;> rfl
    · rw [if_pos hkey, if_pos hkey]

def left (key : String) (line₁ mid after : List UInt8) : List UInt8 :=
  match said line₁ with
  | .error _ => mid
  | .ok theirs => if theirs = key then after else mid

theorem brings_unread (hl₁ : FirstLine maxLine bs line₁ mid)
    (hl₂ : FirstLine maxLine mid line₂ after) (h : Brings [] bs script) :
    Brings [] (left key line₁ mid after) (unread key script) := by
  obtain ⟨hread, hmid⟩ := readLine_of_firstLine hl₁ h
  rw [unread, left, hread]
  cases said line₁ with
  | error fault => exact hmid
  | ok theirs =>
    simp only [Except.map]
    split_ifs
    · exact (readLine_of_firstLine hl₂ hmid).2
    · exact hmid

theorem isLine_iff_drained {rest : List UInt8} (hl : FirstLine maxLine bs line after)
    (h : Brings [] bs script) :
    (readLine script).map (Prod.map id Segment.drain) = .ok (s, rest) ↔ IsLine bs s rest := by
  obtain ⟨hread, hafter⟩ := readLine_of_firstLine hl h
  rw [isLine_iff hl, hread]
  cases said line with
  | error fault => simp [Except.map]
  | ok text => simp [Except.map, hafter.drain_eq, eq_comm]

theorem dial_drained (hl : FirstLine maxLine bs line after) (h : Brings [] bs script) :
    (dial protocol script).map Segment.drain =
      ((said line).bind (judge protocol)).map fun _ => after := by
  rw [dial_of_firstLine hl h, ← (readLine_of_firstLine hl h).2.drain_eq]
  cases (said line).bind (judge protocol) <;> rfl

theorem accept_drained (hl₁ : FirstLine maxLine bs line₁ mid)
    (hl₂ : FirstLine maxLine mid line₂ after) (h : Brings [] bs script) :
    (accept key supported script).1.map (Prod.map id Segment.drain) =
      (answer key supported line₁ line₂).1.map fun p => (p, after) := by
  have hmid := (readLine_of_firstLine hl₁ h).2
  rw [accept_of_firstLine hl₁ hl₂ h, ← (readLine_of_firstLine hl₂ hmid).2.drain_eq]
  cases (answer key supported line₁ line₂).1 <;> rfl

theorem judge_eq_ok_iff :
    (said line).bind (judge protocol) = .ok () ↔ said line = .ok protocol := by
  cases said line with
  | error fault => simp [Except.bind]
  | ok reply =>
    simp only [Except.bind, judge, Except.ok.injEq]
    split_ifs <;> simp_all

theorem answer_eq_ok_iff {p : String} : (answer key supported line₁ line₂).1 = .ok p ↔
    p ∈ supported ∧ said line₁ = .ok key ∧ said line₂ = .ok p := by
  rw [answer]
  cases said line₁ with
  | error fault => simp
  | ok theirs =>
    by_cases hkey : theirs = key
    · cases said line₂ with
      | error fault => simp [hkey]
      | ok protocol =>
        by_cases hp : protocol ∈ supported
        · simp only [hkey, hp, ne_eq, not_true_eq_false, if_false, List.contains_eq_mem,
            decide_true, if_true, Except.ok.injEq, true_and]
          exact ⟨fun h => ⟨h ▸ hp, h⟩, And.right⟩
        · simp only [hkey, hp, ne_eq, not_true_eq_false, if_false, List.contains_eq_mem,
            decide_false, Bool.false_eq_true, reduceCtorEq, Except.ok.injEq, true_and, false_iff]
          rintro ⟨hp', rfl⟩
          exact hp hp'
    · simp [hkey]

/-- A listener that replies has heard its own key and a protocol. -/
theorem answer_silent_or (key : String) (supported : List String) (line₁ line₂ : List UInt8) :
    (answer key supported line₁ line₂).2 = "" ∨
      ∃ p, said line₁ = .ok key ∧ said line₂ = .ok p ∧
        (answer key supported line₁ line₂).2 = s!"{if p ∈ supported then p else refusal}\n" := by
  rw [answer]
  cases said line₁ with
  | error fault => exact Or.inl rfl
  | ok theirs =>
    by_cases hkey : theirs = key
    · cases said line₂ with
      | error fault => simp [hkey]
      | ok protocol =>
        refine Or.inr ⟨protocol, by rw [hkey], rfl, ?_⟩
        by_cases hp : protocol ∈ supported <;> simp [hkey, hp]
    · simp [hkey]

theorem IsLine.notMem (h : IsLine bs s after) : '\n' ∉ s.toList := by
  cases h with
  | @intro l rest hn hshort =>
    rw [String.toList_ofList, dropReturn]
    split_ifs
    · exact fun hm => hn (l.dropLast_subset hm)
    · exact hn

/-- Is it the same whether a party reads the one script or the other? -/
structure Agree (key protocol : String) (supported : List String) (script script' : List Segment) :
    Prop where
  dialed : (dial protocol script).map Segment.drain = (dial protocol script').map Segment.drain
  accepted : (accept key supported script).1.map (Prod.map id Segment.drain) =
    (accept key supported script').1.map (Prod.map id Segment.drain)
  replied : (accept key supported script).2 = (accept key supported script').2
  left : ∃ left, Brings [] left (unread key script) ∧ Brings [] left (unread key script')

/-- Is what comes of a handshake over the script what these bytes tell? -/
structure Tells (key protocol : String) (supported : List String) (bs : List UInt8)
    (script : List Segment) : Prop where
  line : ∀ s after, (readLine script).map (Prod.map id Segment.drain) = .ok (s, after) ↔
    IsLine bs s after
  dialed : ∀ after, (dial protocol script).map Segment.drain = .ok after ↔ IsLine bs protocol after
  accepted : ∀ p after,
    (accept key supported script).1.map (Prod.map id Segment.drain) = .ok (p, after) ↔
      p ∈ supported ∧ ∃ mid, IsLine bs key mid ∧ IsLine mid p after
  dialed_rest : ∀ rest, dial protocol script = .ok rest → Brings [] (Segment.drain rest) rest
  accepted_rest : ∀ p rest, (accept key supported script).1 = .ok (p, rest) →
    rest = unread key script ∧ Brings [] (Segment.drain rest) rest
  replied : (accept key supported script).2 = "" ∨
    ∃ mid p after, IsLine bs key mid ∧ IsLine mid p after ∧ '\n' ∉ p.toList ∧
      (accept key supported script).2 = s!"{if p ∈ supported then p else refusal}\n"

theorem agree (h : Brings [] bs script) (h' : Brings [] bs script') :
    Agree key protocol supported script script' := by
  obtain ⟨line₁, mid, hl₁⟩ := exists_firstLine maxLine bs
  obtain ⟨line₂, after, hl₂⟩ := exists_firstLine maxLine mid
  refine ⟨?_, ?_, ?_, ?_⟩
  · rw [dial_drained hl₁ h, dial_drained hl₁ h']
  · rw [accept_drained hl₁ hl₂ h, accept_drained hl₁ hl₂ h']
  · rw [accept_of_firstLine hl₁ hl₂ h, accept_of_firstLine hl₁ hl₂ h']
  · exact ⟨_, brings_unread hl₁ hl₂ h, brings_unread hl₁ hl₂ h'⟩

theorem tells (h : Brings [] bs script) : Tells key protocol supported bs script := by
  obtain ⟨line₁, mid, hl₁⟩ := exists_firstLine maxLine bs
  obtain ⟨line₂, after, hl₂⟩ := exists_firstLine maxLine mid
  obtain ⟨hread, hmid⟩ := readLine_of_firstLine hl₁ h
  have hafter := (readLine_of_firstLine hl₂ hmid).2
  constructor
  case line => exact fun s after => isLine_iff_drained hl₁ h
  case dialed =>
    intro rest
    rw [dial_drained hl₁ h, isLine_iff hl₁, ← judge_eq_ok_iff, map_eq_ok_iff]
    constructor
    · rintro ⟨⟨⟩, hjudge, rfl⟩
      exact ⟨hjudge, rfl⟩
    · rintro ⟨hjudge, rfl⟩
      exact ⟨(), hjudge, rfl⟩
  case accepted =>
    intro p rest
    rw [accept_drained hl₁ hl₂ h, map_eq_ok_iff]
    simp only [answer_eq_ok_iff, isLine_iff hl₁, Prod.mk.injEq]
    constructor
    · rintro ⟨p, ⟨hp, hkey, hline⟩, rfl, rfl⟩
      exact ⟨hp, mid, ⟨hkey, rfl⟩, (isLine_iff hl₂).2 ⟨hline, rfl⟩⟩
    · rintro ⟨hp, _, ⟨hkey, rfl⟩, hline⟩
      obtain ⟨hline, rfl⟩ := (isLine_iff hl₂).1 hline
      exact ⟨p, ⟨hp, hkey, hline⟩, rfl, rfl⟩
  case dialed_rest =>
    intro rest hdial
    rw [dial_of_firstLine hl₁ h, map_eq_ok_iff] at hdial
    obtain ⟨-, -, rfl⟩ := hdial
    rwa [hmid.drain_eq]
  case accepted_rest =>
    intro p rest haccept
    rw [accept_of_firstLine hl₁ hl₂ h, map_eq_ok_iff] at haccept
    obtain ⟨_, hanswer, he⟩ := haccept
    obtain ⟨rfl, rfl⟩ := Prod.mk.inj he
    obtain ⟨-, hkey, -⟩ := answer_eq_ok_iff.1 hanswer
    refine ⟨?_, by rwa [hafter.drain_eq]⟩
    rw [unread, hread, hkey]
    exact (if_pos rfl).symm
  case replied =>
    rw [accept_of_firstLine hl₁ hl₂ h]
    rcases answer_silent_or key supported line₁ line₂ with hsilent | ⟨p, hkey, hp, hreply⟩
    · exact Or.inl hsilent
    · have hline : IsLine mid p after := (isLine_iff hl₂).2 ⟨hp, rfl⟩
      exact Or.inr ⟨mid, p, after, (isLine_iff hl₁).2 ⟨hkey, rfl⟩, hline, hline.notMem, hreply⟩

/-- Two parties that read the same bytes up to their end, split in any two ways, come to the same: the
same result or fault, the same reply, the same bytes left. It is what the bytes tell. A line is accepted
if a newline is among its first 512 bytes and encoded text before it; one carriage return before the
newline is taken off, and no more. Who succeeds leaves all that follows the last line that was read.
A listener replies with one line or nothing, and with nothing unless the first line is its key. The
dialer has sent its two lines before it reads anything. -/
theorem handshake_of_bytes (h : Brings [] bs script) (h' : Brings [] bs script')
    (key protocol : String) (supported : List String) :
    Agree key protocol supported script script' ∧ Tells key protocol supported bs script ∧
      Utf8.ofString (preamble key protocol) = lineBytes key ++ lineBytes protocol :=
  ⟨agree h h', tells h, ofString_preamble key protocol⟩

end

/-- One read holds all, or a line is split before its newline and inside a character. One of two
carriage returns stays. -/
theorem handshake_of_bytes_split :
    let bs : List UInt8 := [107, 13, 10, 195, 169, 13, 13, 10, 33, 34]
    let script : List Segment :=
      [.bytes [107, 13], .wait 5, .bytes [10, 195], .bytes [169, 13, 13, 10, 33], .bytes [34]]
    let supported := ["p", "é\r"]
    (Brings [] bs script ∧ Brings [] bs [.bytes bs] ∧
      Agree "k" "p" supported script [.bytes bs] ∧ Tells "k" "p" supported bs script ∧
      Utf8.ofString (preamble "k" "p") = lineBytes "k" ++ lineBytes "p") ∧
      accept "k" supported script = (.ok ("é\r", [.bytes [33], .bytes [34]]), "é\r\n") := by
  intro bs script supported
  have h : Brings [] bs script :=
    .bytes (b := [107, 13]) (by decide) <| .wait 5 <| .bytes (b := [10, 195]) (by decide) <|
      .bytes (b := [169, 13, 13, 10, 33]) (by decide) <| .bytes (b := [34]) (by decide) .nil
  have h' : Brings [] bs [.bytes bs] := .bytes (b := bs) (by decide) .nil
  exact ⟨⟨h, h', handshake_of_bytes h h' "k" "p" supported⟩, rfl⟩

end Handshake
end PeerWatch
