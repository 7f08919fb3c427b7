import PeerWatch.Proofs.Base64
import PeerWatch.Proofs.Cut
import PeerWatch.Status.View

/-! Which lines are records. A line of line ends alone keeps a connection alive. Any other is, without
the line ends behind it, the Base64 text of some bytes or an error; the text has one spelling, and the
bytes are read as the JSON of a view. -/
namespace PeerWatch
variable {c : Char} {s : List Char} {bs : List UInt8} {b : UInt8} {line : String}

def isLineEnd (c : Char) : Bool := c = '\n' || c = '\r'

namespace Utf8

def endsLine (b : UInt8) : Bool := b = 10 || b = 13

/-- The last byte of a character is that of a line end only if the character is one. -/
theorem encodeChar_ends (c : Char) : ∃ init b, encodeChar c = init ++ [b] ∧
    endsLine b = isLineEnd c ∧ (c.toNat < 0x80 → init = []) := by
  by_cases hc : c.toNat < 0x80
  · have hbyte (d : Char) (hd : d.toNat < 0x80) : c.toNat.toUInt8 = d.toNat.toUInt8 ↔ c = d := by
      rw [← UInt8.toNat_inj, toNat_toUInt8 (by omega), toNat_toUInt8 (by omega), Char.toNat_inj]
    have hten : c.toNat.toUInt8 = 10 ↔ c = '\n' := hbyte '\n' (by decide)
    have hthirteen : c.toNat.toUInt8 = 13 ↔ c = '\r' := hbyte '\r' (by decide)
    exact ⟨[], _, encodeChar_of_lt hc, by simp [endsLine, isLineEnd, hten, hthirteen], fun _ => rfl⟩
  · obtain hnil | ⟨init, b, hconcat⟩ := List.eq_nil_or_concat (encodeChar c)
    · exact (encodeChar_ne_nil c hnil).elim
    · rw [List.concat_eq_append] at hconcat
      have hb : 0x80 ≤ b.toNat := le_of_mem_encodeChar (Nat.not_lt.1 hc) (by simp [hconcat])
      have hbyte (d : UInt8) (hd : d.toNat < 0x80) : b ≠ d := by
        rintro rfl
        omega
      have hchar (d : Char) (hd : d.toNat < 0x80) : c ≠ d := by
        rintro rfl
        omega
      refine ⟨init, b, hconcat, ?_, fun h => (hc h).elim⟩
      simp [endsLine, isLineEnd, hbyte 10 (by decide), hbyte 13 (by decide),
        hchar '\n' (by decide), hchar '\r' (by decide)]

/-- Line ends are taken off a text as they are off its bytes. -/
theorem rdropWhile_encode (s : List Char) :
    (encode s).rdropWhile endsLine = encode (Text.dropEndWhile isLineEnd s) := by
  induction s using List.reverseRecOn with
  | nil => rfl
  | append_singleton s c ih =>
    obtain ⟨init, b, hb, hends, hinit⟩ := encodeChar_ends c
    cases he : isLineEnd c with
    | true =>
      have hlt : c.toNat < 0x80 := by
        obtain rfl | rfl : c = '\n' ∨ c = '\r' := by simpa [isLineEnd] using he
        all_goals decide
      rw [hinit hlt, List.nil_append] at hb
      rw [Text.dropEndWhile_append (by simpa using he), ← ih, encode_concat, hb,
        List.rdropWhile_concat_pos _ _ _ (hends.trans he)]
    | false =>
      rw [Text.dropEndWhile_of_last (by simpa using he), encode_concat, hb, ← List.append_assoc,
        List.rdropWhile_concat_neg _ _ _ (by simp [hends, he])]

theorem toNat_lt_of_symbol (h : c.isAlphanum ∨ c = '+' ∨ c = '/') : c.toNat < 0x80 := by
  obtain h | rfl | rfl := h
  · have hval : c.toNat = c.val.toNat := rfl
    unfold Char.isAlphanum Char.isAlpha Char.isUpper Char.isLower Char.isDigit at h
    simp only [Bool.or_eq_true, Bool.and_eq_true, decide_eq_true_eq, ge_iff_le,
      UInt32.le_iff_toNat_le] at h
    simp at h
    omega
  · decide
  · decide

/-- The bytes of a text are symbols if and only if its characters are. -/
theorem isSymbol_encode_iff : (∀ b ∈ encode s, Base64.IsSymbol b) ↔
    ∀ c ∈ s, c.isAlphanum ∨ c = '+' ∨ c = '/' := by
  have hchar (c : Char) : (∀ b ∈ encodeChar c, Base64.IsSymbol b) ↔
      (c.isAlphanum ∨ c = '+' ∨ c = '/') := by
    by_cases hc : c.toNat < 0x80
    · rw [encodeChar_of_lt hc]
      simp only [List.mem_singleton, forall_eq, Base64.isSymbol_iff]
      rw [toNat_toUInt8 (by omega), Char.ofNat_toNat]
    · constructor
      · intro h
        obtain ⟨b, hb⟩ := List.exists_mem_of_ne_nil _ (encodeChar_ne_nil c)
        have hge := le_of_mem_encodeChar (Nat.not_lt.1 hc) hb
        have hlt := (h b hb).lt
        omega
      · exact fun h => (hc (toNat_lt_of_symbol h)).elim
  constructor
  · intro h c hc
    exact (hchar c).1 fun b hb => h b (List.mem_flatMap.2 ⟨c, hc, hb⟩)
  · intro h b hb
    obtain ⟨c, hc, hb⟩ := List.mem_flatMap.1 hb
    exact (hchar c).2 (h c hc) b hb

theorem length_encode (h : ∀ c ∈ s, c.toNat < 0x80) : (encode s).length = s.length := by
  induction s with
  | nil => rfl
  | cons c s ih =>
    have hc : encode (c :: s) = encodeChar c ++ encode s := rfl
    rw [hc, encodeChar_of_lt (h c (List.mem_cons_self ..)), List.singleton_append,
      List.length_cons, List.length_cons, ih fun d hd => h d (List.mem_cons_of_mem _ hd)]

/-- The texts that stand for bytes. -/
theorem exists_encode_iff : (∃ bs, encode s = Base64.encode bs) ↔
    (∀ c ∈ s, c.isAlphanum ∨ c = '+' ∨ c = '/') ∧ s.length % 4 ≠ 1 ∧
      Base64.spareBits ((encode s).filterMap Base64.value?) = 0 := by
  rw [Base64.exists_encode_iff, isSymbol_encode_iff]
  refine and_congr_right fun h => ?_
  rw [length_encode fun c hc => toNat_lt_of_symbol (h c hc)]

end Utf8

namespace View

def body (line : String) : List Char := Text.dropEndWhile isLineEnd line.toList

theorem body_append (line : String) : ∃ ends, line.toList = body line ++ ends ∧
    ∀ c ∈ ends, c = '\n' ∨ c = '\r' := by
  refine ⟨line.toList.rtakeWhile isLineEnd, (List.rdropWhile_append_rtakeWhile ..).symm, ?_⟩
  intro c hc
  simpa [isLineEnd] using List.mem_rtakeWhile_imp hc

theorem getLast?_body (line : String) :
    ∀ c ∈ (body line).getLast?, c ≠ '\n' ∧ c ≠ '\r' := by
  intro c hc
  rw [body, Text.dropEndWhile, List.getLast?_reverse] at hc
  simpa [isLineEnd] using Text.head?_dropWhile isLineEnd _ c hc

theorem body_eq_nil_iff : body line = [] ↔ ∀ c ∈ line.toList, c = '\n' ∨ c = '\r' := by
  rw [body, Text.dropEndWhile, ← List.rdropWhile, List.rdropWhile_eq_nil_iff]
  simp [isLineEnd]

def ofBytes (bs : List UInt8) : Except RecordError (Option View) :=
  match (Json.parse? bs).bind ofJson? with
  | some v => .ok (some v)
  | none => .error .json

theorem ofBytes_ne_none (bs : List UInt8) : ofBytes bs ≠ .ok none := by
  unfold ofBytes
  split
  · exact fun h => nomatch h
  · exact fun h => nomatch h

theorem ofBytes_ne_base64 (bs : List UInt8) (f : Base64.Fault) :
    ofBytes bs ≠ .error (.base64 f) := by
  unfold ofBytes
  split
  · exact fun h => nomatch h
  · exact fun h => nomatch h

theorem ofLine_ofString (line : String) : ofLine (Utf8.ofString line) =
    if (Utf8.encode (body line)).isEmpty then .ok none
    else match Base64.decode (Utf8.encode (body line)) with
      | .error f => .error (.base64 f)
      | .ok bs => ofBytes bs := by
  rw [body, ← Utf8.rdropWhile_encode]
  rfl

theorem ofLine_of_nil (h : body line = []) : ofLine (Utf8.ofString line) = .ok none := by
  rw [ofLine_ofString, h]
  rfl

theorem ofLine_of_encode (hne : body line ≠ []) (h : Utf8.encode (body line) = Base64.encode bs) :
    ofLine (Utf8.ofString line) = ofBytes bs := by
  rw [ofLine_ofString, if_neg (by simpa [Utf8.encode_eq_nil_iff] using hne), h,
    Base64.decode_encode]

theorem ofLine_of_foreign (h : ¬ ∃ bs, Utf8.encode (body line) = Base64.encode bs) :
    ∃ f, ofLine (Utf8.ofString line) = .error (.base64 f) := by
  have hne : body line ≠ [] := by
    intro hnil
    exact h ⟨[], by rw [hnil]; rfl⟩
  cases hd : Base64.decode (Utf8.encode (body line)) with
  | ok bs => exact (h ⟨bs, Base64.decode_eq_ok_iff.1 hd⟩).elim
  | error f =>
    refine ⟨f, ?_⟩
    rw [ofLine_ofString, if_neg (by simpa [Utf8.encode_eq_nil_iff] using hne), hd]

/-- How a line is read as a record: by what stands before the line ends at its end. -/
structure StrictlyRead (line : String) : Prop where
  ends : ∃ ends, line.toList = body line ++ ends ∧ ∀ c ∈ ends, c = '\n' ∨ c = '\r'
  last : ∀ c ∈ (body line).getLast?, c ≠ '\n' ∧ c ≠ '\r'
  keepAlive : ofLine (Utf8.ofString line) = .ok none ↔ ∀ c ∈ line.toList, c = '\n' ∨ c = '\r'
  foreign : (∃ f, ofLine (Utf8.ofString line) = .error (.base64 f)) ↔
    ¬ ∃ bs, Utf8.encode (body line) = Base64.encode bs
  spelled : (∃ bs, Utf8.encode (body line) = Base64.encode bs) ↔
    (∀ c ∈ body line, c.isAlphanum ∨ c = '+' ∨ c = '/') ∧ (body line).length % 4 ≠ 1 ∧
      Base64.spareBits ((Utf8.encode (body line)).filterMap Base64.value?) = 0
  reads : ∀ bs, body line ≠ [] → Utf8.encode (body line) = Base64.encode bs →
    ofLine (Utf8.ofString line) = match (Json.parse? bs).bind ofJson? with
      | some v => .ok (some v)
      | none => .error .json
  canonical : ∀ other bs, Base64.decode (Utf8.encode (body line)) = .ok bs →
    Base64.decode (Utf8.encode (body other)) = .ok bs → body line = body other

theorem strictly_read (line : String) : StrictlyRead line where
  ends := body_append line
  last := getLast?_body line
  keepAlive := by
    rw [← body_eq_nil_iff]
    refine ⟨fun h => ?_, ofLine_of_nil⟩
    by_contra hne
    by_cases hs : ∃ bs, Utf8.encode (body line) = Base64.encode bs
    · obtain ⟨bs, hbs⟩ := hs
      exact ofBytes_ne_none bs (ofLine_of_encode hne hbs ▸ h)
    · obtain ⟨f, hf⟩ := ofLine_of_foreign hs
      rw [hf] at h
      cases h
  foreign := by
    refine ⟨?_, ofLine_of_foreign⟩
    rintro ⟨f, hf⟩ ⟨bs, hbs⟩
    by_cases hne : body line = []
    · rw [ofLine_of_nil hne] at hf
      cases hf
    · exact ofBytes_ne_base64 bs f (ofLine_of_encode hne hbs ▸ hf)
  spelled := Utf8.exists_encode_iff
  reads bs hne hbs := ofLine_of_encode hne hbs
  canonical other bs h h' := by
    rw [Base64.decode_eq_ok_iff] at h h'
    exact Utf8.encode_inj.1 (h.trans h'.symm)

example : ofLine (Utf8.ofString "e30=\r\n") = .error (.base64 .padding) := by decide

end View
end PeerWatch
