import PeerWatch.Net.Client
import PeerWatch.Proofs.JsonText
import PeerWatch.Proofs.SessionRecords

/-! Records on the wire. A view is read back from its record, and from no beginning of the record
but the one that lacks the newline alone. So whoever reads a stream of records that breaks off
anywhere has the views of the whole records, perhaps one more that was all but complete, and nothing
that nobody sent. -/
namespace PeerWatch
variable {v : View} {p bs rest : List UInt8} {rs : List (Option View)}

theorem PeerId.ofString?_text (id : PeerId) : PeerId.ofString? id.text = some id := by
  rw [PeerId.ofString?, PeerId.ofString, dif_neg id.text_ne, dif_pos id.isIdChar_text]

namespace View

theorem wellFormed_toJson (v : View) : Json.WellFormed v.toJson := by
  refine Json.wellFormed_ofFields ?_
  simp only [List.forall_mem_cons]
  exact ⟨Json.wellFormed_bool _, Json.wellFormed_ofText _, Json.wellFormed_ofText _,
    Json.wellFormed_ofText _, Json.wellFormed_ofText _, Json.wellFormed_ofInt _, by simp⟩

theorem ofJson?_toJson (v : View) : ofJson? v.toJson = some v := by
  have hf : v.toJson.fields? fieldNames = some
      [("connected", .bool v.connected), ("peer_id", .ofText v.peerId.text),
        ("sync_status", .ofText v.syncStatus), ("protocol_state_hash", .ofText v.stateHash),
        ("git_commit", .ofText v.gitCommit), ("uptime_minutes", .ofInt v.uptimeMinutes.toInt)] :=
    Json.fields?_ofFields (List.Sublist.refl fieldNames) (by decide)
  rw [ofJson?, hf]
  simp [Json.required, List.lookup_cons, Json.bool?, Json.text?_ofText, PeerId.ofString?_text,
    Json.int64?_ofInt]

theorem parse?_render (v : View) : Json.parse? v.render = some v.toJson :=
  Json.parse?_render v.wellFormed_toJson

theorem render_eq (v : View) : ∃ bs, v.render = Json.byte '{' :: (bs ++ [Json.byte '}']) :=
  ⟨_, Json.render_object _⟩

/-- Without its last brace the JSON of a view is no JSON. -/
theorem parse?_of_cut (hp : p <+: v.render) (hne : p ≠ v.render) : Json.parse? p = none := by
  cases hparse : Json.parse? p with
  | none => rfl
  | some w =>
    obtain ⟨rest, hrest⟩ := hp
    obtain ⟨bs, hv⟩ := v.render_eq
    -- What is missing has the last brace in it, which is not white space.
    have hlast : rest.getLast? = some (Json.byte '}') := by
      have hne' : rest ≠ [] := by
        rintro rfl
        exact hne (by rw [← hrest, List.append_nil])
      rw [← List.getLast?_append_of_ne_nil p hne', hrest, hv, ← List.cons_append,
        List.getLast?_concat]
    match p with
    | [] => cases hparse
    | b :: p =>
      have hb : b = Json.byte '{' := by
        rw [hv, List.cons_append] at hrest
        exact (List.cons.inj hrest).1
      have hall : Json.parse? (b :: p ++ rest) = some v.toJson := hrest ▸ v.parse?_render
      have hspace := Json.space_of_parse?_append (Or.inl hb) hparse hall _
        (List.mem_of_getLast? hlast)
      cases hspace

theorem ofLine_newline (bs : List UInt8) : ofLine (bs ++ [10]) = ofLine bs := by
  simp [ofLine]

/-- A line of symbols is decoded as it is. -/
theorem ofLine_symbols (hs : ∀ b ∈ p, Base64.IsSymbol b) (hne : p ≠ []) :
    ofLine p = match Base64.decode p with
      | .error f => .error (.base64 f)
      | .ok bs =>
        match (Json.parse? bs).bind ofJson? with
        | some v => .ok (some v)
        | none => .error .json := by
  have hbody : (p.reverse.dropWhile fun b => b = 10 || b = 13).reverse = p := by
    cases hr : p.reverse with
    | nil => exact (List.reverse_eq_nil_iff.1 hr).symm
    | cons b bs =>
      have hb : Base64.IsSymbol b := hs b (List.mem_reverse.1 (hr ▸ List.mem_cons_self))
      rw [List.dropWhile_cons_of_neg, ← hr, List.reverse_reverse]
      simp [hb.ne (by decide : Base64.value? 10 = none), hb.ne (by decide : Base64.value? 13 = none)]
  rw [ofLine]
  simp only [hbody, List.isEmpty_eq_false_iff.2 hne]
  rfl

theorem ofLine_encode (v : View) : ofLine (Base64.encode v.render) = .ok (some v) := by
  rw [ofLine_symbols (fun _ => Base64.isSymbol_of_mem_encode) v.encode_render_ne_nil,
    Base64.decode_encode]
  simp only [v.parse?_render, Option.bind_some, v.ofJson?_toJson]

theorem ofLine_record (v : View) : ofLine v.record = .ok (some v) := by
  rw [record, ofLine_newline, v.ofLine_encode]

/-- Part of a record that lacks more than the newline is an error. -/
theorem ofLine_of_cut (hp : p <+: Base64.encode v.render) (hne : p ≠ Base64.encode v.render)
    (hnil : p ≠ []) : ∃ e, ofLine p = .error e := by
  rw [ofLine_symbols (fun b hb => Base64.isSymbol_of_mem_encode (hp.subset hb)) hnil]
  cases hd : Base64.decode p with
  | error f => exact ⟨_, rfl⟩
  | ok bs =>
    obtain ⟨hbs, hbs'⟩ := Base64.prefix_of_decode hp hne hd
    exact ⟨.json, by simp only [parse?_of_cut hbs hbs', Option.bind_none]⟩

end View

namespace Client

theorem nextLine_newline (h : ∀ b ∈ bs, b ≠ 10) (rest : List UInt8) :
    nextLine (bs ++ 10 :: rest) = some (bs, rest) := by
  have hall : ∀ b ∈ bs, decide (b ≠ 10) = true := fun b hb => decide_eq_true (h b hb)
  rw [nextLine, if_neg (by simp), List.takeWhile_append_of_pos hall,
    List.dropWhile_append_of_pos hall]
  simp

theorem nextLine_last (h : ∀ b ∈ bs, b ≠ 10) (hne : bs ≠ []) : nextLine bs = some (bs, []) := by
  have hall : ∀ b ∈ bs, decide (b ≠ 10) = true := fun b hb => decide_eq_true (h b hb)
  have htake := @List.takeWhile_append_of_pos _ _ bs [] hall
  have hdrop := @List.dropWhile_append_of_pos _ _ bs [] hall
  rw [List.append_nil] at htake hdrop
  rw [nextLine, if_neg (by simpa using hne), htake, hdrop]
  simp

theorem nextView_of_nextLine (h : nextLine bs = some (p, rest)) :
    nextView bs = match View.ofLine p with
      | .ok none => nextView rest
      | r => (r, rest) := by
  rw [nextView]
  split
  · next hn =>
    rw [h] at hn
    cases hn
  · next hn =>
    rw [h] at hn
    cases hn
    rfl

theorem length_lt_of_nextView {r : Except RecordError (Option View)}
    (h : nextView bs = (r, rest)) (hr : r ≠ .ok none) : rest.length < bs.length := by
  fun_induction nextView bs with
  | case1 bs hn =>
    cases h
    exact absurd rfl hr
  | case2 bs line rest' hn ho hlt ih => exact Nat.lt_trans (ih h) hlt
  | case3 bs line rest' hn ho =>
    cases h
    exact length_lt_of_nextLine hn

def readAll (bs : List UInt8) : List (Except RecordError View) :=
  match h : nextView bs with
  | (.ok none, _) => []
  | (.ok (some v), rest) =>
    have := length_lt_of_nextView h (by simp)
    .ok v :: readAll rest
  | (.error e, rest) =>
    have := length_lt_of_nextView h (by simp)
    .error e :: readAll rest
termination_by bs.length

def received : Except RecordError (Option View) → List (Except RecordError View)
  | .ok none => []
  | .ok (some v) => [.ok v]
  | .error e => [.error e]

theorem readAll_of_nextView {r : Except RecordError (Option View)} (h : nextView bs = (r, rest))
    (hr : r ≠ .ok none) : readAll bs = received r ++ readAll rest := by
  rw [readAll]
  split
  · next hn => exact absurd (Prod.mk.inj (h.symm.trans hn)).1 hr
  all_goals
    next hn =>
    obtain ⟨rfl, rfl⟩ := Prod.mk.inj (h.symm.trans hn)
    rfl

theorem readAll_of_end (h : nextView bs = (.ok none, rest)) : readAll bs = [] := by
  rw [readAll]
  split
  · rfl
  all_goals
    next hn => cases h.symm.trans hn

theorem readAll_nil : readAll [] = [] := by
  have h : nextView [] = (.ok none, []) := by
    rw [nextView]
    split
    · rfl
    · next hn => cases hn
  exact readAll_of_end h

theorem readAll_of_nextLine (h : nextLine bs = some (p, rest)) :
    readAll bs = received (View.ofLine p) ++ readAll rest := by
  have hn := nextView_of_nextLine h
  cases ho : View.ofLine p with
  | error e =>
    rw [ho] at hn
    exact readAll_of_nextView hn (by simp)
  | ok v? =>
    rw [ho] at hn
    cases v? with
    | some v => exact readAll_of_nextView hn (by simp)
    | none =>
      -- A keep-alive is passed over: what comes next is what comes next after it.
      cases hrest : nextView rest with
      | mk r rest' =>
        by_cases hr : r = .ok none
        · subst hr
          rw [readAll_of_end (hn.trans hrest), readAll_of_end hrest]
          rfl
        · rw [readAll_of_nextView (hn.trans hrest) hr, readAll_of_nextView hrest hr]
          rfl

theorem readAll_line (r : Option View) (rest : List UInt8) :
    readAll (line r ++ rest) = (r.map .ok).toList ++ readAll rest := by
  cases r with
  | none =>
    have hn : nextLine (line none ++ rest) = some ([], rest) :=
      nextLine_newline (List.forall_mem_nil _) rest
    exact readAll_of_nextLine hn
  | some v =>
    have hn : nextLine (line (some v) ++ rest) = some (Base64.encode v.render, rest) := by
      rw [line, View.record, List.append_assoc]
      exact nextLine_newline (fun b hb => (Base64.isSymbol_of_mem_encode hb).ne rfl) rest
    rw [readAll_of_nextLine hn, v.ofLine_encode]
    rfl

/-- Whole records are read as what they record, whatever follows. -/
theorem readAll_lines (rs : List (Option View)) (rest : List UInt8) :
    readAll (rs.flatMap line ++ rest) = rs.reduceOption.map .ok ++ readAll rest := by
  induction rs with
  | nil => rfl
  | cons r rs ih =>
    rw [List.flatMap_cons, List.append_assoc, readAll_line, ih]
    cases r <;> rfl

theorem readAll_symbols (hs : ∀ b ∈ bs, Base64.IsSymbol b) (hne : bs ≠ []) :
    readAll bs = received (View.ofLine bs) := by
  rw [readAll_of_nextLine (nextLine_last (fun b hb => (hs b hb).ne rfl) hne), readAll_nil,
    List.append_nil]

/-- What is left of a record that was cut short is the view if only the newline is missing, and
an error else. -/
theorem readAll_of_cut (hp : p <+: v.record) (hne : p ≠ v.record) (hnil : p ≠ []) :
    if p ++ [10] = v.record then readAll p = [.ok v] else ∃ e, readAll p = [.error e] := by
  have hp' : p <+: Base64.encode v.render := (List.prefix_concat_iff.1 hp).resolve_left hne
  rw [readAll_symbols (fun b hb => Base64.isSymbol_of_mem_encode (hp'.subset hb)) hnil]
  split
  · next h => rw [List.append_cancel_right h, v.ofLine_encode]; rfl
  · next h =>
    obtain ⟨e, he⟩ := v.ofLine_of_cut hp' (fun h' => h (h' ▸ rfl)) hnil
    exact ⟨e, by rw [he]; rfl⟩

end Client

/-- A stream of lines that breaks off has some whole lines and then perhaps part of the next. -/
theorem exists_of_cut_lines (h : bs <+: rs.flatMap line) :
    ∃ whole rest part, rs = whole ++ rest ∧ bs = whole.flatMap line ++ part ∧
      (part = [] ∨ part ≠ [] ∧ ∃ v, rest.head? = some (some v) ∧ part <+: v.record ∧
        part ≠ v.record) := by
  induction rs generalizing bs with
  | nil => exact ⟨[], [], [], rfl, List.prefix_nil.1 h, Or.inl rfl⟩
  | cons r rs ih =>
    rw [List.flatMap_cons] at h
    by_cases hr : line r <+: bs
    · obtain ⟨bs, rfl⟩ := hr
      obtain ⟨whole, rest, part, rfl, rfl, hpart⟩ := ih ((List.prefix_append_right_inj _).1 h)
      exact ⟨r :: whole, rest, part, rfl, (List.append_assoc ..).symm, hpart⟩
    · have hbs := (List.prefix_or_prefix_of_prefix h (List.prefix_append ..)).resolve_right hr
      refine ⟨[], r :: rs, bs, rfl, rfl, ?_⟩
      by_cases hnil : bs = []
      · exact Or.inl hnil
      · have hne : bs ≠ line r := fun he => hr (he ▸ List.prefix_refl _)
        cases r with
        | some v => exact Or.inr ⟨hnil, v, rfl, hbs, hne⟩
        | none => exact ((List.prefix_cons_iff.1 hbs).elim hnil fun ⟨t, ht, htn⟩ =>
            hne (by rw [ht, List.prefix_nil.1 htn]; rfl)).elim

/-- The record of a view is one line of symbols, and the view is read back from it. Of the beginnings
of the record, only the whole line tells of a view, with its newline or without, and only the empty
one passes for a keep-alive. Whoever reads views and keep-alives from a stream that breaks off
anywhere has the views of the whole records in their order, then the view of one that lacks its
newline alone or an error for one that lacks more, and nothing else. -/
theorem records_read_back :
    (∀ v : View, ∃ text, v.record = text ++ [10] ∧ text ≠ [] ∧
      (∀ b ∈ text, let c := Char.ofNat b.toNat; c.isAlphanum ∨ c = '+' ∨ c = '/') ∧
      View.ofLine v.record = .ok (some v) ∧ View.ofLine [] = .ok none ∧
      View.ofLine text = .ok (some v) ∧
      ∀ p, p <+: v.record → p ≠ [] → p ≠ text → p ≠ v.record → ∃ e, View.ofLine p = .error e) ∧
    ∀ (rs : List (Option View)) (bs : List UInt8), bs <+: rs.flatMap line →
      ∃ whole rest part last, rs = whole ++ rest ∧ bs = whole.flatMap line ++ part ∧
        Client.readAll bs = whole.reduceOption.map .ok ++ last ∧
        (part = [] ∧ last = [] ∨
          part ≠ [] ∧ ∃ v, rest.head? = some (some v) ∧ part <+: v.record ∧ part ≠ v.record ∧
            if part ++ [10] = v.record then last = [.ok v] else ∃ e, last = [.error e]) := by
  refine ⟨fun v => ?_, fun rs bs h => ?_⟩
  · refine ⟨Base64.encode v.render, rfl, v.encode_render_ne_nil,
      fun b hb => Base64.isAlphanum_of_mem_encode hb, v.ofLine_record, rfl, v.ofLine_encode,
      fun p hp hnil htext hne => ?_⟩
    exact v.ofLine_of_cut ((List.prefix_concat_iff.1 hp).resolve_left hne) htext hnil
  · obtain ⟨whole, rest, part, rfl, rfl, hpart⟩ := exists_of_cut_lines h
    refine ⟨whole, rest, part, Client.readAll part, rfl, rfl, Client.readAll_lines whole part, ?_⟩
    rcases hpart with rfl | ⟨hnil, v, hv, hp, hne⟩
    · exact Or.inl ⟨rfl, Client.readAll_nil⟩
    · exact Or.inr ⟨hnil, v, hv, hp, hne, Client.readAll_of_cut hp hne hnil⟩

/-- The stream breaks off in the second of two records with a keep-alive between them. -/
theorem records_read_back_cut :
    let v : View := ⟨true, ⟨"A", by decide, by decide⟩, "SYNCED \"é\"", "", "\\", -1⟩
    let rs := [some v, none, some v]
    let bs := v.record ++ keepAlive ++ v.record.take 9
    (bs <+: rs.flatMap line ∧ ∃ whole rest part last, rs = whole ++ rest ∧
      bs = whole.flatMap line ++ part ∧
      Client.readAll bs = whole.reduceOption.map .ok ++ last ∧
      (part = [] ∧ last = [] ∨
        part ≠ [] ∧ ∃ v, rest.head? = some (some v) ∧ part <+: v.record ∧ part ≠ v.record ∧
          if part ++ [10] = v.record then last = [.ok v] else ∃ e, last = [.error e])) ∧
      v.record.length = 168 ∧ ∃ e, View.ofLine (v.record.take 9) = .error e := by
  intro v rs bs
  have hbs : bs <+: rs.flatMap line := by
    refine ⟨v.record.drop 9, ?_⟩
    simp [bs, rs, line, List.take_append_drop]
  have hlen : v.record.length = 168 := by decide +kernel
  refine ⟨⟨hbs, records_read_back.2 rs bs hbs⟩, hlen, ?_⟩
  obtain ⟨text, htext, -, -, -, -, -, hcut⟩ := records_read_back.1 v
  have hne {p : List UInt8} (hp : p.length ≠ 9) : v.record.take 9 ≠ p := by
    rintro rfl
    exact hp (by rw [List.length_take, hlen]; rfl)
  have hlen' : text.length = 167 := by
    rw [htext, List.length_append] at hlen
    exact Nat.add_right_cancel hlen
  exact hcut _ (List.take_prefix 9 _) (hne (by decide)) (hne (by omega)) (hne (by omega))

end PeerWatch
