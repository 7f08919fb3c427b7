import Mathlib.Data.List.Perm.Basic
import PeerWatch.Proofs.Entries
import PeerWatch.Proofs.JsonText

/-! Records in JSON, and what can be done to the object of one unnoticed. Its members may change
their order, members of other names may come in, and a member that has its default may go or become
`null`. -/
namespace PeerWatch.Json
variable {names : List String} {ms ms' ms₁ ms₂ : List (List UInt8 × Json)}
  {ns fs fs' defaults : List (String × Json)} {key : List UInt8} {v w : Json} {name : String}

theorem named?_cons (key : List UInt8) (v : Json) (ms : List (List UInt8 × Json)) :
    named? ((key, v) :: ms) = (textOf? key).bind fun name => (named? ms).map ((name, v) :: ·) := by
  rw [named?, List.mapM_cons, ← named?]
  dsimp only
  cases textOf? key <;> cases named? ms <;> rfl

/-- The members have names, each that of its key. -/
theorem named?_eq_some_iff : named? ms = some ns ↔
    List.Forall₂ (fun m n => textOf? m.1 = some n.1 ∧ n.2 = m.2) ms ns := by
  induction ms generalizing ns with
  | nil => simp [named?, eq_comm]
  | cons m ms ih =>
    obtain ⟨key, v⟩ := m
    rw [named?_cons, Option.bind_eq_some_iff, List.forall₂_cons_left_iff]
    constructor
    · rintro ⟨name, hname, h⟩
      obtain ⟨ns, hns, rfl⟩ := Option.map_eq_some_iff.1 h
      exact ⟨(name, v), ns, ⟨hname, rfl⟩, ih.1 hns, rfl⟩
    · rintro ⟨⟨name, w⟩, ns, ⟨hname, rfl⟩, hns, rfl⟩
      exact ⟨name, hname, Option.map_eq_some_iff.2 ⟨ns, ih.2 hns, rfl⟩⟩

/-- The fields of an object are its members of known names, none of which is there twice. -/
theorem fields?_eq_some_iff : fields? names (.object ms) = some fs ↔
    ∃ ns, named? ms = some ns ∧ fs = (ns.filter fun m => names.contains m.1) ∧
      (keys fs).Nodup := by
  rw [fields?, Option.bind_eq_bind, Option.bind_eq_some_iff]
  refine exists_congr fun ns => and_congr_right fun _ => ?_
  dsimp only
  constructor
  · intro h
    split_ifs at h with hnodup
    cases h
    exact ⟨rfl, hnodup⟩
  · rintro ⟨rfl, hnodup⟩
    exact if_pos hnodup

theorem nodup_of_fields? (h : fields? names (.object ms) = some fs) : (keys fs).Nodup := by
  obtain ⟨-, -, -, hnodup⟩ := fields?_eq_some_iff.1 h
  exact hnodup

theorem fields?_perm (h : ms.Perm ms') (hfs : fields? names (.object ms) = some fs) :
    ∃ fs', fields? names (.object ms') = some fs' ∧ fs.Perm fs' := by
  obtain ⟨ns, hns, rfl, hnodup⟩ := fields?_eq_some_iff.1 hfs
  obtain ⟨ns', hns', hperm⟩ := List.perm_comp_forall₂ h.symm (named?_eq_some_iff.1 hns)
  have hfilter := hperm.symm.filter fun m => names.contains m.1
  exact ⟨_, fields?_eq_some_iff.2 ⟨ns', named?_eq_some_iff.2 hns', rfl,
    (hfilter.map _).nodup_iff.1 hnodup⟩, hfilter⟩

/-- A member of another name is passed over. -/
theorem fields?_cons_unknown (hkey : textOf? key = some name) (hname : name ∉ names) :
    fields? names (.object ((key, v) :: ms)) = fields? names (.object ms) := by
  refine Option.ext fun fs => ?_
  rw [fields?_eq_some_iff, fields?_eq_some_iff, named?_cons, hkey, Option.bind_some]
  have hfilter (ns : List (String × Json)) :
      (((name, v) :: ns).filter fun m => names.contains m.1) =
        ns.filter fun m => names.contains m.1 :=
    List.filter_cons_of_neg (by simpa using hname)
  simp only [Option.map_eq_some_iff, exists_exists_and_eq_and, hfilter]

theorem fields?_cons_known (hkey : textOf? key = some name) (hname : name ∈ names) :
    fields? names (.object ((key, v) :: ms)) = some fs ↔
      ∃ fs', fields? names (.object ms) = some fs' ∧ name ∉ keys fs' ∧
        fs = (name, v) :: fs' := by
  rw [fields?_eq_some_iff, named?_cons, hkey, Option.bind_some]
  have hfilter (ns : List (String × Json)) :
      (((name, v) :: ns).filter fun m => names.contains m.1) =
        (name, v) :: ns.filter fun m => names.contains m.1 :=
    List.filter_cons_of_pos (by simpa using hname)
  simp only [Option.map_eq_some_iff, exists_exists_and_eq_and, hfilter, fields?_eq_some_iff]
  constructor
  · rintro ⟨ns, hns, rfl, hnodup⟩
    obtain ⟨hnot, hnodup⟩ := List.nodup_cons.1 hnodup
    exact ⟨_, ⟨ns, hns, rfl, hnodup⟩, hnot, rfl⟩
  · rintro ⟨_, ⟨ns, hns, rfl, hnodup⟩, hnot, rfl⟩
    exact ⟨ns, hns, rfl, List.nodup_cons.2 ⟨hnot, hnodup⟩⟩

theorem lookup_perm (h : fs.Perm fs') (hnodup : (keys fs).Nodup) (name : String) :
    fs.lookup name = fs'.lookup name := by
  refine Option.ext fun v => ?_
  have hnodup' : (keys fs').Nodup := (h.map _).nodup_iff.1 hnodup
  rw [lookup_eq_some_iff hnodup, lookup_eq_some_iff hnodup', h.mem_iff]

theorem lookup_eq_none (h : name ∉ keys fs) : fs.lookup name = none := by
  rw [List.lookup_eq_none_iff]
  intro f hf
  rw [bne_iff_ne]
  rintro rfl
  exact h (List.mem_map_of_mem hf)

/-- What fields say under a name. Where they have nothing or `null`, that is the default. -/
def said (defaults fs : List (String × Json)) (name : String) : Option Json :=
  match fs.lookup name with
  | none | some .null => defaults.lookup name
  | some v => some v

/-- A tolerant reader reads what is said. -/
theorem lenient_eq_said {α : Type} {read : Json → Option α} {default : α}
    (hdefault : defaults.lookup name = some w) (hread : read w = some default) :
    lenient read default name fs = (said defaults fs name).bind read := by
  rw [lenient, defaulting, said]
  cases fs.lookup name with
  | none =>
    rw [hdefault]
    exact hread.symm
  | some v =>
    cases v with
    | null =>
      rw [hdefault]
      exact hread.symm
    | _ => simp [nullable]

theorem lenient_text_eq_said (h : defaults.lookup name = some (.ofText "")) :
    lenient text? "" name fs = (said defaults fs name).bind text? :=
  lenient_eq_said h (text?_ofText _)

theorem lenient_int64_eq_said (h : defaults.lookup name = some (.ofInt 0)) :
    lenient int64? 0 name fs = (said defaults fs name).bind int64? :=
  lenient_eq_said h (int64?_ofInt 0)

theorem said_perm (defaults : List (String × Json)) (h : fs.Perm fs')
    (hnodup : (keys fs).Nodup) : said defaults fs' = said defaults fs := by
  funext name
  rw [said, said, lookup_perm h hnodup]

theorem said_cons_of_ne {other : String} (h : other ≠ name) :
    said defaults ((name, v) :: fs) other = said defaults fs other := by
  rw [said, said, lookup_cons_ne h]

theorem said_cons_self (hv : v ≠ .null) : said defaults ((name, v) :: fs) name = some v := by
  rw [said, List.lookup_cons_self]
  cases v with
  | null => exact absurd rfl hv
  | _ => rfl

/-- A default that is given says as much as one that is not, and so does `null`. -/
theorem said_cons_idle (hdefaults : (keys defaults).Nodup)
    (hv : v = .null ∨ (name, v) ∈ defaults) (hname : name ∉ keys fs) :
    said defaults ((name, v) :: fs) = said defaults fs := by
  funext other
  by_cases hother : other = name
  · have hnone : said defaults fs name = defaults.lookup name := by
      rw [said, lookup_eq_none hname]
    rw [hother, hnone]
    by_cases hnull : v = .null
    · rw [hnull, said, List.lookup_cons_self]
    · rw [said_cons_self hnull, (lookup_eq_some_iff hdefaults).2 (hv.resolve_left hnull)]
  · exact said_cons_of_ne hother

/-- One change to the members of an object that a record with these defaults does not notice. They
give the names of its fields, too. -/
inductive RecordEdit (defaults : List (String × Json)) :
    List (List UInt8 × Json) → List (List UInt8 × Json) → Prop
  | permute {ms ms' : List (List UInt8 × Json)} (perm : ms.Perm ms') : RecordEdit defaults ms ms'
  | insert {name : String} {key : List UInt8} (ms₁ ms₂ : List (List UInt8 × Json)) (v : Json)
    (quotes : Quotes name.toList key) (unknown : name ∉ keys defaults) :
    RecordEdit defaults (ms₁ ++ ms₂) (ms₁ ++ (key, v) :: ms₂)
  | remove {name : String} {key : List UInt8} {v : Json} (ms₁ ms₂ : List (List UInt8 × Json))
    (quotes : Quotes name.toList key) (idle : (name, v) ∈ defaults) :
    RecordEdit defaults (ms₁ ++ (key, v) :: ms₂) (ms₁ ++ ms₂)
  | nullify {name : String} {key : List UInt8} {v : Json} (ms₁ ms₂ : List (List UInt8 × Json))
    (quotes : Quotes name.toList key) (idle : (name, v) ∈ defaults) :
    RecordEdit defaults (ms₁ ++ (key, v) :: ms₂) (ms₁ ++ (key, .null) :: ms₂)

/-- A field and the others, wherever it stands among the members. -/
theorem fields?_middle (hkey : textOf? key = some name) (hname : name ∈ names)
    (h : fields? names (.object (ms₁ ++ (key, v) :: ms₂)) = some fs) :
    ∃ fs', fields? names (.object (ms₁ ++ ms₂)) = some fs' ∧ name ∉ keys fs' ∧
      fs.Perm ((name, v) :: fs') := by
  obtain ⟨_, hfs, hperm⟩ := fields?_perm List.perm_middle h
  obtain ⟨fs', hfs', hnot, rfl⟩ := (fields?_cons_known hkey hname).1 hfs
  exact ⟨fs', hfs', hnot, hperm⟩

theorem fields?_of_middle (hkey : textOf? key = some name) (hname : name ∈ names)
    (hfs : fields? names (.object (ms₁ ++ ms₂)) = some fs) (hnot : name ∉ keys fs)
    (defaults : List (String × Json)) (v : Json) :
    ∃ fs', fields? names (.object (ms₁ ++ (key, v) :: ms₂)) = some fs' ∧
      said defaults fs' = said defaults ((name, v) :: fs) := by
  have hcons := (fields?_cons_known (v := v) hkey hname).2 ⟨fs, hfs, hnot, rfl⟩
  obtain ⟨fs', hfs', hperm⟩ := fields?_perm List.perm_middle.symm hcons
  exact ⟨fs', hfs', said_perm defaults hperm (nodup_of_fields? hcons)⟩

theorem textOf?_of_quotes (h : Quotes name.toList key) : textOf? key = some name := by
  rw [h.textOf?, String.ofList_toList]

/-- An edit leaves the object one of a record, and what its fields say. -/
theorem RecordEdit.said_eq (h : RecordEdit defaults ms ms')
    (hdefaults : (keys defaults).Nodup)
    (hfs : fields? (keys defaults) (.object ms) = some fs) :
    ∃ fs', fields? (keys defaults) (.object ms') = some fs' ∧
      said defaults fs' = said defaults fs := by
  cases h with
  | permute perm =>
    obtain ⟨fs', hfs', hperm⟩ := fields?_perm perm hfs
    exact ⟨fs', hfs', said_perm defaults hperm (nodup_of_fields? hfs)⟩
  | insert ms₁ ms₂ v quotes unknown =>
    have hcons := (fields?_cons_unknown (v := v) (textOf?_of_quotes quotes) unknown).trans hfs
    obtain ⟨fs', hfs', hperm⟩ := fields?_perm List.perm_middle.symm hcons
    exact ⟨fs', hfs', said_perm defaults hperm (nodup_of_fields? hcons)⟩
  | @remove name key v ms₁ ms₂ quotes idle =>
    have hname : name ∈ keys defaults := List.mem_map_of_mem idle
    obtain ⟨fs', hfs', hnot, hperm⟩ := fields?_middle (textOf?_of_quotes quotes) hname hfs
    refine ⟨fs', hfs', ?_⟩
    rw [← said_cons_idle hdefaults (Or.inr idle) hnot,
      said_perm defaults hperm (nodup_of_fields? hfs)]
  | @nullify name key v ms₁ ms₂ quotes idle =>
    have hkey := textOf?_of_quotes quotes
    have hname : name ∈ keys defaults := List.mem_map_of_mem idle
    obtain ⟨fs₁, hfs₁, hnot, hperm⟩ := fields?_middle hkey hname hfs
    obtain ⟨fs', hfs', hsaid⟩ := fields?_of_middle hkey hname hfs₁ hnot defaults .null
    refine ⟨fs', hfs', ?_⟩
    rw [hsaid, said_cons_idle hdefaults (Or.inl rfl) hnot,
      ← said_cons_idle hdefaults (Or.inr idle) hnot, said_perm defaults hperm (nodup_of_fields? hfs)]

end PeerWatch.Json
