import Mathlib.Logic.Relation
import PeerWatch.Proofs.JsonRecord
import PeerWatch.Status.Document

/-! Status documents are read tolerantly. Whatever is done to the JSON of a document in the ways that
leave its meaning alone, and however it is then spelled, the same document is read. -/
namespace PeerWatch
open Json (byte IsQuoted IsText Quotes RecordEdit said)
variable {v v' : Json} {ms ms' ms₁ ms₂ : List (List UInt8 × Json)}
  {items items' : List Json} {key bs : List UInt8} {a : Advert} {d : Document}

namespace Advert

def defaults : List (String × Json) :=
  [("host", .ofText ""), ("peer_id", .ofText ""), ("libp2p_port", .ofInt 0)]

structure IsSaid (look : String → Option Json) (a : Advert) : Prop where
  host : (look "host").bind Json.text? = some a.host
  peerId : (look "peer_id").bind Json.text? = some a.peerId
  port : (look "libp2p_port").bind Json.int64? = some a.port

theorem ofJson?_eq_some_iff : ofJson? v = some a ↔
    ∃ fs, v.fields? (keys defaults) = some fs ∧ IsSaid (said defaults fs) a := by
  rw [ofJson?, Option.bind_eq_bind, Option.bind_eq_some_iff]
  refine exists_congr fun fs => and_congr_right fun _ => ?_
  simp only [Option.bind_eq_bind, Option.bind_eq_some_iff, Option.pure_def, Option.some_inj]
  rw [Json.lenient_text_eq_said (rfl : defaults.lookup "host" = _),
    Json.lenient_text_eq_said (rfl : defaults.lookup "peer_id" = _),
    Json.lenient_int64_eq_said (rfl : defaults.lookup "libp2p_port" = _)]
  constructor
  · rintro ⟨_, h₁, _, h₂, _, h₃, rfl⟩
    exact ⟨h₁, h₂, h₃⟩
  · rintro ⟨h₁, h₂, h₃⟩
    exact ⟨_, h₁, _, h₂, _, h₃, rfl⟩

theorem ofJson?_edit (h : RecordEdit defaults ms ms') (ha : ofJson? (.object ms) = some a) :
    ofJson? (.object ms') = some a := by
  obtain ⟨fs, hfs, hsaid⟩ := ofJson?_eq_some_iff.1 ha
  obtain ⟨fs', hfs', heq⟩ := h.said_eq (by decide) hfs
  exact ofJson?_eq_some_iff.2 ⟨fs', hfs', heq ▸ hsaid⟩

end Advert

namespace Document

def defaults : List (String × Json) :=
  [("node_ip_addr", .ofText ""), ("node_peer_id", .ofText ""), ("sync_status", .ofText ""),
    ("protocol_state_hash", .ofText ""), ("git_commit", .ofText ""), ("uptime_minutes", .ofInt 0),
    ("peers", .array []), ("k_block_hashes_and_timestamps", .array [])]

structure IsSaid (look : String → Option Json) (d : Document) : Prop where
  ipAddr : (look "node_ip_addr").bind Json.text? = some d.ipAddr
  peerId : (look "node_peer_id").bind Json.text? = some d.peerId
  syncStatus : (look "sync_status").bind Json.text? = some d.syncStatus
  stateHash : (look "protocol_state_hash").bind Json.text? = some d.stateHash
  gitCommit : (look "git_commit").bind Json.text? = some d.gitCommit
  uptimeMinutes : (look "uptime_minutes").bind Json.int64? = some d.uptimeMinutes
  adverts : (look "peers").bind adverts? = some d.adverts
  blockHashes : (look "k_block_hashes_and_timestamps").bind (Json.list? pair?) = some d.blockHashes

theorem ofJson?_eq_some_iff : ofJson? v = some d ↔
    ∃ fs, v.fields? (keys defaults) = some fs ∧ IsSaid (said defaults fs) d := by
  have hadverts : adverts? (.array []) = some [] := rfl
  have hhashes : Json.list? pair? (.array []) = some [] := rfl
  rw [ofJson?, Option.bind_eq_bind, Option.bind_eq_some_iff]
  refine exists_congr fun fs => and_congr_right fun _ => ?_
  simp only [Option.bind_eq_bind, Option.bind_eq_some_iff, Option.pure_def, Option.some_inj]
  rw [Json.lenient_text_eq_said (rfl : defaults.lookup "node_ip_addr" = _),
    Json.lenient_text_eq_said (rfl : defaults.lookup "node_peer_id" = _),
    Json.lenient_text_eq_said (rfl : defaults.lookup "sync_status" = _),
    Json.lenient_text_eq_said (rfl : defaults.lookup "protocol_state_hash" = _),
    Json.lenient_text_eq_said (rfl : defaults.lookup "git_commit" = _),
    Json.lenient_int64_eq_said (rfl : defaults.lookup "uptime_minutes" = _),
    Json.lenient_eq_said (rfl : defaults.lookup "peers" = _) hadverts,
    Json.lenient_eq_said (rfl : defaults.lookup "k_block_hashes_and_timestamps" = _) hhashes]
  constructor
  · rintro ⟨_, h₁, _, h₂, _, h₃, _, h₄, _, h₅, _, h₆, _, h₇, _, h₈, rfl⟩
    exact ⟨h₁, h₂, h₃, h₄, h₅, h₆, h₇, h₈⟩
  · rintro ⟨h₁, h₂, h₃, h₄, h₅, h₆, h₇, h₈⟩
    exact ⟨_, h₁, _, h₂, _, h₃, _, h₄, _, h₅, _, h₆, _, h₇, _, h₈, rfl⟩

/-- One change to the JSON of a document that leaves its meaning alone. -/
inductive Edit : Json → Json → Prop
  | members {ms ms' : List (List UInt8 × Json)} (h : RecordEdit defaults ms ms') :
    Edit (.object ms) (.object ms')
  | nullPeer {key : List UInt8} (ms₁ ms₂ : List (List UInt8 × Json)) (items₁ items₂ : List Json)
    (quotes : Quotes "peers".toList key) :
    Edit (.object (ms₁ ++ (key, .array (items₁ ++ items₂)) :: ms₂))
      (.object (ms₁ ++ (key, .array (items₁ ++ .null :: items₂)) :: ms₂))
  | peer {key : List UInt8} {ps ps' : List (List UInt8 × Json)} (ms₁ ms₂ : List (List UInt8 × Json))
    (items₁ items₂ : List Json) (quotes : Quotes "peers".toList key)
    (h : RecordEdit Advert.defaults ps ps') :
    Edit (.object (ms₁ ++ (key, .array (items₁ ++ .object ps :: items₂)) :: ms₂))
      (.object (ms₁ ++ (key, .array (items₁ ++ .object ps' :: items₂)) :: ms₂))

theorem adverts?_append (xs ys : List Json) : adverts? (.array (xs ++ ys)) =
    (adverts? (.array xs)).bind fun as => (adverts? (.array ys)).map (as ++ ·) := by
  simp only [adverts?, Json.list?, Json.items?, Option.bind_some, List.mapM_append]
  cases xs.mapM (Json.nullable Advert.ofJson?) with
  | none => rfl
  | some as =>
    cases ys.mapM (Json.nullable Advert.ofJson?) with
    | none => rfl
    | some bs => exact congrArg some (List.filterMap_append ..)

theorem adverts?_cons_null (ys : List Json) :
    adverts? (.array (.null :: ys)) = adverts? (.array ys) := by
  simp only [adverts?, Json.list?, Json.items?, Option.bind_some, List.mapM_cons]
  cases ys.mapM (Json.nullable Advert.ofJson?) <;> rfl

theorem adverts?_cons_object (ps : List (List UInt8 × Json)) (ys : List Json) :
    adverts? (.array (.object ps :: ys)) = (Advert.ofJson? (.object ps)).bind fun a =>
      (adverts? (.array ys)).map (a :: ·) := by
  simp only [adverts?, Json.list?, Json.items?, Option.bind_some, List.mapM_cons, Json.nullable]
  cases Advert.ofJson? (.object ps) <;> cases ys.mapM (Json.nullable Advert.ofJson?) <;> rfl

theorem adverts?_null (xs ys : List Json) :
    adverts? (.array (xs ++ .null :: ys)) = adverts? (.array (xs ++ ys)) := by
  rw [adverts?_append, adverts?_cons_null, adverts?_append]

theorem adverts?_edit (h : RecordEdit Advert.defaults ms ms') (xs ys : List Json) {as : List Advert}
    (has : adverts? (.array (xs ++ .object ms :: ys)) = some as) :
    adverts? (.array (xs ++ .object ms' :: ys)) = some as := by
  rw [adverts?_append, adverts?_cons_object] at has ⊢
  obtain ⟨bs, hbs, has⟩ := Option.bind_eq_some_iff.1 has
  obtain ⟨cs, hcs, rfl⟩ := Option.map_eq_some_iff.1 has
  obtain ⟨a, ha, hys⟩ := Option.bind_eq_some_iff.1 hcs
  rw [hbs, Advert.ofJson?_edit h ha, Option.bind_some, Option.bind_some, hys]
  rfl

/-- A document is read alike when the adverts are read alike in another array. -/
theorem ofJson?_peers (quotes : Quotes "peers".toList key)
    (hitems : ∀ as, adverts? (.array items) = some as → adverts? (.array items') = some as)
    (hd : ofJson? (.object (ms₁ ++ (key, .array items) :: ms₂)) = some d) :
    ofJson? (.object (ms₁ ++ (key, .array items') :: ms₂)) = some d := by
  obtain ⟨fs, hfs, hsaid⟩ := ofJson?_eq_some_iff.1 hd
  have hkey := Json.textOf?_of_quotes quotes
  have hname : "peers" ∈ keys defaults := by decide
  obtain ⟨fs₁, hfs₁, hnot, hperm⟩ := Json.fields?_middle hkey hname hfs
  obtain ⟨fs', hfs', heq⟩ := Json.fields?_of_middle hkey hname hfs₁ hnot defaults (.array items')
  have hold := Json.said_perm defaults hperm (Json.nodup_of_fields? hfs)
  rw [← hold] at hsaid
  refine ofJson?_eq_some_iff.2 ⟨fs', hfs', ?_⟩
  rw [heq]
  -- what is said differs in the adverts alone
  have hother {name : String} (h : name ≠ "peers") :
      said defaults (("peers", .array items') :: fs₁) name =
        said defaults (("peers", .array items) :: fs₁) name := by
    rw [Json.said_cons_of_ne h, Json.said_cons_of_ne h]
  have hself (items : List Json) :
      said defaults (("peers", .array items) :: fs₁) "peers" = some (.array items) :=
    Json.said_cons_self nofun
  have hadverts := hsaid.adverts
  rw [hself] at hadverts
  refine ⟨?_, ?_, ?_, ?_, ?_, ?_, ?_, ?_⟩
  · rw [hother (by decide), hsaid.ipAddr]
  · rw [hother (by decide), hsaid.peerId]
  · rw [hother (by decide), hsaid.syncStatus]
  · rw [hother (by decide), hsaid.stateHash]
  · rw [hother (by decide), hsaid.gitCommit]
  · rw [hother (by decide), hsaid.uptimeMinutes]
  · rw [hself]
    exact hitems _ hadverts
  · rw [hother (by decide), hsaid.blockHashes]

/-- An edit does not change the document that is read. -/
theorem ofJson?_edit (h : Edit v v') (hd : ofJson? v = some d) : ofJson? v' = some d := by
  cases h with
  | members h =>
    obtain ⟨fs, hfs, hsaid⟩ := ofJson?_eq_some_iff.1 hd
    obtain ⟨fs', hfs', heq⟩ := h.said_eq (by decide) hfs
    exact ofJson?_eq_some_iff.2 ⟨fs', hfs', heq ▸ hsaid⟩
  | nullPeer ms₁ ms₂ items₁ items₂ quotes =>
    exact ofJson?_peers quotes (fun as has => (adverts?_null _ _).trans has) hd
  | peer ms₁ ms₂ items₁ items₂ quotes h =>
    exact ofJson?_peers quotes (fun as has => adverts?_edit h _ _ has) hd

theorem ofJson?_edits (h : Relation.ReflTransGen Edit v v') (hd : ofJson? v = some d) :
    ofJson? v' = some d := by
  induction h with
  | refl => exact hd
  | tail _ h ih => exact ofJson?_edit h ih

end Document

theorem Advert.ofJson?_toJson (a : Advert) : ofJson? a.toJson = some a := by
  refine ofJson?_eq_some_iff.2 ⟨_, Json.fields?_ofFields (List.Sublist.refl _) (by decide), ?_⟩
  exact ⟨Json.text?_ofText _, Json.text?_ofText _, Json.int64?_ofInt _⟩

namespace Document

theorem adverts?_toJson (as : List Advert) : adverts? (.array (as.map Advert.toJson)) = some as := by
  induction as with
  | nil => rfl
  | cons a as ih =>
    rw [List.map_cons, Advert.toJson, Json.ofFields, adverts?_cons_object, ih]
    have ha := a.ofJson?_toJson
    rw [Advert.toJson, Json.ofFields] at ha
    rw [ha]
    rfl

theorem pair?_ofText (p : String × String) : pair? (.array [.ofText p.1, .ofText p.2]) = some p := by
  simp [pair?, Json.text?_ofText]

theorem ofJson?_toJson (d : Document) : ofJson? d.toJson = some d := by
  refine ofJson?_eq_some_iff.2 ⟨_, Json.fields?_ofFields (List.Sublist.refl _) (by decide), ?_⟩
  exact ⟨Json.text?_ofText _, Json.text?_ofText _, Json.text?_ofText _, Json.text?_ofText _,
    Json.text?_ofText _, Json.int64?_ofInt _, adverts?_toJson _, Json.list?_map pair?_ofText _⟩

theorem wellFormed_toJson (d : Document) : d.toJson.WellFormed := by
  have hadvert (a : Advert) : a.toJson.WellFormed := by
    refine Json.wellFormed_ofFields ?_
    simp only [List.forall_mem_cons]
    exact ⟨Json.wellFormed_ofText _, Json.wellFormed_ofText _, Json.wellFormed_ofInt _, by simp⟩
  have hpair (p : String × String) : (Json.array [.ofText p.1, .ofText p.2]).WellFormed := by
    refine Json.wellFormed_array ?_
    simp only [List.forall_mem_cons]
    exact ⟨Json.wellFormed_ofText _, Json.wellFormed_ofText _, by simp⟩
  refine Json.wellFormed_ofFields ?_
  simp only [List.forall_mem_cons]
  refine ⟨Json.wellFormed_ofText _, Json.wellFormed_ofText _, Json.wellFormed_ofText _,
    Json.wellFormed_ofText _, Json.wellFormed_ofText _, Json.wellFormed_ofInt _,
    Json.wellFormed_array ?_, Json.wellFormed_array ?_, by simp⟩
  · exact List.forall_mem_map.2 fun a _ => hadvert a
  · exact List.forall_mem_map.2 fun p _ => hpair p

theorem isText_render (d : Document) : IsText d.toJson d.render := d.wellFormed_toJson.bare

/-- What is written of a document is a JSON text of it, and it is read as this document. So is every
text of its JSON with any number of edits: members of the document or of its adverts in another order,
members of other names, defaults that are left out or `null`, and `null` among the adverts. -/
theorem tolerant_reading :
    (∀ d : Document, IsText d.toJson d.render ∧ parse? d.render = some d) ∧
    ∀ (d : Document) (v : Json) (bs : List UInt8), Relation.ReflTransGen Edit d.toJson v →
      IsText v bs → parse? bs = some d := by
  have hread (d : Document) (v : Json) (bs : List UInt8) (h : Relation.ReflTransGen Edit d.toJson v)
      (hbs : IsText v bs) : parse? bs = some d := by
    rw [parse?, hbs.parse?, Option.bind_some]
    exact ofJson?_edits h d.ofJson?_toJson
  exact ⟨fun d => ⟨d.isText_render, hread d _ _ .refl d.isText_render⟩, hread⟩

/-- The JSON of a document with one advert is edited: a default is left out and one becomes `null`, a
member of another name comes in, and the adverts get a `null` and lose a default, too. -/
theorem tolerant_reading_edited :
    let d : Document := { empty with adverts := [⟨"", "A", 80⟩] }
    let key (name : String) : List UInt8 := Json.escape name.toList
    let v : Json := .object [(key "x", .array [.object []]), (key "node_peer_id", .null),
      (key "sync_status", .ofText ""), (key "protocol_state_hash", .ofText ""),
      (key "git_commit", .ofText ""), (key "uptime_minutes", .ofInt 0),
      (key "peers", .array [.null, .object [(key "peer_id", .ofText "A"),
        (key "libp2p_port", .ofInt 80)]]),
      (key "k_block_hashes_and_timestamps", .array [])]
    let bs := [byte '\n'] ++ v.render ++ [byte ' ', byte '\t']
    (Relation.ReflTransGen Edit d.toJson v ∧ IsText v bs) ∧ parse? bs = some d := by
  intro d key v bs
  have hquotes (name : String) : Quotes name.toList (key name) := Json.quotes_escape _
  have hedits : Relation.ReflTransGen Edit d.toJson v := by
    refine .head (.members (.remove [] _ (hquotes "node_ip_addr") List.mem_cons_self)) ?_
    refine .head (.members (.nullify [] _ (hquotes "node_peer_id")
      (List.mem_cons_of_mem _ List.mem_cons_self))) ?_
    refine .head (.members (.insert [] _ (.array [.object []]) (hquotes "x") (by decide))) ?_
    refine .head (.nullPeer [_, _, _, _, _, _] _ [] _ (hquotes "peers")) ?_
    refine .head (.peer [_, _, _, _, _, _] _ [_] _ (hquotes "peers")
      (.remove [] _ (hquotes "host") List.mem_cons_self)) ?_
    exact .refl
  have hkey (name : String) : IsQuoted (key name) := (hquotes name).isQuoted
  have hnothing : (Json.object []).WellFormed := .noMembers .nil
  have hadvert :
      (Json.object [(key "peer_id", .ofText "A"), (key "libp2p_port", .ofInt 80)]).WellFormed :=
    Json.wellFormed_object (by simp [hkey]) (by simp [Json.wellFormed_ofText, Json.wellFormed_ofInt])
  have hv : v.WellFormed := by
    refine Json.wellFormed_object (by simp [hkey]) ?_
    simp only [List.forall_mem_cons]
    exact ⟨Json.wellFormed_array (by simpa using hnothing), .null, Json.wellFormed_ofText _,
      Json.wellFormed_ofText _, Json.wellFormed_ofText _, Json.wellFormed_ofInt _,
      Json.wellFormed_array (List.forall_mem_cons.2 ⟨.null, by simpa using hadvert⟩),
      Json.wellFormed_array (by simp), by simp⟩
  have hbs : IsText v bs := .element (by simp [Json.IsSpaces]) hv (by simp [Json.IsSpaces])
  exact ⟨⟨hedits, hbs⟩, tolerant_reading.2 d v bs hedits hbs⟩

/-- Defaults may go one after the other until none is left. -/
theorem edits_nothing {fields : List (String × Json)} (h : ∀ f ∈ fields, f ∈ defaults) :
    Relation.ReflTransGen Edit (Json.ofFields fields) (.object []) := by
  induction fields with
  | nil => exact .refl
  | cons f fields ih =>
    obtain ⟨hf, h⟩ := List.forall_mem_cons.1 h
    exact .head (.members (.remove [] _ (Json.quotes_escape _) hf)) (ih h)

/-- A lone surrogate may stand between the quotes of a key, and is not the name of a field. But it is
no text at all, and a document that has it for a key is not read. -/
theorem lone_surrogate_refused :
    let key := Utf8.ofString "\\ud800"
    let bs := Utf8.ofString "\x7b\"\\ud800\":0\x7d"
    Relation.ReflTransGen Edit empty.toJson (.object []) ∧
      parse? (Utf8.ofString "\x7b\x7d") = some empty ∧
      IsText (.object [(key, .number [byte '0'])]) bs ∧ (∀ s, ¬ Quotes s key) ∧ parse? bs = none := by
  intro key bs
  have hquad : Json.IsQuad (Utf8.ofString "d800") 0xD800 :=
    ⟨"d800".toList, rfl, rfl, (Text.numberIn?_eq_some_iff (by decide)).1 rfl⟩
  have hkey : IsQuoted key := by
    have hcode := IsQuoted.code hquad .nil
    rw [List.append_nil] at hcode
    exact hcode
  have hzero : Json.IsNumeral [byte '0'] := .intro (Or.inl rfl) .zero .none .none
  have hnone : Json.textOf? key = none := by decide +kernel
  refine ⟨edits_nothing fun f hf => hf, by decide +kernel, ?_, fun s hs => ?_, by decide +kernel⟩
  · exact .bare (.object (.lastMember (.member .nil hkey .nil (.bare (.number hzero)))))
  · rw [hs.textOf?] at hnone
    cases hnone

end Document
end PeerWatch
