import PeerWatch.Proofs.JsonText
import PeerWatch.Proofs.PeerAddress

/-! Settings that were loaded, from whatever text, are written as JSON and loaded from it as they are.
An address to listen at is read back from its text, scope or none. A number is below the bound that
its reading asks for, and a field that is written never falls back on its default. -/
namespace PeerWatch
variable {s : Settings} {n : Nat}

namespace SocketAddr

theorem port?_decimal (n : UInt16) : port? (Text.decimal n.toNat) = some n := by
  rw [port?, Text.number?_decimal, Option.bind_some, if_pos n.toNat_lt]
  simp

theorem scope?_decimal (n : UInt32) : scope? (Text.decimal n.toNat) = some n := by
  rw [scope?, Text.number?_decimal, Option.bind_some, if_pos n.toNat_lt]
  simp

/-- What stands behind the address: a scope that is zero does not. -/
def zone (scope : UInt32) : List Char :=
  if scope = 0 then [] else '%' :: Text.decimal scope.toNat

theorem bracketed?_text (ip : Ipv6) (scope : UInt32) :
    bracketed? (ip.text ++ zone scope) = some (ip, scope) := by
  have hip : Ipv6.parse? ip.text = some ip := Ipv6.parse?_eq_some_iff.2 ip.writes_text
  have hnot : '%' ∉ ip.text := fun h => (ip.writes_text.isIpChar _ h).ne.2.2.2 rfl
  rw [zone]
  split_ifs with hscope
  · rw [List.append_nil, bracketed?, Text.cutFirst_eq_none hnot]
    simp [hip, hscope]
  · have hcut : Text.cutFirst '%' (ip.text ++ '%' :: Text.decimal scope.toNat) =
        some (ip.text, Text.decimal scope.toNat) :=
      Text.cutFirst_eq_some_iff.2 ⟨hnot, rfl⟩
    rw [bracketed?, hcut]
    simp [hip, scope?_decimal]

theorem bracket_notMem_zone (scope : UInt32) : ']' ∉ zone scope := by
  have hdecimal : ']' ∉ Text.decimal scope.toNat := by
    intro h
    obtain ⟨d, hd, hc⟩ := Text.exists_of_mem_digitsIn h
    have hall : ∀ e < 10, ']' ≠ Text.digitChar e := by decide
    exact hall d hd hc
  rw [zone]
  split_ifs <;> simp [hdecimal]

theorem parse?_text (a : SocketAddr) : parse? a.text = some a := by
  cases a with
  | v4 ip port =>
    have hcut : Text.cutFirst ':' (ip.text ++ ':' :: Text.decimal port.toNat) =
        some (ip.text, Text.decimal port.toNat) :=
      Text.cutFirst_eq_some_iff.2 ⟨ip.notMem_text.1, rfl⟩
    rw [text, parse?, hcut]
    · simp [ip.parse?_text, port?_decimal]
    · -- What opens a version 6 address opens no version 4 address.
      intro s hs
      obtain ⟨c, t, hc⟩ := List.exists_cons_of_ne_nil (List.ne_nil_of_mem ip.dot_mem_text)
      rw [hc, List.cons_append] at hs
      have hbracket : '[' ∈ ip.text := by simp [hc, (List.cons.inj hs).1]
      exact (ip.isIpChar_text _ hbracket).ne.2.1 rfl
  | v6 ip scope port =>
    have hcut : Text.cutFirst ']' (ip.text ++ zone scope ++ ']' :: ':' :: Text.decimal port.toNat) =
        some (ip.text ++ zone scope, ':' :: Text.decimal port.toNat) := by
      refine Text.cutFirst_eq_some_iff.2 ⟨?_, rfl⟩
      rw [List.mem_append, not_or]
      exact ⟨fun h => (ip.writes_text.isIpChar _ h).ne.2.2.1 rfl, bracket_notMem_zone scope⟩
    have htext : text (.v6 ip scope port) =
        '[' :: (ip.text ++ zone scope ++ ']' :: ':' :: Text.decimal port.toNat) := by
      simp [text, zone]
    rw [htext, parse?, hcut]
    simp [bracketed?_text, port?_decimal]

end SocketAddr

theorem Json.nat?_ofNat (n : Nat) : Json.nat? (.ofNat n) = some n := by
  have hint : (Json.ofNat n).int? = some (n : Int) := Json.intOf?_decimalInt n
  rw [Json.nat?, hint]
  rfl

theorem Json.wellFormed_ofUInt64 (n : UInt64) : (Json.ofUInt64 n).WellFormed := wellFormed_ofInt _

theorem Json.wellFormed_ofOption {α : Type} {write : α → Json} (h : ∀ a, (write a).WellFormed)
    (o : Option α) : (Json.ofOption write o).WellFormed := by
  cases o with
  | none => exact .null
  | some a => exact h a

namespace Format

theorem below_ofNat {bound : Nat} (h : n < bound) : Format.json.below bound (.ofNat n) = some n := by
  rw [below]
  change (Json.nat? (.ofNat n)).filter _ = _
  rw [Json.nat?_ofNat]
  simp [Option.filter, h]

theorem uint64_ofUInt64 (n : UInt64) : Format.json.uint64 (.ofUInt64 n) = some n := by
  rw [uint64, Json.ofUInt64, below_ofNat n.toNat_lt]
  simp

theorem uint32_ofNat (n : UInt32) : Format.json.uint32 (.ofNat n.toNat) = some n := by
  rw [uint32, below_ofNat n.toNat_lt]
  simp

theorem uint16_ofNat (n : UInt16) : Format.json.uint16 (.ofNat n.toNat) = some n := by
  rw [uint16, below_ofNat n.toNat_lt]
  simp

theorem text?_ofText (s : String) : Format.json.text? (.ofText s) = some s := Json.text?_ofText s

theorem socket_ofText (a : SocketAddr) :
    Format.json.socket (.ofText (String.ofList a.text)) = some a := by
  rw [socket, text?_ofText, Option.bind_some, String.toList_ofList, a.parse?_text]

/-- A value that is written is read, unless it is written as none is. -/
theorem optional_ofOption {α : Type} {read : Json → Option α} {write : α → Json}
    (hread : ∀ a, read (write a) = some a)
    (hpresent : ∀ a, Format.json.absent? (write a) = some false) (o : Option α) :
    Format.json.optional read (Json.ofOption write o) = some o := by
  cases o with
  | none => rfl
  | some a =>
    rw [Json.ofOption, optional, hpresent, Option.bind_some, if_neg Bool.false_ne_true, hread]
    rfl

theorem list_map {α : Type} {read : Json → Option α} {write : α → Json}
    (h : ∀ a, read (write a) = some a) (as : List α) :
    Format.json.list read (.array (as.map write)) = some as := Json.list?_map h as

theorem discovery_toJson (d : DiscoverySettings) : Format.json.discovery d.toJson = some d := by
  have hf : Format.json.fields? DiscoverySettings.fieldNames d.toJson = some _ :=
    Json.fields?_ofFields (List.Sublist.refl _) (by decide)
  rw [discovery, hf]
  simp [field, List.lookup_cons, uint64_ofUInt64]

theorem fetch_toJson (s : FetchSettings) : Format.json.fetch s.toJson = some s := by
  have hf : Format.json.fields? FetchSettings.fieldNames s.toJson = some _ :=
    Json.fields?_ofFields (List.Sublist.refl _) (by decide)
  rw [fetch, hf]
  simp [field, List.lookup_cons, uint64_ofUInt64]

theorem subscriber_toJson (s : SubscriberSettings) :
    Format.json.subscriber s.toJson = some s := by
  have hf : Format.json.fields? SubscriberSettings.fieldNames s.toJson = some _ :=
    Json.fields?_ofFields (List.Sublist.refl _) (by decide)
  rw [subscriber, hf]
  simp [field, List.lookup_cons, uint64_ofUInt64, uint32_ofNat]

theorem settings_toJson (s : Settings) : Format.json.settings s.toJson = some s := by
  have hf : Format.json.fields? Settings.fieldNames s.toJson = some _ :=
    Json.fields?_ofFields (List.Sublist.refl _) (by decide)
  have hpeer := optional_ofOption text?_ofText (fun _ => rfl) s.peerId
  have hport := optional_ofOption uint16_ofNat (fun _ => rfl) s.metricsPort
  rw [settings, hf]
  simp [field, List.lookup_cons, socket_ofText, hpeer, text?_ofText, list_map text?_ofText,
    discovery_toJson, fetch_toJson, subscriber_toJson, hport]

end Format

namespace Settings

theorem wellFormed_toJson (s : Settings) : s.toJson.WellFormed := by
  have hdiscovery : s.discovery.toJson.WellFormed := by
    refine Json.wellFormed_ofFields ?_
    simp only [List.forall_mem_cons, Json.wellFormed_ofUInt64, true_and]
    exact List.forall_mem_nil _
  have hfetch : s.fetch.toJson.WellFormed := by
    refine Json.wellFormed_ofFields ?_
    simp only [List.forall_mem_cons, Json.wellFormed_ofUInt64, true_and]
    exact List.forall_mem_nil _
  have hsubscriber : s.subscriber.toJson.WellFormed := by
    refine Json.wellFormed_ofFields ?_
    simp only [List.forall_mem_cons, Json.wellFormed_ofUInt64, true_and]
    exact ⟨Json.wellFormed_ofInt _, List.forall_mem_nil _⟩
  refine Json.wellFormed_ofFields ?_
  simp only [List.forall_mem_cons]
  refine ⟨Json.wellFormed_ofText _, Json.wellFormed_ofOption Json.wellFormed_ofText _,
    Json.wellFormed_ofText _, Json.wellFormed_array ?_, hdiscovery, hfetch, hsubscriber,
    Json.wellFormed_ofOption (fun _ => Json.wellFormed_ofInt _) _, List.forall_mem_nil _⟩
  exact List.forall_mem_map.2 fun seed _ => Json.wellFormed_ofText seed

theorem ofJson?_render (s : Settings) : ofJson? s.toJson.render = some s := by
  rw [ofJson?, Json.parse?_render s.wellFormed_toJson, Option.bind_some, Format.settings_toJson]

theorem checked_eq_ok_iff {s? : Option Settings} :
    checked s? = .ok s ↔ s? = some s ∧ s.check = .ok () := by
  cases s? with
  | none => simp [checked]
  | some t =>
    simp only [checked, Option.some.injEq]
    cases hcheck : t.check with
    | ok u =>
      constructor
      · rintro ⟨⟩
        exact ⟨rfl, hcheck⟩
      · rintro ⟨rfl, -⟩
        rfl
    | error fault =>
      refine iff_of_false nofun ?_
      rintro ⟨rfl, h⟩
      rw [hcheck] at h
      cases h

/-- Settings that make sense are loaded from their JSON as they are. -/
theorem loadJson_render (h : s.check = .ok ()) : loadJson s.toJson.render = .ok s :=
  checked_eq_ok_iff.2 ⟨s.ofJson?_render, h⟩

/-- How settings come in: from the text of either notation, or from a YAML file. -/
def IsLoaded (s : Settings) : Prop :=
  (∃ text, load text = .ok s) ∨ (∃ bs, loadJson bs = .ok s) ∨ ∃ file, loadFile file = .ok s

theorem load_of_loadFile {file : Option (List UInt8)} (h : loadFile file = .ok s) :
    ∃ text, load text = .ok s := by
  unfold loadFile at h
  split at h
  · cases h
  · split at h
    · cases h
    · exact ⟨_, h⟩

theorem IsLoaded.check (h : IsLoaded s) : s.check = .ok () := by
  obtain ⟨text, h⟩ | ⟨bs, h⟩ | ⟨file, h⟩ := h
  · exact (checked_eq_ok_iff.1 h).2
  · exact (checked_eq_ok_iff.1 h).2
  · obtain ⟨text, h⟩ := load_of_loadFile h
    exact (checked_eq_ok_iff.1 h).2

/-- Every seed that is one gives its address, in its place. -/
theorem forall₂_seedAddresses (h : ∀ seed ∈ s.seeds, ∃ a, PeerAddress.parse seed = .ok a) :
    List.Forall₂ (fun seed a => PeerAddress.parse seed = .ok a) s.seeds s.seedAddresses := by
  rw [seedAddresses]
  generalize s.seeds = seeds at h
  induction seeds with
  | nil => exact .nil
  | cons seed seeds ih =>
    obtain ⟨a, ha⟩ := h seed List.mem_cons_self
    have hsome : (PeerAddress.parse seed).toOption = some a := congrArg Except.toOption ha
    rw [List.filterMap_cons, hsome]
    exact .cons ha (ih fun seed hseed => h seed (List.mem_cons_of_mem _ hseed))

theorem localPeer_of_checkPeer {u : Unit} (h : checkPeer s.peerId = .ok u) :
    s.localPeer.map (·.text) = s.peerId := by
  rw [localPeer]
  cases hpeer : s.peerId with
  | none => rfl
  | some text =>
    rw [hpeer, checkPeer] at h
    split at h
    · next id hid =>
      have htext := PeerId.ofString_eq_ok_iff.1 hid
      have hsome : PeerId.ofString? text = some id := by rw [PeerId.ofString?, hid]
      rw [Option.bind_some, hsome, htext]
      rfl
    · cases h

theorem checkPeer_of_check (h : s.check = .ok ()) : ∃ u, checkPeer s.peerId = .ok u := by
  simp only [check, bind_eq_ok_iff, guard_eq_ok_iff] at h
  obtain ⟨-, -, -, -, -, -, -, -, -, -, -, -, -, -, u, hpeer, -⟩ := h
  exact ⟨u, hpeer⟩

/-- Settings that were loaded are loaded from their JSON as they are, and so say the same of the seeds
and of the proxy itself. Each seed has an address, in the order of the seeds; the proxy has an
identity if one is given, and it is that one. -/
theorem loaded_round_trip (s : Settings) (h : IsLoaded s) :
    loadJson s.toJson.render = .ok s ∧
      List.Forall₂ (fun seed a => PeerAddress.parse seed = .ok a) s.seeds s.seedAddresses ∧
      s.localPeer.map (·.text) = s.peerId ∧ (s.localPeer.isSome ↔ s.peerId.isSome) := by
  obtain ⟨u, hpeer⟩ := checkPeer_of_check h.check
  have hlocal := localPeer_of_checkPeer hpeer
  refine ⟨loadJson_render h.check,
    forall₂_seedAddresses (PeerAddress.exists_of_mem_seeds h.check), hlocal, ?_⟩
  rw [← hlocal, Option.isSome_map]

theorem loaded_round_trip_scoped :
    let s : Settings := {
      listen := .v6 ⟨[0xfe80, 0, 0, 0, 0, 0, 0, 1], rfl⟩ 5 80
      peerId := some "proxy-1"
      seeds := ["/ip4/127.0.0.1/tcp/7002/p2p/B"] }
    IsLoaded s ∧ loadJson s.toJson.render = .ok s ∧
      List.Forall₂ (fun seed a => PeerAddress.parse seed = .ok a) s.seeds s.seedAddresses ∧
      s.localPeer.map (·.text) = s.peerId ∧ (s.localPeer.isSome ↔ s.peerId.isSome) := by
  intro s
  have h : IsLoaded s := Or.inl
    ⟨"listen: '[fe80::1%5]:80'\npeer_id: proxy-1\nseeds: [/ip4/127.0.0.1/tcp/7002/p2p/B]\n",
      by decide +kernel⟩
  exact ⟨h, loaded_round_trip s h⟩

end Settings
end PeerWatch
