import PeerWatch.Peer.Address
import PeerWatch.Proofs.IpText
import PeerWatch.Settings.Load
import PeerWatch.Status.Document

/-! The texts of peer addresses: a grammar of the long and of the short form, which are the texts that
are read, and how an address that was read prints and is read again. -/
namespace PeerWatch
variable {s t name proto : List Char} {host : Host} {n : UInt16} {id : PeerId} {a : PeerAddress}
  {whole : String}

theorem Text.ofList_eq_iff {word : String} : String.ofList s = word ↔ s = word.toList :=
  ⟨fun h => by rw [← h, String.toList_ofList], fun h => by rw [h, String.ofList_toList]⟩

theorem PeerId.ofString_eq_ok_iff {s : String} : ofString s = .ok id ↔ s = id.text := by
  unfold ofString
  constructor
  · intro h
    split_ifs at h
    cases h
    rfl
  · rintro rfl
    rw [dif_neg id.text_ne, dif_pos id.isIdChar_text]

theorem PeerId.notMem_text (id : PeerId) : '/' ∉ id.text.toList ∧ '@' ∉ id.text.toList := by
  have hall := List.all_eq_true.1 id.isIdChar_text
  exact ⟨fun h => absurd (hall _ h) (by decide), fun h => absurd (hall _ h) (by decide)⟩

theorem PeerId.toList_text_ne_nil (id : PeerId) : id.text.toList ≠ [] := by
  intro h
  exact id.text_ne (String.toList_inj.1 h)

section
variable {ε α β : Type} {k : Except ε β} {e : ε} {b : β} {p : Prop} [Decidable p]

theorem bind_eq_ok_iff {x : Except ε α} {f : α → Except ε β} :
    (x >>= f) = .ok b ↔ ∃ a, x = .ok a ∧ f a = .ok b := by
  cases x <;> simp [bind, Except.bind]

/-- A check that fails ends the reading. -/
theorem guard_eq_ok_iff :
    (if p then (throw e : Except ε PUnit) >>= fun _ => k else k) = .ok b ↔ ¬ p ∧ k = .ok b := by
  split_ifs with h
  · exact iff_of_false nofun fun hk => hk.1 h
  · simp [h]

theorem throw_ne_ok : (throw e : Except ε β) ≠ .ok b := nofun

theorem pure_eq_ok_iff {c : β} : (pure c : Except ε β) = .ok b ↔ b = c :=
  ⟨fun h => (Except.ok.inj h).symm, fun h => congrArg _ h.symm⟩

end

namespace PeerAddress

/-- Does the text write the port? It is a decimal number other than zero, perhaps with a plus sign. -/
def IsPort (s : List Char) (n : UInt16) : Prop :=
  n ≠ 0 ∧ ∃ digits, (s = digits ∨ s = '+' :: digits) ∧ Text.Writes 10 digits n.toNat

/-- The hosts of the long form: the word of a protocol, the text behind it, and the host. -/
inductive LongHost : List Char → List Char → Host → Prop
  | ip4 (ip : Ipv4) : LongHost "ip4".toList ip.text (.ip (.v4 ip))
  | ip6 {name : List Char} {ip : Ipv6} (h : Ipv6.Writes name ip) :
    LongHost "ip6".toList name (.ip (.v6 ip))
  | dns {proto : List Char} (name : List Char)
    (h : proto = "dns".toList ∨ proto = "dns4".toList ∨ proto = "dns6".toList) :
    LongHost proto name (.dns (String.ofList name))

inductive LongForm : List Char → PeerAddress → Prop
  | intro {proto name port tag : List Char} {host : Host} {n : UInt16} (id : PeerId)
    (long : LongHost proto name host) (slash : '/' ∉ name) (isPort : IsPort port n)
    (tagged : tag = "p2p".toList ∨ tag = "ipfs".toList) :
    LongForm ('/' :: proto ++ '/' :: name ++ "/tcp/".toList ++ port ++ '/' :: tag ++
      '/' :: id.text.toList) ⟨id, [⟨host, n⟩]⟩

inductive ShortHost : List Char → Host → Prop
  | ip {name : List Char} {ip : Ip} (h : Ip.Writes name ip) : ShortHost name (.ip ip)
  | dns {name : List Char} (ne : name ≠ []) (h : ∀ ip, ¬ Ip.Writes name ip) :
    ShortHost name (.dns (String.ofList name))

/-- The texts of the short form, with the address that each gives. The peer id ends at the first `@`
and the port begins after the last colon. Brackets around the host are taken off, and then white space
inside them. -/
inductive ShortForm : List Char → PeerAddress → Prop
  | intro {rest inner name port : List Char} {host : Host} {n : UInt16} (id : PeerId)
    (brackets : Text.Stripped (· = '[') (· = ']') rest inner)
    (blanks : Text.Stripped Text.isBlank Text.isBlank inner name) (short : ShortHost name host)
    (colon : ':' ∉ port) (isPort : IsPort port n) :
    ShortForm (id.text.toList ++ '@' :: rest ++ ':' :: port) ⟨id, [⟨host, n⟩]⟩

theorem port?_eq_some_iff : port? s = some n ↔
    ∃ digits, (s = digits ∨ s = '+' :: digits) ∧ Text.Writes 10 digits n.toNat := by
  have hdigits (digits : List Char) : ((Text.number? digits).bind fun m =>
      if m < 65536 then some m.toUInt16 else none) = some n ↔ Text.Writes 10 digits n.toNat := by
    rw [Option.bind_eq_some_iff]
    constructor
    · rintro ⟨m, hm, h⟩
      split_ifs at h with hlt
      cases h
      have hmod : m.toUInt16.toNat = m := by simpa using Nat.mod_eq_of_lt hlt
      rw [hmod]
      exact (Text.numberIn?_eq_some_iff (by decide)).1 hm
    · intro h
      have hn := n.toNat_lt
      refine ⟨_, (Text.numberIn?_eq_some_iff (by decide)).2 h, ?_⟩
      rw [if_pos hn]
      simp
  have hplus {digits : List Char} (h : Text.Writes 10 ('+' :: digits) n.toNat) : False := by
    obtain ⟨d, hd, hc⟩ := h.exists_of_mem List.mem_cons_self
    have hall : ∀ e < 10, ¬ ('+' = Text.digitChar e ∨ '+' = (Text.digitChar e).toUpper) := by decide
    exact hall d hd hc
  unfold port?
  split
  · next digits =>
    rw [hdigits]
    constructor
    · exact fun h => ⟨digits, Or.inr rfl, h⟩
    · rintro ⟨digits', rfl | h, hw⟩
      · exact (hplus hw).elim
      · rwa [(List.cons.inj h).2]
  · next hs =>
    rw [hdigits]
    constructor
    · exact fun h => ⟨s, Or.inl rfl, h⟩
    · rintro ⟨digits, rfl | h, hw⟩
      · exact hw
      · exact (hs _ h).elim

theorem isPort_iff : IsPort s n ↔ n ≠ 0 ∧ port? s = some n := by
  rw [port?_eq_some_iff, IsPort]

theorem IsPort.notMem (h : IsPort s n) : '/' ∉ s := by
  obtain ⟨-, digits, rfl | rfl, hw⟩ := h
  · exact (hw.notMem (by decide)).2.2
  · simp [(hw.notMem (by decide)).2.2]

theorem longHost_eq_ok_iff : longHost whole proto name = .ok host ↔ LongHost proto name host := by
  unfold longHost
  simp only [Text.ofList_eq_iff]
  constructor
  · intro h
    split_ifs at h with hip hdns
    · split at h
      · cases h
      · next ip hparse =>
        split_ifs at h with hv4
        cases h
        rw [Ip.parse?_eq_some_iff] at hparse
        cases hparse with
        | v4 ip =>
          obtain rfl : proto = "ip4".toList := hv4.mpr rfl
          exact .ip4 ip
        | v6 hw =>
          have hne : proto ≠ "ip4".toList := fun he => absurd (hv4.mp he) (by simp [Ip.isV4])
          obtain rfl := hip.resolve_left hne
          exact .ip6 hw
    · cases h
      exact .dns name hdns
  · intro h
    cases h with
    | ip4 ip =>
      rw [if_pos (Or.inl rfl), Ip.parse?_eq_some_iff.2 (.v4 ip)]
      simp [Ip.isV4]
    | ip6 hw =>
      rw [if_pos (Or.inr rfl), Ip.parse?_eq_some_iff.2 (.v6 hw)]
      simp [Ip.isV4]
    | dns _ hdns =>
      rw [if_neg, if_pos hdns]
      rcases hdns with rfl | rfl | rfl <;> decide

theorem LongHost.notMem (h : LongHost proto name host) : '/' ∉ proto := by
  cases h with
  | ip4 ip => decide
  | ip6 hw => decide
  | dns _ hdns => rcases hdns with rfl | rfl | rfl <;> decide

/-- The pieces between the slashes of a text in the long form. -/
theorem tail_pieces_eq_iff {ps : List (List Char)} (hs : s.head? = some '/') (hne : ps ≠ []) :
    (Text.pieces '/' s).tail = ps ↔ (∀ p ∈ ps, '/' ∉ p) ∧ s = '/' :: Text.join ['/'] ps := by
  obtain ⟨s, rfl⟩ : ∃ t, s = '/' :: t := by
    cases s with
    | nil => cases hs
    | cons c s => exact ⟨s, congrArg (· :: s) (Option.some.inj hs)⟩
  rw [Text.pieces_sep, List.tail_cons, Text.pieces_eq_iff hne, List.cons_inj_right]

/-- What is asked of the parts of a text in the long form. -/
theorem ofLong_of_pieces {transport port tag idText : List Char}
    (hps : (Text.pieces '/' s).tail = [proto, name, transport, port, tag, idText]) :
    ofLong s = .ok a ↔ ∃ host, longHost (String.ofList s) proto name = .ok host ∧
      transport = "tcp".toList ∧ ∃ n, n ≠ 0 ∧ port? port = some n ∧
        (tag = "p2p".toList ∨ tag = "ipfs".toList) ∧
        ∃ id : PeerId, idText = id.text.toList ∧ a = ⟨id, [⟨host, n⟩]⟩ := by
  rw [ofLong, hps]
  cases hport : port? port with
  | none =>
    simp only [bind_eq_ok_iff, guard_eq_ok_iff, throw_ne_ok, hport, reduceCtorEq, and_false,
      false_and, exists_const]
  | some m =>
    simp only [bind_eq_ok_iff, guard_eq_ok_iff, pure_eq_ok_iff, PeerId.ofString_eq_ok_iff, hport,
      Text.ofList_eq_iff, ne_eq, not_and_or, not_not, Option.some_inj]
    refine exists_congr fun host => and_congr_right fun _ => and_congr_right fun _ => ?_
    exact ⟨fun h => ⟨m, h.1, rfl, h.2⟩, fun ⟨n, hn, hm, h⟩ => hm ▸ ⟨hn, h⟩⟩

theorem LongForm.head (h : LongForm t a) : t.head? = some '/' := by
  cases h
  rfl

theorem LongForm.exists_pieces (h : LongForm t a) : ∃ proto name port tag host n, ∃ id : PeerId,
    (Text.pieces '/' t).tail = [proto, name, "tcp".toList, port, tag, id.text.toList] ∧
      LongHost proto name host ∧ IsPort port n ∧ (tag = "p2p".toList ∨ tag = "ipfs".toList) ∧
      a = ⟨id, [⟨host, n⟩]⟩ := by
  have hhead := h.head
  cases h with
  | @intro proto name port tag host n id long slash isPort tagged =>
    have htag : '/' ∉ tag := by rcases tagged with rfl | rfl <;> decide
    refine ⟨proto, name, port, tag, host, n, id,
      (tail_pieces_eq_iff hhead (List.cons_ne_nil _ _)).2 ⟨?_, ?_⟩, long, isPort, tagged, rfl⟩
    · simp only [List.forall_mem_cons]
      exact ⟨long.notMem, slash, by decide, isPort.notMem, htag, id.notMem_text.1,
        List.forall_mem_nil _⟩
    · simp [Text.join]

theorem ofLong_eq_ok_iff (hs : s.head? = some '/') : ofLong s = .ok a ↔ LongForm s a := by
  constructor
  · intro h
    obtain ⟨proto, name, transport, port, tag, id, hps⟩ : ∃ proto name transport port tag id,
        (Text.pieces '/' s).tail = [proto, name, transport, port, tag, id] := by
      unfold ofLong at h
      split at h
      · exact ⟨_, _, _, _, _, _, ‹_›⟩
      · cases h
    obtain ⟨host, hhost, rfl, n, hn, hport, htag, id, rfl, rfl⟩ := (ofLong_of_pieces hps).1 h
    obtain ⟨hslash, htext⟩ := (tail_pieces_eq_iff hs (List.cons_ne_nil _ _)).1 hps
    have hform := LongForm.intro id (longHost_eq_ok_iff.1 hhost) (hslash name (by simp))
      (isPort_iff.2 ⟨hn, hport⟩) htag
    rw [htext]
    simpa [Text.join] using hform
  · intro h
    obtain ⟨proto, name, port, tag, host, n, id, hps, hhost, hport, htag, rfl⟩ := h.exists_pieces
    exact (ofLong_of_pieces hps).2 ⟨host, longHost_eq_ok_iff.2 hhost, rfl, n, (isPort_iff.1 hport).1,
      (isPort_iff.1 hport).2, htag, id, rfl, rfl⟩

theorem unbracket_eq_iff : unbracket s = t ↔ Text.Stripped (· = '[') (· = ']') s t := by
  rw [Text.stripped_iff, unbracket, eq_comm]

theorem shortHost_iff : ShortHost name host ↔ name ≠ [] ∧ host =
    match Ip.parse? name with
    | some ip => .ip ip
    | none => .dns (String.ofList name) := by
  constructor
  · intro h
    cases h with
    | ip h =>
      rw [Ip.parse?_eq_some_iff.2 h]
      exact ⟨h.ne_nil, rfl⟩
    | dns ne h =>
      cases hname : Ip.parse? name with
      | none => exact ⟨ne, rfl⟩
      | some ip => exact absurd (Ip.parse?_eq_some_iff.1 hname) (h ip)
  · rintro ⟨ne, rfl⟩
    cases hname : Ip.parse? name with
    | none =>
      refine .dns ne fun ip h => ?_
      rw [Ip.parse?_eq_some_iff.2 h] at hname
      cases hname
    | some ip => exact .ip (Ip.parse?_eq_some_iff.1 hname)

theorem ofText_eq_ok_iff {h : HostAddr} : HostAddr.ofText s n = .ok h ↔
    ∃ name host, Text.Stripped Text.isBlank Text.isBlank s name ∧ ShortHost name host ∧ n ≠ 0 ∧
      h = ⟨host, n⟩ := by
  simp only [← Text.trim_eq_iff, exists_and_left, exists_eq_left', shortHost_iff, and_assoc,
    HostAddr.ofText]
  generalize Text.trim s = name
  by_cases hname : name = []
  · simp [hname]
  · rw [if_neg (by simpa using hname)]
    by_cases hn : n = 0
    · simp [hn]
    · rw [if_neg hn]
      cases Ip.parse? name <;> simp [hname, hn, eq_comm]

theorem ofShort_eq_ok_iff : ofShort s = .ok a ↔ ShortForm s a := by
  constructor
  · intro h
    rw [ofShort] at h
    cases hat : Text.cutFirst '@' s with
    | none => simp only [hat, throw_ne_ok] at h
    | some cut =>
      obtain ⟨idText, rest⟩ := cut
      simp only [hat, bind_eq_ok_iff, PeerId.ofString_eq_ok_iff, Text.ofList_eq_iff] at h
      obtain ⟨id, rfl, h⟩ := h
      cases hcolon : Text.cutLast ':' rest with
      | none => simp only [hcolon, throw_ne_ok] at h
      | some cut =>
        obtain ⟨bracketed, port⟩ := cut
        cases hport : port? port with
        | none => simp only [hcolon, hport, throw_ne_ok] at h
        | some n =>
          simp only [hcolon, hport, bind_eq_ok_iff, pure_eq_ok_iff, ofText_eq_ok_iff] at h
          obtain ⟨_, ⟨name, host, hblank, hhost, hn, rfl⟩, rfl⟩ := h
          obtain ⟨-, rfl⟩ := Text.cutFirst_eq_some_iff.1 hat
          obtain ⟨hport', rfl⟩ := Text.cutLast_eq_some_iff.1 hcolon
          have hform := ShortForm.intro id (unbracket_eq_iff.1 rfl) hblank hhost hport'
            (isPort_iff.2 ⟨hn, hport⟩)
          simpa using hform
  · intro h
    cases h with
    | @intro rest inner name port host n id brackets blanks short colon isPort =>
      obtain ⟨hn, hport⟩ := isPort_iff.1 isPort
      have hat : Text.cutFirst '@' (id.text.toList ++ '@' :: rest ++ ':' :: port) =
          some (id.text.toList, rest ++ ':' :: port) :=
        Text.cutFirst_eq_some_iff.2 ⟨id.notMem_text.2, by simp⟩
      have hcolon : Text.cutLast ':' (rest ++ ':' :: port) = some (rest, port) :=
        Text.cutLast_append colon rest
      have hid : PeerId.ofString (String.ofList id.text.toList) = .ok id :=
        PeerId.ofString_eq_ok_iff.2 String.ofList_toList
      have htext : HostAddr.ofText (unbracket rest) n = .ok ⟨host, n⟩ :=
        ofText_eq_ok_iff.2 ⟨name, host, (unbracket_eq_iff.2 brackets).symm ▸ blanks, short, hn, rfl⟩
      simp only [ofShort, hat, hid, hcolon, hport, htext]
      rfl

theorem ShortForm.head (h : ShortForm t a) : t.head? ≠ some '/' := by
  cases h with
  | intro id brackets blanks short colon isPort =>
    obtain ⟨c, s, hs⟩ := List.exists_cons_of_ne_nil id.toList_text_ne_nil
    have hc : '/' ≠ c := List.ne_of_not_mem_cons (hs ▸ id.notMem_text.1)
    rw [hs]
    simpa using hc.symm

/-- What is read of a text is what the form of its trimmed text gives. -/
theorem parse_eq_ok_iff {s : String} : parse s = .ok a ↔
    LongForm (Text.trim s.toList) a ∨ ShortForm (Text.trim s.toList) a := by
  rw [parse]
  split_ifs with hs
  · rw [ofLong_eq_ok_iff hs, or_iff_left]
    exact fun h => h.head hs
  · rw [ofShort_eq_ok_iff, or_iff_right]
    exact fun h => hs h.head

/-- An address is read from exactly these texts: with white space around it or without, a text in the
long form, or one in the short form, which does not begin with a slash. -/
theorem parse_accepts_forms (s : String) (a : PeerAddress) : parse s = .ok a ↔
    ∃ t, Text.Stripped Text.isBlank Text.isBlank s.toList t ∧
      (LongForm t a ∨ t.head? ≠ some '/' ∧ ShortForm t a) := by
  simp only [← Text.trim_eq_iff, exists_eq_left', parse_eq_ok_iff]
  refine or_congr_right ?_
  rw [and_iff_right_of_imp ShortForm.head]

end PeerAddress

theorem Advert.address_eq_ok_iff {ad : Advert} : ad.address = .ok a ↔
    ∃ (id : PeerId) (n : UInt16) (name : List Char) (host : Host), ad.peerId = id.text ∧
      ad.port.toInt = n.toNat ∧ Text.Stripped Text.isBlank Text.isBlank ad.host.toList name ∧
      PeerAddress.ShortHost name host ∧ n ≠ 0 ∧ a = ⟨id, [⟨host, n⟩]⟩ := by
  simp only [Advert.address, bind_eq_ok_iff, guard_eq_ok_iff, pure_eq_ok_iff,
    PeerId.ofString_eq_ok_iff, PeerAddress.ofText_eq_ok_iff]
  refine exists_congr fun id => ?_
  constructor
  · rintro ⟨hid, hrange, _, ⟨name, host, hname, hhost, hn, rfl⟩, rfl⟩
    have hmod : (ad.port.toInt.toNat.toUInt16).toNat = ad.port.toInt.toNat := by
      have hlt : ad.port.toInt.toNat < 65536 := by omega
      simpa using Nat.mod_eq_of_lt hlt
    exact ⟨_, name, host, hid, by rw [hmod]; omega, hname, hhost, hn, rfl⟩
  · rintro ⟨n, name, host, hid, hport, hname, hhost, hn, rfl⟩
    have hlt := n.toNat_lt
    have hn' : ad.port.toInt.toNat.toUInt16 = n := by rw [hport]; simp
    rw [hn', hport]
    exact ⟨hid, by omega, _, ⟨name, host, hname, hhost, hn, rfl⟩, rfl⟩

namespace PeerAddress

/-- An address that was read has one host and a port. -/
theorem shape (h : (∃ s, parse s = .ok a) ∨ ∃ ad : Advert, ad.address = .ok a) :
    ∃ id host n, a = ⟨id, [⟨host, n⟩]⟩ ∧ n ≠ 0 := by
  rcases h with ⟨s, h⟩ | ⟨ad, h⟩
  · rw [parse_eq_ok_iff] at h
    generalize Text.trim s.toList = t at h
    rcases h with h | h
    · cases h with
      | intro id long slash isPort tagged => exact ⟨id, _, _, rfl, isPort.1⟩
    · cases h with
      | intro id brackets blanks short colon isPort => exact ⟨id, _, _, rfl, isPort.1⟩
  · obtain ⟨id, n, name, host, -, -, -, -, hn, rfl⟩ := Advert.address_eq_ok_iff.1 h
    exact ⟨id, host, n, rfl, hn⟩

/-- A text that a slash begins and a peer id ends has no white space around it. -/
theorem trim_of_ends (s : List Char) (id : PeerId) :
    Text.trim ('/' :: s ++ id.text.toList) = '/' :: s ++ id.text.toList := by
  rw [Text.trim_eq_iff]
  refine ⟨⟨[], [], by simp⟩, ?_, ?_⟩
  · rintro c ⟨⟩
    decide
  · intro c hc
    rw [List.getLast?_append_of_ne_nil _ id.toList_text_ne_nil] at hc
    have hid := List.all_eq_true.1 id.isIdChar_text c (List.mem_of_getLast? hc)
    simp only [isIdChar, Bool.not_eq_true', Bool.or_eq_false_iff] at hid
    exact hid.1.1

theorem LongForm.parse {s : String} (h : LongForm s.toList a) : parse s = .ok a := by
  refine parse_eq_ok_iff.2 (Or.inl ?_)
  have htrim : Text.trim s.toList = s.toList := by
    generalize s.toList = t at h
    cases h with
    | intro id long slash isPort tagged =>
      rw [List.append_cons]
      exact trim_of_ends _ id
  rwa [htrim]

theorem toList_text (id : PeerId) (host : Host) (n : UInt16) :
    (text ⟨id, [⟨host, n⟩]⟩).toList =
      '/' :: (HostAddr.mk host n).protocol.toList ++ '/' :: host.text.toList ++ "/tcp/".toList ++
        Text.decimal n.toNat ++ '/' :: "p2p".toList ++ '/' :: id.text.toList := by
  simp [text, Text.toDigits_eq, toString]

theorem longHost_text (n : UInt16) (host : Host) :
    LongHost (HostAddr.mk host n).protocol.toList host.text.toList host := by
  cases host with
  | ip ip =>
    rw [Host.text, String.toList_ofList]
    cases ip with
    | v4 ip => exact .ip4 ip
    | v6 ip => exact .ip6 ip.writes_text
  | dns name =>
    have h : LongHost "dns4".toList name.toList _ := .dns name.toList (Or.inr (Or.inl rfl))
    rwa [String.ofList_toList] at h

theorem isPort_decimal (hn : n ≠ 0) : IsPort (Text.decimal n.toNat) n :=
  ⟨hn, _, Or.inl rfl, Text.writes_digitsIn (by decide) _⟩

/-- An address whose host shows no slash is read back from its text. -/
theorem parse_text_of_notMem (hn : n ≠ 0) (hhost : '/' ∉ host.text.toList) :
    parse (text ⟨id, [⟨host, n⟩]⟩) = .ok ⟨id, [⟨host, n⟩]⟩ := by
  refine LongForm.parse ?_
  rw [toList_text]
  exact .intro id (longHost_text n host) hhost (isPort_decimal hn) (Or.inl rfl)

theorem ofLong_of_length (h : (Text.pieces '/' s).tail.length ≠ 6) :
    ofLong s = .error (.malformed (.shape (String.ofList s))) := by
  unfold ofLong
  split
  · next hps => simp [hps] at h
  · rfl

/-- With a slash in its host the text has too many parts. -/
theorem parse_text_of_mem (hhost : '/' ∈ host.text.toList) :
    parse (text ⟨id, [⟨host, n⟩]⟩) =
      .error (.malformed (.shape (text ⟨id, [⟨host, n⟩]⟩))) := by
  have htrim : Text.trim (text ⟨id, [⟨host, n⟩]⟩).toList = (text ⟨id, [⟨host, n⟩]⟩).toList := by
    rw [toList_text, List.append_cons _ '/' id.text.toList]
    exact trim_of_ends _ id
  have hhead : (text ⟨id, [⟨host, n⟩]⟩).toList.head? = some '/' := by
    rw [toList_text]
    rfl
  have hcount := List.count_pos_iff.2 hhost
  rw [parse, htrim, if_pos hhead, ofLong_of_length, String.ofList_toList]
  rw [List.length_tail, Text.length_pieces, toList_text]
  simp only [List.count_append, List.count_cons, beq_self_eq_true, if_true]
  have htcp : List.count '/' "/tcp/".toList = 2 := rfl
  omega

/-- The text of an address that was read is read as this address if its host is an internet address or
a name without a slash, and only then. With a slash in the name it is read as no address: it does not
have the shape of one. -/
theorem text_read_back (h : (∃ s, parse s = .ok a) ∨ ∃ ad : Advert, ad.address = .ok a) :
    ∃ id host n, a = ⟨id, [⟨host, n⟩]⟩ ∧
      (parse a.text = .ok a ↔
        (∃ ip, host = .ip ip) ∨ ∃ name, host = .dns name ∧ '/' ∉ name.toList) ∧
      ∀ name, host = .dns name → '/' ∈ name.toList →
        parse a.text = .error (.malformed (.shape a.text)) := by
  obtain ⟨id, host, n, rfl, hn⟩ := shape h
  refine ⟨id, host, n, rfl, ⟨fun hback => ?_, fun hhost => parse_text_of_notMem hn ?_⟩, ?_⟩
  · cases host with
    | ip ip => exact Or.inl ⟨ip, rfl⟩
    | dns name =>
      refine Or.inr ⟨name, rfl, fun hslash => ?_⟩
      have hhost : '/' ∈ (Host.text (.dns name)).toList := hslash
      rw [parse_text_of_mem hhost] at hback
      cases hback
  · rcases hhost with ⟨ip, rfl⟩ | ⟨name, rfl, hslash⟩
    · simpa [Host.text] using ip.writes_text.notMem
    · exact hslash
  · rintro name rfl hslash
    exact parse_text_of_mem hslash

/-- One short form has a slash in its name, and another has version 4 inside version 6. -/
theorem text_read_back_short :
    let a : PeerAddress := ⟨⟨"A", by decide, by decide⟩, [⟨.dns "a/b", 80⟩]⟩
    let b : PeerAddress := ⟨⟨"B", by decide, by decide⟩,
      [⟨.ip (.v6 ⟨[0, 0, 0, 0, 0, 0xffff, 0x102, 0x304], by decide⟩), 7001⟩]⟩
    parse " A@a/b:80" = .ok a ∧ parse a.text = .error (.malformed (.shape a.text)) ∧
      parse "B@[::FFFF:1.2.3.4]:+7001" = .ok b ∧ parse b.text = .ok b := by
  intro a b
  have ha : parse " A@a/b:80" = .ok a := by rfl
  have hb : parse "B@[::FFFF:1.2.3.4]:+7001" = .ok b := by rfl
  obtain ⟨_, host, n, heq, -, hslash⟩ := text_read_back (Or.inl ⟨_, ha⟩)
  have hhosts : [HostAddr.mk (.dns "a/b") 80] = [⟨host, n⟩] := congrArg hosts heq
  cases hhosts
  obtain ⟨_, host, n, heq, hback, -⟩ := text_read_back (Or.inl ⟨_, hb⟩)
  have hhosts : b.hosts = [⟨host, n⟩] := congrArg hosts heq
  cases hhosts
  exact ⟨ha, hslash _ rfl (by decide), hb, hback.2 (Or.inl ⟨_, rfl⟩)⟩

end PeerAddress

/-- Is the host an internet address, or a name that is not empty and has no white space at its
ends? -/
def Host.IsProper : Host → Prop
  | .ip _ => True
  | .dns name => name ≠ "" ∧ Text.trim name.toList = name.toList

namespace PeerAddress

def IsProper (a : PeerAddress) : Prop :=
  PeerId.ofString a.id.text = .ok a.id ∧ ∃ h, a.hosts = [h] ∧ h.port ≠ 0 ∧ h.host.IsProper

def HasImproperName (t : List Char) : Prop :=
  t.head? = some '/' ∧ ∃ proto name rest, (Text.pieces '/' t).tail = proto :: name :: rest ∧
    (proto = "dns".toList ∨ proto = "dns4".toList ∨ proto = "dns6".toList) ∧
    ¬ (Host.dns (String.ofList name)).IsProper

theorem isProper_iff : IsProper ⟨id, [⟨host, n⟩]⟩ ↔ n ≠ 0 ∧ host.IsProper := by
  simp [IsProper, PeerId.ofString_eq_ok_iff]

theorem ShortHost.isProper (h : ShortHost name host)
    (hblank : Text.Stripped Text.isBlank Text.isBlank s name) : host.IsProper := by
  cases h with
  | ip h => trivial
  | dns ne _ =>
    refine ⟨fun h => ne ?_, ?_⟩
    · simpa using h
    · rw [String.toList_ofList, Text.trim_eq_iff]
      exact ⟨⟨[], [], by simp⟩, hblank.head, hblank.last⟩

theorem ShortForm.isProper (h : ShortForm t a) : a.IsProper := by
  cases h with
  | intro id brackets blanks short colon isPort =>
    exact isProper_iff.2 ⟨isPort.1, short.isProper blanks⟩

/-- The long form takes a name as it stands. -/
theorem LongForm.isProper_iff (h : LongForm t a) : a.IsProper ↔ ¬ HasImproperName t := by
  have hhead := h.head
  obtain ⟨proto, name, port, tag, host, n, id, hps, hhost, hport, -, rfl⟩ := h.exists_pieces
  rw [PeerAddress.isProper_iff, and_iff_right hport.1, HasImproperName, and_iff_right hhead, hps]
  cases hhost with
  | ip4 ip =>
    refine iff_of_true trivial ?_
    rintro ⟨_, _, _, hps, hproto, -⟩
    cases hps
    exact absurd hproto (by decide)
  | ip6 h =>
    refine iff_of_true trivial ?_
    rintro ⟨_, _, _, hps, hproto, -⟩
    cases hps
    exact absurd hproto (by decide)
  | dns _ hproto =>
    constructor
    · rintro hproper ⟨_, _, _, hps, -, himproper⟩
      cases hps
      exact himproper hproper
    · intro h
      by_contra himproper
      exact h ⟨_, _, _, rfl, hproto, himproper⟩

/-- An address that was read of a text is proper if the text has no improper name in the long form. -/
theorem isProper_of_parse {s : String} (h : parse s = .ok a) :
    a.IsProper ↔ ¬ HasImproperName (Text.trim s.toList) := by
  rcases parse_eq_ok_iff.1 h with h | h
  · exact h.isProper_iff
  · exact iff_of_true h.isProper fun himproper => h.head himproper.1

theorem isProper_of_advert {ad : Advert} (h : ad.address = .ok a) : a.IsProper := by
  obtain ⟨id, n, name, host, -, -, hblank, hhost, hn, rfl⟩ := Advert.address_eq_ok_iff.1 h
  exact isProper_iff.2 ⟨hn, hhost.isProper hblank⟩

theorem of_forM_checkSeed {seeds : List String} {u : Unit}
    (h : seeds.forM Settings.checkSeed = .ok u) : ∀ seed ∈ seeds, ∃ a, parse seed = .ok a := by
  induction seeds with
  | nil => exact List.forall_mem_nil _
  | cons seed seeds ih =>
    rw [List.forM_eq_forM, List.forM_cons, bind_eq_ok_iff] at h
    obtain ⟨_, hseed, h⟩ := h
    refine List.forall_mem_cons.2 ⟨?_, ih h⟩
    rw [Settings.checkSeed] at hseed
    split at hseed
    · exact ⟨_, ‹_›⟩
    · cases hseed

theorem exists_of_mem_seeds {settings : Settings} (h : settings.check = .ok ()) :
    ∀ seed ∈ settings.seeds, ∃ a, parse seed = .ok a := by
  simp only [Settings.check, bind_eq_ok_iff, guard_eq_ok_iff] at h
  obtain ⟨-, -, -, -, -, -, -, -, -, -, -, -, -, -, -, -, h⟩ := h
  exact of_forM_checkSeed h

/-- The address of an advert is proper, and so is that of a text if there is no improper name in the
long form. If there is one, the address is not proper, though it is accepted. Each seed of settings
that passed their check is such a text. -/
theorem read_address_proper (a : PeerAddress) :
    (∀ ad : Advert, ad.address = .ok a → a.IsProper) ∧
    (∀ s : String, parse s = .ok a → (a.IsProper ↔ ¬ HasImproperName (Text.trim s.toList))) ∧
    ∀ settings : Settings, settings.check = .ok () → ∀ seed ∈ settings.seeds,
      ∃ b, parse seed = .ok b ∧ (b.IsProper ↔ ¬ HasImproperName (Text.trim seed.toList)) := by
  refine ⟨fun ad h => isProper_of_advert h, fun s h => isProper_of_parse h,
    fun settings h seed hseed => ?_⟩
  obtain ⟨b, hb⟩ := exists_of_mem_seeds h seed hseed
  exact ⟨b, hb, isProper_of_parse hb⟩

/-- An advert and a short form have white space around the host, and a seed has a proper name. -/
theorem read_address_proper_trimmed :
    let a : PeerAddress := ⟨⟨"A", by decide, by decide⟩, [⟨.dns "a", 80⟩]⟩
    let ad : Advert := ⟨" a ", "A", 80⟩
    let settings : Settings := { seeds := ["/dns4/a/tcp/80/p2p/A"] }
    (ad.address = .ok a ∧ parse "A@ a :80" = .ok a ∧ settings.check = .ok ()) ∧ a.IsProper ∧
      ∃ b, parse "/dns4/a/tcp/80/p2p/A" = .ok b ∧
        (b.IsProper ↔ ¬ HasImproperName "/dns4/a/tcp/80/p2p/A".toList) := by
  intro a ad settings
  obtain ⟨hadvert, hparse, hseeds⟩ := read_address_proper a
  have had : ad.address = .ok a :=
    Advert.address_eq_ok_iff.2 ⟨_, 80, ['a'], .dns "a", rfl, by decide,
      Text.trim_eq_iff.1 (by decide), shortHost_iff.2 ⟨by decide, rfl⟩, by decide, rfl⟩
  have hshort : parse "A@ a :80" = .ok a := by rfl
  have hcheck : settings.check = .ok () := by rfl
  have hnot : ¬ HasImproperName (Text.trim "A@ a :80".toList) := fun h => absurd h.1 (by decide)
  exact ⟨⟨had, hshort, hcheck⟩, (hparse _ hshort).2 hnot,
    hseeds settings hcheck _ List.mem_cons_self⟩

/-- An empty name and one with white space before it are accepted, of seeds too. -/
theorem improper_name_accepted :
    let a : PeerAddress := ⟨⟨"X", by decide, by decide⟩, [⟨.dns "", 80⟩]⟩
    let b : PeerAddress := ⟨⟨"X", by decide, by decide⟩, [⟨.dns " b", 80⟩]⟩
    let settings : Settings := { seeds := ["/dns4//tcp/80/p2p/X", "/dns4/ b/tcp/80/p2p/X"] }
    settings.check = .ok () ∧ (parse "/dns4//tcp/80/p2p/X" = .ok a ∧ ¬ a.IsProper) ∧
      parse "/dns4/ b/tcp/80/p2p/X" = .ok b ∧ ¬ b.IsProper := by
  refine ⟨rfl, ⟨rfl, fun h => ?_⟩, rfl, fun h => ?_⟩
  · exact (isProper_iff.1 h).2.1 rfl
  · exact absurd (isProper_iff.1 h).2.2 (by decide)

end PeerAddress
end PeerWatch
