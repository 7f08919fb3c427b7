import PeerWatch.Proofs.Entries
import PeerWatch.Proofs.PeerAddress

/-! Adverts against addresses in the short form. An advert is read field by field; the text that is
put together of its fields is cut apart first. Both ways come to the same address, so that a peer has
one entry in the store, whichever way it was heard of. -/
namespace PeerWatch
variable {ad : Advert} {id : PeerId} {a b : PeerAddress} {p q p' q' s port : List Char} {n : UInt16}
  {i : Int} {c sep : Char}

namespace Text

theorem toList_repr (i : Int) : i.repr.toList = decimalInt i := by
  cases i <;> simp [Int.repr, decimalInt, Nat.repr, toDigits_eq]

theorem exists_of_mem_decimalInt (h : c ∈ decimalInt i) : c = '-' ∨ ∃ d < 10, c = digitChar d := by
  cases i with
  | ofNat m => exact Or.inr (exists_of_mem_digitsIn h)
  | negSucc m => exact (List.mem_cons.1 h).imp id exists_of_mem_digitsIn

theorem decimalInt_ne_nil (i : Int) : decimalInt i ≠ [] := by
  cases i with
  | ofNat m => exact digitsIn_ne_nil 8 m
  | negSucc m => exact List.cons_ne_nil _ _

/-- At the decimal text of an integer nothing is trimmed, and nothing is cut inside it. -/
theorem ne_of_mem_decimalInt (h : c ∈ decimalInt i) : isBlank c = false ∧ c ≠ ':' ∧ c ≠ '+' := by
  have hall : ∀ d < 10, isBlank (digitChar d) = false ∧ digitChar d ≠ ':' ∧ digitChar d ≠ '+' := by
    decide
  rcases exists_of_mem_decimalInt h with rfl | ⟨d, hd, rfl⟩
  · decide
  · exact hall d hd

/-- The decimal text of an integer writes this integer, and so no number if it is below zero. -/
theorem writes_decimalInt_iff {m : Nat} : Writes 10 (decimalInt i) m ↔ i = m := by
  cases i with
  | ofNat k =>
    have hnumber : numberIn? 10 (decimal k) = some k := number?_decimal k
    rw [decimalInt, ← numberIn?_eq_some_iff (by decide), hnumber, Option.some_inj]
    exact Int.ofNat_inj.symm
  | negSucc k =>
    refine iff_of_false (fun h => ?_) (by omega)
    obtain ⟨d, hd, hc⟩ := h.exists_of_mem (c := '-') List.mem_cons_self
    have hall : ∀ e < 10, ¬ ('-' = digitChar e ∨ '-' = (digitChar e).toUpper) := by decide
    exact hall d hd hc

theorem trim_of_ends (hfirst : ∀ c ∈ s.head?, isBlank c = false)
    (hlast : ∀ c ∈ s.getLast?, isBlank c = false) : trim s = s :=
  trim_eq_iff.2 ⟨⟨[], [], by simp⟩, hfirst, hlast⟩

/-- A text is cut in one way at its first separator. -/
theorem eq_of_cutFirst (hp : sep ∉ p) (hp' : sep ∉ p') (h : p ++ sep :: q = p' ++ sep :: q') :
    p = p' ∧ q = q' := by
  have hcut := cutFirst_eq_some_iff.2 ⟨hp, h.symm⟩
  rw [cutFirst_eq_some_iff.2 ⟨hp', rfl⟩] at hcut
  cases hcut
  exact ⟨rfl, rfl⟩

theorem eq_of_cutLast (hq : sep ∉ q) (hq' : sep ∉ q') (h : p ++ sep :: q = p' ++ sep :: q') :
    p = p' ∧ q = q' := by
  have hcut := cutLast_eq_some_iff.2 ⟨hq, h.symm⟩
  rw [cutLast_eq_some_iff.2 ⟨hq', rfl⟩] at hcut
  cases hcut
  exact ⟨rfl, rfl⟩

end Text

theorem PeerId.eq_of_toList_text {id' : PeerId} (h : id.text.toList = id'.text.toList) :
    id = id' := by
  have htext : id.text = id'.text := String.toList_inj.1 h
  have hread := ofString_eq_ok_iff.2 htext
  rw [ofString_eq_ok_iff.2 rfl] at hread
  exact Except.ok.inj hread

namespace PeerAddress

theorem isPort_decimalInt_iff : IsPort (Text.decimalInt i) n ↔ n ≠ 0 ∧ i = n.toNat := by
  refine and_congr_right fun _ => ?_
  rw [← Text.writes_decimalInt_iff]
  constructor
  · rintro ⟨digits, rfl | hplus, hw⟩
    · exact hw
    · have hmem : '+' ∈ Text.decimalInt i := hplus ▸ List.mem_cons_self
      exact absurd rfl (Text.ne_of_mem_decimalInt hmem).2.2
  · exact fun hw => ⟨_, Or.inl rfl, hw⟩

theorem stripped_brackets_iff {t : List Char} (hfirst : s.head? ≠ some '[')
    (hlast : s.getLast? ≠ some ']') : Text.Stripped (· = '[') (· = ']') s t ↔ t = s := by
  have hopen : ∀ c ∈ s.head?, decide (c = '[') = false := by
    intro c hc
    exact decide_eq_false fun he => hfirst (he ▸ hc)
  have hclose : ∀ c ∈ s.getLast?, decide (c = ']') = false := by
    intro c hc
    exact decide_eq_false fun he => hlast (he ▸ hc)
  rw [Text.stripped_iff, Text.dropWhile_of_head hopen, Text.dropEndWhile_of_last hclose]

/-- A text that was put together in the short form is cut apart into the same parts. -/
theorem shortForm_iff (hfirst : s.head? ≠ some '[') (hlast : s.getLast? ≠ some ']')
    (hport : ':' ∉ port) : ShortForm (id.text.toList ++ '@' :: s ++ ':' :: port) a ↔
      ∃ name host n, Text.Stripped Text.isBlank Text.isBlank s name ∧ ShortHost name host ∧
        IsPort port n ∧ a = ⟨id, [⟨host, n⟩]⟩ := by
  constructor
  · intro h
    generalize htext : id.text.toList ++ '@' :: s ++ ':' :: port = text at h
    cases h with
    | @intro rest inner name port' host n id' brackets blanks short colon isPort =>
      rw [List.append_assoc, List.append_assoc] at htext
      obtain ⟨hid, hrest⟩ := Text.eq_of_cutFirst id.notMem_text.2 id'.notMem_text.2 htext
      obtain ⟨rfl, rfl⟩ := Text.eq_of_cutLast hport colon hrest
      obtain rfl := PeerId.eq_of_toList_text hid
      obtain rfl := (stripped_brackets_iff hfirst hlast).1 brackets
      exact ⟨name, host, n, blanks, short, isPort, rfl⟩
  · rintro ⟨name, host, n, blanks, short, isPort, rfl⟩
    exact .intro id ((stripped_brackets_iff hfirst hlast).2 rfl) blanks short hport isPort

end PeerAddress

def Advert.shortText (ad : Advert) : String := s!"{ad.peerId}@{ad.host}:{ad.port.toInt}"

namespace Advert

theorem toList_shortText (ad : Advert) : ad.shortText.toList =
    ad.peerId.toList ++ '@' :: ad.host.toList ++ ':' :: Text.decimalInt ad.port.toInt := by
  simp [shortText, toString, Text.toList_repr]

/-- The peer id stands in front and the port at the end: there is nothing to trim. -/
theorem trim_shortText (hid : ad.peerId = id.text) :
    Text.trim ad.shortText.toList = ad.shortText.toList := by
  rw [toList_shortText, hid]
  refine Text.trim_of_ends ?_ ?_
  · intro c hc
    obtain ⟨d, rest, hd⟩ := List.exists_cons_of_ne_nil id.toList_text_ne_nil
    have hblank := List.all_eq_true.1 id.isIdChar_text d (by rw [hd]; exact List.mem_cons_self)
    rw [hd] at hc
    cases hc
    simp only [isIdChar, Bool.not_eq_true', Bool.or_eq_false_iff] at hblank
    exact hblank.1.1
  · intro c hc
    rw [List.append_cons, List.getLast?_append_of_ne_nil _ (Text.decimalInt_ne_nil _)] at hc
    exact (Text.ne_of_mem_decimalInt (List.mem_of_getLast? hc)).1

theorem head_shortText (hid : ad.peerId = id.text) : ad.shortText.toList.head? ≠ some '/' := by
  obtain ⟨c, rest, hc⟩ := List.exists_cons_of_ne_nil id.toList_text_ne_nil
  have hne : '/' ≠ c := List.ne_of_not_mem_cons (hc ▸ id.notMem_text.1)
  rw [toList_shortText, hid, hc]
  simpa using hne.symm

/-- What an advert says is what its text says, unless a bracket stands at an end of the host. -/
theorem address_eq_ok_iff_parse (hid : ad.peerId = id.text) (hfirst : ad.host.toList.head? ≠ some '[')
    (hlast : ad.host.toList.getLast? ≠ some ']') :
    ad.address = .ok a ↔ PeerAddress.parse ad.shortText = .ok a := by
  have hport : ':' ∉ Text.decimalInt ad.port.toInt :=
    fun h => (Text.ne_of_mem_decimalInt h).2.1 rfl
  have hlong : ¬ PeerAddress.LongForm ad.shortText.toList a := fun h => head_shortText hid h.head
  rw [PeerAddress.parse_eq_ok_iff, trim_shortText hid, or_iff_right hlong, toList_shortText, hid,
    PeerAddress.shortForm_iff hfirst hlast hport, address_eq_ok_iff]
  simp only [PeerAddress.isPort_decimalInt_iff]
  constructor
  · rintro ⟨id', n, name, host, hid', hn, hname, hhost, hzero, rfl⟩
    obtain rfl := PeerId.eq_of_toList_text (congrArg String.toList (hid.symm.trans hid'))
    exact ⟨name, host, n, hname, hhost, ⟨hzero, hn⟩, rfl⟩
  · rintro ⟨name, host, n, hname, hhost, ⟨hzero, hn⟩, rfl⟩
    exact ⟨id, n, name, host, hid, hn, hname, hhost, hzero, rfl⟩

theorem id_of_address (hid : ad.peerId = id.text) (h : ad.address = .ok a) : a.id = id := by
  obtain ⟨id', n, name, host, hid', -, -, -, -, rfl⟩ := address_eq_ok_iff.1 h
  exact (PeerId.eq_of_toList_text (congrArg String.toList (hid.symm.trans hid'))).symm

end Advert

namespace Store
variable {st : Store} {now : Nat} {connected : Bool} {document : Option Document}

theorem entries_upsert : (st.upsert now a connected document).2.entries =
    assign a.id ⟨connected, document, a, st.probeTime a.id now⟩ st.entries := rfl

/-- Whoever has an entry is written into it. -/
theorem keys_upsert_of_mem (h : a.id ∈ keys st.entries) :
    keys (st.upsert now a connected document).2.entries = keys st.entries := by
  rw [entries_upsert, keys_assign, if_pos h]

theorem mem_keys_upsert : a.id ∈ keys (st.upsert now a connected document).2.entries := by
  rw [entries_upsert, mem_keys_assign]
  exact Or.inr rfl

theorem get?_upsert : (st.upsert now a connected document).2.get? a.id =
    some ⟨connected, document, a, st.probeTime a.id now⟩ := by
  rw [get?, entries_upsert, lookup_assign_self]

end Store

namespace Advert

/-- Has the peer been heard of under this address, by the advert or by its text? -/
def Learnt (ad : Advert) (a : PeerAddress) : Prop :=
  ad.address = .ok a ∨ PeerAddress.parse ad.shortText = .ok a

/-- An advert gives an address if and only if its text is one, and then both are the same address: the
text is the peer id, which is a valid one, the host, at whose ends no bracket stands, and the port,
whatever number it is. So a peer that is probed under the one and again under the other keeps its
place in the store, and its entry keeps its address. -/
theorem address_agrees_with_text (ad : Advert) (id : PeerId) (hid : PeerId.ofString ad.peerId = .ok id)
    (hfirst : ad.host.toList.head? ≠ some '[') (hlast : ad.host.toList.getLast? ≠ some ']') :
    (∀ a, ad.address = .ok a ↔ PeerAddress.parse ad.shortText = .ok a) ∧
    ∀ a b, ad.Learnt a → ad.Learnt b → ∀ (s : Store) (now now' : Nat) (connected connected' : Bool)
      (document document' : Option Document),
      let once := (s.upsert now a connected document).2
      let twice := (once.upsert now' b connected' document').2
      keys twice.entries = keys once.entries ∧
        ∃ t, twice.get? id = some ⟨connected', document', a, t⟩ := by
  have hagree (a : PeerAddress) : ad.address = .ok a ↔ PeerAddress.parse ad.shortText = .ok a :=
    address_eq_ok_iff_parse (PeerId.ofString_eq_ok_iff.1 hid) hfirst hlast
  refine ⟨hagree, fun a b ha hb s now now' connected connected' document document' => ?_⟩
  have haddress {a : PeerAddress} (h : ad.Learnt a) : ad.address = .ok a :=
    h.elim (fun h => h) (hagree a).2
  obtain rfl : a = b := Except.ok.inj ((haddress ha).symm.trans (haddress hb))
  obtain rfl := id_of_address (PeerId.ofString_eq_ok_iff.1 hid) (haddress ha)
  exact ⟨Store.keys_upsert_of_mem Store.mem_keys_upsert, _, Store.get?_upsert⟩

/-- The host is a version 6 address without brackets and with white space around it, and the port is
the last one. The peer is told of by the text first and then by the advert. -/
theorem address_agrees_with_text_bare :
    let ad : Advert := ⟨" 2001:DB8::1\t", "A", 65535⟩
    let id : PeerId := ⟨"A", by decide, by decide⟩
    let ip : Ipv6 := ⟨[0x2001, 0xdb8, 0, 0, 0, 0, 0, 1], by decide⟩
    let a : PeerAddress := ⟨id, [⟨.ip (.v6 ip), 65535⟩]⟩
    let once := ((Store.empty {}).upsert 1 a true none).2
    let twice := (once.upsert 2 a false none).2
    (PeerId.ofString ad.peerId = .ok id ∧ ad.host.toList.head? ≠ some '[' ∧
      ad.host.toList.getLast? ≠ some ']') ∧
    ad.address = .ok a ∧ PeerAddress.parse ad.shortText = .ok a ∧
      keys twice.entries = keys once.entries ∧ ∃ t, twice.get? id = some ⟨false, none, a, t⟩ := by
  intro ad id ip a once twice
  have hid : PeerId.ofString ad.peerId = .ok id := PeerId.ofString_eq_ok_iff.2 rfl
  have hfirst : ad.host.toList.head? ≠ some '[' := by decide
  have hlast : ad.host.toList.getLast? ≠ some ']' := by decide
  obtain ⟨hagree, hstore⟩ := address_agrees_with_text ad id hid hfirst hlast
  have haddress : ad.address = .ok a :=
    address_eq_ok_iff.2 ⟨id, 65535, "2001:DB8::1".toList, .ip (.v6 ip), rfl, by decide,
      Text.trim_eq_iff.1 (by decide), PeerAddress.shortHost_iff.2 ⟨by decide, rfl⟩, by decide, rfl⟩
  have htext := (hagree a).1 haddress
  exact ⟨⟨hid, hfirst, hlast⟩, haddress, htext,
    hstore a a (Or.inr htext) (Or.inl haddress) (.empty {}) 1 2 true false none none⟩

/-- A bracket is a part of the host in an advert, and not in a text. -/
example : (Advert.mk "[::1]" "A" 80).address.toOption.map (·.hosts) = some [⟨.dns "[::1]", 80⟩] ∧
    (PeerAddress.parse "A@[::1]:80").toOption.map (·.hosts) =
      some [⟨.ip (.v6 ⟨[0, 0, 0, 0, 0, 0, 0, 1], by decide⟩), 80⟩] := ⟨rfl, rfl⟩

end Advert
end PeerWatch
