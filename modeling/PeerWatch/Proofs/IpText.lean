import PeerWatch.Net.Ip
import PeerWatch.Proofs.Cut
import PeerWatch.Proofs.Decimal
import PeerWatch.Proofs.Utf8

/-! The texts of internet addresses. A version 4 address has one text only. A version 6 address has
many: a grammar tells them, the reader accepts those of the grammar and no others, and the text that
is written is one of them. -/
namespace PeerWatch
variable {c : Char} {p s t : List Char} {gs hs : List UInt16} {b : UInt8} {g : UInt16} {dots : Bool}

theorem Text.ne_of_isDigit {d : Nat} (hc : IsDigit 16 c d) : c ≠ '.' ∧ c ≠ ':' ∧ c ≠ '/' := by
  have hlower : ∀ e < 16, digitChar e ≠ '.' ∧ digitChar e ≠ ':' ∧ digitChar e ≠ '/' := by decide
  have hupper : ∀ e < 16, (digitChar e).toUpper ≠ '.' ∧ (digitChar e).toUpper ≠ ':' ∧
      (digitChar e).toUpper ≠ '/' := by decide
  rcases hc with ⟨hd, rfl | rfl⟩
  · exact hlower d hd
  · exact hupper d hd

/-- The digits of a number hold no separator. -/
theorem Text.Writes.notMem {n base : Nat} (h : Writes base s n) (hbase : base ≤ 16) :
    '.' ∉ s ∧ ':' ∉ s ∧ '/' ∉ s := by
  have hne {c : Char} (hc : c ∈ s) : c ≠ '.' ∧ c ≠ ':' ∧ c ≠ '/' := by
    obtain ⟨d, hd, hc⟩ := h.exists_of_mem hc
    exact ne_of_isDigit ⟨by omega, hc⟩
  exact ⟨fun h => (hne h).1 rfl, fun h => (hne h).2.1 rfl, fun h => (hne h).2.2 rfl⟩

theorem Text.Writes.ne_nil {n base : Nat} (h : Writes base s n) : s ≠ [] := by
  cases h <;> simp

def IsIpChar (c : Char) : Prop := (∃ d, Text.IsDigit 16 c d) ∨ c = '.' ∨ c = ':'

theorem IsIpChar.ne (h : IsIpChar c) : c ≠ '/' ∧ c ≠ '[' ∧ c ≠ ']' ∧ c ≠ '%' := by
  have hlower : ∀ e < 16, Text.digitChar e ≠ '/' ∧ Text.digitChar e ≠ '[' ∧
      Text.digitChar e ≠ ']' ∧ Text.digitChar e ≠ '%' := by decide
  have hupper : ∀ e < 16, (Text.digitChar e).toUpper ≠ '/' ∧ (Text.digitChar e).toUpper ≠ '[' ∧
      (Text.digitChar e).toUpper ≠ ']' ∧ (Text.digitChar e).toUpper ≠ '%' := by decide
  obtain ⟨d, hd, rfl | rfl⟩ | rfl | rfl := h
  · exact hlower d hd
  · exact hupper d hd
  · decide
  · decide

namespace Ipv4
variable {ip : Ipv4}

theorem byte?_eq_some_iff : byte? s = some b ↔ s = Text.decimal b.toNat := by
  have hb := b.toNat_lt
  unfold byte?
  constructor
  · intro h
    split_ifs at h with hs
    obtain ⟨n, hn, h⟩ := Option.bind_eq_some_iff.1 h
    split_ifs at h with hlt
    cases h
    rw [Utf8.toNat_toUInt8 hlt]
    exact ((Text.numberIn?_eq_some_iff (by decide)).1 hn).eq_decimal hs.2
  · rintro rfl
    have hlen : (Text.decimal b.toNat).length ≤ 3 := Text.length_digitsIn_le (by decide) (by omega)
    rw [if_pos ⟨hlen, Text.decimal_no_idle_zero _⟩, Text.number?_decimal, Option.bind_some,
      if_pos (by omega)]
    simp

theorem notMem_decimal (n : Nat) :
    '.' ∉ Text.decimal n ∧ ':' ∉ Text.decimal n ∧ '/' ∉ Text.decimal n :=
  (Text.writes_digitsIn (b := 8) (by decide) n).notMem (by decide)

theorem text_eq (ip : Ipv4) : ip.text = Text.decimal ip.a.toNat ++ '.' :: (Text.decimal ip.b.toNat ++
    '.' :: (Text.decimal ip.c.toNat ++ '.' :: Text.decimal ip.d.toNat)) := by
  simp [text, Text.join]

/-- A version 4 address has one text. -/
theorem parse?_eq_some_iff : parse? s = some ip ↔ s = ip.text := by
  have hpieces : Text.pieces '.' ip.text = [ip.a, ip.b, ip.c, ip.d].map fun b =>
      Text.decimal b.toNat := by
    refine Text.pieces_join ?_ (by simp)
    simp only [List.map_cons, List.map_nil, List.forall_mem_cons]
    exact ⟨(notMem_decimal _).1, (notMem_decimal _).1, (notMem_decimal _).1, (notMem_decimal _).1,
      List.forall_mem_nil _⟩
  constructor
  · intro h
    unfold parse? at h
    split at h
    · next a b c d hs =>
      simp only [Option.bind_eq_bind, Option.bind_eq_some_iff, Option.pure_def, Option.some_inj,
        byte?_eq_some_iff] at h
      obtain ⟨a, rfl, b, rfl, c, rfl, d, rfl, rfl⟩ := h
      exact ((Text.pieces_eq_iff (by simp)).1 hs).2
    · cases h
  · rintro rfl
    have hbyte (b : UInt8) : byte? (Text.decimal b.toNat) = some b := byte?_eq_some_iff.2 rfl
    rw [parse?, hpieces]
    simp [hbyte]

theorem parse?_text (ip : Ipv4) : parse? ip.text = some ip := parse?_eq_some_iff.2 rfl

theorem dot_mem_text (ip : Ipv4) : '.' ∈ ip.text := by
  rw [text_eq]
  simp

theorem notMem_text (ip : Ipv4) : ':' ∉ ip.text ∧ '/' ∉ ip.text := by
  have h := notMem_decimal
  rw [text_eq]
  simp [h]

theorem isIpChar_text (ip : Ipv4) : ∀ c ∈ ip.text, IsIpChar c := by
  have hdecimal (n : Nat) : ∀ c ∈ Text.decimal n, IsIpChar c := by
    intro c hc
    obtain ⟨d, hd, h⟩ := (Text.writes_digitsIn (b := 8) (by decide) n).exists_of_mem hc
    exact Or.inl ⟨d, by omega, h⟩
  have hdot : IsIpChar '.' := Or.inr (Or.inl rfl)
  rw [text_eq]
  simp only [List.forall_mem_append, List.forall_mem_cons]
  exact ⟨hdecimal _, hdot, hdecimal _, hdot, hdecimal _, hdot, hdecimal _⟩

end Ipv4

namespace Ipv6
variable {ip : Ipv6}

def IsGroup (s : List Char) (g : UInt16) : Prop := s.length ≤ 4 ∧ Text.Writes 16 s g.toNat

/-- Does the text write groups, with colons between them? If `dots` says so, the last two may be
written as a version 4 address. -/
inductive Groups (dots : Bool) : List Char → List UInt16 → Prop
  | group {s : List Char} {g : UInt16} (h : IsGroup s g) : Groups dots s [g]
  | dotted (ip : Ipv4) (h : dots = true) : Groups dots ip.text [pair ip.a ip.b, pair ip.c ip.d]
  | cons {s t : List Char} {g : UInt16} {gs : List UInt16} (h : IsGroup s g)
    (ht : Groups dots t gs) : Groups dots (s ++ ':' :: t) (g :: gs)

def Side (dots : Bool) (s : List Char) (gs : List UInt16) : Prop :=
  s = [] ∧ gs = [] ∨ Groups dots s gs

/-- Is the text one of the address? It writes eight groups, or fewer around two colons that stand for
one zero group or more. -/
inductive Writes : List Char → Ipv6 → Prop
  | whole {s : List Char} {ip : Ipv6} (h : Groups true s ip.groups) : Writes s ip
  | gap {s t : List Char} {gs hs : List UInt16} {ip : Ipv6} (n : Nat) (front : Side false s gs)
    (back : Side true t hs) (h : ip.groups = gs ++ List.replicate (n + 1) 0 ++ hs) :
    Writes (s ++ ':' :: ':' :: t) ip

theorem group?_eq_some_iff : group? s = some g ↔ IsGroup s g := by
  rw [group?, IsGroup]
  split_ifs with hs
  · rw [Option.map_eq_some_iff]
    constructor
    · rintro ⟨n, hn, rfl⟩
      have hw := (Text.numberIn?_eq_some_iff (by decide)).1 hn
      have hlt : n < 65536 := Nat.lt_of_lt_of_le hw.lt_pow (Nat.pow_le_pow_right (by decide) hs)
      have hmod : n.toUInt16.toNat = n := by simpa using Nat.mod_eq_of_lt hlt
      exact ⟨hs, by rwa [hmod]⟩
    · rintro ⟨-, hw⟩
      exact ⟨_, (Text.numberIn?_eq_some_iff (by decide)).2 hw, by simp⟩
  · simp [hs]

theorem IsGroup.notMem (h : IsGroup s g) : '.' ∉ s ∧ ':' ∉ s ∧ '/' ∉ s := h.2.notMem (by decide)

theorem IsGroup.parse?_eq_none (h : IsGroup s g) : Ipv4.parse? s = none := by
  cases hs : Ipv4.parse? s with
  | none => rfl
  | some ip => exact absurd (Ipv4.parse?_eq_some_iff.1 hs ▸ ip.dot_mem_text) h.notMem.1

theorem Groups.exists_cons (h : Groups dots s gs) : ∃ c t, s = c :: t ∧ c ≠ ':' := by
  have hcons {p : List Char} (hne : p ≠ []) (hp : ':' ∉ p) (t : List Char) :
      ∃ c u, p ++ t = c :: u ∧ c ≠ ':' := by
    obtain ⟨c, u, rfl⟩ := List.exists_cons_of_ne_nil hne
    exact ⟨c, u ++ t, rfl, (List.ne_of_not_mem_cons hp).symm⟩
  cases h with
  | group h => simpa using hcons h.2.ne_nil h.notMem.2.1 []
  | dotted ip h => simpa using hcons (List.ne_nil_of_mem ip.dot_mem_text) ip.notMem_text.1 []
  | cons h ht => exact hcons h.2.ne_nil h.notMem.2.1 _

/-- Groups are read piece by piece. -/
theorem Groups.groups?_pieces (h : Groups dots s gs) :
    groups? dots (Text.pieces ':' s) = some gs := by
  induction h with
  | @group s g h =>
    rw [Text.pieces_of_notMem h.notMem.2.1, groups?, h.parse?_eq_none, ite_self,
      group?_eq_some_iff.2 h]
    rfl
  | dotted ip h =>
    subst h
    rw [Text.pieces_of_notMem ip.notMem_text.1, groups?, if_pos rfl, ip.parse?_text]
  | @cons s t g gs h ht ih =>
    obtain ⟨p, ps, hp⟩ := List.exists_cons_of_ne_nil (Text.pieces_ne_nil ':' t)
    rw [Text.pieces_append, Text.pieces_of_notMem h.notMem.2.1, List.singleton_append, hp, groups?,
      ← hp, ih, group?_eq_some_iff.2 h]
    · rfl
    · exact List.cons_ne_nil _ _

theorem groups_of_groups? {ps : List (List Char)} (hne : ps ≠ []) (h : groups? dots ps = some gs) :
    Groups dots (Text.join [':'] ps) gs := by
  induction ps generalizing gs with
  | nil => exact absurd rfl hne
  | cons p ps ih =>
    cases ps with
    | nil =>
      rw [groups?] at h
      split at h
      · next ip hip =>
        split_ifs at hip with hdots
        cases h
        rw [Text.join, Ipv4.parse?_eq_some_iff.1 hip]
        exact .dotted ip hdots
      · obtain ⟨g, hg, rfl⟩ := Option.map_eq_some_iff.1 h
        exact .group (group?_eq_some_iff.1 hg)
    | cons q ps =>
      rw [groups?] at h
      · simp only [Option.bind_eq_bind, Option.bind_eq_some_iff, Option.pure_def,
          Option.some_inj] at h
        obtain ⟨g, hg, gs, hgs, rfl⟩ := h
        rw [Text.join]
        · simpa using Groups.cons (group?_eq_some_iff.1 hg) (ih (List.cons_ne_nil _ _) hgs)
        · exact List.cons_ne_nil _ _
      · exact List.cons_ne_nil _ _

theorem side?_eq_some_iff : side? dots s = some gs ↔ Side dots s gs := by
  rw [side?, Side]
  split_ifs with hs
  · obtain rfl := List.isEmpty_iff.1 hs
    constructor
    · rintro ⟨⟩
      exact Or.inl ⟨rfl, rfl⟩
    · rintro (⟨-, rfl⟩ | h)
      · rfl
      · obtain ⟨c, t, ht, -⟩ := h.exists_cons
        cases ht
  · constructor
    · intro h
      exact Or.inr (Text.join_pieces ':' s ▸ groups_of_groups? (Text.pieces_ne_nil _ _) h)
    · rintro (⟨rfl, -⟩ | h)
      · exact absurd rfl hs
      · exact h.groups?_pieces

theorem cutGap_append (hp : ':' ∉ p) (s : List Char) :
    cutGap (p ++ s) = (cutGap s).map fun (x, y) => (p ++ x, y) := by
  induction p with
  | nil => simp
  | cons c p ih =>
    rw [List.mem_cons, not_or] at hp
    rw [List.cons_append, cutGap, ih hp.2, Option.map_map]
    · rfl
    · rintro _ rfl
      exact absurd rfl hp.1

theorem cutGap_colon (hc : c ≠ ':') (s : List Char) :
    cutGap (':' :: c :: s) = (cutGap (c :: s)).map fun (x, y) => (':' :: x, y) := by
  rw [cutGap]
  rintro _ - he
  exact hc (List.cons.inj he).1

/-- There are no two colons inside groups or at their end. -/
theorem Groups.cutGap_append (h : Groups dots s gs) (r : List Char) :
    cutGap (s ++ r) = (cutGap r).map fun (x, y) => (s ++ x, y) := by
  induction h with
  | group h => exact Ipv6.cutGap_append h.notMem.2.1 r
  | dotted ip h => exact Ipv6.cutGap_append ip.notMem_text.1 r
  | @cons s t g gs h ht ih =>
    obtain ⟨c, u, rfl, hc⟩ := ht.exists_cons
    rw [List.append_assoc, Ipv6.cutGap_append h.notMem.2.1, List.cons_append, List.cons_append,
      cutGap_colon hc, ← List.cons_append, ih]
    simp [Function.comp_def]

theorem Side.cutGap (h : Side dots s gs) (t : List Char) :
    cutGap (s ++ ':' :: ':' :: t) = some (s, t) := by
  rcases h with ⟨rfl, -⟩ | h
  · rfl
  · rw [h.cutGap_append]
    simp [Ipv6.cutGap]

theorem eq_of_cutGap (h : cutGap s = some (p, t)) : s = p ++ ':' :: ':' :: t := by
  fun_induction cutGap s generalizing p with
  | case1 s =>
    cases h
    rfl
  | case2 => cases h
  | case3 c s hne ih =>
    obtain ⟨⟨p, t⟩, hs, he⟩ := Option.map_eq_some_iff.1 h
    cases he
    rw [ih hs]
    rfl

theorem ofGroups?_eq_some_iff : ofGroups? gs = some ip ↔ ip.groups = gs := by
  rw [ofGroups?]
  constructor
  · intro h
    split_ifs at h
    cases h
    rfl
  · rintro rfl
    rw [dif_pos ip.length_groups]

/-- What is read as a version 6 address is a text of it. -/
theorem parse?_eq_some_iff : parse? s = some ip ↔ Writes s ip := by
  constructor
  · intro h
    unfold parse? at h
    split at h
    · obtain ⟨gs, hs, hg⟩ := Option.bind_eq_some_iff.1 h
      rw [ofGroups?_eq_some_iff] at hg
      rcases side?_eq_some_iff.1 hs with ⟨-, rfl⟩ | hs
      · have hlen := ip.length_groups
        rw [hg] at hlen
        cases hlen
      · exact .whole (hg ▸ hs)
    · next p t hgap =>
      simp only [Option.bind_eq_bind, Option.bind_eq_some_iff, side?_eq_some_iff] at h
      obtain ⟨gs, hgs, hs, hhs, h⟩ := h
      split_ifs at h with hlen
      rw [ofGroups?_eq_some_iff] at h
      obtain ⟨n, hn⟩ : ∃ n, 8 - gs.length - hs.length = n + 1 := ⟨7 - gs.length - hs.length, by omega⟩
      rw [eq_of_cutGap hgap]
      exact .gap n hgs hhs (by rw [h, hn])
  · intro h
    cases h with
    | whole h =>
      have hgap := h.cutGap_append []
      rw [List.append_nil] at hgap
      rw [parse?, hgap, cutGap]
      simp only [Option.map_none, side?_eq_some_iff.2 (Or.inr h), Option.bind_some]
      exact ofGroups?_eq_some_iff.2 rfl
    | @gap s t gs hs _ n front back h =>
      have hlen := ip.length_groups
      simp only [h, List.length_append, List.length_replicate] at hlen
      have hn : 8 - gs.length - hs.length = n + 1 := by omega
      rw [parse?, front.cutGap]
      simp only [side?_eq_some_iff.2 front, side?_eq_some_iff.2 back, Option.bind_eq_bind,
        Option.bind_some, hn]
      rw [if_pos (by omega)]
      exact ofGroups?_eq_some_iff.2 h

theorem isGroup_hexadecimal (g : UInt16) : IsGroup (Text.hexadecimal g.toNat) g :=
  ⟨Text.length_digitsIn_le (by decide) g.toNat_lt, Text.writes_digitsIn (by decide) _⟩

theorem groups_groupsText (hne : gs ≠ []) : Groups dots (groupsText gs) gs := by
  induction gs with
  | nil => exact absurd rfl hne
  | cons g gs ih =>
    cases gs with
    | nil => exact .group (isGroup_hexadecimal g)
    | cons h gs =>
      have htext : groupsText (g :: h :: gs) =
          Text.hexadecimal g.toNat ++ ':' :: groupsText (h :: gs) := by
        simp [groupsText, Text.join]
      rw [htext]
      exact .cons (isGroup_hexadecimal g) (ih (List.cons_ne_nil _ _))

theorem side_groupsText (gs : List UInt16) : Side dots (groupsText gs) gs := by
  cases gs with
  | nil => exact Or.inl ⟨rfl, rfl⟩
  | cons g gs => exact Or.inr (groups_groupsText (List.cons_ne_nil _ _))

theorem leadingZeros_spec (gs : List UInt16) :
    gs = List.replicate (leadingZeros gs) 0 ++ gs.drop (leadingZeros gs) := by
  induction gs with
  | nil => rfl
  | cons g gs ih =>
    by_cases hg : g = 0
    · have hlen : leadingZeros (g :: gs) = leadingZeros gs + 1 := by simp [leadingZeros, hg]
      rw [hlen, List.replicate_succ, hg, List.drop_succ_cons, List.cons_append, ← ih]
    · have hlen : leadingZeros (g :: gs) = 0 := by simp [leadingZeros, hg]
      rw [hlen]
      rfl

/-- Where the longest run is, there are that many zero groups. -/
theorem longestRun_spec (gs : List UInt16) :
    gs = gs.take (longestRun gs).1 ++ List.replicate (longestRun gs).2 0 ++
      gs.drop ((longestRun gs).1 + (longestRun gs).2) := by
  induction gs with
  | nil => rfl
  | cons g gs ih =>
    rw [longestRun]
    revert ih
    obtain ⟨i, n⟩ := longestRun gs
    intro ih
    simp only
    split_ifs with hn
    · simpa using leadingZeros_spec (g :: gs)
    · have hdrop : i + 1 + n = i + n + 1 := by omega
      rw [List.take_succ_cons, hdrop, List.drop_succ_cons]
      exact congrArg (g :: ·) ih

theorem pair_div_mod (g : UInt16) : pair (g.toNat / 256).toUInt8 (g.toNat % 256).toUInt8 = g := by
  have hlt := g.toNat_lt
  rw [pair, Utf8.toNat_toUInt8 (by omega), Utf8.toNat_toUInt8 (by omega), Nat.div_add_mod]
  simp

theorem carried?_spec {inner : Ipv4} (h : ip.carried? = some inner) :
    ip.groups = List.replicate 5 0 ++ [0xFFFF, pair inner.a inner.b, pair inner.c inner.d] := by
  unfold carried? at h
  split at h
  · next hg =>
    cases h
    rw [hg, pair_div_mod, pair_div_mod]
    rfl
  · cases h

/-- The text that is written of an address is one of its texts. -/
theorem writes_text (ip : Ipv6) : Writes ip.text ip := by
  unfold text
  split
  · next inner hinner =>
    have hback : Groups true ("ffff:".toList ++ inner.text)
        [0xFFFF, pair inner.a inner.b, pair inner.c inner.d] :=
      .cons (s := "ffff".toList) ⟨by decide, (Text.numberIn?_eq_some_iff (by decide)).1 (by decide)⟩
        (.dotted inner rfl)
    exact .gap (s := []) 4 (Or.inl ⟨rfl, rfl⟩) (Or.inr hback) (carried?_spec hinner)
  · have hspec := longestRun_spec ip.groups
    revert hspec
    obtain ⟨i, n⟩ := longestRun ip.groups
    intro hspec
    simp only
    split_ifs with hn
    · obtain ⟨m, rfl⟩ : ∃ m, n = m + 1 := ⟨n - 1, by omega⟩
      rw [List.append_assoc]
      exact .gap m (side_groupsText _) (side_groupsText _) hspec
    · have hne : ip.groups ≠ [] := by
        intro h
        have hlen := ip.length_groups
        rw [h] at hlen
        cases hlen
      exact .whole (groups_groupsText hne)

theorem Groups.isIpChar (h : Groups dots s gs) : ∀ c ∈ s, IsIpChar c := by
  induction h with
  | group h => exact fun c hc => Or.inl (h.2.exists_of_mem hc)
  | dotted ip h => exact ip.isIpChar_text
  | cons h ht ih =>
    intro c hc
    rcases List.mem_append.1 hc with hc | hc
    · exact Or.inl (h.2.exists_of_mem hc)
    · rcases List.mem_cons.1 hc with rfl | hc
      · exact Or.inr (Or.inr rfl)
      · exact ih c hc

theorem Side.isIpChar (h : Side dots s gs) : ∀ c ∈ s, IsIpChar c := by
  rcases h with ⟨rfl, -⟩ | h
  · exact List.forall_mem_nil _
  · exact h.isIpChar

theorem Writes.isIpChar (h : Writes s ip) : ∀ c ∈ s, IsIpChar c := by
  cases h with
  | whole h => exact h.isIpChar
  | gap n front back h =>
    have hcolon : IsIpChar ':' := Or.inr (Or.inr rfl)
    simp only [List.forall_mem_append, List.forall_mem_cons]
    exact ⟨front.isIpChar, hcolon, hcolon, back.isIpChar⟩

theorem Groups.colon_mem (h : Groups dots s gs) (hlen : 2 < gs.length) : ':' ∈ s := by
  cases h with
  | group h => simp at hlen
  | dotted ip h => simp at hlen
  | cons h ht => simp

theorem Writes.colon_mem (h : Writes s ip) : ':' ∈ s := by
  cases h with
  | whole h => exact h.colon_mem (by rw [ip.length_groups]; decide)
  | gap n front back h => simp

end Ipv6

namespace Ip

inductive Writes : List Char → Ip → Prop
  | v4 (ip : Ipv4) : Writes ip.text (.v4 ip)
  | v6 {s : List Char} {ip : Ipv6} (h : Ipv6.Writes s ip) : Writes s (.v6 ip)

/-- What is read as an address is a text of it. -/
theorem parse?_eq_some_iff {ip : Ip} : parse? s = some ip ↔ Writes s ip := by
  constructor
  · intro h
    unfold parse? at h
    split at h
    · next ip hip =>
      cases h
      rw [Ipv4.parse?_eq_some_iff.1 hip]
      exact .v4 ip
    · obtain ⟨ip, hip, rfl⟩ := Option.map_eq_some_iff.1 h
      exact .v6 (Ipv6.parse?_eq_some_iff.1 hip)
  · intro h
    cases h with
    | v4 ip => rw [parse?, ip.parse?_text]
    | @v6 _ ip h =>
      have hv4 : Ipv4.parse? s = none := by
        cases hs : Ipv4.parse? s with
        | none => rfl
        | some ip =>
          have hcolon := h.colon_mem
          rw [Ipv4.parse?_eq_some_iff.1 hs] at hcolon
          exact absurd hcolon ip.notMem_text.1
      rw [parse?, hv4, Ipv6.parse?_eq_some_iff.2 h]
      rfl

theorem writes_text (ip : Ip) : Writes ip.text ip := by
  cases ip with
  | v4 ip => exact .v4 ip
  | v6 ip => exact .v6 ip.writes_text

theorem Writes.ne_nil {ip : Ip} (h : Writes s ip) : s ≠ [] := by
  cases h with
  | v4 ip => exact List.ne_nil_of_mem ip.dot_mem_text
  | v6 h => exact List.ne_nil_of_mem h.colon_mem

theorem Writes.notMem {ip : Ip} (h : Writes s ip) : '/' ∉ s := by
  cases h with
  | v4 ip => exact ip.notMem_text.2
  | v6 h => exact fun hmem => (h.isIpChar _ hmem).ne.1 rfl

end Ip
end PeerWatch
