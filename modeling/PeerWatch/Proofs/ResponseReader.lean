import Mathlib.Data.List.Basic
import PeerWatch.Stream.Script
import PeerWatch.Stream.Timeline

/-! The reader of responses against the message that a stream brings. Whatever bytes the reads give,
the reader holds those that have come so far, so that chunks do not matter: it ends where the message
ends, or when it holds more than is permitted. -/
namespace PeerWatch
variable {l : FetchLimits} {σ : Type} {F : Feed σ} {r : Reader l} {s : σ} {t : Timeline}
  {first : Option Nat} {idle ms n k : Nat} {stop : Stop}

namespace Beat
variable {b : Beat}

/-- Only a byte goes on with a message that is waited for in vain some time. -/
theorem stop?_some_eq_none : b.stop? (some ms) = none ↔ ∃ w x, b = .byte w x ∧ w ≤ ms := by
  cases b with
  | byte w x => simp [stop?, isWithin]
  | ended w =>
    simp only [stop?]
    split_ifs <;> simp
  | failed w reason =>
    simp only [stop?]
    split_ifs <;> simp
  | never => simp [stop?, isWithin]

theorem stop?_some_eq_ended : b.stop? (some ms) = some .ended ↔ ∃ w, b = .ended w ∧ w ≤ ms := by
  cases b with
  | ended w => by_cases hw : w ≤ ms <;> simp [stop?, isWithin, hw]
  | _ =>
    simp only [stop?]
    split_ifs <;> simp

theorem eq_failed_of_stop? {limit : Option Nat} (h : b.stop? limit = some .failed) :
    ∃ w reason, b = .failed w reason := by
  cases b with
  | failed w reason => exact ⟨w, reason, rfl⟩
  | _ =>
    simp only [stop?] at h
    split_ifs at h
    all_goals cases h

theorem stop?_of_late (h : b.isWithin ms = false) : b.stop? (some ms) = some .paused := by
  simp [stop?, h]

end Beat

namespace Timeline

@[simp] theorem drop_apply (t : Timeline) (n i : Nat) : t.drop n i = t (i + n) := rfl

theorem bytes_add (t : Timeline) (n k : Nat) : t.bytes (n + k) = t.bytes n ++ (t.drop n).bytes k := by
  rw [bytes, bytes, bytes, List.range_add, List.filterMap_append, List.filterMap_map]
  refine congrArg _ (List.filterMap_congr fun i _ => ?_)
  rw [Function.comp_apply, drop_apply, Nat.add_comm]

theorem Carries.byte {i : Nat} (h : t.Carries first idle n) (hi : i < n) :
    ∃ w b, t i = .byte w b ∧ (t i).stop? (limit first idle i) = none := by
  obtain ⟨hbyte, hstop⟩ := h i hi
  cases hb : t i with
  | byte w b => exact ⟨w, b, rfl, hb ▸ hstop⟩
  | _ =>
    rw [hb] at hbyte
    cases hbyte

theorem Carries.length_bytes (h : t.Carries first idle n) : (t.bytes n).length = n := by
  have hall : ∀ i ∈ List.range n, (fun i => ((t i).byte?).isSome) i = true := by
    intro i hi
    exact (h i (List.mem_range.1 hi)).1
  rw [bytes, List.length_filterMap_eq_countP, List.countP_eq_length.2 hall, List.length_range]

theorem Carries.mono (h : t.Carries first idle n) (hk : k ≤ n) : t.Carries first idle k :=
  fun i hi => h i (Nat.lt_of_lt_of_le hi hk)

/-- After the first beats of a message every beat has the same limit. -/
theorem Carries.drop (h : t.Carries first idle n) (hk : 0 < k) (hkn : k ≤ n) :
    (t.drop k).Carries (some idle) idle (n - k) := by
  intro i hi
  have hlimit : limit first idle (i + k) = limit (some idle) idle i := by
    simp only [limit, if_neg (show i + k ≠ 0 by omega), ite_self]
  rw [drop_apply, ← hlimit]
  exact h (i + k) (by omega)

theorem Ends.drop (h : t.Ends first idle n stop) (hk : 0 < k) (hkn : k ≤ n) :
    (t.drop k).Ends (some idle) idle (n - k) stop := by
  refine ⟨h.1.drop hk hkn, ?_⟩
  have hlimit : limit first idle n = limit (some idle) idle (n - k) := by
    simp only [limit, if_neg (show n ≠ 0 by omega), ite_self]
  rw [drop_apply, Nat.sub_add_cancel hkn, ← hlimit]
  exact h.2

theorem stop?_of_ends (h : t.Ends (some ms) idle n stop) : ∃ ms', (t n).stop? (some ms') = some stop ∧
    (n = 0 → ms' = ms) := by
  refine ⟨if n = 0 then ms else idle, ?_, fun hn => if_pos hn⟩
  have hstop := h.2
  unfold limit at hstop
  split_ifs at hstop ⊢ <;> exact hstop

/-- A read does not go beyond the end of a message. -/
theorem Ends.le_of_carries (h : t.Ends (some ms) idle n stop) (hfirst : (t 0).isWithin ms = true)
    (hk : t.Carries none 0 k) : k ≤ n := by
  by_contra hlt
  obtain ⟨w, b, hb, hstop⟩ := hk.byte (show n < k by omega)
  obtain ⟨ms', hms', hzero⟩ := stop?_of_ends h
  have hnone : (t n).stop? (some ms') = none := by
    rw [hb] at hstop ⊢
    refine Beat.stop?_some_eq_none.2 ⟨w, b, rfl, ?_⟩
    by_cases hn : n = 0
    · subst hn
      rw [hb] at hfirst
      rw [hzero rfl]
      simpa [Beat.isWithin] using hfirst
    · have hw : w ≤ 0 := by
        simpa [Beat.stop?, limit, hn, Beat.isWithin] using hstop
      omega
  rw [hnone] at hms'
  cases hms'

/-- Every message ends or goes on for ever. -/
theorem ends_or_carries (t : Timeline) (ms idle : Nat) :
    (∃ n stop, t.Ends (some ms) idle n stop) ∨ ∀ n, t.Carries (some ms) idle n := by
  by_cases hall : ∀ n, t.Carries (some ms) idle n
  · exact Or.inr hall
  · refine Or.inl ?_
    obtain ⟨m, hm⟩ := not_forall.1 hall
    induction m with
    | zero => exact absurd nofun hm
    | succ m ih =>
      by_cases hc : t.Carries (some ms) idle m
      · cases hstop : (t m).stop? (limit (some ms) idle m) with
        | some stop => exact ⟨m, stop, hc, hstop⟩
        | none =>
          refine absurd (fun i hi => ?_) hm
          rcases Nat.lt_succ_iff_lt_or_eq.1 hi with hi | rfl
          · exact hc i hi
          · have hlimit : ∃ ms', limit (some ms) idle i = some ms' := by
              unfold limit
              split_ifs <;> exact ⟨_, rfl⟩
            obtain ⟨ms', hms'⟩ := hlimit
            obtain ⟨w, b, hb, -⟩ := Beat.stop?_some_eq_none.1 (hms' ▸ hstop)
            exact ⟨by rw [hb]; rfl, hstop⟩
      · exact ih hc

theorem Ends.not_carries (h : t.Ends first idle n stop) : ¬ t.Carries first idle (n + 1) := by
  intro hc
  have hstop := (hc n n.lt_succ_self).2
  rw [h.2] at hstop
  cases hstop

/-- A message has one end. -/
theorem Ends.unique {n' : Nat} {stop' : Stop} (h : t.Ends first idle n stop)
    (h' : t.Ends first idle n' stop') : n = n' ∧ stop = stop' := by
  have hn : n = n' := by
    rcases Nat.lt_trichotomy n n' with hlt | heq | hlt
    · exact absurd (h'.1.mono hlt) h.not_carries
    · exact heq
    · exact absurd (h.1.mono hlt) h'.not_carries
  subst hn
  exact ⟨rfl, Option.some.inj (h.2.symm.trans h'.2)⟩

/-- If something comes in time, it is the same whether it would have been waited for longer. -/
theorem StartsBy.stop?_eq (h : t.StartsBy ms) (i : Nat) :
    (t i).stop? (limit none idle i) = (t i).stop? (limit (some ms) idle i) := by
  by_cases hi : i = 0
  · subst hi
    obtain ⟨w, hw, hb | ⟨b, hb⟩⟩ := h <;> simp [hb, limit, Beat.stop?, Beat.isWithin, hw]
  · simp [limit, hi]

theorem StartsBy.carries_iff (h : t.StartsBy ms) :
    t.Carries none idle n ↔ t.Carries (some ms) idle n := by
  simp only [Carries, h.stop?_eq]

theorem StartsBy.ends_iff (h : t.StartsBy ms) :
    t.Ends none idle n stop ↔ t.Ends (some ms) idle n stop := by
  rw [Ends, Ends, h.carries_iff, h.stop?_eq]

theorem Carries.startsBy (h : t.Carries (some ms) idle n) (hn : 0 < n) : t.StartsBy ms := by
  obtain ⟨w, b, hb, hw⟩ := Beat.stop?_some_eq_none.1 (h 0 hn).2
  exact ⟨w, hw, Or.inr ⟨b, hb⟩⟩

theorem startsBy_of_stop? (h : (t 0).stop? (some ms) = some .ended) : t.StartsBy ms := by
  obtain ⟨w, hb, hw⟩ := Beat.stop?_some_eq_ended.1 h
  exact ⟨w, hw, Or.inl hb⟩

theorem StartsBy.stop?_ne_paused (h : t.StartsBy ms) : (t 0).stop? (some ms) ≠ some .paused := by
  obtain ⟨w, hw, hb | ⟨b, hb⟩⟩ := h <;> simp [hb, Beat.stop?, Beat.isWithin, hw]

end Timeline

namespace Reader

def held (r : Reader l) : Array UInt8 := r.kept ++ r.chunk

theorem size_held (r : Reader l) : r.held.size = r.size := Array.size_append

theorem room_pos (r : Reader l) : 0 < r.room := Nat.sub_pos_of_lt r.chunk_lt

def finish (r : Reader l) : Progress l :=
  if r.size ≤ l.maxBytes then .done r.held else .failed (.tooLong l.maxBytes)

theorem endChunk_chunk (r : Reader l) : r.endChunk r.chunk = r.finish := by
  have hsize : r.size = r.kept.size + r.chunk.size := rfl
  unfold endChunk finish
  by_cases hle : r.kept.size + r.chunk.size ≤ l.maxBytes
  · rw [dif_pos hle, if_pos r.chunk_lt, if_pos (hsize ▸ hle)]
    rfl
  · rw [dif_neg hle, if_neg (hsize ▸ hle)]

theorem step_ended (r : Reader l) : r.step (.bytes []) = r.finish := by
  simp only [step, List.take_nil]
  exact r.endChunk_chunk

theorem step_quiet (h : 0 < r.size) : r.step .quiet = r.finish := by
  simp only [step]
  split_ifs with hchunk hkept
  · simp_all [size]
  · have hheld : r.held = r.kept := by
      rw [held, Array.isEmpty_iff.1 hchunk, Array.append_empty]
    have hle : r.size ≤ l.maxBytes := by
      rw [← size_held, hheld]
      exact r.kept_le
    rw [finish, if_pos hle, hheld]
  · exact r.endChunk_chunk

/-- A reader that takes bytes holds them, unless it has taken too many. -/
theorem step_bytes {got : List UInt8} (hpos : 0 < got.length) (hroom : got.length ≤ r.room) :
    (r.step (.bytes got) = .failed (.tooLong l.maxBytes) ∧ l.maxBytes < r.size + got.length) ∨
      ∃ r' : Reader l, r.step (.bytes got) = .more r' ∧ r'.held = r.held ++ got.toArray := by
  have htake : got.take r.room = got := List.take_of_length_le hroom
  have hfill : r.step (.bytes got) = r.fill (r.chunk ++ got.toArray) := by
    simp only [step, htake]
    cases got with
    | nil => cases hpos
    | cons b got => rfl
  rw [hfill, fill]
  split_ifs with hlt
  · exact Or.inr ⟨_, rfl, by simp [held, Array.append_assoc]⟩
  · unfold endChunk
    split_ifs with hle
    · exact Or.inr ⟨_, rfl, by simp [held, Array.append_assoc]⟩
    · refine Or.inl ⟨rfl, ?_⟩
      simp only [Array.size_append, List.size_toArray, size] at hle ⊢
      omega

/-- A reader goes on with what it makes of the next arrival. -/
theorem readAll_eq (read : σ → Nat → Nat → Arrival × σ) (r : Reader l) (s : σ) :
    (r.readAll read s).1 = match r.step (read s r.room r.patience).1 with
      | .more r' => (r'.readAll read (read s r.room r.patience).2).1
      | .done data => .ok data
      | .failed fault => .error fault := by
  rw [readAll]
  split
  split <;> simp_all

def settled (l : FetchLimits) (data : Array UInt8) : Except ReadFault (Array UInt8) :=
  if data.size ≤ l.maxBytes then .ok data else .error (.tooLong l.maxBytes)

theorem readAll_of_finish (h : r.step (F.read s r.room r.patience).1 = r.finish) :
    (r.readAll F.read s).1 = settled l r.held := by
  rw [readAll_eq, h, finish, settled, size_held]
  split_ifs <;> rfl

theorem patience_of_pos (h : 0 < r.size) : r.patience = l.idleMs := if_neg (Nat.ne_of_gt h)

/-- While bytes come in time, the reader takes some of them, and then goes on with those that come
after them, unless it has taken too many. -/
theorem exists_readAll (h : (F.timeline s).Carries (some r.patience) idle 1) :
    ∃ k, 0 < k ∧ (F.timeline s).Carries none 0 k ∧
      (((r.readAll F.read s).1 = .error (.tooLong l.maxBytes) ∧ l.maxBytes < r.size + k) ∨
        ∃ (r' : Reader l) (s' : σ), F.timeline s' = (F.timeline s).drop k ∧
          r'.held = r.held ++ ((F.timeline s).bytes k).toArray ∧ r'.size = r.size + k ∧
          (r.readAll F.read s).1 = (r'.readAll F.read s').1) := by
  obtain ⟨w, b, hb, hstop⟩ := h.byte Nat.one_pos
  obtain ⟨_, _, hb', hw⟩ := Beat.stop?_some_eq_none.1 hstop
  have hd := F.delivers s r.room r.patience r.room_pos
  have heq := readAll_eq F.read r s
  generalize F.read s r.room r.patience = x at hd heq
  obtain ⟨a, s'⟩ := x
  generalize ht : F.timeline s' = t at hd
  cases hd with
  | @bytes k hpos hfits hwithin htogether =>
    have hlen := htogether.length_bytes
    refine ⟨k, hpos, htogether, ?_⟩
    rcases step_bytes (hlen.symm ▸ hpos) (hlen.symm ▸ hfits) with ⟨hstep, hlt⟩ | ⟨r', hstep, hheld⟩
    · rw [hstep] at heq
      exact Or.inl ⟨heq, hlen ▸ hlt⟩
    · rw [hstep] at heq
      refine Or.inr ⟨r', s', ht, hheld, ?_, heq⟩
      rw [← size_held, hheld, Array.size_append, size_held, List.size_toArray, hlen]
  | ended hbeat _ =>
    rw [hb] at hbeat
    cases hbeat
  | failed hbeat _ =>
    rw [hb] at hbeat
    cases hbeat
  | quiet hlate =>
    rw [hb'] at hlate
    simp [Beat.isWithin, hw] at hlate

/-- What the reader makes of a message that ends at once. -/
theorem readAll_of_stop (h : (F.timeline s 0).stop? (some r.patience) = some stop) :
    (stop = .failed → ∃ fault, (r.readAll F.read s).1 = .error fault) ∧
      (stop = .ended → (r.readAll F.read s).1 = settled l r.held) ∧
      (stop = .paused → (r.readAll F.read s).1 =
        if r.size = 0 then .error (.silent l.readMs) else settled l r.held) := by
  have hd := F.delivers s r.room r.patience r.room_pos
  have heq := readAll_eq F.read r s
  have hfinish := readAll_of_finish (F := F) (r := r) (s := s)
  generalize F.read s r.room r.patience = x at hd heq hfinish
  obtain ⟨a, s'⟩ := x
  generalize F.timeline s' = t at hd
  cases hd with
  | bytes hpos _ hwithin htogether =>
    obtain ⟨w, b, hb, -⟩ := htogether.byte hpos
    rw [hb] at h hwithin
    simp [Beat.stop?, hwithin] at h
  | @ended w _ hbeat hw =>
    rw [hbeat] at h
    simp only [Beat.stop?, Beat.isWithin, Option.any_some, hw, decide_true, Bool.not_true,
      Bool.false_eq_true, if_false, Option.some.injEq] at h
    subst h
    exact ⟨nofun, fun _ => hfinish r.step_ended, nofun⟩
  | @failed w reason _ hbeat hw =>
    rw [hbeat] at h
    simp only [Beat.stop?, Beat.isWithin, Option.any_some, hw, decide_true, Bool.not_true,
      Bool.false_eq_true, if_false, Option.some.injEq] at h
    subst h
    exact ⟨fun _ => ⟨_, heq⟩, nofun, nofun⟩
  | quiet hlate =>
    rw [Beat.stop?_of_late hlate] at h
    cases h
    refine ⟨nofun, nofun, fun _ => ?_⟩
    split_ifs with hsize
    · have hstep : r.step .quiet = .failed (.silent l.readMs) := by
        simp only [size, Nat.add_eq_zero_iff, Array.size_eq_zero_iff] at hsize
        simp [step, hsize.1, hsize.2]
      rw [heq, hstep]
    · exact hfinish (step_quiet (Nat.pos_of_ne_zero hsize))

theorem settled_of_lt {data : Array UInt8} (h : l.maxBytes < data.size) :
    settled l data = .error (.tooLong l.maxBytes) := if_neg (Nat.not_le.2 h)

/-- What the reader makes of a message that ends, after those bytes that it holds. -/
theorem readAll_of_ends (h : (F.timeline s).Ends (some r.patience) l.idleMs n stop) :
    let data := r.held ++ ((F.timeline s).bytes n).toArray
    (stop = .failed → ∃ fault, (r.readAll F.read s).1 = .error fault) ∧
      (stop = .ended → (r.readAll F.read s).1 = settled l data) ∧
      (stop = .paused → (r.readAll F.read s).1 =
        if data.size = 0 then .error (.silent l.readMs) else settled l data) := by
  induction n using Nat.strongRecOn generalizing r s with
  | ind n ih =>
    intro data
    by_cases hn : n = 0
    · subst hn
      have hdata : data = r.held := by simp [data, Timeline.bytes]
      rw [hdata, size_held]
      exact readAll_of_stop h.2
    · have hone := h.1.mono (Nat.pos_of_ne_zero hn)
      obtain ⟨k, hpos, htogether, hk⟩ := exists_readAll hone
      have hwithin : (F.timeline s 0).isWithin r.patience = true := by
        obtain ⟨w, b, hb, hw⟩ := Beat.stop?_some_eq_none.1 (hone 0 Nat.one_pos).2
        simp [hb, Beat.isWithin, hw]
      have hkn := h.le_of_carries hwithin htogether
      have hbytes : (F.timeline s).bytes n =
          (F.timeline s).bytes k ++ ((F.timeline s).drop k).bytes (n - k) := by
        rw [← Timeline.bytes_add, Nat.add_sub_cancel' hkn]
      have hsize : data.size = r.size + n := by
        rw [Array.size_append, size_held, List.size_toArray, h.1.length_bytes]
      have hne : data.size ≠ 0 := by omega
      rcases hk with ⟨hlong, hlt⟩ | ⟨r', s', hs', hheld, hsize', heq⟩
      · rw [hlong, if_neg hne, settled_of_lt (by omega)]
        exact ⟨fun _ => ⟨_, rfl⟩, fun _ => rfl, fun _ => rfl⟩
      · have hpatience : r'.patience = l.idleMs := patience_of_pos (by omega)
        have hends : (F.timeline s').Ends (some r'.patience) l.idleMs (n - k) stop := by
          rw [hs', hpatience]
          exact h.drop hpos hkn
        have hdata : r'.held ++ ((F.timeline s').bytes (n - k)).toArray = data := by
          simp [data, hheld, hs', hbytes, Array.append_assoc]
        have hrest := ih (n - k) (by omega) hends
        rwa [hdata, ← heq] at hrest

/-- What the reader makes of a message without end. -/
theorem readAll_of_endless (h : ∀ n, (F.timeline s).Carries (some r.patience) l.idleMs n) :
    (r.readAll F.read s).1 = .error (.tooLong l.maxBytes) := by
  generalize hm : l.maxBytes + l.chunk - r.size = m
  induction m using Nat.strongRecOn generalizing r s with
  | ind m ih =>
    obtain ⟨k, hpos, -, hk⟩ := exists_readAll (h 1)
    rcases hk with ⟨hlong, -⟩ | ⟨r', s', hs', -, hsize', heq⟩
    · exact hlong
    · have hpatience : r'.patience = l.idleMs := patience_of_pos (by omega)
      have hbound := r'.size_lt_bound
      rw [heq]
      refine ih _ ?_ (fun n => ?_) rfl
      · omega
      · have hrest := (h (n + k)).drop hpos (Nat.le_add_left k n)
        rw [Nat.add_sub_cancel] at hrest
        rw [hs', hpatience]
        exact hrest

/-- What the reader makes of a stream: of a message that ends, of one that does not begin in time, of
one that breaks off and of one without end. -/
theorem response_cases (F : Feed σ) (l : FetchLimits) (s : σ) :
    let t := F.timeline s
    let response := ((start l).readAll F.read s).1
    (∃ n stop, t.StartsBy l.readMs ∧ t.Ends (some l.readMs) l.idleMs n stop ∧ stop ≠ .failed ∧
      response = settled l (t.bytes n).toArray) ∨
    (¬ t.StartsBy l.readMs ∧ response = .error (.silent l.readMs)) ∨
    (∃ n fault, t.Ends (some l.readMs) l.idleMs n .failed ∧ response = .error fault) ∨
    (∀ n, t.Carries (some l.readMs) l.idleMs n) ∧ response = .error (.tooLong l.maxBytes) := by
  intro t response
  rcases t.ends_or_carries l.readMs l.idleMs with ⟨n, stop, hends⟩ | hcarries
  · obtain ⟨hfailed, hended, hpaused⟩ := readAll_of_ends (r := start l) (F := F) hends
    have hdata : (start l).held ++ (t.bytes n).toArray = (t.bytes n).toArray := by
      simp [held, start]
    rw [hdata] at hended hpaused
    cases stop with
    | failed =>
      obtain ⟨fault, hfault⟩ := hfailed rfl
      exact Or.inr (Or.inr (Or.inl ⟨n, fault, hends, hfault⟩))
    | ended =>
      refine Or.inl ⟨n, .ended, ?_, hends, by decide, hended rfl⟩
      rcases Nat.eq_zero_or_pos n with rfl | hn
      · exact Timeline.startsBy_of_stop? hends.2
      · exact hends.1.startsBy hn
    | paused =>
      have hpaused := hpaused rfl
      rw [List.size_toArray, hends.1.length_bytes] at hpaused
      rcases Nat.eq_zero_or_pos n with rfl | hn
      · exact Or.inr (Or.inl ⟨fun hstarts => hstarts.stop?_ne_paused hends.2, hpaused⟩)
      · rw [if_neg (Nat.ne_of_gt hn)] at hpaused
        exact Or.inl ⟨n, .paused, hends.1.startsBy hn, hends, by decide, hpaused⟩
  · exact Or.inr (Or.inr (Or.inr ⟨hcarries, readAll_of_endless hcarries⟩))

theorem settled_eq_ok {data m : Array UInt8} :
    settled l data = .ok m ↔ data.size ≤ l.maxBytes ∧ data = m := by
  unfold settled
  split_ifs with h <;> simp [h]

theorem settled_eq_error {data : Array UInt8} {fault : ReadFault} :
    settled l data = .error fault ↔ l.maxBytes < data.size ∧ .tooLong l.maxBytes = fault := by
  unfold settled
  split_ifs with h
  · simp [Nat.not_lt.2 h]
  · simp [Nat.lt_of_not_le h]

/-- A response is a message that begins in time, has ended and is not too long. -/
theorem response_eq_ok (F : Feed σ) (l : FetchLimits) (s : σ) (m : Array UInt8) :
    ((start l).readAll F.read s).1 = .ok m ↔
      (F.timeline s).StartsBy l.readMs ∧
      (∃ stop, stop ≠ .failed ∧ (F.timeline s).Ends none l.idleMs m.size stop) ∧
      m.size ≤ l.maxBytes ∧ m.toList = (F.timeline s).bytes m.size := by
  rcases response_cases F l s with ⟨n, stop, hstarts, hends, hstop, heq⟩ | ⟨hstarts, heq⟩ |
    ⟨n, fault, hends, heq⟩ | ⟨hcarries, heq⟩
  · simp only [heq, settled_eq_ok, List.size_toArray, hends.1.length_bytes, hstarts, true_and,
      hstarts.ends_iff]
    constructor
    · rintro ⟨hle, rfl⟩
      rw [List.size_toArray, hends.1.length_bytes]
      exact ⟨⟨stop, hstop, hends⟩, hle, rfl⟩
    · rintro ⟨⟨stop', -, hends'⟩, hle, hm⟩
      obtain ⟨rfl, -⟩ := hends.unique hends'
      exact ⟨hle, by rw [← hm]⟩
  · simp [heq, hstarts]
  · rw [heq]
    refine iff_of_false nofun ?_
    rintro ⟨hstarts, ⟨stop, hstop, hends'⟩, -⟩
    exact hstop (hends.unique (hstarts.ends_iff.1 hends')).2.symm
  · rw [heq]
    refine iff_of_false nofun ?_
    rintro ⟨hstarts, ⟨stop, -, hends⟩, -⟩
    exact hends.not_carries (hstarts.carries_iff.2 (hcarries _))

/-- Without failures of the stream, there is no response if nothing comes in time, or if the message
is too long. -/
theorem response_eq_error (F : Feed σ) (l : FetchLimits) (s : σ) (fault : ReadFault)
    (hsound : ∀ n w reason, F.timeline s n ≠ .failed w reason) :
    ((start l).readAll F.read s).1 = .error fault ↔
      (¬ (F.timeline s).StartsBy l.readMs ∧ fault = .silent l.readMs) ∨
      (F.timeline s).StartsBy l.readMs ∧
        (F.timeline s).Carries none l.idleMs (l.maxBytes + 1) ∧ fault = .tooLong l.maxBytes := by
  rcases response_cases F l s with ⟨n, stop, hstarts, hends, -, heq⟩ | ⟨hstarts, heq⟩ |
    ⟨n, fault, hends, -⟩ | ⟨hcarries, heq⟩
  · have hlong : l.maxBytes < n ↔ (F.timeline s).Carries none l.idleMs (l.maxBytes + 1) := by
      rw [hstarts.carries_iff]
      refine ⟨fun hlt => hends.1.mono hlt, fun hc => ?_⟩
      by_contra hle
      exact hends.not_carries (hc.mono (by omega))
    rw [heq, settled_eq_error, List.size_toArray, hends.1.length_bytes, hlong]
    simp [hstarts, eq_comm]
  · simp [heq, hstarts, eq_comm]
  · obtain ⟨w, reason, hb⟩ := Beat.eq_failed_of_stop? hends.2
    exact absurd hb (hsound n w reason)
  · have hstarts := (hcarries 1).startsBy Nat.one_pos
    simp [heq, hstarts, hstarts.carries_iff, hcarries, eq_comm]

end Reader

namespace Segment
variable {wait : Nat} {bs : List UInt8} {script : List Segment}

/-- A wait delays whatever comes next. -/
theorem isWithin_beats (script : List Segment) (h : ms < wait) :
    (beats wait script 0).isWithin ms = false := by
  induction script generalizing wait with
  | nil => simpa [beats, Beat.isWithin] using h
  | cons x script ih =>
    cases x with
    | bytes bs => cases bs <;> simpa [beats, Beat.isWithin] using h
    | wait ms' => exact ih (Nat.lt_add_right ms' h)
    | fail reason => simpa [beats, Beat.isWithin] using h
    | hang => rfl

theorem beats_bytes (hn : n < bs.length) :
    beats wait (.bytes bs :: script) n = .byte (if n = 0 then wait else 0) bs[n] := by
  have hne : bs.isEmpty = false := by
    cases bs with
    | nil => cases hn
    | cons b bs => rfl
  simp [beats, hne, List.getElem?_eq_getElem hn]

theorem bytes_beats (wait : Nat) (script : List Segment) (hn : n ≤ bs.length) :
    Timeline.bytes (beats wait (.bytes bs :: script)) n = bs.take n := by
  induction n with
  | zero => rfl
  | succ n ih =>
    rw [Timeline.bytes_add, ih (Nat.le_of_lt hn), List.take_add_one, List.getElem?_eq_getElem hn]
    simp [Timeline.bytes, List.range_succ, beats_bytes hn, Beat.byte?]

theorem carries_beats (hn : n ≤ bs.length) :
    Timeline.Carries (beats wait (.bytes bs :: script)) none 0 n := by
  intro i hi
  rw [beats_bytes (Nat.lt_of_lt_of_le hi hn)]
  refine ⟨rfl, ?_⟩
  by_cases hzero : i = 0 <;> simp [hzero, Beat.stop?, Timeline.limit, Beat.isWithin]

/-- What a read leaves is what comes after the bytes that it took. -/
theorem drop_beats (wait : Nat) (script : List Segment) (hpos : 0 < n) (hn : n ≤ bs.length) :
    Timeline.drop (beats wait (.bytes bs :: script)) n = beats 0 (putBack (bs.drop n) script) := by
  have hne : bs.isEmpty = false := by
    cases bs with
    | nil => exact absurd hn (Nat.not_le.2 hpos)
    | cons b bs => rfl
  funext i
  rw [Timeline.drop_apply]
  unfold putBack
  split_ifs with hempty
  · have hlen : bs.length = n := by
      have := List.drop_eq_nil_iff.1 (List.isEmpty_iff.1 hempty)
      omega
    simp [beats, hne, ← hlen]
  · simp only [beats, hne, hempty, Bool.false_eq_true, if_false, List.getElem?_drop, ite_self,
      Nat.add_comm n i, if_neg (show i + n ≠ 0 by omega), List.length_drop]
    rw [show i + n - bs.length = i - (bs.length - n) by omega]

/-- Without failed reads in the script, nothing fails. -/
theorem beats_ne_failed (h : ∀ x ∈ script, ∀ reason, x ≠ .fail reason) (i w : Nat)
    (reason : String) : beats wait script i ≠ .failed w reason := by
  induction script generalizing wait i with
  | nil => exact nofun
  | cons x script ih =>
    obtain ⟨hx, hscript⟩ := List.forall_mem_cons.1 h
    cases x with
    | bytes bs =>
      simp only [beats]
      split
      · exact nofun
      · split
        · exact nofun
        · exact ih hscript _
    | wait ms => exact ih hscript i
    | fail reason' => exact absurd rfl (hx reason')
    | hang => exact nofun

end Segment

namespace Playback

/-- A scripted stream delivers what its script brings. -/
theorem delivers_readBy (p : Playback) (script : List Segment) (wait room rest : Nat)
    (hroom : 0 < room) :
    let x := p.readBy room (p.now + rest) script
    Timeline.Delivers (Segment.beats wait script) room (wait + rest) x.1
      (Segment.beats 0 x.2.script) := by
  induction script generalizing p wait rest with
  | nil => exact .ended (w := wait) rfl (Nat.le_add_right _ _)
  | cons x script ih =>
    cases x with
    | fail reason => exact .failed (w := wait) rfl (Nat.le_add_right _ _)
    | hang => exact .quiet rfl
    | bytes bs =>
      cases hbs : bs with
      | nil =>
        have hbeat : Segment.beats wait (.bytes [] :: script) 0 = .ended wait := rfl
        simp only [readBy, List.take_nil]
        exact .ended hbeat (Nat.le_add_right _ _)
      | cons b bs' =>
        rw [← hbs]
        have hpos : 0 < min room bs.length := by
          rw [hbs]
          exact Nat.lt_min.2 ⟨hroom, Nat.succ_pos _⟩
        have hle : min room bs.length ≤ bs.length := Nat.min_le_right _ _
        have htake : bs.take room = bs.take (min room bs.length) := by
          rw [List.take_eq_take_iff]
          simp
        have hdrop : bs.drop room = bs.drop (min room bs.length) := by
          rcases Nat.le_total room bs.length with h | h
          · rw [Nat.min_eq_left h]
          · rw [Nat.min_eq_right h, List.drop_of_length_le h, List.drop_length]
        simp only [readBy, htake, hdrop, ← Segment.drop_beats wait script hpos hle]
        rw [← Segment.bytes_beats wait script hle]
        refine .bytes hpos (Nat.min_le_left _ _) ?_ (Segment.carries_beats hle)
        rw [Segment.beats_bytes (Nat.lt_of_lt_of_le hpos hle)]
        simp [Beat.isWithin]
    | wait ms =>
      simp only [readBy]
      split_ifs with hms
      · have hrest := ih { p with now := p.now + ms } (wait + ms) (rest - ms)
        have hnow : p.now + ms + (rest - ms) = p.now + rest := by omega
        have hwait : wait + ms + (rest - ms) = wait + rest := by omega
        rw [hwait] at hrest
        simp only [hnow] at hrest
        exact hrest
      · exact .quiet (Segment.isWithin_beats script (by omega))

def feed : Feed Playback where
  read := read
  timeline p := Segment.beats 0 p.script
  delivers p room ms hroom := by
    have h := p.delivers_readBy p.script 0 room ms hroom
    rwa [Nat.zero_add] at h

end Playback

def Feed.response (F : Feed σ) (l : FetchLimits) (peer : PeerId) (s : σ) :
    Except ProbeError (Array UInt8) :=
  ((Reader.start l).readAll F.read s).1.mapError (ReadFault.toProbeError peer)

theorem Feed.response_eq_ok {peer : PeerId} {m : Array UInt8} :
    F.response l peer s = .ok m ↔ ((Reader.start l).readAll F.read s).1 = .ok m := by
  unfold response
  cases ((Reader.start l).readAll F.read s).1 <;> simp [Except.mapError]

theorem Feed.response_eq_error {peer : PeerId} {e : ProbeError} :
    F.response l peer s = .error e ↔
      ∃ fault, ((Reader.start l).readAll F.read s).1 = .error fault ∧
        fault.toProbeError peer = e := by
  unfold response
  cases ((Reader.start l).readAll F.read s).1 <;> simp [Except.mapError]

/-- The response that is read off a stream is its message, if it begins in time, ends otherwise than
by a failure and is not longer than is permitted. If the stream does not fail, a message that begins
in time and is too long is refused, and nothing is read if nothing comes in time. So it depends
neither on the size of the chunks nor on how the bytes are shared out among the reads. -/
theorem Feed.response_is_message (F : Feed σ) (l : FetchLimits) (peer : PeerId) (s : σ) :
    let t := F.timeline s
    let isMessage (m : Array UInt8) (stop : Stop) : Prop :=
      t.Ends none l.idleMs m.size stop ∧ m.toList = t.bytes m.size
    (∀ m, F.response l peer s = .ok m ↔ t.StartsBy l.readMs ∧
      (isMessage m .ended ∨ isMessage m .paused) ∧ m.size ≤ l.maxBytes) ∧
    ((∀ n w reason, t n ≠ .failed w reason) →
      (F.response l peer s = .error (.sizeExceeded peer l.maxBytes) ↔
        t.StartsBy l.readMs ∧ t.Carries none l.idleMs (l.maxBytes + 1)) ∧
      ((∃ reason, F.response l peer s = .error (.read peer reason)) ↔ ¬ t.StartsBy l.readMs)) ∧
    ∀ (τ : Type) (G : Feed τ) (u : τ) (chunkSize : Nat), G.timeline u = t →
      ∀ m, G.response { l with chunkSize } peer u = .ok m ↔ F.response l peer s = .ok m := by
  intro t isMessage
  refine ⟨fun m => ?_, fun hsound => ⟨?_, ?_⟩, fun τ G u chunkSize ht m => ?_⟩
  · rw [response_eq_ok, Reader.response_eq_ok]
    refine and_congr_right fun _ => ?_
    have hstop : (∃ stop, stop ≠ .failed ∧ t.Ends none l.idleMs m.size stop) ↔
        t.Ends none l.idleMs m.size .ended ∨ t.Ends none l.idleMs m.size .paused := by
      constructor
      · rintro ⟨stop, hstop, hends⟩
        cases stop with
        | ended => exact Or.inl hends
        | paused => exact Or.inr hends
        | failed => exact absurd rfl hstop
      · rintro (hends | hends)
        · exact ⟨.ended, nofun, hends⟩
        · exact ⟨.paused, nofun, hends⟩
    rw [hstop, ← or_and_right]
    exact ⟨fun ⟨hends, hle, hm⟩ => ⟨⟨hends, hm⟩, hle⟩, fun ⟨⟨hends, hm⟩, hle⟩ => ⟨hends, hle, hm⟩⟩
  · simp only [response_eq_error, Reader.response_eq_error F l s _ hsound]
    constructor
    · rintro ⟨_, ⟨-, rfl⟩ | ⟨hstarts, hcarries, rfl⟩, he⟩
      · cases he
      · exact ⟨hstarts, hcarries⟩
    · rintro ⟨hstarts, hcarries⟩
      exact ⟨_, Or.inr ⟨hstarts, hcarries, rfl⟩, rfl⟩
  · simp only [response_eq_error, Reader.response_eq_error F l s _ hsound]
    constructor
    · rintro ⟨reason, _, ⟨hstarts, -⟩ | ⟨-, -, rfl⟩, he⟩
      · exact hstarts
      · cases he
    · intro hstarts
      exact ⟨_, _, Or.inl ⟨hstarts, rfl⟩, rfl⟩
  · rw [response_eq_ok, response_eq_ok, Reader.response_eq_ok, Reader.response_eq_ok, ht]

/-- A message of exactly the permitted length, and of three chunks: the first byte comes at the last
moment, and the last one before a pause. -/
theorem Feed.response_is_message_three_chunks :
    let peer : PeerId := ⟨"P", by decide, by decide⟩
    let script : List Segment := [.wait 10, .bytes [1], .wait 3, .bytes [2, 3, 4, 5], .wait 5,
      .bytes [6], .wait 6, .bytes [7]]
    let l : FetchLimits := { chunkSize := 2, maxBytes := 6, readMs := 10, idleMs := 5 }
    let s := Playback.start script 0
    (∀ n w reason, Playback.feed.timeline s n ≠ .failed w reason) ∧
      Playback.feed.response l peer s = .ok #[1, 2, 3, 4, 5, 6] ∧
      Playback.feed.response l peer s ≠ .error (.sizeExceeded peer 6) ∧
      Playback.feed.response { l with chunkSize := 0 } peer s = .ok #[1, 2, 3, 4, 5, 6] := by
  intro peer script l s
  have hsound (n w : Nat) (reason : String) : Playback.feed.timeline s n ≠ .failed w reason :=
    Segment.beats_ne_failed (by simp [s, script, Playback.start]) n w reason
  obtain ⟨hok, hfails, hsplit⟩ := Feed.response_is_message Playback.feed l peer s
  have hmessage : Playback.feed.response l peer s = .ok #[1, 2, 3, 4, 5, 6] := by
    refine (hok _).2 ⟨⟨10, by decide, Or.inr ⟨1, rfl⟩⟩, Or.inr ⟨?_, rfl⟩, by decide⟩
    decide
  refine ⟨hsound, hmessage, ?_, (hsplit _ _ s 0 rfl _).2 hmessage⟩
  intro hlong
  exact absurd ((hfails hsound).1.1 hlong).2 (by decide)

/-- A message that does not begin in time counts as none at all, however long it is. -/
theorem Feed.late_message_is_silent :
    let peer : PeerId := ⟨"P", by decide, by decide⟩
    let l : FetchLimits := { maxBytes := 0, readMs := 10 }
    let s := Playback.start [.wait 20, .bytes [97]] 0
    let t := Playback.feed.timeline s
    (∀ n w reason, t n ≠ .failed w reason) ∧ t.Carries none l.idleMs (l.maxBytes + 1) ∧
      (∃ reason, Playback.feed.response l peer s = .error (.read peer reason)) ∧
      Playback.feed.response l peer s ≠ .error (.sizeExceeded peer l.maxBytes) := by
  intro peer l s t
  have hsound (n w : Nat) (reason : String) : t n ≠ .failed w reason :=
    Segment.beats_ne_failed (by simp [s, Playback.start]) n w reason
  have hlate : ¬ t.StartsBy l.readMs := by
    rintro ⟨w, hw, hb | ⟨b, hb⟩⟩
    · cases hb
    · cases hb
      exact absurd hw (by decide)
  have hread : Playback.feed.response l peer s =
      .error ((ReadFault.silent l.readMs).toProbeError peer) :=
    Feed.response_eq_error.2 ⟨_, (Reader.response_eq_error _ l s _ hsound).2
      (Or.inl ⟨hlate, rfl⟩), rfl⟩
  refine ⟨hsound, by decide, ⟨_, hread⟩, ?_⟩
  rw [hread]
  nofun

end PeerWatch
