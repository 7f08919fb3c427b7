import PeerWatch.Proofs.ResponseReader

/-! How much a reader of responses reads, and how much it holds. Every read but the last one brings
at least one byte, and a reader that goes on holds less than the permitted number of bytes and one
chunk. Nothing is assumed of the stream, which may go on for ever. -/
namespace PeerWatch
variable {l : FetchLimits} {σ : Type} {source : σ → Nat → Nat → Arrival × σ} {r r' : Reader l}
  {a : Arrival} {s : σ}

/-- A read of a response: the reader that asks for bytes, and what it is given. -/
structure Exchange (l : FetchLimits) where
  reader : Reader l
  arrival : Arrival

namespace Exchange

def bytes (x : Exchange l) : List UInt8 :=
  match x.arrival with
  | .bytes bs => bs.take x.reader.room
  | _ => []

def request (x : Exchange l) : Nat × Nat × Arrival := (x.reader.room, x.reader.patience, x.arrival)

theorem length_bytes_le (x : Exchange l) : x.bytes.length ≤ x.reader.room := by
  unfold bytes
  split
  · rw [List.length_take]
    exact Nat.min_le_left _ _
  · exact Nat.zero_le _

end Exchange

def recorded (source : σ → Nat → Nat → Arrival × σ) (s : σ × List (Nat × Nat × Arrival))
    (room ms : Nat) : Arrival × σ × List (Nat × Nat × Arrival) :=
  let (a, s') := source s.1 room ms
  (a, s', s.2 ++ [(room, ms, a)])

namespace Reader

def reads (source : σ → Nat → Nat → Arrival × σ) (r : Reader l) (s : σ) : List (Exchange l) :=
  let (a, s') := source s r.room r.patience
  ⟨r, a⟩ :: match h : r.step a with
    | .more r' =>
      have := size_lt_of_step h
      have := r'.size_lt_bound
      reads source r' s'
    | .done _ => []
    | .failed _ => []
termination_by l.maxBytes + l.chunk - r.size

theorem reads_eq (source : σ → Nat → Nat → Arrival × σ) (r : Reader l) (s : σ) :
    r.reads source s = ⟨r, (source s r.room r.patience).1⟩ ::
      match r.step (source s r.room r.patience).1 with
      | .more r' => r'.reads source (source s r.room r.patience).2
      | .done _ => []
      | .failed _ => [] := by
  rw [reads]
  split
  split <;> simp_all

def Whole (r : Reader l) : Prop := l.chunk ∣ r.kept.size

theorem whole_start (l : FetchLimits) : (start l).Whole := Nat.dvd_zero _

theorem fill_goes_on {chunk : Array UInt8} (hsize : chunk.size ≤ l.chunk)
    (h : r.fill chunk = .more r') : r'.held = r.kept ++ chunk ∧ (r.Whole → r'.Whole) := by
  unfold fill endChunk at h
  split_ifs at h with hlt
  · cases h
    exact ⟨rfl, id⟩
  · cases h
    refine ⟨by simp [held], fun hwhole => ?_⟩
    have hfull : chunk.size = l.chunk := Nat.le_antisymm hsize (Nat.not_lt.1 hlt)
    rw [Whole, Array.size_append, hfull]
    exact Nat.dvd_add hwhole (Nat.dvd_refl _)

/-- A reader that goes on has put to what it held the bytes that it was given, of which there was one
at least. -/
theorem step_more (h : r.step a = .more r') : 0 < (Exchange.mk r a).bytes.length ∧
    r'.held.toList = r.held.toList ++ (Exchange.mk r a).bytes ∧ (r.Whole → r'.Whole) := by
  have hchunk := r.chunk_lt
  cases a with
  | failed reason => cases h
  | quiet =>
    simp only [step] at h
    split_ifs at h
    have := (endChunk_more h).2
    omega
  | bytes bs =>
    have hroom : (bs.take r.room).length ≤ r.room := (Exchange.mk r (.bytes bs)).length_bytes_le
    simp only [step] at h
    split at h
    · have := (endChunk_more h).2
      omega
    · next hgot =>
      have hsize : (r.chunk ++ (bs.take r.room).toArray).size ≤ l.chunk := by
        have hlen : (bs.take r.room).toArray.size = (bs.take r.room).length := List.size_toArray
        have hroom' : r.room = l.chunk - r.chunk.size := rfl
        rw [Array.size_append, hlen]
        omega
      obtain ⟨hheld, hwhole⟩ := fill_goes_on hsize h
      refine ⟨List.length_pos_iff.2 hgot, ?_, hwhole⟩
      rw [hheld]
      simp [held, Exchange.bytes]

/-- A response that is complete is what the reader held, and no byte came with its end. -/
theorem step_done {data : Array UInt8} (h : r.step a = .done data) :
    (Exchange.mk r a).bytes = [] ∧ data = r.held ∧ data.size ≤ l.maxBytes := by
  have hfinish (h : r.finish = .done data) : data = r.held ∧ data.size ≤ l.maxBytes := by
    unfold finish at h
    split_ifs at h with hle
    cases h
    exact ⟨rfl, r.size_held ▸ hle⟩
  cases a with
  | failed reason => cases h
  | quiet =>
    refine ⟨rfl, ?_⟩
    rcases Nat.eq_zero_or_pos r.size with hzero | hpos
    · simp only [size, Nat.add_eq_zero_iff, Array.size_eq_zero_iff] at hzero
      simp [step, hzero.1, hzero.2] at h
    · exact hfinish (step_quiet hpos ▸ h)
  | bytes bs =>
    simp only [step] at h
    split at h
    · next hnone => exact ⟨hnone, hfinish (r.endChunk_chunk ▸ h)⟩
    · unfold fill endChunk at h
      split_ifs at h

/-- Every read but the last brings a byte, and there is an end to the bytes that are taken. -/
theorem length_reads_add_size_le (source : σ → Nat → Nat → Arrival × σ) (r : Reader l) (s : σ) :
    (r.reads source s).length + r.size ≤ l.maxBytes + l.chunk := by
  induction r, s using readAll.induct source with
  | case1 r s a s' hread r' hstep hlt hbound ih =>
    rw [reads_eq]
    simp only [hread, hstep, List.length_cons]
    omega
  | case2 r s a s' hread data hstep =>
    rw [reads_eq]
    simp only [hread, hstep, List.length_singleton]
    have := r.size_lt_bound
    omega
  | case3 r s a s' hread fault hstep =>
    rw [reads_eq]
    simp only [hread, hstep, List.length_singleton]
    have := r.size_lt_bound
    omega

theorem size_of_step_more (h : r.step a = .more r') :
    r'.size = r.size + (Exchange.mk r a).bytes.length := by
  rw [← size_held, ← Array.length_toList, (step_more h).2.1, List.length_append,
    Array.length_toList, size_held]

theorem size_add_room_le (r : Reader l) : r.size + r.room ≤ l.maxBytes + l.chunk := by
  have hkept := r.kept_le
  have hchunk := r.chunk_lt
  simp only [size, room]
  omega

theorem length_bytes_reads_add_size_le (source : σ → Nat → Nat → Arrival × σ) (r : Reader l) (s : σ) :
    ((r.reads source s).flatMap (·.bytes)).length + r.size ≤ l.maxBytes + l.chunk := by
  induction r, s using readAll.induct source with
  | case1 r s a s' hread r' hstep hlt hbound ih =>
    have hsize := size_of_step_more hstep
    rw [reads_eq]
    simp only [hread, hstep, List.flatMap_cons, List.length_append]
    omega
  | case2 r s a s' hread data hstep =>
    have hbytes := (Exchange.mk r a).length_bytes_le
    have hroom := r.size_add_room_le
    rw [reads_eq]
    simp only [hread, hstep, List.flatMap_singleton] at hbytes ⊢
    omega
  | case3 r s a s' hread fault hstep =>
    have hbytes := (Exchange.mk r a).length_bytes_le
    have hroom := r.size_add_room_le
    rw [reads_eq]
    simp only [hread, hstep, List.flatMap_singleton] at hbytes ⊢
    omega

/-- When a read is made, the reader holds what the reads before it have brought. -/
theorem of_mem_reads {before after : List (Exchange l)} {x : Exchange l}
    (h : r.reads source s = before ++ x :: after) (hwhole : r.Whole) :
    x.reader.held.toList = r.held.toList ++ before.flatMap (·.bytes) ∧ x.reader.Whole := by
  induction before generalizing r s with
  | nil =>
    rw [reads_eq] at h
    cases h
    simpa using hwhole
  | cons y before ih =>
    rw [reads_eq, List.cons_append] at h
    obtain ⟨rfl, htail⟩ := List.cons.inj h
    split at htail
    · next hstep =>
      obtain ⟨-, hheld, hkept⟩ := step_more hstep
      obtain ⟨hx, hw⟩ := ih htail (hkept hwhole)
      exact ⟨by rw [hx, hheld, List.append_assoc, List.flatMap_cons], hw⟩
    · simp at htail
    · simp at htail

/-- A response is all that was read. -/
theorem of_readAll_eq_ok {data : Array UInt8} (h : (r.readAll source s).1 = .ok data) :
    data.size ≤ l.maxBytes ∧
      data.toList = r.held.toList ++ (r.reads source s).flatMap (·.bytes) := by
  induction r, s using readAll.induct source with
  | case1 r s a s' hread r' hstep hlt hbound ih =>
    rw [readAll_eq, hread, hstep] at h
    obtain ⟨hle, hdata⟩ := ih h
    refine ⟨hle, ?_⟩
    rw [reads_eq, hread]
    simp only [hstep, List.flatMap_cons]
    rw [hdata, (step_more hstep).2.1, List.append_assoc]
  | case2 r s a s' hread data' hstep =>
    rw [readAll_eq, hread, hstep] at h
    cases h
    obtain ⟨hbytes, hdata, hle⟩ := step_done hstep
    refine ⟨hle, ?_⟩
    rw [reads_eq, hread]
    simp [hstep, hbytes, hdata]
  | case3 r s a s' hread fault hstep =>
    rw [readAll_eq, hread, hstep] at h
    cases h

theorem readAll_step (source : σ → Nat → Nat → Arrival × σ) (r : Reader l) (s : σ) :
    r.readAll source s = match r.step (source s r.room r.patience).1 with
      | .more r' => r'.readAll source (source s r.room r.patience).2
      | .done data => (.ok data, (source s r.room r.patience).2)
      | .failed fault => (.error fault, (source s r.room r.patience).2) := by
  rw [readAll]
  split
  split <;> simp_all

/-- Keeping a record changes nothing, and the record shows the reads. -/
theorem readAll_recorded (source : σ → Nat → Nat → Arrival × σ) (r : Reader l) (s : σ)
    (record : List (Nat × Nat × Arrival)) :
    r.readAll (recorded source) (s, record) = ((r.readAll source s).1, (r.readAll source s).2,
      record ++ (r.reads source s).map (·.request)) := by
  induction r, s using readAll.induct source generalizing record with
  | case1 r s a s' hread r' hstep hlt hbound ih =>
    rw [readAll_step, readAll_step source, reads_eq]
    simp only [recorded, hread, hstep]
    rw [ih]
    simp [Exchange.request]
  | case2 r s a s' hread data hstep =>
    rw [readAll_step, readAll_step source, reads_eq]
    simp only [recorded, hread, hstep]
    simp [Exchange.request]
  | case3 r s a s' hread fault hstep =>
    rw [readAll_step, readAll_step source, reads_eq]
    simp only [recorded, hread, hstep]
    simp [Exchange.request]

theorem Whole.size_mod (h : r.Whole) : r.size % l.chunk = r.chunk.size := by
  obtain ⟨k, hk⟩ := h
  rw [size, hk, Nat.mul_add_mod, Nat.mod_eq_of_lt r.chunk_lt]

/-- Of the bytes that were read before, those of whole chunks are kept, and the others are in the
chunk in hand. -/
theorem Whole.kept_eq {bs : List UInt8} (h : r.Whole) (hheld : r.held.toList = bs) :
    r.kept.toList = bs.take (bs.length - bs.length % l.chunk) ∧
      r.room = l.chunk - bs.length % l.chunk := by
  have hlen : bs.length = r.size := by rw [← hheld, Array.length_toList, size_held]
  have hkept : r.size - r.chunk.size = r.kept.toList.length := by
    rw [Array.length_toList, size]
    omega
  refine ⟨?_, ?_⟩
  · rw [hlen, h.size_mod, hkept, ← hheld, held, Array.toList_append, List.take_left]
  · rw [hlen, h.size_mod, room]

/-- However a stream goes on, the reader comes to its end, within so many reads, of so many bytes
together. Each time it asks for one byte at least and has kept no more than is permitted: the whole
chunks among the bytes that it has read. A response is all that it has read. The reads are those that
a record of the source shows. -/
theorem reading_stays_bounded (l : FetchLimits) (σ : Type) (source : σ → Nat → Nat → Arrival × σ)
    (s : σ) :
    let chunk := max 1 l.chunkSize
    let reads := (start l).reads source s
    let (result, rest) := (start l).readAll source s
    (start l).readAll (recorded source) (s, []) = (result, rest, reads.map (·.request)) ∧
    reads.length ≤ l.maxBytes + chunk + 1 ∧
    (reads.flatMap (·.bytes)).length ≤ l.maxBytes + chunk ∧
    (∀ before x after, reads = before ++ x :: after →
      let sofar := before.flatMap (·.bytes)
      0 < x.reader.room ∧ x.reader.room = chunk - sofar.length % chunk ∧
        x.reader.kept.size ≤ l.maxBytes ∧
        x.reader.kept.toList = sofar.take (sofar.length - sofar.length % chunk)) ∧
    ∀ data, result = .ok data → data.size ≤ l.maxBytes ∧ data.toList = reads.flatMap (·.bytes) := by
  intro chunk reads
  have hlength : reads.length ≤ l.maxBytes + chunk := length_reads_add_size_le source (start l) s
  have hbytes : (reads.flatMap (·.bytes)).length ≤ l.maxBytes + chunk :=
    length_bytes_reads_add_size_le source (start l) s
  refine ⟨readAll_recorded source (start l) s [], Nat.le_succ_of_le hlength, hbytes, ?_, ?_⟩
  · intro before x after h sofar
    obtain ⟨hheld, hwhole⟩ := of_mem_reads h (whole_start l)
    obtain ⟨hkept, hroom⟩ := hwhole.kept_eq hheld
    exact ⟨x.reader.room_pos, hroom, x.reader.kept_le, hkept⟩
  · intro data h
    exact of_readAll_eq_ok h

/-- Bytes come one at a time, as many as are permitted, and then the stream goes quiet. At the fourth
read one chunk is kept, and there is room for one byte. -/
theorem reading_stays_bounded_drop_by_drop :
    let l : FetchLimits := { chunkSize := 2, maxBytes := 4 }
    let source (n _room _ms : Nat) : Arrival × Nat :=
      (if n < 4 then .bytes [n.toUInt8] else .quiet, n + 1)
    let reads := (start l).reads source 0
    ((start l).readAll source 0).1 = .ok #[0, 1, 2, 3] ∧ reads.length ≤ 4 + 2 + 1 ∧
      (∃ before x after, reads = before ++ x :: after ∧ before.length = 3 ∧
        x.reader.room = 1 ∧ x.reader.kept.size ≤ 4 ∧ x.reader.kept.toList = [0, 1]) ∧
      #[0, 1, 2, 3].toList = reads.flatMap (·.bytes) := by
  intro l source reads
  obtain ⟨-, hlength, -, hread, hdata⟩ := reading_stays_bounded l Nat source 0
  have hresult : ((start l).readAll source 0).1 = .ok #[0, 1, 2, 3] := by decide +kernel
  have hlt : 3 < reads.length := by decide +kernel
  have hsplit : reads = reads.take 3 ++ reads[3] :: reads.drop 4 := by
    rw [List.getElem_cons_drop, List.take_append_drop]
  have hsofar : (reads.take 3).flatMap (·.bytes) = [0, 1, 2] := by decide +kernel
  obtain ⟨-, hroom, hkept, hchunks⟩ := hread _ _ _ hsplit
  rw [hsofar] at hroom hchunks
  exact ⟨hresult, hlength, ⟨_, _, _, hsplit, List.length_take_of_le (Nat.le_of_lt hlt),
    hroom.trans (by decide), hkept, hchunks.trans (by decide)⟩, (hdata _ hresult).2⟩

end Reader
end PeerWatch
