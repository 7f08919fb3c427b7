import PeerWatch.Probe.Error
import PeerWatch.Settings.Basic
import PeerWatch.Text.Span

/-!
Reading a peer's response. It comes in chunks of a fixed size: a chunk that was filled may be
followed by another, a shorter one is the last. The first byte of a chunk may take a while, the
others must follow quickly; a chunk that goes quiet is complete. The reader holds at most the
permitted number of bytes besides the chunk in hand.
-/

namespace PeerWatch

/-- Limits on one probe. Spans of time are in milliseconds. -/
structure FetchLimits where
  chunkSize : Nat := 1048576
  maxBytes : Nat := 33554432
  connectMs : Nat := 10000
  streamMs : Nat := 10000
  readMs : Nat := 10000
  idleMs : Nat := 500
  deriving DecidableEq

def FetchSettings.limits (s : FetchSettings) : FetchLimits :=
  ⟨s.chunkSize.toNat, s.maxResponseBytes.toNat, s.connectMs.toNat, s.streamMs.toNat,
    s.readMs.toNat, s.idleMs.toNat⟩

/-- The size of a chunk that is read; a chunk of no bytes is read as one of a single byte. -/
def FetchLimits.chunk (l : FetchLimits) : Nat := max 1 l.chunkSize

/-- What waiting for bytes gave. No bytes at all mean that the stream has ended. -/
inductive Arrival
  | bytes (bs : List UInt8)
  | failed (reason : String)
  | quiet
  deriving DecidableEq

inductive ReadFault
  | silent (ms : Nat)
  | io (reason : String)
  | tooLong (limit : Nat)
  deriving DecidableEq, Repr

def ReadFault.toProbeError (peer : PeerId) : ReadFault → ProbeError
  | .silent ms => .read peer s!"no response within {Text.spanText ms}"
  | .io reason => .read peer reason
  | .tooLong limit => .sizeExceeded peer limit

/-- A response being read: the bytes of the chunks before, and those of the chunk in hand. -/
structure Reader (l : FetchLimits) where
  kept : Array UInt8
  chunk : Array UInt8
  kept_le : kept.size ≤ l.maxBytes
  chunk_lt : chunk.size < l.chunk

inductive Progress (l : FetchLimits)
  | more (r : Reader l)
  | done (data : Array UInt8)
  | failed (fault : ReadFault)

namespace Reader
variable {l : FetchLimits}

def start (l : FetchLimits) : Reader l where
  kept := #[]
  chunk := #[]
  kept_le := Nat.zero_le _
  chunk_lt := by show 0 < max 1 l.chunkSize; omega

def size (r : Reader l) : Nat := r.kept.size + r.chunk.size

def room (r : Reader l) : Nat := l.chunk - r.chunk.size

def patience (r : Reader l) : Nat := if r.size = 0 then l.readMs else l.idleMs

def endChunk (r : Reader l) (chunk : Array UInt8) : Progress l :=
  if h : r.kept.size + chunk.size ≤ l.maxBytes then
    if chunk.size < l.chunk then .done (r.kept ++ chunk)
    else .more ⟨r.kept ++ chunk, #[], by simpa using h, by show 0 < max 1 l.chunkSize; omega⟩
  else .failed (.tooLong l.maxBytes)

def fill (r : Reader l) (chunk : Array UInt8) : Progress l :=
  if h : chunk.size < l.chunk then .more ⟨r.kept, chunk, r.kept_le, h⟩ else r.endChunk chunk

/-- Takes what has arrived, of which no more than the chunk has room for. -/
def step (r : Reader l) : Arrival → Progress l
  | .failed reason => .failed (.io reason)
  | .quiet =>
    if r.chunk.isEmpty then
      if r.kept.isEmpty then .failed (.silent l.readMs) else .done r.kept
    else r.endChunk r.chunk
  | .bytes bs =>
    match bs.take r.room with
    | [] => r.endChunk r.chunk
    | got => r.fill (r.chunk ++ got.toArray)

theorem endChunk_more {r r' : Reader l} {chunk : Array UInt8} (h : r.endChunk chunk = .more r') :
    r'.size = r.kept.size + chunk.size ∧ l.chunk ≤ chunk.size := by
  unfold endChunk at h
  split at h
  · split at h
    · cases h
    · cases h
      exact ⟨by simp [size], by omega⟩
  · cases h

theorem fill_more {r r' : Reader l} {chunk : Array UInt8} (h : r.fill chunk = .more r') :
    r'.size = r.kept.size + chunk.size := by
  unfold fill at h
  split at h
  · cases h
    rfl
  · exact (endChunk_more h).1

/-- A response that goes on has grown. -/
theorem size_lt_of_step {r r' : Reader l} {a : Arrival} (h : r.step a = .more r') :
    r.size < r'.size := by
  have hr := r.chunk_lt
  unfold step at h
  split at h
  · cases h
  · split at h
    · split at h <;> cases h
    · have := endChunk_more h
      omega
  · split at h
    · have := endChunk_more h
      omega
    · next got hgot =>
      have := fill_more h
      have := List.length_pos_iff.2 hgot
      simp only [Array.size_append, List.size_toArray] at *
      simp only [size] at *
      omega

/-- A response that goes on is bounded. -/
theorem size_lt_bound (r : Reader l) : r.size < l.maxBytes + l.chunk := by
  have := r.kept_le
  have := r.chunk_lt
  simp only [size]
  omega

/-- Reads a response from a source, which is asked for at most so many bytes within so many
milliseconds. -/
def readAll {σ : Type} (source : σ → Nat → Nat → Arrival × σ) (r : Reader l) (s : σ) :
    Except ReadFault (Array UInt8) × σ :=
  let (a, s') := source s r.room r.patience
  match h : r.step a with
  | .more r' =>
    have := size_lt_of_step h
    have := r'.size_lt_bound
    readAll source r' s'
  | .done data => (.ok data, s')
  | .failed fault => (.error fault, s')
termination_by l.maxBytes + l.chunk - r.size

end Reader
end PeerWatch
