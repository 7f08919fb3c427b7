import PeerWatch.Status.View

/-!
A subscriber's side of the stream: it comes in lines, of which keep-alives are passed over.
-/

namespace PeerWatch.Client

/-- The first line, without the newline that ends it, and what follows. The last line may lack its
newline; after it there is none. -/
def nextLine (bs : List UInt8) : Option (List UInt8 × List UInt8) :=
  if bs.isEmpty then none
  else some (bs.takeWhile (· ≠ 10), (bs.dropWhile (· ≠ 10)).drop 1)

theorem length_lt_of_nextLine {bs line rest : List UInt8} (h : nextLine bs = some (line, rest)) :
    rest.length < bs.length := by
  unfold nextLine at h
  split at h
  · cases h
  · next hne =>
    cases h
    have hpos : 0 < bs.length := by
      cases bs with
      | nil => simp at hne
      | cons b bs => simp
    have := (List.dropWhile_suffix (l := bs) (p := fun b => decide (b ≠ 10))).length_le
    simp only [List.length_drop]
    omega

/-- The next view, or `none` at the end, and what follows. A line that is no record is an error,
after which the stream goes on. -/
def nextView (bs : List UInt8) : Except RecordError (Option View) × List UInt8 :=
  match h : nextLine bs with
  | none => (.ok none, [])
  | some (line, rest) =>
    match View.ofLine line with
    | .ok none =>
      have := length_lt_of_nextLine h
      nextView rest
    | r => (r, rest)
termination_by bs.length

end PeerWatch.Client
