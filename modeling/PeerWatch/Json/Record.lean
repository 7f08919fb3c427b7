import PeerWatch.Json.Value

/-!
Reading records. A record with named fields is written as an object, in any order and among other
members, or as an array of the first few of its values in their order. A member of another name is
passed over; a field given twice is refused.
-/

namespace PeerWatch.Json

def named? (members : List (List UInt8 × Json)) : Option (List (String × Json)) :=
  members.mapM fun (k, v) => (textOf? k).map fun name => (name, v)

def fields? (names : List String) : Json → Option (List (String × Json))
  | .object members => do
    let known := (← named? members).filter fun m => names.contains m.1
    if (known.map (·.1)).Nodup then return known else none
  | .array items => if items.length ≤ names.length then some (names.zip items) else none
  | _ => none

def required {α : Type} (read : Json → Option α) (name : String)
    (fields : List (String × Json)) : Option α :=
  (fields.lookup name).bind read

def defaulting {α : Type} (read : Json → Option α) (default : α) (name : String)
    (fields : List (String × Json)) : Option α :=
  match fields.lookup name with
  | none => some default
  | some v => read v

def nullable {α : Type} (read : Json → Option α) : Json → Option (Option α)
  | .null => some none
  | v => (read v).map some

/-- The field `name`, or `default` if it is not there or `null`. -/
def lenient {α : Type} (read : Json → Option α) (default : α) (name : String)
    (fields : List (String × Json)) : Option α :=
  (defaulting (nullable read) none name fields).map (·.getD default)

def list? {α : Type} (read : Json → Option α) (v : Json) : Option (List α) :=
  v.items?.bind fun items => items.mapM read

def int64? (v : Json) : Option Int64 :=
  v.int?.bind fun n =>
    if -9223372036854775808 ≤ n ∧ n < 9223372036854775808 then some (Int64.ofInt n) else none

end PeerWatch.Json
