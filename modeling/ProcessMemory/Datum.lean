/-!
# Data

What documents in JSON and in TOML have in common, and reading records out of it. A record is
written as a table of named fields, or as a list of the fields in order.
-/
namespace ProcessMemory

inductive Datum where
  | null
  | integer (n : Int)
  /-- `none` where the escapes of a text give no characters. -/
  | text (s : Option String)
  | list (items : List Datum)
  /-- Keys may come more than once. -/
  | table (entries : List (Option String × Datum))
  /-- What no field holds: truth values and fractions. -/
  | other

/-- How a record is written. -/
structure Record where
  fields : List String
  /-- How many fields a list has to give. -/
  least : Nat
  /-- A list may not give more than there are fields. -/
  exact : Bool

namespace Datum

/-- The value of the one entry under `key`; fails where there are two. -/
def only? (key : String) (entries : List (Option String × Datum)) : Option (Option Datum) :=
  match entries.filter (·.1 == some key) with
  | [] => some none
  | [entry] => some (some entry.2)
  | _ => none

/-- What each field of a record is given. Fields of other names are passed over. -/
def fields? (r : Record) : Datum → Option (List (Option Datum))
  | .table entries =>
    if entries.all fun (key, _) => key.isSome then r.fields.mapM (only? · entries) else none
  | .list items =>
    if items.length < r.least ∨ (r.exact ∧ r.fields.length < items.length) then none
    else some ((List.range r.fields.length).map fun i => items[i]?)
  | _ => none

def natural? (limit : Nat) : Datum → Option Nat
  | .integer (.ofNat n) => if n < limit then some n else none
  | _ => none

def text? : Datum → Option String
  | .text s => s
  | _ => none

def texts? : Datum → Option (List String)
  | .list items => items.mapM text?
  | _ => none

/-- Nothing, or a text. -/
def textOrNull? : Datum → Option (Option String)
  | .null => some none
  | d => d.text?.map some

def ofText (s : String) : Datum := .text (some s)

def ofNat (n : Nat) : Datum := .integer n

def ofFields (fields : List (String × Datum)) : Datum :=
  .table (fields.map fun (key, value) => (some key, value))

end Datum
end ProcessMemory
