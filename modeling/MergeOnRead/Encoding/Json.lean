import MergeOnRead.Error

/-!
# JSON trees

The trees that values are exchanged in, and the readers for their nodes. A reader takes a tree apart
and says whether it is malformed or holds a value that the library refuses.

A record is written as an object; fields that it does not have are ignored. It may also be written
as the list of its values, and then all of them have to be there. A choice is written as its name
alone or as an object with the name as its only key.
-/

namespace MergeOnRead

/-- A JSON value. A number that is written with a decimal point or an exponent is `decimal`, even if
it is whole: `digits * 10 ^ exponent`. The keys of an object are in order. -/
inductive Json where
  | null
  | boolean (b : Bool)
  | integer (n : Int)
  | decimal (digits exponent : Int)
  | text (s : String)
  | list (items : List Json)
  | object (entries : List (String × Json))
deriving Repr, Inhabited

/-- Why a tree does not read: it has the wrong form, or its value is refused. -/
inductive DecodeError where
  | malformed
  | refused (error : Error)
deriving DecidableEq, Repr

namespace Json

/-- A reader of trees. -/
abbrev Decoder (α : Type) := Json → Except DecodeError α

variable {α : Type}

def asUnit : Decoder Unit
  | null => .ok ()
  | _ => .error .malformed

def asBoolean : Decoder Bool
  | boolean b => .ok b
  | _ => .error .malformed

def asText : Decoder String
  | text s => .ok s
  | _ => .error .malformed

/-- Reads a whole number that is at least `low` and below `high`. No number that is written with a
decimal point or an exponent is taken for a whole one. -/
def asInteger (low high : Int) : Decoder Int
  | integer n => if low ≤ n ∧ n < high then .ok n else .error .malformed
  | _ => .error .malformed

def asByte (json : Json) : Except DecodeError UInt8 :=
  (json.asInteger 0 0x100).map fun n => .ofNat n.toNat

def asWord32 (json : Json) : Except DecodeError UInt32 :=
  (json.asInteger 0 0x100000000).map fun n => .ofNat n.toNat

def asWord64 (json : Json) : Except DecodeError UInt64 :=
  (json.asInteger 0 0x10000000000000000).map fun n => .ofNat n.toNat

def asInt32 (json : Json) : Except DecodeError Int32 :=
  (json.asInteger (-0x80000000) 0x80000000).map .ofInt

/-- Reads a number in the range of signed 64-bit numbers. -/
def asLong (json : Json) : Except DecodeError Int :=
  json.asInteger (-0x8000000000000000) 0x8000000000000000

def asInt64 (json : Json) : Except DecodeError Int64 := json.asLong.map .ofInt

/-- Reads a list, item by item from the left. -/
def asListOf (decode : Decoder α) : Decoder (List α)
  | list items => items.mapM decode
  | _ => .error .malformed

def asOption (decode : Decoder α) : Decoder (Option α)
  | null => .ok none
  | json => (decode json).map some

/-- Reads a choice: its name and what comes with it, null if nothing does. -/
def asChoice : Decoder (String × Json)
  | text name => .ok (name, null)
  | object [entry] => .ok entry
  | _ => .error .malformed

def ofWord64 (n : UInt64) : Json := integer n.toNat

def ofOption (encode : α → Json) : Option α → Json
  | none => null
  | some a => encode a

def ofList (encode : α → Json) (items : List α) : Json := list (items.map encode)

end Json

/-- The fields of a record as they are written, and whether there are as many as there have to be. -/
structure Record where
  fields : List (String × Json)
  isWhole : Bool

/-- Reads the fields of a record with the given names. -/
def Json.asRecord (names : List String) : Json.Decoder Record
  | .object entries => .ok ⟨entries, true⟩
  | .list items => .ok ⟨names.zip items, items.length = names.length⟩
  | _ => .error .malformed

namespace Record

variable {α : Type}

/-- Reads a field, if it is there. -/
def read (record : Record) (name : String) (decode : Json.Decoder α) :
    Except DecodeError (Option α) :=
  match record.fields.lookup name with
  | none => .ok none
  | some json => (decode json).map some

/-- Checks that the record has as many fields as it has to. -/
def close (record : Record) : Except DecodeError Unit :=
  if record.isWhole then .ok () else .error .malformed

/-- A field that has to be there. -/
def need : Option α → Except DecodeError α
  | some a => .ok a
  | none => .error .malformed

end Record

end MergeOnRead
