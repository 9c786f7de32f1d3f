/-!
# Column types

The types that partition values and literals are checked against, each with the text that names it.
Types that no partition value matches are kept as their text.

Main statement: `ColumnType.text_ofText`, reading the name of a type and writing it again gives the
same name.
-/

namespace MergeOnRead

/-- The type of a column. A timestamp keeps its zone as it is written between the quotes. -/
inductive ColumnType where
  | boolean
  | int32
  | int64
  | float32
  | float64
  | utf8
  | largeUtf8
  | binary
  | largeBinary
  | date32
  | timestampMicros (zone : Option String)
  | other (name : String)
deriving DecidableEq, Repr

namespace ColumnType

/-- What stands before the zone in the name of a timestamp type. -/
def zonedStart : String := "Timestamp(Microsecond, Some(\""

/-- What stands after the zone in the name of a timestamp type. -/
def zonedStop : String := "\"))"

def text : ColumnType → String
  | boolean => "Boolean"
  | int32 => "Int32"
  | int64 => "Int64"
  | float32 => "Float32"
  | float64 => "Float64"
  | utf8 => "Utf8"
  | largeUtf8 => "LargeUtf8"
  | binary => "Binary"
  | largeBinary => "LargeBinary"
  | date32 => "Date32"
  | timestampMicros none => "Timestamp(Microsecond, None)"
  | timestampMicros (some zone) => zonedStart ++ zone ++ zonedStop
  | other name => name

/-- The characters between a given start and a given end. -/
def between? (start stop cs : List Char) : Option (List Char) :=
  let inner := (cs.drop start.length).take (cs.length - start.length - stop.length)
  if start ++ inner ++ stop = cs then some inner else none

theorem eq_of_between? {start stop cs inner : List Char} (h : between? start stop cs = some inner) :
    start ++ inner ++ stop = cs := by
  simp only [between?] at h
  split at h
  · rename_i heq
    rw [← Option.some.inj h]
    exact heq
  · cases h

/-- The types whose name is fixed. -/
def named : List ColumnType :=
  [boolean, int32, int64, float32, float64, utf8, largeUtf8, binary, largeBinary, date32,
    timestampMicros none]

/-- The zone in the name of a timestamp type. -/
def zone? (name : String) : Option String :=
  (between? zonedStart.toList zonedStop.toList name.toList).map String.ofList

theorem eq_of_zone? {name zone : String} (h : zone? name = some zone) :
    zonedStart ++ zone ++ zonedStop = name := by
  obtain ⟨inner, hinner, rfl⟩ := Option.map_eq_some_iff.1 h
  have := congrArg String.ofList (eq_of_between? hinner)
  simpa [String.ofList_append, String.append_assoc] using this

def ofText (name : String) : ColumnType :=
  match named.find? (fun type => type.text == name), zone? name with
  | some type, _ => type
  | none, some zone => timestampMicros (some zone)
  | none, none => other name

/-- A type is shown by the name it was given by. -/
theorem text_ofText (name : String) : (ofText name).text = name := by
  unfold ofText
  cases hnamed : named.find? (fun type => type.text == name) with
  | some type =>
    have := List.find?_some hnamed
    simpa using this
  | none =>
    cases hzone : zone? name with
    | some zone => exact eq_of_zone? hzone
    | none => rfl

end ColumnType

end MergeOnRead
