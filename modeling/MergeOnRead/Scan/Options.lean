import MergeOnRead.Duration
import MergeOnRead.Table

/-!
# Scan options

How a scan is planned: the weights of packing, how column names are matched, and the limit on each
call to the table store. Table properties override the defaults; a property that is no positive
number is ignored.
-/

namespace MergeOnRead.Scan

structure Options where
  targetSize : UInt64
  openFileCost : UInt64
  lookback : UInt64
  caseSensitive : Bool
  ioTimeout : Option Duration
deriving DecidableEq, Repr

namespace Options

/-- The options of a scan that sets none. -/
def default : Options where
  targetSize := 128 * 1024 * 1024
  openFileCost := 4 * 1024 * 1024
  lookback := 10
  caseSensitive := true
  ioTimeout := none

instance : Inhabited Options := ⟨default⟩

/-- A positive number in 64 bits, as the text of a property. -/
def positive? (text : String) : Option UInt64 :=
  (Text.readWord? text).filter fun n => 0 < n

/-- The positive number in a property. -/
def property? (properties : Properties) (key : String) : Option UInt64 :=
  (properties.get? key).bind positive?

/-- The properties that set options, in the order in which they are read. -/
def keys : List String := [PropertyKey.targetSize, PropertyKey.openFileCost, PropertyKey.lookback]

/-- The properties that are ignored because they are no positive number, with their text. -/
def ignored (properties : Properties) : List (String × String) :=
  keys.filterMap fun key =>
    match properties.get? key with
    | some text => if (positive? text).isNone then some (key, text) else none
    | none => none

/-- The defaults, overridden by the properties of a table. -/
def ofProperties (properties : Properties) : Options :=
  { default with
    targetSize := (property? properties PropertyKey.targetSize).getD default.targetSize
    openFileCost := (property? properties PropertyKey.openFileCost).getD default.openFileCost
    lookback := (property? properties PropertyKey.lookback).getD default.lookback }

def withTargetSize (options : Options) (n : UInt64) : Options :=
  { options with targetSize := if n = 0 then 1 else n }

def withOpenFileCost (options : Options) (n : UInt64) : Options :=
  { options with openFileCost := n }

/-- Sets the number of open bins, which is at least one. -/
def withLookback (options : Options) (n : UInt64) : Options :=
  { options with lookback := if n = 0 then 1 else n }

/-- Sets whether column names match only in the same case. -/
def withCaseSensitive (options : Options) (caseSensitive : Bool) : Options :=
  { options with caseSensitive }

def withIoTimeout (options : Options) (limit : Duration) : Options :=
  { options with ioTimeout := some limit }

/-- All options with their names. -/
def text (options : Options) : String :=
  let limit :=
    match options.ioTimeout with
    | none => "None"
    | some limit => "Some(" ++ limit.text ++ ")"
  "ScanOptions \x7b split_target_size: " ++ toString options.targetSize.toNat ++
    ", open_file_cost: " ++ toString options.openFileCost.toNat ++
    ", split_lookback: " ++ toString options.lookback.toNat ++
    ", case_sensitive: " ++ (if options.caseSensitive then "true" else "false") ++
    ", io_timeout: " ++ limit ++ " \x7d"

end Options

end MergeOnRead.Scan
