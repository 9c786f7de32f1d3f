import MergeOnRead.Encoding.Json.Token
import MergeOnRead.OrderedMap

/-!
# JSON text

A tree is written as a row of tokens, and read back by a machine that takes the tokens one by one and
keeps the lists and objects that it is inside of. Of two entries of an object with one key the later
counts.
-/

namespace MergeOnRead.Json

/-! ## Reading -/

/-- A list or an object that has begun: its parts, latest first, and for an object the key that waits
for its value. -/
inductive Frame where
  | list (items : List Json)
  | object (entries : List (String × Json)) (key : String)
deriving Repr, Inhabited

/-- What has been read: the frames, innermost first, and what may follow. `value` waits for a value,
`item` for a value or the end of an empty list, `key` for a key, `entry` for a key or the end of an
empty object, `colon` for the mark after a key, and `complete` has a value for the innermost frame. -/
inductive Reader where
  | value (frames : List Frame)
  | item (frames : List Frame)
  | key (entries : List (String × Json)) (frames : List Frame)
  | entry (frames : List Frame)
  | colon (entries : List (String × Json)) (key : String) (frames : List Frame)
  | complete (json : Json) (frames : List Frame)
deriving Repr, Inhabited

namespace Reader

/-- Takes the first token of a value. -/
def begin (frames : List Frame) : Token → Option Reader
  | .scalar scalar => some (complete scalar.toJson frames)
  | .listStart => some (item frames)
  | .objectStart => some (entry frames)
  | _ => none

/-- Takes the token after a value in a frame. -/
def close (json : Json) (frames : List Frame) : Frame → Token → Option Reader
  | .list items, .comma => some (value (.list (json :: items) :: frames))
  | .list items, .listEnd => some (complete (.list (json :: items).reverse) frames)
  | .object entries name, .comma => some (key ((name, json) :: entries) frames)
  | .object entries name, .objectEnd =>
    some (complete (.object (OrderedMap.ofList ((name, json) :: entries).reverse).toList) frames)
  | _, _ => none

def step : Reader → Token → Option Reader
  | value frames, token => begin frames token
  | item frames, .listEnd => some (complete (.list []) frames)
  | item frames, token => begin (.list [] :: frames) token
  | entry frames, .objectEnd => some (complete (.object []) frames)
  | entry frames, .scalar (.text name) => some (colon [] name frames)
  | key entries frames, .scalar (.text name) => some (colon entries name frames)
  | colon entries name frames, .colon => some (value (.object entries name :: frames))
  | complete json (frame :: frames), token => close json frames frame token
  | _, _ => none

/-- The tree, when all tokens have been taken. -/
def finish : Reader → Option Json
  | complete json [] => some json
  | _ => none

end Reader

/-- The tree of a row of tokens. -/
def ofTokens? (tokens : List Token) : Option Json :=
  (tokens.foldlM Reader.step (.value [])).bind Reader.finish

def ofText? (text : String) : Option Json := (Token.scan? text).bind ofTokens?

/-! ## Writing -/

mutual

def toTokens : Json → List Token
  | .null => [.scalar .null]
  | .boolean b => [.scalar (.boolean b)]
  | .integer n => [.scalar (.integer n)]
  | .decimal digits exponent => [.scalar (.decimal digits exponent)]
  | .text s => [.scalar (.text s)]
  | .list items => .listStart :: (itemTokens items ++ [.listEnd])
  | .object entries => .objectStart :: (entryTokens entries ++ [.objectEnd])

/-- The tokens of the items of a list, with commas between them. -/
def itemTokens : List Json → List Token
  | [] => []
  | [item] => item.toTokens
  | item :: items => item.toTokens ++ .comma :: itemTokens items

/-- The tokens of the entries of an object, with commas between them. -/
def entryTokens : List (String × Json) → List Token
  | [] => []
  | [(key, json)] => .scalar (.text key) :: .colon :: json.toTokens
  | (key, json) :: entries =>
    .scalar (.text key) :: .colon :: (json.toTokens ++ .comma :: entryTokens entries)

end

def toText (json : Json) : String := String.join (json.toTokens.map Token.write)

end MergeOnRead.Json
