import MergeOnRead.Encoding.Json.Scalar

/-!
# Tokens of JSON text

The tokens that a JSON text falls into, and the scanner that finds them. The scanner goes through
the text once, character by character. Outside of quotes, a run of characters that are neither blank
nor a mark is a word.

In quotes a character stands for itself or is escaped. An escaped code unit that is a surrogate has
to be followed by its partner, and the two are one character.
-/

namespace MergeOnRead.Json

/-- A token: a mark or a value that has no parts. -/
inductive Token where
  | listStart
  | listEnd
  | objectStart
  | objectEnd
  | comma
  | colon
  | scalar (value : Scalar)
deriving DecidableEq, Repr, Inhabited

namespace Token

def write : Token → String
  | listStart => "["
  | listEnd => "]"
  | objectStart => "\x7b"
  | objectEnd => "\x7d"
  | comma => ","
  | colon => ":"
  | scalar value => value.write

/-- The characters that are tokens by themselves. -/
def marks : List (Char × Token) :=
  [('[', listStart), (']', listEnd), ('\x7b', objectStart), ('\x7d', objectEnd), (',', comma),
    (':', colon)]

/-- Whether a character is a blank between tokens. -/
def isGap (c : Char) : Bool := c = ' ' || c = '\t' || c = '\n' || c = '\r'

/-- Whether a character ends a word. -/
def endsWord (c : Char) : Bool := isGap c || c = '"' || (marks.lookup c).isSome

/-! ## Quotes -/

/-- What an escaping letter stands for. -/
def escapes : List (Char × Char) :=
  [('"', '"'), ('\\', '\\'), ('/', '/'), ('b', '\x08'), ('f', '\x0c'), ('n', '\n'), ('r', '\r'),
    ('t', '\t')]

def hexDigit? (c : Char) : Option Nat :=
  if '0' ≤ c ∧ c ≤ '9' then some (c.toNat - 0x30)
  else if 'a' ≤ c ∧ c ≤ 'f' then some (c.toNat - 0x61 + 10)
  else if 'A' ≤ c ∧ c ≤ 'F' then some (c.toNat - 0x41 + 10)
  else none

/-- The character of a code point. A surrogate has none. -/
def charOf? (n : Nat) : Option Char :=
  if n.isValidChar then some (Char.ofNat n) else none

/-- The character of a pair of surrogates. -/
def charOfPair? (high low : Nat) : Option Char :=
  if 0xD800 ≤ high ∧ high < 0xDC00 ∧ 0xDC00 ≤ low ∧ low < 0xE000 then
    charOf? (0x10000 + (high - 0xD800) * 0x400 + (low - 0xDC00))
  else none

/-- The characters of a row of code points in which a pair of surrogates stands for one. -/
def join? : List Nat → Option (List Char)
  | [] => some []
  | [n] => (charOf? n).map fun c => [c]
  | m :: n :: rest =>
    match charOfPair? m n with
    | some c => (join? rest).map (c :: ·)
    | none => do return (← charOf? m) :: (← join? (n :: rest))

/-! ## The scanner -/

/-- Where the scanner is: between tokens, in a word, in quotes, behind a backslash in quotes, or
among the digits of an escaped code unit. What has been read stands latest first. -/
inductive Place where
  | gap
  | word (read : List Char)
  | quotes (read : List Nat)
  | escape (read : List Nat)
  | unit (read : List Nat) (value digits : Nat)
deriving Repr, Inhabited

/-- A scanner: the tokens that it has found, latest first, and where it is. -/
structure Scanner where
  found : List Token
  place : Place
deriving Repr, Inhabited

namespace Scanner

/-- Takes a character between tokens. -/
def enter (found : List Token) (c : Char) : Scanner :=
  if isGap c then ⟨found, .gap⟩
  else if c = '"' then ⟨found, .quotes []⟩
  else match marks.lookup c with
    | some mark => ⟨mark :: found, .gap⟩
    | none => ⟨found, .word [c]⟩

/-- The tokens when a word ends. -/
def closeWord (found : List Token) (read : List Char) : Option (List Token) :=
  (Scalar.ofWord? read.reverse).map fun value => .scalar value :: found

/-- The tokens when quotes end. -/
def closeQuotes (found : List Token) (read : List Nat) : Option (List Token) :=
  (join? read.reverse).map fun cs => .scalar (.text (String.ofList cs)) :: found

/-- Takes a character in quotes. A control character has to be escaped. -/
def quote (found : List Token) (read : List Nat) (c : Char) : Option Scanner :=
  if c = '"' then (closeQuotes found read).map fun found => ⟨found, .gap⟩
  else if c = '\\' then some ⟨found, .escape read⟩
  else if c.toNat < 0x20 then none
  else some ⟨found, .quotes (c.toNat :: read)⟩

def step (scanner : Scanner) (c : Char) : Option Scanner :=
  let found := scanner.found
  match scanner.place with
  | .gap => some (enter found c)
  | .word read =>
    if endsWord c then (closeWord found read).map fun found => enter found c
    else some ⟨found, .word (c :: read)⟩
  | .quotes read => quote found read c
  | .escape read =>
    if c = 'u' then some ⟨found, .unit read 0 0⟩
    else (escapes.lookup c).map fun c => ⟨found, .quotes (c.toNat :: read)⟩
  | .unit read value digits =>
    (hexDigit? c).map fun digit =>
      let value := value * 16 + digit
      if digits = 3 then ⟨found, .quotes (value :: read)⟩
      else ⟨found, .unit read value (digits + 1)⟩

/-- The tokens, in order, when the text ends. It does not end in quotes. -/
def finish (scanner : Scanner) : Option (List Token) :=
  match scanner.place with
  | .gap => some scanner.found.reverse
  | .word read => (closeWord scanner.found read).map List.reverse
  | _ => none

end Scanner

def scan? (text : String) : Option (List Token) :=
  (text.toList.foldlM Scanner.step ⟨[], .gap⟩).bind Scanner.finish

end Token

end MergeOnRead.Json
