import MergeOnRead.Floating.Text

/-!
# Row predicates

Filters as they are written by a caller: trees over column names and literals. A predicate means
nothing until it is bound to a schema; here it is only built and shown.

`Predicate.and` and `Predicate.or` merge the operands of a like node into one list, so a chain of
calls gives one flat node.
-/

namespace MergeOnRead

/-- A literal operand. Floats are kept as their bits. -/
inductive Literal where
  | null
  | boolean (b : Bool)
  | int64 (n : Int64)
  | float64 (bits : UInt64)
  | utf8 (text : String)
  | binary (bytes : List UInt8)
  | date32 (days : Int32)
  | timestampMicros (micros : Int64)
deriving DecidableEq, Repr

namespace Literal

def isNull : Literal → Bool
  | null => true
  | _ => false

/-- The text of a literal. Text stands between quotes as it is; of bytes only their number is shown. -/
def text : Literal → String
  | null => "NULL"
  | boolean b => if b then "true" else "false"
  | int64 n => toString n.toInt
  | float64 bits => Floating.binary64.text bits.toNat
  | utf8 text => "'" ++ text ++ "'"
  | binary bytes => "X'" ++ toString bytes.length ++ "'"
  | date32 days => "DATE(" ++ toString days.toInt ++ ")"
  | timestampMicros micros => "TIMESTAMP(" ++ toString micros.toInt ++ ")"

end Literal

inductive Comparison where
  | eq
  | ne
  | lt
  | le
  | gt
  | ge
deriving DecidableEq, Repr

namespace Comparison

def text : Comparison → String
  | eq => "="
  | ne => "!="
  | lt => "<"
  | le => "<="
  | gt => ">"
  | ge => ">="

/-- Whether the operator asks only for equality. -/
def isEquality : Comparison → Bool
  | eq => true
  | ne => true
  | _ => false

/-- Whether the operator holds between two values that stand in the given order. -/
def holds : Comparison → Ordering → Bool
  | eq, o => o == .eq
  | ne, o => o != .eq
  | lt, o => o == .lt
  | le, o => o != .gt
  | gt, o => o == .gt
  | ge, o => o != .lt

end Comparison

/-- A row predicate over column names. -/
inductive Predicate where
  | always
  | compare (column : String) (op : Comparison) (value : Literal)
  | inList (column : String) (values : List Literal) (negated : Bool)
  | isNull (column : String) (negated : Bool)
  | not (operand : Predicate)
  | all (operands : List Predicate)
  | any (operands : List Predicate)
deriving Repr, Inhabited

namespace Predicate

/-- The operands that a predicate brings into a conjunction. -/
def conjunctOperands : Predicate → List Predicate
  | all operands => operands
  | p => [p]

/-- The operands that a predicate brings into a disjunction. -/
def disjunctOperands : Predicate → List Predicate
  | any operands => operands
  | p => [p]

/-- Both predicates; operands that are conjunctions are merged. -/
def and (p q : Predicate) : Predicate := all (p.conjunctOperands ++ q.conjunctOperands)

/-- One of the predicates; operands that are disjunctions are merged. -/
def or (p q : Predicate) : Predicate := any (p.disjunctOperands ++ q.disjunctOperands)

mutual

def text : Predicate → String
  | always => "true"
  | compare column op value => column ++ " " ++ op.text ++ " " ++ value.text
  | inList column values negated =>
    column ++ (if negated then " NOT" else "") ++ " IN (" ++
      ", ".intercalate (values.map Literal.text) ++ ")"
  | isNull column negated => column ++ " IS " ++ (if negated then "NOT " else "") ++ "NULL"
  | not operand => "NOT (" ++ operand.text ++ ")"
  | all operands => "(" ++ " AND ".intercalate (texts operands) ++ ")"
  | any operands => "(" ++ " OR ".intercalate (texts operands) ++ ")"

def texts : List Predicate → List String
  | [] => []
  | p :: ps => p.text :: texts ps

end

mutual

/-- The terms of a conjunction, looking into nested conjunctions. A conjunction without operands is
a term itself. -/
def conjuncts : Predicate → List Predicate
  | all [] => [all []]
  | all (p :: ps) => p.conjuncts ++ conjunctsList ps
  | p => [p]

/-- The terms of several predicates taken together. -/
def conjunctsList : List Predicate → List Predicate
  | [] => []
  | p :: ps => p.conjuncts ++ conjunctsList ps

end

end Predicate

end MergeOnRead
