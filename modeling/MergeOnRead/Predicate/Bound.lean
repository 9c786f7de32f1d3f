import MergeOnRead.Floating.Exact
import MergeOnRead.Partition.Value
import MergeOnRead.Predicate.Basic
import MergeOnRead.Schema

/-!
# Binding predicates to a schema

Binding resolves the columns of a predicate and turns its literals into values of the column types.
A literal converts only if its value is kept exactly. Defects of the predicate itself, an operator
without operands, are reported before any column is looked up, so a malformed predicate fails alike
against every schema.
-/

namespace MergeOnRead

/-- An operator over a list of operands, which must not be empty. -/
inductive ListOperator where
  | inList
  | all
  | any
deriving DecidableEq, Repr

def ListOperator.text : ListOperator → String
  | inList => "in"
  | all => "and"
  | any => "or"

/-- Why a predicate cannot be bound. -/
inductive BindError where
  | unknownColumn (name : String)
  | typeMismatch (column : Column) (literal : Literal)
  | unsupportedOperator (column : Column) (op : Comparison)
  | nullComparison (column : Column)
  | noOperands (op : ListOperator)
deriving DecidableEq, Repr

namespace BindError

/-- Whether the predicate itself is malformed, whatever the schema. -/
def isStructural : BindError → Bool
  | noOperands _ => true
  | _ => false

def name : BindError → String
  | unknownColumn _ => "UnknownColumn"
  | typeMismatch .. => "TypeMismatch"
  | unsupportedOperator .. => "UnsupportedOperator"
  | nullComparison _ => "NullComparison"
  | noOperands _ => "InvalidArity"

def message : BindError → String
  | unknownColumn name => "Unknown column: " ++ name
  | typeMismatch column literal =>
    "Type mismatch for column '" ++ column.name ++ "': cannot bind " ++ literal.text ++ " to " ++
      column.type.text
  | unsupportedOperator column op =>
    "Unsupported operator " ++ op.text ++ " for column '" ++ column.name ++ "' of type " ++
      column.type.text
  | nullComparison column =>
    "Comparison with NULL is not allowed for column '" ++ column.name ++
      "'; use IS NULL/IS NOT NULL"
  | noOperands op => "Invalid arity for " ++ op.text ++ ": expected at least 1, got 0"

end BindError

/-- A column of a schema with its position. -/
structure BoundColumn where
  index : Nat
  column : Column
deriving DecidableEq, Repr

/-- A predicate whose columns are resolved and whose literals are values of the column types. -/
inductive BoundPredicate where
  | always
  | compare (column : BoundColumn) (op : Comparison) (value : Partition.Value)
  | inList (column : BoundColumn) (values : List Partition.Value) (negated : Bool)
  | isNull (column : BoundColumn) (negated : Bool)
  | not (operand : BoundPredicate)
  | all (operands : List BoundPredicate)
  | any (operands : List BoundPredicate)
deriving Repr, Inhabited

namespace Literal

open Floating in
/-- The value of a column type that equals the literal exactly, if there is one. -/
def coerce? : ColumnType → Literal → Option Partition.Value
  | .boolean, boolean b => some (.boolean b)
  | .int32, int64 n =>
    if -0x80000000 ≤ n.toInt ∧ n.toInt < 0x80000000 then some (.int32 (.ofInt n.toInt)) else none
  | .int64, int64 n => some (.int64 n)
  | .float32, float64 bits =>
    (binary64.convert? binary32 bits.toNat).map fun b => .ofFloat32 (.ofNat b)
  | .float32, int64 n => (binary32.ofInt? n.toInt).map fun b => .ofFloat32 (.ofNat b)
  | .float64, float64 bits => some (.ofFloat64 bits)
  | .float64, int64 n => (binary64.ofInt? n.toInt).map fun b => .ofFloat64 (.ofNat b)
  | .utf8, utf8 text => some (.utf8 text)
  | .largeUtf8, utf8 text => some (.utf8 text)
  | .binary, binary bytes => some (.binary bytes)
  | .largeBinary, binary bytes => some (.binary bytes)
  | .date32, date32 days => some (.date32 days)
  | .timestampMicros _, timestampMicros micros => some (.timestampMicros micros)
  | _, _ => none

/-- The value of a column that a literal operand stands for. -/
def bind (column : Column) (literal : Literal) : Except BindError Partition.Value :=
  if literal.isNull then .error (.nullComparison column)
  else
    match literal.coerce? column.type with
    | some value => .ok value
    | none => .error (.typeMismatch column literal)

end Literal

namespace Predicate

mutual

/-- The first operator without operands, from left to right. -/
def defect? : Predicate → Option ListOperator
  | inList _ [] _ => some .inList
  | not operand => operand.defect?
  | all [] => some .all
  | all (p :: ps) => p.defect?.or (defects? ps)
  | any [] => some .any
  | any (p :: ps) => p.defect?.or (defects? ps)
  | _ => none

/-- The first operator without operands in a list of predicates. -/
def defects? : List Predicate → Option ListOperator
  | [] => none
  | p :: ps => p.defect?.or (defects? ps)

end

/-- The column of a schema that a name stands for. -/
def resolve (schema : Schema) (caseSensitive : Bool) (name : String) :
    Except BindError BoundColumn :=
  match schema.resolve? caseSensitive name with
  | some (index, column) => .ok ⟨index, column⟩
  | none => .error (.unknownColumn name)

mutual

/-- Resolves the columns and literals of a predicate from left to right; the first failure wins. -/
def bindTerms (schema : Schema) (caseSensitive : Bool) :
    Predicate → Except BindError BoundPredicate
  | always => .ok .always
  | compare name op literal => do
    let bound ← resolve schema caseSensitive name
    if literal.isNull then throw (.nullComparison bound.column)
    if !op.isEquality && bound.column.type == .boolean then
      throw (.unsupportedOperator bound.column op)
    return .compare bound op (← literal.bind bound.column)
  | inList name literals negated => do
    let bound ← resolve schema caseSensitive name
    return .inList bound (← literals.mapM fun literal => literal.bind bound.column) negated
  | isNull name negated => do
    return .isNull (← resolve schema caseSensitive name) negated
  | not operand => return .not (← operand.bindTerms schema caseSensitive)
  | all operands => return .all (← bindList schema caseSensitive operands)
  | any operands => return .any (← bindList schema caseSensitive operands)

/-- Binds a list of predicates from left to right. -/
def bindList (schema : Schema) (caseSensitive : Bool) :
    List Predicate → Except BindError (List BoundPredicate)
  | [] => .ok []
  | p :: ps => do
    let bound ← p.bindTerms schema caseSensitive
    return bound :: (← bindList schema caseSensitive ps)

end

/-- Binds a predicate to a schema. A malformed predicate is refused before any name is resolved. -/
def bind (schema : Schema) (caseSensitive : Bool) (p : Predicate) :
    Except BindError BoundPredicate :=
  match p.defect? with
  | some op => .error (.noOperands op)
  | none => p.bindTerms schema caseSensitive

end Predicate

end MergeOnRead
