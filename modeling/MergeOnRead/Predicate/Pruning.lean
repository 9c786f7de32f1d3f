import MergeOnRead.Kleene
import MergeOnRead.Partition.Spec
import MergeOnRead.Predicate.Bound

/-!
# Pruning partitions

Which partitions a bound predicate rules out. Only the columns of identity fields have a known value
in a partition; a term over any other column is undecided and keeps the partition. On a null value a
comparison and a membership test are false, so only `IS NULL` finds it.
-/

namespace MergeOnRead

namespace BoundPredicate

/-- The outcome of one value against a test that no null passes. -/
def ofNonNull (test : Partition.Value → Bool) (value : Partition.Value) : Bool :=
  !value.isNull && test value

mutual

/-- The truth of a predicate, as far as the known values of columns decide it. -/
def outcome (valueOf : String → Option Partition.Value) : BoundPredicate → Kleene.Truth
  | always => some true
  | compare bound op value =>
    (valueOf bound.column.name).map (ofNonNull fun actual => op.holds (Ord.compare actual value))
  | inList bound values negated =>
    (valueOf bound.column.name).map (ofNonNull fun actual => values.contains actual != negated)
  | isNull bound negated => (valueOf bound.column.name).map fun actual => actual.isNull != negated
  | not operand => Kleene.not (operand.outcome valueOf)
  | all operands => Kleene.all (outcomes valueOf operands)
  | any operands => Kleene.any (outcomes valueOf operands)

def outcomes (valueOf : String → Option Partition.Value) :
    List BoundPredicate → List Kleene.Truth
  | [] => []
  | p :: ps => p.outcome valueOf :: outcomes valueOf ps

end

end BoundPredicate

namespace Partition.Spec

/-- The columns whose value a partition key may tell: those of the identity fields, in order. -/
def identityColumns (spec : Spec) : List String :=
  (spec.fields.filter fun field => field.transform = .identity).map (·.source)

/-- The value of a column in a partition. The place of the column among the identity columns is its
place in the key. -/
def valueOf? (spec : Spec) (key : Key) (column : String) : Option Value :=
  match spec.identityColumns.findIdx? (· == column) with
  | some place => key[place]?
  | none => none

/-- Whether rows of a partition may satisfy a predicate: unless it is decided to be false. -/
def mayMatch (spec : Spec) (predicate : BoundPredicate) (key : Key) : Bool :=
  predicate.outcome (spec.valueOf? key) != some false

end Partition.Spec

end MergeOnRead
