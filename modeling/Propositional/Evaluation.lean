import Propositional.Assignment
import Propositional.Formula.Basic

/-!
# Evaluation under partial assignments

A formula has the value `true`, the value `false`, or none, if the assignment says too little. The
connectives follow Kleene's strong three-valued logic: a zero among the terms decides a join however
little is known of the others, and a join whose terms are all units is a unit.
-/

namespace Propositional

/-- The value of a join of two terms, from theirs. -/
def Connective.kleene (op : Connective) : Option Bool → Option Bool → Option Bool
  | some a, some b => if a = op.zero ∨ b = op.zero then some op.zero else some op.unit
  | some a, none => if a = op.zero then some op.zero else none
  | none, some b => if b = op.zero then some op.zero else none
  | none, none => none

/-- **The value of a formula** under an assignment, if the assignment decides it. -/
def Formula.evaluate (s : Assignment) : Formula → Option Bool :=
  Formula.fold {
    const := some
    var := s.get?
    neg := Option.map not
    join := fun op values => values.foldl op.kleene (some op.unit) }

namespace Formula

variable (s : Assignment)

@[simp] theorem evaluate_const (b : Bool) : evaluate s (const b) = some b := by simp [evaluate]

@[simp] theorem evaluate_var (name : String) : evaluate s (var name) = s.get? name := by
  simp [evaluate]

@[simp] theorem evaluate_neg (t : Formula) : evaluate s (neg t) = (evaluate s t).map not := by
  simp [evaluate]

@[simp] theorem evaluate_join (op : Connective) (ts : List Formula) :
    evaluate s (join op ts) = (ts.map (evaluate s)).foldl op.kleene (some op.unit) := by
  simp [evaluate]

end Formula

end Propositional
