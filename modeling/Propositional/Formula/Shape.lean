import Propositional.Formula.Construction

/-!
# Shapes of formulas

The shapes that a disjunctive normal form is made of: a *literal* is a constant, a variable or a
negated variable, a *clause* is a literal or a conjunction of literals, and a formula is *in
disjunctive normal form* if it is a clause or a disjunction of clauses. Beside them stands
flatness, which concerns every join in a formula: at least two terms, none of them a join of the
same connective.
-/

namespace Propositional.Formula

/-- Whether a formula is the given constant. -/
def isConst (b : Bool) : Formula → Bool
  | const c => b == c
  | _ => false

/-- Whether a formula is a join of the given connective. -/
def isJoin (op : Connective) : Formula → Bool
  | join p _ => p == op
  | _ => false

/-- A formula that is no join of a connective is its own only operand. -/
theorem operands_eq_singleton {op : Connective} {t : Formula} (h : t.isJoin op = false) :
    operands op t = [t] := by
  cases t with
  | join p ts => exact operands_join_of_ne (by simpa [isJoin] using h) ts
  | _ => rfl

/-- A literal is a constant, a variable or a negated variable. -/
def isLiteral : Formula → Bool
  | const _ => true
  | var _ => true
  | neg (var _) => true
  | _ => false

/-- A clause is a literal or a conjunction of literals. -/
def isClause : Formula → Bool
  | join .and ts => ts.all isLiteral
  | t => t.isLiteral

/-- A formula is in disjunctive normal form if it is a clause or a disjunction of clauses. -/
def isDnf : Formula → Bool
  | join .or ts => ts.all isClause
  | t => t.isClause

mutual

/-- A formula is flat if each of its joins has at least two terms and no term that is a join of the
same connective. -/
def isFlat : Formula → Bool
  | const _ => true
  | var _ => true
  | neg t => isFlat t
  | join op ts => decide (2 ≤ ts.length) && areFlatBelow op ts

/-- Whether all members of a list are flat and no join of the connective that stands above them. -/
def areFlatBelow (op : Connective) : List Formula → Bool
  | [] => true
  | t :: ts => !t.isJoin op && isFlat t && areFlatBelow op ts

end

theorem areFlatBelow_eq_all (op : Connective) (ts : List Formula) :
    areFlatBelow op ts = ts.all fun t => !t.isJoin op && isFlat t := by
  induction ts with
  | nil => rfl
  | cons t ts ih => simp [areFlatBelow, ih]

@[simp] theorem isFlat_const (b : Bool) : isFlat (const b) = true := by rw [isFlat]

@[simp] theorem isFlat_var (name : String) : isFlat (var name) = true := by rw [isFlat]

@[simp] theorem isFlat_neg (t : Formula) : isFlat (neg t) = isFlat t := by rw [isFlat]

@[simp] theorem isFlat_join (op : Connective) (ts : List Formula) :
    isFlat (join op ts) =
      (decide (2 ≤ ts.length) && ts.all fun t => !t.isJoin op && isFlat t) := by
  rw [isFlat, areFlatBelow_eq_all]

end Propositional.Formula
