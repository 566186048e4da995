/-!
# The two connectives

Disjunction and conjunction are dual, and nearly everything said of the one holds of the other once
their two constants are exchanged. So the library has one type for both: a connective knows its
*unit*, the value of a join without terms, and its *zero*, the value that decides a join alone.
-/

namespace Propositional

/-- A connective that joins any number of formulas. -/
inductive Connective where
  /-- Disjunction, written `|` -/
  | or
  /-- Conjunction, written `&` -/
  | and
  deriving DecidableEq, Repr

namespace Connective

/-- The other connective: what a negation in front turns this one into. -/
def dual : Connective → Connective
  | or => and
  | and => or

/-- The unit of a connective, the value of a join that has no terms. -/
def unit : Connective → Bool
  | or => false
  | and => true

/-- The zero of a connective, the value that decides a join whatever its other terms are. -/
def zero (op : Connective) : Bool :=
  !op.unit

/-- The sign that stands between the terms of a join. -/
def symbol : Connective → Char
  | or => '|'
  | and => '&'

@[simp] theorem dual_or : dual or = and := rfl

@[simp] theorem dual_and : dual and = or := rfl

@[simp] theorem dual_dual (op : Connective) : op.dual.dual = op := by
  cases op <;> rfl

@[simp] theorem unit_or : unit or = false := rfl

@[simp] theorem unit_and : unit and = true := rfl

@[simp] theorem zero_or : zero or = true := rfl

@[simp] theorem zero_and : zero and = false := rfl

@[simp] theorem unit_dual (op : Connective) : op.dual.unit = op.zero := by
  cases op <;> rfl

@[simp] theorem zero_dual (op : Connective) : op.dual.zero = op.unit := by
  cases op <;> rfl

end Connective

end Propositional
