import Propositional.Formula.Basic

/-!
# Building joins

A join of formulas is best built by `Propositional.Formula.combine`, which keeps formulas flat: a
term that is itself a join of the same connective gives its own terms in its place, a single term
stands for itself, and no term at all is the unit of the connective. Splicing goes one level deep,
which is enough where the terms are flat already; `Propositional.Formula.rebuild` makes any formula
flat by combining from the leaves upwards.
-/

namespace Propositional.Formula

/-- The formulas that a formula contributes to a join of the connective `op`: its terms if it is
such a join, else itself alone. The operands of a normal form for `|` are its clauses, and those of
a clause for `&` its literals. -/
def operands (op : Connective) : Formula → List Formula
  | join p ts => if p = op then ts else [join p ts]
  | t => [t]

@[simp] theorem operands_const (op : Connective) (b : Bool) :
    operands op (const b) = [const b] := rfl

@[simp] theorem operands_var (op : Connective) (name : String) :
    operands op (var name) = [var name] := rfl

@[simp] theorem operands_neg (op : Connective) (t : Formula) : operands op (neg t) = [neg t] := rfl

@[simp] theorem operands_join_self (op : Connective) (ts : List Formula) :
    operands op (join op ts) = ts := by
  simp [operands]

theorem operands_join_of_ne {op p : Connective} (h : p ≠ op) (ts : List Formula) :
    operands op (join p ts) = [join p ts] := by
  simp [operands, h]

/-- A list of terms with every join of the connective `op` among them replaced by its terms. -/
def splice (op : Connective) (ts : List Formula) : List Formula :=
  ts.flatMap (operands op)

@[simp] theorem splice_nil (op : Connective) : splice op [] = [] := rfl

@[simp] theorem splice_cons (op : Connective) (t : Formula) (ts : List Formula) :
    splice op (t :: ts) = operands op t ++ splice op ts := rfl

@[simp] theorem splice_append (op : Connective) (ss ts : List Formula) :
    splice op (ss ++ ts) = splice op ss ++ splice op ts := by
  simp [splice]

/-- The join of terms none of which needs splicing: the unit if there is none, the term if there is
one. -/
def collapse (op : Connective) : List Formula → Formula
  | [] => const op.unit
  | [t] => t
  | ts => join op ts

@[simp] theorem collapse_nil (op : Connective) : collapse op [] = const op.unit := rfl

@[simp] theorem collapse_singleton (op : Connective) (t : Formula) : collapse op [t] = t := rfl

@[simp] theorem collapse_cons_cons (op : Connective) (s t : Formula) (ts : List Formula) :
    collapse op (s :: t :: ts) = join op (s :: t :: ts) := rfl

/-- **The join of a list of formulas**, spliced and collapsed. -/
def combine (op : Connective) (ts : List Formula) : Formula :=
  collapse op (splice op ts)

/-- A formula built again from its leaves upwards, with every join spliced and collapsed. -/
def rebuild : Formula → Formula :=
  fold { const := const, var := var, neg := neg, join := combine }

@[simp] theorem rebuild_const (b : Bool) : rebuild (const b) = const b := by simp [rebuild]

@[simp] theorem rebuild_var (name : String) : rebuild (var name) = var name := by simp [rebuild]

@[simp] theorem rebuild_neg (t : Formula) : rebuild (neg t) = neg (rebuild t) := by simp [rebuild]

@[simp] theorem rebuild_join (op : Connective) (ts : List Formula) :
    rebuild (join op ts) = combine op (ts.map rebuild) := by simp [rebuild]

end Propositional.Formula
