import Propositional.Proofs.NormalForm.Meaning

/-!
# Negations, one at a time

A normal form passes a whole run of negations at once and only looks whether their number is even.
The rules for negations are about one of them and what stands directly below it: a constant turns
around, a variable keeps its negation, two negations cancel, and in front of a join a negation moves
to the terms, under the dual connective. This module shows that both come to the same.

What the rules make of a formula is a fold that takes them into account
(`Propositional.Formula.foldByRules`). It has its own induction principle, with a case for each rule
(`Propositional.Formula.inductionByRules`), and with it everything is one induction: the normal form
is the fold that joins normal forms (`Propositional.Formula.normalForm_true_eq_normalFormByRules`),
the negation normal form is the fold that builds a formula again, and it does not matter whether the
rules are applied beforehand (`Propositional.Formula.foldByRules_negationNormal`).
-/

namespace Propositional.Formula

variable {α : Type} (I : Interpretation α) (dropUnits : Bool) {t : Formula}

/-! ### The rules -/

/-- **The fold by the rules**: the value of a formula under an interpretation in which every
negation first moves down to the variables, one at a time. -/
def foldByRules : Formula → α
  | const b => I.const b
  | var name => I.var name
  | join op ts => I.join op (ts.attach.map fun ⟨t, _⟩ => foldByRules t)
  | neg (const b) => I.const !b
  | neg (var name) => I.neg (I.var name)
  | neg (neg t) => foldByRules t
  | neg (join op ts) => I.join op.dual (ts.attach.map fun ⟨t, _⟩ => foldByRules (neg t))
termination_by t => t.size
decreasing_by
  · have := size_le_totalSize (by assumption)
    rw [size_join]
    omega
  · simp only [size_neg]
    omega
  · have := size_le_totalSize (by assumption)
    simp only [size_neg, size_join]
    omega

@[simp] theorem foldByRules_const (b : Bool) : foldByRules I (const b) = I.const b := by
  rw [foldByRules]

@[simp] theorem foldByRules_var (name : String) : foldByRules I (var name) = I.var name := by
  rw [foldByRules]

@[simp] theorem foldByRules_join (op : Connective) (ts : List Formula) :
    foldByRules I (join op ts) = I.join op (ts.map (foldByRules I)) := by
  rw [foldByRules]
  simp only [List.map_attach_eq_pmap, List.pmap_eq_map]

@[simp] theorem foldByRules_neg_const (b : Bool) :
    foldByRules I (neg (const b)) = I.const !b := by
  rw [foldByRules]

@[simp] theorem foldByRules_neg_var (name : String) :
    foldByRules I (neg (var name)) = I.neg (I.var name) := by
  rw [foldByRules]

@[simp] theorem foldByRules_neg_neg (t : Formula) :
    foldByRules I (neg (neg t)) = foldByRules I t := by
  rw [foldByRules]

@[simp] theorem foldByRules_neg_join (op : Connective) (ts : List Formula) :
    foldByRules I (neg (join op ts)) = I.join op.dual (ts.map fun t => foldByRules I (neg t)) := by
  rw [foldByRules]
  simp only [List.map_attach_eq_pmap, List.pmap_eq_map]

/-- **Induction by the rules**: a claim holds of all formulas if it holds of constants, of variables
and of their negations, and passes over two negations, to a join from its terms, and to the negation
of a join from the negations of its terms. -/
theorem inductionByRules {motive : Formula → Prop} (const : ∀ b, motive (const b))
    (var : ∀ name, motive (var name))
    (join : ∀ op ts, (∀ t ∈ ts, motive t) → motive (join op ts))
    (neg_const : ∀ b, motive (neg (.const b))) (neg_var : ∀ name, motive (neg (.var name)))
    (neg_neg : ∀ t, motive t → motive (neg (neg t)))
    (neg_join : ∀ op ts, (∀ t ∈ ts, motive (neg t)) → motive (neg (.join op ts)))
    (t : Formula) : motive t := by
  -- a formula and its negation together, for each of them turns into the other
  have hboth : motive t ∧ motive (neg t) := by
    induction t with
    | const b => exact ⟨const b, neg_const b⟩
    | var name => exact ⟨var name, neg_var name⟩
    | neg t ih => exact ⟨ih.2, neg_neg t ih.1⟩
    | join op ts ih =>
      exact ⟨join op ts fun t ht => (ih t ht).1, neg_join op ts fun t ht => (ih t ht).2⟩
  exact hboth.1

/-! ### Negation normal forms -/

/-- **The negation normal form**: a formula with its negations moved down to the variables, and
otherwise as it was, joins of one term or of joins included. -/
def negationNormal : Formula → Formula :=
  foldByRules { const := const, var := var, neg := neg, join := join }

/-- **The rules may be applied beforehand.** -/
theorem foldByRules_negationNormal (t : Formula) :
    foldByRules I (negationNormal t) = foldByRules I t := by
  unfold negationNormal
  induction t using inductionByRules with
  | const b => simp
  | var name => simp
  | join op ts ih =>
    rw [foldByRules_join, foldByRules_join, foldByRules_join, List.map_map]
    exact congrArg (I.join op) (List.map_congr_left ih)
  | neg_const b => simp
  | neg_var name => simp
  | neg_neg t ih => rwa [foldByRules_neg_neg, foldByRules_neg_neg]
  | neg_join op ts ih =>
    rw [foldByRules_neg_join, foldByRules_join, foldByRules_neg_join, List.map_map]
    exact congrArg (I.join op.dual) (List.map_congr_left ih)

/-- In a negation normal form there is nothing but variables below negations. -/
theorem exists_eq_var_of_within {s : Formula} (h : Within (neg s) t.negationNormal) :
    ∃ name, s = var name := by
  unfold negationNormal at h
  induction t using inductionByRules with
  | const b => simp at h
  | var name => simp at h
  | neg_const b => simp at h
  | neg_var name => exact ⟨name, by simpa using h⟩
  | neg_neg t ih => exact ih (by simpa using h)
  | join op ts ih =>
    obtain ⟨t, ht, hw⟩ : ∃ t ∈ ts, Within (neg s) _ := by simpa using h
    exact ih t ht hw
  | neg_join op ts ih =>
    obtain ⟨t, ht, hw⟩ : ∃ t ∈ ts, Within (neg s) _ := by simpa using h
    exact ih t ht hw

/-! ### Normal forms by the rules -/

/-- What becomes of the constructors in a normal form. -/
def normalInterpretation : Interpretation (Logged Formula) where
  const b := .silent (const b)
  var name := .silent (var name)
  neg := Logged.map neg
  join op xs := (Logged.gather xs).bind (joinNormal dropUnits op)

/-- **The normal form by the rules**, with the records of the distributions. -/
def normalFormByRules : Formula → Logged Formula :=
  foldByRules (normalInterpretation dropUnits)

/-- **A normal form is what the rules make of its formula.** -/
theorem normalForm_true_eq_normalFormByRules (t : Formula) :
    normalForm dropUnits true t = normalFormByRules dropUnits t := by
  unfold normalFormByRules
  induction t using inductionByRules with
  | const b => simp [normalInterpretation]
  | var name => simp [normalInterpretation]
  | join op ts ih =>
    rw [normalForm_join, foldByRules_join, List.map_congr_left ih]
    rfl
  | neg_const b => simp [normalForm_neg_eq, normalInterpretation]
  | neg_var name => simp [normalForm_neg_eq, normalInterpretation, Logged.map, Logged.silent]
  | neg_neg t ih => rwa [normalForm_neg_eq, normalForm_neg_eq, foldByRules_neg_neg]
  | neg_join op ts ih =>
    -- the sign of the join is that of its terms behind a negation each
    have hterms : ts.map (normalForm dropUnits false) =
        ts.map fun t => foldByRules (normalInterpretation dropUnits) (neg t) :=
      List.map_congr_left fun t ht => (normalForm_neg_eq dropUnits true t).symm.trans (ih t ht)
    rw [normalForm_neg_eq, Bool.not_true, normalForm_join, foldByRules_neg_join, hterms]
    rfl

/-- Of a run of negations only the parity counts. -/
theorem normalForm_negated (k : Nat) (positive : Bool) (t : Formula) :
    normalForm dropUnits positive (negated k t) =
      normalForm dropUnits positive (if k % 2 = 0 then t else neg t) := by
  induction k generalizing positive with
  | zero => rfl
  | succ k ih =>
    rw [negated_succ, normalForm_neg_eq, ih]
    rcases Nat.mod_two_eq_zero_or_one k with hk | hk
    · rw [if_pos hk, if_neg (by omega), normalForm_neg_eq]
    · rw [if_neg (by omega), if_pos (by omega), normalForm_neg_eq, Bool.not_not]

/-- **Passing negations in runs is passing them one at a time.** The normal form of a formula, with
the records of the distributions on the way, is what the rules for single negations make of the
formula. It is the normal form of the negation normal form as well, which has the value of the
formula and negations in front of variables only. So of negations in front of a formula only the
parity counts. -/
theorem normalizeLogged_by_rules (dropUnits : Bool) (t : Formula) :
    t.normalizeLogged dropUnits = normalFormByRules dropUnits t ∧
    t.normalizeLogged dropUnits = t.negationNormal.normalizeLogged dropUnits ∧
    (∀ s, t.negationNormal.evaluate s = t.evaluate s) ∧
    (∀ u, Within (neg u) t.negationNormal → ∃ name, u = var name) ∧
    ∀ k, (negated k t).normalizeLogged dropUnits =
      (if k % 2 = 0 then t else neg t).normalizeLogged dropUnits := by
  have hrules (u : Formula) : u.normalizeLogged dropUnits = normalFormByRules dropUnits u :=
    normalForm_true_eq_normalFormByRules dropUnits u
  have hnnf : t.normalizeLogged dropUnits = t.negationNormal.normalizeLogged dropUnits := by
    rw [hrules, hrules, normalFormByRules, foldByRules_negationNormal]
  refine ⟨hrules t, hnnf, fun s => ?_, fun u => exists_eq_var_of_within,
    fun k => normalForm_negated dropUnits k true t⟩
  rw [← evaluate_normalize dropUnits, normalize, ← hnnf]
  exact evaluate_normalize dropUnits t s

/-- Runs of two and three negations, above and below a join; the joins of the negation normal form
are the joins of the formula and are not spliced. -/
theorem normalizeLogged_by_rules_of_runs :
    negationNormal (negated 3 (join .and [negated 2 (var "a"), neg (join .or [var "b"])])) =
      join .or [neg (var "a"), join .or [var "b"]] ∧
    normalize true (negated 3 (join .and [negated 2 (var "a"), neg (join .or [var "b"])])) =
      normalize true (join .or [neg (var "a"), join .or [var "b"]]) ∧
    (∃ name, var "a" = var name) ∧
    (negated 3 (join .and [negated 2 (var "a"), neg (join .or [var "b"])])).normalizeLogged false =
      (neg (join .and [negated 2 (var "a"), neg (join .or [var "b"])])).normalizeLogged false := by
  have hnnf : negationNormal (negated 3 (join .and [negated 2 (var "a"),
      neg (join .or [var "b"])])) = join .or [neg (var "a"), join .or [var "b"]] := by
    simp [negationNormal]
  obtain ⟨-, hbeforehand, -, hvariables, -⟩ := normalizeLogged_by_rules true
    (negated 3 (join .and [negated 2 (var "a"), neg (join .or [var "b"])]))
  obtain ⟨-, -, -, -, hparity⟩ := normalizeLogged_by_rules false
    (join .and [negated 2 (var "a"), neg (join .or [var "b"])])
  refine ⟨hnnf, ?_, hvariables (var "a") ?_, hparity 3⟩
  · rw [normalize, hbeforehand, hnnf, normalize]
  · rw [hnnf]
    simp

end Propositional.Formula
