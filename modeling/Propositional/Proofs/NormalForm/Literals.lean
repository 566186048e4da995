import Mathlib.Data.List.Basic
import Propositional.NormalForm.Basic
import Propositional.Proofs.Formula.Flatness

/-!
# The literals of a normal form

A variable stands in a formula under some number of negations, and all that a normal form keeps of
them is whether the number is even. That is the *sign* of the occurrence
(`Propositional.Formula.literals`), and normalizing makes no occurrence of a sign that was not there
before (`Propositional.Formula.literals_normalForm_subset`): what it does to lists of formulas is to
splice, trim, choose from and collapse them, and none of these has anything to add.

The joins of normal forms are dealt with on any formulas, since nothing depends on their shape. The
conjunction calls itself on the choices, so its case is an induction along its own recursion.
-/

namespace Propositional.Formula

variable {dropUnits p : Bool} {op : Connective} {t : Formula} {ts : List Formula}

/-! ### Signs -/

/-- **The literals of a formula**: the occurrences of its variables from left to right, each with
its sign. The sign is the given one under an even number of negations and the other one under an odd
number. -/
def literals (positive : Bool) (t : Formula) : List (String × Bool) :=
  fold (α := Bool → List (String × Bool)) {
    const := fun _ _ => []
    var := fun name positive => [(name, positive)]
    neg := fun ls positive => ls (!positive)
    join := fun _ lss positive => lss.flatMap fun ls => ls positive } t positive

@[simp] theorem literals_const (b : Bool) : literals p (const b) = [] := by simp [literals]

@[simp] theorem literals_var (name : String) : literals p (var name) = [(name, p)] := by
  simp [literals]

@[simp] theorem literals_neg (t : Formula) : literals p (neg t) = literals (!p) t := by
  simp [literals]

@[simp] theorem literals_join (op : Connective) (ts : List Formula) :
    literals p (join op ts) = ts.flatMap (literals p) := by
  simp only [literals, fold_join, List.flatMap_map]
  rfl

/-- Without their signs, the literals are the occurrences of the variables. -/
theorem map_fst_literals (t : Formula) : (literals p t).map Prod.fst = t.occurrences := by
  induction t generalizing p with
  | const b => simp
  | var name => simp
  | neg t ih => rw [literals_neg, ih, occurrences_neg]
  | join op ts ih =>
    rw [literals_join, List.map_flatMap, occurrences_join]
    exact List.flatMap_congr fun t ht => ih t ht

/-! ### Lists that go into a join -/

theorem literals_combine (op : Connective) (ts : List Formula) :
    literals p (combine op ts) = ts.flatMap (literals p) :=
  apply_combine (literals_join op) (literals_const _) ts

theorem literals_spliceTrimmed_subset (op : Connective) (ts : List Formula) :
    (spliceTrimmed dropUnits op ts).flatMap (literals p) ⊆ ts.flatMap (literals p) := by
  intro l hl
  obtain ⟨u, hu, hlu⟩ := List.mem_flatMap.mp hl
  rw [← flatMap_splice (literals_join op) ts]
  refine List.mem_flatMap.mpr ⟨u, ?_, hlu⟩
  unfold spliceTrimmed at hu
  split at hu
  · exact List.filter_subset_self _ hu
  · exact hu

/-- A choice of operands has no other literals than the formulas chosen from. -/
theorem literals_choice_subset {choice : List Formula}
    (hc : choice ∈ choices (ts.map (operands op))) :
    choice.flatMap (literals p) ⊆ ts.flatMap (literals p) := by
  induction ts generalizing choice with
  | nil => simp_all
  | cons t ts ih =>
    obtain ⟨u, hu, rest, hrest, rfl⟩ := mem_choices_cons.mp hc
    have hut : literals p u ⊆ literals p t := by
      intro l hl
      rw [← flatMap_operands (literals_join op) t]
      exact List.mem_flatMap.mpr ⟨u, hu, hl⟩
    intro l hl
    rw [List.flatMap_cons, List.mem_append] at hl ⊢
    exact hl.imp (fun h => hut h) (fun h => ih hrest h)

/-! ### Joins of normal forms -/

theorem literals_disjoin_subset (ts : List Formula) :
    literals p (disjoin dropUnits ts) ⊆ ts.flatMap (literals p) := by
  unfold disjoin
  split
  · simp
  · rw [literals_combine]
    exact literals_spliceTrimmed_subset .or ts

theorem literals_conjoin_subset (ts : List Formula) :
    literals p (conjoin dropUnits ts).value ⊆ ts.flatMap (literals p) := by
  induction ts using conjoin_induction dropUnits with
  | decided ts hf =>
    rw [conjoin_of_any_false dropUnits hf]
    simp
  | distributed ts hf hj ih =>
    rw [conjoin_of_join dropUnits hf hj, Logged.value_after, Logged.value_map,
      Logged.value_gather, List.map_map]
    intro l hl
    obtain ⟨clause, hclause, hlclause⟩ := List.mem_flatMap.mp (literals_disjoin_subset _ hl)
    obtain ⟨choice, hchoice, rfl⟩ := List.mem_map.mp hclause
    -- from the clause to its choice, from there to the factors, and on to the list
    have hlfactors : l ∈ (spliceTrimmed dropUnits .and ts).flatMap (literals p) :=
      literals_choice_subset hchoice (ih choice hchoice hlclause)
    exact literals_spliceTrimmed_subset .and ts hlfactors
  | plain ts hf hj =>
    rw [conjoin_of_no_join dropUnits hf hj, Logged.value_silent, literals_combine]
    exact literals_spliceTrimmed_subset .and ts

theorem literals_joinNormal_subset (op : Connective) (ts : List Formula) :
    literals p (joinNormal dropUnits op ts).value ⊆ ts.flatMap (literals p) := by
  cases op with
  | or => exact literals_disjoin_subset ts
  | and => exact literals_conjoin_subset ts

/-! ### Normal forms of formulas -/

/-- **A normal form has no literals but those of its formula**, or of the negation of this if it is
not taken positively. -/
theorem literals_normalForm_subset (dropUnits positive : Bool) (t : Formula) :
    literals true (normalForm dropUnits positive t).value ⊆ literals positive t := by
  induction t generalizing positive with
  | const b => simp
  | var name => cases positive <;> simp
  | neg t ih =>
    rw [normalForm_neg_eq, literals_neg]
    exact ih _
  | join op ts ih =>
    rw [normalForm_join, Logged.value_bind, Logged.value_gather, List.map_map, literals_join]
    intro l hl
    obtain ⟨n, hn, hln⟩ := List.mem_flatMap.mp (literals_joinNormal_subset _ _ hl)
    obtain ⟨t, ht, rfl⟩ := List.mem_map.mp hn
    exact List.mem_flatMap.mpr ⟨t, ht, ih t ht positive hln⟩

/-- **A normal form has no variables but those of its formula.** -/
theorem occurrences_normalize_subset (dropUnits : Bool) (t : Formula) :
    (t.normalize dropUnits).occurrences ⊆ t.occurrences := by
  rw [← map_fst_literals (p := true), ← map_fst_literals (p := true)]
  exact List.map_subset _ (literals_normalForm_subset dropUnits true t)

end Propositional.Formula
