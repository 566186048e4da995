import Propositional.Evaluation
import Propositional.Formula.Construction
import Propositional.Formula.Shape

/-!
# The value of a join under a partial assignment

A join is evaluated from the left, with one value carried along, but what comes out does not depend
on that order: the join has the *zero* of its connective exactly when some term has it, and the
*unit* exactly when every term has it (`Propositional.Formula.evaluate_join_eq_zero_iff`,
`Propositional.Formula.evaluate_join_eq_unit_iff`). There is no third value to ask about, so these
two questions settle the value of a join altogether
(`Propositional.Formula.evaluate_join_congr`), the case included where it has none.

Everything else in this file is read off them: splicing, collapsing, dropping units and building a
formula anew from its leaves all leave the value alone, under every assignment, however little that
assignment says.
-/

namespace Propositional

/-! ### The join of two values -/

namespace Connective

variable (op : Connective)

/-- The two constants of a connective are different. -/
theorem unit_ne_zero : op.unit ≠ op.zero := by
  cases op <;> decide

/-- Two values are equal if they are the zero together and the unit together. -/
theorem value_ext {x y : Option Bool} (hz : x = some op.zero ↔ y = some op.zero)
    (hu : x = some op.unit ↔ y = some op.unit) : x = y := by
  cases op <;> rcases x with _ | _ | _ <;> rcases y with _ | _ | _ <;> simp_all

/-- A zero decides a join of two. -/
theorem kleene_eq_zero_iff {x y : Option Bool} :
    op.kleene x y = some op.zero ↔ x = some op.zero ∨ y = some op.zero := by
  cases op <;> rcases x with _ | _ | _ <;> rcases y with _ | _ | _ <;> decide

/-- A join of two is the unit only if both are. -/
theorem kleene_eq_unit_iff {x y : Option Bool} :
    op.kleene x y = some op.unit ↔ x = some op.unit ∧ y = some op.unit := by
  cases op <;> rcases x with _ | _ | _ <;> rcases y with _ | _ | _ <;> decide

/-- A zero anywhere, at the start or on the way, is what comes out. -/
theorem foldl_kleene_eq_zero_iff (values : List (Option Bool)) (x : Option Bool) :
    values.foldl op.kleene x = some op.zero ↔ x = some op.zero ∨ some op.zero ∈ values := by
  induction values generalizing x with
  | nil => simp
  | cons v values ih =>
    rw [List.foldl_cons, ih, kleene_eq_zero_iff, List.mem_cons, or_assoc, eq_comm (a := v)]

/-- The unit comes out only if there was nothing else. -/
theorem foldl_kleene_eq_unit_iff (values : List (Option Bool)) (x : Option Bool) :
    values.foldl op.kleene x = some op.unit ↔
      x = some op.unit ∧ ∀ v ∈ values, v = some op.unit := by
  induction values generalizing x with
  | nil => simp
  | cons v values ih =>
    rw [List.foldl_cons, ih, kleene_eq_unit_iff, List.forall_mem_cons, and_assoc]

/-- The other connective does to the opposite values what this one does to the values. -/
theorem foldl_kleene_dual (values : List (Option Bool)) (x : Option Bool) :
    (values.map (Option.map not)).foldl op.dual.kleene (x.map not) =
      (values.foldl op.kleene x).map not := by
  have hstep (x y : Option Bool) :
      op.dual.kleene (x.map not) (y.map not) = (op.kleene x y).map not := by
    cases op <;> rcases x with _ | _ | _ <;> rcases y with _ | _ | _ <;> rfl
  induction values generalizing x with
  | nil => rfl
  | cons v values ih => rw [List.map_cons, List.foldl_cons, List.foldl_cons, hstep, ih]

end Connective

namespace Formula

variable (s : Assignment) (op : Connective)

/-! ### The value of a join -/

/-- **A join is zero exactly when one of its terms is.** -/
theorem evaluate_join_eq_zero_iff {ts : List Formula} :
    evaluate s (join op ts) = some op.zero ↔ ∃ t ∈ ts, evaluate s t = some op.zero := by
  have hne : (some op.unit : Option Bool) ≠ some op.zero := by simpa using op.unit_ne_zero
  rw [evaluate_join, op.foldl_kleene_eq_zero_iff]
  simp [hne]

/-- **A join is the unit exactly when all its terms are.** -/
theorem evaluate_join_eq_unit_iff {ts : List Formula} :
    evaluate s (join op ts) = some op.unit ↔ ∀ t ∈ ts, evaluate s t = some op.unit := by
  rw [evaluate_join, op.foldl_kleene_eq_unit_iff]
  simp

/-- Two joins have the same value if their terms answer the same two questions. -/
theorem evaluate_join_congr {ts us : List Formula}
    (hz : (∃ t ∈ ts, evaluate s t = some op.zero) ↔ ∃ u ∈ us, evaluate s u = some op.zero)
    (hu : (∀ t ∈ ts, evaluate s t = some op.unit) ↔ ∀ u ∈ us, evaluate s u = some op.unit) :
    evaluate s (join op ts) = evaluate s (join op us) := by
  refine op.value_ext ?_ ?_
  · rw [evaluate_join_eq_zero_iff, evaluate_join_eq_zero_iff, hz]
  · rw [evaluate_join_eq_unit_iff, evaluate_join_eq_unit_iff, hu]

/-- Only the values of the terms matter to a join. -/
theorem evaluate_join_of_values {ts us : List Formula}
    (h : ts.map (evaluate s) = us.map (evaluate s)) :
    evaluate s (join op ts) = evaluate s (join op us) := by
  rw [evaluate_join, evaluate_join, h]

/-- **A negation exchanges the connectives**: the other join of the opposite values has the opposite
value. -/
theorem evaluate_join_dual {ts us : List Formula}
    (h : us.map (evaluate s) = ts.map fun t => (evaluate s t).map not) :
    evaluate s (join op.dual us) = (evaluate s (join op ts)).map not := by
  have hmap : (ts.map fun t => (evaluate s t).map not) =
      (ts.map (evaluate s)).map (Option.map not) := by simp
  rw [evaluate_join, evaluate_join, h, hmap, ← op.foldl_kleene_dual]
  simp [Connective.zero]

@[simp] theorem evaluate_join_singleton (t : Formula) :
    evaluate s (join op [t]) = evaluate s t := by
  refine op.value_ext ?_ ?_
  · simp only [evaluate_join_eq_zero_iff, List.mem_singleton, exists_eq_left]
  · simp only [evaluate_join_eq_unit_iff, List.mem_singleton, forall_eq]

/-- A zero among the terms is the value of the join. -/
theorem evaluate_join_of_mem_zero {ts : List Formula} (h : const op.zero ∈ ts) :
    evaluate s (join op ts) = some op.zero :=
  (evaluate_join_eq_zero_iff s op).mpr ⟨_, h, evaluate_const s _⟩

/-! ### Splicing, collapsing and dropping units -/

/-- The operands of a formula, joined again, have its value. -/
theorem evaluate_join_operands (t : Formula) :
    evaluate s (join op (operands op t)) = evaluate s t := by
  cases t with
  | join p ts =>
    by_cases h : p = op
    · rw [h, operands_join_self]
    · rw [operands_join_of_ne h, evaluate_join_singleton]
  | _ => exact evaluate_join_singleton s op _

theorem evaluate_join_splice (ts : List Formula) :
    evaluate s (join op (splice op ts)) = evaluate s (join op ts) := by
  -- a question about the operands of all terms is the same question about the terms
  have hz (t : Formula) : evaluate s t = some op.zero ↔
      ∃ u ∈ operands op t, evaluate s u = some op.zero := by
    rw [← evaluate_join_eq_zero_iff, evaluate_join_operands]
  have hu (t : Formula) : evaluate s t = some op.unit ↔
      ∀ u ∈ operands op t, evaluate s u = some op.unit := by
    rw [← evaluate_join_eq_unit_iff, evaluate_join_operands]
  refine evaluate_join_congr s op ?_ ?_
  · constructor
    · rintro ⟨u, hut, he⟩
      obtain ⟨t, ht, hut⟩ := List.mem_flatMap.mp hut
      exact ⟨t, ht, (hz t).mpr ⟨u, hut, he⟩⟩
    · rintro ⟨t, ht, he⟩
      obtain ⟨u, hut, he⟩ := (hz t).mp he
      exact ⟨u, List.mem_flatMap.mpr ⟨t, ht, hut⟩, he⟩
  · constructor
    · exact fun h t ht => (hu t).mpr fun u hut => h u (List.mem_flatMap.mpr ⟨t, ht, hut⟩)
    · intro h u hut
      obtain ⟨t, ht, hut⟩ := List.mem_flatMap.mp hut
      exact (hu t).mp (h t ht) u hut

theorem evaluate_collapse (ts : List Formula) :
    evaluate s (collapse op ts) = evaluate s (join op ts) := by
  match ts with
  | [] => simp
  | [t] => rw [collapse_singleton, evaluate_join_singleton]
  | t :: u :: ts => rfl

/-- **The combined join of a list has the value of the plain one.** -/
theorem evaluate_combine (ts : List Formula) :
    evaluate s (combine op ts) = evaluate s (join op ts) := by
  rw [combine, evaluate_collapse, evaluate_join_splice]

/-- Units among the terms do not count. -/
theorem evaluate_join_filter_unit (ts : List Formula) :
    evaluate s (join op (ts.filter fun t => !t.isConst op.unit)) = evaluate s (join op ts) := by
  have hunit {t : Formula} (h : t.isConst op.unit = true) : evaluate s t = some op.unit := by
    cases t with
    | const b => simpa [isConst, eq_comm (a := op.unit)] using h
    | _ => simp [isConst] at h
  refine evaluate_join_congr s op ?_ ?_
  · constructor
    · rintro ⟨t, ht, he⟩
      exact ⟨t, (List.mem_filter.mp ht).1, he⟩
    · rintro ⟨t, ht, he⟩
      refine ⟨t, List.mem_filter.mpr ⟨ht, ?_⟩, he⟩
      cases hc : t.isConst op.unit with
      | false => rfl
      | true => simp [hunit hc, op.unit_ne_zero] at he
  · constructor
    · intro h t ht
      cases hc : t.isConst op.unit with
      | false => exact h t (List.mem_filter.mpr ⟨ht, by simp [hc]⟩)
      | true => exact hunit hc
    · exact fun h t ht => h t (List.mem_filter.mp ht).1

/-- **Building a formula anew keeps its value.** -/
theorem evaluate_rebuild (t : Formula) : evaluate s (rebuild t) = evaluate s t := by
  induction t with
  | const b => simp
  | var name => simp
  | neg t ih => simp [ih]
  | join op ts ih =>
    rw [rebuild_join, evaluate_combine]
    refine evaluate_join_of_values s op ?_
    rw [List.map_map]
    exact List.map_congr_left ih

end Formula

end Propositional
