import Mathlib.Data.List.Basic
import Propositional.NormalForm.Basic
import Propositional.Proofs.Evaluation.Joins
import Propositional.Proofs.Formula.Parts

/-!
# What a normal form means

A normal form has the value of its formula under every assignment: not only under those that say
something of every variable, but also where the assignment leaves the formula without a value. So
every step on the way has to be sound in the three-valued sense, and each of them is: pushing a
negation through a join exchanges the two questions that settle the value of a join, joining normal
forms by `|` is a matter of splicing and dropping units, and joining them by `&` rests on one fact
about choices.

That fact is `Propositional.exists_choice_iff`: some choice has a property throughout exactly when
every list has a member with it. Read for the unit it says that a conjunction of disjunctions is
true exactly when some clause of the product is; read for what is *not* the zero it says the same
of falsity. The conjunction calls itself on the choices, which are smaller, so the proof is an
induction along its own recursion (`Propositional.Formula.evaluate_conjoin`).
-/

namespace Propositional

/-! ### Questions about choices -/

section

variable {α : Type} {p : α → Prop}

/-- **Some choice has a property throughout** exactly when every list has a member with it. -/
theorem exists_choice_iff {xss : List (List α)} :
    (∃ choice ∈ choices xss, ∀ x ∈ choice, p x) ↔ ∀ xs ∈ xss, ∃ x ∈ xs, p x := by
  induction xss with
  | nil => simp
  | cons xs xss ih =>
    rw [List.forall_mem_cons, ← ih]
    constructor
    · rintro ⟨choice, hc, hp⟩
      obtain ⟨x, hx, rest, hrest, rfl⟩ := mem_choices_cons.mp hc
      obtain ⟨hpx, hprest⟩ := List.forall_mem_cons.mp hp
      exact ⟨⟨x, hx, hpx⟩, rest, hrest, hprest⟩
    · rintro ⟨⟨x, hx, hpx⟩, rest, hrest, hprest⟩
      exact ⟨x :: rest, mem_choices_cons.mpr ⟨x, hx, rest, hrest, rfl⟩,
        List.forall_mem_cons.mpr ⟨hpx, hprest⟩⟩

/-- Every choice meets a property exactly when some list has it throughout. -/
theorem forall_choice_iff {xss : List (List α)} :
    (∀ choice ∈ choices xss, ∃ x ∈ choice, p x) ↔ ∃ xs ∈ xss, ∀ x ∈ xs, p x := by
  have h : (∃ choice ∈ choices xss, ∀ x ∈ choice, ¬p x) ↔ ∀ xs ∈ xss, ∃ x ∈ xs, ¬p x :=
    exists_choice_iff
  rw [← not_iff_not]
  simpa only [not_forall, not_exists, not_and, exists_prop] using h

end

namespace Formula

variable (s : Assignment) (dropUnits : Bool)

/-! ### Joins of normal forms -/

theorem evaluate_join_spliceTrimmed (op : Connective) (ts : List Formula) :
    evaluate s (join op (spliceTrimmed dropUnits op ts)) = evaluate s (join op ts) := by
  unfold spliceTrimmed
  split
  · rw [evaluate_join_filter_unit, evaluate_join_splice]
  · rw [evaluate_join_splice]

/-- **The disjunction of normal forms** has the value of the plain one. -/
theorem evaluate_disjoin (ts : List Formula) :
    evaluate s (disjoin dropUnits ts) = evaluate s (join .or ts) := by
  unfold disjoin
  split
  · rename_i h
    rw [evaluate_const, evaluate_join_of_mem_zero s .or (any_isConst_iff.mp h)]
    rfl
  · rw [evaluate_combine, evaluate_join_spliceTrimmed]

/-- **Distributing a conjunction** over the operands of its terms keeps its value. -/
theorem evaluate_join_choices (ts : List Formula) :
    evaluate s (join .or ((choices (ts.map (operands .or))).map (join .and))) =
      evaluate s (join .and ts) := by
  refine Connective.or.value_ext ?_ ?_
  -- true: some choice is true throughout
  · calc
      _ ↔ ∃ u ∈ (choices (ts.map (operands .or))).map (join .and), evaluate s u = some true :=
        evaluate_join_eq_zero_iff s .or
      _ ↔ ∃ choice ∈ choices (ts.map (operands .or)), ∀ t ∈ choice, evaluate s t = some true := by
        simp only [List.mem_map, exists_exists_and_eq_and]
        exact exists_congr fun choice => and_congr_right fun _ => evaluate_join_eq_unit_iff s .and
      _ ↔ ∀ us ∈ ts.map (operands .or), ∃ u ∈ us, evaluate s u = some true := exists_choice_iff
      _ ↔ ∀ t ∈ ts, evaluate s t = some true := by
        rw [List.forall_mem_map]
        refine forall₂_congr fun t _ => ?_
        rw [← evaluate_join_operands s .or t]
        exact (evaluate_join_eq_zero_iff s .or).symm
      _ ↔ evaluate s (join .and ts) = some true := (evaluate_join_eq_unit_iff s .and).symm
  -- false: every choice has something false
  · calc
      _ ↔ ∀ u ∈ (choices (ts.map (operands .or))).map (join .and), evaluate s u = some false :=
        evaluate_join_eq_unit_iff s .or
      _ ↔ ∀ choice ∈ choices (ts.map (operands .or)), ∃ t ∈ choice, evaluate s t = some false := by
        rw [List.forall_mem_map]
        exact forall₂_congr fun choice _ => evaluate_join_eq_zero_iff s .and
      _ ↔ ∃ us ∈ ts.map (operands .or), ∀ u ∈ us, evaluate s u = some false := forall_choice_iff
      _ ↔ ∃ t ∈ ts, evaluate s t = some false := by
        simp only [List.mem_map, exists_exists_and_eq_and]
        refine exists_congr fun t => and_congr_right fun _ => ?_
        rw [← evaluate_join_operands s .or t]
        exact (evaluate_join_eq_unit_iff s .or).symm
      _ ↔ evaluate s (join .and ts) = some false := (evaluate_join_eq_zero_iff s .and).symm

/-- **The conjunction of normal forms** has the value of the plain one, on any list of formulas. -/
theorem evaluate_conjoin (ts : List Formula) :
    evaluate s (conjoin dropUnits ts).value = evaluate s (join .and ts) := by
  induction ts using conjoin_induction dropUnits with
  | decided ts hf =>
    rw [conjoin_of_any_false dropUnits hf, Logged.value_silent, evaluate_const,
      evaluate_join_of_mem_zero s .and (any_isConst_iff.mp hf)]
    rfl
  | distributed ts hf hj ih =>
    set factors := spliceTrimmed dropUnits .and ts
    have hclauses : ((choices (factors.map (operands .or))).map (conjoin dropUnits)).map
          (fun x => evaluate s x.value) =
        ((choices (factors.map (operands .or))).map (join .and)).map (evaluate s) := by
      rw [List.map_map, List.map_map]
      exact List.map_congr_left ih
    rw [conjoin_of_join dropUnits hf hj, Logged.value_after, Logged.value_map,
      Logged.value_gather, evaluate_disjoin]
    calc
      _ = evaluate s (join .or ((choices (factors.map (operands .or))).map (join .and))) :=
        evaluate_join_of_values s .or (by rw [List.map_map]; exact hclauses)
      _ = evaluate s (join .and factors) := evaluate_join_choices s factors
      _ = evaluate s (join .and ts) := evaluate_join_spliceTrimmed s dropUnits .and ts
  | plain ts hf hj =>
    rw [conjoin_of_no_join dropUnits hf hj, Logged.value_silent, evaluate_combine,
      evaluate_join_spliceTrimmed]

/-! ### Normal forms of formulas -/

theorem evaluate_joinNormal (op : Connective) (ts : List Formula) :
    evaluate s (joinNormal dropUnits op ts).value = evaluate s (join op ts) := by
  cases op with
  | or => exact evaluate_disjoin s dropUnits ts
  | and => exact evaluate_conjoin s dropUnits ts

/-- **The normal form of a formula has its value**, and that of its negation the opposite one. -/
theorem evaluate_normalForm (positive : Bool) (t : Formula) :
    evaluate s (normalForm dropUnits positive t).value = (evaluate s t).map (· == positive) := by
  induction t generalizing positive with
  | const b => simp
  | var name => cases positive <;> simp
  | neg t ih =>
    rw [normalForm_neg_eq, ih, evaluate_neg]
    cases evaluate s t with
    | none => rfl
    | some b => cases b <;> cases positive <;> rfl
  | join op ts ih =>
    -- the normal forms of the terms have the values of the terms, or all the opposite ones
    have hvalues : (ts.map fun t => (normalForm dropUnits positive t).value).map (evaluate s) =
        ts.map fun t => (evaluate s t).map (· == positive) := by
      rw [List.map_map]
      exact List.map_congr_left fun t ht => ih t ht positive
    rw [normalForm_join, Logged.value_bind, evaluate_joinNormal, Logged.value_gather, List.map_map]
    cases positive with
    | true =>
      calc
        _ = evaluate s (join op ts) := evaluate_join_of_values s op (hvalues.trans (by simp))
        _ = (evaluate s (join op ts)).map (· == true) := by simp
    | false =>
      calc
        _ = (evaluate s (join op ts)).map not :=
          evaluate_join_dual s op (hvalues.trans (by simp))
        _ = (evaluate s (join op ts)).map (· == false) := by simp

/-- **Normalizing keeps the value of a formula under every assignment**, and where the assignment
leaves the formula without a value, it leaves the normal form without one too. -/
theorem evaluate_normalize (dropUnits : Bool) (t : Formula) (s : Assignment) :
    (t.normalize dropUnits).evaluate s = t.evaluate s := by
  rw [normalize, normalizeLogged, evaluate_normalForm]
  simp

end Formula

end Propositional
