import Mathlib.Data.List.Forall2
import Propositional.Proofs.Evaluation.Search
import Propositional.Proofs.NormalForm.Meaning

/-!
# Equivalent formulas

Whether two formulas are equivalent is found out by a search over the variables of these two and no
others, so that verdicts on different pairs speak of different assignments. To compare them one
needs a measure that does not change with the pair, and the assignments with defaults are one: they
say something of every variable, whatever the formulas are. Formulas are equivalent exactly if they
have the same value under all of these (`Propositional.Formula.equivalent_iff`). In the one
direction such an assignment covers the variables of the pair, so the search would have told; in the
other, what the search has found can be given defaults, since the formulas do not ask for other
variables.

From there on no search is left to think of. Equality of values is an equivalence relation, it
passes through the connectives, and normalizing keeps it. Partial assignments can tell more apart
than the search does, for of two equivalent formulas one may have a value where the other has none;
but that they never contradict each other is a matter of extending the assignment.
-/

namespace Propositional.Formula

variable {a b : Formula} {op : Connective} {as bs : List Formula}

/-! ### A measure for all pairs -/

/-- **Equivalence** is having the same value under every assignment with defaults. -/
theorem equivalent_iff : a.equivalent b = true ↔
    ∀ s : Assignment, s.defaults = true → a.evaluate s = b.evaluate s := by
  rw [equivalent, Option.isNone_iff_eq_none]
  constructor
  · intro hnone s hs
    by_contra hne
    obtain ⟨w, hw, -⟩ := exists_counterexample (Assignment.covers_of_defaults hs _) hne
    rw [hnone] at hw
    cases hw
  · intro h
    refine Option.eq_none_iff_forall_ne_some.mpr fun w hw => ?_
    obtain ⟨hcontinues, hne⟩ := of_counterexample_eq_some hw
    -- defaults change nothing for the variables of the pair, because these have been set
    have hagree : ∀ v ∈ namesOfBoth a b, w.get? v = w.withDefaults.get? v := by
      intro v hv
      obtain ⟨x, hx⟩ := Option.isSome_iff_exists.mp (hcontinues.covers v hv)
      rw [hx, w.extends_withDefaults v x hx]
    have ha : a.evaluate w = a.evaluate w.withDefaults :=
      evaluate_eq_of_occurrences fun v hv => hagree v (mem_namesOfBoth.mpr (.inl hv))
    have hb : b.evaluate w = b.evaluate w.withDefaults :=
      evaluate_eq_of_occurrences fun v hv => hagree v (mem_namesOfBoth.mpr (.inr hv))
    rw [ha, hb] at hne
    exact hne (h w.withDefaults rfl)

/-- Equivalence is reflexive, symmetric and transitive, whatever variables the formulas have. -/
theorem equivalence_equivalent : Equivalence fun a b : Formula => a.equivalent b = true where
  refl _ := equivalent_iff.mpr fun _ _ => rfl
  symm h := equivalent_iff.mpr fun s hs => (equivalent_iff.mp h s hs).symm
  trans h h' := equivalent_iff.mpr fun s hs =>
    (equivalent_iff.mp h s hs).trans (equivalent_iff.mp h' s hs)

/-! ### Equivalent parts -/

theorem equivalent_neg (h : a.equivalent b = true) : (neg a).equivalent (neg b) = true := by
  rw [equivalent_iff] at h ⊢
  intro s hs
  rw [evaluate_neg, evaluate_neg, h s hs]

/-- Terms that are equivalent one by one have the same values one by one. -/
theorem map_evaluate_of_forall₂ (h : List.Forall₂ (fun a b => a.equivalent b = true) as bs)
    {s : Assignment} (hs : s.defaults = true) : as.map (evaluate s) = bs.map (evaluate s) := by
  induction h with
  | nil => rfl
  | cons hab _ ih => rw [List.map_cons, List.map_cons, equivalent_iff.mp hab s hs, ih]

theorem equivalent_join (h : List.Forall₂ (fun a b => a.equivalent b = true) as bs) :
    (join op as).equivalent (join op bs) = true :=
  equivalent_iff.mpr fun s hs => evaluate_join_of_values s op (map_evaluate_of_forall₂ h hs)

/-- A combined join is equivalent to the plain one. -/
theorem equivalent_combine_join (op : Connective) (ts : List Formula) :
    (combine op ts).equivalent (join op ts) = true :=
  equivalent_iff.mpr fun s _ => evaluate_combine s op ts

theorem equivalent_combine (h : List.Forall₂ (fun a b => a.equivalent b = true) as bs) :
    (combine op as).equivalent (combine op bs) = true :=
  equivalence_equivalent.trans (equivalent_combine_join op as)
    (equivalence_equivalent.trans (equivalent_join h)
      (equivalence_equivalent.symm (equivalent_combine_join op bs)))

/-! ### Normal forms -/

/-- **A formula is equivalent to its normal form.** -/
theorem equivalent_normalize (dropUnits : Bool) (t : Formula) :
    t.equivalent (t.normalize dropUnits) = true := by
  refine equivalent_iff.mpr fun s _ => ?_
  rw [normalize, normalizeLogged, evaluate_normalForm]
  simp

/-- The verdict on two formulas is that on their normal forms, each made in either way. -/
theorem equivalent_eq_equivalent_normalize (a b : Formula) (d e : Bool) :
    a.equivalent b = (a.normalize d).equivalent (b.normalize e) := by
  have ha : a.equivalent (a.normalize d) = true := equivalent_normalize d a
  have hb : b.equivalent (b.normalize e) = true := equivalent_normalize e b
  refine Bool.eq_iff_iff.mpr ⟨fun h => ?_, fun h => ?_⟩
  · exact equivalence_equivalent.trans (equivalence_equivalent.symm ha)
      (equivalence_equivalent.trans h hb)
  · exact equivalence_equivalent.trans ha
      (equivalence_equivalent.trans h (equivalence_equivalent.symm hb))

/-! ### Partial assignments -/

/-- **Equivalent formulas do not contradict each other** under any assignment, however little it
says. -/
theorem eq_of_evaluate_of_equivalent (h : a.equivalent b = true) {s : Assignment} {x y : Bool}
    (ha : a.evaluate s = some x) (hb : b.evaluate s = some y) : x = y := by
  have hvalue : a.evaluate s.withDefaults = b.evaluate s.withDefaults := equivalent_iff.mp h _ rfl
  rw [evaluate_of_extends s.extends_withDefaults ha,
    evaluate_of_extends s.extends_withDefaults hb] at hvalue
  exact Option.some.inj hvalue

/-- **Equivalence is a congruence**, on formulas with any variables. It is an equivalence relation;
joins of terms that are equivalent one by one are equivalent, both the plain and the combined ones,
and so are negations; normalizing, with or without units, changes no verdict; and no assignment,
partial ones included, makes one of two equivalent formulas true and the other false. -/
theorem equivalent_isCongruence :
    (Equivalence fun a b : Formula => a.equivalent b = true) ∧
    (∀ op as bs, List.Forall₂ (fun a b : Formula => a.equivalent b = true) as bs →
      (combine op as).equivalent (combine op bs) = true ∧
        (join op as).equivalent (join op bs) = true) ∧
    (∀ a b : Formula, a.equivalent b = true → (neg a).equivalent (neg b) = true) ∧
    (∀ (a b : Formula) (d e : Bool),
      a.equivalent b = (a.normalize d).equivalent (b.normalize e)) ∧
    ∀ a b : Formula, a.equivalent b = true → ∀ (s : Assignment) (x y : Bool),
      a.evaluate s = some x → b.evaluate s = some y → x = y := by
  refine ⟨equivalence_equivalent, fun op as bs h => ?_, fun a b h => equivalent_neg h,
    equivalent_eq_equivalent_normalize, fun a b h s x y ha hb => ?_⟩
  · exact ⟨equivalent_combine h, equivalent_join h⟩
  · exact eq_of_evaluate_of_equivalent h ha hb

/-- Two formulas with one variable in common, each with a variable that the other has not, and
between them one with neither. -/
theorem equivalent_isCongruence_of_foreign_variables :
    (join .and [var "p", join .or [var "q", neg (var "q")]]).equivalent
        (join .or [var "p", join .and [var "r", neg (var "r")]]) = true ∧
    (neg (join .and [var "p", join .or [var "q", neg (var "q")]])).evaluate
        ((Assignment.empty false).set "p" true) = none := by
  obtain ⟨hequivalence, -⟩ := equivalent_isCongruence
  refine ⟨hequivalence.trans (y := var "p") ?_ ?_, ?_⟩ <;> decide

end Propositional.Formula
