import Propositional.Proofs.Evaluation.Joins

/-!
# Which variables a value depends on

The value of a formula depends on the variables that occur in it and on nothing else
(`Propositional.Formula.evaluate_eq_of_occurrences`): neither on other variables nor on whether the
assignment has defaults, as long as it says the same of those that occur. And if it says something
of all of them, then the formula has a value (`Propositional.Formula.isSome_evaluate`). So the value
of a formula is a matter of finitely many choices, however many assignments there are.

A value that is there already stays when more is said
(`Propositional.Formula.evaluate_of_extends`). Of all extensions of an assignment one is always at
hand: the same entries with defaults, which have something to say of every variable
(`Propositional.Assignment.withDefaults`).
-/

namespace Propositional

/-- **An assignment covers some variables** if it has a value for each of them, be it one that was
set or the default. -/
def Assignment.Covers (s : Assignment) (names : List String) : Prop :=
  ∀ name ∈ names, (s.get? name).isSome = true

/-- **An assignment extends another** if it says all that the other says. -/
def Assignment.Extends (s' s : Assignment) : Prop :=
  ∀ name b, s.get? name = some b → s'.get? name = some b

/-- The same entries, with the other variables false. -/
def Assignment.withDefaults (s : Assignment) : Assignment :=
  { s with defaults := true }

/-- Defaults are added to what an assignment says; they take nothing back. -/
theorem Assignment.get?_withDefaults (s : Assignment) (name : String) :
    s.withDefaults.get? name = some ((s.get? name).getD false) := by
  unfold withDefaults get?
  cases s.entries.lookup name with
  | some b => rfl
  | none => cases s.defaults <;> rfl

theorem Assignment.extends_withDefaults (s : Assignment) : s.withDefaults.Extends s := by
  intro name b h
  rw [get?_withDefaults, h]
  rfl

/-- An assignment with defaults says something of every variable. -/
theorem Assignment.covers_of_defaults {s : Assignment} (h : s.defaults = true)
    (names : List String) : s.Covers names := by
  intro name _
  rw [get?, h]
  cases s.entries.lookup name <;> rfl

/-- A value that is not the zero of a connective is its unit. -/
theorem Connective.eq_unit_of_ne_zero (op : Connective) {b : Bool} (h : b ≠ op.zero) :
    b = op.unit := by
  cases op <;> cases b <;> simp_all

namespace Formula

variable {s s' : Assignment} {t : Formula}

/-- **Only the variables that occur matter** to the value of a formula. -/
theorem evaluate_eq_of_occurrences (h : ∀ name ∈ t.occurrences, s.get? name = s'.get? name) :
    t.evaluate s = t.evaluate s' := by
  induction t with
  | const b => simp
  | var name => simpa using h name (by simp)
  | neg t ih =>
    rw [occurrences_neg] at h
    rw [evaluate_neg, evaluate_neg, ih h]
  | join op ts ih =>
    have hterms : ts.map (evaluate s) = ts.map (evaluate s') := by
      refine List.map_congr_left fun t ht => ih t ht fun name hname => h name ?_
      rw [occurrences_join]
      exact List.mem_flatMap.mpr ⟨t, ht, hname⟩
    rw [evaluate_join, evaluate_join, hterms]

/-- **A formula has a value** under every assignment that covers its variables. -/
theorem isSome_evaluate (h : s.Covers t.occurrences) : (t.evaluate s).isSome = true := by
  induction t with
  | const b => simp
  | var name => simpa using h name (by simp)
  | neg t ih =>
    rw [occurrences_neg] at h
    rw [evaluate_neg, Option.isSome_map, ih h]
  | join op ts ih =>
    have hterms : ∀ t ∈ ts, (t.evaluate s).isSome = true := by
      refine fun t ht => ih t ht fun name hname => h name ?_
      rw [occurrences_join]
      exact List.mem_flatMap.mpr ⟨t, ht, hname⟩
    by_cases hzero : ∃ t ∈ ts, t.evaluate s = some op.zero
    · rw [(evaluate_join_eq_zero_iff s op).mpr hzero]
      rfl
    · -- no term is the zero, so all of them are the unit
      have hunit : ∀ t ∈ ts, t.evaluate s = some op.unit := by
        intro t ht
        obtain ⟨b, hb⟩ := Option.isSome_iff_exists.mp (hterms t ht)
        have hne : b ≠ op.zero := fun hb' => hzero ⟨t, ht, hb' ▸ hb⟩
        rw [hb, op.eq_unit_of_ne_zero hne]
      rw [(evaluate_join_eq_unit_iff s op).mpr hunit]
      rfl

/-- **A value stays** when the assignment is extended. -/
theorem evaluate_of_extends {b : Bool} (h : s'.Extends s) (ht : t.evaluate s = some b) :
    t.evaluate s' = some b := by
  induction t generalizing b with
  | const c => simpa using ht
  | var name =>
    rw [evaluate_var] at ht ⊢
    exact h name b ht
  | neg t ih =>
    rw [evaluate_neg, Option.map_eq_some_iff] at ht
    obtain ⟨c, hc, rfl⟩ := ht
    rw [evaluate_neg, ih hc, Option.map_some]
  | join op ts ih =>
    by_cases hb : b = op.zero
    · rw [hb, evaluate_join_eq_zero_iff] at ht
      obtain ⟨t, ht, hzero⟩ := ht
      rw [hb, evaluate_join_eq_zero_iff]
      exact ⟨t, ht, ih t ht hzero⟩
    · rw [op.eq_unit_of_ne_zero hb, evaluate_join_eq_unit_iff] at ht
      rw [op.eq_unit_of_ne_zero hb, evaluate_join_eq_unit_iff]
      exact fun t hmem => ih t hmem (ht t hmem)

end Formula

end Propositional
