import Mathlib.Data.List.Basic
import Propositional.Proofs.Evaluation.Occurrences

/-!
# What an assignment leaves open

Where a partial assignment gives a formula no value, one would like to say that the value depends on
the variables that are missing. One half of this is true of every formula: a value that is there is
kept by every extension (`Propositional.Formula.evaluate_of_extends`), so a formula that can still
become either has none yet. The other half fails as soon as a missing variable stands in two places,
as in `a | !a`, which has no value until `a` has one and then is true in any case.

It holds if no missing variable stands in two places
(`Propositional.Formula.canBecome_of_evaluate_ne`). The proof builds the extension from the leaves
upwards. To make a join its zero, one term that can become the zero is enough. To make it the unit
all terms have to become the unit at once, each by an extension of its own, and these have to be put
together; here it matters that what one of them sets is not read in the terms of another, unless it
was known before (`Propositional.Assignment.exists_extends_append`).
-/

namespace Propositional

namespace Assignment

variable {s s' s₁ s₂ : Assignment} {names names' : List String} {b : Bool}

/-! ### Extensions -/

theorem Extends.refl (s : Assignment) : s.Extends s :=
  fun _ _ h => h

theorem Extends.trans (h : s₂.Extends s₁) (h' : s₁.Extends s) : s₂.Extends s :=
  fun name b hb => h name b (h' name b hb)

/-- Giving a value to a variable without one is extending. -/
theorem extends_set {name : String} (h : s.get? name = none) : (s.set name b).Extends s := by
  intro v c hc
  have hne : v ≠ name := by
    rintro rfl
    rw [h] at hc
    cases hc
  rw [get?_set, if_neg hne, hc]

/-- **An assignment laid over another** for some variables: of these it says what the upper one says
of them, as far as that says something, and of all others what the lower one says. -/
def overlay (lower upper : Assignment) : List String → Assignment
  | [] => lower
  | name :: names =>
    match upper.get? name with
    | some b => (lower.overlay upper names).set name b
    | none => lower.overlay upper names

theorem get?_overlay (lower upper : Assignment) (names : List String) (v : String) :
    (lower.overlay upper names).get? v =
      if v ∈ names then (upper.get? v).or (lower.get? v) else lower.get? v := by
  induction names with
  | nil => simp [overlay]
  | cons name names ih =>
    by_cases hv : v = name
    · subst hv
      rw [if_pos List.mem_cons_self, overlay]
      cases hupper : upper.get? v with
      | some b => rw [get?_set, if_pos rfl, Option.some_or]
      | none => simp only [ih, hupper, Option.none_or, ite_self]
    · have hmem : v ∈ name :: names ↔ v ∈ names := by simp [hv]
      rw [if_congr hmem rfl rfl, ← ih, overlay]
      cases upper.get? name with
      | some b => exact (get?_set _ _ _ _).trans (if_neg hv)
      | none => rfl

/-! ### Reading once -/

/-- **Unknowns are read once** where some variables are read, one after the other: no variable that
has no value is among them twice. -/
def ReadsOnce (s : Assignment) (names : List String) : Prop :=
  ∀ name, s.get? name = none → names.count name ≤ 1

/-- It is enough to ask this of the variables that are read. -/
theorem readsOnce_iff :
    s.ReadsOnce names ↔ ∀ name ∈ names, s.get? name = none → names.count name ≤ 1 := by
  refine ⟨fun h name _ => h name, fun h name hname => ?_⟩
  by_cases hmem : name ∈ names
  · exact h name hmem hname
  · exact List.count_eq_zero_of_not_mem hmem ▸ Nat.zero_le 1

instance (s : Assignment) (names : List String) : Decidable (s.ReadsOnce names) :=
  decidable_of_iff _ readsOnce_iff.symm

instance (s : Assignment) (names : List String) : Decidable (s.Covers names) :=
  inferInstanceAs (Decidable (∀ name ∈ names, (s.get? name).isSome = true))

theorem ReadsOnce.sublist (h : s.ReadsOnce names) (hsub : names'.Sublist names) :
    s.ReadsOnce names' :=
  fun name hname => Nat.le_trans (hsub.count_le name) (h name hname)

/-- What is read in two parts has a value. -/
theorem ReadsOnce.exists_get?_eq (h : s.ReadsOnce (names ++ names')) {v : String} (hv : v ∈ names)
    (hv' : v ∈ names') : ∃ b, s.get? v = some b := by
  cases hget : s.get? v with
  | some b => exact ⟨b, rfl⟩
  | none =>
    have honce := h v hget
    have hpos := List.count_pos_iff.mpr hv
    have hpos' := List.count_pos_iff.mpr hv'
    rw [List.count_append] at honce
    omega

/-- **Extensions for two parts are one extension**, if the unknowns are read once: there is one that
says of each part what the extension for this part says. -/
theorem exists_extends_append (h : s.ReadsOnce (names ++ names')) (h₁ : s₁.Extends s)
    (h₂ : s₂.Extends s) (hcovers : s₁.Covers names) :
    ∃ s' : Assignment, s'.Extends s ∧ (∀ v ∈ names, s'.get? v = s₁.get? v) ∧
      ∀ v ∈ names', s'.get? v = s₂.get? v := by
  refine ⟨s₂.overlay s₁ names, fun v b hb => ?_, fun v hv => ?_, fun v hv' => ?_⟩
  · rw [get?_overlay, h₁ v b hb, h₂ v b hb]
    exact ite_self _
  · obtain ⟨b, hb⟩ := Option.isSome_iff_exists.mp (hcovers v hv)
    rw [get?_overlay, if_pos hv, hb, Option.some_or]
  · rw [get?_overlay]
    by_cases hv : v ∈ names
    · obtain ⟨b, hb⟩ := h.exists_get?_eq hv hv'
      rw [if_pos hv, h₁ v b hb, h₂ v b hb, Option.some_or]
    · rw [if_neg hv]

end Assignment

namespace Formula

variable {s s' : Assignment} {t : Formula} {ts : List Formula} {b : Bool}

/-! ### Values that a formula can still take -/

/-- **A formula can still become a truth value** if an extension of the assignment that says
something of all its variables gives it this value. -/
def CanBecome (s : Assignment) (t : Formula) (b : Bool) : Prop :=
  ∃ s' : Assignment, s'.Extends s ∧ s'.Covers t.occurrences ∧ t.evaluate s' = some b

/-- It is enough that some extension gives the value. -/
theorem canBecome_of_extends (h : s'.Extends s) (ht : t.evaluate s' = some b) :
    CanBecome s t b :=
  ⟨s'.withDefaults, s'.extends_withDefaults.trans h, Assignment.covers_of_defaults rfl _,
    evaluate_of_extends s'.extends_withDefaults ht⟩

/-- A formula with a value can become nothing else. -/
theorem CanBecome.eq {c : Bool} (h : CanBecome s t b) (ht : t.evaluate s = some c) : b = c := by
  obtain ⟨s', hextends, -, hb⟩ := h
  rw [evaluate_of_extends hextends ht] at hb
  exact (Option.some.inj hb).symm

/-- The variables of a term are among those of the join. -/
theorem sublist_flatMap_occurrences (ht : t ∈ ts) :
    t.occurrences.Sublist (ts.flatMap occurrences) := by
  rw [List.flatMap_def]
  exact List.sublist_flatten_of_mem (List.mem_map_of_mem ht)

/-- **All terms at once**: if unknowns are read once and each term can become a value, then one
extension gives it to all of them. -/
theorem exists_extends_of_canBecome (hread : s.ReadsOnce (ts.flatMap occurrences))
    (h : ∀ t ∈ ts, CanBecome s t b) :
    ∃ s' : Assignment, s'.Extends s ∧ ∀ t ∈ ts, t.evaluate s' = some b := by
  induction ts with
  | nil => exact ⟨s, .refl s, by simp⟩
  | cons t ts ih =>
    obtain ⟨⟨s₁, h₁, hcovers, ht⟩, hts⟩ := List.forall_mem_cons.mp h
    obtain ⟨s₂, h₂, hvalues⟩ := ih (hread.sublist (List.sublist_append_right _ _)) hts
    obtain ⟨s', hextends, hleft, hright⟩ :=
      Assignment.exists_extends_append hread h₁ h₂ hcovers
    refine ⟨s', hextends, List.forall_mem_cons.mpr ⟨?_, fun u hu => ?_⟩⟩
    · rw [evaluate_eq_of_occurrences hleft, ht]
    · have hagree : ∀ v ∈ u.occurrences, s'.get? v = s₂.get? v := fun v hv =>
        hright v ((sublist_flatMap_occurrences hu).subset hv)
      rw [evaluate_eq_of_occurrences hagree, hvalues u hu]

theorem eq_of_some_ne {c : Bool} (h : some c ≠ some (!b)) : c = b := by
  cases b <;> cases c <;> simp_all

/-- **What is not excluded can still happen**, if unknowns are read once: a formula that does not
have the one value can become the other. -/
theorem canBecome_of_evaluate_ne (hread : s.ReadsOnce t.occurrences)
    (h : t.evaluate s ≠ some (!b)) : CanBecome s t b := by
  induction t generalizing b with
  | const c =>
    rw [evaluate_const] at h
    exact canBecome_of_extends (.refl s) (by rw [evaluate_const, eq_of_some_ne h])
  | var name =>
    rw [evaluate_var] at h
    cases hname : s.get? name with
    | none =>
      refine canBecome_of_extends (Assignment.extends_set (b := b) hname) ?_
      rw [evaluate_var, Assignment.get?_set, if_pos rfl]
    | some c =>
      rw [hname] at h
      exact canBecome_of_extends (.refl s) (by rw [evaluate_var, hname, eq_of_some_ne h])
  | neg t ih =>
    rw [occurrences_neg] at hread
    have hne : t.evaluate s ≠ some (!!b) := fun ht => h (by rw [evaluate_neg, ht]; simp)
    obtain ⟨s', hextends, -, hvalue⟩ := ih hread hne
    refine canBecome_of_extends hextends ?_
    rw [evaluate_neg, hvalue, Option.map_some, Bool.not_not]
  | join op ts ih =>
    rw [occurrences_join] at hread
    have hterm {u : Formula} (hu : u ∈ ts) : s.ReadsOnce u.occurrences :=
      hread.sublist (sublist_flatMap_occurrences hu)
    by_cases hb : b = op.zero
    · -- one term that is not the unit can become the zero
      have hunit : (!b) = op.unit := by rw [hb, Connective.zero, Bool.not_not]
      rw [hunit, ne_eq, evaluate_join_eq_unit_iff, not_forall₂] at h
      obtain ⟨u, hu, hne⟩ := h
      obtain ⟨s', hextends, -, hvalue⟩ := ih u hu (hterm hu) (b := b) (by rwa [hunit])
      refine canBecome_of_extends hextends ?_
      rw [hb, evaluate_join_eq_zero_iff]
      exact ⟨u, hu, by rw [hvalue, hb]⟩
    · -- none of the terms is the zero, so all can become the unit, and all at once
      have hunit : b = op.unit := op.eq_unit_of_ne_zero hb
      have hzero : (!b) = op.zero := by rw [hunit]; rfl
      rw [hzero, ne_eq, evaluate_join_eq_zero_iff, not_exists] at h
      have hterms : ∀ u ∈ ts, CanBecome s u b := fun u hu =>
        ih u hu (hterm hu) fun hvalue => h u ⟨hu, by rw [hvalue, hzero]⟩
      obtain ⟨s', hextends, hvalues⟩ := exists_extends_of_canBecome hread hterms
      refine canBecome_of_extends hextends ?_
      rw [hunit, evaluate_join_eq_unit_iff]
      exact fun u hu => by rw [hvalues u hu, hunit]

/-- **Evaluation under partial assignments is sound, monotone, and exact where unknowns are read
once.** A value stays when the assignment is extended; an assignment that has values for all
variables of a formula gives it a value; and only the variables of the formula matter. If no
variable without a value stands in two places of the formula, then it has no value exactly if it can
still become true and can still become false. -/
theorem evaluate_exact_on_unknowns :
    (∀ (t : Formula) (s s' : Assignment) (b : Bool), s'.Extends s → t.evaluate s = some b →
      t.evaluate s' = some b) ∧
    (∀ (t : Formula) (s : Assignment), s.Covers t.occurrences → ∃ b, t.evaluate s = some b) ∧
    (∀ (t : Formula) (s s' : Assignment), (∀ name ∈ t.occurrences, s.get? name = s'.get? name) →
      t.evaluate s = t.evaluate s') ∧
    ∀ (t : Formula) (s : Assignment), s.ReadsOnce t.occurrences →
      (t.evaluate s = none ↔ CanBecome s t true ∧ CanBecome s t false) := by
  refine ⟨fun t s s' b hextends ht => evaluate_of_extends hextends ht,
    fun t s hcovers => Option.isSome_iff_exists.mp (isSome_evaluate hcovers),
    fun t s s' hagree => evaluate_eq_of_occurrences hagree, fun t s hread => ⟨fun hnone => ?_, ?_⟩⟩
  · have hne (b : Bool) : t.evaluate s ≠ some b := by
      rw [hnone]
      exact nofun
    exact ⟨canBecome_of_evaluate_ne hread (hne _), canBecome_of_evaluate_ne hread (hne _)⟩
  · rintro ⟨htrue, hfalse⟩
    cases hvalue : t.evaluate s with
    | none => rfl
    | some c =>
      exact absurd ((hfalse.eq hvalue).trans (htrue.eq hvalue).symm) Bool.false_ne_true

/-- A variable that is known stands in two places here and the unknown ones in one: the formula has
no value, and what is said of `b` decides it, whatever is said of `c` afterwards. -/
theorem evaluate_exact_on_unknowns_of_known_twice :
    let s := (Assignment.empty false).set "a" true
    let t := join .or [join .and [var "a", var "b"], join .and [neg (var "a"), var "c"]]
    (t.evaluate s = none ∧ CanBecome s t true ∧ CanBecome s t false) ∧
    t.evaluate (s.set "b" true) = some true ∧
    t.evaluate ((s.set "b" true).set "c" true) = some true ∧
    (∃ b, t.evaluate s.withDefaults = some b) ∧
    t.evaluate (s.set "d" false) = none := by
  intro s t
  obtain ⟨hkept, hcovers, hagree, hexact⟩ := evaluate_exact_on_unknowns
  have hnone : t.evaluate s = none := by decide
  have hb : t.evaluate (s.set "b" true) = some true := by decide
  refine ⟨⟨hnone, (hexact t s (by decide)).mp hnone⟩, hb, ?_, hcovers t s.withDefaults (by decide),
    (hagree t _ s (by decide)).trans hnone⟩
  exact hkept t _ _ true (Assignment.extends_set (by decide)) hb

/-- Without the condition on the unknowns it is different: here `a` is missing, and yet the formula
can become nothing but true. -/
theorem not_canBecome_of_read_twice :
    (join .or [var "a", neg (var "a")]).evaluate (.empty false) = none ∧
      ¬CanBecome (.empty false) (join .or [var "a", neg (var "a")]) false := by
  refine ⟨by decide, ?_⟩
  rintro ⟨s, -, -, hfalse⟩
  have hunits : ∀ t ∈ [var "a", neg (var "a")], t.evaluate s = some false :=
    (evaluate_join_eq_unit_iff s .or).mp hfalse
  have hneg : (neg (var "a")).evaluate s = some false := hunits _ (by simp)
  rw [evaluate_neg, hunits _ List.mem_cons_self] at hneg
  cases hneg

end Formula

end Propositional
