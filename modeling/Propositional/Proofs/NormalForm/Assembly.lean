import Mathlib.Data.List.Basic
import Propositional.Proofs.Evaluation.Joins
import Propositional.Proofs.NormalForm.Canonical

/-!
# Assembling a layer

Both operations on normal forms do the same with a list that needs no distributing: if the zero of
the connective is in it, that is the result, and otherwise the terms are spliced, trimmed and
collapsed. `Propositional.Formula.assemble` is this operation for either connective, and a
disjunction of normal forms and a conjunction of clauses are its two values
(`Propositional.Formula.disjoin_eq_assemble`, `Propositional.Formula.value_conjoin_eq_assemble`).

Three laws are proved of it here, for layers over any kind of formulas.

* A layer alone is its own assembly (`Propositional.Formula.assemble_singleton`), and so is a join
  of terms that it may have (`Propositional.Formula.assemble_eq_join`).
* Assembling in groups and then the groups is assembling at once
  (`Propositional.Formula.assemble_flatten`), provided that no group is empty: an empty group would
  leave a unit behind where at once there is nothing.
* What comes out is the zero only if it was in the list, and the unit only if there was nothing else
  in it (`Propositional.Formula.assemble_eq_zero_iff`,
  `Propositional.Formula.eq_unit_of_assemble_eq_unit`).

The last one is what the test for a zero *before* the splicing comes to: collapsing never brings a
zero to light that the test has missed.
-/

namespace Propositional.Formula

section

variable (dropUnits : Bool) (op : Connective)

/-- **The join of terms that need no distributing**: the zero if it is among them, and else the
terms spliced, trimmed and collapsed. -/
def assemble (ts : List Formula) : Formula :=
  if ts.any (isConst op.zero) then const op.zero else combine op (spliceTrimmed dropUnits op ts)

theorem disjoin_eq_assemble (ts : List Formula) :
    disjoin dropUnits ts = assemble dropUnits .or ts := rfl

theorem any_isConst_eq_false {b : Bool} {ts : List Formula} (h : const b ∉ ts) :
    ts.any (isConst b) = false :=
  eq_false_of_ne_true (any_isConst_iff.not.mpr h)

theorem assemble_of_mem_zero {ts : List Formula} (h : const op.zero ∈ ts) :
    assemble dropUnits op ts = const op.zero :=
  if_pos (any_isConst_iff.mpr h)

theorem assemble_of_notMem_zero {ts : List Formula} (h : const op.zero ∉ ts) :
    assemble dropUnits op ts = combine op (spliceTrimmed dropUnits op ts) :=
  if_neg (any_isConst_iff.not.mpr h)

/-! ### Splicing and trimming a list term by term -/

@[simp] theorem spliceTrimmed_nil : spliceTrimmed dropUnits op [] = [] := by
  unfold spliceTrimmed
  split <;> rfl

@[simp] theorem spliceTrimmed_append (ss ts : List Formula) :
    spliceTrimmed dropUnits op (ss ++ ts) =
      spliceTrimmed dropUnits op ss ++ spliceTrimmed dropUnits op ts := by
  unfold spliceTrimmed
  split
  · rw [splice_append, List.filter_append]
  · rw [splice_append]

theorem spliceTrimmed_cons (t : Formula) (ts : List Formula) :
    spliceTrimmed dropUnits op (t :: ts) =
      spliceTrimmed dropUnits op [t] ++ spliceTrimmed dropUnits op ts := by
  rw [← List.singleton_append, spliceTrimmed_append]

theorem spliceTrimmed_map {α : Type} (f : α → Formula) (xs : List α) :
    spliceTrimmed dropUnits op (xs.map f) =
      xs.flatMap fun x => spliceTrimmed dropUnits op [f x] := by
  induction xs with
  | nil => simp
  | cons x xs ih => rw [List.map_cons, spliceTrimmed_cons, ih, List.flatMap_cons]

/-- What a term contributes to a join is part of what the list does. -/
theorem sublist_spliceTrimmed_of_mem {t : Formula} {ts : List Formula} (h : t ∈ ts) :
    (spliceTrimmed dropUnits op [t]).Sublist (spliceTrimmed dropUnits op ts) := by
  obtain ⟨before, behind, rfl⟩ := List.append_of_mem h
  rw [spliceTrimmed_append, spliceTrimmed_cons _ _ t behind]
  exact (List.sublist_append_left _ _).trans (List.sublist_append_right _ _)

/-- Only what is spliced counts. -/
theorem spliceTrimmed_congr {ss ts : List Formula} (h : splice op ss = splice op ts) :
    spliceTrimmed dropUnits op ss = spliceTrimmed dropUnits op ts := by
  unfold spliceTrimmed
  rw [h]

theorem spliceTrimmed_flatten (tss : List (List Formula)) :
    spliceTrimmed dropUnits op tss.flatten = tss.flatMap (spliceTrimmed dropUnits op) := by
  induction tss with
  | nil => simp
  | cons ts tss ih => rw [List.flatten_cons, spliceTrimmed_append, ih, List.flatMap_cons]

end

section Laws

variable {dropUnits : Bool} {op : Connective} {p : Formula → Prop} {t : Formula}
  {ts us : List Formula}

theorem isConst_eq_true_iff {b : Bool} : t.isConst b = true ↔ t = const b := by
  cases t with
  | const c => rw [isConst, beq_iff_eq, const.injEq, eq_comm]
  | _ => simp [isConst]

/-- **What a layer can be made over**: constants are among it and joins of the connective are not.
-/
structure IsBase (op : Connective) (p : Formula → Prop) : Prop where
  /-- Constants are among it. -/
  const : ∀ b, p (const b)
  /-- Joins of the connective are not. -/
  isJoin : ∀ t, p t → t.isJoin op = false

theorem isBase_isLiteral : IsBase .and fun l => l.isLiteral = true where
  const _ := rfl
  isJoin _ := isJoin_eq_false_of_isLiteral

theorem isBase_isClauseForm : IsBase .or (IsClauseForm dropUnits) where
  const := isClauseForm_const
  isJoin _ h := h.isJoin_or

/-- Terms that a join may have are what enters it. -/
theorem spliceTrimmed_eq_self (hp : IsBase op p) (hus : ∀ u ∈ us, p u ∧ Admits dropUnits op u) :
    spliceTrimmed dropUnits op us = us := by
  have hsplice : splice op us = us := splice_eq_self fun u hu => hp.isJoin u (hus u hu).1
  unfold spliceTrimmed
  split
  · rename_i hd
    rw [hsplice, List.filter_eq_self]
    intro u hu
    rw [Bool.not_eq_true', ← Bool.not_eq_true, isConst_eq_true_iff]
    exact (hus u hu).2.2 hd
  · exact hsplice

/-- What enters a join of layers without a zero among them. -/
theorem admits_of_mem (hp : IsBase op p) (hts : ∀ t ∈ ts, IsLayer dropUnits op p t)
    (hz : const op.zero ∉ ts) : ∀ u ∈ spliceTrimmed dropUnits op ts, p u ∧ Admits dropUnits op u :=
  fun _ hu => admits_of_mem_spliceTrimmed hts hp.isJoin hz hu

theorem assemble_eq_collapse (hp : IsBase op p) (hts : ∀ t ∈ ts, IsLayer dropUnits op p t)
    (hz : const op.zero ∉ ts) :
    assemble dropUnits op ts = collapse op (spliceTrimmed dropUnits op ts) := by
  rw [assemble_of_notMem_zero _ _ hz, combine,
    splice_eq_self fun u hu => hp.isJoin u (admits_of_mem hp hts hz u hu).1]

/-- **Assembling layers gives a layer.** -/
theorem isLayer_assemble (hp : IsBase op p) (hts : ∀ t ∈ ts, IsLayer dropUnits op p t) :
    IsLayer dropUnits op p (assemble dropUnits op ts) := by
  by_cases hz : const op.zero ∈ ts
  · rw [assemble_of_mem_zero _ _ hz]
    exact .alone (hp.const _)
  · rw [assemble_of_notMem_zero _ _ hz]
    exact isLayer_combine_spliceTrimmed hts hp.isJoin (hp.const _) hz

/-- **A conjunction of clauses is assembled**, since there is nothing to distribute, and nothing is
recorded. -/
theorem conjoin_eq_silent (hts : ∀ t ∈ ts, IsClauseForm dropUnits t) :
    conjoin dropUnits ts = .silent (assemble dropUnits .and ts) := by
  by_cases hz : const false ∈ ts
  · rw [conjoin_of_any_false dropUnits (any_isConst_iff.mpr hz)]
    exact congrArg Logged.silent (assemble_of_mem_zero dropUnits .and hz).symm
  · rw [conjoin_of_no_join dropUnits (any_isConst_eq_false hz)
      (any_isJoin_spliceTrimmed_eq_false hts hz)]
    exact congrArg Logged.silent (assemble_of_notMem_zero dropUnits .and hz).symm

theorem value_conjoin_eq_assemble (hts : ∀ t ∈ ts, IsClauseForm dropUnits t) :
    (conjoin dropUnits ts).value = assemble dropUnits .and ts :=
  congrArg Logged.value (conjoin_eq_silent hts)

/-! ### One layer -/

/-- What a layer contributes to a join: its operands, unless it is a unit and units are dropped. -/
theorem spliceTrimmed_singleton (hp : IsBase op p) (h : IsLayer dropUnits op p t) :
    dropUnits = true ∧ t = const op.unit ∧ spliceTrimmed dropUnits op [t] = [] ∨
      spliceTrimmed dropUnits op [t] = operands op t := by
  cases h with
  | alone h =>
    have hsplice : splice op [t] = [t] := by
      refine splice_eq_self fun u hu => ?_
      rw [List.mem_singleton.mp hu]
      exact hp.isJoin t h
    rw [operands_eq_singleton (hp.isJoin t h)]
    unfold spliceTrimmed
    rw [hsplice]
    cases dropUnits with
    | false => exact .inr rfl
    | true =>
      by_cases hunit : t = const op.unit
      · exact .inl ⟨rfl, hunit, by simp [hunit, isConst]⟩
      · exact .inr (by simpa [← isConst_eq_true_iff] using hunit)
  | @join us hlen hus =>
    have hsplice : splice op [join op us] = splice op us := by
      rw [splice_eq_self fun u hu => hp.isJoin u (hus u hu).1]
      simp
    rw [spliceTrimmed_congr dropUnits op hsplice, spliceTrimmed_eq_self hp hus, operands_join_self]
    exact .inr rfl

/-- What is left of assembling when the terms have been spliced and trimmed. -/
def settle (op : Connective) (us : List Formula) : Formula :=
  if us.any (isConst op.zero) then const op.zero else collapse op us

/-- **Splicing brings no zero to light**, so that one may look for it afterwards as well. -/
theorem assemble_eq_settle (hp : IsBase op p) (hts : ∀ t ∈ ts, IsLayer dropUnits op p t) :
    assemble dropUnits op ts = settle op (spliceTrimmed dropUnits op ts) := by
  by_cases hz : const op.zero ∈ ts
  · have hmem : const op.zero ∈ spliceTrimmed dropUnits op ts := by
      have hsub := sublist_spliceTrimmed_of_mem dropUnits op hz
      rcases spliceTrimmed_singleton hp (.alone (hp.const op.zero)) with ⟨-, hunit, -⟩ | hoperands
      · exact absurd (const.inj hunit).symm op.unit_ne_zero
      · rw [hoperands, operands_const, List.singleton_sublist] at hsub
        exact hsub
    rw [assemble_of_mem_zero _ _ hz, settle, if_pos (any_isConst_iff.mpr hmem)]
  · have hmem : const op.zero ∉ spliceTrimmed dropUnits op ts := fun hmem =>
      (admits_of_mem hp hts hz _ hmem).2.1 rfl
    rw [assemble_eq_collapse hp hts hz, settle, if_neg (any_isConst_iff.not.mpr hmem)]

/-- The operands of a layer collapse to it. -/
theorem collapse_operands_of_isLayer (hp : IsBase op p) (h : IsLayer dropUnits op p t) :
    collapse op (operands op t) = t := by
  cases h with
  | alone h => rw [operands_eq_singleton (hp.isJoin t h), collapse_singleton]
  | @join us hlen hus =>
    rw [operands_join_self]
    match us, hlen with
    | u :: v :: us, _ => rfl

/-- A layer has an operand. -/
theorem operands_ne_nil_of_isLayer (hp : IsBase op p) (h : IsLayer dropUnits op p t) :
    operands op t ≠ [] := by
  cases h with
  | alone h => simp [operands_eq_singleton (hp.isJoin t h)]
  | join hlen hus =>
    rw [operands_join_self]
    rintro rfl
    exact absurd hlen (by decide)

/-- **A layer alone is its own assembly.** -/
theorem assemble_singleton (hp : IsBase op p) (h : IsLayer dropUnits op p t) :
    assemble dropUnits op [t] = t := by
  by_cases hz : const op.zero ∈ [t]
  · rw [assemble_of_mem_zero _ _ hz, List.mem_singleton.mp hz]
  · rw [assemble_eq_collapse hp (by simpa using h) hz]
    rcases spliceTrimmed_singleton hp h with ⟨-, hunit, hnil⟩ | hoperands
    · rw [hnil, collapse_nil, hunit]
    · rw [hoperands, collapse_operands_of_isLayer hp h]

/-! ### Terms that a join may have -/

theorem zero_notMem_of_admits (hus : ∀ u ∈ us, p u ∧ Admits dropUnits op u) :
    const op.zero ∉ us :=
  fun hz => (hus _ hz).2.1 rfl

/-- Two terms or more that a join may have are assembled to their join. -/
theorem assemble_eq_join (hp : IsBase op p) (hlen : 2 ≤ us.length)
    (hus : ∀ u ∈ us, p u ∧ Admits dropUnits op u) : assemble dropUnits op us = join op us := by
  have hz := zero_notMem_of_admits hus
  rw [assemble_eq_collapse hp (fun u hu => .alone (hus u hu).1) hz, spliceTrimmed_eq_self hp hus]
  match us, hlen with
  | u :: v :: us, _ => rfl

/-! ### Zeros and units -/

/-- A list that collapses to a constant is empty, or the constant is all there is in it. -/
theorem collapse_eq_const {b : Bool} (h : collapse op us = const b) :
    us = [] ∧ b = op.unit ∨ us = [const b] := by
  match us, h with
  | [], h => exact .inl ⟨rfl, (const.inj h).symm⟩
  | [u], h => exact .inr (by rw [← h, collapse_singleton])

/-- **Assembling gives the zero only if it was in the list.** -/
theorem assemble_eq_zero_iff (hp : IsBase op p) (hts : ∀ t ∈ ts, IsLayer dropUnits op p t) :
    assemble dropUnits op ts = const op.zero ↔ const op.zero ∈ ts := by
  refine ⟨fun h => ?_, assemble_of_mem_zero dropUnits op⟩
  by_contra hz
  rw [assemble_eq_collapse hp hts hz] at h
  rcases collapse_eq_const h with ⟨-, hunit⟩ | hzero
  · exact op.unit_ne_zero hunit.symm
  · exact (admits_of_mem hp hts hz _ (hzero ▸ List.mem_singleton_self _)).2.1 rfl

/-- **Assembling gives the unit only if there was nothing else in the list.** -/
theorem eq_unit_of_assemble_eq_unit (hp : IsBase op p) (hts : ∀ t ∈ ts, IsLayer dropUnits op p t)
    (h : assemble dropUnits op ts = const op.unit) : ∀ t ∈ ts, t = const op.unit := by
  have hz : const op.zero ∉ ts := by
    intro hz
    rw [assemble_of_mem_zero _ _ hz] at h
    exact op.unit_ne_zero (const.inj h).symm
  rw [assemble_eq_collapse hp hts hz] at h
  -- all that enters the join is the unit, once at most
  have hall : spliceTrimmed dropUnits op ts = [] ∨
      spliceTrimmed dropUnits op ts = [const op.unit] :=
    (collapse_eq_const h).imp And.left id
  intro t ht
  have hsub := sublist_spliceTrimmed_of_mem dropUnits op ht
  rcases spliceTrimmed_singleton hp (hts t ht) with ⟨-, hunit, -⟩ | hoperands
  · exact hunit
  · have hunit : operands op t = [const op.unit] := by
      rw [← hoperands]
      have hne := operands_ne_nil_of_isLayer hp (hts t ht)
      rw [← hoperands] at hne
      rcases hall with hnil | hsingle
      · rw [hnil, List.sublist_nil] at hsub
        exact absurd hsub hne
      · rw [hsingle] at hsub
        rcases List.sublist_singleton.mp hsub with hnil | hsingle
        · exact absurd hnil hne
        · exact hsingle
    rw [← collapse_operands_of_isLayer hp (hts t ht), hunit, collapse_singleton]

/-! ### Groups -/

/-- **What an assembly contributes to a join** of the same connective is what its terms contribute,
if there are any. -/
theorem spliceTrimmed_assemble (hp : IsBase op p) (hne : ts ≠ [])
    (hts : ∀ t ∈ ts, IsLayer dropUnits op p t) (hz : const op.zero ∉ ts) :
    spliceTrimmed dropUnits op [assemble dropUnits op ts] = spliceTrimmed dropUnits op ts := by
  have hmem := admits_of_mem hp hts hz
  by_cases hempty : spliceTrimmed dropUnits op ts = []
  · -- there was nothing but units, and these are dropped
    have hunit : assemble dropUnits op ts = const op.unit := by
      rw [assemble_eq_collapse hp hts hz, hempty, collapse_nil]
    obtain ⟨t, ht⟩ := List.exists_mem_of_ne_nil ts hne
    have hsub := sublist_spliceTrimmed_of_mem dropUnits op ht
    rw [eq_unit_of_assemble_eq_unit hp hts hunit t ht, hempty, List.sublist_nil] at hsub
    rw [hunit, hempty, hsub]
  · have hoperands := operands_collapse hempty fun u hu => hp.isJoin u (hmem u hu).1
    have hsplice : splice op [collapse op (spliceTrimmed dropUnits op ts)] =
        splice op (spliceTrimmed dropUnits op ts) := by
      rw [splice_eq_self fun u hu => hp.isJoin u (hmem u hu).1, splice_cons, hoperands, splice_nil,
        List.append_nil]
    rw [assemble_eq_collapse hp hts hz, spliceTrimmed_congr _ _ hsplice,
      spliceTrimmed_eq_self hp hmem]

/-- **Assembling in groups** that are not empty is assembling at once. -/
theorem assemble_flatten (hp : IsBase op p) {tss : List (List Formula)} (hne : ∀ ts ∈ tss, ts ≠ [])
    (hts : ∀ ts ∈ tss, ∀ t ∈ ts, IsLayer dropUnits op p t) :
    assemble dropUnits op (tss.map (assemble dropUnits op)) =
      assemble dropUnits op tss.flatten := by
  have hzero : const op.zero ∈ tss.map (assemble dropUnits op) ↔ const op.zero ∈ tss.flatten := by
    rw [List.mem_map, List.mem_flatten]
    refine exists_congr fun ts => and_congr_right fun hmem => ?_
    exact assemble_eq_zero_iff hp (hts ts hmem)
  by_cases hz : const op.zero ∈ tss.flatten
  · rw [assemble_of_mem_zero _ _ hz, assemble_of_mem_zero _ _ (hzero.mpr hz)]
  · rw [assemble_of_notMem_zero _ _ hz, assemble_of_notMem_zero _ _ (hzero.not.mpr hz),
      spliceTrimmed_map, spliceTrimmed_flatten]
    congr 1
    refine List.flatMap_congr fun ts hmem => ?_
    exact spliceTrimmed_assemble hp (hne ts hmem) (hts ts hmem) fun h =>
      hz (List.mem_flatten.mpr ⟨ts, hmem, h⟩)

end Laws

/-- The normal form of a join is the join of the normal forms. -/
theorem value_normalForm_join (dropUnits positive : Bool) (op : Connective) (ts : List Formula) :
    (normalForm dropUnits positive (join op ts)).value =
      (joinNormal dropUnits (if positive then op else op.dual)
        (ts.map fun t => (normalForm dropUnits positive t).value)).value := by
  rw [normalForm_join, Logged.value_bind, Logged.value_gather, List.map_map]
  rfl

end Propositional.Formula
