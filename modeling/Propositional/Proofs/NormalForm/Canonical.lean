import Propositional.NormalForm.Basic
import Propositional.Proofs.Formula.Flatness
import Propositional.Proofs.Formula.Parts

/-!
# The shape of normal forms

A normal form is flat and disjunctive, and it keeps no constant that could have decided something:
no `T` among the terms of a disjunction, no `F` in a conjunction, and no constant in any join at all
if units were to be dropped. `Propositional.Formula.IsCanonical` says this with the words for shapes
and parts alone.

The proof carries a description that follows the layers instead
(`Propositional.Formula.IsLayer`): literals, over them one layer of `&`, over that one layer of `|`,
where each layer is either a single formula of the layer below or a join of at least two, none of
them a constant that the join must not hold. The reason for having one definition for both layers is
that making them is one operation, too: splice, drop, collapse
(`Propositional.Formula.isLayer_combine_spliceTrimmed`). The test for a zero stands *before* the
splicing in it, and that is enough, because the terms of a spliced join have passed the same test
when that join was made.

Distributing needs one thing more. What a choice consists of are clauses, so that the conjunction of
a choice meets no disjunction, and the recursion is never more than one level deep on normal forms
(`Propositional.Formula.isClauseForm_conjoin`).
-/

namespace Propositional.Formula

/-! ### Canonical formulas -/

/-- **A canonical formula**, the shape of a normal form. -/
structure IsCanonical (dropUnits : Bool) (n : Formula) : Prop where
  /-- It is a disjunction of conjunctions of literals -/
  isDnf : n.isDnf = true
  /-- Its joins have at least two terms, none of them of their own kind -/
  isFlat : n.isFlat = true
  /-- No disjunction in it has the term `T` -/
  true_notMem : ∀ ts, Within (join .or ts) n → const true ∉ ts
  /-- No conjunction in it contains `F` -/
  false_notWithin : ∀ ts, Within (join .and ts) n → ¬Within (const false) (join .and ts)
  /-- Without units, no join in it contains a constant -/
  const_notWithin : dropUnits = true →
    ∀ op ts b, Within (join op ts) n → ¬Within (const b) (join op ts)

/-! ### Layers -/

section Layers

variable (dropUnits : Bool)

/-- Whether a formula may be a term of a join: it is not the zero, nor the unit if units are
dropped. -/
def Admits (op : Connective) (t : Formula) : Prop :=
  t ≠ const op.zero ∧ (dropUnits = true → t ≠ const op.unit)

/-- **One layer of a normal form** over the formulas with the property `p`: one of them alone, or a
join of at least two of them that it may have for terms. -/
inductive IsLayer (op : Connective) (p : Formula → Prop) : Formula → Prop
  /-- A formula of the layer below, alone -/
  | alone {t : Formula} (h : p t) : IsLayer op p t
  /-- A join of formulas of the layer below -/
  | join {ts : List Formula} (hlen : 2 ≤ ts.length)
      (hts : ∀ t ∈ ts, p t ∧ Admits dropUnits op t) : IsLayer op p (.join op ts)

/-- A clause of a normal form: the layer of `&` over literals. -/
def IsClauseForm : Formula → Prop :=
  IsLayer dropUnits .and fun l => l.isLiteral = true

/-- A normal form: the layer of `|` over clauses. -/
def IsNormalForm : Formula → Prop :=
  IsLayer dropUnits .or (IsClauseForm dropUnits)

variable {dropUnits} {op : Connective} {p : Formula → Prop} {ts : List Formula}

/-- Clauses are no disjunctions. -/
theorem IsClauseForm.isJoin_or {c : Formula} (h : IsClauseForm dropUnits c) :
    c.isJoin .or = false := by
  cases h with
  | alone h => exact isJoin_eq_false_of_isLiteral h
  | join _ _ => rfl

theorem isClauseForm_const (b : Bool) : IsClauseForm dropUnits (const b) :=
  .alone rfl

theorem isNormalForm_const (b : Bool) : IsNormalForm dropUnits (const b) :=
  .alone (isClauseForm_const b)

/-- **What enters a join of layers is fit to be its terms**: no zero among the layers themselves is
all that needs to be checked. -/
theorem admits_of_mem_spliceTrimmed (hts : ∀ t ∈ ts, IsLayer dropUnits op p t)
    (hp : ∀ t, p t → t.isJoin op = false) (hz : const op.zero ∉ ts) {u : Formula}
    (hu : u ∈ spliceTrimmed dropUnits op ts) : p u ∧ Admits dropUnits op u := by
  have hsplice {u : Formula} (hu : u ∈ splice op ts) : p u ∧ u ≠ const op.zero := by
    obtain ⟨t, ht, hut⟩ := List.mem_flatMap.mp hu
    cases hts t ht with
    | alone h =>
      rw [operands_eq_singleton (hp t h), List.mem_singleton] at hut
      exact ⟨hut ▸ h, fun hc => hz (hc ▸ hut ▸ ht)⟩
    | join hlen h =>
      rw [operands_join_self] at hut
      exact ⟨(h u hut).1, (h u hut).2.1⟩
  unfold spliceTrimmed at hu
  split at hu
  · obtain ⟨hu, hunit⟩ := List.mem_filter.mp hu
    refine ⟨(hsplice hu).1, (hsplice hu).2, fun _ hc => ?_⟩
    simp [hc, isConst] at hunit
  · rename_i hd
    exact ⟨(hsplice hu).1, (hsplice hu).2, fun h => absurd h hd⟩

/-- Terms fit for a join collapse to a layer. -/
theorem isLayer_collapse (hunit : p (const op.unit))
    (hts : ∀ t ∈ ts, p t ∧ Admits dropUnits op t) : IsLayer dropUnits op p (collapse op ts) := by
  match ts, hts with
  | [], _ => exact .alone hunit
  | [t], hts => exact .alone (hts t (List.mem_singleton_self t)).1
  | t :: u :: ts, hts => exact .join (by simp) hts

/-- **Joining layers gives a layer.** -/
theorem isLayer_combine_spliceTrimmed (hts : ∀ t ∈ ts, IsLayer dropUnits op p t)
    (hp : ∀ t, p t → t.isJoin op = false) (hunit : p (const op.unit)) (hz : const op.zero ∉ ts) :
    IsLayer dropUnits op p (combine op (spliceTrimmed dropUnits op ts)) := by
  have hmem {u : Formula} (hu : u ∈ spliceTrimmed dropUnits op ts) : p u ∧ Admits dropUnits op u :=
    admits_of_mem_spliceTrimmed hts hp hz hu
  rw [combine, splice_eq_self fun u hu => hp u (hmem hu).1]
  exact isLayer_collapse hunit fun u hu => hmem hu

/-! ### Making a layer -/

theorem const_notMem_of_any_eq_false {b : Bool} (h : ts.any (isConst b) = false) :
    const b ∉ ts := by
  rw [← any_isConst_iff, h]
  exact Bool.false_ne_true

/-- **A disjunction of clauses is a normal form.** -/
theorem isNormalForm_disjoin (hts : ∀ t ∈ ts, IsNormalForm dropUnits t) :
    IsNormalForm dropUnits (disjoin dropUnits ts) := by
  unfold disjoin
  split
  · exact isNormalForm_const true
  · rename_i hz
    exact isLayer_combine_spliceTrimmed hts (fun _ h => h.isJoin_or) (isClauseForm_const false)
      (const_notMem_of_any_eq_false (by simpa using hz))

/-- Among what enters a conjunction of clauses there is no disjunction: it is literals. -/
theorem any_isJoin_spliceTrimmed_eq_false (hts : ∀ t ∈ ts, IsClauseForm dropUnits t)
    (hz : const false ∉ ts) : (spliceTrimmed dropUnits .and ts).any (isJoin .or) = false := by
  have hlit (l : Formula) (h : l.isLiteral = true) : l.isJoin .and = false :=
    isJoin_eq_false_of_isLiteral h
  refine List.any_eq_false.mpr fun u hu => ?_
  rw [isJoin_eq_false_of_isLiteral (admits_of_mem_spliceTrimmed hts hlit hz hu).1]
  exact Bool.false_ne_true

/-- **A conjunction of clauses is a clause**, made without distributing. -/
theorem isClauseForm_conjoin (hts : ∀ t ∈ ts, IsClauseForm dropUnits t) :
    IsClauseForm dropUnits (conjoin dropUnits ts).value := by
  cases hf : ts.any (isConst false) with
  | true =>
    rw [conjoin_of_any_false dropUnits hf]
    exact isClauseForm_const false
  | false =>
    have hz : const false ∉ ts := const_notMem_of_any_eq_false hf
    rw [conjoin_of_no_join dropUnits hf (any_isJoin_spliceTrimmed_eq_false hts hz)]
    exact isLayer_combine_spliceTrimmed hts (fun _ h => isJoin_eq_false_of_isLiteral h) rfl hz

/-- What a conjunction of normal forms is distributed over: literals and disjunctions of clauses. -/
def IsFactor (dropUnits : Bool) (t : Formula) : Prop :=
  t.isLiteral = true ∨ t.isJoin .or = true ∧ IsNormalForm dropUnits t

theorem IsFactor.isJoin_and {t : Formula} (h : IsFactor dropUnits t) : t.isJoin .and = false := by
  rcases h with h | ⟨h, -⟩
  · exact isJoin_eq_false_of_isLiteral h
  · obtain ⟨us, rfl⟩ := exists_eq_join h
    rfl

/-- A normal form is a layer of `&` over factors. -/
theorem IsNormalForm.isLayer_isFactor {t : Formula} (h : IsNormalForm dropUnits t) :
    IsLayer dropUnits .and (IsFactor dropUnits) t := by
  cases h with
  | alone h =>
    cases h with
    | alone h => exact .alone (.inl h)
    | join hlen h => exact .join hlen fun l hl => ⟨.inl (h l hl).1, (h l hl).2⟩
  | join hlen h => exact .alone (.inr ⟨rfl, .join hlen h⟩)

/-- What enters a conjunction of normal forms are factors that it may have for terms. -/
theorem isFactor_of_mem_spliceTrimmed (hts : ∀ t ∈ ts, IsNormalForm dropUnits t)
    (hz : const false ∉ ts) {u : Formula} (hu : u ∈ spliceTrimmed dropUnits .and ts) :
    IsFactor dropUnits u ∧ Admits dropUnits .and u :=
  admits_of_mem_spliceTrimmed (fun t ht => (hts t ht).isLayer_isFactor)
    (fun _ h => h.isJoin_and) hz hu

/-- The operands of a factor are clauses. -/
theorem IsFactor.isClauseForm_of_mem {t u : Formula} (h : IsFactor dropUnits t)
    (hu : u ∈ operands .or t) : IsClauseForm dropUnits u := by
  rcases h with h | ⟨hj, h⟩
  · rw [operands_eq_singleton (isJoin_eq_false_of_isLiteral h), List.mem_singleton] at hu
    exact hu ▸ .alone h
  · cases h with
    | alone h => simp [h.isJoin_or] at hj
    | join hlen h =>
      rw [operands_join_self] at hu
      exact (h u hu).1

/-- A choice of operands of factors consists of clauses. -/
theorem isClauseForm_of_mem_choices {choice : List Formula} (hts : ∀ t ∈ ts, IsFactor dropUnits t)
    (hc : choice ∈ choices (ts.map (operands .or))) : ∀ c ∈ choice, IsClauseForm dropUnits c := by
  induction ts generalizing choice with
  | nil => simp_all
  | cons t ts ih =>
    obtain ⟨ht, hts⟩ := List.forall_mem_cons.mp hts
    obtain ⟨u, hu, rest, hrest, rfl⟩ := mem_choices_cons.mp hc
    exact List.forall_mem_cons.mpr ⟨ht.isClauseForm_of_mem hu, ih hts hrest⟩

/-- **A conjunction of normal forms is a normal form.** -/
theorem isNormalForm_conjoin (hts : ∀ t ∈ ts, IsNormalForm dropUnits t) :
    IsNormalForm dropUnits (conjoin dropUnits ts).value := by
  cases hf : ts.any (isConst false) with
  | true =>
    rw [conjoin_of_any_false dropUnits hf]
    exact isNormalForm_const false
  | false =>
    have hfactor {u : Formula} (hu : u ∈ spliceTrimmed dropUnits .and ts) :
        IsFactor dropUnits u ∧ Admits dropUnits .and u :=
      isFactor_of_mem_spliceTrimmed hts (const_notMem_of_any_eq_false hf) hu
    cases hj : (spliceTrimmed dropUnits .and ts).any (isJoin .or) with
    | true =>
      rw [conjoin_of_join dropUnits hf hj, Logged.value_after, Logged.value_map,
        Logged.value_gather, List.map_map]
      refine isNormalForm_disjoin fun c hc => ?_
      obtain ⟨choice, hchoice, rfl⟩ := List.mem_map.mp hc
      exact .alone (isClauseForm_conjoin
        (isClauseForm_of_mem_choices (fun u hu => (hfactor hu).1) hchoice))
    | false =>
      -- without a disjunction among them all factors are literals
      have hlit {u : Formula} (hu : u ∈ spliceTrimmed dropUnits .and ts) : u.isLiteral = true := by
        rcases (hfactor hu).1 with h | ⟨h, -⟩
        · exact h
        · exact absurd h (List.any_eq_false.mp hj u hu)
      rw [conjoin_of_no_join dropUnits hf hj, Logged.value_silent, combine,
        splice_eq_self fun u hu => (hfactor hu).1.isJoin_and]
      exact .alone (isLayer_collapse rfl fun u hu => ⟨hlit hu, (hfactor hu).2⟩)

/-- **Every normal form is one**, whatever formula it is made from. -/
theorem isNormalForm_normalForm (dropUnits positive : Bool) (t : Formula) :
    IsNormalForm dropUnits (normalForm dropUnits positive t).value := by
  induction t generalizing positive with
  | const b => simpa using isNormalForm_const _
  | var name =>
    rw [normalForm_var]
    cases positive <;> exact .alone (.alone rfl)
  | neg t ih =>
    rw [normalForm_neg_eq]
    exact ih _
  | join op ts ih =>
    have hts : ∀ u ∈ ts.map fun t => (normalForm dropUnits positive t).value,
        IsNormalForm dropUnits u := by
      rw [List.forall_mem_map]
      exact fun t ht => ih t ht positive
    rw [normalForm_join, Logged.value_bind, Logged.value_gather, List.map_map]
    cases (if positive then op else op.dual : Connective) with
    | or => exact isNormalForm_disjoin hts
    | and => exact isNormalForm_conjoin hts

/-! ### From layers to shapes -/

theorem IsClauseForm.isClause {c : Formula} (h : IsClauseForm dropUnits c) :
    c.isClause = true := by
  cases h with
  | alone h =>
    match c, h with
    | const b, _ => rfl
    | var name, _ => rfl
    | neg (var name), _ => rfl
  | join _ h => exact List.all_eq_true.mpr fun l hl => (h l hl).1

theorem IsClauseForm.isFlat {c : Formula} (h : IsClauseForm dropUnits c) : c.isFlat = true := by
  cases h with
  | alone h => exact isFlat_of_isLiteral h
  | join hlen h =>
    exact isFlat_join_iff.mpr ⟨hlen, fun l hl =>
      ⟨isJoin_eq_false_of_isLiteral (h l hl).1, isFlat_of_isLiteral (h l hl).1⟩⟩

theorem IsNormalForm.isDnf {n : Formula} (h : IsNormalForm dropUnits n) : n.isDnf = true := by
  cases h with
  | alone h =>
    have hc := h.isClause
    have hj := h.isJoin_or
    match n, hc, hj with
    | const b, _, _ => rfl
    | var name, _, _ => rfl
    | neg t, hc, _ => exact hc
    | .join .and ts, hc, _ => exact hc
  | join _ h => exact List.all_eq_true.mpr fun c hc => (h c hc).1.isClause

theorem IsNormalForm.isFlat {n : Formula} (h : IsNormalForm dropUnits n) : n.isFlat = true := by
  cases h with
  | alone h => exact IsClauseForm.isFlat h
  | join hlen h =>
    exact isFlat_join_iff.mpr ⟨hlen, fun c hc => ⟨(h c hc).1.isJoin_or, (h c hc).1.isFlat⟩⟩

/-- Without units no join may have a constant for a term. -/
theorem not_admits_const (op : Connective) (b : Bool) : ¬Admits true op (const b) := by
  rintro ⟨hzero, hunit⟩
  have hunit := hunit rfl
  cases op <;> cases b <;> simp_all

theorem IsClauseForm.terms {ls : List Formula} (h : IsClauseForm dropUnits (.join .and ls)) :
    ∀ l ∈ ls, l.isLiteral = true ∧ Admits dropUnits .and l := by
  cases h with
  | alone h => simp [isLiteral] at h
  | join _ h => exact h

/-- The only join in a clause is the clause itself. -/
theorem IsClauseForm.eq_of_within {us : List Formula} {c : Formula}
    (h : IsClauseForm dropUnits c) (hw : Within (.join op us) c) : .join op us = c := by
  cases h with
  | alone h => exact absurd hw (not_within_of_isLiteral h)
  | join _ h =>
    rcases within_join.mp hw with heq | ⟨l, hl, hwl⟩
    · exact heq
    · exact absurd hwl (not_within_of_isLiteral (h l hl).1)

/-- A constant in a conjunction of a normal form is one that a conjunction may have. -/
theorem IsClauseForm.admits_of_within {ls : List Formula} {b : Bool}
    (h : IsClauseForm dropUnits (.join .and ls)) (hw : Within (const b) (.join .and ls)) :
    Admits dropUnits .and (const b) := by
  rcases within_join.mp hw with heq | ⟨l, hl, hwl⟩
  · simp at heq
  · obtain ⟨hlit, hadm⟩ := h.terms l hl
    exact eq_const_of_within_isLiteral hlit hwl ▸ hadm

theorem IsNormalForm.terms {cs : List Formula} (h : IsNormalForm dropUnits (.join .or cs)) :
    ∀ c ∈ cs, IsClauseForm dropUnits c ∧ Admits dropUnits .or c := by
  cases h with
  | alone h => exact absurd h.isJoin_or (by simp [isJoin])
  | join _ h => exact h

theorem IsNormalForm.isClauseForm {ls : List Formula}
    (h : IsNormalForm dropUnits (.join .and ls)) : IsClauseForm dropUnits (.join .and ls) := by
  cases h with
  | alone h => exact h

/-- **Every join in a normal form is a normal form.** -/
theorem IsNormalForm.of_within {us : List Formula} {n : Formula} (h : IsNormalForm dropUnits n)
    (hw : Within (.join op us) n) : IsNormalForm dropUnits (.join op us) := by
  cases h with
  | alone h => exact h.eq_of_within hw ▸ .alone h
  | join hlen h =>
    rcases within_join.mp hw with heq | ⟨c, hc, hwc⟩
    · exact heq ▸ .join hlen h
    · exact (h c hc).1.eq_of_within hwc ▸ .alone (h c hc).1

/-- A constant in a join of a normal form is one that some join may have. -/
theorem IsNormalForm.exists_admits {us : List Formula} {b : Bool}
    (h : IsNormalForm dropUnits (.join op us)) (hw : Within (const b) (.join op us)) :
    ∃ q, Admits dropUnits q (const b) := by
  cases op with
  | and => exact ⟨.and, h.isClauseForm.admits_of_within hw⟩
  | or =>
    rcases within_join.mp hw with heq | ⟨c, hc, hwc⟩
    · simp at heq
    · obtain ⟨hclause, hadm⟩ := h.terms c hc
      cases hclause with
      | alone hlit => exact ⟨.or, eq_const_of_within_isLiteral hlit hwc ▸ hadm⟩
      | join hlen hls =>
        exact ⟨.and, IsClauseForm.admits_of_within (IsLayer.join hlen hls) hwc⟩

/-- **Layers make a canonical formula.** -/
theorem IsNormalForm.isCanonical {n : Formula} (h : IsNormalForm dropUnits n) :
    IsCanonical dropUnits n where
  isDnf := h.isDnf
  isFlat := h.isFlat
  true_notMem := fun ts hw hmem => ((h.of_within hw).terms _ hmem).2.1 rfl
  false_notWithin := fun ts hw hf =>
    ((h.of_within hw).isClauseForm.admits_of_within hf).1 rfl
  const_notWithin := by
    rintro rfl op ts b hw hb
    obtain ⟨q, hq⟩ := (h.of_within hw).exists_admits hb
    exact not_admits_const q b hq

end Layers

/-- A constant in a canonical formula without units is the whole of it. -/
theorem IsCanonical.eq_const {n : Formula} {b : Bool} (h : IsCanonical true n)
    (hw : Within (const b) n) : n = const b := by
  cases n with
  | const c => exact (within_const.mp hw).symm
  | var name => simp at hw
  | neg t =>
    match t, h.isDnf with
    | var name, _ => simp at hw
  | join op ts => exact absurd hw (h.const_notWithin rfl op ts b (.refl _))

/-- **The normal form of every formula is canonical**: flat, disjunctive, without `T` among the
terms of a disjunction and without `F` in a conjunction. If units are dropped, its joins are free of
constants altogether, so that a constant can only be the whole of it. -/
theorem isCanonical_normalize (dropUnits : Bool) (t : Formula) :
    (t.normalize dropUnits).IsCanonical dropUnits ∧
      (dropUnits = true →
        ∀ b, Within (const b) (t.normalize dropUnits) → t.normalize dropUnits = const b) := by
  have h : (t.normalize dropUnits).IsCanonical dropUnits :=
    (isNormalForm_normalForm dropUnits true t).isCanonical
  refine ⟨h, ?_⟩
  rintro rfl b hw
  exact h.eq_const hw

end Propositional.Formula
