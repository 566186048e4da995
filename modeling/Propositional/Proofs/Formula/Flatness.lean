import Propositional.Formula.Construction
import Propositional.Formula.Shape

/-!
# Flat formulas

In a flat formula every join has at least two terms, none of which is a join of the same connective.
Flatness is what makes one level of splicing enough: the operands of a flat formula never need to be
spliced again (`Propositional.Formula.splice_eq_self`), so that combining flat terms gives a flat
formula (`Propositional.Formula.isFlat_combine`), and building any formula anew from its leaves
makes it flat (`Propositional.Formula.isFlat_rebuild`) and leaves it alone if it was flat already
(`Propositional.Formula.rebuild_eq_self`).

The operands of what has been combined are the operands of the terms
(`Propositional.Formula.operands_combine`), provided that there are any: a join of nothing is its
unit, which is an operand that no term has. Lists that a formula collects from its terms, such as
the names in it, come through combining as they are (`Propositional.Formula.apply_combine`), whether
the terms are flat or not.
-/

namespace Propositional.Formula

variable {op : Connective} {t : Formula} {ts : List Formula}

/-! ### Literals and joins -/

theorem isJoin_eq_false_of_isLiteral (h : t.isLiteral = true) : t.isJoin op = false := by
  match t, h with
  | const b, _ => rfl
  | var name, _ => rfl
  | neg (var name), _ => rfl

theorem isFlat_of_isLiteral (h : t.isLiteral = true) : t.isFlat = true := by
  match t, h with
  | const b, _ => simp
  | var name, _ => simp
  | neg (var name), _ => simp

theorem exists_eq_join (h : t.isJoin op = true) : ∃ us, t = join op us := by
  cases t with
  | join p us =>
    obtain rfl : p = op := by simpa [isJoin] using h
    exact ⟨us, rfl⟩
  | _ => simp [isJoin] at h

/-! ### Operands -/

/-- Terms that are no joins of a connective are not touched by splicing. -/
theorem splice_eq_self (h : ∀ t ∈ ts, t.isJoin op = false) : splice op ts = ts := by
  induction ts with
  | nil => rfl
  | cons t ts ih =>
    obtain ⟨ht, hts⟩ := List.forall_mem_cons.mp h
    rw [splice_cons, operands_eq_singleton ht, ih hts]
    rfl

/-- The members of a list that can stand below a join of a connective in a flat formula. -/
theorem isFlat_join_iff : (join op ts).isFlat = true ↔
    2 ≤ ts.length ∧ ∀ t ∈ ts, t.isJoin op = false ∧ t.isFlat = true := by
  simp [isFlat_join]

/-- An operand of a flat formula is flat and no join of the same connective. -/
theorem isFlat_of_mem_operands {u : Formula} (h : t.isFlat = true) (hu : u ∈ operands op t) :
    u.isJoin op = false ∧ u.isFlat = true := by
  cases hj : t.isJoin op with
  | false =>
    rw [operands_eq_singleton hj, List.mem_singleton] at hu
    exact hu ▸ ⟨hj, h⟩
  | true =>
    obtain ⟨us, rfl⟩ := exists_eq_join hj
    rw [operands_join_self] at hu
    exact (isFlat_join_iff.mp h).2 u hu

/-- A flat formula has an operand. -/
theorem operands_ne_nil (h : t.isFlat = true) : operands op t ≠ [] := by
  cases hj : t.isJoin op with
  | false => simp [operands_eq_singleton hj]
  | true =>
    obtain ⟨us, rfl⟩ := exists_eq_join hj
    rw [operands_join_self]
    rintro rfl
    simp at h

theorem mem_splice_of_isFlat {u : Formula} (h : ∀ t ∈ ts, t.isFlat = true)
    (hu : u ∈ splice op ts) : u.isJoin op = false ∧ u.isFlat = true := by
  obtain ⟨t, ht, hut⟩ := List.mem_flatMap.mp hu
  exact isFlat_of_mem_operands (h t ht) hut

/-! ### Combining -/

/-- A list that needs no splicing collapses to a flat formula. -/
theorem isFlat_collapse (h : ∀ t ∈ ts, t.isJoin op = false ∧ t.isFlat = true) :
    (collapse op ts).isFlat = true := by
  match ts, h with
  | [], _ => simp
  | [t], h => exact (h t (List.mem_singleton_self t)).2
  | t :: u :: ts, h => exact isFlat_join_iff.mpr ⟨by simp, h⟩

/-- **Combining flat terms gives a flat formula.** -/
theorem isFlat_combine (h : ∀ t ∈ ts, t.isFlat = true) : (combine op ts).isFlat = true :=
  isFlat_collapse fun _ hu => mem_splice_of_isFlat h hu

/-- The operands of a collapsed list are the list, unless it is empty. -/
theorem operands_collapse (hne : ts ≠ []) (h : ∀ t ∈ ts, t.isJoin op = false) :
    operands op (collapse op ts) = ts := by
  match ts, hne, h with
  | [t], _, h => exact operands_eq_singleton (h t (List.mem_singleton_self t))
  | t :: u :: ts, _, _ => exact operands_join_self op _

/-- **The operands of what is combined** from flat terms are the operands of the terms. -/
theorem operands_combine (hne : ts ≠ []) (h : ∀ t ∈ ts, t.isFlat = true) :
    operands op (combine op ts) = splice op ts := by
  refine operands_collapse ?_ fun u hu => (mem_splice_of_isFlat h hu).1
  cases ts with
  | nil => exact absurd rfl hne
  | cons t ts => simp [operands_ne_nil (h t (by simp))]

/-- Combining the operands of a flat formula gives it back. -/
theorem collapse_operands (h : t.isFlat = true) : collapse op (operands op t) = t := by
  cases hj : t.isJoin op with
  | false => rw [operands_eq_singleton hj, collapse_singleton]
  | true =>
    obtain ⟨us, rfl⟩ := exists_eq_join hj
    rw [operands_join_self]
    -- at least two terms: collapsing joins them again
    match us, h with
    | s :: u :: us, _ => rfl

/-! ### What formulas collect from their terms -/

section Collect

variable {α : Type} {g : Formula → List α}

/-- If joins collect from their terms, the operands of a formula give what the formula gives. -/
theorem flatMap_operands (hg : ∀ us, g (join op us) = us.flatMap g) (t : Formula) :
    (operands op t).flatMap g = g t := by
  cases hj : t.isJoin op with
  | false => rw [operands_eq_singleton hj, List.flatMap_singleton]
  | true =>
    obtain ⟨us, rfl⟩ := exists_eq_join hj
    rw [operands_join_self, hg]

theorem flatMap_splice (hg : ∀ us, g (join op us) = us.flatMap g) (ts : List Formula) :
    (splice op ts).flatMap g = ts.flatMap g := by
  rw [splice, List.flatMap_assoc]
  simp only [flatMap_operands hg]

/-- **Combining collects from the terms as the join does**, if there is nothing to collect from the
unit. -/
theorem apply_combine (hg : ∀ us, g (join op us) = us.flatMap g) (hunit : g (const op.unit) = [])
    (ts : List Formula) : g (combine op ts) = ts.flatMap g := by
  have hcollapse (us : List Formula) : g (collapse op us) = us.flatMap g := by
    match us with
    | [] => exact hunit
    | [u] => exact (List.flatMap_singleton g u).symm
    | u :: v :: us => exact hg _
  rw [combine, hcollapse, flatMap_splice hg]

end Collect

/-! ### Building anew -/

/-- **A formula built anew is flat.** -/
theorem isFlat_rebuild (t : Formula) : (rebuild t).isFlat = true := by
  induction t with
  | const b => simp
  | var name => simp
  | neg t ih => simpa using ih
  | join op ts ih =>
    rw [rebuild_join]
    refine isFlat_combine fun u hu => ?_
    obtain ⟨t, ht, rfl⟩ := List.mem_map.mp hu
    exact ih t ht

/-- **A flat formula is what one gets by building it anew.** -/
theorem rebuild_eq_self (h : t.isFlat = true) : rebuild t = t := by
  induction t with
  | const b => simp
  | var name => simp
  | neg t ih =>
    rw [rebuild_neg, ih (by simpa using h)]
  | join op ts ih =>
    obtain ⟨hlen, hts⟩ := isFlat_join_iff.mp h
    have hmap : ts.map rebuild = ts.map id := List.map_congr_left fun t ht => ih t ht (hts t ht).2
    rw [rebuild_join, hmap, List.map_id, combine, splice_eq_self fun t ht => (hts t ht).1]
    match ts, hlen with
    | s :: u :: us, _ => rfl

end Propositional.Formula
