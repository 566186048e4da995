import Propositional.Formula.Construction
import Propositional.Formula.Shape

/-!
# Choices from lists

Distributing a conjunction over the disjunctions in it means choosing one operand of each in every
possible way. The choices come in lexicographic order, the one from the first list outermost.

Only disjunctions give anything to choose, so it is enough to choose from these and to put each
choice back between the other terms (`Propositional.Formula.map_refill_choices`).

A choice is smaller than what it was chosen from as soon as one disjunction was to be distributed
over (`Propositional.Formula.totalSize_lt_of_mem_choices`): that is why distributing comes to an
end.
-/

namespace Propositional

/-- **All ways to choose one member of each list**, in lexicographic order with the first list
outermost. -/
def choices {α : Type} : List (List α) → List (List α)
  | [] => [[]]
  | xs :: xss =>
    let rest := choices xss
    xs.flatMap fun x => rest.map (x :: ·)

@[simp] theorem choices_nil {α : Type} : choices ([] : List (List α)) = [[]] := rfl

theorem choices_cons {α : Type} (xs : List α) (xss : List (List α)) :
    choices (xs :: xss) = xs.flatMap fun x => (choices xss).map (x :: ·) := rfl

theorem mem_choices_cons {α : Type} {xs : List α} {xss : List (List α)} {ys : List α} :
    ys ∈ choices (xs :: xss) ↔ ∃ x ∈ xs, ∃ rest ∈ choices xss, ys = x :: rest := by
  simp [choices_cons, eq_comm]

/-- There are as many choices as the product of the lengths says. -/
theorem length_choices {α : Type} (xss : List (List α)) :
    (choices xss).length = (xss.map List.length).foldr (· * ·) 1 := by
  induction xss with
  | nil => rfl
  | cons xs xss ih =>
    rw [choices_cons, List.map_cons, List.foldr_cons, ← ih]
    induction xs with
    | nil => simp
    | cons x xs ih' => simp [List.flatMap_cons, ih', Nat.succ_mul, Nat.add_comm]

namespace Formula

/-! ### Choices put back in their places -/

/-- **A choice in place of what was chosen from**: each join of the connective `op` among the terms
gives way to the next member of the choice, if there is one, and the other terms stay where they
are. -/
def refill (op : Connective) : List Formula → List Formula → List Formula
  | [], _ => []
  | t :: ts, choice =>
    if t.isJoin op then choice.head?.toList ++ refill op ts choice.tail
    else t :: refill op ts choice

theorem refill_cons_of_join {op : Connective} {t c : Formula} {ts choice : List Formula}
    (h : t.isJoin op = true) : refill op (t :: ts) (c :: choice) = c :: refill op ts choice := by
  rw [refill, if_pos h]
  rfl

theorem refill_cons_of_not_join {op : Connective} {t : Formula} {ts choice : List Formula}
    (h : t.isJoin op = false) : refill op (t :: ts) choice = t :: refill op ts choice := by
  rw [refill, if_neg (by simp [h])]

/-- **Choosing from the joins alone** and putting each choice back is choosing an operand of every
term, for what is no join has no operand but itself. -/
theorem map_refill_choices (op : Connective) (ts : List Formula) :
    (choices ((ts.filter (isJoin op)).map (operands op))).map (refill op ts) =
      choices (ts.map (operands op)) := by
  induction ts with
  | nil => rfl
  | cons t ts ih =>
    rw [List.map_cons, choices_cons, ← ih]
    cases hj : t.isJoin op with
    | true =>
      rw [List.filter_cons_of_pos hj, List.map_cons, choices_cons, List.map_flatMap]
      refine congrArg (List.flatMap · _) (funext fun c => ?_)
      rw [List.map_map, List.map_map]
      exact List.map_congr_left fun choice _ => refill_cons_of_join hj
    | false =>
      rw [List.filter_cons_of_neg (by simp [hj]), operands_eq_singleton hj,
        List.flatMap_singleton, List.map_map]
      exact List.map_congr_left fun choice _ => refill_cons_of_not_join hj

/-! ### Sizes -/

/-- An operand of a formula is no larger than the formula. -/
theorem size_le_of_mem_operands {op : Connective} {s t : Formula} (h : s ∈ operands op t) :
    s.size ≤ t.size := by
  unfold operands at h
  split at h
  · split at h
    · have := size_le_totalSize h
      rw [size_join]
      omega
    · simp_all
  · simp_all

/-- A term of a join is smaller than the join. -/
theorem size_lt_of_mem_operands {op : Connective} {s t : Formula} (hj : t.isJoin op = true)
    (h : s ∈ operands op t) : s.size < t.size := by
  cases t with
  | join p ts =>
    obtain rfl : p = op := by simpa [isJoin] using hj
    rw [operands_join_self] at h
    have := size_le_totalSize h
    rw [size_join]
    omega
  | _ => simp [isJoin] at hj

theorem totalSize_operands_le (op : Connective) (t : Formula) :
    totalSize (operands op t) ≤ t.size := by
  unfold operands
  split
  · split <;> simp
  · simp

/-- Splicing drops the joins that it opens and keeps everything else. -/
theorem totalSize_splice_le (op : Connective) (ts : List Formula) :
    totalSize (splice op ts) ≤ totalSize ts := by
  induction ts with
  | nil => simp
  | cons t ts ih =>
    have := totalSize_operands_le op t
    simp only [splice_cons, totalSize_append, totalSize_cons]
    omega

theorem totalSize_filter_le (p : Formula → Bool) (ts : List Formula) :
    totalSize (ts.filter p) ≤ totalSize ts := by
  induction ts with
  | nil => simp
  | cons t ts ih =>
    rw [List.filter_cons]
    split <;> simp only [totalSize_cons] <;> omega

/-- A choice of operands is at most as large as the list chosen from. -/
theorem totalSize_le_of_mem_choices {op : Connective} {ts choice : List Formula}
    (h : choice ∈ choices (ts.map (operands op))) : totalSize choice ≤ totalSize ts := by
  induction ts generalizing choice with
  | nil => simp_all
  | cons t ts ih =>
    rw [List.map_cons, mem_choices_cons] at h
    obtain ⟨s, hs, rest, hrest, rfl⟩ := h
    have := size_le_of_mem_operands hs
    have := ih hrest
    simp only [totalSize_cons]
    omega

/-- **A choice of operands is smaller than the list chosen from** if a join is among its members. -/
theorem totalSize_lt_of_mem_choices {op : Connective} {ts choice : List Formula}
    (hj : ts.any (isJoin op) = true) (h : choice ∈ choices (ts.map (operands op))) :
    totalSize choice < totalSize ts := by
  induction ts generalizing choice with
  | nil => simp at hj
  | cons t ts ih =>
    rw [List.map_cons, mem_choices_cons] at h
    obtain ⟨s, hs, rest, hrest, rfl⟩ := h
    simp only [totalSize_cons]
    rcases Bool.or_eq_true_iff.1 (List.any_cons ▸ hj) with ht | hts
    · have := size_lt_of_mem_operands ht hs
      have := totalSize_le_of_mem_choices hrest
      omega
    · have := size_le_of_mem_operands hs
      have := ih hts hrest
      omega

end Formula

end Propositional
