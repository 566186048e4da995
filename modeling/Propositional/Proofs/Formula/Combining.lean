import Propositional.Proofs.Evaluation.Joins
import Propositional.Proofs.Formula.Flatness

/-!
# The laws of combining

Three things are asked of a combined join: that it has the value of the plain one, that it is flat
where its terms are, and that it does not show how its terms were grouped before. The first holds of
all terms whatever. The other two need flat terms, because splicing goes one level deep, and the
third needs a little more: a join of nothing is the unit, which stays behind as a term of its own.
Where every group has a member, the operands of a combined group are those of its members, and this
carries the whole matter (`Propositional.Formula.splice_map_combine`).

What an empty group does is no mystery either: it counts as a group that has the unit as its only
member (`Propositional.Formula.combine_groups_orUnit`). A unit is not seen in a value, and so the
grouping is never seen in the value of a join, whether the terms are flat or not
(`Propositional.Formula.evaluate_combine_groups`).
-/

namespace Propositional.Formula

variable (op : Connective) {groups : List (List Formula)}

/-! ### Groups that have a member -/

/-- Combined groups are spliced into what their members are spliced into. -/
theorem splice_map_combine (hne : ∀ g ∈ groups, g ≠ [])
    (h : ∀ g ∈ groups, ∀ t ∈ g, t.isFlat = true) :
    splice op (groups.map (combine op)) = splice op groups.flatten := by
  induction groups with
  | nil => rfl
  | cons g groups ih =>
    obtain ⟨hg, hgroups⟩ := List.forall_mem_cons.mp hne
    obtain ⟨hflat, hflats⟩ := List.forall_mem_cons.mp h
    rw [List.map_cons, splice_cons, operands_combine hg hflat, ih hgroups hflats,
      List.flatten_cons, splice_append]

/-- **Grouping does not show**: the join of the joins of some groups is the join of all their
members in order. -/
theorem combine_groups (hne : ∀ g ∈ groups, g ≠ [])
    (h : ∀ g ∈ groups, ∀ t ∈ g, t.isFlat = true) :
    combine op (groups.map (combine op)) = combine op groups.flatten := by
  rw [combine, splice_map_combine op hne h, combine]

/-! ### Groups that may be empty -/

/-- A group with the unit in the place of no member at all. -/
def orUnit : List Formula → List Formula
  | [] => [const op.unit]
  | t :: ts => t :: ts

theorem orUnit_ne_nil (g : List Formula) : orUnit op g ≠ [] := by
  cases g <;> simp [orUnit]

@[simp] theorem combine_orUnit (g : List Formula) : combine op (orUnit op g) = combine op g := by
  cases g <;> rfl

theorem isFlat_of_mem_orUnit {g : List Formula} (h : ∀ t ∈ g, t.isFlat = true) :
    ∀ t ∈ orUnit op g, t.isFlat = true := by
  cases g with
  | nil => simp [orUnit]
  | cons t ts => exact h

/-- **An empty group counts as a unit**, which stays among the terms like any other. -/
theorem combine_groups_orUnit (h : ∀ g ∈ groups, ∀ t ∈ g, t.isFlat = true) :
    combine op (groups.map (combine op)) = combine op (groups.flatMap (orUnit op)) := by
  have hmap : groups.map (combine op) = (groups.map (orUnit op)).map (combine op) := by
    simp [Function.comp_def]
  rw [hmap, combine_groups op, List.flatMap_def]
  · simp [orUnit_ne_nil]
  · intro g' hg'
    obtain ⟨g, hg, rfl⟩ := List.mem_map.mp hg'
    exact isFlat_of_mem_orUnit op (h g hg)

/-- The unit that an empty group leaves behind is seen. -/
example : combine .or [combine .or [], var "a"] = join .or [const false, var "a"] :=
  rfl

/-! ### The value of grouped terms -/

/-- Plain joins of groups are spliced into the members. -/
theorem splice_map_join (groups : List (List Formula)) :
    splice op (groups.map (join op)) = groups.flatten := by
  induction groups with
  | nil => rfl
  | cons g groups ih =>
    rw [List.map_cons, splice_cons, operands_join_self, ih, List.flatten_cons]

/-- **Grouping is not seen in a value**, whatever the groups and their members are. -/
theorem evaluate_combine_groups (s : Assignment) (groups : List (List Formula)) :
    evaluate s (combine op (groups.map (combine op))) = evaluate s (combine op groups.flatten) := by
  have hvalues : (groups.map (combine op)).map (evaluate s) =
      (groups.map (join op)).map (evaluate s) := by
    rw [List.map_map, List.map_map]
    exact List.map_congr_left fun g _ => evaluate_combine s op g
  calc evaluate s (combine op (groups.map (combine op)))
      = evaluate s (join op (groups.map (join op))) := by
        rw [evaluate_combine, evaluate_join_of_values s op hvalues]
    _ = evaluate s (join op groups.flatten) := by
        rw [← evaluate_join_splice, splice_map_join]
    _ = evaluate s (combine op groups.flatten) := (evaluate_combine s op _).symm

/-! ### The three laws -/

/-- **The laws of combining**: the value of the plain join, flatness, and no trace of the
grouping. -/
theorem combine_laws :
    (∀ (ts : List Formula) (s : Assignment), evaluate s (combine op ts) = evaluate s (join op ts)) ∧
    (∀ ts : List Formula, (∀ t ∈ ts, t.isFlat = true) → (combine op ts).isFlat = true) ∧
    ∀ groups : List (List Formula), (∀ g ∈ groups, g ≠ []) →
      (∀ g ∈ groups, ∀ t ∈ g, t.isFlat = true) →
      combine op (groups.map (combine op)) = combine op groups.flatten :=
  ⟨fun ts s => evaluate_combine s op ts, fun _ h => isFlat_combine h,
    fun _ hne h => combine_groups op hne h⟩

/-- Plain joins of nothing among the terms, one group with a single member and one whose member is
spliced. -/
theorem combine_laws_of_groups :
    evaluate (.empty false) (combine .and [join .and [], join .or [], var "a"]) =
      evaluate (.empty false) (join .and [join .and [], join .or [], var "a"]) ∧
    (combine .or [var "a", join .or [var "b", neg (var "c")]]).isFlat = true ∧
    combine .or [combine .or [var "a", join .or [var "b", neg (var "c")]],
        combine .or [join .and [var "d", var "e"]]] =
      combine .or [var "a", join .or [var "b", neg (var "c")], join .and [var "d", var "e"]] := by
  obtain ⟨hvalue, -, -⟩ := combine_laws .and
  obtain ⟨-, hflat, hgroups⟩ := combine_laws .or
  refine ⟨hvalue _ _, hflat _ (by simp [isJoin]), ?_⟩
  exact hgroups [[var "a", join .or [var "b", neg (var "c")]], [join .and [var "d", var "e"]]]
    (by simp) (by simp [isJoin])

end Propositional.Formula
