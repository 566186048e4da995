import Mathlib.Data.List.Flatten
import Propositional.Proofs.NormalForm.Assembly

/-!
# What distributing makes

A conjunction of normal forms is the disjunction of all choices of one clause from each, every
choice assembled to a clause (`Propositional.Formula.operands_conjoin`). This is what the operation
is meant to do, but not literally what it does: it splices and trims the list before it looks for
disjunctions, so that the literals of a clause in the list enter the choices one by one, and the
units among them not at all. It comes to the same because a choice is spliced and trimmed once more
when it is assembled (`Propositional.Formula.map_spliceTrimmed_choices`).

Two facts about disjunctions then keep the clauses apart as they were made. A disjunction among the
normal forms has no term `T`, hence no choice is assembled to `T`, which would decide the result;
and it has two terms, hence there are two clauses, even where both are `F` and units are kept
(`Propositional.Formula.value_conjoin_eq_join`). So a conjunction is `F` only if `F` is among its
terms (`Propositional.Formula.value_conjoin_eq_false_iff`).
-/

namespace Propositional

/-! ### Choices -/

section Choices

variable {α β : Type}

/-- A choice from two lists of lists is a choice from the one and a choice from the other. -/
theorem choices_append (xss yss : List (List α)) :
    choices (xss ++ yss) = (choices xss).flatMap fun xs => (choices yss).map (xs ++ ·) := by
  induction xss with
  | nil => simp
  | cons xs xss ih =>
    simp only [List.cons_append, choices_cons, ih, List.map_flatMap, List.flatMap_assoc,
      List.flatMap_map, List.map_map, Function.comp_def]

/-- **Choosing in groups**: a choice from all lists is a choice of one choice for each group. -/
theorem choices_flatten (xsss : List (List (List α))) :
    choices xsss.flatten = (choices (xsss.map choices)).map List.flatten := by
  induction xsss with
  | nil => rfl
  | cons xss xsss ih =>
    rw [List.flatten_cons, choices_append, ih, List.map_cons, choices_cons, List.map_flatMap]
    simp only [List.map_map, Function.comp_def, List.flatten_cons]

/-- Choices are made by position. -/
theorem choices_map (f : α → β) (xss : List (List α)) :
    choices (xss.map (List.map f)) = (choices xss).map (List.map f) := by
  induction xss with
  | nil => rfl
  | cons xs xss ih =>
    simp only [List.map_cons, choices_cons, ih, List.map_flatMap, List.flatMap_map, List.map_map,
      Function.comp_def]

/-- From lists of one member each there is one choice. -/
theorem choices_map_singleton (xs : List α) : choices (xs.map fun x => [x]) = [xs] := by
  induction xs with
  | nil => rfl
  | cons x xs ih => rw [List.map_cons, choices_cons, ih]; rfl

/-- From a single list there are as many choices as members. -/
theorem choices_singleton (xs : List α) : choices [xs] = xs.map fun x => [x] := by
  rw [choices_cons, choices_nil, List.map_eq_flatMap]
  rfl

/-- What is chosen comes from one of the lists. -/
theorem exists_mem_of_mem_choices {xss : List (List α)} {ys : List α} {y : α}
    (h : ys ∈ choices xss) (hy : y ∈ ys) : ∃ xs ∈ xss, y ∈ xs := by
  induction xss generalizing ys with
  | nil => simp_all
  | cons xs xss ih =>
    obtain ⟨x, hx, rest, hrest, rfl⟩ := mem_choices_cons.mp h
    rcases List.mem_cons.mp hy with rfl | hy
    · exact ⟨xs, List.mem_cons_self, hx⟩
    · obtain ⟨zs, hzs, hyz⟩ := ih hrest hy
      exact ⟨zs, List.mem_cons_of_mem _ hzs, hyz⟩

/-- From every list something is chosen. -/
theorem exists_mem_choice {xss : List (List α)} {xs ys : List α} (h : ys ∈ choices xss)
    (hxs : xs ∈ xss) : ∃ x ∈ xs, x ∈ ys := by
  induction xss generalizing ys with
  | nil => simp at hxs
  | cons zs xss ih =>
    obtain ⟨x, hx, rest, hrest, rfl⟩ := mem_choices_cons.mp h
    rcases List.mem_cons.mp hxs with rfl | hxs
    · exact ⟨x, hx, List.mem_cons_self⟩
    · obtain ⟨y, hy, hyrest⟩ := ih hrest hxs
      exact ⟨y, hy, List.mem_cons_of_mem _ hyrest⟩

/-- From an empty list nothing can be chosen. -/
theorem choices_eq_nil {xss : List (List α)} (h : [] ∈ xss) : choices xss = [] := by
  refine List.eq_nil_iff_forall_not_mem.mpr fun ys hys => ?_
  obtain ⟨x, hx, -⟩ := exists_mem_choice hys h
  exact absurd hx List.not_mem_nil

/-- The choices that consist of members of one kind are the choices from these members. -/
theorem filter_choices (p : α → Bool) (xss : List (List α)) :
    (choices xss).filter (fun ys => ys.all p) = choices (xss.map (List.filter p)) := by
  induction xss with
  | nil => rfl
  | cons xs xss ih =>
    rw [List.map_cons, choices_cons, choices_cons, ← ih]
    induction xs with
    | nil => rfl
    | cons x xs ihx =>
      rw [List.flatMap_cons, List.filter_append, ihx, List.filter_map]
      by_cases hx : p x = true
      · rw [List.filter_cons_of_pos hx, List.flatMap_cons]
        simp [Function.comp_def, hx]
      · rw [List.filter_cons_of_neg hx]
        simp [Function.comp_def, hx]

/-- From parts of the lists the choices are part of the choices, in the same order. -/
theorem choices_sublist {f g : β → List α} {bs : List β} (h : ∀ b ∈ bs, (f b).Sublist (g b)) :
    (choices (bs.map f)).Sublist (choices (bs.map g)) := by
  induction bs with
  | nil => exact .refl _
  | cons b bs ih =>
    obtain ⟨hb, hbs⟩ := List.forall_mem_cons.mp h
    rw [List.map_cons, List.map_cons, choices_cons, choices_cons]
    exact (hb.flatMap _).trans (.flatMap_right _ fun x _ => (ih hbs).map _)

theorem length_choices_cons (xs : List α) (xss : List (List α)) :
    (choices (xs :: xss)).length = xs.length * (choices xss).length := by
  simp [length_choices]

theorem length_choices_pos {xss : List (List α)} (hne : ∀ xs ∈ xss, xs ≠ []) :
    0 < (choices xss).length := by
  induction xss with
  | nil => simp
  | cons xs xss ih =>
    obtain ⟨hxs, hxss⟩ := List.forall_mem_cons.mp hne
    rw [length_choices_cons]
    exact Nat.mul_pos (List.length_pos_iff.mpr hxs) (ih hxss)

/-- Where every list has a member there are at least as many choices as members of any one. -/
theorem length_le_length_choices {xss : List (List α)} {xs : List α} (hne : ∀ ys ∈ xss, ys ≠ [])
    (hxs : xs ∈ xss) : xs.length ≤ (choices xss).length := by
  induction xss with
  | nil => simp at hxs
  | cons zs xss ih =>
    obtain ⟨hzs, hxss⟩ := List.forall_mem_cons.mp hne
    rw [length_choices_cons]
    rcases List.mem_cons.mp hxs with rfl | hxs
    · exact Nat.le_mul_of_pos_right _ (length_choices_pos hxss)
    · exact Nat.le_trans (ih hxss hxs)
        (Nat.le_mul_of_pos_left _ (List.length_pos_iff.mpr hzs))

end Choices

namespace Formula

variable {dropUnits : Bool} {n : Formula} {ns : List Formula}

/-! ### Clauses of a normal form -/

theorem isBase_isFactor : IsBase .and (IsFactor dropUnits) where
  const _ := .inl rfl
  isJoin _ h := h.isJoin_and

/-- A normal form that is no disjunction is a clause. -/
theorem IsNormalForm.isClauseForm_of_isJoin_eq_false (h : IsNormalForm dropUnits n)
    (hj : n.isJoin .or = false) : IsClauseForm dropUnits n := by
  cases h with
  | alone h => exact h
  | join hlen hcs => simp [isJoin] at hj

theorem forall_isClauseForm (hns : ∀ n ∈ ns, IsNormalForm dropUnits n)
    (hj : ¬∃ n ∈ ns, n.isJoin .or = true) : ∀ n ∈ ns, IsClauseForm dropUnits n := fun n hn =>
  (hns n hn).isClauseForm_of_isJoin_eq_false (eq_false_of_ne_true fun h => hj ⟨n, hn, h⟩)

/-- The operands of a normal form are clauses. -/
theorem IsNormalForm.isClauseForm_of_mem_operands {c : Formula} (h : IsNormalForm dropUnits n)
    (hc : c ∈ operands .or n) : IsClauseForm dropUnits c := by
  cases h with
  | alone h =>
    rw [operands_eq_singleton h.isJoin_or, List.mem_singleton] at hc
    exact hc ▸ h
  | join hlen hcs =>
    rw [operands_join_self] at hc
    exact (hcs c hc).1

/-- The operands of a disjunction in normal form are clauses that it may have, two at least. -/
theorem IsNormalForm.admits_operands (h : IsNormalForm dropUnits n) (hj : n.isJoin .or = true) :
    2 ≤ (operands .or n).length ∧ ∀ c ∈ operands .or n, Admits dropUnits .or c := by
  obtain ⟨cs, rfl⟩ := exists_eq_join hj
  rw [operands_join_self]
  cases h with
  | alone h => exact absurd hj (by simp [h.isJoin_or])
  | join hlen hcs => exact ⟨hlen, fun c hc => (hcs c hc).2⟩

/-- A choice of operands of normal forms consists of clauses. -/
theorem isClauseForm_of_mem_choice {choice : List Formula}
    (hns : ∀ n ∈ ns, IsNormalForm dropUnits n)
    (hchoice : choice ∈ choices (ns.map (operands .or))) :
    ∀ c ∈ choice, IsClauseForm dropUnits c := by
  intro c hc
  obtain ⟨cs, hcs, hmem⟩ := exists_mem_of_mem_choices hchoice hc
  obtain ⟨n, hn, rfl⟩ := List.mem_map.mp hcs
  exact (hns n hn).isClauseForm_of_mem_operands hmem

/-! ### Choices from a list that has been spliced and trimmed -/

/-- A disjunction enters a conjunction as it is. -/
theorem spliceTrimmed_singleton_of_isJoin (h : IsNormalForm dropUnits n)
    (hj : n.isJoin .or = true) :
    spliceTrimmed dropUnits .and [n] = [n] := by
  refine spliceTrimmed_eq_self (p := IsFactor dropUnits) isBase_isFactor fun u hu => ?_
  obtain rfl := List.mem_singleton.mp hu
  refine ⟨.inr ⟨hj, h⟩, ?_, fun _ => ?_⟩
  · rintro rfl
    cases hj
  · rintro rfl
    cases hj

/-- For one normal form: as a clause it is spliced and trimmed before the choice or after it, and
with a disjunction nothing is done before it. -/
theorem map_spliceTrimmed_choices_singleton (h : IsNormalForm dropUnits n) (hz : n ≠ const false) :
    (choices ((spliceTrimmed dropUnits .and [n]).map (operands .or))).map
        (spliceTrimmed dropUnits .and) =
      (choices [operands .or n]).map (spliceTrimmed dropUnits .and) := by
  cases hj : n.isJoin .or with
  | true => rw [spliceTrimmed_singleton_of_isJoin h hj, List.map_singleton]
  | false =>
    have hclause : ∀ t ∈ [n], IsClauseForm dropUnits t := by
      simpa using h.isClauseForm_of_isJoin_eq_false hj
    have hlit : ∀ l ∈ spliceTrimmed dropUnits .and [n],
        l.isLiteral = true ∧ Admits dropUnits .and l :=
      admits_of_mem isBase_isLiteral hclause (by simpa using Ne.symm hz)
    have hmap : (spliceTrimmed dropUnits .and [n]).map (operands .or) =
        (spliceTrimmed dropUnits .and [n]).map fun l => [l] :=
      List.map_congr_left fun l hl =>
        operands_eq_singleton (isJoin_eq_false_of_isLiteral (hlit l hl).1)
    have hone : choices [operands .or n] = [[n]] := by
      rw [operands_eq_singleton hj]
      exact choices_map_singleton [n]
    rw [hmap, choices_map_singleton, hone, List.map_singleton, List.map_singleton,
      spliceTrimmed_eq_self isBase_isLiteral hlit]

/-- **A choice may be spliced and trimmed afterwards only.** -/
theorem map_spliceTrimmed_choices (hns : ∀ n ∈ ns, IsNormalForm dropUnits n)
    (hz : const false ∉ ns) :
    (choices ((spliceTrimmed dropUnits .and ns).map (operands .or))).map
        (spliceTrimmed dropUnits .and) =
      (choices (ns.map (operands .or))).map (spliceTrimmed dropUnits .and) := by
  -- choosing from two lists and then splicing is splicing two choices
  have happend (xss yss : List (List Formula)) :
      (choices (xss ++ yss)).map (spliceTrimmed dropUnits .and) =
        ((choices xss).map (spliceTrimmed dropUnits .and)).flatMap fun us =>
          ((choices yss).map (spliceTrimmed dropUnits .and)).map (us ++ ·) := by
    simp only [choices_append, List.map_flatMap, List.flatMap_map, List.map_map,
      spliceTrimmed_append, Function.comp_def]
  induction ns with
  | nil => simp
  | cons n ns ih =>
    obtain ⟨hn, hns⟩ := List.forall_mem_cons.mp hns
    rw [List.mem_cons, not_or] at hz
    rw [spliceTrimmed_cons, List.map_append, happend,
      map_spliceTrimmed_choices_singleton hn (Ne.symm hz.1), ih hns hz.2, ← happend]
    rfl

/-! ### The conjunction of normal forms -/

/-- The clauses that distributing makes. -/
theorem map_conjoin_choices (hns : ∀ n ∈ ns, IsNormalForm dropUnits n) (hz : const false ∉ ns) :
    ((choices ((spliceTrimmed dropUnits .and ns).map (operands .or))).map fun choice =>
        (conjoin dropUnits choice).value) =
      (choices (ns.map (operands .or))).map (assemble dropUnits .and) := by
  have hfactor : ∀ u ∈ spliceTrimmed dropUnits .and ns, IsFactor dropUnits u := fun u hu =>
    (isFactor_of_mem_spliceTrimmed hns hz hu).1
  calc
    _ = (choices ((spliceTrimmed dropUnits .and ns).map (operands .or))).map
          (settle .and ∘ spliceTrimmed dropUnits .and) := by
        refine List.map_congr_left fun choice hchoice => ?_
        have hclauses := isClauseForm_of_mem_choices hfactor hchoice
        exact (value_conjoin_eq_assemble hclauses).trans
          (assemble_eq_settle isBase_isLiteral hclauses)
    _ = (choices (ns.map (operands .or))).map (settle .and ∘ spliceTrimmed dropUnits .and) := by
        rw [← List.map_map, map_spliceTrimmed_choices hns hz, List.map_map]
    _ = _ := List.map_congr_left fun choice hchoice =>
        (assemble_eq_settle isBase_isLiteral (isClauseForm_of_mem_choice hns hchoice)).symm

/-- What a choice is assembled to is fit for a disjunction if there was one to choose from. -/
theorem admits_assemble_choice {choice : List Formula} (hns : ∀ n ∈ ns, IsNormalForm dropUnits n)
    (hz : const false ∉ ns) (hj : ∃ n ∈ ns, n.isJoin .or = true)
    (hchoice : choice ∈ choices (ns.map (operands .or))) :
    Admits dropUnits .or (assemble dropUnits .and choice) := by
  have hclauses := isClauseForm_of_mem_choice hns hchoice
  refine ⟨fun htrue => ?_, fun hd hfalse => ?_⟩
  · -- a choice of nothing but `T` has none from the disjunction
    obtain ⟨n, hn, hj⟩ := hj
    obtain ⟨c, hc, hmem⟩ := exists_mem_choice hchoice (List.mem_map_of_mem hn)
    exact (((hns n hn).admits_operands hj).2 c hc).1
      (eq_unit_of_assemble_eq_unit isBase_isLiteral hclauses htrue c hmem)
  · -- without units `F` is no operand of a disjunction
    have hmem := (assemble_eq_zero_iff isBase_isLiteral hclauses).mp hfalse
    obtain ⟨cs, hcs, hc⟩ := exists_mem_of_mem_choices hchoice hmem
    obtain ⟨n, hn, rfl⟩ := List.mem_map.mp hcs
    cases hj : n.isJoin .or with
    | true => exact (((hns n hn).admits_operands hj).2 _ hc).2 hd rfl
    | false =>
      rw [operands_eq_singleton hj, List.mem_singleton] at hc
      exact hz (hc ▸ hn)

/-- **A conjunction with a disjunction among its terms** is the disjunction of all choices. -/
theorem value_conjoin_eq_join (hns : ∀ n ∈ ns, IsNormalForm dropUnits n) (hz : const false ∉ ns)
    (hj : ∃ n ∈ ns, n.isJoin .or = true) :
    (conjoin dropUnits ns).value =
      join .or ((choices (ns.map (operands .or))).map (assemble dropUnits .and)) := by
  obtain ⟨n, hn, hjn⟩ := hj
  have hany : (spliceTrimmed dropUnits .and ns).any (isJoin .or) = true := by
    have hsub := sublist_spliceTrimmed_of_mem dropUnits .and hn
    rw [spliceTrimmed_singleton_of_isJoin (hns n hn) hjn, List.singleton_sublist] at hsub
    exact List.any_eq_true.mpr ⟨n, hsub, hjn⟩
  have hlen : 2 ≤ ((choices (ns.map (operands .or))).map (assemble dropUnits .and)).length := by
    rw [List.length_map]
    refine Nat.le_trans ((hns n hn).admits_operands hjn).1
      (length_le_length_choices ?_ (List.mem_map_of_mem hn))
    rw [List.forall_mem_map]
    exact fun m hm => operands_ne_nil (hns m hm).isFlat
  have hadmits : ∀ c ∈ (choices (ns.map (operands .or))).map (assemble dropUnits .and),
      IsClauseForm dropUnits c ∧ Admits dropUnits .or c := by
    rw [List.forall_mem_map]
    exact fun choice hchoice =>
      ⟨isLayer_assemble isBase_isLiteral (isClauseForm_of_mem_choice hns hchoice),
        admits_assemble_choice hns hz ⟨n, hn, hjn⟩ hchoice⟩
  rw [← assemble_eq_join isBase_isClauseForm hlen hadmits, ← disjoin_eq_assemble,
    ← map_conjoin_choices hns hz, conjoin_of_join dropUnits (any_isConst_eq_false hz) hany,
    Logged.value_after, Logged.value_map, Logged.value_gather, List.map_map]
  rfl

/-- **The clauses of a conjunction** of normal forms are the choices of one clause from each. -/
theorem operands_conjoin (hns : ∀ n ∈ ns, IsNormalForm dropUnits n) (hz : const false ∉ ns) :
    operands .or (conjoin dropUnits ns).value =
      (choices (ns.map (operands .or))).map (assemble dropUnits .and) := by
  by_cases hj : ∃ n ∈ ns, n.isJoin .or = true
  · rw [value_conjoin_eq_join hns hz hj, operands_join_self]
  · have hclauses := forall_isClauseForm hns hj
    have hmap : ns.map (operands .or) = ns.map fun n => [n] :=
      List.map_congr_left fun n hn => operands_eq_singleton (hclauses n hn).isJoin_or
    have hclause : IsClauseForm dropUnits (assemble dropUnits .and ns) :=
      isLayer_assemble isBase_isLiteral hclauses
    rw [value_conjoin_eq_assemble hclauses, operands_eq_singleton hclause.isJoin_or, hmap,
      choices_map_singleton, List.map_singleton]

/-- **A conjunction of normal forms is `F` only if one of them is.** -/
theorem value_conjoin_eq_false_iff (hns : ∀ n ∈ ns, IsNormalForm dropUnits n) :
    (conjoin dropUnits ns).value = const false ↔ const false ∈ ns := by
  constructor
  swap
  · exact fun hz => congrArg Logged.value (conjoin_of_any_false dropUnits (any_isConst_iff.mpr hz))
  intro h
  by_contra hz
  by_cases hj : ∃ n ∈ ns, n.isJoin .or = true
  · rw [value_conjoin_eq_join hns hz hj] at h
    cases h
  · have hclauses := forall_isClauseForm hns hj
    rw [value_conjoin_eq_assemble hclauses] at h
    exact hz ((assemble_eq_zero_iff isBase_isLiteral hclauses).mp h)

end Formula

end Propositional
