import Propositional.Proofs.NormalForm.Distribution

/-!
# Normal forms with and without units

Dropping units does not make a normal form by dropping units from one. A conjunction of nothing but
`T` collapses to `T` where units are dropped, and then decides the disjunction that it stands in;
where units stay, it is a clause like any other, and the disjunction may go on to be distributed
over. So the two normal forms of a formula come apart while they are made, and in the end the one
without units may lack whole clauses that the other has.

What remains true is that units only ever take something away
(`Propositional.Formula.isThinned_normalForm`). It is said of the *proper clauses* of a normal form,
its clauses other than `F`, each as the list of its literals other than `T`: those of the normal
form without units are part of those of the one with units, in the same order, and if one of the
latter is empty, then the former are this empty clause alone. This relation
(`Propositional.IsThinned`) is between lists of lists and knows nothing of formulas. It passes
through unions and products, and these are all that happens to proper clauses, in either mode
(`Propositional.Formula.properClauses_disjoin`, `Propositional.Formula.properClauses_conjoin`).

A normal form without units is given by its proper clauses
(`Propositional.Formula.collapse_properClauses`), which is why nothing is lost by speaking of these.
-/

namespace Propositional

/-! ### Thinning -/

/-- **Clauses that are what is left of others**: part of them, in the same order; and only an empty
clause if there was one, which is `T` and decides a disjunction. -/
structure IsThinned {α : Type} (fewer more : List (List α)) : Prop where
  /-- Nothing is new, and the order is the same. -/
  sublist : fewer.Sublist more
  /-- An empty clause makes all others disappear. -/
  eq_of_nil_mem : [] ∈ more → fewer = [[]]

section IsThinned

variable {α β : Type} {f g : β → List (List α)} {bs : List β}

/-- Without an empty clause on the smaller side, there is none on the greater one. -/
theorem IsThinned.nil_notMem {fewer more : List (List α)} (h : IsThinned fewer more)
    (hne : fewer ≠ [[]]) : [] ∉ more :=
  mt h.eq_of_nil_mem hne

/-- Thinning passes through unions in which nothing is decided. -/
theorem IsThinned.flatMap (h : ∀ b ∈ bs, IsThinned (f b) (g b)) (hne : ∀ b ∈ bs, f b ≠ [[]]) :
    IsThinned (bs.flatMap f) (bs.flatMap g) where
  sublist := .flatMap_right _ fun b hb => (h b hb).sublist
  eq_of_nil_mem hnil := by
    obtain ⟨b, hb, hmem⟩ := List.mem_flatMap.mp hnil
    exact absurd hmem ((h b hb).nil_notMem (hne b hb))

/-- **Thinning passes through products**: a choice is empty if all that was chosen is, and then
there was nothing else to choose. -/
theorem IsThinned.choices (h : ∀ b ∈ bs, IsThinned (f b) (g b)) :
    IsThinned ((choices (bs.map f)).map List.flatten) ((choices (bs.map g)).map List.flatten) where
  sublist := (choices_sublist fun b hb => (h b hb).sublist).map _
  eq_of_nil_mem hnil := by
    obtain ⟨choice, hchoice, hflat⟩ := List.mem_map.mp hnil
    have hf : bs.map f = (bs.map fun _ => ([] : List α)).map fun x => [x] := by
      rw [List.map_map]
      refine List.map_congr_left fun b hb => (h b hb).eq_of_nil_mem ?_
      obtain ⟨c, hc, hmem⟩ := exists_mem_choice hchoice (List.mem_map_of_mem hb)
      rwa [List.flatten_eq_nil_iff.mp hflat c hmem] at hc
    rw [hf, choices_map_singleton, List.map_singleton, List.flatten_eq_nil_iff.mpr]
    exact fun c hc => (List.mem_map.mp hc).elim fun _ hb => hb.2.symm

end IsThinned

namespace Formula

variable {dropUnits : Bool} {op : Connective} {p : Formula → Prop} {n t : Formula}
  {ns ts us : List Formula}

/-! ### Proper operands -/

/-- The operands of a formula other than the unit of the connective, which adds nothing to a
join. -/
def properOperands (op : Connective) (t : Formula) : List Formula :=
  (operands op t).filter (· ≠ const op.unit)

/-- **The proper clauses of a normal form**: its clauses other than `F`, each as the list of its
literals other than `T`. -/
def properClauses (n : Formula) : List (List Formula) :=
  (properOperands .or n).map (properOperands .and)

/-- The clauses of a normal form. The normal form `F` has none. -/
def clauses (n : Formula) : List Formula :=
  if n = const false then [] else operands .or n

/-- Units are no proper operands, whether they have been dropped before or not. -/
theorem filter_spliceTrimmed (dropUnits : Bool) (op : Connective) (ts : List Formula) :
    (spliceTrimmed dropUnits op ts).filter (· ≠ const op.unit) =
      ts.flatMap (properOperands op) := by
  have hsplice : (splice op ts).filter (· ≠ const op.unit) = ts.flatMap (properOperands op) :=
    List.filter_flatMap
  unfold spliceTrimmed
  split
  · rw [List.filter_filter, ← hsplice]
    refine List.filter_congr fun u _ => ?_
    by_cases hu : u = const op.unit
    · simp [hu]
    · simpa [hu] using mt isConst_eq_true_iff.mp hu
  · exact hsplice

theorem properOperands_collapse (hus : ∀ u ∈ us, u.isJoin op = false) :
    properOperands op (collapse op us) = us.filter (· ≠ const op.unit) := by
  by_cases hnil : us = []
  · simp [hnil, properOperands]
  · rw [properOperands, operands_collapse hnil hus]

/-- **The proper operands of what is assembled** are those of the terms, unless the zero decides
it. -/
theorem properOperands_assemble (hp : IsBase op p) (hts : ∀ t ∈ ts, IsLayer dropUnits op p t)
    (hz : const op.zero ∉ ts) :
    properOperands op (assemble dropUnits op ts) = ts.flatMap (properOperands op) := by
  rw [assemble_eq_collapse hp hts hz,
    properOperands_collapse fun u hu => hp.isJoin u (admits_of_mem hp hts hz u hu).1,
    filter_spliceTrimmed]

/-! ### Proper clauses -/

/-- The proper clauses of a disjunction are those of its terms, unless `T` decides it. -/
theorem properClauses_disjoin (hns : ∀ n ∈ ns, IsNormalForm dropUnits n) (hz : const true ∉ ns) :
    (disjoin dropUnits ns).properClauses = ns.flatMap properClauses := by
  rw [disjoin_eq_assemble, properClauses, properOperands_assemble isBase_isClauseForm hns hz,
    List.map_flatMap]
  rfl

/-- **The proper clauses of a conjunction** are the choices of one proper clause from each of its
terms. The choice of a clause `F` gives nothing, here as in the conjunction. -/
theorem properClauses_conjoin (hns : ∀ n ∈ ns, IsNormalForm dropUnits n) :
    (conjoin dropUnits ns).value.properClauses =
      (choices (ns.map properClauses)).map List.flatten := by
  by_cases hz : const false ∈ ns
  · rw [(value_conjoin_eq_false_iff hns).mpr hz, choices_eq_nil (List.mem_map.mpr ⟨_, hz, rfl⟩)]
    rfl
  have hclauses : ∀ choice ∈ choices (ns.map (operands .or)),
      ∀ c ∈ choice, IsClauseForm dropUnits c := fun _ => isClauseForm_of_mem_choice hns
  -- a choice is assembled to `F` exactly if `F` was chosen
  have hproper : (choices (ns.map (operands .or))).filter
      (fun choice => assemble dropUnits .and choice ≠ const false) =
        choices (ns.map (properOperands .or)) := by
    rw [show ns.map (properOperands .or) =
      (ns.map (operands .or)).map (List.filter (· ≠ const false)) by rw [List.map_map]; rfl,
      ← filter_choices]
    refine List.filter_congr fun choice hchoice => ?_
    have hzero := assemble_eq_zero_iff isBase_isLiteral (hclauses choice hchoice)
    rw [Connective.zero_and] at hzero
    rw [Bool.eq_iff_iff, decide_eq_true_iff, Ne, hzero, List.all_eq_true]
    exact ⟨fun h c hc => decide_eq_true fun heq => h (heq ▸ hc),
      fun h hmem => of_decide_eq_true (h _ hmem) rfl⟩
  calc (conjoin dropUnits ns).value.properClauses
      = (((choices (ns.map (operands .or))).map (assemble dropUnits .and)).filter
          (· ≠ const false)).map (properOperands .and) := by
        rw [← operands_conjoin hns hz]
        rfl
    _ = (choices (ns.map (properOperands .or))).map
          (properOperands .and ∘ assemble dropUnits .and) := by
        rw [List.filter_map, List.map_map, ← hproper]
        rfl
    _ = (choices (ns.map (properOperands .or))).map
          (List.flatten ∘ List.map (properOperands .and)) := by
        refine List.map_congr_left fun choice hchoice => ?_
        rw [← hproper] at hchoice
        obtain ⟨hmem, hne⟩ := List.mem_filter.mp hchoice
        have hlayers := hclauses choice hmem
        have hfalse : const false ∉ choice :=
          mt (assemble_eq_zero_iff isBase_isLiteral hlayers).mpr (of_decide_eq_true hne)
        exact (properOperands_assemble isBase_isLiteral hlayers hfalse).trans List.flatMap_def
    _ = (choices (ns.map properClauses)).map List.flatten := by
        rw [← List.map_map, ← choices_map, List.map_map]
        rfl

/-! ### Without units nothing is lost -/

/-- A layer without units is given by its proper operands. -/
theorem collapse_properOperands (hp : IsBase op p) (h : IsLayer true op p t) :
    collapse op (properOperands op t) = t := by
  cases h with
  | alone h =>
    rw [properOperands, operands_eq_singleton (hp.isJoin t h)]
    by_cases hunit : t = const op.unit
    · simp [hunit]
    · simp [hunit]
  | @join us hlen hus =>
    have hproper : properOperands op (join op us) = operands op (join op us) := by
      refine List.filter_eq_self.mpr fun u hu => decide_eq_true ?_
      rw [operands_join_self] at hu
      exact (hus u hu).2.2 rfl
    rw [hproper, collapse_operands_of_isLayer hp (.join hlen hus)]

/-- **A normal form without units is given by its proper clauses.** -/
theorem collapse_properClauses (h : IsNormalForm true n) :
    collapse .or (n.properClauses.map (collapse .and)) = n := by
  have hclauses : n.properClauses.map (collapse .and) = properOperands .or n := by
    rw [properClauses, List.map_map, List.map_congr_left, List.map_id]
    intro c hc
    have hclause := h.isClauseForm_of_mem_operands (List.mem_of_mem_filter hc)
    exact collapse_properOperands isBase_isLiteral hclause
  rw [hclauses, collapse_properOperands isBase_isClauseForm h]

/-- Without units the proper clauses are the clauses. -/
theorem properOperands_or_eq_clauses (h : IsNormalForm true n) :
    properOperands .or n = n.clauses := by
  unfold clauses
  split
  case isTrue hfalse => rw [hfalse]; rfl
  case isFalse hfalse =>
    refine List.filter_eq_self.mpr fun c hc => decide_eq_true ?_
    cases hj : n.isJoin .or with
    | true => exact ((h.admits_operands hj).2 c hc).2 rfl
    | false =>
      rw [operands_eq_singleton hj, List.mem_singleton] at hc
      exact hc ▸ hfalse

/-- Without units the proper clauses hold all literals, unless they are `T`. -/
theorem properClauses_eq_clauses (h : IsNormalForm true n) (htrue : n ≠ const true) :
    n.properClauses = n.clauses.map (operands .and) := by
  rw [← properOperands_or_eq_clauses h]
  refine List.map_congr_left fun c hc => List.filter_eq_self.mpr fun l hl => decide_eq_true ?_
  have hmem := List.mem_of_mem_filter hc
  cases h.isClauseForm_of_mem_operands hmem with
  | alone hlit =>
    rw [operands_eq_singleton (isJoin_eq_false_of_isLiteral hlit), List.mem_singleton] at hl
    rw [hl]
    cases hj : n.isJoin .or with
    | true => exact ((h.admits_operands hj).2 c hmem).1
    | false =>
      rw [operands_eq_singleton hj, List.mem_singleton] at hmem
      exact hmem ▸ htrue
  | join hlen hls =>
    rw [operands_join_self] at hl
    exact (hls l hl).2.2 rfl

/-! ### The two normal forms of a formula -/

theorem isThinned_properClauses_const (b : Bool) :
    IsThinned (const b).properClauses (const b).properClauses where
  sublist := .refl _
  eq_of_nil_mem := by
    cases b with
    | true => exact fun _ => rfl
    | false => exact fun h => absurd h (by decide)

/-- Without units, the normal form with an empty proper clause alone is `T`. -/
theorem eq_true_of_properClauses (h : IsNormalForm true n) (hn : n.properClauses = [[]]) :
    n = const true := by
  rw [← collapse_properClauses h, hn]
  rfl

section Joins

variable {β : Type} {f g : β → Formula} {bs : List β}

theorem isThinned_conjoin (hf : ∀ b ∈ bs, IsNormalForm true (f b))
    (hg : ∀ b ∈ bs, IsNormalForm false (g b))
    (h : ∀ b ∈ bs, IsThinned (f b).properClauses (g b).properClauses) :
    IsThinned (conjoin true (bs.map f)).value.properClauses
      (conjoin false (bs.map g)).value.properClauses := by
  rw [properClauses_conjoin (List.forall_mem_map.mpr hf),
    properClauses_conjoin (List.forall_mem_map.mpr hg), List.map_map, List.map_map]
  exact .choices h

/-- **A disjunction is thinned with its terms**, also where one of them is `T` without units only,
and hence decides it there and not in the presence of units. -/
theorem isThinned_disjoin (hf : ∀ b ∈ bs, IsNormalForm true (f b))
    (hg : ∀ b ∈ bs, IsNormalForm false (g b))
    (h : ∀ b ∈ bs, IsThinned (f b).properClauses (g b).properClauses) :
    IsThinned (disjoin true (bs.map f)).properClauses
      (disjoin false (bs.map g)).properClauses := by
  by_cases htrue : const true ∈ bs.map f
  · -- what is left is one empty clause, so there must be one with units as well
    have hnil : [] ∈ (disjoin false (bs.map g)).properClauses := by
      by_cases hmem : const true ∈ bs.map g
      · rw [disjoin_eq_assemble, assemble_of_mem_zero _ _ hmem]
        exact List.mem_singleton_self _
      · rw [properClauses_disjoin (List.forall_mem_map.mpr hg) hmem]
        obtain ⟨b, hb, hfb⟩ := List.mem_map.mp htrue
        have hsub := (h b hb).sublist
        rw [hfb] at hsub
        exact List.mem_flatMap.mpr
          ⟨g b, List.mem_map_of_mem hb, List.singleton_sublist.mp hsub⟩
    rw [disjoin_eq_assemble, assemble_of_mem_zero _ _ htrue]
    exact ⟨List.singleton_sublist.mpr hnil, fun _ => rfl⟩
  · have hne : ∀ b ∈ bs, (f b).properClauses ≠ [[]] := fun b hb hnil =>
      htrue (List.mem_map.mpr ⟨b, hb, eq_true_of_properClauses (hf b hb) hnil⟩)
    have hmem : const true ∉ bs.map g := by
      intro hmem
      obtain ⟨b, hb, hgb⟩ := List.mem_map.mp hmem
      refine (h b hb).nil_notMem (hne b hb) ?_
      rw [hgb]
      exact List.mem_singleton_self _
    rw [properClauses_disjoin (List.forall_mem_map.mpr hf) htrue,
      properClauses_disjoin (List.forall_mem_map.mpr hg) hmem, List.flatMap_map, List.flatMap_map]
    exact .flatMap h hne

end Joins

/-- **Dropping units thins the proper clauses of a normal form.** -/
theorem isThinned_normalForm (positive : Bool) (t : Formula) :
    IsThinned (normalForm true positive t).value.properClauses
      (normalForm false positive t).value.properClauses := by
  have hnormal (d : Bool) (ts : List Formula) :
      ∀ t ∈ ts, IsNormalForm d (normalForm d positive t).value := fun t _ =>
    isNormalForm_normalForm d positive t
  induction t generalizing positive with
  | const b =>
    rw [normalForm_const, normalForm_const]
    exact isThinned_properClauses_const _
  | var name =>
    rw [normalForm_var, normalForm_var]
    exact ⟨.refl _, by cases positive <;> simp [properClauses, properOperands]⟩
  | neg t ih =>
    rw [normalForm_neg_eq, normalForm_neg_eq]
    exact ih _ fun d ts t _ => isNormalForm_normalForm d _ t
  | join op ts ih =>
    rw [value_normalForm_join, value_normalForm_join]
    have hts := fun t ht => ih t ht positive hnormal
    cases (if positive then op else op.dual : Connective) with
    | and => exact isThinned_conjoin (hnormal true ts) (hnormal false ts) hts
    | or => exact isThinned_disjoin (hnormal true ts) (hnormal false ts) hts

/-! ### Sizes -/

theorem totalSize_le_of_sublist (h : us.Sublist ts) : totalSize us ≤ totalSize ts := by
  induction h with
  | slnil => exact Nat.le_refl _
  | cons t _ ih =>
    rw [totalSize_cons]
    omega
  | cons_cons t _ ih =>
    rw [totalSize_cons, totalSize_cons]
    omega

/-- A formula is no larger than what a list that holds it collapses to. -/
theorem size_le_size_collapse (op : Connective) (h : t ∈ ts) : t.size ≤ (collapse op ts).size := by
  match ts, h with
  | [u], h => exact Nat.le_of_eq (congrArg size (List.mem_singleton.mp h))
  | u :: v :: ts, h =>
    have := size_le_totalSize h
    rw [collapse_cons_cons, size_join]
    omega

/-- Part of a list collapses to a formula that is no larger. -/
theorem size_collapse_le_of_sublist (op : Connective) (h : us.Sublist ts) :
    (collapse op us).size ≤ (collapse op ts).size := by
  match us, h with
  | [], _ => exact Nat.succ_le_of_lt (size_pos _)
  | [u], h => exact size_le_size_collapse op (List.singleton_sublist.mp h)
  | u :: v :: us, h =>
    match ts, h.length_le with
    | t :: s :: ts, _ =>
      have := totalSize_le_of_sublist h
      rw [collapse_cons_cons, collapse_cons_cons, size_join, size_join]
      omega

/-- Smaller formulas collapse to a smaller one. -/
theorem size_collapse_map_le (op : Connective) {f : Formula → Formula}
    (h : ∀ t ∈ ts, (f t).size ≤ t.size) :
    (collapse op (ts.map f)).size ≤ (collapse op ts).size := by
  have htotal (us : List Formula) (hus : ∀ u ∈ us, (f u).size ≤ u.size) :
      totalSize (us.map f) ≤ totalSize us := by
    induction us with
    | nil => exact Nat.le_refl _
    | cons u us ih =>
      obtain ⟨hu, hus⟩ := List.forall_mem_cons.mp hus
      have := ih hus
      rw [List.map_cons, totalSize_cons, totalSize_cons]
      omega
  match ts, h with
  | [], _ => exact Nat.le_refl _
  | [t], h => exact h t (List.mem_singleton_self t)
  | t :: u :: ts, h =>
    have := htotal _ h
    rw [List.map_cons, List.map_cons, collapse_cons_cons, collapse_cons_cons, size_join, size_join]
    simpa using this

/-- A layer is no smaller than what its proper operands collapse to. -/
theorem size_collapse_properOperands_le (hp : IsBase op p) (h : IsLayer dropUnits op p t) :
    (collapse op (properOperands op t)).size ≤ t.size := by
  have hle := size_collapse_le_of_sublist op (List.filter_sublist (l := operands op t)
    (p := (· ≠ const op.unit)))
  rwa [collapse_operands_of_isLayer hp h] at hle

/-- **A normal form is no smaller than its proper clauses.** -/
theorem size_collapse_properClauses_le (h : IsNormalForm dropUnits n) :
    (collapse .or (n.properClauses.map (collapse .and))).size ≤ n.size := by
  refine Nat.le_trans ?_ (size_collapse_properOperands_le isBase_isClauseForm h)
  rw [properClauses, List.map_map]
  refine size_collapse_map_le .or fun c hc => ?_
  have hclause := h.isClauseForm_of_mem_operands (List.mem_of_mem_filter hc)
  exact size_collapse_properOperands_le isBase_isLiteral hclause

/-- Proper clauses are clauses. -/
theorem length_properClauses_le (n : Formula) : n.properClauses.length ≤ n.clauses.length := by
  rw [properClauses, List.length_map, clauses]
  split
  case isTrue hfalse => rw [hfalse]; exact Nat.le_refl _
  case isFalse => exact List.length_filter_le _ _

/-! ### What dropping units does -/

/-- **Dropping units only removes.** The normal form without units is `T` exactly if the one with
units has a clause of nothing but `T`; otherwise its clauses, as lists of literals, are part of the
proper clauses of the one with units, in the same order. So it has no more clauses, also if those
that are `F` are not counted, it is no larger, and it is the same if that one is a constant. -/
theorem normalize_true_thins (t : Formula) :
    (t.normalize true = const true ↔ [] ∈ (t.normalize false).properClauses) ∧
    (t.normalize true ≠ const true →
      ((t.normalize true).clauses.map (operands .and)).Sublist (t.normalize false).properClauses) ∧
    ((t.normalize true).clauses.length ≤ (t.normalize false).properClauses.length ∧
      (t.normalize true).clauses.length ≤ (t.normalize false).clauses.length) ∧
    (t.normalize true).size ≤ (t.normalize false).size ∧
    ∀ b, t.normalize false = const b → t.normalize true = const b := by
  have hnormal (d : Bool) : IsNormalForm d (t.normalize d) := isNormalForm_normalForm d true t
  have hthinned : IsThinned (t.normalize true).properClauses (t.normalize false).properClauses :=
    isThinned_normalForm true t
  have hgiven := collapse_properClauses (hnormal true)
  have hcount : (t.normalize true).clauses.length ≤ (t.normalize false).properClauses.length := by
    rw [← properOperands_or_eq_clauses (hnormal true), ← List.length_map (properOperands .and)]
    exact hthinned.sublist.length_le
  refine ⟨⟨fun h => ?_, fun h => ?_⟩, fun h => ?_,
    ⟨hcount, Nat.le_trans hcount (length_properClauses_le _)⟩, ?_, fun b h => ?_⟩
  · have hsub := hthinned.sublist
    rw [h] at hsub
    exact List.singleton_sublist.mp hsub
  · exact eq_true_of_properClauses (hnormal true) (hthinned.eq_of_nil_mem h)
  · rw [← properClauses_eq_clauses (hnormal true) h]
    exact hthinned.sublist
  · calc (t.normalize true).size
        = (collapse .or ((t.normalize true).properClauses.map (collapse .and))).size := by
          rw [hgiven]
      _ ≤ (collapse .or ((t.normalize false).properClauses.map (collapse .and))).size :=
          size_collapse_le_of_sublist .or (hthinned.sublist.map _)
      _ ≤ (t.normalize false).size := size_collapse_properClauses_le (hnormal false)
  · rw [h] at hthinned
    rw [← hgiven]
    cases b with
    | true => rw [hthinned.eq_of_nil_mem (List.mem_singleton_self _)]; rfl
    | false => rw [List.sublist_nil.mp hthinned.sublist]; rfl

/-- A conjunction of nothing but `T` in a disjunction, which without units is `T` as well and leaves
nothing to be distributed over; and a disjunction that is `T` in any case. -/
theorem normalize_true_thins_of_absorbed :
    (join .and [join .or [join .and [const true, const true], var "a"],
        join .or [var "b", const false]]).normalize true = var "b" ∧
    (join .and [join .or [join .and [const true, const true], var "a"],
        join .or [var "b", const false]]).normalize false =
      join .or [join .and [const true, const true, var "b"], const false,
        join .and [var "a", var "b"], const false] ∧
    [[var "b"]].Sublist [[var "b"], [var "a", var "b"]] ∧
    (join .or [var "a", const true]).normalize true = const true := by
  have hwithout : (join .and [join .or [join .and [const true, const true], var "a"],
      join .or [var "b", const false]]).normalize true = var "b" := by decide +kernel
  have hwith : (join .and [join .or [join .and [const true, const true], var "a"],
      join .or [var "b", const false]]).normalize false =
        join .or [join .and [const true, const true, var "b"], const false,
          join .and [var "a", var "b"], const false] := by decide +kernel
  have hsub := (normalize_true_thins (join .and [join .or [join .and [const true, const true],
    var "a"], join .or [var "b", const false]])).2.1 (by rw [hwithout]; exact nofun)
  rw [hwithout, hwith] at hsub
  exact ⟨hwithout, hwith, hsub, (normalize_true_thins (join .or [var "a", const true])).2.2.2.2 true
    (by decide +kernel)⟩

end Formula

end Propositional
