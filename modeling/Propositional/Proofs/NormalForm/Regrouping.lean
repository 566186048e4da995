import Propositional.Proofs.NormalForm.Distribution
import Propositional.Proofs.NormalForm.Negations
import Propositional.Proofs.Rendering.RoundTrip

/-!
# Normal forms and the grouping of terms

How the terms of a connective are grouped does not matter to normal forms: a formula and the formula
built anew from it, in which no join stands directly below a join of its own connective and none has
fewer than two terms, have the same normal form (`Propositional.Formula.value_normalForm_rebuild`).
The same, not only one of the same meaning: the clauses come in the same order, with the same
literals in the same order, and as many of them are `F` or contain `T`.

That is so because both operations on normal forms obey two laws in all positions of a list.

* A normal form alone is joined to itself (`Propositional.Formula.value_joinNormal_singleton`).
* Joining groups, none of them empty, and then what has become of them is joining at once
  (`Propositional.Formula.value_joinNormal_flatten`). For disjunctions this is
  `Propositional.Formula.assemble_flatten`. For conjunctions it comes down to the clauses: to choose
  one clause from each normal form is to choose one choice from each group
  (`Propositional.choices_flatten`), and a choice of choices is assembled to the clause to which its
  literals are assembled at once.

Terms below a negation are joined by the dual connective, under which the same formulas group in the
same way; so there is one induction for both signs.
-/

namespace Propositional.Formula

variable {dropUnits : Bool} {op : Connective} {n : Formula} {ns : List Formula}

/-! ### Laws of joining normal forms -/

theorem value_joinNormal_nil (dropUnits : Bool) (op : Connective) :
    (joinNormal dropUnits op []).value = const op.unit := by
  have hnil (p : Connective) : assemble dropUnits p [] = const p.unit := by
    rw [assemble_of_notMem_zero _ _ List.not_mem_nil, spliceTrimmed_nil]
    rfl
  cases op with
  | or => exact hnil .or
  | and => exact (value_conjoin_eq_assemble (by simp)).trans (hnil .and)

/-- A normal form is given by its clauses. -/
theorem eq_of_operands_eq {m : Formula} (hm : IsNormalForm dropUnits m)
    (hn : IsNormalForm dropUnits n) (h : operands .or m = operands .or n) : m = n := by
  rw [← collapse_operands_of_isLayer isBase_isClauseForm hm, h,
    collapse_operands_of_isLayer isBase_isClauseForm hn]

/-- **A normal form alone is joined to itself.** -/
theorem value_joinNormal_singleton (op : Connective) (h : IsNormalForm dropUnits n) :
    (joinNormal dropUnits op [n]).value = n := by
  have hns : ∀ m ∈ [n], IsNormalForm dropUnits m := by simpa using h
  cases op with
  | or => exact assemble_singleton isBase_isClauseForm h
  | and =>
    by_cases hz : const false ∈ [n]
    · exact ((value_conjoin_eq_false_iff hns).mpr hz).trans (List.mem_singleton.mp hz)
    · refine eq_of_operands_eq (isNormalForm_conjoin hns) h ?_
      calc operands .or (conjoin dropUnits [n]).value
          = (choices [operands .or n]).map (assemble dropUnits .and) := operands_conjoin hns hz
        _ = (operands .or n).map fun c => assemble dropUnits .and [c] := by
            rw [choices_singleton, List.map_map]
            rfl
        _ = (operands .or n).map id := List.map_congr_left fun c hc =>
            assemble_singleton isBase_isLiteral (h.isClauseForm_of_mem_operands hc)
        _ = operands .or n := List.map_id _

/-- Choosing from conjunctions of groups is choosing from all groups at once. -/
theorem operands_conjoin_flatten {nss : List (List Formula)} (hne : ∀ ns ∈ nss, ns ≠ [])
    (hnss : ∀ ns ∈ nss, ∀ n ∈ ns, IsNormalForm dropUnits n) (hz : const false ∉ nss.flatten) :
    operands .or (conjoin dropUnits (nss.map fun ns => (conjoin dropUnits ns).value)).value =
      operands .or (conjoin dropUnits nss.flatten).value := by
  have hgroup : ∀ ns ∈ nss, const false ∉ ns := fun ns hmem hf =>
    hz (List.mem_flatten.mpr ⟨ns, hmem, hf⟩)
  have hconj : ∀ m ∈ nss.map fun ns => (conjoin dropUnits ns).value, IsNormalForm dropUnits m := by
    rw [List.forall_mem_map]
    exact fun ns hmem => isNormalForm_conjoin (hnss ns hmem)
  have hfalse : const false ∉ nss.map fun ns => (conjoin dropUnits ns).value := by
    rintro hf
    obtain ⟨ns, hmem, heq⟩ := List.mem_map.mp hf
    exact hgroup ns hmem ((value_conjoin_eq_false_iff (hnss ns hmem)).mp heq)
  have hflat : ∀ n ∈ nss.flatten, IsNormalForm dropUnits n := List.forall_mem_flatten.mpr hnss
  -- the clauses of the conjunctions, by group
  have hclauses : ((nss.map fun ns => (conjoin dropUnits ns).value).map (operands .or)) =
      (nss.map fun ns => choices (ns.map (operands .or))).map
        (List.map (assemble dropUnits .and)) := by
    rw [List.map_map, List.map_map]
    exact List.map_congr_left fun ns hmem => operands_conjoin (hnss ns hmem) (hgroup ns hmem)
  rw [operands_conjoin hconj hfalse, operands_conjoin hflat hz, hclauses, choices_map, List.map_map,
    List.map_flatten, choices_flatten, List.map_map, List.map_map]
  refine List.map_congr_left fun css hcss => ?_
  -- each group has contributed a choice that is not empty, made of clauses
  have hmem : ∀ cs ∈ css, ∃ ns ∈ nss, cs ∈ choices (ns.map (operands .or)) := fun cs hcs => by
    obtain ⟨_, hgroups, hchoice⟩ := exists_mem_of_mem_choices hcss hcs
    obtain ⟨ns, hns, rfl⟩ := List.mem_map.mp hgroups
    exact ⟨ns, hns, hchoice⟩
  refine assemble_flatten isBase_isLiteral (fun cs hcs => ?_) fun cs hcs => ?_
  · obtain ⟨ns, hns, hchoice⟩ := hmem cs hcs
    obtain ⟨n, hn⟩ := List.exists_mem_of_ne_nil ns (hne ns hns)
    obtain ⟨c, -, hc⟩ := exists_mem_choice hchoice (List.mem_map_of_mem hn)
    exact List.ne_nil_of_mem hc
  · obtain ⟨ns, hns, hchoice⟩ := hmem cs hcs
    exact isClauseForm_of_mem_choice (hnss ns hns) hchoice

/-- **Joining in groups** that are not empty is joining at once. -/
theorem value_joinNormal_flatten (op : Connective) {nss : List (List Formula)}
    (hne : ∀ ns ∈ nss, ns ≠ []) (hnss : ∀ ns ∈ nss, ∀ n ∈ ns, IsNormalForm dropUnits n) :
    (joinNormal dropUnits op (nss.map fun ns => (joinNormal dropUnits op ns).value)).value =
      (joinNormal dropUnits op nss.flatten).value := by
  cases op with
  | or => exact assemble_flatten isBase_isClauseForm hne hnss
  | and =>
    have hconj : ∀ m ∈ nss.map fun ns => (conjoin dropUnits ns).value,
        IsNormalForm dropUnits m := by
      rw [List.forall_mem_map]
      exact fun ns hmem => isNormalForm_conjoin (hnss ns hmem)
    have hflat : ∀ n ∈ nss.flatten, IsNormalForm dropUnits n :=
      List.forall_mem_flatten.mpr hnss
    by_cases hz : const false ∈ nss.flatten
    · obtain ⟨ns, hmem, hf⟩ := List.mem_flatten.mp hz
      have hgroup := (value_conjoin_eq_false_iff (hnss ns hmem)).mpr hf
      exact ((value_conjoin_eq_false_iff hconj).mpr (List.mem_map.mpr ⟨ns, hmem, hgroup⟩)).trans
        ((value_conjoin_eq_false_iff hflat).mpr hz).symm
    · exact eq_of_operands_eq (isNormalForm_conjoin hconj) (isNormalForm_conjoin hflat)
        (operands_conjoin_flatten hne hnss hz)

/-! ### Formulas built anew -/

section Rebuild

variable (dropUnits positive : Bool) (op : Connective)

/-- The normal form of a list that is collapsed is that of its join. -/
theorem value_normalForm_collapse (vs : List Formula) :
    (normalForm dropUnits positive (collapse op vs)).value =
      (joinNormal dropUnits (if positive then op else op.dual)
        (vs.map fun v => (normalForm dropUnits positive v).value)).value := by
  match vs with
  | [] =>
    rw [collapse_nil, normalForm_const, List.map_nil, value_joinNormal_nil]
    cases positive <;> cases op <;> rfl
  | [v] =>
    exact (value_joinNormal_singleton _ (isNormalForm_normalForm dropUnits positive v)).symm
  | v :: w :: vs => exact value_normalForm_join dropUnits positive op (v :: w :: vs)

/-- **The normal form of flat terms combined** is the join of the normal forms of the terms: a term
that is spliced is a group of the operands in its place. -/
theorem value_normalForm_combine {us : List Formula} (hus : ∀ u ∈ us, u.isFlat = true) :
    (normalForm dropUnits positive (combine op us)).value =
      (joinNormal dropUnits (if positive then op else op.dual)
        (us.map fun u => (normalForm dropUnits positive u).value)).value := by
  have hgroups : us.map (fun u => (normalForm dropUnits positive u).value) =
      (us.map fun u => (operands op u).map fun v => (normalForm dropUnits positive v).value).map
        fun ns => (joinNormal dropUnits (if positive then op else op.dual) ns).value := by
    rw [List.map_map]
    refine List.map_congr_left fun u hu => ?_
    rw [Function.comp_apply, ← value_normalForm_collapse, collapse_operands (hus u hu)]
  rw [combine, value_normalForm_collapse, hgroups, value_joinNormal_flatten, splice,
    List.map_flatMap, List.flatMap_def]
  · rw [List.forall_mem_map]
    exact fun u hu hnil => operands_ne_nil (hus u hu) (List.map_eq_nil_iff.mp hnil)
  · rw [List.forall_mem_map]
    intro u hu
    rw [List.forall_mem_map]
    exact fun v hv => isNormalForm_normalForm dropUnits positive v

/-- **A formula and the formula built anew from it have the same normal form**, and so have their
negations. -/
theorem value_normalForm_rebuild (t : Formula) :
    (normalForm dropUnits positive t.rebuild).value = (normalForm dropUnits positive t).value := by
  induction t generalizing positive with
  | const b => rw [rebuild_const]
  | var name => rw [rebuild_var]
  | neg t ih =>
    rw [rebuild_neg, normalForm_neg_eq, normalForm_neg_eq]
    exact ih _
  | join op ts ih =>
    have hflat : ∀ u ∈ ts.map rebuild, u.isFlat = true := by
      rw [List.forall_mem_map]
      exact fun t _ => isFlat_rebuild t
    have hmap : (ts.map rebuild).map (fun u => (normalForm dropUnits positive u).value) =
        ts.map fun t => (normalForm dropUnits positive t).value := by
      rw [List.map_map]
      exact List.map_congr_left fun t ht => ih t ht positive
    rw [rebuild_join, value_normalForm_combine dropUnits positive op hflat, hmap,
      value_normalForm_join]

end Rebuild

/-- **Normal forms do not depend on grouping**: a formula, with joins directly below joins of their
own connective and joins of one term or none wherever they may stand, has the normal form of the
flat formula built anew from it. So the normal form of a formula is also that of the formula that is
read from its rendering, if all runs of `!` in the rendering are short. -/
theorem normalize_rebuild (dropUnits : Bool) (t : Formula) :
    t.normalize dropUnits = t.rebuild.normalize dropUnits ∧
    ∀ mode u, (∀ name ∈ t.occurrences, Lexable mode name) → parse mode t.render = .ok u →
      ShortRuns t.terminals → u.normalize dropUnits = t.normalize dropUnits := by
  have hrebuild : t.rebuild.normalize dropUnits = t.normalize dropUnits :=
    value_normalForm_rebuild dropUnits true t
  refine ⟨hrebuild.symm, fun mode u hnames hu hshort => ?_⟩
  obtain rfl : u = t.rebuild := (eq_rebuild_iff_of_parse_render hnames hu).mpr hshort
  exact hrebuild

/-- Below a negation, a conjunction of one term in a conjunction, and beside it a disjunction in a
disjunction that holds the empty conjunction. The second formula has terms in all of its joins, so
that its rendering can be read; what is read is not the formula itself. -/
theorem normalize_neg_of_not_flat :
    (neg (join .and [join .and [var "a"], join .or [join .or [var "b", join .and []],
        var "c"]])).normalize false =
      (neg (join .and [var "a", join .or [var "b", const true, var "c"]])).normalize false ∧
    parse .permissive (neg (join .and [join .and [var "a"], join .or [var "b"]])).render =
      .ok (neg (join .and [var "a", var "b"])) ∧
    (neg (join .and [var "a", var "b"])).normalize true =
      (neg (join .and [join .and [var "a"], join .or [var "b"]])).normalize true := by
  have hempty := normalize_rebuild false (neg (join .and [join .and [var "a"],
    join .or [join .or [var "b", join .and []], var "c"]]))
  have hread : parse .permissive
      (neg (join .and [join .and [var "a"], join .or [var "b"]])).render =
        .ok (neg (join .and [var "a", var "b"])) :=
    (parse_render (by decide) (by decide) (by decide)
      (shortRuns_of_length_lt (by decide))).trans (congrArg _ (by decide))
  exact ⟨hempty.1.trans (congrArg _ (by decide)), hread,
    (normalize_rebuild true _).2 .permissive _ (by decide) hread
      (shortRuns_of_length_lt (by decide))⟩

/-- A run that is too long, of an odd number of negations: the normal form is a negated variable,
and that of the formula read from the rendering is the variable. -/
theorem normalize_of_long_run :
    (∀ name ∈ ((var "x").negated (2 ^ 31 + 1)).occurrences, Lexable .permissive name) ∧
    parse .permissive ((var "x").negated (2 ^ 31 + 1)).render = .ok (var "x") ∧
    ((var "x").negated (2 ^ 31 + 1)).normalize false = neg (var "x") ∧
    (var "x").normalize false = var "x" := by
  have hx : Lexable .permissive "x" := by decide
  refine ⟨?_, parse_render_negated_of_le hx (by decide) (by decide), ?_, ?_⟩
  · rw [occurrences_negated]
    decide
  · rw [normalize, normalizeLogged, normalForm_negated, if_neg (by decide), normalForm_neg_eq,
      normalForm_var]
    rfl
  · rw [normalize, normalizeLogged, normalForm_var]
    rfl

end Propositional.Formula
