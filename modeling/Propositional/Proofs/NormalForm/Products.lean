import Mathlib.Algebra.BigOperators.Group.List.Basic
import Mathlib.Data.List.Forall2
import Propositional.Proofs.NormalForm.FixedPoints
import Propositional.Proofs.NormalForm.Distribution
import Propositional.Proofs.NormalForm.Recursion

/-!
# Products of normal forms

A conjunction of normal forms is their *ordered product*
(`Propositional.Formula.IsProduct`): its clauses are the choices of one clause from each, in
lexicographic order, and each choice gives the conjunction of the literals of what has been chosen.
Nothing else happens to the clauses, so that there are as many of them as the product of the numbers
says, equal ones included.

What the operation does to a choice is known from `Propositional.Formula.operands_conjoin`: the
choice is assembled to a clause. It remains to say what that clause is without the operation
(`Propositional.Formula.clauseOfChoice`). Where units are dropped, they are so from the choice in
the one description and from the list of normal forms in the other; as a `T` is never one of two
clauses or more, there is nothing to choose where it stands, and dropping it before the choice or
after makes no difference (`Propositional.Formula.map_counted_choices`).

A product is recorded if there is a disjunction in it, once, since the conjunction of a choice meets
no disjunction any more (`Propositional.Formula.records_conjoin_of_isNormalForm`).
-/

namespace Propositional

/-! ### Choices by position -/

section Positions

variable {α : Type}

/-- A choice takes one member from each list, and every way to do so is a choice. -/
theorem mem_choices_iff {xss : List (List α)} {ys : List α} :
    ys ∈ choices xss ↔ List.Forall₂ (· ∈ ·) ys xss := by
  induction xss generalizing ys with
  | nil => simp
  | cons xs xss ih =>
    rw [mem_choices_cons, List.forall₂_cons_right_iff]
    simp only [ih]
    constructor
    · rintro ⟨x, hx, rest, hrest, rfl⟩
      exact ⟨x, rest, hx, hrest, rfl⟩
    · rintro ⟨x, rest, hx, hrest, rfl⟩
      exact ⟨x, hx, rest, hrest, rfl⟩

/-- **Choices come in lexicographic order** if the members of each list stand in order. -/
theorem pairwise_choices {iss : List (List Nat)} (h : ∀ is ∈ iss, is.Pairwise (· < ·)) :
    (choices iss).Pairwise (· < ·) := by
  induction iss with
  | nil => exact List.pairwise_singleton _ _
  | cons is iss ih =>
    obtain ⟨his, hiss⟩ := List.forall_mem_cons.mp h
    rw [choices_cons, List.pairwise_flatMap]
    constructor
    · -- the same first member: the others decide
      intro i _
      rw [List.pairwise_map]
      exact (ih hiss).imp fun hlt => List.cons_lt_cons_iff.mpr (.inr ⟨rfl, hlt⟩)
    · refine his.imp fun hlt x hx y hy => ?_
      obtain ⟨_, -, rfl⟩ := List.mem_map.mp hx
      obtain ⟨_, -, rfl⟩ := List.mem_map.mp hy
      exact List.cons_lt_cons_iff.mpr (.inl hlt)

variable [Inhabited α]

/-- What stands at given positions, one for each list. -/
def membersAt (xss : List (List α)) (positions : List Nat) : List α :=
  List.zipWith (fun xs i => xs.getD i default) xss positions

theorem map_getD_range (xs : List α) :
    (List.range xs.length).map (fun i => xs.getD i default) = xs :=
  List.ext_getElem (by simp) fun i _ hi => by
    rw [List.getElem_map, List.getElem_range, List.getD_eq_getElem?_getD,
      List.getElem?_eq_getElem hi, Option.getD_some]

/-- A choice is given by its positions. -/
theorem choices_eq_map_membersAt (xss : List (List α)) :
    choices xss =
      (choices (xss.map fun xs => List.range xs.length)).map (membersAt xss) := by
  induction xss with
  | nil => rfl
  | cons xs xss ih =>
    calc choices (xs :: xss)
        = ((List.range xs.length).map fun i => xs.getD i default).flatMap fun x =>
            (choices xss).map (x :: ·) := by rw [choices_cons, map_getD_range]
      _ = (choices ((xs :: xss).map fun xs => List.range xs.length)).map
            (membersAt (xs :: xss)) := by
          rw [ih, List.flatMap_map, List.map_cons, choices_cons, List.map_flatMap]
          refine List.flatMap_congr fun i _ => ?_
          rw [List.map_map, List.map_map]
          rfl

end Positions

namespace Formula

variable {dropUnits : Bool} {n : Formula} {ns choice : List Formula}

/-! ### The clause of a choice -/

/-- The members of a list that count in a conjunction: all of them, or all but `T` if units are
dropped. -/
def counted (dropUnits : Bool) (ts : List Formula) : List Formula :=
  if dropUnits then ts.filter (· ≠ const true) else ts

/-- **The clause that a choice of clauses makes**: `F` if it is among them, and else the conjunction
of their literals, those of the first clause before those of the second and so on. -/
def clauseOfChoice (choice : List Formula) : Formula :=
  if const false ∈ choice then const false else collapse .and (choice.flatMap (operands .and))

@[simp] theorem counted_nil (dropUnits : Bool) : counted dropUnits [] = [] := by
  cases dropUnits <;> rfl

theorem counted_cons (dropUnits : Bool) (n : Formula) (ns : List Formula) :
    counted dropUnits (n :: ns) = counted dropUnits [n] ++ counted dropUnits ns := by
  cases dropUnits with
  | false => rfl
  | true => simp only [counted, if_true, ← List.filter_append, List.singleton_append]

/-- Only `T` does not count, and only if units are dropped. -/
theorem counted_singleton (dropUnits : Bool) (n : Formula) :
    dropUnits = true ∧ n = const true ∧ counted dropUnits [n] = [] ∨
      counted dropUnits [n] = [n] := by
  cases dropUnits with
  | false => exact .inr rfl
  | true =>
    by_cases hn : n = const true
    · exact .inl ⟨rfl, hn, by simp [counted, hn]⟩
    · exact .inr (by simp [counted, hn])

theorem false_mem_counted : const false ∈ counted dropUnits ns ↔ const false ∈ ns := by
  cases dropUnits <;> simp [counted]

/-- What enters a conjunction of clauses are the literals of those that count. -/
theorem spliceTrimmed_eq_flatMap_counted (hclauses : ∀ c ∈ choice, IsClauseForm dropUnits c) :
    spliceTrimmed dropUnits .and choice = (counted dropUnits choice).flatMap (operands .and) := by
  induction choice with
  | nil => simp
  | cons c choice ih =>
    obtain ⟨hc, hchoice⟩ := List.forall_mem_cons.mp hclauses
    rw [spliceTrimmed_cons, ih hchoice, counted_cons, List.flatMap_append]
    congr 1
    rcases counted_singleton dropUnits c with ⟨rfl, rfl, hnil⟩ | hcount
    · rw [hnil]
      rfl
    · rw [hcount, List.flatMap_singleton]
      rcases spliceTrimmed_singleton isBase_isLiteral hc with ⟨rfl, rfl, -⟩ | hoperands
      · simp [counted] at hcount
      · exact hoperands

/-- **Clauses are assembled to the clause of those that count.** -/
theorem assemble_eq_clauseOfChoice (hclauses : ∀ c ∈ choice, IsClauseForm dropUnits c) :
    assemble dropUnits .and choice = clauseOfChoice (counted dropUnits choice) := by
  by_cases hz : const false ∈ choice
  · rw [assemble_of_mem_zero _ _ hz, clauseOfChoice, if_pos (false_mem_counted.mpr hz)]
    rfl
  · rw [assemble_eq_collapse isBase_isLiteral hclauses hz, clauseOfChoice,
      if_neg (false_mem_counted.not.mpr hz), spliceTrimmed_eq_flatMap_counted hclauses]

/-! ### The clauses of a product -/

/-- A clause that does not count is no operand of a disjunction. -/
theorem counted_operands (h : IsNormalForm dropUnits n) (hj : n.isJoin .or = true) :
    ∀ c ∈ operands .or n, counted dropUnits [c] = [c] := by
  intro c hc
  rcases counted_singleton dropUnits c with ⟨-, rfl, -⟩ | hcount
  · exact absurd rfl ((h.admits_operands hj).2 _ hc).1
  · exact hcount

/-- **Whether a clause counts may be asked before the choice**: the choices, without what does not
count in them, are the choices from the normal forms that count. -/
theorem map_counted_choices (hns : ∀ n ∈ ns, IsNormalForm dropUnits n) :
    (choices (ns.map (operands .or))).map (counted dropUnits) =
      choices ((counted dropUnits ns).map (operands .or)) := by
  induction ns with
  | nil => simp
  | cons n ns ih =>
    obtain ⟨hn, hns⟩ := List.forall_mem_cons.mp hns
    -- a choice from all is a choice from the first before one from the others
    have hcons : (choices ((n :: ns).map (operands .or))).map (counted dropUnits) =
        (operands .or n).flatMap fun c =>
          (choices ((counted dropUnits ns).map (operands .or))).map
            (counted dropUnits [c] ++ ·) := by
      rw [List.map_cons, choices_cons, List.map_flatMap]
      refine List.flatMap_congr fun c _ => ?_
      rw [← ih hns, List.map_map, List.map_map]
      exact List.map_congr_left fun choice _ => counted_cons dropUnits c choice
    rw [hcons, counted_cons]
    rcases counted_singleton dropUnits n with ⟨rfl, rfl, hnil⟩ | hcount
    · rw [operands_const, List.flatMap_singleton, hnil, List.nil_append]
      exact List.map_id _
    · rw [hcount, List.singleton_append, List.map_cons, choices_cons]
      refine List.flatMap_congr fun c hc => ?_
      have hcounted : counted dropUnits [c] = [c] := by
        cases hj : n.isJoin .or with
        | true => exact counted_operands hn hj c hc
        | false =>
          rw [operands_eq_singleton hj, List.mem_singleton] at hc
          rw [hc, hcount]
      rw [hcounted]
      rfl

/-- **The clauses of a conjunction** of normal forms are those of the choices from what counts. -/
theorem operands_conjoin_eq_map (hns : ∀ n ∈ ns, IsNormalForm dropUnits n)
    (hz : const false ∉ ns) :
    operands .or (conjoin dropUnits ns).value =
      (choices ((counted dropUnits ns).map (operands .or))).map clauseOfChoice := by
  rw [operands_conjoin hns hz, ← map_counted_choices hns, List.map_map]
  exact List.map_congr_left fun choice hchoice =>
    assemble_eq_clauseOfChoice (isClauseForm_of_mem_choice hns hchoice)

/-- There are as many clauses as choices from all normal forms. -/
theorem length_operands_conjoin (hns : ∀ n ∈ ns, IsNormalForm dropUnits n)
    (hz : const false ∉ ns) :
    (operands .or (conjoin dropUnits ns).value).length =
      (ns.map fun n => (operands .or n).length).prod := by
  rw [operands_conjoin hns hz, List.length_map, length_choices, List.map_map]
  rfl

/-- A conjunction is a disjunction if one of its terms is. -/
theorem isJoin_conjoin (hns : ∀ n ∈ ns, IsNormalForm dropUnits n) (hz : const false ∉ ns) :
    (conjoin dropUnits ns).value.isJoin .or = ns.any (isJoin .or) := by
  by_cases hj : ∃ n ∈ ns, n.isJoin .or = true
  · rw [value_conjoin_eq_join hns hz hj, List.any_eq_true.mpr hj]
    rfl
  · have hclauses := forall_isClauseForm hns hj
    have hclause : IsClauseForm dropUnits (assemble dropUnits .and ns) :=
      isLayer_assemble isBase_isLiteral hclauses
    rw [value_conjoin_eq_assemble hclauses, hclause.isJoin_or, eq_comm,
      List.any_eq_false]
    exact fun n hn h => hj ⟨n, hn, h⟩

/-! ### The record of a product -/

/-- Splicing brings no disjunctions to light and trimming takes none away. -/
theorem filter_isJoin_spliceTrimmed (hns : ∀ n ∈ ns, IsNormalForm dropUnits n)
    (hz : const false ∉ ns) :
    (spliceTrimmed dropUnits .and ns).filter (isJoin .or) = ns.filter (isJoin .or) := by
  induction ns with
  | nil => simp
  | cons n ns ih =>
    obtain ⟨hn, hns⟩ := List.forall_mem_cons.mp hns
    rw [List.mem_cons, not_or] at hz
    rw [spliceTrimmed_cons, List.filter_append, ih hns hz.2]
    cases hj : n.isJoin .or with
    | true =>
      rw [spliceTrimmed_singleton_of_isJoin hn hj, List.filter_cons_of_pos hj,
        List.filter_cons_of_pos hj]
      rfl
    | false =>
      have hclause : ∀ c ∈ [n], IsClauseForm dropUnits c := by
        simpa using hn.isClauseForm_of_isJoin_eq_false hj
      have hlit := admits_of_mem isBase_isLiteral hclause (by simpa using hz.1)
      have hnone : (spliceTrimmed dropUnits .and [n]).filter (isJoin .or) = [] := by
        refine List.filter_eq_nil_iff.mpr fun l hl => ?_
        rw [isJoin_eq_false_of_isLiteral (hlit l hl).1]
        exact Bool.false_ne_true
      rw [hnone, List.filter_cons_of_neg (by rw [hj]; exact Bool.false_ne_true)]
      rfl

/-- Clauses contribute one clause each, so that only disjunctions need to be multiplied. -/
theorem prod_length_filter (ns : List Formula) :
    ((ns.filter (isJoin .or)).map fun n => (operands .or n).length).prod =
      (ns.map fun n => (operands .or n).length).prod := by
  induction ns with
  | nil => rfl
  | cons n ns ih =>
    rw [List.map_cons, List.prod_cons, ← ih]
    cases hj : n.isJoin .or with
    | true => rw [List.filter_cons_of_pos hj, List.map_cons, List.prod_cons]
    | false =>
      rw [List.filter_cons_of_neg (by rw [hj]; exact Bool.false_ne_true),
        operands_eq_singleton hj, List.length_singleton, Nat.one_mul]

/-- **A distribution is recorded once**, the ones over its choices being none. -/
theorem records_conjoin_of_join (hns : ∀ n ∈ ns, IsNormalForm dropUnits n) (hz : const false ∉ ns)
    (hj : ∃ n ∈ ns, n.isJoin .or = true) :
    (conjoin dropUnits ns).records = [distributionRecord (spliceTrimmed dropUnits .and ns)] := by
  have hany : (spliceTrimmed dropUnits .and ns).any (isJoin .or) = true := by
    obtain ⟨n, hn, hjn⟩ := hj
    have hmem : n ∈ (spliceTrimmed dropUnits .and ns).filter (isJoin .or) := by
      rw [filter_isJoin_spliceTrimmed hns hz]
      exact List.mem_filter.mpr ⟨hn, hjn⟩
    exact List.any_eq_true.mpr ⟨n, (List.mem_filter.mp hmem).1, hjn⟩
  rw [records_conjoin_of_isNormalForm hns,
    if_pos (isDistributed_iff.mpr ⟨any_isConst_eq_false hz, hany⟩)]

/-- The record of a distribution over so many disjunctions into so many clauses. -/
def distributing (disjunctions clauses : Nat) : Record :=
  ⟨.debug, .normalizer, s!"Distributing over {disjunctions} disjunctions ({clauses} clauses)"⟩

/-- Numbers multiplied with 64 bits give the last 64 bits of their product. -/
theorem foldl_mul_ofNat (m : Nat) (ns : List Nat) :
    (ns.map UInt64.ofNat).foldl (· * ·) (UInt64.ofNat m) = UInt64.ofNat (m * ns.prod) := by
  induction ns generalizing m with
  | nil => rw [List.prod_nil, Nat.mul_one, List.map_nil, List.foldl_nil]
  | cons n ns ih =>
    rw [List.map_cons, List.foldl_cons, ← UInt64.ofNat_mul, ih, List.prod_cons, Nat.mul_assoc]

/-- **A distribution is recorded** with the number of disjunctions, and with 64 bits of the number
of clauses. -/
theorem distributionRecord_eq (ts : List Formula) :
    distributionRecord ts = distributing (ts.filter (isJoin .or)).length
      (((ts.filter (isJoin .or)).map fun t => (operands .or t).length).prod % 2 ^ 64) := by
  have hclauses := foldl_mul_ofNat 1 ((ts.filter (isJoin .or)).map fun t => (operands .or t).length)
  rw [List.map_map, Nat.one_mul] at hclauses
  have hnumber (n : Nat) : toString (UInt64.ofNat n) = toString (n % 2 ^ 64) :=
    congrArg toString UInt64.toNat_ofNat'
  rw [distributing, ← hnumber, ← hclauses]
  rfl

/-! ### Products -/

/-- **The ordered product** of normal forms. -/
structure IsProduct (dropUnits : Bool) (ns : List Formula) (product : Logged Formula) : Prop where
  /-- It is a normal form -/
  normalize_eq : product.value.normalize dropUnits = product.value
  /-- It has one clause for each choice of one clause from each normal form that counts. The choices
  are given by positions and come in lexicographic order, the first normal form outermost -/
  operands_eq : ∃ positions : List (List Nat), positions.Pairwise (· < ·) ∧
    (∀ is, is ∈ positions ↔
      List.Forall₂ (fun i n => i < (operands .or n).length) is (counted dropUnits ns)) ∧
    operands .or product.value = positions.map fun is =>
      clauseOfChoice (membersAt ((counted dropUnits ns).map (operands .or)) is)
  /-- There are as many clauses as the product of the numbers of clauses says -/
  length_eq : (operands .or product.value).length =
    (ns.map fun n => (operands .or n).length).prod
  /-- The product of the numbers of the disjunctions says the same -/
  length_eq_disjunctions : (operands .or product.value).length =
    ((ns.filter (isJoin .or)).map fun n => (operands .or n).length).prod
  /-- It is a disjunction if there is one among the normal forms -/
  isJoin_eq : product.value.isJoin .or = ns.any (isJoin .or)
  /-- In this case there is one record, of the number of disjunctions and of the clauses that the
  product has, and else there is none. The clauses are counted with 64 bits -/
  records_eq : product.records =
    if ns.any (isJoin .or) then
      [distributing (ns.filter (isJoin .or)).length
        ((operands .or product.value).length % 2 ^ 64)]
    else []
  /-- So their number is recorded as it is if it fits 64 bits -/
  records_eq_of_lt : (operands .or product.value).length < 2 ^ 64 → product.records =
    if ns.any (isJoin .or) then
      [distributing (ns.filter (isJoin .or)).length (operands .or product.value).length]
    else []

/-- The choices from some lists, by their positions. -/
theorem exists_positions (ns : List Formula) :
    ∃ positions : List (List Nat), positions.Pairwise (· < ·) ∧
      (∀ is, is ∈ positions ↔ List.Forall₂ (fun i n => i < (operands .or n).length) is ns) ∧
      choices (ns.map (operands .or)) = positions.map (membersAt (ns.map (operands .or))) := by
  refine ⟨choices ((ns.map (operands .or)).map fun cs => List.range cs.length),
    pairwise_choices ?_, fun is => ?_, choices_eq_map_membersAt _⟩
  · rw [List.forall_mem_map]
    exact fun cs _ => List.pairwise_lt_range
  · rw [mem_choices_iff, List.map_map, List.forall₂_map_right_iff]
    simp only [Function.comp_apply, List.mem_range]

/-- **Conjoining normal forms makes their ordered product**, in both modes, if `F` is not one of
them. -/
theorem isProduct_conjoin (dropUnits : Bool) (ns : List Formula)
    (hns : ∀ n ∈ ns, ∃ t : Formula, t.normalize dropUnits = n) (hz : const false ∉ ns) :
    IsProduct dropUnits ns (conjoin dropUnits ns) := by
  have hnormal : ∀ n ∈ ns, IsNormalForm dropUnits n := by
    intro n hn
    obtain ⟨t, rfl⟩ := hns n hn
    exact isNormalForm_normalForm dropUnits true t
  have hlength := length_operands_conjoin hnormal hz
  have hrecords : (conjoin dropUnits ns).records =
      if ns.any (isJoin .or) then
        [distributing (ns.filter (isJoin .or)).length
          ((operands .or (conjoin dropUnits ns).value).length % 2 ^ 64)]
      else [] := by
    by_cases hj : ∃ n ∈ ns, n.isJoin .or = true
    · rw [if_pos (List.any_eq_true.mpr hj), records_conjoin_of_join hnormal hz hj, hlength,
        distributionRecord_eq, filter_isJoin_spliceTrimmed hnormal hz, prod_length_filter]
    · rw [if_neg (List.any_eq_true.not.mpr hj), conjoin_eq_silent (forall_isClauseForm hnormal hj)]
      rfl
  obtain ⟨positions, hincreasing, hmem, hchoices⟩ := exists_positions (counted dropUnits ns)
  refine ⟨normalize_eq_self (isNormalForm_conjoin hnormal), ⟨positions, hincreasing, hmem, ?_⟩,
    hlength, hlength.trans (prod_length_filter ns).symm, isJoin_conjoin hnormal hz, hrecords,
    fun hlt => ?_⟩
  · rw [operands_conjoin_eq_map hnormal hz, hchoices, List.map_map]
    rfl
  · rwa [Nat.mod_eq_of_lt hlt] at hrecords

/-- Two disjunctions, one of them with a clause `F`, between clauses, one of them `T`, where units
stay; and one disjunction between two `T` where they are dropped. -/
theorem isProduct_conjoin_of_units :
    let ns := [join .or [var "a", join .and [var "b", var "c"]], const true,
      join .or [var "d", const false], neg (var "e")]
    let ms := [const true, join .or [var "a", var "b"], const true]
    IsProduct false ns (conjoin false ns) ∧
    operands .or (conjoin false ns).value =
      [join .and [var "a", const true, var "d", neg (var "e")], const false,
        join .and [var "b", var "c", const true, var "d", neg (var "e")], const false] ∧
    operands .or (conjoin true ms).value = [var "a", var "b"] ∧
    (conjoin true ms).records =
      [⟨.debug, .normalizer, "Distributing over 1 disjunctions (2 clauses)"⟩] := by
  intro ns ms
  have hns : ∀ n ∈ ns, n.normalize false = n := by decide +kernel
  have hms : ∀ n ∈ ms, n.normalize true = n := by decide +kernel
  have hunits := isProduct_conjoin false ns (fun n hn => ⟨n, hns n hn⟩) (by decide)
  have hfolded := isProduct_conjoin true ms (fun n hn => ⟨n, hms n hn⟩) (by decide)
  have hclauses : operands .or (conjoin true ms).value = [var "a", var "b"] := by decide +kernel
  refine ⟨hunits, by decide +kernel, hclauses, ?_⟩
  rw [hfolded.records_eq_of_lt (by rw [hclauses]; decide), hclauses]
  decide

end Formula

end Propositional
