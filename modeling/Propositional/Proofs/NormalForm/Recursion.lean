import Propositional.Proofs.NormalForm.Assembly

/-!
# How deep distributing goes

A conjunction that is distributed over the disjunctions in it calls for the conjunction of every
choice. A choice is neither a part of the list nor shorter than it: the terms that are no
disjunctions stand in it as before, and what has been chosen may be longer than what it replaces
once it is spliced. What gets smaller is the number of nodes in the whole list, since every
disjunction gives way to one of its own terms (`Propositional.Formula.Calls.totalSize_lt`). This
needs no normal forms, and so the recursion comes to an end on any list of formulas.

That it does is said of the recursion itself, which is run here with a limit on how deep its calls
may be nested and gives nothing if the limit is met (`Propositional.Formula.conjoinWithin`). The
limit is never met if it is larger than the list
(`Propositional.Formula.conjoinWithin_eq_some_of_lt`).

On normal forms a limit of two is enough (`Propositional.Formula.distributesOnce`), whatever their
size: what is chosen from them are clauses, a conjunction of clauses splices to literals, and there
is nothing left to distribute over. In particular it is recorded only of the lists that the normal
forms of terms make, and of each of them once, that it is distributed
(`Propositional.Formula.records_normalForm`).
-/

namespace Propositional

/-! ### Asking for each member of a list -/

section Answers

variable {α β : Type} {f : α → Option β} {xs : List α}

/-- If every member has an answer, the list has. -/
theorem mapM_eq_some_map {g : α → β} (h : ∀ x ∈ xs, f x = some (g x)) :
    xs.mapM f = some (xs.map g) := by
  induction xs with
  | nil => rfl
  | cons x xs ih =>
    obtain ⟨hx, hxs⟩ := List.forall_mem_cons.mp h
    rw [List.mapM_cons, hx, ih hxs]
    rfl

/-- And only if every member has an answer, the list has. -/
theorem isSome_mapM_iff : (xs.mapM f).isSome = true ↔ ∀ x ∈ xs, (f x).isSome = true := by
  induction xs with
  | nil => simp
  | cons x xs ih =>
    rw [List.mapM_cons, List.forall_mem_cons, ← ih]
    cases f x with
    | none => simp
    | some y => cases xs.mapM f <;> simp

end Answers

namespace Formula

section Recursion

variable (dropUnits : Bool) {ts choice : List Formula}

/-! ### Calls -/

/-- Whether the conjunction of a list is **distributed**: `F` is not in the list, and there is a
disjunction among what enters the conjunction. -/
def isDistributed (ts : List Formula) : Bool :=
  !ts.any (isConst false) && (spliceTrimmed dropUnits .and ts).any (isJoin .or)

/-- Conjoining `ts` **calls for** the conjunction of `choice`: it is distributed, and this is one
of the choices. -/
def Calls (ts choice : List Formula) : Prop :=
  isDistributed dropUnits ts = true ∧
    choice ∈ choices ((spliceTrimmed dropUnits .and ts).map (operands .or))

instance : Decidable (Calls dropUnits ts choice) :=
  inferInstanceAs (Decidable (_ ∧ _))

variable {dropUnits}

theorem isDistributed_iff : isDistributed dropUnits ts = true ↔
    ts.any (isConst false) = false ∧ (spliceTrimmed dropUnits .and ts).any (isJoin .or) = true := by
  rw [isDistributed, Bool.and_eq_true, Bool.not_eq_true']

/-- **A call is for a smaller list** than the one that is distributed. -/
theorem Calls.totalSize_lt (h : Calls dropUnits ts choice) :
    totalSize choice < totalSize (spliceTrimmed dropUnits .and ts) :=
  totalSize_lt_of_mem_choices (isDistributed_iff.mp h.1).2 h.2

variable (dropUnits)

/-- **Calls come to an end**, on whatever list they begin. -/
theorem wellFounded_calls :
    WellFounded fun choice ts : List Formula => Calls dropUnits ts choice := by
  refine Subrelation.wf (fun {choice ts} h => ?_) (measure totalSize).wf
  exact Nat.lt_of_lt_of_le h.totalSize_lt (totalSize_spliceTrimmed_le dropUnits .and ts)

/-- A distribution is recorded before what its calls record, and nothing is without one. -/
theorem records_conjoin (ts : List Formula) : (conjoin dropUnits ts).records =
    if isDistributed dropUnits ts then
      distributionRecord (spliceTrimmed dropUnits .and ts) ::
        (choices ((spliceTrimmed dropUnits .and ts).map (operands .or))).flatMap fun choice =>
          (conjoin dropUnits choice).records
    else [] := by
  rw [isDistributed]
  cases hf : ts.any (isConst false) with
  | true =>
    rw [conjoin_of_any_false dropUnits hf]
    rfl
  | false =>
    cases hj : (spliceTrimmed dropUnits .and ts).any (isJoin .or) with
    | true =>
      rw [conjoin_of_join dropUnits hf hj, Logged.records_after, Logged.records_map,
        Logged.records_gather, List.flatMap_map]
      rfl
    | false =>
      rw [conjoin_of_no_join dropUnits hf hj]
      rfl

/-! ### Recursion with a limit -/

/-- **One level of the recursion**: the conjunction of a list, with the conjunctions that it calls
for taken from elsewhere. If one of them is missing there is no result. -/
def conjoinStep (call : List Formula → Option (Logged Formula)) (ts : List Formula) :
    Option (Logged Formula) :=
  if ts.any (isConst false) then some (.silent (const false))
  else
    let factors := spliceTrimmed dropUnits .and ts
    if factors.any (isJoin .or) then
      ((choices (factors.map (operands .or))).mapM call).map fun clauses =>
        ((Logged.gather clauses).map (disjoin dropUnits)).after [distributionRecord factors]
    else some (.silent (combine .and factors))

/-- **The conjunction with a limit**: as it is made if calls may not be nested deeper than `depth`,
the first one included. -/
def conjoinWithin : Nat → List Formula → Option (Logged Formula)
  | 0, _ => none
  | depth + 1, ts => conjoinStep dropUnits (conjoinWithin depth) ts

variable {dropUnits} {call : List Formula → Option (Logged Formula)}

theorem conjoinStep_of_not_isDistributed (h : isDistributed dropUnits ts = false) :
    conjoinStep dropUnits call ts = some (conjoin dropUnits ts) := by
  unfold conjoinStep
  split
  · rename_i hf
    rw [conjoin_of_any_false dropUnits hf]
  · rename_i hf
    have hj : (spliceTrimmed dropUnits .and ts).any (isJoin .or) = false := by
      simpa [isDistributed, hf] using h
    rw [conjoin_of_no_join dropUnits (by simpa using hf) hj]
    simp only [hj, Bool.false_eq_true, if_false]

theorem conjoinStep_of_isDistributed (h : isDistributed dropUnits ts = true) :
    conjoinStep dropUnits call ts =
      ((choices ((spliceTrimmed dropUnits .and ts).map (operands .or))).mapM call).map
        fun clauses => ((Logged.gather clauses).map (disjoin dropUnits)).after
          [distributionRecord (spliceTrimmed dropUnits .and ts)] := by
  obtain ⟨hf, hj⟩ := isDistributed_iff.mp h
  simp only [conjoinStep, hf, hj, Bool.false_eq_true, if_false, if_true]

/-- **A level asks for what is called for**, no more and no less. -/
theorem isSome_conjoinStep_iff : (conjoinStep dropUnits call ts).isSome = true ↔
    ∀ choice, Calls dropUnits ts choice → (call choice).isSome = true := by
  cases h : isDistributed dropUnits ts with
  | false => simp [conjoinStep_of_not_isDistributed h, Calls, h]
  | true =>
    rw [conjoinStep_of_isDistributed h, Option.isSome_map, isSome_mapM_iff]
    simp only [Calls, h, true_and]

/-- A level makes the conjunction out of the conjunctions that it calls for. -/
theorem conjoinStep_eq_some
    (h : ∀ choice, Calls dropUnits ts choice → call choice = some (conjoin dropUnits choice)) :
    conjoinStep dropUnits call ts = some (conjoin dropUnits ts) := by
  cases hd : isDistributed dropUnits ts with
  | false => exact conjoinStep_of_not_isDistributed hd
  | true =>
    obtain ⟨hf, hj⟩ := isDistributed_iff.mp hd
    rw [conjoinStep_of_isDistributed hd, mapM_eq_some_map fun choice hc => h choice ⟨hd, hc⟩,
      conjoin_of_join dropUnits hf hj]
    rfl

/-- **A limit above the size of the list is never met.** -/
theorem conjoinWithin_eq_some_of_lt {depth : Nat} (h : totalSize ts < depth) :
    conjoinWithin dropUnits depth ts = some (conjoin dropUnits ts) := by
  induction depth generalizing ts with
  | zero => omega
  | succ depth ih =>
    -- one level less is left for what is called for, and at least one node less stands in it
    refine conjoinStep_eq_some fun choice hc => ih ?_
    have hlt := hc.totalSize_lt
    have hle := totalSize_spliceTrimmed_le dropUnits .and ts
    omega

/-- The limit decides whether there is an answer, and has no part in what it is. -/
theorem conjoinWithin_eq_some_of_isSome {depth : Nat}
    (h : (conjoinWithin dropUnits depth ts).isSome = true) :
    conjoinWithin dropUnits depth ts = some (conjoin dropUnits ts) := by
  induction depth generalizing ts with
  | zero => simp [conjoinWithin] at h
  | succ depth ih =>
    exact conjoinStep_eq_some fun choice hc => ih (isSome_conjoinStep_iff.mp h choice hc)

/-- **Recursion with a limit** gives the conjunction or meets the limit, and then the list has as
many nodes as the limit says, or more. -/
theorem conjoinWithin_eq_some_or_none (depth : Nat) (ts : List Formula) :
    conjoinWithin dropUnits depth ts = some (conjoin dropUnits ts) ∨
      conjoinWithin dropUnits depth ts = none ∧ depth ≤ totalSize ts := by
  rcases Option.eq_none_or_eq_some (conjoinWithin dropUnits depth ts) with hnone | ⟨r, hsome⟩
  · refine .inr ⟨hnone, Nat.not_lt.mp fun hlt => ?_⟩
    rw [conjoinWithin_eq_some_of_lt hlt] at hnone
    cases hnone
  · exact .inl (conjoinWithin_eq_some_of_isSome (by rw [hsome]; rfl))

/-- A list that is not distributed is done with at once. -/
theorem conjoinWithin_of_not_isDistributed {depth : Nat} (h : isDistributed dropUnits ts = false)
    (hdepth : 1 ≤ depth) : conjoinWithin dropUnits depth ts = some (conjoin dropUnits ts) := by
  obtain ⟨depth, rfl⟩ := Nat.exists_eq_add_of_le' hdepth
  exact conjoinStep_of_not_isDistributed h

end Recursion

/-! ### Normal forms are distributed once -/

section Once

variable {dropUnits : Bool} {ns choice cs : List Formula}

/-- A disjunction stands nowhere in a clause. -/
theorem IsClauseForm.not_within_or {c : Formula} (h : IsClauseForm dropUnits c)
    (us : List Formula) : ¬Within (.join .or us) c := by
  intro hw
  have hjoin := h.isJoin_or
  rw [← h.eq_of_within hw] at hjoin
  simp [isJoin] at hjoin

/-- What normal forms call for are conjunctions of clauses. -/
theorem Calls.isClauseForm (h : Calls dropUnits ns choice)
    (hns : ∀ n ∈ ns, IsNormalForm dropUnits n) : ∀ c ∈ choice, IsClauseForm dropUnits c := by
  have hz : const false ∉ ns := const_notMem_of_any_eq_false (isDistributed_iff.mp h.1).1
  exact isClauseForm_of_mem_choices (fun u hu => (isFactor_of_mem_spliceTrimmed hns hz hu).1) h.2

theorem isDistributed_eq_false_of_isClauseForm (h : ∀ c ∈ cs, IsClauseForm dropUnits c) :
    isDistributed dropUnits cs = false := by
  by_contra hd
  obtain ⟨hf, hj⟩ := isDistributed_iff.mp (by simpa using hd)
  rw [any_isJoin_spliceTrimmed_eq_false h (const_notMem_of_any_eq_false hf)] at hj
  exact Bool.false_ne_true hj

/-- **Distributing once**: what is called for holds no disjunction anywhere, is not distributed
again and leaves no record, so that calls are nested no deeper than two. -/
structure DistributesOnce (dropUnits : Bool) (ns : List Formula) : Prop where
  /-- There is no disjunction in a choice -/
  not_within : ∀ choice, Calls dropUnits ns choice → ∀ c ∈ choice, ∀ us, ¬Within (join .or us) c
  /-- A choice is not distributed -/
  isDistributed_eq : ∀ choice, Calls dropUnits ns choice → isDistributed dropUnits choice = false
  /-- Nothing is recorded of a choice -/
  records_eq : ∀ choice, Calls dropUnits ns choice → (conjoin dropUnits choice).records = []
  /-- A limit of two levels is not met -/
  conjoinWithin_eq : ∀ depth, 2 ≤ depth →
    conjoinWithin dropUnits depth ns = some (conjoin dropUnits ns)

/-- **Normal forms are distributed once.** -/
theorem distributesOnce (hns : ∀ n ∈ ns, IsNormalForm dropUnits n) :
    DistributesOnce dropUnits ns := by
  have hflat (choice : List Formula) (h : Calls dropUnits ns choice) :
      isDistributed dropUnits choice = false :=
    isDistributed_eq_false_of_isClauseForm (h.isClauseForm hns)
  refine ⟨fun choice h c hc us => (h.isClauseForm hns c hc).not_within_or us, hflat,
    fun choice h => ?_, fun depth hdepth => ?_⟩
  · rw [records_conjoin, hflat choice h]
    rfl
  · obtain ⟨depth, rfl⟩ := Nat.exists_eq_add_of_le' (show 1 ≤ depth by omega)
    exact conjoinStep_eq_some fun choice h =>
      conjoinWithin_of_not_isDistributed (hflat choice h) (by omega)

/-- **A list of normal forms leaves one record**, if it is distributed. -/
theorem records_conjoin_of_isNormalForm (hns : ∀ n ∈ ns, IsNormalForm dropUnits n) :
    (conjoin dropUnits ns).records =
      if isDistributed dropUnits ns then [distributionRecord (spliceTrimmed dropUnits .and ns)]
      else [] := by
  rw [records_conjoin]
  split
  · rename_i hd
    rw [List.flatMap_eq_nil_iff.mpr fun choice hc =>
      (distributesOnce hns).records_eq choice ⟨hd, hc⟩]
  · rfl

end Once

/-! ### The lists that normal forms are conjoined in -/

section Lists

variable (dropUnits : Bool)

/-- **The lists that are conjoined** on the way to the normal form of a formula, or of its negation,
in the order in which they are. The choices that these call for are not among them. -/
def conjoinedLists (positive : Bool) : Formula → List (List Formula)
  | const _ => []
  | var _ => []
  | neg t => conjoinedLists (!positive) t
  | join op ts =>
    (ts.attach.flatMap fun ⟨t, _⟩ => conjoinedLists positive t) ++
      match if positive then op else op.dual with
      | .or => []
      | .and => [ts.map fun t => (normalForm dropUnits positive t).value]
termination_by t => t.size
decreasing_by
  · rw [size_neg]
    omega
  · have := size_le_totalSize (by assumption)
    rw [size_join]
    omega

theorem conjoinedLists_join (positive : Bool) (op : Connective) (ts : List Formula) :
    conjoinedLists dropUnits positive (join op ts) =
      ts.flatMap (conjoinedLists dropUnits positive) ++
        match if positive then op else op.dual with
        | .or => []
        | .and => [ts.map fun t => (normalForm dropUnits positive t).value] := by
  rw [conjoinedLists]
  simp only [List.flatMap_subtype, List.unattach_attach]

/-- What is conjoined on the way to a normal form are normal forms. -/
theorem exists_normalForm_of_mem_conjoinedLists {positive : Bool} {t n : Formula}
    {ns : List Formula} (hns : ns ∈ conjoinedLists dropUnits positive t) (hn : n ∈ ns) :
    ∃ p u, (normalForm dropUnits p u).value = n := by
  induction t generalizing positive with
  | const b => simp [conjoinedLists] at hns
  | var name => simp [conjoinedLists] at hns
  | neg t ih => exact ih (by rwa [conjoinedLists] at hns)
  | join op ts ih =>
    rw [conjoinedLists_join, List.mem_append, List.mem_flatMap] at hns
    rcases hns with ⟨t, ht, hns⟩ | hns
    · exact ih t ht hns
    · generalize (if positive then op else op.dual : Connective) = q at hns
      cases q with
      | or => simp at hns
      | and =>
        rw [List.mem_singleton.mp hns] at hn
        obtain ⟨t, -, rfl⟩ := List.mem_map.mp hn
        exact ⟨positive, t, rfl⟩

/-- **The records of a normal form** are one for each list that is conjoined on the way and
distributed. -/
theorem records_normalForm (positive : Bool) (t : Formula) :
    (normalForm dropUnits positive t).records =
      ((conjoinedLists dropUnits positive t).filter (isDistributed dropUnits)).map fun ns =>
        distributionRecord (spliceTrimmed dropUnits .and ns) := by
  induction t generalizing positive with
  | const b => simp [conjoinedLists]
  | var name => simp [conjoinedLists]
  | neg t ih => rw [normalForm_neg_eq, ih, conjoinedLists]
  | join op ts ih =>
    rw [normalForm_join, Logged.records_bind, Logged.records_gather, Logged.value_gather,
      List.flatMap_map, List.map_map, conjoinedLists_join, List.filter_append, List.map_append,
      List.filter_flatMap, List.map_flatMap]
    refine congrArg₂ _ (List.flatMap_congr fun t ht => ih t ht positive) ?_
    -- the records of the join itself: none of a disjunction, one of a list that is distributed
    cases (if positive then op else op.dual : Connective) with
    | or => rfl
    | and =>
      have hns : ∀ n ∈ ts.map (Logged.value ∘ normalForm dropUnits positive),
          IsNormalForm dropUnits n := by
        rw [List.forall_mem_map]
        exact fun t _ => isNormalForm_normalForm dropUnits positive t
      rw [joinNormal, records_conjoin_of_isNormalForm hns, List.filter_cons, List.filter_nil,
        apply_ite (List.map _)]
      rfl

end Lists

/-! ### Distributing terminates -/

/-- **Distributing comes to an end**, in both modes and on every list of formulas. What a
conjunction calls for has fewer nodes than the list that is distributed, and this has no more than
the list one began with, so that there is no infinite chain of calls. With a limit on how deep calls
may be nested, the recursion answers exactly if all its calls do, and its answer is the conjunction,
which it gives unless the limit is no larger than the number of nodes. In a list of results of
normalizing formulas or their negations, what is called for has no disjunctions, is not distributed
again and not recorded; and the records of a normal form are one for each list of such results that
is conjoined and distributed on the way to it. -/
theorem conjoin_terminates (dropUnits : Bool) :
    (∀ ts choice, Calls dropUnits ts choice →
      totalSize choice < totalSize (spliceTrimmed dropUnits .and ts) ∧
        totalSize (spliceTrimmed dropUnits .and ts) ≤ totalSize ts) ∧
    (WellFounded fun choice ts : List Formula => Calls dropUnits ts choice) ∧
    (∀ depth ts, (conjoinWithin dropUnits (depth + 1) ts).isSome = true ↔
      ∀ choice, Calls dropUnits ts choice →
        (conjoinWithin dropUnits depth choice).isSome = true) ∧
    (∀ depth ts, conjoinWithin dropUnits depth ts = some (conjoin dropUnits ts) ∨
      conjoinWithin dropUnits depth ts = none ∧ depth ≤ totalSize ts) ∧
    (∀ ns, (∀ n ∈ ns, ∃ positive t, (normalForm dropUnits positive t).value = n) →
      DistributesOnce dropUnits ns) ∧
    ∀ positive t,
      (∀ ns ∈ conjoinedLists dropUnits positive t, ∀ n ∈ ns,
        ∃ p u, (normalForm dropUnits p u).value = n) ∧
      (normalForm dropUnits positive t).records =
        ((conjoinedLists dropUnits positive t).filter (isDistributed dropUnits)).map fun ns =>
          distributionRecord (spliceTrimmed dropUnits .and ns) := by
  refine ⟨fun ts choice h => ⟨h.totalSize_lt, totalSize_spliceTrimmed_le dropUnits .and ts⟩,
    wellFounded_calls dropUnits, fun depth ts => isSome_conjoinStep_iff,
    conjoinWithin_eq_some_or_none, fun ns hns => distributesOnce fun n hn => ?_,
    fun positive t => ⟨fun ns hns n => exists_normalForm_of_mem_conjoinedLists dropUnits hns,
      records_normalForm dropUnits positive t⟩⟩
  obtain ⟨positive, t, rfl⟩ := hns n hn
  exact isNormalForm_normalForm dropUnits positive t

/-- A list with a disjunction of a disjunction calls for a list that is distributed again; a
disjunction of clauses beside a literal does not. -/
theorem conjoin_terminates_of_nested :
    let nested := [join .or [join .or [var "a", var "b"], join .or []], var "c"]
    let normal := [join .or [var "a", join .and [var "b", var "d"]], neg (var "c")]
    totalSize [join .or [var "a", var "b"], var "c"] < totalSize nested ∧
    isDistributed false [join .or [var "a", var "b"], var "c"] = true ∧
    conjoinWithin false 8 nested = some (conjoin false nested) ∧
    isDistributed false normal = true ∧
    isDistributed false [join .and [var "b", var "d"], neg (var "c")] = false ∧
    conjoinWithin false 2 normal = some (conjoin false normal) := by
  intro nested normal
  obtain ⟨hsize, -, -, hlimit, honce, -⟩ := conjoin_terminates false
  have hcalls : Calls false nested [join .or [var "a", var "b"], var "c"] := by decide
  have hnormal : DistributesOnce false normal := by
    refine honce normal fun n hn => ⟨true, n, ?_⟩
    have hself : ∀ n ∈ normal, n.normalize false = n := by decide +kernel
    exact hself n hn
  refine ⟨?_, by decide, (hlimit 8 nested).resolve_right fun h => absurd h.2 (by decide),
    by decide, hnormal.isDistributed_eq _ (by decide), hnormal.conjoinWithin_eq 2 (Nat.le_refl 2)⟩
  exact Nat.lt_of_lt_of_le (hsize _ _ hcalls).1 (hsize _ _ hcalls).2

/-- A limit of two is met by a list that is not made of normal forms. -/
example : conjoinWithin false 2 [join .or [join .or [var "a", var "b"], var "c"]] = none := by
  rfl

end Formula

end Propositional
