import Propositional.NormalForm.Choice
import Propositional.Record

/-!
# Disjunctive normal forms

The disjunctive normal form of a formula is made from its leaves upwards: negations move down to the
variables, each join is made of the normal forms of its terms, and a conjunction of disjunctions
becomes the disjunction of all choices of one operand from each. A zero among the terms of a join
decides it at once; a unit stays where it is, unless the caller asks that units be dropped.

Two operations on lists of normal forms carry the work: `Propositional.Formula.disjoin` and
`Propositional.Formula.conjoin`. The second calls itself on every choice, and each choice is smaller
than the list it was chosen from, so it comes to an end on any list of formulas, not only on normal
forms. Nothing limits the size of a normal form: `k` disjunctions of `m` terms have `m ^ k` choices.
-/

namespace Propositional.Formula

/-! ### Joins of normal forms -/

section Join

variable (dropUnits : Bool)

/-- The terms of a join as they enter it: spliced, and without units if these are to be dropped. -/
def spliceTrimmed (op : Connective) (ts : List Formula) : List Formula :=
  if dropUnits then (splice op ts).filter (fun t => !t.isConst op.unit) else splice op ts

theorem totalSize_spliceTrimmed_le (op : Connective) (ts : List Formula) :
    totalSize (spliceTrimmed dropUnits op ts) ≤ totalSize ts := by
  have hs := totalSize_splice_le op ts
  have hf := totalSize_filter_le (fun t => !t.isConst op.unit) (splice op ts)
  unfold spliceTrimmed
  split <;> omega

/-- **The disjunction of normal forms.** -/
def disjoin (ts : List Formula) : Formula :=
  if ts.any (isConst true) then const true
  else combine .or (spliceTrimmed dropUnits .or ts)

/-- The record of a distribution over the disjunctions among the given terms: how many they are, and
how many clauses their choices make, as a number of 64 bits. -/
def distributionRecord (ts : List Formula) : Record :=
  let disjunctions := ts.filter (isJoin .or)
  let clauses : UInt64 :=
    (disjunctions.map fun t => UInt64.ofNat (operands .or t).length).foldl (· * ·) 1
  ⟨.debug, .normalizer,
    s!"Distributing over {disjunctions.length} disjunctions ({clauses} clauses)"⟩

/-- **The conjunction of normal forms**, distributed over the disjunctions among them. -/
def conjoin (ts : List Formula) : Logged Formula :=
  if ts.any (isConst false) then .silent (const false)
  else
    let factors := spliceTrimmed dropUnits .and ts
    if factors.any (isJoin .or) then
      let disjunctions := factors.filter (isJoin .or)
      let clauses := (choices (disjunctions.map (operands .or))).attach.map fun ⟨choice, _⟩ =>
        conjoin (refill .or factors choice)
      ((Logged.gather clauses).map (disjoin dropUnits)).after [distributionRecord factors]
    else .silent (combine .and factors)
termination_by totalSize ts
decreasing_by
  have hmem := List.mem_map_of_mem (f := refill .or factors) (by assumption)
  rw [map_refill_choices] at hmem
  have hlt := totalSize_lt_of_mem_choices (by assumption) hmem
  exact Nat.lt_of_lt_of_le hlt (totalSize_spliceTrimmed_le dropUnits .and ts)

theorem conjoin_of_any_false {ts : List Formula} (h : ts.any (isConst false) = true) :
    conjoin dropUnits ts = .silent (const false) := by
  rw [conjoin, if_pos h]

theorem conjoin_of_no_join {ts : List Formula} (hf : ts.any (isConst false) = false)
    (hj : (spliceTrimmed dropUnits .and ts).any (isJoin .or) = false) :
    conjoin dropUnits ts = .silent (combine .and (spliceTrimmed dropUnits .and ts)) := by
  rw [conjoin, if_neg (by simp [hf])]
  simp only [hj, Bool.false_eq_true, if_false]

/-- Where there is something to distribute over, what is conjoined in its place are the choices of
one operand from each term. -/
theorem conjoin_of_join {ts : List Formula} (hf : ts.any (isConst false) = false)
    (hj : (spliceTrimmed dropUnits .and ts).any (isJoin .or) = true) :
    conjoin dropUnits ts =
      ((Logged.gather ((choices ((spliceTrimmed dropUnits .and ts).map (operands .or))).map
        (conjoin dropUnits))).map (disjoin dropUnits)).after
          [distributionRecord (spliceTrimmed dropUnits .and ts)] := by
  rw [conjoin, if_neg (by simp [hf]), ← map_refill_choices, List.map_map]
  simp only [hj, if_true, List.map_attach_eq_pmap, List.pmap_eq_map, Function.comp_def]

/-- **Induction on conjunctions**: a claim holds of every list if it holds where `F` decides and
where there is nothing to distribute over, and passes from all choices to the list they are made
from. -/
@[elab_as_elim]
theorem conjoin_induction {motive : List Formula → Prop}
    (decided : ∀ ts, ts.any (isConst false) = true → motive ts)
    (distributed : ∀ ts, ts.any (isConst false) = false →
      (spliceTrimmed dropUnits .and ts).any (isJoin .or) = true →
      (∀ choice ∈ choices ((spliceTrimmed dropUnits .and ts).map (operands .or)),
        motive choice) → motive ts)
    (plain : ∀ ts, ts.any (isConst false) = false →
      (spliceTrimmed dropUnits .and ts).any (isJoin .or) = false → motive ts)
    (ts : List Formula) : motive ts := by
  induction ts using conjoin.induct dropUnits with
  | case1 ts hf => exact decided ts hf
  | case2 ts hf factors hj disjunctions ih =>
    refine distributed ts (by simpa using hf) hj ?_
    rw [← map_refill_choices, List.forall_mem_map]
    exact ih
  | case3 ts hf factors hj => exact plain ts (by simpa using hf) (by simpa using hj)

/-- The join of normal forms by either connective. -/
def joinNormal : Connective → List Formula → Logged Formula
  | .or, ts => .silent (disjoin dropUnits ts)
  | .and, ts => conjoin dropUnits ts

end Join

/-! ### Normal forms of formulas -/

/-- What stands below the negations at the root of a formula, and whether it is to be taken
positively if the formula is. -/
def belowNegations (positive : Bool) : Formula → Formula × Bool
  | neg t => belowNegations (!positive) t
  | t => (t, positive)

theorem size_belowNegations_le (positive : Bool) (t : Formula) :
    (belowNegations positive t).1.size ≤ t.size := by
  induction t generalizing positive with
  | neg t ih =>
    have := ih (!positive)
    rw [belowNegations, size_neg]
    omega
  | _ => simp [belowNegations]

/-- **The normal form of a formula**, or of its negation if it is not to be taken positively, with
the records of the distributions in the order in which they are made. -/
def normalForm (dropUnits positive : Bool) : Formula → Logged Formula
  | const b => .silent (const (b == positive))
  | var name => .silent (if positive then var name else neg (var name))
  | neg t =>
    normalForm dropUnits (belowNegations (!positive) t).2 (belowNegations (!positive) t).1
  | join op ts =>
    (Logged.gather (ts.attach.map fun ⟨t, _⟩ => normalForm dropUnits positive t)).bind
      (joinNormal dropUnits (if positive then op else op.dual))
termination_by t => t.size
decreasing_by
  · have := size_belowNegations_le (!positive) t
    rw [size_neg]
    omega
  · have := size_le_totalSize (by assumption)
    rw [size_join]
    omega

@[simp] theorem normalForm_const (dropUnits positive b : Bool) :
    normalForm dropUnits positive (const b) = .silent (const (b == positive)) := by
  rw [normalForm]

@[simp] theorem normalForm_var (dropUnits positive : Bool) (name : String) :
    normalForm dropUnits positive (var name) =
      .silent (if positive then var name else neg (var name)) := by
  rw [normalForm]

theorem normalForm_neg (dropUnits positive : Bool) (t : Formula) :
    normalForm dropUnits positive (neg t) =
      normalForm dropUnits (belowNegations (!positive) t).2 (belowNegations (!positive) t).1 := by
  rw [normalForm]

/-- The normal form of a formula is that of what stands below its negations. -/
theorem normalForm_belowNegations (dropUnits positive : Bool) (t : Formula) :
    normalForm dropUnits (belowNegations positive t).2 (belowNegations positive t).1 =
      normalForm dropUnits positive t := by
  cases t with
  | neg t => rw [belowNegations, normalForm_neg]
  | _ => rfl

/-- One negation is dealt with by turning the sign around. -/
theorem normalForm_neg_eq (dropUnits positive : Bool) (t : Formula) :
    normalForm dropUnits positive (neg t) = normalForm dropUnits (!positive) t := by
  rw [normalForm_neg, normalForm_belowNegations]

theorem normalForm_join (dropUnits positive : Bool) (op : Connective) (ts : List Formula) :
    normalForm dropUnits positive (join op ts) =
      (Logged.gather (ts.map (normalForm dropUnits positive))).bind
        (joinNormal dropUnits (if positive then op else op.dual)) := by
  rw [normalForm]
  simp only [List.map_attach_eq_pmap, List.pmap_eq_map]

/-- **A disjunctive normal form of a formula**, with the records of the distributions. -/
def normalizeLogged (dropUnits : Bool) (t : Formula) : Logged Formula :=
  normalForm dropUnits true t

/-- **A disjunctive normal form of a formula.** -/
def normalize (dropUnits : Bool) (t : Formula) : Formula :=
  (normalizeLogged dropUnits t).value

end Propositional.Formula
