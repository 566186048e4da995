import Mathlib.Data.List.Chain
import Mathlib.Data.List.Flatten
import Mathlib.Logic.Relation
import Propositional.Proofs.Formula.Flatness
import Propositional.Proofs.Formula.Parts

/-!
# Smaller formulas

One who looks for a small example of something starts with a large one and tries the formulas
directly below its root, then those below one of these, and so on. To *shrink* a formula is to go
from it to one of its children (`Propositional.Formula.Shrinks`), and this module says where one
gets in any number of steps.

The other side is a formula as a tree with addresses: an address is a list of numbers, one for each
level on the way down, and `Propositional.Formula.partAt?` looks up what stands there. It is defined
on the constructors and knows nothing of children. Steps and addresses agree one by one
(`Propositional.Formula.shrinks_iff_exists_partAt?`), and an address is taken apart at any place
(`Propositional.Formula.partAt?_append`); so the formulas that are reached are those at the
addresses below the root (`Propositional.Formula.transGen_shrinks_iff`). They are also what stands
in the formula in the sense of `Propositional.Formula.Within`, the formula itself left out
(`Propositional.Formula.transGen_shrinks_iff_within`).

What a step does to a formula, it does again in the next one. It makes it smaller, keeps it flat and
brings in no variable, and therefore the same is true of any number of steps.
-/

namespace Propositional.Formula

variable {s t : Formula}

/-! ### Addresses -/

/-- **The part of a formula at an address**, if there is one. The root has the empty address; the
operand of a negation has the number `0`, and the terms of a join are numbered from `0`. -/
def partAt? : List Nat → Formula → Option Formula
  | [], t => some t
  | 0 :: path, neg t => partAt? path t
  | i :: path, join _ ts => ts[i]?.bind (partAt? path)
  | _ :: _, _ => none

@[simp] theorem partAt?_nil (t : Formula) : partAt? [] t = some t := by
  rw [partAt?]

@[simp] theorem partAt?_join (op : Connective) (ts : List Formula) (i : Nat) (path : List Nat) :
    partAt? (i :: path) (join op ts) = ts[i]?.bind (partAt? path) := by
  cases i <;> rw [partAt?]

/-- The first number of an address leads to where the others start. -/
theorem partAt?_cons (i : Nat) (path : List Nat) (t : Formula) :
    partAt? (i :: path) t = (partAt? [i] t).bind (partAt? path) := by
  cases t with
  | const b => simp [partAt?]
  | var name => simp [partAt?]
  | neg t => cases i <;> simp [partAt?]
  | join op ts =>
    rw [partAt?_join, partAt?_join]
    cases ts[i]? <;> simp

/-- **An address is followed in two parts**, the second from where the first leads. -/
theorem partAt?_append (p q : List Nat) (t : Formula) :
    partAt? (p ++ q) t = (partAt? p t).bind (partAt? q) := by
  induction p generalizing t with
  | nil => simp
  | cons i p ih =>
    rw [List.cons_append, partAt?_cons, partAt?_cons i p, Option.bind_assoc]
    exact Option.bind_congr fun u _ => ih u

/-! ### Steps -/

/-- **Shrinking** a formula in one step: going to a formula directly below its root. -/
def Shrinks (t s : Formula) : Prop :=
  s ∈ t.children

@[simp] theorem not_shrinks_const (b : Bool) : ¬Shrinks (const b) s := List.not_mem_nil

@[simp] theorem not_shrinks_var (name : String) : ¬Shrinks (var name) s := List.not_mem_nil

@[simp] theorem shrinks_neg : Shrinks (neg t) s ↔ s = t := List.mem_singleton

@[simp] theorem shrinks_join {op : Connective} {ts : List Formula} :
    Shrinks (join op ts) s ↔ s ∈ ts := Iff.rfl

/-- One step leads to the addresses of one number. -/
theorem shrinks_iff_exists_partAt? : Shrinks t s ↔ ∃ i, partAt? [i] t = some s := by
  cases t with
  | const b => simp [partAt?]
  | var name => simp [partAt?]
  | neg t =>
    rw [shrinks_neg]
    constructor
    · rintro rfl
      exact ⟨0, by simp [partAt?]⟩
    · rintro ⟨i, hi⟩
      cases i with
      | zero => simpa [partAt?, eq_comm] using hi
      | succ i => simp [partAt?] at hi
  | join op ts =>
    rw [shrinks_join, List.mem_iff_getElem?]
    refine exists_congr fun i => ?_
    rw [partAt?_join]
    cases ts[i]? <;> simp

/-- **A step makes a formula smaller.** -/
theorem Shrinks.size_lt (h : Shrinks t s) : s.size < t.size := by
  cases t with
  | const b => exact absurd h (not_shrinks_const b)
  | var name => exact absurd h (not_shrinks_var name)
  | neg t =>
    rw [shrinks_neg.mp h, size_neg]
    omega
  | join op ts =>
    have hle : s.size ≤ totalSize ts := size_le_totalSize (shrinks_join.mp h)
    rw [size_join]
    omega

/-- **A step keeps a formula flat.** -/
theorem Shrinks.isFlat (h : Shrinks t s) (hflat : t.isFlat = true) : s.isFlat = true := by
  cases t with
  | const b => exact absurd h (not_shrinks_const b)
  | var name => exact absurd h (not_shrinks_var name)
  | neg t => rwa [shrinks_neg.mp h, ← isFlat_neg]
  | join op ts => exact ((isFlat_join_iff.mp hflat).2 s (shrinks_join.mp h)).2

/-- The variables of what a step leads to stand together in the formula. -/
theorem Shrinks.occurrences_infix (h : Shrinks t s) : s.occurrences <:+: t.occurrences := by
  cases t with
  | const b => exact absurd h (not_shrinks_const b)
  | var name => exact absurd h (not_shrinks_var name)
  | neg t => simp [shrinks_neg.mp h]
  | join op ts =>
    rw [occurrences_join, List.flatMap_def]
    exact List.infix_of_mem_flatten (List.mem_map_of_mem (shrinks_join.mp h))

/-! ### Any number of steps -/

/-- **The formulas that are reached** are those at the addresses below the root. -/
theorem transGen_shrinks_iff :
    Relation.TransGen Shrinks t s ↔ ∃ path, path ≠ [] ∧ partAt? path t = some s := by
  constructor
  · intro h
    induction h with
    | single h =>
      obtain ⟨i, hi⟩ := shrinks_iff_exists_partAt?.mp h
      exact ⟨[i], List.cons_ne_nil i [], hi⟩
    | tail _ h ih =>
      obtain ⟨path, -, hpath⟩ := ih
      obtain ⟨i, hi⟩ := shrinks_iff_exists_partAt?.mp h
      exact ⟨path ++ [i], by simp, by rw [partAt?_append, hpath, Option.bind_some, hi]⟩
  · -- along the address, one step for each number
    rintro ⟨path, hne, hpath⟩
    induction path generalizing t with
    | nil => exact absurd rfl hne
    | cons i path ih =>
      rw [partAt?_cons, Option.bind_eq_some_iff] at hpath
      obtain ⟨u, hu, hpath⟩ := hpath
      have hstep : Shrinks t u := shrinks_iff_exists_partAt?.mpr ⟨i, hu⟩
      by_cases hend : path = []
      · rw [hend, partAt?_nil, Option.some.injEq] at hpath
        exact hpath ▸ .single hstep
      · exact .head hstep (ih hend hpath)

/-- What stands in a formula is the formula itself or reached by shrinking it. -/
theorem within_iff_eq_or_transGen : Within s t ↔ s = t ∨ Relation.TransGen Shrinks t s := by
  constructor
  · intro h
    induction h with
    | refl => exact .inl rfl
    | child _ hu ih =>
      rcases ih with rfl | hreached
      · exact .inr (.single hu)
      · exact .inr (.head hu hreached)
  · rintro (rfl | h)
    · exact .refl s
    · induction h using Relation.TransGen.head_induction_on with
      | single h => exact .child (.refl s) h
      | head h _ ih => exact .child ih h

theorem size_lt_of_transGen (h : Relation.TransGen Shrinks t s) : s.size < t.size := by
  induction h with
  | single h => exact h.size_lt
  | tail _ h ih => exact h.size_lt.trans ih

/-- **Nothing that stands in a formula is left out** but the formula itself, which is never reached
again. -/
theorem transGen_shrinks_iff_within : Relation.TransGen Shrinks t s ↔ Within s t ∧ s ≠ t := by
  rw [within_iff_eq_or_transGen]
  constructor
  · intro h
    refine ⟨.inr h, ?_⟩
    rintro rfl
    exact Nat.lt_irrefl _ (size_lt_of_transGen h)
  · rintro ⟨h, hne⟩
    exact h.resolve_left hne

theorem isFlat_of_transGen (h : Relation.TransGen Shrinks t s) (hflat : t.isFlat = true) :
    s.isFlat = true := by
  induction h with
  | single h => exact h.isFlat hflat
  | tail _ h ih => exact h.isFlat ih

theorem occurrences_infix_of_transGen (h : Relation.TransGen Shrinks t s) :
    s.occurrences <:+: t.occurrences := by
  induction h with
  | single h => exact h.occurrences_infix
  | tail _ h ih => exact h.occurrences_infix.trans ih

/-- **Shrinking stops**: a chain of steps is shorter than the formula it starts from is large. -/
theorem length_lt_size_of_isChain {us : List Formula} (h : (t :: us).IsChain Shrinks) :
    us.length < t.size := by
  induction us generalizing t with
  | nil => exact size_pos t
  | cons u us ih =>
    obtain ⟨hstep, hchain⟩ := List.isChain_cons_cons.mp h
    have hlt := hstep.size_lt
    have hlength := ih hchain
    rw [List.length_cons]
    omega

/-- **Shrinking reaches the parts of a formula and stops.** In one step or more one gets exactly to
what stands at the addresses below the root, that is, to all that stands in the formula but the
formula itself. Every step makes the formula smaller, so that a chain of steps from it has fewer
steps than the formula has nodes; and whatever is reached is smaller, is flat if the formula is, and
has no other variables. -/
theorem shrinks_to_parts (t : Formula) :
    (∀ s, Relation.TransGen Shrinks t s ↔ ∃ path, path ≠ [] ∧ partAt? path t = some s) ∧
    (∀ s, Relation.TransGen Shrinks t s ↔ Within s t ∧ s ≠ t) ∧
    (∀ u s : Formula, Shrinks u s → s.size < u.size) ∧
    (∀ us : List Formula, (t :: us).IsChain Shrinks → us.length < t.size) ∧
    ∀ s, Relation.TransGen Shrinks t s →
      s.size < t.size ∧ (t.isFlat = true → s.isFlat = true) ∧ ∀ name ∈ s.names, name ∈ t.names := by
  refine ⟨fun s => transGen_shrinks_iff, fun s => transGen_shrinks_iff_within,
    fun u s => Shrinks.size_lt, fun us => length_lt_size_of_isChain,
    fun s h => ⟨size_lt_of_transGen h, isFlat_of_transGen h, fun name hname => ?_⟩⟩
  rw [mem_names] at hname ⊢
  exact (occurrences_infix_of_transGen h).subset hname

/-- Three steps to a variable that stands in the formula twice. -/
theorem shrinks_to_parts_of_depth_three :
    let t := join .or [neg (join .and [var "a", var "b"]), var "b"]
    Relation.TransGen Shrinks t (var "b") ∧
    (var "b").size < (neg (var "b")).size ∧
    [neg (join .and [var "a", var "b"]), join .and [var "a", var "b"], var "b"].length < t.size ∧
    (join .and [var "a", var "b"]).isFlat = true ∧ "a" ∈ t.names := by
  intro t
  obtain ⟨hparts, -, hstep, hchain, hkept⟩ := shrinks_to_parts t
  have hjoin : Relation.TransGen Shrinks t (join .and [var "a", var "b"]) :=
    (hparts _).mpr ⟨[0, 0], by simp, rfl⟩
  obtain ⟨-, hflat, hnames⟩ := hkept _ hjoin
  refine ⟨(hparts (var "b")).mpr ⟨[0, 0, 1], by simp, rfl⟩,
    hstep _ _ (by simp), hchain _ (by simp [t]),
    hflat (by simp [t, isJoin]), hnames "a" (by simp)⟩

end Propositional.Formula
