import Propositional.Connective

/-!
# Propositional formulas

A formula is a constant, a variable, a negation, or the *join* of a list of formulas by a
connective. A join may have any number of terms, also none, one, or terms that are joins of the same
connective; the formulas one meets in practice have none of these and are called flat
(`Propositional.Formula.isFlat`).

Functions on formulas run through two types at once, formulas and lists of them. Most are values of
one *fold* (`Propositional.Formula.fold`), which says what becomes of each constructor, and the
lists are then `List.map`. Proofs use the induction principle `Propositional.Formula.induction`,
whose case for joins assumes the claim of every member of the list.
-/

namespace Propositional

/-- A propositional formula. -/
inductive Formula where
  /-- The constant `T` or `F` -/
  | const (value : Bool)
  /-- A variable, known by its name -/
  | var (name : String)
  /-- The negation of a formula -/
  | neg (operand : Formula)
  /-- The disjunction or conjunction of a list of formulas -/
  | join (op : Connective) (terms : List Formula)
  deriving Inhabited

namespace Formula

/-! ### Induction -/

/-- **Induction on formulas**: a claim holds of all formulas if it holds of constants and variables
and passes from an operand to its negation and from all terms to their join. -/
@[elab_as_elim, induction_eliminator]
theorem induction {motive : Formula → Prop} (const : ∀ b, motive (const b))
    (var : ∀ name, motive (var name)) (neg : ∀ t, motive t → motive (neg t))
    (join : ∀ op ts, (∀ t ∈ ts, motive t) → motive (join op ts)) (t : Formula) : motive t :=
  Formula.rec (motive_1 := motive) (motive_2 := fun ts => ∀ t ∈ ts, motive t)
    const var neg join (by simp) (fun _ _ ht hts => by simpa using ⟨ht, hts⟩) t

/-! ### Equality -/

mutual

/-- Whether two formulas are equal. -/
def beq : Formula → Formula → Bool
  | const a, const b => a == b
  | var v, var w => v == w
  | neg s, neg t => beq s t
  | join o ss, join p ts => o == p && beqList ss ts
  | _, _ => false

/-- Whether two lists of formulas are equal. -/
def beqList : List Formula → List Formula → Bool
  | [], [] => true
  | s :: ss, t :: ts => beq s t && beqList ss ts
  | _, _ => false

end

theorem beqList_eq_true_iff {ss : List Formula}
    (h : ∀ s ∈ ss, ∀ t, beq s t = true ↔ s = t) (ts : List Formula) :
    beqList ss ts = true ↔ ss = ts := by
  induction ss generalizing ts with
  | nil => cases ts <;> simp [beqList]
  | cons s ss ih =>
    cases ts with
    | nil => simp [beqList]
    | cons t ts => simp [beqList, h s (by simp), ih (fun u hu => h u (by simp [hu]))]

theorem beq_eq_true_iff (s t : Formula) : beq s t = true ↔ s = t := by
  induction s generalizing t with
  | const => cases t <;> simp [beq]
  | var => cases t <;> simp [beq]
  | neg s ih => cases t <;> simp [beq, ih]
  | join op ss ih => cases t <;> simp [beq, beqList_eq_true_iff ih]

instance : DecidableEq Formula := fun s t =>
  decidable_of_iff _ (beq_eq_true_iff s t)

/-! ### Folding -/

/-- **An interpretation** of the four constructors in a type: what a constant, a variable, a
negation and a join become once their parts have been interpreted. -/
structure Interpretation (α : Type) where
  /-- The value of a constant -/
  const : Bool → α
  /-- The value of a variable -/
  var : String → α
  /-- The value of a negation, from that of its operand -/
  neg : α → α
  /-- The value of a join, from those of its terms -/
  join : Connective → List α → α

section Fold

variable {α : Type} (I : Interpretation α)

mutual

/-- The value of a formula under an interpretation. -/
def fold : Formula → α
  | const b => I.const b
  | var name => I.var name
  | neg t => I.neg (fold t)
  | join op ts => I.join op (foldList ts)

/-- The values of a list of formulas under an interpretation. -/
def foldList : List Formula → List α
  | [] => []
  | t :: ts => fold t :: foldList ts

end

@[simp] theorem foldList_eq_map (ts : List Formula) : foldList I ts = ts.map (fold I) := by
  induction ts with
  | nil => rfl
  | cons t ts ih => simp [foldList, ih]

@[simp] theorem fold_const (b : Bool) : fold I (const b) = I.const b := by
  rw [fold]

@[simp] theorem fold_var (name : String) : fold I (var name) = I.var name := by
  rw [fold]

@[simp] theorem fold_neg (t : Formula) : fold I (neg t) = I.neg (fold I t) := by
  rw [fold]

@[simp] theorem fold_join (op : Connective) (ts : List Formula) :
    fold I (join op ts) = I.join op (ts.map (fold I)) := by
  rw [fold, foldList_eq_map]

end Fold

/-! ### Size, variables and parts -/

/-- The number of nodes of a formula. -/
def size : Formula → Nat :=
  fold {
    const := fun _ => 1
    var := fun _ => 1
    neg := (1 + ·)
    join := fun _ ns => 1 + ns.foldr (· + ·) 0 }

/-- The number of nodes in all members of a list. -/
def totalSize : List Formula → Nat
  | [] => 0
  | t :: ts => t.size + totalSize ts

@[simp] theorem totalSize_nil : totalSize [] = 0 := rfl

@[simp] theorem totalSize_cons (t : Formula) (ts : List Formula) :
    totalSize (t :: ts) = t.size + totalSize ts := rfl

@[simp] theorem totalSize_append (ss ts : List Formula) :
    totalSize (ss ++ ts) = totalSize ss + totalSize ts := by
  induction ss with
  | nil => simp
  | cons s ss ih => simp [ih, Nat.add_assoc]

@[simp] theorem size_const (b : Bool) : size (const b) = 1 := by simp [size]

@[simp] theorem size_var (name : String) : size (var name) = 1 := by simp [size]

@[simp] theorem size_neg (t : Formula) : size (neg t) = 1 + size t := by simp [size]

@[simp] theorem size_join (op : Connective) (ts : List Formula) :
    size (join op ts) = 1 + totalSize ts := by
  have hsum : (ts.map size).foldr (· + ·) 0 = totalSize ts := by
    induction ts with
    | nil => rfl
    | cons t ts ih => rw [List.map_cons, List.foldr_cons, ih, totalSize_cons]
  rw [← hsum]
  simp only [size, fold_join]

theorem size_pos (t : Formula) : 0 < size t := by
  cases t with
  | const | var => simp
  | neg | join => simp only [size_neg, size_join]; omega

theorem size_le_totalSize {t : Formula} {ts : List Formula} (h : t ∈ ts) :
    t.size ≤ totalSize ts := by
  induction ts with
  | nil => simp at h
  | cons s ts ih =>
    rcases List.mem_cons.1 h with rfl | h
    · simp
    · have := ih h
      simp only [totalSize_cons]
      omega

/-- The names of the variables of a formula, one for each place where a variable stands, from left
to right. -/
def occurrences : Formula → List String :=
  fold {
    const := fun _ => []
    var := fun name => [name]
    neg := id
    join := fun _ nss => nss.flatten }

@[simp] theorem occurrences_const (b : Bool) : occurrences (const b) = [] := by simp [occurrences]

@[simp] theorem occurrences_var (name : String) : occurrences (var name) = [name] := by
  simp [occurrences]

@[simp] theorem occurrences_neg (t : Formula) : occurrences (neg t) = occurrences t := by
  simp [occurrences]

@[simp] theorem occurrences_join (op : Connective) (ts : List Formula) :
    occurrences (join op ts) = ts.flatMap occurrences := by
  simp [occurrences, List.flatMap_def]

/-- The names of the variables of a formula, each once, in the order of their first occurrence. -/
def names (t : Formula) : List String :=
  t.occurrences.eraseDups

@[simp] theorem mem_names {t : Formula} {name : String} :
    name ∈ t.names ↔ name ∈ t.occurrences := by
  simp [names]

/-- The formulas directly below the root of a formula: the terms of a join, the operand of a
negation. They are the candidates for a smaller formula when one looks for a small example. -/
def children : Formula → List Formula
  | const _ => []
  | var _ => []
  | neg t => [t]
  | join _ ts => ts

/-- A formula behind a number of negations. -/
def negated (times : Nat) (t : Formula) : Formula :=
  times.repeat neg t

@[simp] theorem negated_zero (t : Formula) : negated 0 t = t := rfl

@[simp] theorem negated_succ (n : Nat) (t : Formula) : negated (n + 1) t = neg (negated n t) := rfl

end Formula

end Propositional
