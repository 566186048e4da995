import Propositional.Formula.Shape

/-!
# What stands in a formula

A shape asked of a formula is often asked of everything that stands in it: no disjunction *anywhere*
has the constant `T` among its terms. `Propositional.Formula.Within` says where anywhere is. The
lemmas beside it follow the constructors, so that a statement about all parts of a formula turns
into one about the formula and its children.
-/

namespace Propositional.Formula

/-- `Within s t` says that the formula `s` **stands in** the formula `t`: it is `t` itself or stands
in a formula directly below the root of `t`. -/
inductive Within : Formula → Formula → Prop
  /-- A formula stands in itself. -/
  | refl (t : Formula) : Within t t
  /-- What stands in a child of a formula stands in the formula. -/
  | child {s u t : Formula} : Within s u → u ∈ t.children → Within s t

theorem within_iff {s t : Formula} : Within s t ↔ s = t ∨ ∃ u ∈ t.children, Within s u := by
  constructor
  · intro h
    cases h with
    | refl => exact .inl rfl
    | child hsu hu => exact .inr ⟨_, hu, hsu⟩
  · rintro (rfl | ⟨u, hu, hsu⟩)
    · exact .refl _
    · exact .child hsu hu

@[simp] theorem within_const {s : Formula} {b : Bool} : Within s (const b) ↔ s = const b := by
  simp [within_iff (t := const b), children]

@[simp] theorem within_var {s : Formula} {name : String} :
    Within s (var name) ↔ s = var name := by
  simp [within_iff (t := var name), children]

@[simp] theorem within_neg {s t : Formula} : Within s (neg t) ↔ s = neg t ∨ Within s t := by
  simp [within_iff (t := neg t), children]

@[simp] theorem within_join {s : Formula} {op : Connective} {ts : List Formula} :
    Within s (join op ts) ↔ s = join op ts ∨ ∃ t ∈ ts, Within s t := by
  simp [within_iff (t := join op ts), children]

/-- No join stands in a literal. -/
theorem not_within_of_isLiteral {op : Connective} {ts : List Formula} {l : Formula}
    (h : l.isLiteral = true) : ¬Within (join op ts) l := by
  match l, h with
  | const b, _ => simp
  | var name, _ => simp
  | neg (var name), _ => simp

/-- A constant stands in a literal only as the whole of it. -/
theorem eq_const_of_within_isLiteral {b : Bool} {l : Formula} (h : l.isLiteral = true)
    (hw : Within (const b) l) : l = const b := by
  match l, h with
  | const c, _ => exact (within_const.mp hw).symm
  | var name, _ => simp at hw
  | neg (var name), _ => simp at hw

/-! ### Constants among the terms -/

/-- A list that holds a constant, as the operations on normal forms look for it. -/
theorem any_isConst_iff {b : Bool} {ts : List Formula} :
    ts.any (isConst b) = true ↔ const b ∈ ts := by
  rw [List.any_eq_true]
  constructor
  · rintro ⟨t, ht, hb⟩
    cases t with
    | const c => simpa [show b = c by simpa [isConst] using hb] using ht
    | _ => simp [isConst] at hb
  · exact fun h => ⟨const b, h, by simp [isConst]⟩

end Propositional.Formula
