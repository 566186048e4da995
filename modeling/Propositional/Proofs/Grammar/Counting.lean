import Mathlib.Algebra.GroupWithZero.Nat
import Mathlib.Algebra.Order.BigOperators.Group.List
import Mathlib.Algebra.Order.Group.Nat
import Mathlib.Tactic.Choose
import Propositional.Proofs.Formula.Flatness
import Propositional.Proofs.Grammar.Derivation

/-!
# Runs of negations

In the documented grammar each `!` is one negation. The reader counts the `!` in front of an atom
with 32 bits and a sign, and from `2 ^ 31` of them on the count is wrong
(`Propositional.Level.counted`). What has to be arranged is to say how far the two agree, without
saying everything about the grammar twice; so the grammar has its way of counting as a parameter,
and this file says what becomes of a derivation when the parameter changes.

* Whether a text spells something at all does not depend on it (`Propositional.Spells.recounted`).
* What it spells depends only on the lengths of the runs of `!` that are found in it
  (`Propositional.Spells.congr`). So where all of them are short (`Propositional.ShortRuns`), the
  reader's way of counting and the documented one come to the same.
* Where one of them is not short they never come to the same
  (`Propositional.Spells.spells_id_iff`), for a formula that is spelled with as many negations as
  there are `!` in the text has no run that was miscounted.
-/

namespace Propositional

open Formula

/-! ### Counting with 32 bits -/

namespace Level

/-- **For how many negations a run of `!` counts** in the reader, by its length: a signed number of
32 bits is counted up, and what is below zero counts for none. -/
def counted (n : Nat) : Nat :=
  (Int32.ofNat n).toNatClampNeg

theorem counted_eq_toNat_bmod (n : Nat) : counted n = ((n : Int).bmod Int32.size).toNat := by
  rw [counted, Int32.toNatClampNeg, Int32.toInt_ofNat']

theorem counted_le (n : Nat) : counted n ≤ n := by
  rw [counted_eq_toNat_bmod, Int.bmod_def, Int32.size]
  omega

/-- **A run is counted right if it is short**, and only then. -/
theorem counted_eq_self_iff {n : Nat} : counted n = n ↔ n < 2 ^ 31 := by
  rw [counted_eq_toNat_bmod, Int.bmod_def, Int32.size]
  omega

/-- The runs that come next in length leave no negation at all. -/
theorem counted_eq_zero {n : Nat} (hle : 2 ^ 31 ≤ n) (hlt : n < 2 ^ 32) : counted n = 0 := by
  rw [counted_eq_toNat_bmod, Int.bmod_def, Int32.size]
  omega

end Level

/-! ### Runs in a text -/

/-- **All runs of `!` are short**, that is, short enough to be counted right. -/
def ShortRuns (ws : List Terminal) : Prop :=
  ∀ n, List.replicate n .negation <:+: ws → n < 2 ^ 31

/-- A run is no longer than the text. -/
theorem shortRuns_of_length_lt {ws : List Terminal} (h : ws.length < 2 ^ 31) : ShortRuns ws := by
  intro n hn
  have hle := hn.length_le
  rw [List.length_replicate] at hle
  exact Nat.lt_of_le_of_lt hle h

/-- What does not contain a certain member stands on the one side of it or on the other. -/
theorem infix_append_cons_of_notMem {α : Type} {xs ys zs : List α} {x : α} (hx : x ∉ xs)
    (h : xs <:+: ys ++ x :: zs) : xs <:+: ys ∨ xs <:+: zs := by
  rcases List.infix_append_iff.mp h with hys | hzs | ⟨ls, rs, rfl, hls, hrs⟩
  · exact .inl hys
  · rcases List.infix_cons_iff.mp hzs with hprefix | hzs
    · cases xs with
      | nil => exact .inr List.nil_infix
      | cons y xs =>
        obtain rfl := (List.cons_prefix_cons.mp hprefix).1
        exact absurd List.mem_cons_self hx
    · exact .inr hzs
  · cases rs with
    | nil =>
      rw [List.append_nil]
      exact .inl hls.isInfix
    | cons y rs =>
      obtain rfl := (List.cons_prefix_cons.mp hrs).1
      exact absurd (by simp) hx

/-- A run stands on the one side or on the other of what is not a `!`. -/
theorem run_infix_append_cons {n : Nat} {w : Terminal} {vs ws : List Terminal}
    (hw : w ≠ .negation) (h : List.replicate n .negation <:+: vs ++ w :: ws) :
    List.replicate n .negation <:+: vs ∨ List.replicate n .negation <:+: ws :=
  infix_append_cons_of_notMem (fun hmem => hw (List.eq_of_mem_replicate hmem)) h

/-- **Runs in a chain are runs in its operands.** -/
theorem run_infix_chained {n : Nat} {op : Connective} {wss : List (List Terminal)}
    (hne : wss ≠ []) (h : List.replicate n .negation <:+: chained op wss) :
    ∃ ws ∈ wss, List.replicate n .negation <:+: ws := by
  match wss, hne with
  | [ws], _ => exact ⟨ws, List.mem_singleton_self ws, by simpa using h⟩
  | ws :: vs :: wss, _ =>
    rw [chained_cons_cons] at h
    rcases run_infix_append_cons (by nofun) h with hws | hrest
    · exact ⟨ws, List.mem_cons_self, hws⟩
    · obtain ⟨us, hus, hn⟩ := run_infix_chained (List.cons_ne_nil vs wss) hrest
      exact ⟨us, List.mem_cons_of_mem ws hus, hn⟩

/-- Runs in a group are runs in what stands between its parentheses. -/
theorem run_infix_grouped {n : Nat} {ws : List Terminal}
    (h : List.replicate n .negation <:+: grouped ws) : List.replicate n .negation <:+: ws := by
  have hgroup : List.replicate n .negation <:+: [] ++ .leftParen :: (ws ++ [.rightParen]) := h
  rcases run_infix_append_cons (by nofun) hgroup with hnil | h
  · exact hnil.trans List.nil_infix
  · rcases run_infix_append_cons (by nofun) h with h | hnil
    · exact h
    · exact hnil.trans List.nil_infix

/-- What stands between parentheses is found in the group. -/
theorem infix_grouped (ws : List Terminal) : ws <:+: grouped ws :=
  ⟨[.leftParen], [.rightParen], rfl⟩

/-- The operands of a chain are found in it. -/
theorem infix_chained {op : Connective} {wss : List (List Terminal)} {ws : List Terminal}
    (h : ws ∈ wss) : ws <:+: chained op wss := by
  match wss, h with
  | [vs], h =>
    obtain rfl : ws = vs := List.mem_singleton.mp h
    exact ⟨[], [], by simp [chained_singleton]⟩
  | vs :: us :: wss, h =>
    rw [chained_cons_cons]
    rcases List.mem_cons.mp h with rfl | hrest
    · exact List.infix_append' [] ws _
    · have ih : ws <:+: chained op (us :: wss) := infix_chained hrest
      exact ih.trans ⟨vs ++ [.connective op], [], by simp⟩

/-! ### Another way of counting -/

namespace Spells

variable {count count' : Nat → Nat} {p : Phrase} {ws : List Terminal} {t : Formula}

/-- **What a text spells depends on how its runs are counted** and not on how others would be. -/
theorem congr (h : Spells count p ws t)
    (hcount : ∀ n, List.replicate n .negation <:+: ws → count n = count' n) :
    Spells count' p ws t := by
  induction h with
  | const b => exact .const b
  | name v => exact .name v
  | group h ih => exact .group (ih fun n hn => hcount n (hn.trans (infix_grouped _)))
  | @negations n ws t h ih =>
    rw [hcount n (List.infix_append' [] _ _)]
    exact .negations n (ih fun m hm => hcount m (hm.trans (List.suffix_append _ _).isInfix))
  | chain op hne h ih =>
    exact .chain op hne fun part hp =>
      ih part hp fun n hn => hcount n (hn.trans (infix_chained (List.mem_map_of_mem hp)))

/-- **Whether a text spells anything** does not depend on how its runs are counted. -/
theorem recounted (count' : Nat → Nat) (h : Spells count p ws t) : ∃ u, Spells count' p ws u := by
  induction h with
  | const b => exact ⟨_, .const b⟩
  | name v => exact ⟨_, .name v⟩
  | group h ih =>
    obtain ⟨u, hu⟩ := ih
    exact ⟨u, .group hu⟩
  | negations n h ih =>
    obtain ⟨u, hu⟩ := ih
    exact ⟨_, .negations n hu⟩
  | @chain op parts hne h ih =>
    choose! read hread using ih
    have hne' : parts.map (fun part => (part.1, read part)) ≠ [] := by simpa using hne
    have hchain := Spells.chain op hne' (List.forall_mem_map.mpr hread)
    rw [List.map_map] at hchain
    exact ⟨_, hchain⟩

/-- Where runs are short, the reader's way of counting makes no difference. -/
theorem counted_iff (hshort : ShortRuns ws) :
    Spells Level.counted p ws t ↔ Spells id p ws t := by
  have hcount : ∀ n, List.replicate n .negation <:+: ws → Level.counted n = n :=
    fun n hn => Level.counted_eq_self_iff.mpr (hshort n hn)
  exact ⟨fun h => h.congr hcount, fun h => h.congr fun n hn => (hcount n hn).symm⟩

end Spells

/-! ### Expressions of one operand -/

theorem Formula.isFlat_negated (n : Nat) (t : Formula) : (t.negated n).isFlat = t.isFlat := by
  induction n with
  | zero => rfl
  | succ n ih => rw [negated_succ, isFlat_neg, ih]

namespace Spells

variable {count : Nat → Nat} {op : Connective} {ws : List Terminal} {t : Formula}

/-- A chain may have a single operand. -/
theorem single (h : Spells count (.operand op) ws t) (hflat : t.isFlat = true) :
    Spells count (.chain op) ws t := by
  have hchain := Spells.chain op (List.cons_ne_nil (ws, t) []) (List.forall_mem_singleton.mpr h)
  rwa [List.map_singleton, chained_singleton, List.map_singleton, combine, splice_cons, splice_nil,
    List.append_nil, collapse_operands hflat] at hchain

/-- **One run of `!` and an atom** are an expression. -/
theorem run (n : Nat) (h : Spells count .atom ws t) (hflat : t.isFlat = true) :
    Spells count (.chain .or) (List.replicate n .negation ++ ws) (t.negated (count n)) := by
  have hnegated : (t.negated (count n)).isFlat = true := by rwa [isFlat_negated]
  have hand : Spells count (.chain .and) _ _ := single (.negations n h) hnegated
  exact single hand hnegated

end Spells

/-! ### The number of negations -/

/-- The number of negations in a formula. -/
def Formula.negationCount : Formula → Nat :=
  fold {
    const := fun _ => 0
    var := fun _ => 0
    neg := (1 + ·)
    join := fun _ ns => ns.sum }

namespace Formula

variable {op : Connective} {t : Formula} {ts : List Formula}

@[simp] theorem negationCount_const (b : Bool) : negationCount (const b) = 0 := by
  simp [negationCount]

@[simp] theorem negationCount_var (name : String) : negationCount (var name) = 0 := by
  simp [negationCount]

@[simp] theorem negationCount_neg (t : Formula) :
    negationCount (neg t) = 1 + negationCount t := by
  simp [negationCount]

@[simp] theorem negationCount_join (op : Connective) (ts : List Formula) :
    negationCount (join op ts) = (ts.map negationCount).sum := by
  simp [negationCount]

theorem negationCount_negated (n : Nat) (t : Formula) :
    negationCount (t.negated n) = n + negationCount t := by
  induction n with
  | zero => simp
  | succ n ih =>
    rw [negated_succ, negationCount_neg, ih]
    omega

theorem ne_negated {n : Nat} (hn : n ≠ 0) (t : Formula) : t ≠ t.negated n := by
  intro h
  have hcount := congrArg negationCount h
  rw [negationCount_negated] at hcount
  omega

/-- A formula has the negations of its operands. -/
theorem sum_negationCount_operands (op : Connective) (t : Formula) :
    ((operands op t).map negationCount).sum = negationCount t := by
  cases hj : t.isJoin op with
  | false => simp [operands_eq_singleton hj]
  | true =>
    obtain ⟨us, rfl⟩ := exists_eq_join hj
    rw [operands_join_self, negationCount_join]

/-- Combining neither adds nor loses negations. -/
theorem negationCount_combine (op : Connective) (ts : List Formula) :
    negationCount (combine op ts) = (ts.map negationCount).sum := by
  have hcollapse (us : List Formula) : negationCount (collapse op us) =
      (us.map negationCount).sum := by
    match us with
    | [] => exact negationCount_const op.unit
    | [u] => simp [collapse]
    | u :: v :: us => exact negationCount_join op _
  rw [combine, hcollapse]
  induction ts with
  | nil => rfl
  | cons t ts ih =>
    rw [splice_cons, List.map_append, List.sum_append, ih, sum_negationCount_operands,
      List.map_cons, List.sum_cons]

end Formula

/-- The `!` in a chain are those in its operands. -/
theorem count_negation_chained (op : Connective) (wss : List (List Terminal)) :
    (chained op wss).count .negation = (wss.map (List.count .negation)).sum := by
  match wss with
  | [] => rfl
  | [ws] => simp
  | ws :: vs :: wss =>
    have ih := count_negation_chained op (vs :: wss)
    rw [chained_cons_cons, List.count_append, List.count_cons_of_ne (by nofun), ih]
    rfl

/-- The `!` in a group are those between its parentheses. -/
theorem count_negation_grouped (ws : List Terminal) :
    (grouped ws).count .negation = ws.count .negation := by
  simp [grouped]

/-- If no number of a list is greater than the one beside it and the sums are the same, then so are
the numbers. -/
theorem eq_of_sum_le {α : Type} {f g : α → Nat} {xs : List α} (hle : ∀ x ∈ xs, f x ≤ g x)
    (hsum : (xs.map g).sum ≤ (xs.map f).sum) : ∀ x ∈ xs, f x = g x := by
  induction xs with
  | nil => exact nofun
  | cons x xs ih =>
    obtain ⟨hx, hrest⟩ := List.forall_mem_cons.mp hle
    have hxs : (xs.map f).sum ≤ (xs.map g).sum := List.sum_le_sum hrest
    rw [List.map_cons, List.sum_cons, List.map_cons, List.sum_cons] at hsum
    exact List.forall_mem_cons.mpr ⟨by omega, ih hrest (by omega)⟩

namespace Spells

variable {count : Nat → Nat} {p : Phrase} {ws : List Terminal} {t : Formula}

/-- An atom does not begin with a `!`. -/
theorem exists_eq_cons (h : Spells count .atom ws t) : ∃ w vs, ws = w :: vs ∧ w ≠ .negation := by
  cases h with
  | const b => exact ⟨_, _, rfl, nofun⟩
  | name v => exact ⟨_, _, rfl, nofun⟩
  | group h => exact ⟨_, _, rfl, nofun⟩

/-- A formula has no more negations than its text has `!`, if no run counts for more. -/
theorem negationCount_le (hle : ∀ n, count n ≤ n) (h : Spells count p ws t) :
    t.negationCount ≤ ws.count .negation := by
  induction h with
  | const b => simp
  | name v => simp
  | group h ih => rwa [count_negation_grouped]
  | negations n h ih =>
    rw [negationCount_negated, List.count_append, List.count_replicate_self]
    exact Nat.add_le_add (hle n) ih
  | chain op hne h ih =>
    rw [negationCount_combine, count_negation_chained, List.map_map, List.map_map]
    exact List.sum_le_sum ih

/-- In the documented grammar it has as many. -/
theorem negationCount_eq (h : Spells id p ws t) : t.negationCount = ws.count .negation := by
  induction h with
  | const b => simp
  | name v => simp
  | group h ih => rwa [count_negation_grouped]
  | negations n h ih =>
    rw [negationCount_negated, List.count_append, List.count_replicate_self, ih, id]
  | chain op hne h ih =>
    rw [negationCount_combine, count_negation_chained, List.map_map, List.map_map]
    exact congrArg List.sum (List.map_congr_left ih)

/-- **If no negation is lost, all runs are short.** -/
theorem shortRuns (h : Spells Level.counted p ws t)
    (hall : ws.count .negation ≤ t.negationCount) : ShortRuns ws := by
  induction h with
  | const b => exact shortRuns_of_length_lt (by simp)
  | name v => exact shortRuns_of_length_lt (by simp)
  | group h ih =>
    rw [count_negation_grouped] at hall
    exact fun n hn => ih hall n (run_infix_grouped hn)
  | @negations n ws t h ih =>
    rw [negationCount_negated, List.count_append, List.count_replicate_self] at hall
    have hrun := Level.counted_le n
    have hatom := h.negationCount_le Level.counted_le
    have hn : n < 2 ^ 31 := Level.counted_eq_self_iff.mp (by omega)
    have hws : ShortRuns ws := ih (by omega)
    -- a run ends with the `!` in front of the atom, for the atom does not go on with another
    obtain ⟨w, vs, rfl, hw⟩ := h.exists_eq_cons
    intro m hm
    rcases run_infix_append_cons hw hm with hm | hm
    · have hle := hm.length_le
      rw [List.length_replicate, List.length_replicate] at hle
      exact Nat.lt_of_le_of_lt hle hn
    · exact hws m (hm.trans (List.suffix_cons w vs).isInfix)
  | @chain op parts hne h ih =>
    rw [negationCount_combine, count_negation_chained, List.map_map, List.map_map] at hall
    have hparts := eq_of_sum_le
      (fun part hp => (h part hp).negationCount_le Level.counted_le) hall
    intro n hn
    obtain ⟨ws, hws, hn⟩ := run_infix_chained (by simpa using hne) hn
    obtain ⟨part, hp, rfl⟩ := List.mem_map.mp hws
    exact ih part hp (hparts part hp).ge n hn

/-- **The reader counts as the documented grammar does** exactly where all runs are short. -/
theorem spells_id_iff (h : Spells Level.counted p ws t) : Spells id p ws t ↔ ShortRuns ws :=
  ⟨fun hid => h.shortRuns hid.negationCount_eq.ge, fun hshort => (counted_iff hshort).mp h⟩

end Spells

end Propositional
