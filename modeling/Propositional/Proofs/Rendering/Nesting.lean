import Propositional.Proofs.Grammar.Counting
import Propositional.Proofs.Rendering.Spelling

/-!
# What a text says and how its formula is written

A text and the rendering of the formula that it spells say the same in two ways, and three things
can be told of the second from the first. The formula is flat, because chains are combined
(`Propositional.Spells.isFlat`). Its variables are the names in the text, in the same order and as
often (`Propositional.Spells.occurrences`). And its rendering nests no deeper than the text
(`Propositional.Spells.nestsWithin`): a rendering puts parentheses only where the text must have had
some.

The last one is an induction over the derivation, in which each phrase has to answer for the
parentheses that its formula would need in place of the phrase
(`Propositional.Phrase.needsParens`). Chains are the case to look at, since combining takes operands
apart and may leave a single one; what saves the count is that a formula reads in a chain as its
operands do, whether it is taken apart or not
(`Propositional.Formula.wrapped_terminals_eq_chained`).
-/

namespace Propositional

open Formula

/-! ### The formula of a text -/

/-- **What is spelled is flat.** -/
theorem Spells.isFlat {count : Nat → Nat} {p : Phrase} {ws : List Terminal} {t : Formula}
    (h : Spells count p ws t) : t.isFlat = true := by
  induction h with
  | const b => exact isFlat_const b
  | name v => exact isFlat_var v
  | group h ih => exact ih
  | negations n h ih => rwa [isFlat_negated]
  | chain op hne h ih =>
    refine isFlat_combine fun t ht => ?_
    obtain ⟨part, hp, rfl⟩ := List.mem_map.mp ht
    exact ih part hp

/-- The name that a terminal is, if it is one. -/
def Terminal.name? : Terminal → Option String
  | name text => some text
  | _ => none

/-- The names in a chain are those in its parts. -/
theorem filterMap_name?_chained (op : Connective) (wss : List (List Terminal)) :
    (chained op wss).filterMap Terminal.name? = wss.flatMap (List.filterMap Terminal.name?) := by
  match wss with
  | [] => rfl
  | [ws] => simp
  | ws :: vs :: wss =>
    have ih := filterMap_name?_chained op (vs :: wss)
    rw [chained_cons_cons, List.filterMap_append, List.filterMap_cons_none rfl, ih]
    rfl

/-- Combining keeps the occurrences of variables and their order. -/
theorem Formula.occurrences_combine (op : Connective) (ts : List Formula) :
    (combine op ts).occurrences = ts.flatMap occurrences :=
  apply_combine (occurrences_join op) (occurrences_const _) ts

theorem Formula.occurrences_negated (n : Nat) (t : Formula) :
    (t.negated n).occurrences = t.occurrences := by
  induction n with
  | zero => rfl
  | succ n ih => rw [negated_succ, occurrences_neg, ih]

/-- **The names in a text** are the occurrences of the variables in the formula that it spells. -/
theorem Spells.occurrences {count : Nat → Nat} {p : Phrase} {ws : List Terminal} {t : Formula}
    (h : Spells count p ws t) : t.occurrences = ws.filterMap Terminal.name? := by
  induction h with
  | const b => exact occurrences_const b
  | name v => exact occurrences_var v
  | group h ih =>
    rw [ih, grouped, List.cons_append, List.filterMap_cons_none rfl, List.filterMap_append]
    exact (List.append_nil _).symm
  | negations n h ih =>
    rw [occurrences_negated, ih, List.filterMap_append, List.filterMap_replicate_of_none rfl,
      List.nil_append]
  | @chain op parts hne h ih =>
    rw [occurrences_combine, filterMap_name?_chained, List.flatMap_map, List.flatMap_map]
    exact List.flatMap_congr ih

/-! ### What is combined reads as its parts -/

/-- A chain of chains is one chain. -/
theorem chained_flatMap {α : Type} (op : Connective) {f : α → List (List Terminal)} {xs : List α}
    (h : ∀ x ∈ xs, f x ≠ []) :
    chained op (xs.flatMap f) = chained op (xs.map fun x => chained op (f x)) := by
  match xs, h with
  | [], _ => rfl
  | [x], _ => simp
  | x :: y :: xs, h =>
    obtain ⟨hx, hrest⟩ := List.forall_mem_cons.mp h
    have ih := chained_flatMap op hrest
    have hne : (y :: xs).flatMap f ≠ [] := by
      rw [List.flatMap_cons]
      exact List.append_ne_nil_of_left_ne_nil (hrest y List.mem_cons_self) _
    rw [List.flatMap_cons, chained_append op hx hne, ih]
    exact (chained_cons_cons op _ _ _).symm

namespace Formula

variable {op : Connective} {t : Formula} {ts : List Formula}

/-- **Negations are written in front of what is negated.** -/
theorem parenthesized_pieces_negated (n : Nat) (t : Formula) :
    parenthesized (t.negated n).needsParensNegated (t.negated n).pieces =
      List.replicate n (signPiece .negation '!') ++
        parenthesized t.needsParensNegated t.pieces := by
  induction n with
  | zero => rfl
  | succ n ih =>
    have hneeded : (neg (t.negated n)).needsParensNegated = false := rfl
    rw [negated_succ, hneeded, pieces, ih]
    rfl

theorem wrapped_terminals_negated (n : Nat) (t : Formula) :
    wrapped (t.negated n).needsParensNegated (t.negated n).terminals =
      List.replicate n .negation ++ wrapped t.needsParensNegated t.terminals := by
  have hsign : (signPiece .negation '!').terminal? = some .negation := rfl
  rw [terminals, ← filterMap_parenthesized, parenthesized_pieces_negated, List.filterMap_append,
    List.filterMap_replicate_of_some hsign, filterMap_parenthesized]
  rfl

/-- **A formula reads in a chain as its operands do**, whether it is taken apart into them or
not. -/
theorem wrapped_terminals_eq_chained (op : Connective) (t : Formula) :
    wrapped (t.needsParensIn op) t.terminals =
      chained op ((operands op t).map fun u => wrapped (u.needsParensIn op) u.terminals) := by
  cases hj : t.isJoin op with
  | false => rw [operands_eq_singleton hj, List.map_singleton, chained_singleton]
  | true =>
    obtain ⟨us, rfl⟩ := exists_eq_join hj
    have hneeded : needsParensIn op (join op us) = false := by cases op <;> rfl
    rw [hneeded, operands_join_self, ← terminals_join]
    rfl

/-- **What is combined reads in a chain as the terms do** one after the other. -/
theorem wrapped_terminals_combine (hne : ts ≠ []) (hflat : ∀ t ∈ ts, t.isFlat = true) :
    wrapped ((combine op ts).needsParensIn op) (combine op ts).terminals =
      chained op (ts.map fun t => wrapped (t.needsParensIn op) t.terminals) := by
  have hoperands : ∀ t ∈ ts,
      (operands op t).map (fun u => wrapped (u.needsParensIn op) u.terminals) ≠ [] :=
    fun t ht => List.map_eq_nil_iff.not.mpr (operands_ne_nil (hflat t ht))
  rw [wrapped_terminals_eq_chained, operands_combine hne hflat, splice, List.map_flatMap,
    chained_flatMap op hoperands]
  simp only [← wrapped_terminals_eq_chained]

end Formula

/-! ### Parentheses that are needed or not -/

/-- A text that nests within a limit nests within a greater one. -/
theorem NestsWithin.mono {limit more : Int} {changes : List Int} (h : NestsWithin limit changes)
    (hle : limit ≤ more) : NestsWithin more changes :=
  fun before hb => Int.le_trans (h before hb) hle

namespace Formula

variable {limit : Int} {op : Connective} {t : Formula} {ts : List Formula}

/-- Parentheses close the group that they open. -/
theorem sum_opening_wrapped (needed : Bool) (ws : List Terminal) :
    ((wrapped needed ws).map Terminal.opening).sum = (ws.map Terminal.opening).sum := by
  cases needed with
  | false => rfl
  | true => simp [wrapped, grouped]

/-- A rendering closes all groups that it opens. -/
theorem sum_opening_terminals (t : Formula) : (t.terminals.map Terminal.opening).sum = 0 := by
  induction t with
  | const b => simp
  | var name => simp
  | neg t ih =>
    rw [terminals_neg, List.map_cons, List.sum_cons, sum_opening_wrapped, ih]
    rfl
  | join op ts ih =>
    rw [terminals_join]
    by_cases hne : ts = []
    · rw [hne]
      rfl
    -- a connective neither opens nor closes anything
    have hsum := sum_map_chained Terminal.opening op
      (by simpa using hne : ts.map (fun t => wrapped (t.needsParensIn op) t.terminals) ≠ [])
    have hzero : (ts.map fun t => wrapped (t.needsParensIn op) t.terminals).map
        (fun ws => (ws.map Terminal.opening).sum + Terminal.opening (.connective op)) =
          ts.map fun _ => 0 := by
      rw [List.map_map]
      refine List.map_congr_left fun t ht => ?_
      rw [Function.comp_apply, sum_opening_wrapped, ih t ht, Terminal.opening_connective]
      rfl
    rw [hzero, Terminal.opening_connective] at hsum
    simpa using hsum

/-- How deep a formula nests that is written in parentheses if need be. -/
def NestsWrapped (limit : Int) (needed : Bool) (t : Formula) : Prop :=
  NestsWithin limit ((wrapped needed t.terminals).map Terminal.opening)

theorem nestsWrapped_true :
    NestsWrapped limit true t ↔ NestsWithin (limit - 1) (t.terminals.map Terminal.opening) :=
  nestsWithin_group (sum_opening_terminals t)

/-- Parentheses that are left out do no harm. -/
theorem NestsWrapped.imp {needed less : Bool} (h : NestsWrapped limit needed t)
    (himp : less = true → needed = true) : NestsWrapped limit less t := by
  cases less with
  | true => rwa [himp rfl] at h
  | false =>
    cases needed with
    | false => exact h
    | true => exact (nestsWrapped_true.mp h).mono (by omega)

/-- What is combined nests in a chain as deep as the terms do there. -/
theorem nestsWithin_combine_iff (hne : ts ≠ []) (hflat : ∀ t ∈ ts, t.isFlat = true) :
    NestsWrapped limit ((combine op ts).needsParensIn op) (combine op ts) ↔
      ∀ t ∈ ts, NestsWrapped limit (t.needsParensIn op) t := by
  have hwords : ts.map (fun t => wrapped (t.needsParensIn op) t.terminals) ≠ [] :=
    List.map_eq_nil_iff.not.mpr hne
  rw [NestsWrapped, wrapped_terminals_combine hne hflat, nestsWithin_chained limit op hwords,
    List.forall_mem_map]
  · exact Iff.rfl
  · rw [List.forall_mem_map]
    intro t _
    rw [sum_opening_wrapped, sum_opening_terminals]

end Formula

/-! ### A rendering nests no deeper than the text -/

/-- Whether a formula needs parentheses in the place of a phrase. -/
def Phrase.needsParens : Phrase → Formula → Bool
  | .chain op, t => t.needsParensIn op
  | .negation, t => t.needsParensNegated
  | .atom, t => t.needsParensNegated

/-- Where a formula needs parentheses in a chain, it needs them as an operand of the chain. -/
theorem Phrase.needsParens_operand {op : Connective} {t : Formula}
    (h : t.needsParensIn op = true) : (Phrase.operand op).needsParens t = true := by
  cases op with
  | or => cases h
  | and =>
    have hj : t.isJoin .or = true := h
    rw [Phrase.operand, needsParens, needsParensNegated, hj, Bool.true_or]

/-- **What a text spells nests no deeper than the text** when it is written in its place, with the
parentheses that it needs there. -/
theorem Spells.nestsWrapped {count : Nat → Nat} {limit : Int} {p : Phrase} {ws : List Terminal}
    {t : Formula} (h : Spells count p ws t)
    (hnests : NestsWithin limit (ws.map Terminal.opening)) :
    NestsWrapped limit (p.needsParens t) t := by
  induction h generalizing limit with
  | const b =>
    have hconst : NestsWithin limit ((Formula.const b).terminals.map Terminal.opening) := by
      rwa [terminals_const]
    exact hconst
  | name v =>
    have hvar : NestsWithin limit ((Formula.var v).terminals.map Terminal.opening) := by
      rwa [terminals_var]
    exact hvar
  | @group ws t h ih =>
    rw [nestsWithin_group h.sum_opening] at hnests
    -- the group of the text pays for the parentheses of the rendering, needed or not
    exact (nestsWrapped_true.mpr (ih hnests)).imp fun _ => rfl
  | negations n h ih =>
    rw [nestsWithin_run] at hnests
    rw [Phrase.needsParens, NestsWrapped, wrapped_terminals_negated, nestsWithin_run]
    exact ih hnests
  | @chain op parts hne h ih =>
    have hparts : ∀ ws ∈ parts.map Prod.fst, NestsWithin limit (ws.map Terminal.opening) := by
      rwa [← nestsWithin_chained limit op (by simpa using hne)
        (List.forall_mem_map.mpr fun part hp => (h part hp).sum_opening)]
    refine (nestsWithin_combine_iff (by simpa using hne) ?_).mpr ?_
    · rw [List.forall_mem_map]
      exact fun part hp => (h part hp).isFlat
    · rw [List.forall_mem_map]
      intro part hp
      exact (ih part hp (hparts part.1 (List.mem_map_of_mem hp))).imp Phrase.needsParens_operand

/-- **The rendering of what a text spells nests no deeper than the text.** -/
theorem Spells.nestsWithin {count : Nat → Nat} {limit : Int} {ws : List Terminal} {t : Formula}
    (h : Spells count (.chain .or) ws t)
    (hnests : NestsWithin limit (ws.map Terminal.opening)) :
    NestsWithin limit (t.terminals.map Terminal.opening) :=
  h.nestsWrapped hnests

end Propositional
