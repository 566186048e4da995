import Propositional.Proofs.Evaluation.Joins
import Propositional.Proofs.Grammar.Acceptance
import Propositional.Proofs.Rendering.Nesting

/-!
# Reading what was rendered

A formula whose names are lexable can be read from its rendering, unless one of its joins has no
term or the rendering nests too deep. Where no run of `!` in the rendering is miscounted, what is
read is the formula built anew (`Propositional.Formula.parse_render`): the formula itself if it was
flat, and in any case one of the same meaning.

A run that is miscounted makes it another formula
(`Propositional.Formula.eq_rebuild_iff_of_parse_render`). What is read then can be written down for
a single run in front of an atom (`Propositional.Formula.parse_render_negated`).
-/

namespace Propositional

/-- Reading a text is cutting it into tokens and reading these. -/
theorem parse_eq_ok_iff {mode : LexMode} {text : String} {t : Formula} :
    parse mode text = .ok t ↔
      ∃ tokens, tokenize mode text = .ok tokens ∧ parseTokens tokens = .ok t := by
  unfold parse
  cases tokenize mode text with
  | error s => simp
  | ok tokens =>
    have hok : (parseTokens tokens).mapError Fault.grammatical = .ok t ↔
        parseTokens tokens = .ok t := by
      cases parseTokens tokens with
      | error e => exact ⟨nofun, nofun⟩
      | ok u => exact ⟨fun h => congrArg _ (Except.ok.inj h), fun h => congrArg _ (Except.ok.inj h)⟩
    simpa using hok

namespace Formula

section

variable {mode : LexMode} {t : Formula}

/-- A rendering nests as deep as what it says. -/
theorem nestsWithin_render_iff {limit : Int} (h : ∀ name ∈ t.occurrences, Lexable mode name) :
    NestsWithin limit (t.render.toList.map charOpening) ↔
      NestsWithin limit (t.terminals.map Terminal.opening) := by
  obtain ⟨tokens, htokens, hterminals⟩ := exists_tokenize_render h
  rw [← hterminals, map_opening_terminal, nestsWithin_of_tokenize htokens]

/-- **What is read from a rendering** is what its terminals spell, within the limit on nesting. -/
theorem parse_render_eq_ok_iff {u : Formula} (h : ∀ name ∈ t.occurrences, Lexable mode name) :
    parse mode t.render = .ok u ↔ Spells Level.counted (.chain .or) t.terminals u ∧
      NestsWithin nestingLimit (t.render.toList.map charOpening) := by
  obtain ⟨tokens, htokens, hterminals⟩ := exists_tokenize_render h
  rw [parse_eq_ok_iff, ← hterminals, ← nestsWithin_of_tokenize htokens]
  constructor
  · rintro ⟨tokens', htokens', hparse⟩
    obtain rfl : tokens = tokens' := Except.ok.inj (htokens.symm.trans htokens')
    exact parseTokens_eq_ok_iff_spells.mp hparse
  · exact fun hspells => ⟨tokens, htokens, parseTokens_eq_ok_iff_spells.mpr hspells⟩

/-- **Which renderings can be read**: those of formulas with a term in every join that do not nest
too deep. -/
theorem exists_parse_render (h : ∀ name ∈ t.occurrences, Lexable mode name) :
    (∃ u, parse mode t.render = .ok u) ↔
      t.HasTerms ∧ NestsWithin nestingLimit (t.render.toList.map charOpening) := by
  constructor
  · rintro ⟨u, hu⟩
    obtain ⟨hspells, hnests⟩ := (parse_render_eq_ok_iff h).mp hu
    exact ⟨hasTerms_of_spells hspells, hnests⟩
  · rintro ⟨hterms, hnests⟩
    obtain ⟨u, hu⟩ := (fits_of_hasTerms hterms).spells.recounted Level.counted
    exact ⟨u, (parse_render_eq_ok_iff h).mpr ⟨hu, hnests⟩⟩

/-- **The formula read from a rendering** is the formula built anew, if all runs of `!` are
short. -/
theorem parse_render (h : ∀ name ∈ t.occurrences, Lexable mode name) (hterms : t.HasTerms)
    (hnests : NestsWithin nestingLimit (t.render.toList.map charOpening))
    (hshort : ShortRuns t.terminals) : parse mode t.render = .ok t.rebuild :=
  (parse_render_eq_ok_iff h).mpr
    ⟨(Spells.counted_iff hshort).mpr (fits_of_hasTerms hterms).spells, hnests⟩

/-- **Whatever is read from a rendering is the formula built anew** exactly if all runs of `!` are
short. -/
theorem eq_rebuild_iff_of_parse_render {u : Formula}
    (h : ∀ name ∈ t.occurrences, Lexable mode name) (hu : parse mode t.render = .ok u) :
    u = t.rebuild ↔ ShortRuns t.terminals := by
  obtain ⟨hspells, hnests⟩ := (parse_render_eq_ok_iff h).mp hu
  have hterms : t.HasTerms := hasTerms_of_spells hspells
  constructor
  · rintro rfl
    exact hspells.spells_id_iff.mp (fits_of_hasTerms hterms).spells
  · exact fun hshort => Except.ok.inj (hu.symm.trans (parse_render h hterms hnests hshort))

end

/-! ### One run -/

theorem needsParensNegated_negated {t : Formula} (h : t.needsParensNegated = false) (n : Nat) :
    (t.negated n).needsParensNegated = false := by
  cases n with
  | zero => exact h
  | succ n => rfl

theorem negated_negated (m n : Nat) (t : Formula) :
    (t.negated m).negated n = t.negated (n + m) := by
  induction n with
  | zero => rw [negated_zero, Nat.zero_add]
  | succ n ih => rw [negated_succ, ih, ← negated_succ, Nat.add_right_comm]

theorem rebuild_negated (n : Nat) (t : Formula) : (t.negated n).rebuild = t.rebuild.negated n := by
  induction n with
  | zero => rfl
  | succ n ih => rw [negated_succ, rebuild_neg, ih, negated_succ]

/-- What stands behind negations is what they are written in front of. -/
theorem terminals_negated {n : Nat} {t : Formula} (h : (t.negated n).needsParensNegated = false) :
    (t.negated n).terminals =
      List.replicate n .negation ++ wrapped t.needsParensNegated t.terminals := by
  rw [← wrapped_terminals_negated, h]
  rfl

theorem render_negated {n : Nat} {t : Formula} (h : (t.negated n).needsParensNegated = false) :
    (t.negated n).render = String.ofList (List.replicate n '!' ++
      (parenthesized t.needsParensNegated t.pieces).flatMap Piece.text) := by
  have hpieces := parenthesized_pieces_negated n t
  rw [h, parenthesized, if_neg Bool.false_ne_true] at hpieces
  rw [render, hpieces, List.flatMap_append, List.flatMap_replicate]
  simp [signPiece, Piece.text]

/-- **What a formula behind a run of `!` is read as**, if it is an atom when written there. -/
theorem parse_render_negated {mode : LexMode} {n : Nat} {t u : Formula}
    (hnames : ∀ name ∈ t.occurrences, Lexable mode name)
    (hneeded : (t.negated n).needsParensNegated = false)
    (hatom : Spells Level.counted .atom (wrapped t.needsParensNegated t.terminals) u)
    (hflat : u.isFlat = true) (hnests : NestsWithin nestingLimit
      ((wrapped t.needsParensNegated t.terminals).map Terminal.opening)) :
    parse mode (t.negated n).render = .ok (u.negated (Level.counted n)) := by
  have hnegated : ∀ name ∈ (t.negated n).occurrences, Lexable mode name := by
    rwa [occurrences_negated]
  rw [parse_render_eq_ok_iff hnegated, nestsWithin_render_iff hnegated, terminals_negated hneeded,
    nestsWithin_run]
  exact ⟨.run n hatom hflat, hnests⟩

/-- **What a variable behind a run of `!` is read as.** -/
theorem parse_render_negated_var {mode : LexMode} {name : String} (n : Nat)
    (h : Lexable mode name) :
    parse mode ((var name).negated n).render = .ok ((var name).negated (Level.counted n)) := by
  have hterminals : wrapped (var name).needsParensNegated (var name).terminals = [.name name] := by
    rw [terminals_var]
    rfl
  refine parse_render_negated ?_ (needsParensNegated_negated rfl n) ?_ (isFlat_var name) ?_
  · rw [occurrences_var]
    exact List.forall_mem_singleton.mpr h
  · rw [hterminals]
    exact .name name
  · rw [hterminals, List.map_singleton, Terminal.opening_name]
    decide

/-- Behind a run that is just too long nothing is left of the negations. -/
theorem parse_render_negated_of_le {mode : LexMode} {name : String} {n : Nat}
    (h : Lexable mode name) (hle : 2 ^ 31 ≤ n) (hlt : n < 2 ^ 32) :
    parse mode ((var name).negated n).render = .ok (var name) := by
  rw [parse_render_negated_var n h, Level.counted_eq_zero hle hlt, negated_zero]

/-! ### Rendering and reading -/

/-- **Rendering and reading**: the rendering of a formula with lexable names can be read exactly if
every join has a term and no more parentheses than the limit are ever open at once. What is read is
the formula built anew exactly if all runs of `!` in the rendering are short. Then it is the formula
itself if this was flat, and has its value under every assignment. -/
theorem exists_parse_render_iff (mode : LexMode) (t : Formula)
    (h : ∀ name ∈ t.occurrences, Lexable mode name) :
    ((∃ u, parse mode t.render = .ok u) ↔
      t.HasTerms ∧ NestsWithin nestingLimit (t.render.toList.map charOpening)) ∧
    ∀ u, parse mode t.render = .ok u →
      (u = t.rebuild ↔ ShortRuns t.terminals) ∧
      (ShortRuns t.terminals →
        (t.isFlat = true → u = t) ∧ ∀ s, u.evaluate s = t.evaluate s) := by
  refine ⟨exists_parse_render h, fun u hu => ?_⟩
  have hrebuild := eq_rebuild_iff_of_parse_render h hu
  refine ⟨hrebuild, fun hshort => ?_⟩
  obtain rfl : u = t.rebuild := hrebuild.mpr hshort
  exact ⟨fun hflat => rebuild_eq_self hflat, fun s => evaluate_rebuild s t⟩

/-- A formula that is not flat, with a join of a single term and one in a join of its own
connective, and a name that begins like a constant. -/
theorem parse_render_of_not_flat :
    parse .permissive (join .and [join .and [neg (join .or [var "Tx", const true])],
        join .or [var "b"]]).render =
      .ok (join .and [neg (join .or [var "Tx", const true]), var "b"]) := by
  have h := exists_parse_render_iff .permissive (join .and
    [join .and [neg (join .or [var "Tx", const true])], join .or [var "b"]]) (by decide)
  obtain ⟨u, hu⟩ := h.1.mpr ⟨by decide, by decide⟩
  rw [hu, (h.2 u hu).1.mpr (shortRuns_of_length_lt (by decide))]
  decide

/-- A flat formula with lexable names and without parentheses that is not read from its rendering:
the shortest run that is miscounted. -/
theorem parse_render_of_long_run :
    (∀ name ∈ ((var "x").negated (2 ^ 31)).occurrences, Lexable .permissive name) ∧
    ((var "x").negated (2 ^ 31)).isFlat = true ∧
    parse .permissive ((var "x").negated (2 ^ 31)).render = .ok (var "x") ∧
    var "x" ≠ ((var "x").negated (2 ^ 31)).rebuild ∧
    var "x" ≠ (var "x").negated (2 ^ 31) := by
  have hx : Lexable .permissive "x" := by decide
  have hne : var "x" ≠ (var "x").negated (2 ^ 31) := ne_negated (by decide) _
  refine ⟨?_, ?_, parse_render_negated_of_le hx (by decide) (by decide), ?_, hne⟩
  · rw [occurrences_negated]
    decide
  · rw [isFlat_negated]
    decide
  · rwa [rebuild_negated, rebuild_var]

end Formula

end Propositional
