import Propositional.Proofs.Rendering.Names
import Propositional.Proofs.Rendering.Nesting
import Propositional.Proofs.Rendering.RoundTrip

/-!
# Reading a formula again

Not every formula can be read from its rendering: names may stand in the way, joins without terms,
and the limit on nesting. None of them can if the formula was read from some text to begin with
(`Propositional.parse_render_of_parse`). The text has shown that its names can be cut out, reading
makes flat formulas, and the rendering nests no deeper than the text did, so that even a formula
read at the very limit of `Propositional.nestingLimit` open groups is read again. What is left in
the way is the count of `!`: two runs that were counted right on both sides of a parenthesis are one
run in the rendering, and this one may be too long.
-/

namespace Propositional

open Formula

/-! ### What reading makes -/

/-- What stands in a flat formula is flat. -/
theorem Formula.isFlat_of_within {s t : Formula} (hw : Within s t) (h : t.isFlat = true) :
    s.isFlat = true := by
  induction hw with
  | refl => exact h
  | @child u t hsu hu ih =>
    refine ih ?_
    cases t with
    | neg t =>
      rw [children, List.mem_singleton] at hu
      rwa [hu, ← isFlat_neg]
    | join op ts => exact ((isFlat_join_iff.mp h).2 u hu).2
    | _ => cases hu

/-- Every join in a flat formula has a term. -/
theorem Formula.hasTerms_of_isFlat {t : Formula} (h : t.isFlat = true) : t.HasTerms := by
  rintro op ts hw rfl
  have hlen := (isFlat_join_iff.mp (isFlat_of_within hw h)).1
  exact absurd hlen (by decide)

/-- Only the terminal of a name has one. -/
theorem Terminal.eq_name_of_name? {w : Terminal} {v : String} (h : w.name? = some v) :
    w = .name v := by
  cases w with
  | name u => rw [show u = v from Option.some.inj h]
  | _ => cases h

/-- The terminals of a text nest as deep as its parentheses. -/
theorem nestsWithin_terminals_of_tokenize {mode : LexMode} {text : String} {tokens : List Token}
    {limit : Int} (h : tokenize mode text = .ok tokens) :
    NestsWithin limit ((tokens.map Token.terminal).map Terminal.opening) ↔
      NestsWithin limit (text.toList.map charOpening) := by
  rw [map_opening_terminal, nestsWithin_of_tokenize h]

/-- The formula of a text is flat. -/
theorem isFlat_of_parse {mode : LexMode} {text : String} {t : Formula}
    (h : parse mode text = .ok t) : t.isFlat = true := by
  obtain ⟨tokens, -, hparse⟩ := parse_eq_ok_iff.mp h
  exact (parseTokens_eq_ok_iff_spells.mp hparse).1.isFlat

/-- The variables of the formula of a text have lexable names. -/
theorem lexable_of_parse {mode : LexMode} {text : String} {t : Formula}
    (h : parse mode text = .ok t) : ∀ name ∈ t.occurrences, Lexable mode name := by
  obtain ⟨tokens, htokens, hparse⟩ := parse_eq_ok_iff.mp h
  obtain ⟨hspells, -⟩ := parseTokens_eq_ok_iff_spells.mp hparse
  intro name hname
  rw [hspells.occurrences] at hname
  obtain ⟨w, hw, hwname⟩ := List.mem_filterMap.mp hname
  rw [Terminal.eq_name_of_name? hwname] at hw
  exact lexable_of_tokenize htokens hw

/-- A text that was read opens no more groups at once than the limit. -/
theorem nestsWithin_of_parse {mode : LexMode} {text : String} {t : Formula}
    (h : parse mode text = .ok t) : NestsWithin nestingLimit (text.toList.map charOpening) := by
  obtain ⟨tokens, htokens, hparse⟩ := parse_eq_ok_iff.mp h
  rw [← nestsWithin_of_tokenize htokens]
  exact (parseTokens_eq_ok_iff_spells.mp hparse).2

/-! ### Reading, rendering and reading -/

/-- A rendering never has more parentheses open at once than the text that the formula was read
from. -/
theorem nestsWithin_render_of_parse {mode : LexMode} {text : String} {t : Formula} {limit : Int}
    (h : parse mode text = .ok t) (htext : NestsWithin limit (text.toList.map charOpening)) :
    NestsWithin limit (t.render.toList.map charOpening) := by
  obtain ⟨tokens, htokens, hparse⟩ := parse_eq_ok_iff.mp h
  obtain ⟨hspells, -⟩ := parseTokens_eq_ok_iff_spells.mp hparse
  rw [nestsWithin_render_iff (lexable_of_parse h)]
  exact hspells.nestsWithin ((nestsWithin_terminals_of_tokenize htokens).mpr htext)

/-- **Every formula that was read can be read again** from its rendering. It is flat, its names are
lexable, and its rendering never has more parentheses open at once than the text that it was read
from. What is read again is the formula exactly if all runs of `!` in the rendering are short; it
takes a group in the text behind a run of `!` to make a longer one of two. -/
theorem parse_render_of_parse {mode : LexMode} {text : String} {t : Formula}
    (h : parse mode text = .ok t) :
    t.isFlat = true ∧ (∀ name ∈ t.occurrences, Lexable mode name) ∧
    (∀ limit, NestsWithin limit (text.toList.map charOpening) →
      NestsWithin limit (t.render.toList.map charOpening)) ∧
    (∃ u, parse mode t.render = .ok u) ∧
    (parse mode t.render = .ok t ↔ ShortRuns t.terminals) := by
  have hflat : t.isFlat = true := isFlat_of_parse h
  have hnames : ∀ name ∈ t.occurrences, Lexable mode name := lexable_of_parse h
  obtain ⟨u, hu⟩ : ∃ u, parse mode t.render = .ok u :=
    (exists_parse_render hnames).mpr
      ⟨hasTerms_of_isFlat hflat, nestsWithin_render_of_parse h (nestsWithin_of_parse h)⟩
  refine ⟨hflat, hnames, fun limit => nestsWithin_render_of_parse h, ⟨u, hu⟩, ?_⟩
  have hagain := eq_rebuild_iff_of_parse_render hnames hu
  rw [rebuild_eq_self hflat] at hagain
  rw [hu, ← hagain]
  exact ⟨Except.ok.inj, congrArg Except.ok⟩

/-- A text with parentheses that its rendering leaves out, some of them around a `|` in a `|`, and
with a name that begins like a constant. -/
theorem parse_render_of_redundant_parens :
    parse .permissive "!(a) | ((b | !Tx) | T) & c" =
      .ok (join .or [neg (var "a"), join .and [join .or [var "b", neg (var "Tx"), const true],
        var "c"]]) ∧
    parse .permissive "!a | (b | !Tx | T) & c" =
      .ok (join .or [neg (var "a"), join .and [join .or [var "b", neg (var "Tx"), const true],
        var "c"]]) := by
  -- the text is the rendering of a formula with conjunctions of one term
  obtain ⟨t, hnames, hterms, hnests, hshort, htext, hbuilt⟩ : ∃ t : Formula,
      (∀ name ∈ t.occurrences, Lexable .permissive name) ∧ t.HasTerms ∧
      NestsWithin nestingLimit (t.render.toList.map charOpening) ∧ ShortRuns t.terminals ∧
      t.render = "!(a) | ((b | !Tx) | T) & c" ∧
      t.rebuild = join .or [neg (var "a"), join .and [join .or [var "b", neg (var "Tx"),
        const true], var "c"]] :=
    ⟨join .or [neg (join .and [var "a"]), join .and [join .or [join .and [join .or [var "b",
      neg (var "Tx")]], const true], var "c"]],
      by decide, by decide, by decide, shortRuns_of_length_lt (by decide), by decide, by decide⟩
  have h := parse_render hnames hterms hnests hshort
  rw [htext, hbuilt] at h
  obtain ⟨-, -, -, -, hread⟩ := parse_render_of_parse h
  have hrender : (join .or [neg (var "a"), join .and [join .or [var "b", neg (var "Tx"),
      const true], var "c"]]).render = "!a | (b | !Tx | T) & c" := by decide
  exact ⟨h, hrender ▸ hread.mpr (shortRuns_of_length_lt (by decide))⟩

/-- A run of the greatest length that is counted right, in front of a group that begins with one
more `!`. The formula is read as it should be, and the variable alone is read again from its
rendering. -/
theorem parse_render_of_grouped_run :
    parse .permissive (String.ofList (List.replicate (2 ^ 31 - 1) '!' ++ "(!x)".toList)) =
      .ok ((var "x").negated (2 ^ 31)) ∧
    parse .permissive ((var "x").negated (2 ^ 31)).render = .ok (var "x") ∧
    parse .permissive ((var "x").negated (2 ^ 31)).render ≠ .ok ((var "x").negated (2 ^ 31)) := by
  have hx : Lexable .permissive "x" := by decide
  have hread := parse_render_negated_of_le hx (Nat.le_refl (2 ^ 31)) (by decide)
  refine ⟨?_, hread, fun h => ?_⟩
  · -- the text is the rendering of a formula with a disjunction of one term
    have hneeded : ((join .or [neg (var "x")]).negated (2 ^ 31 - 1)).needsParensNegated = false :=
      rfl
    have hnames : ∀ name ∈ (join .or [neg (var "x")]).occurrences, Lexable .permissive name := by
      decide
    have hkept : Level.counted (2 ^ 31 - 1) = 2 ^ 31 - 1 :=
      Level.counted_eq_self_iff.mpr (by decide)
    have hgroup := parse_render_negated hnames hneeded
      (.group (.run 1 (.name "x") (isFlat_var "x"))) (by decide) (by decide)
    rwa [render_negated hneeded, hkept, negated_negated] at hgroup
  · exact ne_negated (by decide) (var "x") (Except.ok.inj (hread.symm.trans h))

end Propositional
