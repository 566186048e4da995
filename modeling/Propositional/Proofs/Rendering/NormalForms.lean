import Propositional.Proofs.NormalForm.FixedPoints
import Propositional.Proofs.NormalForm.Literals
import Propositional.Proofs.Rendering.Parentheses

/-!
# Renderings of normal forms

In a normal form nothing stands where it needs parentheses: literals are negated at most once, what
is joined by `&` are literals, and `|` never asks for any. So the rendering of a normal form has no
parenthesis in it (`Propositional.Formula.IsNormalForm.isParenthesis_eq_false`), and however wide it
is, it does not nest at all.

That leaves little that could keep it from being read again. A normal form is flat, so the formula
built anew is the normal form itself, and no run of `!` in it is too long
(`Propositional.Formula.IsNormalForm.shortRuns`); and its variables are among those of the formula
it was made of (`Propositional.Formula.occurrences_normalize_subset`), so if this formula was read,
then all names are lexable in the mode in which it was read
(`Propositional.Formula.parse_render_normalize`). The rendering also is a line of text and not an
empty one: the only blank in it is the space, there is no control, and something can be read from
it.
-/

namespace Propositional

open Text

/-! ### Lists put together with something between them -/

theorem forall_mem_intercalate {α : Type} {p : α → Prop} {separator : List α}
    {xss : List (List α)} (hseparator : ∀ x ∈ separator, p x)
    (h : ∀ xs ∈ xss, ∀ x ∈ xs, p x) : ∀ x ∈ separator.intercalate xss, p x := by
  match xss, h with
  | [], _ => exact nofun
  | [xs], h => simpa using h
  | xs :: ys :: xss, h =>
    obtain ⟨hxs, hrest⟩ := List.forall_mem_cons.mp h
    rw [List.intercalate_cons_cons]
    exact List.forall_mem_append.mpr ⟨List.forall_mem_append.mpr ⟨hxs, hseparator⟩,
      forall_mem_intercalate hseparator hrest⟩

namespace Formula

variable {mode : LexMode} {dropUnits : Bool} {op : Connective} {t n c l : Formula}
  {ts : List Formula}

/-! ### There are no parentheses -/

/-- A join has no parentheses if its terms have none and need none. -/
theorem isParenthesis_join_eq_false (hneeded : ∀ t ∈ ts, t.needsParensIn op = false)
    (h : ∀ t ∈ ts, ∀ w ∈ t.terminals, w.isParenthesis = false) :
    ∀ w ∈ (join op ts).terminals, w.isParenthesis = false := by
  rw [terminals_join]
  refine forall_mem_intercalate (List.forall_mem_singleton.mpr rfl) ?_
  rw [List.forall_mem_map]
  intro t ht
  rw [hneeded t ht]
  exact h t ht

theorem isParenthesis_eq_false_of_isLiteral (h : l.isLiteral = true) :
    ∀ w ∈ l.terminals, w.isParenthesis = false := by
  match l, h with
  | const b, _ => simp [Terminal.isParenthesis, Terminal.kind, TokenKind.isParenthesis]
  | var name, _ => simp [Terminal.isParenthesis, Terminal.kind, TokenKind.isParenthesis]
  | neg (var name), _ =>
    have hneeded : needsParensNegated (var name) = false := rfl
    rw [terminals_neg, hneeded, wrapped, if_neg Bool.false_ne_true, terminals_var]
    simp [Terminal.isParenthesis, Terminal.kind, TokenKind.isParenthesis]

theorem IsClauseForm.isParenthesis_eq_false (h : IsClauseForm dropUnits c) :
    ∀ w ∈ c.terminals, w.isParenthesis = false := by
  cases h with
  | alone h => exact isParenthesis_eq_false_of_isLiteral h
  | join _ hls =>
    refine isParenthesis_join_eq_false (fun l hl => ?_) fun l hl =>
      isParenthesis_eq_false_of_isLiteral (hls l hl).1
    rw [needsParensIn, isJoin_eq_false_of_isLiteral (hls l hl).1, Bool.and_false]

/-- **A normal form is written without parentheses.** -/
theorem IsNormalForm.isParenthesis_eq_false (h : IsNormalForm dropUnits n) :
    ∀ w ∈ n.terminals, w.isParenthesis = false := by
  cases h with
  | alone h => exact IsClauseForm.isParenthesis_eq_false h
  | join _ hcs =>
    exact isParenthesis_join_eq_false (fun _ _ => rfl) fun c hc =>
      (hcs c hc).1.isParenthesis_eq_false

/-! ### All runs of negations are short -/

/-- A run of `!` in a join is one in a term. -/
theorem shortRuns_join (h : ∀ t ∈ ts, ShortRuns t.terminals) :
    ShortRuns (join op ts).terminals := by
  by_cases hne : ts = []
  · rw [hne, terminals_join]
    exact shortRuns_of_length_lt (by simp [chained])
  rw [terminals_join]
  intro n hn
  obtain ⟨ws, hws, hn⟩ := run_infix_chained (by simpa using hne) hn
  obtain ⟨t, ht, rfl⟩ := List.mem_map.mp hws
  cases hneeded : t.needsParensIn op with
  | false =>
    rw [hneeded] at hn
    exact h t ht n hn
  | true =>
    rw [hneeded] at hn
    exact h t ht n (run_infix_grouped hn)

theorem shortRuns_of_isLiteral (h : l.isLiteral = true) : ShortRuns l.terminals := by
  match l, h with
  | const b, _ => exact shortRuns_of_length_lt (by simp)
  | var name, _ => exact shortRuns_of_length_lt (by simp)
  | neg (var name), _ =>
    have hneeded : needsParensNegated (var name) = false := rfl
    rw [terminals_neg, hneeded, wrapped, if_neg Bool.false_ne_true, terminals_var]
    exact shortRuns_of_length_lt (by simp)

theorem IsClauseForm.shortRuns (h : IsClauseForm dropUnits c) : ShortRuns c.terminals := by
  cases h with
  | alone h => exact shortRuns_of_isLiteral h
  | join _ hls => exact shortRuns_join fun l hl => shortRuns_of_isLiteral (hls l hl).1

/-- **In a normal form no run of negations is too long**, for a literal has one at most. -/
theorem IsNormalForm.shortRuns (h : IsNormalForm dropUnits n) : ShortRuns n.terminals := by
  cases h with
  | alone h => exact IsClauseForm.shortRuns h
  | join _ hcs => exact shortRuns_join fun c hc => (hcs c hc).1.shortRuns

/-! ### There is nothing to nest -/

/-- A rendering without parentheses changes the number of open groups nowhere. -/
theorem openings_render_eq_nil (hnames : ∀ name ∈ t.occurrences, Lexable mode name)
    (h : ∀ w ∈ t.terminals, w.isParenthesis = false) : openings t.render.toList = [] := by
  obtain ⟨rendered, hrendered, hterminals⟩ := exists_tokenize_render hnames
  rw [openings_eq mode, ← map_terminal_of_tokensOfItems hrendered, hterminals,
    List.filter_eq_nil_iff, List.forall_mem_map]
  intro w hw
  have hkind : w.kind.isParenthesis = false := h w hw
  cases w with
  | leftParen => cases hkind
  | rightParen => cases hkind
  | _ => simp

/-- There is no parenthesis among the characters of such a rendering. -/
theorem parenthesis_notMem_render (hnames : ∀ name ∈ t.occurrences, Lexable mode name)
    (h : ∀ w ∈ t.terminals, w.isParenthesis = false) :
    '(' ∉ t.render.toList ∧ ')' ∉ t.render.toList := by
  have hnil : openings t.render.toList = [] := openings_render_eq_nil hnames h
  rw [← List.count_eq_zero, ← List.count_eq_zero,
    ← count_openings (by decide) charOpening_eq_one_iff,
    ← count_openings (by decide) charOpening_eq_neg_one_iff, hnil]
  exact ⟨rfl, rfl⟩

/-! ### A rendering is a line -/

/-- The characters that end a line somewhere. -/
def lineBreaks : List Char :=
  ['\n', '\x0b', '\x0c', '\r', '\u0085', '\u2028', '\u2029']

/-- Whether a character is fit for a line: a space, or neither a blank nor a control. -/
def IsInline (c : Char) : Prop :=
  c = ' ' ∨ isBlank c = false ∧ isControl c = false

theorem IsInline.notMem_lineBreaks {c : Char} (h : IsInline c) : c ∉ lineBreaks := by
  -- computed member by member: a statement on all characters would be decided by going through them
  have hbreaks : lineBreaks.all (fun d => d != ' ' && isBlank d) = true := by decide
  intro hc
  have hbreak := List.all_eq_true.mp hbreaks c hc
  rw [Bool.and_eq_true, bne_iff_ne] at hbreak
  obtain ⟨hspace, hblank⟩ := hbreak
  rcases h with h | ⟨h, -⟩
  · exact hspace h
  · rw [h] at hblank
    cases hblank

theorem isInline_parenthesized {needed : Bool} {ps : List Piece}
    (h : ∀ p ∈ ps, ∀ c ∈ p.text, IsInline c) :
    ∀ p ∈ parenthesized needed ps, ∀ c ∈ p.text, IsInline c := by
  cases needed with
  | false => exact h
  | true =>
    have hleft : ∀ c ∈ (signPiece .leftParen '(').text, IsInline c :=
      List.forall_mem_singleton.mpr (.inr (by decide))
    have hright : ∀ c ∈ (signPiece .rightParen ')').text, IsInline c :=
      List.forall_mem_singleton.mpr (.inr (by decide))
    refine List.forall_mem_append.mpr ⟨List.forall_mem_cons.mpr ⟨hleft, h⟩, ?_⟩
    exact List.forall_mem_singleton.mpr hright

theorem isInline_separator (op : Connective) :
    ∀ p ∈ separator op, ∀ c ∈ p.text, IsInline c := by
  have hspace : ∀ c ∈ (Piece.blank ' ').text, IsInline c :=
    List.forall_mem_singleton.mpr (.inl rfl)
  refine List.forall_mem_cons.mpr ⟨hspace, List.forall_mem_cons.mpr ⟨?_, ?_⟩⟩
  · refine List.forall_mem_singleton.mpr (.inr ?_)
    cases op <;> decide
  · exact List.forall_mem_singleton.mpr hspace

/-- The pieces of a rendering have only characters in them that are fit for a line. -/
theorem isInline_pieces (hnames : ∀ name ∈ t.occurrences, Lexable mode name) :
    ∀ p ∈ t.pieces, ∀ c ∈ p.text, IsInline c := by
  induction t with
  | const b =>
    rw [pieces]
    refine List.forall_mem_singleton.mpr (List.forall_mem_singleton.mpr (.inr ?_))
    cases b <;> decide
  | var name =>
    rw [pieces]
    refine List.forall_mem_singleton.mpr fun c hc => .inr ?_
    obtain ⟨hblank, hcontrol, -⟩ := (hnames name (by simp)).plain c hc
    exact ⟨hblank, hcontrol⟩
  | neg t ih =>
    rw [pieces]
    have ht := ih fun name hname => hnames name (by simpa using hname)
    refine List.forall_mem_cons.mpr ⟨?_, isInline_parenthesized ht⟩
    exact List.forall_mem_singleton.mpr (.inr (by decide))
  | join op ts ih =>
    rw [pieces, piecesOfTerms_eq_map]
    refine forall_mem_intercalate (isInline_separator op) ?_
    rw [List.forall_mem_map]
    refine fun t ht => isInline_parenthesized (ih t ht fun name hname => hnames name ?_)
    rw [occurrences_join]
    exact List.mem_flatMap.mpr ⟨t, ht, hname⟩

/-- **A rendering is one line**: of blanks and controls it has only spaces. -/
theorem isInline_render (hnames : ∀ name ∈ t.occurrences, Lexable mode name) :
    ∀ c ∈ t.render.toList, IsInline c := by
  rw [render, String.toList_ofList]
  intro c hc
  obtain ⟨p, hp, hcp⟩ := List.mem_flatMap.mp hc
  exact isInline_pieces hnames p hp c hcp

end Formula

/-! ### Reading normal forms again -/

/-- Where a formula can be read, there is something that is no blank. -/
theorem exists_isBlank_eq_false_of_parse {mode : LexMode} {text : String} {t : Formula}
    (h : parse mode text = .ok t) : ∃ c ∈ text.toList, isBlank c = false := by
  obtain ⟨tokens, htokens, hparse⟩ := parse_eq_ok_iff.mp h
  have htiled : Tiled 0 text.toList (items mode text) := tiled_itemsFrom mode 0 text.toList
  rw [tokensOfItems_eq_ok_iff.mp htokens] at htiled
  match tokens, hparse, htiled with
  | token :: tokens, _, htiled =>
    generalize text.toList = cs at htiled
    rw [List.map_cons] at htiled
    cases htiled with
    | item hgap hposition hne hproper hrest =>
      obtain ⟨c, hc⟩ := List.exists_mem_of_ne_nil _ hne
      exact ⟨c, List.mem_append_left _ (List.mem_append_right _ hc), hproper c hc⟩

namespace Formula

variable {mode : LexMode} {dropUnits : Bool} {text : String} {t n : Formula}

/-- The names in a normal form of a formula that was read are lexable. -/
theorem lexable_normalize (h : parse mode text = .ok t) :
    ∀ name ∈ (t.normalize dropUnits).occurrences, Lexable mode name :=
  fun name hname => lexable_of_parse h name (occurrences_normalize_subset dropUnits t hname)

/-- **The normal form of a formula that was read is read again** from its rendering, in the same
mode. -/
theorem parse_render_normalize (dropUnits : Bool) (h : parse mode text = .ok t) :
    parse mode (t.normalize dropUnits).render = .ok (t.normalize dropUnits) := by
  have hnormal : IsNormalForm dropUnits (t.normalize dropUnits) :=
    isNormalForm_normalForm dropUnits true t
  have hnests :
      NestsWithin nestingLimit ((t.normalize dropUnits).render.toList.map charOpening) := by
    have hnil := openings_render_eq_nil (lexable_normalize h) hnormal.isParenthesis_eq_false
    rw [openings] at hnil
    rw [← nestsWithin_filter_ne_zero, hnil, nestsWithin_nil]
    decide
  have hrender :=
    parse_render (lexable_normalize h) (hasTerms_of_isFlat hnormal.isFlat) hnests
      hnormal.shortRuns
  rwa [rebuild_eq_self hnormal.isFlat] at hrender

/-- What can be converted again without change: a formula that is its own normal form and that is
read from its rendering, which is a line with something in it and without parentheses. -/
structure IsSettled (mode : LexMode) (dropUnits : Bool) (n : Formula) : Prop where
  /-- There is no parenthesis in the rendering -/
  parenthesis_notMem : '(' ∉ n.render.toList ∧ ')' ∉ n.render.toList
  /-- There is nothing in it that ends a line -/
  lineBreak_notMem : ∀ c ∈ lineBreaks, c ∉ n.render.toList
  /-- There is something in it that is no blank -/
  exists_isBlank_eq_false : ∃ c ∈ n.render.toList, isBlank c = false
  /-- It is read as the formula -/
  parse_render_eq : parse mode n.render = .ok n
  /-- The formula is its own normal form -/
  normalize_eq : n.normalize dropUnits = n

/-- **Normal forms of formulas that were read are settled.** -/
theorem isSettled_normalize (dropUnits : Bool) (h : parse mode text = .ok t) :
    IsSettled mode dropUnits (t.normalize dropUnits) := by
  have hnormal : IsNormalForm dropUnits (t.normalize dropUnits) :=
    isNormalForm_normalForm dropUnits true t
  have hparse := parse_render_normalize dropUnits h
  refine ⟨parenthesis_notMem_render (lexable_normalize h) hnormal.isParenthesis_eq_false,
    fun c hc hmem => ?_, exists_isBlank_eq_false_of_parse hparse, hparse,
    normalize_eq_self hnormal⟩
  exact (isInline_render (lexable_normalize h) c hmem).notMem_lineBreaks hc

end Formula

end Propositional
