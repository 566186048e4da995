import Propositional.Proofs.Lexeme.Coverage
import Propositional.Proofs.Rendering.Rereading

/-!
# Renderings have the fewest parentheses

A text may have more parentheses than its formula asks for, but it cannot have fewer: what the
rendering of the formula says is the text with some parentheses deleted and nothing else changed
(`Propositional.Spells.deletes`). If a run of `!` in the text was miscounted, then some of these are
missing as well; but in any case the parentheses of a rendering are found in every text that is read
as the same formula.

The induction is over the derivation, and each phrase has to provide the parentheses that its
formula needs in its place (`Propositional.Phrase.needsParens`). A group has a pair to give, and all
that can be asked of it is to keep the pair or to delete it. For a chain there seems to be more to
do, since combining takes operands apart and may leave a single one, and either of them changes what
the parentheses are needed for. But a formula reads the same in a chain whether it is taken apart or
not (`Propositional.Formula.wrapped_terminals_eq_chained`), and therefore what is combined from
several formulas reads as these do one after the other
(`Propositional.Formula.wrapped_terminals_combine`).
-/

namespace Propositional

open Text Formula

/-! ### Deleting -/

/-- **Deleting members of a kind**: `Deletes p xs ys` says that `ys` is what remains of the list
`xs` when some of its members with the property `p` are deleted. -/
inductive Deletes {α : Type} (p : α → Bool) : List α → List α → Prop
  /-- Nothing can be deleted from the empty list. -/
  | nil : Deletes p [] []
  /-- Any member may be kept. -/
  | keep {x : α} {xs ys : List α} (h : Deletes p xs ys) : Deletes p (x :: xs) (x :: ys)
  /-- A member with the property may be deleted. -/
  | delete {x : α} {xs ys : List α} (hx : p x = true) (h : Deletes p xs ys) :
      Deletes p (x :: xs) ys

namespace Deletes

variable {α β : Type} {p : α → Bool} {xs ys zs us vs : List α}

theorem refl (xs : List α) : Deletes p xs xs := by
  induction xs with
  | nil => exact .nil
  | cons x xs ih => exact .keep ih

theorem trans (h : Deletes p xs ys) (h' : Deletes p ys zs) : Deletes p xs zs := by
  induction h generalizing zs with
  | nil => exact h'
  | keep h ih =>
    cases h' with
    | keep h' => exact .keep (ih h')
    | delete hx h' => exact .delete hx (ih h')
  | delete hx h ih => exact .delete hx (ih h')

theorem append (h : Deletes p xs ys) (h' : Deletes p us vs) :
    Deletes p (xs ++ us) (ys ++ vs) := by
  induction h with
  | nil => exact h'
  | keep h ih => exact .keep ih
  | delete hx h ih => exact .delete hx ih

/-- Some of several equal members may be deleted. -/
theorem replicate {x : α} (hx : p x = true) {m n : Nat} (hle : m ≤ n) :
    Deletes p (List.replicate n x) (List.replicate m x) := by
  induction n generalizing m with
  | zero =>
    obtain rfl : m = 0 := by omega
    exact .nil
  | succ n ih =>
    cases m with
    | zero => exact .delete hx (ih (Nat.zero_le n))
    | succ m => exact .keep (ih (by omega))

/-- A member with the property at the end may be deleted as well. -/
theorem append_singleton {x : α} (hx : p x = true) (h : Deletes p xs ys) :
    Deletes p (xs ++ [x]) ys := by
  have hlast : Deletes p (xs ++ [x]) (ys ++ []) := h.append (.delete hx .nil)
  rwa [List.append_nil] at hlast

/-- What remains is in the order of the list. -/
theorem sublist (h : Deletes p xs ys) : ys.Sublist xs := by
  induction h with
  | nil => exact .slnil
  | keep h ih => exact ih.cons_cons _
  | delete hx h ih => exact ih.cons _

/-- **The members without the property remain**, in their order and as often as they were. -/
theorem filter_not_eq (h : Deletes p xs ys) : ys.filter (!p ·) = xs.filter (!p ·) := by
  induction h with
  | nil => rfl
  | keep h ih => rw [List.filter_cons, List.filter_cons, ih]
  | delete hx h ih => rw [ih, List.filter_cons_of_neg (by simp [hx])]

/-- What is deleted can be deleted from the images, if the property is one of the images. -/
theorem map {q : β → Bool} (f : α → β) (hq : ∀ x, q (f x) = p x) (h : Deletes p xs ys) :
    Deletes q (xs.map f) (ys.map f) := by
  induction h with
  | nil => exact .nil
  | keep h ih => exact .keep ih
  | delete hx h ih => exact .delete ((hq _).trans hx) ih

end Deletes

/-! ### Parentheses of a text and of its rendering -/

/-- Whether a token is a parenthesis. -/
def TokenKind.isParenthesis : TokenKind → Bool
  | leftParen | rightParen => true
  | _ => false

/-- Whether a terminal is a parenthesis. -/
def Terminal.isParenthesis (w : Terminal) : Bool :=
  w.kind.isParenthesis

section

variable {p : Terminal → Bool} (hp : ∀ w : Terminal, w.isParenthesis = true → p w = true)

include hp

/-- The parentheses of a group may be deleted. -/
theorem deletes_grouped {ws vs : List Terminal} (h : Deletes p ws vs) (needed : Bool) :
    Deletes p (grouped ws) (wrapped needed vs) := by
  rw [grouped, List.cons_append]
  cases needed with
  | true => exact .keep (h.append (.refl _))
  | false => exact .delete (hp _ rfl) (h.append_singleton (hp _ rfl))

/-- Parentheses that are not needed may be deleted. -/
theorem deletes_wrapped {needed less : Bool} (himp : less = true → needed = true)
    (ws : List Terminal) : Deletes p (wrapped needed ws) (wrapped less ws) := by
  cases needed with
  | true => exact deletes_grouped hp (.refl ws) less
  | false =>
    have hless : less = false := by simpa using himp
    rw [hless]
    exact .refl _

omit hp in
/-- What can be deleted from the parts of a chain can be deleted from the chain. -/
theorem deletes_chained (op : Connective) {α : Type} {f g : α → List Terminal} {xs : List α}
    (h : ∀ x ∈ xs, Deletes p (f x) (g x)) :
    Deletes p (chained op (xs.map f)) (chained op (xs.map g)) := by
  match xs, h with
  | [], _ => exact .nil
  | [x], h => simpa using h x (by simp)
  | x :: y :: xs, h =>
    obtain ⟨hx, hrest⟩ := List.forall_mem_cons.mp h
    have ih := deletes_chained op hrest
    rw [List.map_cons, List.map_cons, List.map_cons, List.map_cons, chained_cons_cons,
      chained_cons_cons]
    exact hx.append (.keep ih)

/-- **What a text spells is written as the text is, with parentheses deleted**, and so many of each
run of `!` as do not count, and nothing else changed; and it has the parentheses that it needs in
the place of the text. -/
theorem Spells.deletes {count : Nat → Nat}
    (hcount : ∀ n, Deletes p (List.replicate n .negation) (List.replicate (count n) .negation))
    {phrase : Phrase} {ws : List Terminal} {t : Formula} (h : Spells count phrase ws t) :
    Deletes p ws (wrapped (phrase.needsParens t) t.terminals) := by
  induction h with
  | const b =>
    rw [terminals_const]
    exact .refl _
  | name v =>
    rw [terminals_var]
    exact .refl _
  | group h ih => exact deletes_grouped hp ih _
  | negations n h ih =>
    rw [Phrase.needsParens, wrapped_terminals_negated]
    exact (hcount n).append ih
  | @chain op parts hne h ih =>
    have hflat : ∀ t ∈ parts.map Prod.snd, t.isFlat = true :=
      List.forall_mem_map.mpr fun part hp => (h part hp).isFlat
    have hparts : ∀ part ∈ parts, Deletes p part.1
        (wrapped (part.2.needsParensIn op) part.2.terminals) := fun part hpart =>
      -- an operand may have parentheses that its place in the chain does not ask for
      (ih part hpart).trans (deletes_wrapped hp Phrase.needsParens_operand _)
    have hchain := deletes_chained op hparts
    rw [Phrase.needsParens, wrapped_terminals_combine (by simpa using hne) hflat, List.map_map]
    exact hchain

end

/-! ### Negations of a text and of its rendering -/

/-- A rendering has a `!` for each negation. -/
theorem Formula.count_negation_terminals (t : Formula) :
    t.terminals.count .negation = t.negationCount := by
  have hwrapped (needed : Bool) (ws : List Terminal) :
      (wrapped needed ws).count .negation = ws.count .negation := by
    cases needed with
    | false => rfl
    | true => exact count_negation_grouped ws
  induction t with
  | const b => rw [terminals_const, negationCount_const]; rfl
  | var name => rw [terminals_var, negationCount_var]; rfl
  | neg t ih =>
    rw [terminals_neg, List.count_cons_self, hwrapped, ih, negationCount_neg, Nat.add_comm]
  | join op ts ih =>
    rw [terminals_join, count_negation_chained, List.map_map, negationCount_join]
    refine congrArg List.sum (List.map_congr_left fun t ht => ?_)
    rw [Function.comp_apply, hwrapped, ih t ht]

/-- Whether a token is a parenthesis or a `!`. -/
def TokenKind.isParenthesisOrNegation (k : TokenKind) : Bool :=
  k.isParenthesis || k == .negation

/-! ### Tokens and how they are written -/

/-- What a token is and how it is written. -/
def Token.word (t : Token) : TokenKind × String :=
  (t.kind, t.text)

/-- What a terminal is and how it is written. -/
def Terminal.word : Terminal → TokenKind × String
  | name v => (.name, v)
  | const b => (.const b, String.ofList [constantLetter b])
  | leftParen => (.leftParen, "(")
  | rightParen => (.rightParen, ")")
  | negation => (.negation, "!")
  | connective op => (.connective op, String.ofList [op.symbol])

theorem Terminal.fst_word (w : Terminal) : w.word.1 = w.kind := by
  cases w <;> rfl

/-- A sign is written as its kind is. -/
theorem word_ofKind_of_ofSign? {c : Char} {kind : TokenKind}
    (h : TokenKind.ofSign? c = some kind) (text : String) :
    (Terminal.ofKind kind text).word = (kind, String.ofList [c]) := by
  unfold TokenKind.ofSign? at h
  repeat' split at h
  all_goals cases h
  all_goals subst_vars
  all_goals rfl

theorem eq_constantLetter_of_constant? {c : Char} {b : Bool} (h : constant? c = some b) :
    c = constantLetter b := by
  rcases eq_or_eq_of_constant? h with rfl | rfl
  · obtain rfl : true = b := Option.some.inj h
    rfl
  · obtain rfl : false = b := Option.some.inj h
    rfl

/-- **The tokens of a text are written as their terminals are**: of everything but a name, the kind
determines the letters. -/
theorem map_word_of_tokenize {mode : LexMode} {text : String} {tokens : List Token}
    (h : tokenize mode text = .ok tokens) :
    tokens.map Token.word = (tokens.map Token.terminal).map Terminal.word := by
  rw [List.map_map]
  refine List.map_congr_left fun t ht => ?_
  have hitem : .token t ∈ items mode text := by
    rw [tokensOfItems_eq_ok_iff.mp h]
    exact List.mem_map_of_mem ht
  obtain ⟨before, c, ds, p, rest, -, hfirst, hp⟩ := exists_isFirstPiece_of_mem hitem
  cases hfirst with
  | blank => cases hp
  | sign hsign =>
    obtain rfl := Item.token.inj (Option.some.inj hp)
    exact (word_ofKind_of_ofSign? hsign _).symm
  | const hconst =>
    obtain rfl := Item.token.inj (Option.some.inj hp)
    rw [eq_constantLetter_of_constant? hconst]
    rfl
  | name =>
    obtain rfl := Item.token.inj (Option.some.inj hp)
    rfl
  | stray => cases hp

/-! ### How many parentheses there are -/

/-- The parentheses of one kind in a text are among the changes that it makes. -/
theorem count_openings {k : Int} {c : Char} (hk : k ≠ 0) (hc : ∀ d, charOpening d = k ↔ d = c)
    (cs : List Char) : (openings cs).count k = cs.count c := by
  rw [openings, List.count_filter (by simpa using hk), List.count, List.count, List.countP_map]
  refine List.countP_congr fun d _ => ?_
  simpa using hc d

theorem charOpening_eq_one_iff (d : Char) : charOpening d = 1 ↔ d = '(' := by
  unfold charOpening
  split
  · simp_all
  · split <;> simp_all

theorem charOpening_eq_neg_one_iff (d : Char) : charOpening d = -1 ↔ d = ')' := by
  unfold charOpening
  split
  · simp_all
  · split <;> simp_all

/-- A text whose terminals are among those of another has no more parentheses of either kind. -/
theorem count_parentheses_le {mode : LexMode} {text other : String} {tokens others : List Token}
    (h : tokenize mode text = .ok tokens) (h' : tokenize mode other = .ok others)
    (hsub : (tokens.map Token.terminal).Sublist (others.map Token.terminal)) :
    text.toList.count '(' ≤ other.toList.count '(' ∧
      text.toList.count ')' ≤ other.toList.count ')' := by
  have hopenings : (openings text.toList).Sublist (openings other.toList) := by
    rw [openings_eq mode, openings_eq mode, ← map_terminal_of_tokensOfItems h,
      ← map_terminal_of_tokensOfItems h']
    exact (hsub.map _).filter _
  have hleft := hopenings.count_le 1
  have hright := hopenings.count_le (-1)
  rw [count_openings (by decide) charOpening_eq_one_iff,
    count_openings (by decide) charOpening_eq_one_iff] at hleft
  rw [count_openings (by decide) charOpening_eq_neg_one_iff,
    count_openings (by decide) charOpening_eq_neg_one_iff] at hright
  exact ⟨hleft, hright⟩

/-! ### The fewest parentheses -/

/-- The `!` of a text are among the tokens that are not parentheses. -/
theorem count_negation_terminal (tokens : List Token) :
    (tokens.map Token.terminal).count .negation =
      ((tokens.map Token.word).filter fun w => !w.1.isParenthesis).countP
        fun w => w.1 == .negation := by
  rw [List.countP_filter, List.countP_map, List.count, List.countP_map]
  refine List.countP_congr fun t _ => ?_
  obtain ⟨kind, text, position⟩ := t
  cases kind <;> simp [Token.word, Token.terminal, Terminal.ofKind, TokenKind.isParenthesis]

section

variable {ws : List Terminal} {t : Formula}

/-- From the text of a formula only parentheses and `!` are missing in its rendering. -/
theorem Spells.deletes_terminals (h : Spells Level.counted (.chain .or) ws t) :
    Deletes (fun w => w.kind.isParenthesisOrNegation) ws t.terminals := by
  have hparens (w : Terminal) (hw : w.isParenthesis = true) :
      w.kind.isParenthesisOrNegation = true := by
    rw [TokenKind.isParenthesisOrNegation, show w.kind.isParenthesis = true from hw, Bool.true_or]
  exact h.deletes hparens fun n => .replicate rfl (Level.counted_le n)

/-- Only parentheses are missing if all runs of `!` are short. -/
theorem Spells.deletes_parentheses (h : Spells Level.counted (.chain .or) ws t)
    (hshort : ShortRuns ws) : Deletes Terminal.isParenthesis ws t.terminals :=
  (h.spells_id_iff.mpr hshort).deletes (fun _ hw => hw) fun _ => .refl _

end

/-- A text and the rendering of the formula that was read from it can both be cut into tokens, those
of the one spell the formula and those of the other say it. -/
theorem exists_tokenize_of_parse {mode : LexMode} {text : String} {t : Formula}
    (h : parse mode text = .ok t) :
    ∃ tokens rendered, tokenize mode text = .ok tokens ∧ tokenize mode t.render = .ok rendered ∧
      Spells Level.counted (.chain .or) (tokens.map Token.terminal) t ∧
      rendered.map Token.terminal = t.terminals := by
  obtain ⟨tokens, htokens, hparse⟩ := parse_eq_ok_iff.mp h
  obtain ⟨rendered, hrendered, hterminals⟩ := exists_tokenize_render (lexable_of_parse h)
  exact ⟨tokens, rendered, htokens, hrendered, (parseTokens_eq_ok_iff_spells.mp hparse).1,
    hterminals⟩

/-- **A rendering has the fewest parentheses.** The tokens of the rendering of a formula that was
read from a text, each with its kind and its letters, are those of the text with nothing but
parentheses and `!` deleted: constants, names and connectives all remain, in their order. Nothing
but parentheses is deleted exactly if all runs of `!` in the text are short. And whatever the runs,
no text that is read as the formula has fewer parentheses than the rendering, be it of the one kind
or of the other. -/
theorem render_deletes_parentheses {mode : LexMode} {text : String} {t : Formula}
    (h : parse mode text = .ok t) :
    (∃ tokens rendered, tokenize mode text = .ok tokens ∧ tokenize mode t.render = .ok rendered ∧
      Deletes (fun w => w.1.isParenthesisOrNegation) (tokens.map Token.word)
        (rendered.map Token.word) ∧
      (Deletes (fun w => w.1.isParenthesis) (tokens.map Token.word) (rendered.map Token.word) ↔
        ShortRuns (tokens.map Token.terminal)) ∧
      (ShortRuns (tokens.map Token.terminal) →
        (rendered.map Token.word).filter (fun w => !w.1.isParenthesis) =
          (tokens.map Token.word).filter fun w => !w.1.isParenthesis)) ∧
    ∀ other, parse mode other = .ok t →
      t.render.toList.count '(' ≤ other.toList.count '(' ∧
        t.render.toList.count ')' ≤ other.toList.count ')' := by
  constructor
  · obtain ⟨tokens, rendered, htokens, hrendered, hspells, hterminals⟩ :=
      exists_tokenize_of_parse h
    have hwords := map_word_of_tokenize htokens
    have hwritten := map_word_of_tokenize hrendered
    rw [hterminals] at hwritten
    have hshort (hs : ShortRuns (tokens.map Token.terminal)) :
        Deletes (fun w => w.1.isParenthesis) (tokens.map Token.word)
          (rendered.map Token.word) := by
      rw [hwords, hwritten]
      exact (hspells.deletes_parentheses hs).map Terminal.word fun w =>
        congrArg TokenKind.isParenthesis w.fst_word
    refine ⟨tokens, rendered, htokens, hrendered, ?_, ⟨fun hdeletes => ?_, hshort⟩,
      fun hs => (hshort hs).filter_not_eq⟩
    · rw [hwords, hwritten]
      exact hspells.deletes_terminals.map Terminal.word fun w =>
        congrArg TokenKind.isParenthesisOrNegation w.fst_word
    · -- if only parentheses are missing, then no negation is
      have hcount := count_negation_terminal tokens
      rw [← hdeletes.filter_not_eq, ← count_negation_terminal, hterminals,
        count_negation_terminals] at hcount
      exact hspells.shortRuns hcount.le
  · intro other hother
    obtain ⟨tokens, rendered, htokens, hrendered, hspells, hterminals⟩ :=
      exists_tokenize_of_parse hother
    exact count_parentheses_le hrendered htokens (hterminals ▸ hspells.deletes_terminals.sublist)

/-- Groups that are not needed, of one name, of a group, and of a `|` in a `|`, beside one that is
needed. -/
theorem render_deletes_parentheses_of_groups :
    parse .permissive "!((a)) | ((b | T) | c) & !(d&e)" =
      .ok (join .or [neg (var "a"), join .and [join .or [var "b", const true, var "c"],
        neg (join .and [var "d", var "e"])]]) ∧
    (join .or [neg (var "a"), join .and [join .or [var "b", const true, var "c"],
        neg (join .and [var "d", var "e"])]]).render = "!a | (b | T | c) & !(d & e)" ∧
    "!a | (b | T | c) & !(d & e)".toList.count '(' ≤
      "!((a)) | ((b | T) | c) & !(d&e)".toList.count '(' := by
  have hparse : parse .permissive "!((a)) | ((b | T) | c) & !(d&e)" =
      .ok (join .or [neg (var "a"), join .and [join .or [var "b", const true, var "c"],
        neg (join .and [var "d", var "e"])]]) := by decide +kernel
  have hrender : (join .or [neg (var "a"), join .and [join .or [var "b", const true, var "c"],
      neg (join .and [var "d", var "e"])]]).render = "!a | (b | T | c) & !(d & e)" := by decide
  obtain ⟨-, hfewest⟩ := render_deletes_parentheses hparse
  obtain ⟨hleft, -⟩ := hfewest _ hparse
  rw [hrender] at hleft
  exact ⟨hparse, hrender, hleft⟩

/-- The shortest run that is miscounted, in front of a name. The name alone remains of the text, and
more is deleted than parentheses. -/
theorem render_of_long_run :
    parse .permissive (String.ofList (List.replicate (2 ^ 31) '!' ++ ['x'])) = .ok (var "x") ∧
    ∃ tokens rendered,
      tokenize .permissive (String.ofList (List.replicate (2 ^ 31) '!' ++ ['x'])) = .ok tokens ∧
      tokenize .permissive (var "x").render = .ok rendered ∧
      ¬ Deletes (fun w => w.1.isParenthesis) (tokens.map Token.word)
        (rendered.map Token.word) := by
  have hx : Lexable .permissive "x" := by decide
  -- the text is the rendering of the formula that it should be read as
  have hpieces : (parenthesized (var "x").needsParensNegated (var "x").pieces).flatMap
      Piece.text = ['x'] := by decide
  have htext := render_negated (needsParensNegated_negated (t := var "x") rfl (2 ^ 31))
  rw [hpieces] at htext
  have hnames : ∀ name ∈ ((var "x").negated (2 ^ 31)).occurrences, Lexable .permissive name := by
    rw [occurrences_negated]
    decide
  obtain ⟨tokens, htokens, hterminals⟩ := exists_tokenize_render hnames
  have hname : ∀ name ∈ (var "x").occurrences, Lexable .permissive name := by decide
  obtain ⟨rendered, hrendered, hwritten⟩ := exists_tokenize_render hname
  rw [← htext]
  refine ⟨parse_render_negated_of_le hx (Nat.le_refl _) (by decide), tokens, rendered, htokens,
    hrendered, fun hdeletes => ?_⟩
  have hcount := count_negation_terminal tokens
  rw [← hdeletes.filter_not_eq, ← count_negation_terminal, hterminals, hwritten,
    count_negation_terminals, count_negation_terminals, negationCount_negated,
    negationCount_var] at hcount
  omega

end Propositional
