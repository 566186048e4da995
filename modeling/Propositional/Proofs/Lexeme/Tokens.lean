import Propositional.Lexeme
import Propositional.Proofs.Grammar.Derivation

/-!
# What the tokens keep of a text

Between a text and its tokens stand the pieces, which keep everything. What the first of them can
be is said once (`Propositional.IsFirstPiece`), with one case for each kind of character that a text
can start with; all that follows about pieces, items and tokens goes back to it.

Two things about the text can be said of its tokens as well. The terminals that the grammar sees are
those of the pieces (`Propositional.exists_tokenize_eq_ok`), whatever the positions are; and the
tokens nest as deep as the parentheses in the text (`Propositional.nestsWithin_of_tokenize`),
because a parenthesis is a token wherever it stands and no other token has one in it.
-/

namespace Propositional

open Text

/-! ### Characters of names -/

theorem ofSign?_eq_none_iff {c : Char} :
    TokenKind.ofSign? c = none ↔ c ∉ ['(', ')', '!', '&', '|'] := by
  simp only [List.mem_cons, List.not_mem_nil, or_false, not_or]
  constructor
  · intro h
    refine ⟨?_, ?_, ?_, ?_, ?_⟩ <;> rintro rfl <;> cases h
  · rintro ⟨h₁, h₂, h₃, h₄, h₅⟩
    rw [TokenKind.ofSign?, if_neg h₁, if_neg h₂, if_neg h₃, if_neg h₄, if_neg h₅]

/-- The characters of a name are those that are no blank, no control and no sign. -/
theorem isNameChar_iff {c : Char} : isNameChar c = true ↔
    isBlank c = false ∧ isControl c = false ∧ c ∉ ['(', ')', '!', '&', '|'] := by
  rw [← ofSign?_eq_none_iff]
  simp only [isNameChar, isDelimiter, Bool.and_eq_true, Bool.not_eq_true', Bool.or_eq_false_iff,
    Option.isSome_eq_false_iff, Option.isNone_iff_eq_none]
  constructor
  · rintro ⟨⟨hblank, hsign⟩, hcontrol⟩
    exact ⟨hblank, hcontrol, hsign⟩
  · rintro ⟨hblank, hcontrol, hsign⟩
    exact ⟨⟨hblank, hsign⟩, hcontrol⟩

/-- All characters of a name are characters that can stand in one. -/
theorem isNameChar_of_mem_name {c : Char} {cs : List Char} (hc : isNameChar c = true) :
    ∀ d ∈ c :: cs.takeWhile isNameChar, isNameChar d = true :=
  List.forall_mem_cons.mpr ⟨hc, fun d hd => List.all_eq_true.mp List.all_takeWhile d hd⟩

/-- What follows a name does not go on with it. -/
theorem isNameChar_head?_dropWhile {cs : List Char} :
    ∀ d ∈ (cs.dropWhile isNameChar).head?, isNameChar d = false := by
  intro d hd
  have hstop := List.head?_dropWhile_not isNameChar cs
  rwa [Option.mem_def.mp hd] at hstop

/-- A name ends where no character of a name follows. -/
theorem takeWhile_isNameChar {cs rest : List Char} (hcs : ∀ c ∈ cs, isNameChar c = true)
    (hrest : ∀ d ∈ rest.head?, isNameChar d = false) :
    (cs ++ rest).takeWhile isNameChar = cs ∧ (cs ++ rest).dropWhile isNameChar = rest := by
  rw [List.takeWhile_append_of_pos hcs, List.dropWhile_append_of_pos hcs]
  cases rest with
  | nil => simp
  | cons d rest =>
    have hd : isNameChar d = false := hrest d rfl
    simp [hd]

theorem eq_or_eq_of_constant? {c : Char} {b : Bool} (h : constant? c = some b) :
    c = 'T' ∨ c = 'F' := by
  by_contra hc
  rw [not_or] at hc
  rw [constant?, if_neg hc.1, if_neg hc.2] at h
  cases h

theorem constant?_eq_none_iff {c : Char} : constant? c = none ↔ c ≠ 'T' ∧ c ≠ 'F' := by
  constructor
  · intro h
    refine ⟨?_, ?_⟩ <;> rintro rfl <;> cases h
  · rintro ⟨hT, hF⟩
    rw [constant?, if_neg hT, if_neg hF]

theorem isNameChar_of_constant? {c : Char} {b : Bool} (h : constant? c = some b) :
    isNameChar c = true := by
  rcases eq_or_eq_of_constant? h with rfl | rfl <;> decide

/-- Whether a token is a sign, which always stands alone. -/
def TokenKind.isSign : TokenKind → Bool
  | name | const _ => false
  | leftParen | rightParen | negation | connective _ => true

theorem isSign_of_ofSign? {c : Char} {kind : TokenKind} (h : TokenKind.ofSign? c = some kind) :
    kind.isSign = true := by
  revert h
  unfold TokenKind.ofSign?
  repeat' split
  all_goals rintro ⟨⟩
  all_goals rfl

/-- A sign is neither a blank nor a control. -/
theorem isBlank_isControl_of_ofSign? {c : Char} {kind : TokenKind}
    (h : TokenKind.ofSign? c = some kind) : isBlank c = false ∧ isControl c = false := by
  have hmem : c ∈ ['(', ')', '!', '&', '|'] := by
    by_contra hc
    rw [ofSign?_eq_none_iff.mpr hc] at h
    cases h
  revert hmem
  simp only [List.mem_cons, List.not_mem_nil, or_false]
  rintro (rfl | rfl | rfl | rfl | rfl) <;> decide

/-- A control is neither a sign nor the letter of a constant. -/
theorem ofSign?_constant?_of_isControl {c : Char} (h : isControl c = true) :
    TokenKind.ofSign? c = none ∧ constant? c = none := by
  constructor <;> rw [Option.eq_none_iff_forall_ne_some]
  · intro kind hkind
    rw [(isBlank_isControl_of_ofSign? hkind).2] at h
    cases h
  · intro b hb
    rw [(isNameChar_iff.mp (isNameChar_of_constant? hb)).2.1] at h
    cases h

/-! ### First pieces -/

/-- **What the first piece of a text can be**, by the character that the text starts with and what
comes after it, and what remains behind the piece. -/
inductive IsFirstPiece (mode : LexMode) : Char → List Char → Piece → List Char → Prop
  /-- A blank stands alone. -/
  | blank {c cs} (h : isBlank c = true) : IsFirstPiece mode c cs (.blank c) cs
  /-- A sign stands alone. -/
  | sign {c cs kind} (h : TokenKind.ofSign? c = some kind) :
      IsFirstPiece mode c cs (.token kind [c]) cs
  /-- The letter of a constant is one if the mode or what follows says so. -/
  | const {c cs b} (h : constant? c = some b)
      (hmode : mode = .strict ∨ startsDelimited cs = true) :
      IsFirstPiece mode c cs (.token (.const b) [c]) cs
  /-- A name goes on as far as it can. -/
  | name {c cs} (h : isNameChar c = true)
      (hmode : constant? c = none ∨ mode = .permissive ∧ startsDelimited cs = false) :
      IsFirstPiece mode c cs (.token .name (c :: cs.takeWhile isNameChar)) (cs.dropWhile isNameChar)
  /-- A control that is no blank stands alone. -/
  | stray {c cs} (hblank : isBlank c = false) (h : isControl c = true) :
      IsFirstPiece mode c cs (.stray c) cs

theorem isFirstPiece_firstPiece (mode : LexMode) (c : Char) (cs : List Char) :
    IsFirstPiece mode c cs (firstPiece mode c cs).1 (firstPiece mode c cs).2 := by
  unfold firstPiece
  split
  next hblank => exact .blank hblank
  next hblank =>
    split
    next kind hkind => exact .sign hkind
    next hsign =>
      split
      next b hb =>
        split
        next hmode => exact .const hb hmode
        next hmode =>
          rw [not_or, Bool.not_eq_true] at hmode
          have hpermissive : mode = .permissive := by
            cases mode with
            | permissive => rfl
            | strict => exact absurd rfl hmode.1
          exact .name (isNameChar_of_constant? hb) (.inr ⟨hpermissive, hmode.2⟩)
      next hnone =>
        rw [Bool.not_eq_true] at hblank
        split
        next hcontrol => exact .stray hblank hcontrol
        next hcontrol =>
          refine .name ?_ (.inl hnone)
          simp [isNameChar, isDelimiter, hblank, hsign, hcontrol]

/-- **The first piece is the one that it can be.** -/
theorem IsFirstPiece.firstPiece_eq {mode : LexMode} {c : Char} {cs rest : List Char} {p : Piece}
    (h : IsFirstPiece mode c cs p rest) : firstPiece mode c cs = (p, rest) := by
  unfold firstPiece
  cases h with
  | blank h => rw [if_pos h]
  | sign h =>
    obtain ⟨hblank, -⟩ := isBlank_isControl_of_ofSign? h
    rw [if_neg (by simp [hblank]), h]
  | const h hmode =>
    obtain ⟨hblank, -, hsign⟩ := isNameChar_iff.mp (isNameChar_of_constant? h)
    rw [if_neg (by simp [hblank]), ofSign?_eq_none_iff.mpr hsign, h]
    exact if_pos hmode
  | name h hmode =>
    obtain ⟨hblank, hcontrol, hsign⟩ := isNameChar_iff.mp h
    rw [if_neg (by simp [hblank]), ofSign?_eq_none_iff.mpr hsign]
    rcases hmode with hnone | ⟨hpermissive, hdelimited⟩
    · rw [hnone]
      exact if_neg (by simp [hcontrol])
    · cases hc : constant? c with
      | none => exact if_neg (by simp [hcontrol])
      | some b => exact if_neg (by simp [hpermissive, hdelimited])
  | stray hblank h =>
    obtain ⟨hsign, hnone⟩ := ofSign?_constant?_of_isControl h
    rw [if_neg (by simp [hblank]), hsign, hnone]
    exact if_pos h

/-! ### Terminals -/

/-- Whether a piece is a stray character. -/
def Piece.isStray : Piece → Bool
  | stray _ => true
  | _ => false

/-- The terminal that a piece is to the grammar, unless it is none. -/
def Piece.terminal? : Piece → Option Terminal
  | token kind text => some (.ofKind kind (String.ofList text))
  | _ => none

/-- The terminal that an item is to the grammar, unless it is a stray character. -/
def Item.terminal? : Item → Option Terminal
  | token t => some t.terminal
  | stray _ => none

/-- Items that give tokens are these tokens and nothing else. -/
theorem tokensOfItems_eq_ok_iff {found : List Item} {tokens : List Token} :
    tokensOfItems found = .ok tokens ↔ found = tokens.map .token := by
  induction found generalizing tokens with
  | nil => cases tokens <;> simp [tokensOfItems]
  | cons i found ih =>
    cases i with
    | stray s => cases tokens <;> simp [tokensOfItems]
    | token t =>
      rw [tokensOfItems]
      cases tokens with
      | nil => cases tokensOfItems found <;> simp [Except.map]
      | cons u tokens =>
        rw [List.map_cons, List.cons.injEq, Item.token.injEq, ← ih]
        cases tokensOfItems found <;> simp [Except.map]

/-- A stray character among pieces is one among their items. -/
theorem exists_stray_mem_itemsFrom {ps : List Piece} {p : Piece} (hp : p ∈ ps)
    (h : p.isStray = true) (position : Nat) : ∃ s, .stray s ∈ itemsFrom position ps := by
  induction ps generalizing position with
  | nil => cases hp
  | cons q ps ih =>
    rw [itemsFrom_cons]
    rcases List.mem_cons.mp hp with rfl | hmem
    · cases p with
      | stray c => exact ⟨⟨c, position⟩, List.mem_cons_self ..⟩
      | _ => cases h
    · obtain ⟨s, hs⟩ := ih hmem (position + byteSize q.text)
      exact ⟨s, List.mem_append_right _ hs⟩

/-- Pieces that give tokens have no stray character among them. -/
theorem isStray_eq_false_of_tokensOfItems {ps : List Piece} {position : Nat} {tokens : List Token}
    (h : tokensOfItems (itemsFrom position ps) = .ok tokens) : ∀ p ∈ ps, p.isStray = false := by
  intro p hp
  by_contra hstray
  obtain ⟨s, hs⟩ := exists_stray_mem_itemsFrom hp (by simpa using hstray) position
  rw [tokensOfItems_eq_ok_iff.mp h] at hs
  simp at hs

/-- Pieces without a stray character give tokens. -/
theorem exists_tokensOfItems {ps : List Piece} (h : ∀ p ∈ ps, p.isStray = false) (position : Nat) :
    ∃ tokens, tokensOfItems (itemsFrom position ps) = .ok tokens := by
  induction ps generalizing position with
  | nil => exact ⟨[], rfl⟩
  | cons p ps ih =>
    obtain ⟨hp, hps⟩ := List.forall_mem_cons.mp h
    obtain ⟨tokens, htokens⟩ := ih hps (position + byteSize p.text)
    cases p with
    | blank c => exact ⟨tokens, htokens⟩
    | token kind text =>
      refine ⟨⟨kind, String.ofList text, position⟩ :: tokens, ?_⟩
      rw [tokensOfItems_eq_ok_iff] at htokens ⊢
      rw [itemsFrom_cons, htokens]
      rfl
    | stray c => cases hp

/-- The terminals of items are those of the pieces that they come from. -/
theorem filterMap_terminal?_itemsFrom (position : Nat) (ps : List Piece) :
    (itemsFrom position ps).filterMap Item.terminal? = ps.filterMap Piece.terminal? := by
  induction ps generalizing position with
  | nil => rfl
  | cons p ps ih =>
    rw [itemsFrom_cons, List.filterMap_append, ih]
    cases p <;> rfl

/-- The terminals of the tokens are those of the pieces. -/
theorem map_terminal_of_tokensOfItems {ps : List Piece} {position : Nat} {tokens : List Token}
    (h : tokensOfItems (itemsFrom position ps) = .ok tokens) :
    tokens.map Token.terminal = ps.filterMap Piece.terminal? := by
  rw [← filterMap_terminal?_itemsFrom position ps, tokensOfItems_eq_ok_iff.mp h,
    List.filterMap_map]
  exact (congrFun List.filterMap_eq_map tokens).symm

/-- **The tokens of a text without stray characters** are to the grammar what its pieces are. -/
theorem exists_tokenize_eq_ok {mode : LexMode} {text : String}
    (h : ∀ p ∈ pieces mode text.toList, p.isStray = false) :
    ∃ tokens, tokenize mode text = .ok tokens ∧
      tokens.map Token.terminal = (pieces mode text.toList).filterMap Piece.terminal? := by
  obtain ⟨tokens, htokens⟩ := exists_tokensOfItems h 0
  exact ⟨tokens, htokens, map_terminal_of_tokensOfItems htokens⟩

/-! ### Parentheses -/

/-- How a character changes the number of parentheses that are open. -/
def charOpening (c : Char) : Int :=
  if c = '(' then 1 else if c = ')' then -1 else 0

/-- A character opens and closes groups as the sign that it is. -/
theorem charOpening_eq (c : Char) :
    charOpening c = ((TokenKind.ofSign? c).map TokenKind.opening).getD 0 := by
  by_cases hopen : c = '('
  · rw [hopen]
    rfl
  by_cases hclose : c = ')'
  · rw [hclose]
    rfl
  rw [charOpening, if_neg hopen, if_neg hclose, TokenKind.ofSign?, if_neg hopen, if_neg hclose]
  split
  · rfl
  split
  · rfl
  split <;> rfl

theorem charOpening_of_ofSign? {c : Char} (h : TokenKind.ofSign? c = none) : charOpening c = 0 := by
  rw [charOpening_eq, h]
  rfl

theorem charOpening_of_isBlank {c : Char} (h : isBlank c = true) : charOpening c = 0 := by
  have hopen : c ≠ '(' := by
    rintro rfl
    exact absurd h (by decide)
  have hclose : c ≠ ')' := by
    rintro rfl
    exact absurd h (by decide)
  rw [charOpening, if_neg hopen, if_neg hclose]

theorem charOpening_of_isNameChar {c : Char} (h : isNameChar c = true) : charOpening c = 0 :=
  charOpening_of_ofSign? (ofSign?_eq_none_iff.mpr (isNameChar_iff.mp h).2.2)

/-- The parentheses of a text, each as the change that it makes. -/
def openings (cs : List Char) : List Int :=
  (cs.map charOpening).filter (· ≠ 0)

theorem openings_append (cs ds : List Char) : openings (cs ++ ds) = openings cs ++ openings ds := by
  simp [openings]

/-- There is no parenthesis in a name. -/
theorem openings_name {c : Char} {cs : List Char} (h : isNameChar c = true) :
    openings (c :: cs.takeWhile isNameChar) = [] := by
  refine List.filter_eq_nil_iff.mpr fun change hchange => ?_
  obtain ⟨d, hd, rfl⟩ := List.mem_map.mp hchange
  simp [charOpening_of_isNameChar (isNameChar_of_mem_name h d hd)]

/-- **A parenthesis is a token wherever it stands**, and no other token has one in it. -/
theorem IsFirstPiece.openings_text {mode : LexMode} {c : Char} {cs rest : List Char} {p : Piece}
    (h : IsFirstPiece mode c cs p rest) :
    openings p.text = (p.terminal?.toList.map Terminal.opening).filter (· ≠ 0) := by
  cases h with
  | blank h => simp [openings, Piece.text, Piece.terminal?, charOpening_of_isBlank h]
  | sign h => simp [openings, Piece.text, Piece.terminal?, charOpening_eq, h, Terminal.opening]
  | const h =>
    have hzero := charOpening_of_isNameChar (isNameChar_of_constant? h)
    simp [openings, Piece.text, Piece.terminal?, hzero, Terminal.ofKind]
  | name h => exact openings_name h
  | stray hblank h =>
    have hzero := charOpening_of_ofSign? (ofSign?_constant?_of_isControl h).1
    simp [openings, Piece.text, Piece.terminal?, hzero]

/-- The parentheses of a text are those of its pieces. -/
theorem openings_eq (mode : LexMode) (cs : List Char) : openings cs =
    (((pieces mode cs).filterMap Piece.terminal?).map Terminal.opening).filter (· ≠ 0) := by
  fun_induction pieces mode cs with
  | case1 => rfl
  | case2 c cs ih =>
    have hfirst := (isFirstPiece_firstPiece mode c cs).openings_text
    rw [← text_firstPiece mode c cs, openings_append, ih, hfirst]
    cases hp : (firstPiece mode c cs).1.terminal? with
    | none =>
      rw [List.filterMap_cons_none hp]
      rfl
    | some w =>
      rw [List.filterMap_cons_some hp, List.map_cons, ← List.singleton_append, List.filter_append]
      rfl

/-- **The tokens of a text nest as deep as its parentheses.** -/
theorem nestsWithin_of_tokenize {mode : LexMode} {text : String} {tokens : List Token} {limit : Int}
    (h : tokenize mode text = .ok tokens) :
    NestsWithin limit (tokens.map fun token => token.kind.opening) ↔
      NestsWithin limit (text.toList.map charOpening) := by
  have hopening : (tokens.map fun token => token.kind.opening) =
      (tokens.map Token.terminal).map Terminal.opening := by
    simp [Terminal.opening, Function.comp_def]
  have heq := openings_eq mode text.toList
  rw [← map_terminal_of_tokensOfItems h, ← hopening] at heq
  rw [← nestsWithin_filter_ne_zero, ← heq, openings, nestsWithin_filter_ne_zero]

end Propositional
