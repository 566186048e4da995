import Propositional.Text.Character
import Propositional.Text.Quoted
import Propositional.Token

/-!
# Cutting a text into tokens

A text falls into *pieces*: single blanks, tokens, and stray characters, which are the controls that
belong to no token. Nothing is lost in the cut (`Propositional.flatMap_text_pieces`), so that pieces
know the text they come from and their positions follow by adding up their sizes. What a reader of
formulas wants to see of the pieces are the *items*: the tokens and the stray characters with their
positions, without the blanks.

A sign is a token by itself. A name runs as far as it can, up to a blank, a sign or a control. Only
the letters `T` and `F` need care: whether one of them at the start of a token is a constant or the
first letter of a name depends on the mode (`Propositional.LexMode`).
-/

namespace Propositional

open Text

/-- How to read a `T` or `F` with which a token starts. -/
inductive LexMode where
  /-- A constant only if a blank, a sign or the end of the text follows -/
  | permissive
  /-- Always a constant -/
  | strict
  deriving DecidableEq, Repr

/-- Whether a character separates names: a blank or a sign. -/
def isDelimiter (c : Char) : Bool :=
  isBlank c || (TokenKind.ofSign? c).isSome

/-- Whether a character can stand in a name. -/
def isNameChar (c : Char) : Bool :=
  !isDelimiter c && !isControl c

/-- Whether a text is at its end or starts with a delimiter. -/
def startsDelimited : List Char → Bool
  | [] => true
  | c :: _ => isDelimiter c

/-! ### Pieces -/

/-- A piece of a text. -/
inductive Piece where
  /-- A blank, which separates tokens -/
  | blank (c : Char)
  /-- A token of the given kind, as it is written -/
  | token (kind : TokenKind) (text : List Char)
  /-- A control, which belongs to no token -/
  | stray (c : Char)
  deriving DecidableEq, Repr

/-- The characters of a piece. -/
def Piece.text : Piece → List Char
  | blank c => [c]
  | token _ text => text
  | stray c => [c]

/-- **The first piece** of a text that starts with the character `c` and goes on with `cs`, and the
rest of the text. -/
def firstPiece (mode : LexMode) (c : Char) (cs : List Char) : Piece × List Char :=
  if isBlank c then (.blank c, cs)
  else
    match TokenKind.ofSign? c with
    | some kind => (.token kind [c], cs)
    | none =>
      match constant? c with
      | some b =>
        if mode = .strict ∨ startsDelimited cs then (.token (.const b) [c], cs)
        else (.token .name (c :: cs.takeWhile isNameChar), cs.dropWhile isNameChar)
      | none =>
        if isControl c then (.stray c, cs)
        else (.token .name (c :: cs.takeWhile isNameChar), cs.dropWhile isNameChar)

/-- The first piece and the rest make up the text. -/
theorem text_firstPiece (mode : LexMode) (c : Char) (cs : List Char) :
    (firstPiece mode c cs).1.text ++ (firstPiece mode c cs).2 = c :: cs := by
  unfold firstPiece
  repeat' split
  all_goals simp [Piece.text, List.takeWhile_append_dropWhile]

/-- A piece is never empty. -/
theorem text_firstPiece_ne_nil (mode : LexMode) (c : Char) (cs : List Char) :
    (firstPiece mode c cs).1.text ≠ [] := by
  unfold firstPiece
  repeat' split
  all_goals simp [Piece.text]

/-- What remains after the first piece is shorter than the text. -/
theorem length_firstPiece_lt (mode : LexMode) (c : Char) (cs : List Char) :
    (firstPiece mode c cs).2.length < (c :: cs).length := by
  have h := congrArg List.length (text_firstPiece mode c cs)
  have hpos := List.length_pos_iff.mpr (text_firstPiece_ne_nil mode c cs)
  rw [List.length_append] at h
  omega

/-- The pieces of a text, in order. -/
def pieces (mode : LexMode) : List Char → List Piece
  | [] => []
  | c :: cs => (firstPiece mode c cs).1 :: pieces mode (firstPiece mode c cs).2
termination_by cs => cs.length
decreasing_by exact length_firstPiece_lt mode c cs

@[simp] theorem pieces_nil (mode : LexMode) : pieces mode [] = [] := by
  rw [pieces]

theorem pieces_cons (mode : LexMode) (c : Char) (cs : List Char) :
    pieces mode (c :: cs) = (firstPiece mode c cs).1 :: pieces mode (firstPiece mode c cs).2 := by
  rw [pieces]

/-- **Nothing is lost**: the pieces of a text, one after the other, are the text. -/
theorem flatMap_text_pieces (mode : LexMode) (cs : List Char) :
    (pieces mode cs).flatMap Piece.text = cs := by
  fun_induction pieces mode cs with
  | case1 => rfl
  | case2 c cs ih => rw [List.flatMap_cons, ih, text_firstPiece]

/-! ### Items -/

/-- A character that belongs to no token, and the byte at which it stands. -/
structure StrayCharacter where
  /-- The character -/
  character : Char
  /-- The number of bytes in front of it -/
  position : Nat
  deriving DecidableEq, Repr

/-- The complaint about a stray character. -/
def StrayCharacter.message (s : StrayCharacter) : String :=
  s!"unexpected character {quotedChar s.character} at {s.position}"

/-- What a reader sees of a text: a token or a stray character. -/
inductive Item where
  /-- A token -/
  | token (t : Token)
  /-- A character that belongs to no token -/
  | stray (s : StrayCharacter)
  deriving DecidableEq, Repr

/-- The item that a piece at the given position is, unless it is a blank. -/
def Piece.item? (position : Nat) : Piece → Option Item
  | blank _ => none
  | token kind text => some (.token ⟨kind, String.ofList text, position⟩)
  | stray c => some (.stray ⟨c, position⟩)

/-- The items among pieces the first of which stands at the given position. -/
def itemsFrom (position : Nat) : List Piece → List Item
  | [] => []
  | p :: ps => (p.item? position).toList ++ itemsFrom (position + byteSize p.text) ps

@[simp] theorem itemsFrom_nil (position : Nat) : itemsFrom position [] = [] := rfl

@[simp] theorem itemsFrom_cons (position : Nat) (p : Piece) (ps : List Piece) :
    itemsFrom position (p :: ps) =
      (p.item? position).toList ++ itemsFrom (position + byteSize p.text) ps := rfl

/-- The items of two runs of pieces, the second of which starts where the first one ends. -/
theorem itemsFrom_append (position : Nat) (ps qs : List Piece) :
    itemsFrom position (ps ++ qs) =
      itemsFrom position ps ++ itemsFrom (position + byteSize (ps.flatMap Piece.text)) qs := by
  induction ps generalizing position with
  | nil => simp
  | cons p ps ih => simp [ih, Nat.add_assoc]

/-- **The items of a text**: its tokens and stray characters, in order, with their positions. -/
def items (mode : LexMode) (text : String) : List Item :=
  itemsFrom 0 (pieces mode text.toList)

/-- The tokens of a list of items, or the first stray character among them. -/
def tokensOfItems : List Item → Except StrayCharacter (List Token)
  | [] => .ok []
  | .token t :: rest => (tokensOfItems rest).map (t :: ·)
  | .stray s :: _ => .error s

/-- **The tokens of a text**, or the first character that belongs to none. -/
def tokenize (mode : LexMode) (text : String) : Except StrayCharacter (List Token) :=
  tokensOfItems (items mode text)

end Propositional
