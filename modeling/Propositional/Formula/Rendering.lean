import Propositional.Formula.Shape
import Propositional.Lexeme

/-!
# Rendering

A formula is written with the signs in which it can be read, a space on both sides of every
connective, and parentheses only where the order of precedence asks for them: around a disjunction
among the terms of a conjunction, and around any join behind a negation. The terms of a disjunction
never need them, nor do the terms of a conjunction that are conjunctions themselves.

The rendering is first a list of pieces (`Propositional.Formula.pieces`), so that its tokens are
known before a text is made of them.
-/

namespace Propositional.Formula

/-- The piece that a sign is. -/
def signPiece (kind : TokenKind) (c : Char) : Piece :=
  .token kind [c]

/-- A connective between two spaces. -/
def separator (op : Connective) : List Piece :=
  [.blank ' ', signPiece (.connective op) op.symbol, .blank ' ']

/-- Pieces in parentheses if these are needed. -/
def parenthesized (needed : Bool) (ps : List Piece) : List Piece :=
  if needed then signPiece .leftParen '(' :: ps ++ [signPiece .rightParen ')'] else ps

/-- Whether a term needs parentheses in a join of the connective `op`. -/
def needsParensIn (op : Connective) (t : Formula) : Bool :=
  op == .and && t.isJoin .or

/-- Whether an operand needs parentheses behind a negation. -/
def needsParensNegated (t : Formula) : Bool :=
  t.isJoin .or || t.isJoin .and

mutual

/-- The pieces of a formula's rendering. -/
def pieces : Formula → List Piece
  | const b => [signPiece (.const b) (constantLetter b)]
  | var name => [.token .name name.toList]
  | neg t => signPiece .negation '!' :: parenthesized t.needsParensNegated (pieces t)
  | join op ts => (separator op).intercalate (piecesOfTerms op ts)

/-- The pieces of each term of a join of the connective `op`. -/
def piecesOfTerms (op : Connective) : List Formula → List (List Piece)
  | [] => []
  | t :: ts => parenthesized (t.needsParensIn op) (pieces t) :: piecesOfTerms op ts

end

theorem piecesOfTerms_eq_map (op : Connective) (ts : List Formula) :
    piecesOfTerms op ts = ts.map fun t => parenthesized (t.needsParensIn op) (pieces t) := by
  induction ts with
  | nil => rfl
  | cons t ts ih => simp [piecesOfTerms, ih]

/-- **The rendering of a formula**, with as few parentheses as precedence allows. -/
def render (t : Formula) : String :=
  String.ofList (t.pieces.flatMap Piece.text)

end Propositional.Formula
