import Propositional.Connective

/-!
# Tokens

The words and signs of a formula. Five characters are signs and always stand alone: the two
parentheses, `!`, `&` and `|`. Everything else is a name, or one of the two constants.
-/

namespace Propositional

/-- What a token is. -/
inductive TokenKind where
  /-- The name of a variable -/
  | name
  /-- The constant `T` or `F` -/
  | const (value : Bool)
  /-- `(` -/
  | leftParen
  /-- `)` -/
  | rightParen
  /-- `!` -/
  | negation
  /-- `&` or `|` -/
  | connective (op : Connective)
  deriving DecidableEq, Repr

namespace TokenKind

/-- The kind of token that a character is by itself, if it is one of the five signs. -/
def ofSign? (c : Char) : Option TokenKind :=
  if c = '(' then some leftParen
  else if c = ')' then some rightParen
  else if c = '!' then some negation
  else if c = '&' then some (connective .and)
  else if c = '|' then some (connective .or)
  else none

/-- The name of a kind in messages. -/
def describe : TokenKind → String
  | name => "variable"
  | const true => "true constant"
  | const false => "false constant"
  | leftParen => "left parenthesis"
  | rightParen => "right parenthesis"
  | negation => "negation"
  | connective .and => "conjunction"
  | connective .or => "disjunction"

end TokenKind

/-- A token as it was found: its kind, its text, and the byte at which the text starts. -/
structure Token where
  /-- What the token is -/
  kind : TokenKind
  /-- How it is written -/
  text : String
  /-- The number of bytes in front of it -/
  position : Nat
  deriving DecidableEq, Repr

/-- The constant that a character stands for. -/
def constant? (c : Char) : Option Bool :=
  if c = 'T' then some true else if c = 'F' then some false else none

/-- The letter of a constant. -/
def constantLetter (b : Bool) : Char :=
  if b then 'T' else 'F'

@[simp] theorem constant?_constantLetter (b : Bool) : constant? (constantLetter b) = some b := by
  cases b <;> rfl

end Propositional
