import Propositional.Lexeme

/-!
# What can be wrong with a formula

A text is read in two steps, and each can fail: a character may belong to no token, and the tokens
may not form a formula. The second kind of fault is found at the first token that cannot stand where
it stands, or at the end if something is missing there.
-/

namespace Propositional

/-- The greatest number of parentheses that may be open at once. -/
def nestingLimit : Nat := 256

/-- What could have stood at the place of a fault. -/
inductive Expectation where
  /-- An operand: a variable, a constant, a negation or a group -/
  | operand
  /-- The end of a group -/
  | closing
  /-- A connective or the end of the text -/
  | ending
  deriving DecidableEq, Repr

/-- How messages describe what was expected. -/
def Expectation.describe : Expectation → String
  | operand => "a variable, a constant, `!`, or `(`"
  | closing => "`)`"
  | ending => "`&`, `|`, or end of input"

/-- What is wrong with a list of tokens. -/
inductive GrammarFault where
  /-- A token stands where it cannot stand -/
  | unexpectedToken (found : Token) (expected : Expectation)
  /-- The tokens end where something must follow -/
  | unexpectedEnd (expected : Expectation)
  /-- A group opens inside as many groups as may be open at once -/
  | nestingTooDeep (position : Nat)
  deriving DecidableEq, Repr

namespace GrammarFault

/-- The complaint about a fault in the tokens. -/
def message : GrammarFault → String
  | unexpectedToken found expected =>
    s!"unexpected {found.kind.describe} `{found.text}` at {found.position}, " ++
      s!"expected {expected.describe}"
  | unexpectedEnd expected => s!"unexpected end of input, expected {expected.describe}"
  | nestingTooDeep position =>
    s!"parentheses nested deeper than {nestingLimit} levels at {position}"

/-- The byte at which a fault stands, if it is not at the end. -/
def position? : GrammarFault → Option Nat
  | unexpectedToken found _ => some found.position
  | unexpectedEnd _ => none
  | nestingTooDeep position => some position

end GrammarFault

/-- What is wrong with a text that is no formula. -/
inductive Fault where
  /-- A character belongs to no token -/
  | lexical (s : StrayCharacter)
  /-- The tokens form no formula -/
  | grammatical (g : GrammarFault)
  deriving DecidableEq, Repr

/-- The complaint about a text that is no formula. -/
def Fault.message : Fault → String
  | lexical s => "failed to tokenize: " ++ s.message
  | grammatical g => "failed to parse: " ++ g.message

end Propositional
