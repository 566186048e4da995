import Propositional.Fault
import Propositional.Formula.Construction

/-!
# Reading tokens

A formula is a chain of operands joined by `|`, each of them a chain joined by `&`, each operand of
which is a constant, a variable or a group in parentheses behind any number of `!`. The reader takes
the tokens one at a time, from left to right, and keeps what it has not finished yet: for the text
as a whole and for every open group a *level*, holding the finished operands of the two chains and
the `!` that wait for an operand. So the nesting of groups is a list of levels and nothing is ever
read twice, and a token is refused exactly at the place where no formula can go on with it.

The `!` that wait are only counted, in a signed number of 32 bits that goes on below zero once it is
full, and an operand becomes as many negations as the count then says, none if it is negative. A run
of `2 ^ 31` times `!` is therefore read without a fault and leaves no negation behind.
-/

namespace Propositional

/-- The chains that are being read between two parentheses, or in the text as a whole. The lists
have their newest member first. -/
structure Level where
  /-- The finished operands of the chain of `|` -/
  disjuncts : List Formula
  /-- The finished operands of the chain of `&` that is the next operand of `|` -/
  conjuncts : List Formula
  /-- The number of `!` in front of the operand that comes next, counted with 32 bits and a sign -/
  negations : Int32
  deriving DecidableEq

namespace Level

/-- The level at the start of a text or a group. -/
def start : Level := ⟨[], [], 0⟩

/-- One more `!` in front of the next operand. -/
def negate (l : Level) : Level :=
  { l with negations := l.negations + 1 }

/-- The level once its next operand has been read. A count below zero stands for no negations. -/
def supply (l : Level) (t : Formula) : Level :=
  ⟨l.disjuncts, t.negated l.negations.toNatClampNeg :: l.conjuncts, 0⟩

/-- The chain of `&` that has just come to its end. -/
def conjunction (l : Level) : Formula :=
  .combine .and l.conjuncts.reverse

/-- The level after a connective: behind `&` its chain goes on, behind `|` the next one starts. -/
def extend (l : Level) : Connective → Level
  | .and => l
  | .or => ⟨l.conjunction :: l.disjuncts, [], 0⟩

/-- The formula that a level has become at its end. -/
def result (l : Level) : Formula :=
  .combine .or (l.conjunction :: l.disjuncts).reverse

end Level

/-- **How far a text has been read.** The levels of the open groups around the innermost one are
kept from the inside to the outside. -/
inductive Progress where
  /-- An operand must come next -/
  | wanting (level : Level) (outer : List Level)
  /-- An operand has just been read -/
  | complete (level : Level) (outer : List Level)
  deriving DecidableEq

namespace Progress

/-- Nothing has been read yet. -/
def start : Progress := wanting .start []

/-- What ends a group if one is open, and else the text. -/
def expectedEnd : List Level → Expectation
  | [] => .ending
  | _ :: _ => .closing

/-- **One token further**, or the fault that the token is. -/
def step : Progress → Token → Except GrammarFault Progress
  | wanting level outer, token =>
    match token.kind with
    | .const b => .ok (complete (level.supply (.const b)) outer)
    | .name => .ok (complete (level.supply (.var token.text)) outer)
    | .negation => .ok (wanting level.negate outer)
    | .leftParen =>
      if outer.length = nestingLimit then .error (.nestingTooDeep token.position)
      else .ok (wanting .start (level :: outer))
    | .rightParen => .error (.unexpectedToken token .operand)
    | .connective _ => .error (.unexpectedToken token .operand)
  | complete level outer, token =>
    match token.kind with
    | .connective op => .ok (wanting (level.extend op) outer)
    | .rightParen =>
      match outer with
      | [] => .error (.unexpectedToken token .ending)
      | around :: outer => .ok (complete (around.supply level.result) outer)
    | _ => .error (.unexpectedToken token (expectedEnd outer))

/-- The formula that has been read at the end of the tokens, or what is missing there. -/
def finish : Progress → Except GrammarFault Formula
  | wanting _ _ => .error (.unexpectedEnd .operand)
  | complete level [] => .ok level.result
  | complete _ (_ :: _) => .error (.unexpectedEnd .closing)

/-- All tokens further. -/
def run (p : Progress) (tokens : List Token) : Except GrammarFault Progress :=
  tokens.foldlM step p

@[simp] theorem run_nil (p : Progress) : p.run [] = .ok p := rfl

@[simp] theorem run_cons (p : Progress) (token : Token) (tokens : List Token) :
    p.run (token :: tokens) = (p.step token).bind fun q => q.run tokens := rfl

/-- Reading two lists of tokens one after the other is reading them as one list. -/
theorem run_append (p : Progress) (tokens more : List Token) :
    p.run (tokens ++ more) = (p.run tokens).bind fun q => q.run more := by
  unfold run
  rw [List.foldlM_append]
  rfl

end Progress

/-- **The formula that a list of tokens spells**, or the first fault in it. -/
def parseTokens (tokens : List Token) : Except GrammarFault Formula :=
  (Progress.start.run tokens).bind Progress.finish

/-- **The formula that a text spells**, or what is wrong with it. A stray character anywhere in the
text comes before every fault in the tokens. -/
def parse (mode : LexMode) (text : String) : Except Fault Formula :=
  match tokenize mode text with
  | .error s => .error (.lexical s)
  | .ok tokens => (parseTokens tokens).mapError .grammatical

end Propositional
