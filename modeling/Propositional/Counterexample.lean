import Propositional.Evaluation

/-!
# Telling formulas apart

Two formulas are equivalent if no assignment of all their variables gives them different values. The
search for such an assignment tries `false` before `true` and varies the variable found last
fastest, so that the assignment it finds first is the least one. It writes all its trials into one
assignment: what a trial that came to nothing has set stays set until a later trial sets it anew.
-/

namespace Propositional

/-- **The search for an assignment** with the wanted property by setting the given variables,
`false` before `true`, the first variable outermost. The answer says whether one was found, and what
the assignment has become: what was found, or else what the last trial has left. -/
def Assignment.search (wanted : Assignment → Bool) : List String → Assignment → Bool × Assignment
  | [], s => (wanted s, s)
  | name :: names, s =>
    let tried := search wanted names (s.set name false)
    if tried.1 then tried else search wanted names (tried.2.set name true)

namespace Formula

/-- The variables of two formulas, those of the first one before the others, each once. -/
def namesOfBoth (a b : Formula) : List String :=
  (a.occurrences ++ b.occurrences).eraseDups

/-- **The first assignment** of the variables of both formulas under which these have different
values, if there is one. -/
def counterexample (a b : Formula) : Option Assignment :=
  let tried := Assignment.search (fun s => a.evaluate s != b.evaluate s) (namesOfBoth a b)
    (.empty false)
  if tried.1 then some tried.2 else none

/-- Whether two formulas have the same value under every assignment of their variables. -/
def equivalent (a b : Formula) : Bool :=
  (counterexample a b).isNone

end Formula

end Propositional
