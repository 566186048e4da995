import Propositional.Formula.Basic
import Propositional.Text.Layout
import Propositional.Text.Quoted

/-!
# The outline of a formula

The outline names every node of a formula and encloses what stands below it, on one line for
messages and indented for reading. Unlike the rendering it distinguishes any two formulas, also
those that are not flat.
-/

namespace Propositional

open Text

namespace Formula

/-- The label of a join in outlines. -/
def joinLabel : Connective → String
  | .or => "Disjunct"
  | .and => "Conjunct"

/-- A label with its contents in parentheses. -/
def labelled (label : String) (content : Layout) : Layout :=
  .bracket (label ++ "(") [content] ")"

/-- The outline of a formula as a layout. -/
def outlineLayout : Formula → Layout :=
  fold {
    const := fun b => labelled "Constant" (.leaf (if b then "true" else "false"))
    var := fun name => labelled "Variable" (.leaf (quoted name))
    neg := labelled "Negation"
    join := fun op terms => labelled (joinLabel op) (.bracket "[" terms "]") }

/-- **The outline of a formula on one line.** -/
def outline (t : Formula) : String :=
  t.outlineLayout.inline

/-- **The outline of a formula with every part on a line of its own.** -/
def indentedOutline (t : Formula) : String :=
  t.outlineLayout.indented

end Formula

end Propositional
