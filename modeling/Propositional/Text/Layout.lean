/-!
# Bracketed layouts

A layout is a tree of brackets around items. It can be written on one line, the items separated by
commas, or one item a line, indented below its bracket and followed by a comma. A bracket without
items keeps its two ends together in both forms.

Both forms are written onto the end of a text that is there already, so that the parts of a deep
layout are not copied once for every bracket around them.
-/

namespace Propositional.Text

/-- A text without brackets, or a pair of brackets around items. -/
inductive Layout where
  /-- A text without brackets -/
  | leaf (text : String)
  /-- The items between an opening and a closing bracket -/
  | bracket (opening : String) (items : List Layout) (closing : String)

namespace Layout

mutual

/-- A text with a layout on one line behind it. -/
def inlineOnto (before : String) : Layout → String
  | leaf text => before ++ text
  | bracket opening items closing => inlineItemsOnto (before ++ opening) items ++ closing

/-- A text with items behind it, separated by commas. -/
def inlineItemsOnto (before : String) : List Layout → String
  | [] => before
  | [item] => inlineOnto before item
  | item :: items => inlineItemsOnto (inlineOnto before item ++ ", ") items

end

/-- **A layout on one line.** -/
def inline (l : Layout) : String :=
  l.inlineOnto ""

/-- The blanks in front of a line that stands below `depth` brackets. -/
def indentation (depth : Nat) : String :=
  String.ofList (List.replicate (4 * depth) ' ')

mutual

/-- A text with a layout behind it, every item on a line of its own. The layout starts on a line
that has been indented below `depth` brackets. -/
def indentedOnto (depth : Nat) (before : String) : Layout → String
  | leaf text => before ++ text
  | bracket opening items closing =>
    if items.isEmpty then before ++ opening ++ closing
    else
      let opened := before ++ opening ++ "\n"
      indentedItemsOnto (depth + 1) opened items ++ indentation depth ++ closing

/-- A text with items behind it, each on its line below `depth` brackets with a comma at its end. -/
def indentedItemsOnto (depth : Nat) (before : String) : List Layout → String
  | [] => before
  | item :: items =>
    indentedItemsOnto depth (indentedOnto depth (before ++ indentation depth) item ++ ",\n") items

end

/-- **A layout with every item on a line of its own.** -/
def indented (l : Layout) : String :=
  l.indentedOnto 0 ""

end Layout

end Propositional.Text
