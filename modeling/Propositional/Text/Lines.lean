/-!
# Lines of a text

A line ends at a line feed, or at the end of the text if something stands there. A carriage return
right before the line feed belongs to the end of the line; anywhere else it is part of the text.
-/

namespace Propositional.Text

/-- A line without the carriage return at its end, if there is one. -/
def withoutReturn (line : List Char) : List Char :=
  if line.getLast? = some '\r' then line.dropLast else line

/-- Whether a character is not a line feed. -/
def isInLine (c : Char) : Bool :=
  c != '\n'

/-- **The lines of a text**, without what ends them. -/
def lines : List Char → List (List Char)
  | [] => []
  | c :: cs =>
    let line := (c :: cs).takeWhile isInLine
    let rest := (c :: cs).dropWhile isInLine
    if rest.isEmpty then [line] else withoutReturn line :: lines rest.tail
termination_by cs => cs.length
decreasing_by
  have hle := (List.dropWhile_suffix isInLine : _ <:+ c :: cs).length_le
  simp only [List.length_tail, List.length_cons] at hle ⊢
  omega

@[simp] theorem lines_nil : lines [] = [] := by
  rw [lines]

/-- A text without line feeds is one line, unless it is empty. -/
theorem lines_of_all {cs : List Char} (hne : cs ≠ []) (h : ∀ c ∈ cs, isInLine c = true) :
    lines cs = [cs] := by
  have htake : (cs ++ []).takeWhile isInLine = cs ++ [].takeWhile isInLine :=
    List.takeWhile_append_of_pos h
  have hdrop : (cs ++ []).dropWhile isInLine = [].dropWhile isInLine :=
    List.dropWhile_append_of_pos h
  rw [List.append_nil, List.takeWhile_nil, List.append_nil] at htake
  rw [List.append_nil, List.dropWhile_nil] at hdrop
  cases cs with
  | nil => exact absurd rfl hne
  | cons c cs =>
    rw [lines, htake, hdrop]
    rfl

/-- The first line of a text ends at the first line feed. -/
theorem lines_append_newline {cs : List Char} (h : ∀ c ∈ cs, isInLine c = true) (rest : List Char) :
    lines (cs ++ '\n' :: rest) = withoutReturn cs :: lines rest := by
  have hn : isInLine '\n' = false := rfl
  have htake : (cs ++ '\n' :: rest).takeWhile isInLine = cs := by
    rw [List.takeWhile_append_of_pos h, List.takeWhile_cons_of_neg (by simp [hn]), List.append_nil]
  have hdrop : (cs ++ '\n' :: rest).dropWhile isInLine = '\n' :: rest := by
    rw [List.dropWhile_append_of_pos h, List.dropWhile_cons_of_neg (by simp [hn])]
  cases hcs : cs ++ '\n' :: rest with
  | nil => simp at hcs
  | cons d ds =>
    rw [lines, ← hcs, htake, hdrop]
    rfl

end Propositional.Text
