/-!
# Assignments of truth values

An assignment gives truth values to some variables. Its entries are kept in the order of the names,
each name once, so that two assignments that say the same are equal however they came about, and can
be written down in one way only. What an assignment says of the variables without an entry is a
property of its own: either nothing, or that they are false.
-/

namespace Propositional

/-- An assignment of truth values to variable names. -/
structure Assignment where
  /-- The values that have been set, in the order of the names -/
  entries : List (String × Bool)
  /-- Whether variables without an entry are false; otherwise they have no value -/
  defaults : Bool
  /-- The names stand in strictly increasing order -/
  increasing : entries.Pairwise fun a b => a.1 < b.1
  deriving DecidableEq

namespace Assignment

/-- An assignment that sets nothing, with or without a default. -/
def empty (defaults : Bool) : Assignment :=
  ⟨[], defaults, .nil⟩

/-- Entries with the value of a name set, in the place that the order gives to it. -/
def setEntry (name : String) (value : Bool) : List (String × Bool) → List (String × Bool)
  | [] => [(name, value)]
  | (other, b) :: rest =>
    if name = other then (name, value) :: rest
    else if name < other then (name, value) :: (other, b) :: rest
    else (other, b) :: setEntry name value rest

theorem eq_or_mem_of_mem_setEntry {name : String} {value : Bool} {entries : List (String × Bool)}
    {e : String × Bool} (h : e ∈ setEntry name value entries) :
    e = (name, value) ∨ e ∈ entries := by
  induction entries with
  | nil => simpa [setEntry] using h
  | cons a rest ih =>
    unfold setEntry at h
    split at h
    · simp only [List.mem_cons] at h ⊢
      rcases h with h | h <;> simp [h]
    · split at h
      · simpa using h
      · rcases List.mem_cons.1 h with h | h
        · simp [h]
        · rcases ih h with h | h <;> simp [h]

theorem pairwise_setEntry (name : String) (value : Bool) {entries : List (String × Bool)}
    (h : entries.Pairwise fun a b => a.1 < b.1) :
    (setEntry name value entries).Pairwise fun a b => a.1 < b.1 := by
  induction entries with
  | nil => simp [setEntry]
  | cons a rest ih =>
    obtain ⟨ha, hrest⟩ := List.pairwise_cons.1 h
    unfold setEntry
    split
    · subst_vars
      exact List.pairwise_cons.2 ⟨ha, hrest⟩
    · split
      · rename_i hlt
        refine List.pairwise_cons.2 ⟨fun e he => ?_, h⟩
        rcases List.mem_cons.1 he with rfl | he
        · exact hlt
        · exact String.lt_trans hlt (ha e he)
      · rename_i hne hlt
        refine List.pairwise_cons.2 ⟨fun e he => ?_, ih hrest⟩
        rcases eq_or_mem_of_mem_setEntry he with rfl | he
        · refine String.not_le.1 fun hle => hne ?_
          exact String.le_antisymm hle (String.not_lt.1 hlt)
        · exact ha e he

theorem lookup_entry_cons (e : String × Bool) (rest : List (String × Bool)) (name : String) :
    (e :: rest).lookup name = if name = e.1 then some e.2 else rest.lookup name := by
  obtain ⟨other, value⟩ := e
  rw [List.lookup_cons]
  by_cases h : name = other
  · simp [h]
  · simp [h, beq_eq_false_iff_ne.2 h]

/-- Setting an entry changes what is found under its name and nothing else. -/
theorem lookup_setEntry (name : String) (value : Bool) (entries : List (String × Bool))
    (other : String) :
    (setEntry name value entries).lookup other =
      if other = name then some value else entries.lookup other := by
  induction entries with
  | nil => rw [setEntry, lookup_entry_cons]
  | cons e rest ih =>
    unfold setEntry
    split
    · rename_i h
      simp only [lookup_entry_cons, h]
      split <;> rfl
    · rename_i hne
      split
      · rw [lookup_entry_cons]
      · rw [lookup_entry_cons, lookup_entry_cons, ih]
        by_cases h : other = e.1
        · simp [h, Ne.symm hne]
        · simp [h]

/-- The assignment with the value of one variable set, whatever it was before. -/
def set (s : Assignment) (name : String) (value : Bool) : Assignment :=
  ⟨setEntry name value s.entries, s.defaults, pairwise_setEntry name value s.increasing⟩

/-- The assignment after setting variables one after the other. -/
def setAll (s : Assignment) (writes : List (String × Bool)) : Assignment :=
  writes.foldl (fun s w => s.set w.1 w.2) s

/-- The value of a variable, if it has one. -/
def get? (s : Assignment) (name : String) : Option Bool :=
  (s.entries.lookup name).or (if s.defaults then some false else none)

@[simp] theorem get?_empty (defaults : Bool) (name : String) :
    (empty defaults).get? name = if defaults then some false else none :=
  rfl

/-- **Setting a variable** changes its value and no other. -/
theorem get?_set (s : Assignment) (name : String) (value : Bool) (other : String) :
    (s.set name value).get? other = if other = name then some value else s.get? other := by
  simp only [get?, set, lookup_setEntry]
  split <;> rfl

/-- One entry of an assignment as it is written. -/
def renderEntry (e : String × Bool) : String :=
  e.1 ++ ": " ++ if e.2 then "T" else "F"

/-- An assignment as it is written: its entries in the order of the names. -/
def render (s : Assignment) : String :=
  "[" ++ ", ".intercalate (s.entries.map renderEntry) ++ "]"

end Assignment

end Propositional
