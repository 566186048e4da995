import Propositional.Command.Arguments
import Propositional.Counterexample
import Propositional.Formula.Rendering
import Propositional.NormalForm.Basic
import Propositional.Reading
import Propositional.Text.Lines

/-!
# Runs of the command

A run converts a batch of formulas, one after the other: each gives a piece of output, some records
and a code, and the run is these one after the other with the greatest of the codes
(`Propositional.Command.Outcome.concat`). A formula that cannot be read leaves a record of the fault
and the code 1, and the ones after it are converted all the same.

The formulas are the arguments, or the lines of the input if there are no arguments. The input is
decoded as a whole before anything is converted.
-/

namespace Propositional.Command

open Text

/-- What a run, or a part of it, leaves behind. -/
structure Outcome where
  /-- The text that is printed -/
  output : String
  /-- The records, the oldest first -/
  records : List Record
  /-- The exit code: 0 if all went well -/
  code : Nat

namespace Outcome

/-- **Outcomes one after the other**: the outputs and the records in order, and the greatest code.
-/
def concat (os : List Outcome) : Outcome where
  output := String.join (os.map output)
  records := os.flatMap records
  code := (os.map code).foldl max 0

theorem foldl_max_eq (m : Nat) (ns : List Nat) : ns.foldl max m = max m (ns.foldl max 0) := by
  induction ns generalizing m with
  | nil => simp
  | cons n ns ih =>
    rw [List.foldl_cons, List.foldl_cons, ih, ih (max 0 n)]
    omega

/-- A run in two parts is the outcome of the parts one after the other. -/
theorem concat_append (os ps : List Outcome) :
    concat (os ++ ps) = concat [concat os, concat ps] := by
  simp only [concat, List.map_append, List.flatMap_append, List.foldl_append]
  rw [foldl_max_eq]
  simp

/-- An outcome that consists of one record. -/
def recording (r : Record) (code : Nat) : Outcome :=
  ⟨"", [r], code⟩

/-- A record as a line of the log. -/
def logLine (r : Record) : String :=
  r.severity.column ++ " " ++ r.origin.path ++ "] " ++ r.message

/-- The log of an outcome: its records of the given severity and of those that matter more. -/
def log (threshold : Severity) (o : Outcome) : List String :=
  (o.records.filter fun r => r.severity.rank ≤ threshold.rank).map logLine

end Outcome

/-- The record that a formula could not be read. -/
def faultRecord (formula : String) (f : Fault) : Record :=
  ⟨.error, .command, s!"Error in {quoted formula}: {f.message}"⟩

/-- The record of the sizes of a formula and its normal form. -/
def sizesRecord (t normal : Formula) : Record :=
  ⟨.debug, .command, s!"Normalized {t.size} nodes into {normal.size} nodes"⟩

/-- What comparing a normal form with its formula leaves. -/
def verification (t normal : Formula) : Outcome :=
  match t.counterexample normal with
  | none =>
    .recording ⟨.info, .command, s!"Normal form verified over {t.names.length} variables"⟩ 0
  | some s =>
    .recording ⟨.error, .command, s!"Normal form differs from input under {s.render}"⟩ 2

/-- What converting a formula that has been read leaves, the outline before the normal form. -/
def conversion (options : Options) (t : Formula) : Outcome :=
  let normal := t.normalizeLogged options.dropUnits
  .concat [
    ⟨if options.showOutline then t.indentedOutline ++ "\n" else "", normal.records, 0⟩,
    ⟨normal.value.render ++ "\n", [sizesRecord t normal.value], 0⟩,
    if options.verify then verification t normal.value else .concat []]

/-- **What one formula of a batch leaves.** -/
def convert (options : Options) (formula : String) : Outcome :=
  let read := parseLogged options.mode formula
  .concat [
    ⟨"", read.records, 0⟩,
    match read.value with
    | .error f => .recording (faultRecord formula f) 1
    | .ok t => conversion options t]

/-- The record at the end of a batch. -/
def doneRecord : Record :=
  ⟨.info, .command, "Done"⟩

/-- **What a batch of formulas leaves.** -/
def convertAll (options : Options) (formulas : List String) : Outcome :=
  .concat (formulas.map (convert options) ++ [.recording doneRecord 0])

/-- The formulas in an input: its lines, without those that hold blanks only. -/
def formulasOfText (text : String) : List String :=
  ((lines text.toList).filter fun line => !line.all isBlank).map String.ofList

/-- The record that the input is no text. -/
def undecodableRecord : Record :=
  ⟨.error, .command, "Error: failed to read stdin: stream did not contain valid UTF-8"⟩

/-- **A run of the command** with the given arguments and input. -/
def run (arguments : List String) (input : ByteArray) : Outcome :=
  match Request.ofArguments arguments with
  | .misuse => ⟨"", [], 2⟩
  | .ask question => ⟨question.answer, [], 0⟩
  | .convert flags [] =>
    match String.fromUTF8? input with
    | none => .recording undecodableRecord 1
    | some text => convertAll (.ofFlags flags) (formulasOfText text)
  | .convert flags formulas => convertAll (.ofFlags flags) formulas

end Propositional.Command
