import Mathlib.Data.List.Nodup
import Propositional.Command.Conversion

/-!
# Requests for batches

A batch can be asked for in many ways: flags may stand between formulas, formulas may be arguments
or lines of the input. What matters of all this are the flags and the formulas
(`Propositional.Command.Converts`), and whichever they are, there are arguments that ask for them:
each flag by its own argument and the formulas after `--`, where nothing is taken for a flag
(`Propositional.Command.spelled`). No flag is ever taken twice, so the flags of a batch have no
duplicates.
-/

namespace Propositional.Command

/-- The argument by which a flag is given. -/
def Flag.argument : Flag → String
  | strict => "--strict"
  | foldIdentities => "--fold-identities"
  | ast => "--ast"
  | check => "--check"

@[simp] theorem Flag.ofArgument?_argument (flag : Flag) :
    Flag.ofArgument? flag.argument = some flag := by
  cases flag <;> rfl

theorem Flag.argument_ne (flag : Flag) : flag.argument ≠ "--" := by
  cases flag <;> decide

/-- The arguments that give the flags and then, after `--`, the formulas. -/
def spelled (flags : List Flag) (formulas : List String) : List String :=
  flags.map Flag.argument ++ "--" :: formulas

/-! ### Reading arguments -/

namespace Request

variable {seen flags : List Flag} {arguments rest formulas : List String}

/-- Flags that have not been seen are taken one after the other. -/
theorem readAfter_flags (h : (seen ++ flags).Nodup) :
    readAfter seen (flags.map Flag.argument ++ rest) = readAfter (seen ++ flags) rest := by
  induction flags generalizing seen with
  | nil => rw [List.map_nil, List.nil_append, List.append_nil]
  | cons flag flags ih =>
    rw [List.append_cons] at h
    have hnew : flag ∉ seen := fun hseen =>
      List.disjoint_of_nodup_append h.of_append_left hseen (List.mem_singleton_self flag)
    rw [List.map_cons, List.cons_append, readAfter, if_neg flag.argument_ne,
      Flag.ofArgument?_argument]
    simp only
    rw [if_neg hnew, ih h, List.append_assoc, List.singleton_append]

/-- The arguments of flags ask for these flags. -/
theorem ofArguments_flags (h : flags.Nodup) :
    ofArguments (flags.map Flag.argument) = .convert flags [] := by
  have hread : readAfter [] (flags.map Flag.argument ++ []) = readAfter flags [] :=
    readAfter_flags h
  rwa [List.append_nil] at hread

theorem ofArguments_spelled (h : flags.Nodup) (formulas : List String) :
    ofArguments (spelled flags formulas) = .convert flags formulas := by
  have hread : readAfter [] (spelled flags formulas) = readAfter flags ("--" :: formulas) :=
    readAfter_flags h
  rwa [readAfter, if_pos rfl] at hread

theorem of_withFormula_eq_convert {request : Request} {formula : String}
    (h : request.withFormula formula = .convert flags formulas) :
    ∃ others, request = .convert flags others := by
  cases request with
  | misuse => cases h
  | ask question => cases h
  | convert seen others =>
    obtain ⟨rfl, -⟩ := Request.convert.inj h
    exact ⟨others, rfl⟩

theorem nodup_of_readAfter (hseen : seen.Nodup)
    (h : readAfter seen arguments = .convert flags formulas) : flags.Nodup := by
  induction arguments generalizing seen formulas with
  | nil =>
    rw [readAfter] at h
    obtain ⟨rfl, -⟩ := Request.convert.inj h
    exact hseen
  | cons argument rest ih =>
    rw [readAfter] at h
    split at h
    · obtain ⟨rfl, -⟩ := Request.convert.inj h
      exact hseen
    split at h
    · next flag hflag =>
      split at h
      · cases h
      · next hnew =>
        refine ih (List.nodup_append.mpr ⟨hseen, List.nodup_singleton flag, ?_⟩) h
        rintro a ha b hb rfl
        exact hnew (List.mem_singleton.mp hb ▸ ha)
    · split at h
      · cases h
      split at h
      · cases h
      · obtain ⟨others, hothers⟩ := of_withFormula_eq_convert h
        exact ih hseen hothers

/-- No flag is given twice. -/
theorem nodup_of_ofArguments (h : ofArguments arguments = .convert flags formulas) :
    flags.Nodup :=
  nodup_of_readAfter List.nodup_nil h

end Request

/-! ### Batches -/

/-- A text is decoded from its encoding. -/
@[simp] theorem fromUTF8?_toUTF8 (text : String) : String.fromUTF8? text.toUTF8 = some text := by
  unfold String.fromUTF8?
  rw [String.toUTF8_eq_toByteArray, dif_pos text.isValidUTF8]
  rfl

/-- **The batch of a run**: the arguments and the input ask for the formulas to be converted with
the flags. -/
inductive Converts (arguments : List String) (input : ByteArray) (flags : List Flag) :
    List String → Prop
  /-- There are formulas among the arguments -/
  | arguments {formulas : List String}
    (h : Request.ofArguments arguments = .convert flags formulas) (hne : formulas ≠ []) :
    Converts arguments input flags formulas
  /-- There are none, and the input is a text -/
  | input {text : String} (h : Request.ofArguments arguments = .convert flags [])
    (htext : String.fromUTF8? input = some text) :
    Converts arguments input flags (formulasOfText text)

namespace Converts

variable {flags : List Flag} {arguments formulas : List String} {input : ByteArray}

/-- **A run depends on its batch only.** -/
theorem run_eq (h : Converts arguments input flags formulas) :
    run arguments input = convertAll (.ofFlags flags) formulas := by
  cases h with
  | arguments h hne =>
    obtain ⟨formula, rest, rfl⟩ := List.exists_cons_of_ne_nil hne
    rw [run, h]
  | input h htext =>
    rw [run, h]
    simp only [htext]

theorem nodup (h : Converts arguments input flags formulas) : flags.Nodup := by
  cases h with
  | arguments h _ => exact Request.nodup_of_ofArguments h
  | input h _ => exact Request.nodup_of_ofArguments h

end Converts

/-- Any formulas can be converted with any flags. -/
theorem converts_spelled {flags : List Flag} (h : flags.Nodup) (formulas : List String) :
    Converts (spelled flags formulas) ByteArray.empty flags formulas := by
  have hrequest : Request.ofArguments (spelled flags formulas) = .convert flags formulas :=
    Request.ofArguments_spelled h formulas
  cases formulas with
  | nil =>
    have hempty : formulasOfText "" = [] := by
      rw [formulasOfText, String.toList_empty, Text.lines_nil]
      rfl
    have hconverts : Converts (spelled flags []) ByteArray.empty flags (formulasOfText "") :=
      .input hrequest (fromUTF8?_toUTF8 "")
    rwa [hempty] at hconverts
  | cons formula rest => exact .arguments hrequest (List.cons_ne_nil formula rest)

end Propositional.Command
