import Propositional.Proofs.Command.Batches
import Propositional.Proofs.Command.Input
import Propositional.Proofs.Rendering.NormalForms

/-!
# Converting results again

Without outlines, the output of a run holds one line for each formula that could be read: the
rendering of its normal form. These lines come back out of the output as they went in
(`Propositional.Command.formulasOfText_join`), since a rendering has no line break in it and is not
blank. Each of them is read as the normal form it was made from, which is its own normal form
(`Propositional.Formula.isSettled_normalize`), so a run on the output prints the output.
-/

namespace Propositional

namespace Command

open Text

/-! ### Lines that are written and read -/

/-- Formulas that are each followed by a line feed stand on lines. -/
theorem onLines_join (formulas : List String) :
    OnLines formulas (String.join (formulas.map (· ++ "\n"))).toList := by
  induction formulas with
  | nil => exact .lastBlank List.all_nil List.not_mem_nil
  | cons f formulas ih =>
    rw [List.map_cons, String.join_cons, String.toList_append, String.toList_append]
    exact .formula f (by decide) ih

/-- **Formulas on lines of their own are found again**, if they are lines and not blank. -/
theorem formulasOfText_join {formulas : List String}
    (hbreaks : ∀ f ∈ formulas, ∀ c ∈ Formula.lineBreaks, c ∉ f.toList)
    (hblank : ∀ f ∈ formulas, ∃ c ∈ f.toList, isBlank c = false) :
    formulasOfText (String.join (formulas.map (· ++ "\n"))) = formulas := by
  have hlines : ∀ f ∈ formulas, IsLine f := fun f hf =>
    { exists_isBlank_eq_false := hblank f hf
      newline_notMem := hbreaks f hf '\n' (by decide)
      getLast?_ne := fun hlast => hbreaks f hf '\r' (by decide) (List.mem_of_getLast? hlast) }
  have hfound := (onLines_join formulas).formulasOfText_eq hlines
  rwa [String.ofList_toList] at hfound

/-! ### The results of a batch -/

/-- The normal forms of the formulas that can be read. -/
def results (options : Options) (formulas : List String) : List Formula :=
  formulas.filterMap fun f =>
    (parse options.mode f).toOption.map (Formula.normalize options.dropUnits)

variable {options : Options}

/-- The output of a batch without outlines: a line for each of its results. -/
theorem output_convertAll_eq_join (h : options.showOutline = false) (formulas : List String) :
    (convertAll options formulas).output =
      String.join (((results options formulas).map Formula.render).map (· ++ "\n")) := by
  rw [output_convertAll]
  induction formulas with
  | nil => rfl
  | cons f formulas ih =>
    rw [List.map_cons, String.join_cons, ih]
    cases hparse : parse options.mode f with
    | error fault =>
      have hresults : results options (f :: formulas) = results options formulas :=
        List.filterMap_cons_none (by rw [hparse]; rfl)
      rw [convert_of_error hparse, hresults, String.empty_append]
    | ok t =>
      have hresults : results options (f :: formulas) =
          t.normalize options.dropUnits :: results options formulas :=
        List.filterMap_cons_some (by rw [hparse]; rfl)
      rw [convert_of_ok hparse, hresults, h, if_neg Bool.false_ne_true, String.empty_append,
        List.map_cons, List.map_cons, String.join_cons]

/-- All results are settled. -/
theorem isSettled_of_mem_results {formulas : List String} {n : Formula}
    (h : n ∈ results options formulas) : n.IsSettled options.mode options.dropUnits := by
  obtain ⟨f, -, hf⟩ := List.mem_filterMap.mp h
  cases hparse : parse options.mode f with
  | error fault =>
    rw [hparse] at hf
    cases hf
  | ok t =>
    rw [hparse] at hf
    obtain rfl : t.normalize options.dropUnits = n := Option.some.inj hf
    exact Formula.isSettled_normalize options.dropUnits hparse

/-- Settled formulas are the results of their renderings. -/
theorem results_map_render {ns : List Formula}
    (h : ∀ n ∈ ns, n.IsSettled options.mode options.dropUnits) :
    results options (ns.map Formula.render) = ns := by
  rw [results, List.filterMap_map]
  refine (List.filterMap_congr fun n hn => ?_).trans List.filterMap_some
  rw [Function.comp_apply, (h n hn).parse_render_eq]
  exact congrArg some (h n hn).normalize_eq

/-! ### Runs on outputs -/

section Runs

variable {flags : List Flag} {arguments again formulas : List String}

/-- The output of a batch without outlines, as an input, asks for the renderings of its results. -/
theorem converts_output (hast : .ast ∉ flags)
    (hagain : Request.ofArguments again = .convert flags []) (formulas : List String) :
    Converts again (convertAll (.ofFlags flags) formulas).output.toUTF8 flags
      ((results (.ofFlags flags) formulas).map Formula.render) := by
  have hformulas : formulasOfText (convertAll (.ofFlags flags) formulas).output =
      (results (.ofFlags flags) formulas).map Formula.render := by
    rw [output_convertAll_eq_join (decide_eq_false hast)]
    refine formulasOfText_join ?_ ?_
    · exact List.forall_mem_map.mpr fun n hn => (isSettled_of_mem_results hn).lineBreak_notMem
    · exact List.forall_mem_map.mpr fun n hn =>
        (isSettled_of_mem_results hn).exists_isBlank_eq_false
  rw [← hformulas]
  exact .input hagain (fromUTF8?_toUTF8 _)

/-- **A run on the output of a batch** prints that output and does not fail. -/
theorem run_output_convertAll (hast : .ast ∉ flags)
    (hagain : Request.ofArguments again = .convert flags []) (formulas : List String) :
    (run again (convertAll (.ofFlags flags) formulas).output.toUTF8).output =
        (convertAll (.ofFlags flags) formulas).output ∧
      (run again (convertAll (.ofFlags flags) formulas).output.toUTF8).code = 0 := by
  have houtline : (Options.ofFlags flags).showOutline = false := decide_eq_false hast
  have hsettled : ∀ n ∈ results (.ofFlags flags) formulas, n.IsSettled _ _ :=
    fun _ hn => isSettled_of_mem_results hn
  rw [(converts_output hast hagain formulas).run_eq]
  refine ⟨?_, Nat.le_zero.mp ((code_convertAll _ _).2.mpr ?_)⟩
  · rw [output_convertAll_eq_join houtline, output_convertAll_eq_join houtline,
      results_map_render hsettled]
  · exact List.forall_mem_map.mpr fun n hn => ⟨n, (hsettled n hn).parse_render_eq⟩

/-- What a run prints is what a batch prints: of nothing, if the input is no text. -/
theorem exists_output_eq (h : Request.ofArguments arguments = .convert flags formulas)
    (input : ByteArray) :
    ∃ batch, (run arguments input).output = (convertAll (.ofFlags flags) batch).output := by
  by_cases hne : formulas = []
  · subst hne
    cases htext : String.fromUTF8? input with
    | none =>
      refine ⟨[], ?_⟩
      rw [run, h]
      simp only [htext]
      rfl
    | some text => exact ⟨_, congrArg Outcome.output (Converts.input h htext).run_eq⟩
  · exact ⟨formulas, congrArg Outcome.output (Converts.arguments h hne).run_eq⟩

/-- **The output of a run is not changed by another run.** Whatever is converted, with any flags but
the one for outlines, the output is what the same flags make of it as an input, and no formula in it
fails. This is so because the normal form of a formula that has been read is settled: its rendering
is a line with something in it and without parentheses, and it is read as that normal form, which is
its own. -/
theorem run_output_eq :
    (∀ arguments again input flags formulas,
      Request.ofArguments arguments = .convert flags formulas → .ast ∉ flags →
        Request.ofArguments again = .convert flags [] →
          (run again (run arguments input).output.toUTF8).output = (run arguments input).output ∧
            (run again (run arguments input).output.toUTF8).code = 0) ∧
    ∀ mode dropUnits text t, parse mode text = .ok t →
      (t.normalize dropUnits).IsSettled mode dropUnits := by
  refine ⟨fun arguments again input flags formulas h hast hagain => ?_,
    fun mode dropUnits text t h => Formula.isSettled_normalize dropUnits h⟩
  obtain ⟨batch, hbatch⟩ := exists_output_eq h input
  rw [hbatch]
  exact run_output_convertAll hast hagain batch

end Runs

/-- A formula whose normal form has two clauses, and one that cannot be read: what the first run
prints, the second one prints again, and nothing fails there. -/
theorem run_output_eq_of_fault :
    (run ["!(A | B) & (C | D)", "--fold-identities", "(A"] ByteArray.empty).output =
      "!A & !B & C | !A & !B & D\n" ∧
    (run ["--fold-identities"] "!A & !B & C | !A & !B & D\n".toUTF8).output =
      "!A & !B & C | !A & !B & D\n" ∧
    (run ["--fold-identities"] "!A & !B & C | !A & !B & D\n".toUTF8).code = 0 ∧
    (Formula.normalize true (.join .or [.var "A", .const false])).IsSettled .strict true := by
  have houtput : (run ["!(A | B) & (C | D)", "--fold-identities", "(A"] ByteArray.empty).output =
      "!A & !B & C | !A & !B & D\n" := by decide +kernel
  obtain ⟨hrun, hsettled⟩ := run_output_eq
  obtain ⟨hagain, hcode⟩ := hrun ["!(A | B) & (C | D)", "--fold-identities", "(A"]
    ["--fold-identities"] ByteArray.empty [.foldIdentities] ["!(A | B) & (C | D)", "(A"]
    (by decide +kernel) (by decide)
    (Request.ofArguments_flags (List.nodup_singleton Flag.foldIdentities))
  rw [houtput] at hagain hcode
  exact ⟨houtput, hagain, hcode, hsettled .strict true "A | F" _ (by decide +kernel)⟩

end Command

end Propositional
