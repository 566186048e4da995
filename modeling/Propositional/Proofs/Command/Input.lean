import Propositional.Proofs.Command.Decoding

/-!
# Formulas as arguments and as lines

A run takes its formulas from the arguments or, if there are none, from the lines of the input. The
two ways agree: what follows `--` is taken as it is
(`Propositional.Command.Request.ofArguments_append`), and formulas that can stand on lines of their
own (`Propositional.Command.IsLine`) are found on the lines of an input, whatever ends these lines
and however many blank lines stand among them (`Propositional.Command.OnLines`). No input is of
another kind (`Propositional.Command.onLines_formulasOfText`).

An input that is no text gives no formulas at all, also not those on the lines before the one that
cannot be decoded (`Propositional.Text.readLines_eq`).
-/

namespace Propositional.Command

open Text

/-! ### Arguments before and after the separator -/

namespace Request

variable {seen flags : List Flag} {arguments formulas : List String}

/-- The same request with more formulas at the end. -/
def withFormulas (formulas : List String) : Request → Request
  | convert flags others => convert flags (others ++ formulas)
  | other => other

theorem withFormula_withFormulas (formula : String) (formulas : List String) (request : Request) :
    (request.withFormulas formulas).withFormula formula =
      (request.withFormula formula).withFormulas formulas := by
  cases request <;> rfl

/-- What follows `--` comes after the formulas before it and changes nothing else. -/
theorem readAfter_append (h : "--" ∉ arguments) :
    readAfter seen (arguments ++ "--" :: formulas) =
      (readAfter seen arguments).withFormulas formulas := by
  induction arguments generalizing seen with
  | nil =>
    have hsep : readAfter seen ("--" :: formulas) = convert seen formulas := by
      rw [readAfter, if_pos rfl]
    rw [List.nil_append, hsep, readAfter, withFormulas, List.nil_append]
  | cons argument arguments ih =>
    have hne : argument ≠ "--" := (List.ne_of_not_mem_cons h).symm
    have hrest : "--" ∉ arguments := List.not_mem_of_not_mem_cons h
    rw [List.cons_append, readAfter, readAfter, if_neg hne, if_neg hne]
    cases Flag.ofArgument? argument with
    | some flag =>
      simp only
      split
      · rfl
      · exact ih hrest
    | none =>
      simp only
      split
      · rfl
      split
      · rfl
      · rw [ih hrest, withFormula_withFormulas]

theorem ofArguments_append (h : "--" ∉ arguments) :
    ofArguments (arguments ++ "--" :: formulas) = (ofArguments arguments).withFormulas formulas :=
  readAfter_append h

/-- Arguments that have the form of flags hold no formulas. -/
theorem eq_nil_of_readAfter (h : ∀ argument ∈ arguments, isHyphenated argument = true)
    (hsep : "--" ∉ arguments) (hread : readAfter seen arguments = .convert flags formulas) :
    formulas = [] := by
  induction arguments generalizing seen with
  | nil =>
    rw [readAfter] at hread
    exact (Request.convert.inj hread).2.symm
  | cons argument arguments ih =>
    obtain ⟨hargument, harguments⟩ := List.forall_mem_cons.mp h
    have hne : argument ≠ "--" := (List.ne_of_not_mem_cons hsep).symm
    have hrest : "--" ∉ arguments := List.not_mem_of_not_mem_cons hsep
    rw [readAfter, if_neg hne] at hread
    split at hread
    · split at hread
      · cases hread
      · exact ih harguments hrest hread
    · rw [if_pos hargument] at hread
      split at hread <;> cases hread

end Request

/-! ### Lines -/

/-- What a line can end with. -/
def lineEnds : List (List Char) :=
  [['\n'], ['\r', '\n']]

/-- A text that can stand on a line of its own: none of it is lost there. -/
structure IsLine (formula : String) : Prop where
  /-- It is not blank -/
  exists_isBlank_eq_false : ∃ c ∈ formula.toList, isBlank c = false
  /-- It is one line -/
  newline_notMem : '\n' ∉ formula.toList
  /-- No carriage return stands where it would be taken for a part of what ends the line -/
  getLast?_ne : formula.toList.getLast? ≠ some '\r'

/-- **Formulas on lines**: each on a line of its own, in order, with any number of blank lines
before, between and after them. Lines can end in different ways, and the last one need not end. -/
inductive OnLines : List String → List Char → Prop
  /-- A formula on a line -/
  | formula (f : String) {ending rest : List Char} {formulas : List String}
    (hending : ending ∈ lineEnds) (hrest : OnLines formulas rest) :
    OnLines (f :: formulas) (f.toList ++ ending ++ rest)
  /-- A blank line -/
  | blank {blanks ending rest : List Char} {formulas : List String}
    (hblanks : blanks.all isBlank = true) (hnewline : '\n' ∉ blanks) (hending : ending ∈ lineEnds)
    (hrest : OnLines formulas rest) :
    OnLines formulas (blanks ++ ending ++ rest)
  /-- A formula at the end of the text -/
  | lastFormula (f : String) : OnLines [f] f.toList
  /-- Blanks at the end of the text, or nothing -/
  | lastBlank {blanks : List Char} (hblanks : blanks.all isBlank = true)
    (hnewline : '\n' ∉ blanks) : OnLines [] blanks

/-! ### Cutting at what ends a line -/

section Lines

variable {cs blanks ending rest line : List Char} {formulas : List String}

theorem eq_or_eq_of_mem_lineEnds (h : ending ∈ lineEnds) :
    ending = ['\n'] ∨ ending = ['\r', '\n'] := by
  simpa [lineEnds] using h

/-- A line goes on until what ends it, of which all but the line feed is first taken for a part of
the line. -/
theorem lines_append_ending (h : '\n' ∉ cs) (hending : ending ∈ lineEnds) (rest : List Char) :
    lines (cs ++ ending ++ rest) = withoutReturn (cs ++ ending.dropLast) :: lines rest := by
  obtain rfl | rfl := eq_or_eq_of_mem_lineEnds hending
  · rw [List.append_assoc, List.dropLast_singleton, List.append_nil]
    exact lines_append_newline (isInLine_of_notMem h) rest
  · have hreturn : '\n' ∉ cs ++ ['\r'] := by simpa using h
    rw [List.append_cons cs '\r', List.append_assoc]
    exact lines_append_newline (isInLine_of_notMem hreturn) rest

/-- What ends a line is dropped, and nothing else. -/
theorem withoutReturn_append_dropLast (h : cs.getLast? ≠ some '\r') (hending : ending ∈ lineEnds) :
    withoutReturn (cs ++ ending.dropLast) = cs := by
  obtain rfl | rfl := eq_or_eq_of_mem_lineEnds hending
  · rw [List.dropLast_singleton, List.append_nil, withoutReturn, if_neg h]
  · have hlast : (cs ++ ['\r']).getLast? = some '\r' := List.getLast?_concat
    exact (if_pos hlast).trans List.dropLast_concat

theorem mem_of_mem_withoutReturn {c : Char} (h : c ∈ withoutReturn cs) : c ∈ cs := by
  unfold withoutReturn at h
  split at h
  · exact List.dropLast_subset cs h
  · exact h

theorem all_isBlank_withoutReturn (h : cs.all isBlank = true) :
    (withoutReturn cs).all isBlank = true :=
  List.all_eq_true.mpr fun c hc => List.all_eq_true.mp h c (mem_of_mem_withoutReturn hc)

/-- A line is what stands before one of its ends. -/
theorem exists_ending (line : List Char) :
    ∃ ending ∈ lineEnds, line ++ ['\n'] = withoutReturn line ++ ending := by
  by_cases hlast : line.getLast? = some '\r'
  · refine ⟨['\r', '\n'], by decide, ?_⟩
    rw [withoutReturn, if_pos hlast, List.append_cons _ '\r',
      List.dropLast_append_getLast? _ hlast]
  · exact ⟨['\n'], by decide, by rw [withoutReturn, if_neg hlast]⟩

/-- The first line of a text is a formula, unless it is blank. -/
theorem formulasOfText_of_lines_eq_cons (h : lines cs = line :: lines rest) :
    formulasOfText (String.ofList cs) =
      if line.all isBlank then formulasOfText (String.ofList rest)
      else String.ofList line :: formulasOfText (String.ofList rest) := by
  rw [formulasOfText, formulasOfText, String.toList_ofList, String.toList_ofList, h]
  cases hblank : line.all isBlank <;> simp [hblank]

/-- What follows the last line feed is a line, unless there is nothing. -/
theorem lines_eq_cons_nil (hne : cs ≠ []) (h : '\n' ∉ cs) : lines cs = cs :: lines [] := by
  rw [lines_of_all hne (isInLine_of_notMem h), lines_nil]

theorem formulasOfText_empty : formulasOfText (String.ofList []) = [] := by
  rw [formulasOfText, String.toList_ofList, lines_nil]
  rfl

theorem IsLine.not_all_isBlank {f : String} (h : IsLine f) : ¬ f.toList.all isBlank = true := by
  obtain ⟨c, hc, hcblank⟩ := h.exists_isBlank_eq_false
  intro hall
  rw [List.all_eq_true.mp hall c hc] at hcblank
  cases hcblank

/-- **Formulas on lines are found there.** -/
theorem OnLines.formulasOfText_eq (h : OnLines formulas cs) (hlines : ∀ f ∈ formulas, IsLine f) :
    formulasOfText (String.ofList cs) = formulas := by
  induction h with
  | @formula f ending rest formulas hending hrest ih =>
    obtain ⟨hf, hformulas⟩ := List.forall_mem_cons.mp hlines
    have hcut := lines_append_ending hf.newline_notMem hending rest
    rw [withoutReturn_append_dropLast hf.getLast?_ne hending] at hcut
    rw [formulasOfText_of_lines_eq_cons hcut, if_neg hf.not_all_isBlank, ih hformulas,
      String.ofList_toList]
  | @blank blanks ending rest formulas hblanks hnewline hending hrest ih =>
    have hall : (blanks ++ ending.dropLast).all isBlank = true := by
      rw [List.all_append, hblanks]
      obtain rfl | rfl := eq_or_eq_of_mem_lineEnds hending <;> decide
    rw [formulasOfText_of_lines_eq_cons (lines_append_ending hnewline hending rest),
      if_pos (all_isBlank_withoutReturn hall), ih hlines]
  | lastFormula f =>
    have hf : IsLine f := hlines f (List.mem_singleton_self f)
    have hne : f.toList ≠ [] := by
      intro hnil
      exact hf.not_all_isBlank (hnil ▸ List.all_nil)
    rw [formulasOfText_of_lines_eq_cons (lines_eq_cons_nil hne hf.newline_notMem),
      if_neg hf.not_all_isBlank, formulasOfText_empty, String.ofList_toList]
  | @lastBlank blanks hblanks hnewline =>
    by_cases hne : blanks = []
    · subst hne
      exact formulasOfText_empty
    · rw [formulasOfText_of_lines_eq_cons (lines_eq_cons_nil hne hnewline), if_pos hblanks,
        formulasOfText_empty]

/-- **Every text consists of its formulas on lines** and of blank lines. -/
theorem onLines_formulasOfText (cs : List Char) :
    OnLines (formulasOfText (String.ofList cs)) cs := by
  by_cases hmem : '\n' ∈ cs
  · obtain ⟨line, rest, rfl, hline⟩ := List.eq_append_cons_of_mem hmem
    obtain ⟨ending, hending, hcut⟩ := exists_ending line
    have hrest : OnLines (formulasOfText (String.ofList rest)) rest := onLines_formulasOfText rest
    rw [formulasOfText_of_lines_eq_cons
      (lines_append_newline (isInLine_of_notMem hline) rest), List.append_cons, hcut]
    split
    · next hblank => exact .blank hblank (mt mem_of_mem_withoutReturn hline) hending hrest
    · have hformula := OnLines.formula (String.ofList (withoutReturn line)) hending hrest
      rwa [String.toList_ofList] at hformula
  · by_cases hne : cs = []
    · subst hne
      rw [formulasOfText_empty]
      exact .lastBlank List.all_nil hmem
    · rw [formulasOfText_of_lines_eq_cons (lines_eq_cons_nil hne hmem), formulasOfText_empty]
      split
      · next hblank => exact .lastBlank hblank hmem
      · have hformula := OnLines.lastFormula (String.ofList cs)
        rwa [String.toList_ofList] at hformula
termination_by cs.length
decreasing_by
  subst_vars
  simp only [List.length_append, List.length_cons]
  omega

end Lines

/-! ### Runs -/

/-- The formulas of an input can be given as arguments. -/
theorem run_eq_run_append {arguments formulas : List String} {text : String}
    (hflags : ∀ argument ∈ arguments, Request.isHyphenated argument = true)
    (hsep : "--" ∉ arguments) (hne : formulas ≠ []) (htext : formulasOfText text = formulas)
    (unread : ByteArray) :
    run arguments text.toUTF8 = run (arguments ++ "--" :: formulas) unread := by
  have happend : Request.ofArguments (arguments ++ "--" :: formulas) =
      (Request.ofArguments arguments).withFormulas formulas := Request.ofArguments_append hsep
  cases hrequest : Request.ofArguments arguments with
  | misuse =>
    rw [hrequest] at happend
    rw [run, run, hrequest, happend]
    rfl
  | ask question =>
    rw [hrequest] at happend
    rw [run, run, hrequest, happend]
    rfl
  | convert flags others =>
    obtain rfl : others = [] := Request.eq_nil_of_readAfter hflags hsep hrequest
    rw [hrequest, Request.withFormulas, List.nil_append] at happend
    have hinput : Converts arguments text.toUTF8 flags (formulasOfText text) :=
      .input hrequest (fromUTF8?_toUTF8 text)
    have harguments : Converts (arguments ++ "--" :: formulas) unread flags formulas :=
      .arguments happend hne
    rw [hinput.run_eq, harguments.run_eq, htext]

/-- An input that is no text is recorded, and nothing is converted. -/
theorem run_of_not_isValidUTF8 {arguments : List String} {flags : List Flag} {input : ByteArray}
    (h : Request.ofArguments arguments = .convert flags []) (hinput : ¬ input.IsValidUTF8) :
    run arguments input = .recording undecodableRecord 1 := by
  have htext : String.fromUTF8? input = none := dif_neg hinput
  rw [run, h]
  simp only [htext]

/-- **Arguments and input agree.** After any arguments that have the form of flags, known or not and
in any number, formulas that can stand on lines of their own leave the same whether they follow `--`
or stand on the lines of an input, in all that is printed, recorded and returned. If the input is no
text, nothing is printed or converted and the code is 1, wherever the first bytes stand that cannot
be decoded; this is also what comes of decoding each line by itself, as the last part says. -/
theorem run_onLines :
    (∀ (arguments formulas : List String) (text : String) (unread : ByteArray),
      (∀ argument ∈ arguments, Request.isHyphenated argument = true) → "--" ∉ arguments →
        formulas ≠ [] → (∀ f ∈ formulas, IsLine f) → OnLines formulas text.toList →
          run arguments text.toUTF8 = run (arguments ++ "--" :: formulas) unread) ∧
    (∀ arguments flags input, Request.ofArguments arguments = .convert flags [] →
      ¬ input.IsValidUTF8 →
        (run arguments input).output = "" ∧ (run arguments input).records = [undecodableRecord] ∧
          (run arguments input).code = 1) ∧
    ∀ input : ByteArray, readLines input.data.toList =
      (String.fromUTF8? input).map fun text => lines text.toList := by
  refine ⟨?_, ?_, readLines_toList⟩
  · intro arguments formulas text unread hflags hsep hne hformulas hlines
    have htext : formulasOfText text = formulas := by
      rw [← hlines.formulasOfText_eq hformulas, String.ofList_toList]
    exact run_eq_run_append hflags hsep hne htext unread
  · intro arguments flags input h hinput
    rw [run_of_not_isValidUTF8 h hinput]
    exact ⟨rfl, rfl, rfl⟩

/-- A formula with a carriage return in it and one that starts with a hyphen, on lines that end in
different ways among blank ones; and an input whose third line is no text. -/
theorem run_onLines_of_mixed_ends :
    run ["--strict", "--check"] "\u3000\nA |\rB\r\n\t\r\n-x".toUTF8 =
      run ["--strict", "--check", "--", "A |\rB", "-x"] ByteArray.empty ∧
    (run ["--strict", "--check"] "\u3000\nA |\rB\r\n\t\r\n-x".toUTF8).output = "A | B\n-x\n" ∧
    (run ["--strict"] ("A\nB\n".toUTF8 ++ [0xC3, 0x28].toByteArray)).output = "" ∧
    (run ["--strict"] ("A\nB\n".toUTF8 ++ [0xC3, 0x28].toByteArray)).code = 1 ∧
    readLines ("A\nB\n".toUTF8 ++ [0xC3, 0x28].toByteArray).data.toList = none := by
  obtain ⟨hagree, hinvalid, hread⟩ := run_onLines
  have htext : "\u3000\nA |\rB\r\n\t\r\n-x".toList = ['\u3000'] ++ ['\n'] ++
      ("A |\rB".toList ++ ['\r', '\n'] ++ (['\t'] ++ ['\r', '\n'] ++ "-x".toList)) := by
    decide
  have hlines : OnLines ["A |\rB", "-x"] "\u3000\nA |\rB\r\n\t\r\n-x".toList := by
    rw [htext]
    exact .blank (by decide) (by decide) (by decide) (.formula _ (by decide)
      (.blank (by decide) (by decide) (by decide) (.lastFormula "-x")))
  have hformulas : ∀ f ∈ ["A |\rB", "-x"], IsLine f := by
    have hreturn : IsLine "A |\rB" := ⟨⟨'A', by decide, by decide⟩, by decide, by decide⟩
    have hhyphen : IsLine "-x" := ⟨⟨'x', by decide, by decide⟩, by decide, by decide⟩
    exact List.forall_mem_cons.mpr ⟨hreturn, List.forall_mem_singleton.mpr hhyphen⟩
  have hbytes : ¬ ("A\nB\n".toUTF8 ++ [0xC3, 0x28].toByteArray).IsValidUTF8 := by decide +kernel
  have hdecoded : String.fromUTF8? ("A\nB\n".toUTF8 ++ [0xC3, 0x28].toByteArray) = none :=
    dif_neg hbytes
  obtain ⟨houtput, -, hcode⟩ := hinvalid ["--strict"] [.strict] _
    (Request.ofArguments_flags (List.nodup_singleton Flag.strict)) hbytes
  have hrun := hagree ["--strict", "--check"] _ _ ByteArray.empty (by decide) (by decide)
    (List.cons_ne_nil _ _) hformulas hlines
  refine ⟨hrun, ?_, houtput, hcode, ?_⟩
  · rw [hrun]
    decide +kernel
  · rw [hread, hdecoded]
    rfl

end Propositional.Command
