import Mathlib.Data.Finset.Card
import Propositional.Proofs.Command.Requests
import Propositional.Proofs.Evaluation.Equivalence

/-!
# Batches

A batch is its formulas one after the other, and a formula leaves in a batch what it leaves alone:
nothing is carried over from one to the next but the greatest of the codes. The only record that is
not of a formula is the one at the end, so it has to be taken away from runs before these are put
together (`Propositional.Command.Outcome.withoutLast`).

Verifying adds a record for each formula that can be read and changes nothing else
(`Propositional.Command.convert_verify`). This rests on what the comparison of a formula with its
normal form finds, namely nothing (`Propositional.Formula.equivalent_normalize`): the branch with
the code 2 is never taken. So the code tells only whether all formulas could be read, in whatever
order they come.
-/

namespace Propositional.Command

/-! ### Outcomes one after the other -/

theorem foldl_max_le_iff {m n : Nat} {ns : List Nat} :
    ns.foldl max m ≤ n ↔ m ≤ n ∧ ∀ k ∈ ns, k ≤ n := by
  induction ns generalizing m with
  | nil => simp
  | cons k ns ih => rw [List.foldl_cons, ih, List.forall_mem_cons, Nat.max_le, and_assoc]

/-- The lines that a log shows of some records. -/
def shownLines (threshold : Severity) (rs : List Record) : List String :=
  (rs.filter fun r => r.severity.rank ≤ threshold.rank).map Outcome.logLine

theorem shownLines_append (threshold : Severity) (rs qs : List Record) :
    shownLines threshold (rs ++ qs) = shownLines threshold rs ++ shownLines threshold qs := by
  rw [shownLines, List.filter_append, List.map_append]
  rfl

theorem shownLines_flatMap {α : Type} (threshold : Severity) (xs : List α)
    (f : α → List Record) :
    shownLines threshold (xs.flatMap f) = xs.flatMap fun x => shownLines threshold (f x) := by
  rw [shownLines, List.filter_flatMap, List.map_flatMap]
  rfl

namespace Outcome

theorem log_eq (threshold : Severity) (o : Outcome) :
    o.log threshold = shownLines threshold o.records := rfl

/-- The code of a whole is bounded by what bounds the codes of its parts. -/
theorem code_concat_le_iff {os : List Outcome} {n : Nat} :
    (concat os).code ≤ n ↔ ∀ o ∈ os, o.code ≤ n := by
  rw [concat, foldl_max_le_iff, List.forall_mem_map]
  simp

/-- The outcome without the last of its records. -/
def withoutLast (o : Outcome) : Outcome :=
  { o with records := o.records.dropLast }

theorem log_withoutLast {o : Outcome} {rs : List Record} {r : Record}
    (h : o.records = rs ++ [r]) (threshold : Severity) :
    o.withoutLast.log threshold = shownLines threshold rs := by
  rw [log_eq, withoutLast, h, List.dropLast_concat]

end Outcome

/-! ### One formula -/

section Formula

variable {options : Options} {formula : String} {t : Formula}

/-- Whether a text can be read as a formula. -/
def IsReadable (mode : LexMode) (text : String) : Prop :=
  ∃ t, parse mode text = .ok t

/-- The record that a normal form agrees with its formula, which has so many variables. -/
def verifiedRecord (count : Nat) : Record :=
  ⟨.info, .command, s!"Normal form verified over {count} variables"⟩

/-- A formula has as many names as there are variables in it. -/
theorem length_names (t : Formula) : t.names.length = t.occurrences.toFinset.card := by
  rw [Formula.names, ← List.toFinset_card_of_nodup (Formula.nodup_eraseDups t.occurrences)]
  refine congrArg Finset.card (Finset.ext fun name => ?_)
  rw [List.mem_toFinset, List.mem_toFinset, List.mem_eraseDups]

/-- **A normal form is always verified**, in either way of making it. -/
theorem verification_normalize (dropUnits : Bool) (t : Formula) :
    verification t (t.normalize dropUnits) =
      .recording (verifiedRecord t.occurrences.toFinset.card) 0 := by
  have hnone : t.counterexample (t.normalize dropUnits) = none :=
    Option.isNone_iff_eq_none.mp (Formula.equivalent_normalize dropUnits t)
  rw [verification, hnone, ← length_names]
  rfl

/-- A formula that cannot be read prints nothing. -/
theorem convert_of_error {f : Fault} (h : parse options.mode formula = .error f) :
    convert options formula =
      ⟨"", (parseLogged options.mode formula).records ++ [faultRecord formula f], 1⟩ := by
  unfold convert
  simp only [value_parseLogged, h]
  simp [Outcome.concat, Outcome.recording]

/-- What a formula leaves that can be read: the text of its outline, if it is to be shown, then that
of its normal form, and no error. -/
theorem convert_of_ok (h : parse options.mode formula = .ok t) :
    convert options formula =
      ⟨(if options.showOutline then t.indentedOutline ++ "\n" else "") ++
          ((t.normalize options.dropUnits).render ++ "\n"),
        (parseLogged options.mode formula).records ++
          ((t.normalizeLogged options.dropUnits).records ++
            (sizesRecord t (t.normalize options.dropUnits) ::
              if options.verify then [verifiedRecord t.occurrences.toFinset.card] else [])),
        0⟩ := by
  have hvalue : (t.normalizeLogged options.dropUnits).value = t.normalize options.dropUnits := rfl
  unfold convert conversion
  simp only [value_parseLogged, h, hvalue, verification_normalize]
  cases options.verify <;> simp [Outcome.concat, Outcome.recording]

/-- The records that verifying adds for a formula. -/
def verifiedRecords (mode : LexMode) (formula : String) : List Record :=
  match parse mode formula with
  | .error _ => []
  | .ok t => [verifiedRecord t.occurrences.toFinset.card]

/-- **Verifying adds records at the end and changes nothing.** -/
theorem convert_verify (hverify : options.verify = false) (formula : String) :
    convert { options with verify := true } formula =
      ⟨(convert options formula).output,
        (convert options formula).records ++ verifiedRecords options.mode formula,
        (convert options formula).code⟩ := by
  cases h : parse options.mode formula with
  | error f =>
    have hverified : parse (Options.mode { options with verify := true }) formula = .error f := h
    rw [convert_of_error hverified, convert_of_error h, verifiedRecords, h]
    simp
  | ok t =>
    have hverified : parse (Options.mode { options with verify := true }) formula = .ok t := h
    rw [convert_of_ok hverified, convert_of_ok h, verifiedRecords, h]
    simp [hverify]

theorem output_convert_of_not_isReadable (h : ¬IsReadable options.mode formula) :
    (convert options formula).output = "" := by
  cases hparse : parse options.mode formula with
  | error f => rw [convert_of_error hparse]
  | ok t => exact absurd ⟨t, hparse⟩ h

/-- The code of a formula is at most 1, and it is 0 if the formula can be read. -/
theorem code_convert (options : Options) (formula : String) :
    (convert options formula).code ≤ 1 ∧
      ((convert options formula).code ≤ 0 ↔ IsReadable options.mode formula) := by
  cases h : parse options.mode formula with
  | error f =>
    rw [convert_of_error h]
    refine ⟨Nat.le_refl 1, ⟨fun hcode => absurd hcode (Nat.not_succ_le_zero 0), ?_⟩⟩
    rintro ⟨t, ht⟩
    rw [h] at ht
    cases ht
  | ok t =>
    rw [convert_of_ok h]
    exact ⟨Nat.zero_le 1, ⟨fun _ => ⟨t, h⟩, fun _ => Nat.le_refl 0⟩⟩

end Formula

/-! ### All formulas of a batch -/

theorem output_convertAll (options : Options) (formulas : List String) :
    (convertAll options formulas).output =
      String.join (formulas.map fun f => (convert options f).output) := by
  rw [convertAll, Outcome.concat, List.map_append, String.join_append, List.map_map]
  exact String.append_empty

theorem records_convertAll (options : Options) (formulas : List String) :
    (convertAll options formulas).records =
      (formulas.flatMap fun f => (convert options f).records) ++ [doneRecord] := by
  rw [convertAll, Outcome.concat, List.flatMap_append, List.flatMap_map]
  rfl

/-- The code is at most 1, and it is 0 if all formulas can be read. -/
theorem code_convertAll (options : Options) (formulas : List String) :
    (convertAll options formulas).code ≤ 1 ∧
      ((convertAll options formulas).code ≤ 0 ↔ ∀ f ∈ formulas, IsReadable options.mode f) := by
  have hle (n : Nat) :
      (convertAll options formulas).code ≤ n ↔ ∀ f ∈ formulas, (convert options f).code ≤ n := by
    rw [convertAll, Outcome.code_concat_le_iff, List.forall_mem_append, List.forall_mem_map,
      List.forall_mem_singleton]
    exact and_iff_left (Nat.zero_le n)
  rw [hle, hle]
  exact ⟨fun f _ => (code_convert options f).1,
    forall₂_congr fun f _ => (code_convert options f).2⟩

/-- **What a formula leaves alone**, as the only one of its batch. -/
def alone (flags : List Flag) (formula : String) : Outcome :=
  run (spelled flags [formula]) ByteArray.empty

section Alone

variable {flags : List Flag}

theorem output_alone (h : flags.Nodup) (formula : String) :
    (alone flags formula).output = (convert (.ofFlags flags) formula).output := by
  rw [alone, (converts_spelled h [formula]).run_eq, output_convertAll]
  rw [List.map_singleton, String.join_cons, String.join_nil, String.append_empty]

theorem records_alone (h : flags.Nodup) (formula : String) :
    (alone flags formula).records =
      (convert (.ofFlags flags) formula).records ++ [doneRecord] := by
  rw [alone, (converts_spelled h [formula]).run_eq, records_convertAll, List.flatMap_singleton]

theorem log_alone (h : flags.Nodup) (formula : String) (threshold : Severity) :
    (alone flags formula).withoutLast.log threshold =
      shownLines threshold (convert (.ofFlags flags) formula).records :=
  Outcome.log_withoutLast (records_alone h formula) threshold

end Alone

/-! ### Runs of batches -/

/-- The mode in which formulas are read with the given flags. -/
def modeOf (flags : List Flag) : LexMode :=
  (Options.ofFlags flags).mode

/-- **A run is the concatenation of its formulas.** -/
structure IsBatch (flags : List Flag) (formulas : List String) (whole : Outcome) : Prop where
  /-- The output is what the formulas print alone, in order -/
  output_eq : whole.output = String.join (formulas.map fun f => (alone flags f).output)
  /-- The log, of whatever level, is what they log alone, in order, but for the last record … -/
  log_eq : ∀ threshold, whole.withoutLast.log threshold =
    formulas.flatMap fun f => (alone flags f).withoutLast.log threshold
  /-- … which says that all is done -/
  getLast?_records : whole.records.getLast? = some doneRecord
  /-- Formulas that cannot be read print nothing -/
  output_alone_eq : ∀ f ∈ formulas, ¬IsReadable (modeOf flags) f → (alone flags f).output = ""
  /-- The code is 0 if all can be read -/
  code_eq_zero : (∀ f ∈ formulas, IsReadable (modeOf flags) f) → whole.code = 0
  /-- The code is 1 if some cannot -/
  code_eq_one : (∃ f ∈ formulas, ¬IsReadable (modeOf flags) f) → whole.code = 1

/-- **Verifying adds a record for each formula that can be read**, and nothing else. -/
structure IsVerified (flags : List Flag) (formulas : List String) (whole verified : Outcome) :
    Prop where
  /-- The output is the same -/
  output_eq : verified.output = whole.output
  /-- The code is the same -/
  code_eq : verified.code = whole.code
  /-- The log, if it shows results, is what the formulas log alone and the record that they have
  been verified, but for the last record … -/
  log_eq : ∀ threshold, threshold ≠ .error → verified.withoutLast.log threshold =
    formulas.flatMap fun f => (alone flags f).withoutLast.log threshold ++
      (verifiedRecords (modeOf flags) f).map Outcome.logLine
  /-- … which says that all is done -/
  getLast?_records : verified.records.getLast? = some doneRecord
  /-- The same errors are logged -/
  log_error_eq : verified.log .error = whole.log .error

section Runs

variable {flags : List Flag} {arguments formulas : List String} {input : ByteArray}

theorem isBatch_convertAll (h : flags.Nodup) (formulas : List String) :
    IsBatch flags formulas (convertAll (.ofFlags flags) formulas) where
  output_eq := by
    rw [output_convertAll]
    exact congrArg String.join (List.map_congr_left fun f _ => (output_alone h f).symm)
  log_eq threshold := by
    rw [Outcome.log_withoutLast (records_convertAll _ formulas), shownLines_flatMap]
    exact List.flatMap_congr fun f _ => (log_alone h f threshold).symm
  getLast?_records := by
    rw [records_convertAll, List.getLast?_concat]
  output_alone_eq f _ hf := by
    rw [output_alone h]
    exact output_convert_of_not_isReadable hf
  code_eq_zero hall :=
    Nat.le_zero.mp ((code_convertAll (.ofFlags flags) formulas).2.mpr hall)
  code_eq_one := by
    rintro ⟨f, hf, hnot⟩
    obtain ⟨hle, hzero⟩ := code_convertAll (.ofFlags flags) formulas
    refine Nat.le_antisymm hle (Nat.pos_of_ne_zero fun hcode => ?_)
    exact hnot (hzero.mp (Nat.le_of_eq hcode) f hf)

theorem shownLines_verifiedRecords_error (mode : LexMode) (formula : String) :
    shownLines .error (verifiedRecords mode formula) = [] := by
  unfold verifiedRecords
  split <;> rfl

theorem shownLines_verifiedRecords {threshold : Severity} (h : threshold ≠ .error)
    (mode : LexMode) (formula : String) :
    shownLines threshold (verifiedRecords mode formula) =
      (verifiedRecords mode formula).map Outcome.logLine := by
  unfold verifiedRecords
  cases threshold with
  | error => exact absurd rfl h
  | _ => split <;> rfl

theorem isVerified_convertAll (h : flags.Nodup) (hcheck : .check ∉ flags)
    (formulas : List String) :
    IsVerified flags formulas (convertAll (.ofFlags flags) formulas)
      (convertAll { Options.ofFlags flags with verify := true } formulas) := by
  have hverify : (Options.ofFlags flags).verify = false := decide_eq_false hcheck
  have hconvert := convert_verify hverify
  have hrecords : (convertAll { Options.ofFlags flags with verify := true } formulas).records =
      (formulas.flatMap fun f => (convert (.ofFlags flags) f).records ++
        verifiedRecords (modeOf flags) f) ++ [doneRecord] := by
    rw [records_convertAll]
    simp only [hconvert]
    rfl
  refine ⟨?_, ?_, fun threshold hthreshold => ?_, ?_, ?_⟩
  · simp only [output_convertAll, hconvert]
  · simp only [convertAll, Outcome.concat, List.map_append, List.map_map, Function.comp_def,
      hconvert]
  · rw [Outcome.log_withoutLast hrecords, shownLines_flatMap]
    refine List.flatMap_congr fun f _ => ?_
    rw [shownLines_append, log_alone h, shownLines_verifiedRecords hthreshold]
  · rw [hrecords, List.getLast?_concat]
  · rw [Outcome.log_eq, Outcome.log_eq, hrecords, records_convertAll, shownLines_append,
      shownLines_append, shownLines_flatMap, shownLines_flatMap]
    simp only [shownLines_append, shownLines_verifiedRecords_error, List.append_nil]

/-- The order of the flags makes no difference. -/
theorem ofFlags_eq_of_perm {others : List Flag} (h : others.Perm flags) :
    Options.ofFlags others = Options.ofFlags flags := by
  simp only [Options.ofFlags, h.mem_iff]

theorem ofFlags_cons_check (flags : List Flag) :
    Options.ofFlags (.check :: flags) = { Options.ofFlags flags with verify := true } := by
  simp [Options.ofFlags]

/-- **A run is the concatenation of its formulas, and verifying changes no result.** Whichever way a
batch is asked for, it leaves what its formulas leave alone, one after the other; formulas that
cannot be read print nothing, and the code is 1 if there are any and else 0, so that it does not
depend on the order of the formulas. The same batch with the flag for verifying has the same output
and the same code, and its log has one record more for each formula that can be read, which says
how many variables the formula has, and the same errors. -/
theorem isBatch_run (h : Converts arguments input flags formulas) :
    IsBatch flags formulas (run arguments input) ∧
    (∀ arguments' input' formulas', formulas'.Perm formulas →
      Converts arguments' input' flags formulas' →
        (run arguments' input').code = (run arguments input).code) ∧
    ∀ arguments' input' flags', flags'.Perm (.check :: flags) →
      Converts arguments' input' flags' formulas →
        IsVerified flags formulas (run arguments input) (run arguments' input') := by
  have hnodup : flags.Nodup := h.nodup
  rw [h.run_eq]
  refine ⟨isBatch_convertAll hnodup formulas, fun arguments' input' formulas' hperm h' => ?_,
    fun arguments' input' flags' hperm h' => ?_⟩
  · obtain ⟨-, -, -, -, hzero, hone⟩ := isBatch_convertAll hnodup formulas
    obtain ⟨-, -, -, -, hzero', hone'⟩ := isBatch_convertAll hnodup formulas'
    rw [h'.run_eq]
    by_cases hall : ∀ f ∈ formulas, IsReadable (modeOf flags) f
    · rw [hzero hall, hzero' fun f hf => hall f (hperm.mem_iff.mp hf)]
    · obtain ⟨f, hf, hnot⟩ := not_forall₂.mp hall
      rw [hone ⟨f, hf, hnot⟩, hone' ⟨f, hperm.mem_iff.mpr hf, hnot⟩]
  · have hcheck : .check ∉ flags := (List.nodup_cons.mp (hperm.nodup_iff.mp h'.nodup)).1
    rw [h'.run_eq, ofFlags_eq_of_perm hperm, ofFlags_cons_check]
    exact isVerified_convertAll hnodup hcheck formulas

end Runs

/-- A batch with a formula that cannot be read, and the same batch verified. Flags stand between the
formulas, of which the last looks like a flag. -/
theorem isBatch_run_of_fault :
    IsBatch [.foldIdentities] ["A & (B | !A)", "(A", "-C"]
      (run ["A & (B | !A)", "(A", "--fold-identities", "--", "-C"] ByteArray.empty) ∧
    (run ["A & (B | !A)", "(A", "--fold-identities", "--", "-C"] ByteArray.empty).code = 1 ∧
    IsVerified [.foldIdentities] ["A & (B | !A)", "(A", "-C"]
      (run ["A & (B | !A)", "(A", "--fold-identities", "--", "-C"] ByteArray.empty)
      (run ["--check", "A & (B | !A)", "--fold-identities", "(A", "--", "-C"] ByteArray.empty) := by
  have hfault : ¬IsReadable .permissive "(A" := by
    rintro ⟨t, ht⟩
    have herror : parse .permissive "(A" = .error (.grammatical (.unexpectedEnd .closing)) := by
      decide +kernel
    rw [herror] at ht
    cases ht
  have hconverts : Converts ["A & (B | !A)", "(A", "--fold-identities", "--", "-C"]
      ByteArray.empty [.foldIdentities] ["A & (B | !A)", "(A", "-C"] :=
    .arguments (by decide +kernel) (List.cons_ne_nil _ _)
  have hchecked : Converts ["--check", "A & (B | !A)", "--fold-identities", "(A", "--", "-C"]
      ByteArray.empty [.check, .foldIdentities] ["A & (B | !A)", "(A", "-C"] :=
    .arguments (by decide +kernel) (List.cons_ne_nil _ _)
  obtain ⟨hbatch, -, hverified⟩ := isBatch_run hconverts
  exact ⟨hbatch, hbatch.code_eq_one ⟨"(A", by decide, hfault⟩,
    hverified _ _ _ (List.Perm.refl _) hchecked⟩

end Propositional.Command
