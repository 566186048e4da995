import Mathlib.Data.List.TakeWhile
import Propositional.Proofs.Command.Requests

/-!
# Decoding an input line by line

An input can be decoded as a whole and then cut into lines, or it can be cut into lines of bytes,
each of which is decoded by itself as soon as it is there (`Propositional.Text.readLines`). Both
give the same lines, and where the input is no text, neither gives any
(`Propositional.Text.readLines_eq`): the byte of a line feed occurs in the encoding of no other
character, so cutting at this byte cuts no character in two, and an input is a text if and only if
all its lines are.
-/

namespace Propositional.Text

/-! ### Encodings -/

/-- The byte of a line feed. -/
def newlineByte : UInt8 := 10

/-- The bytes of a text. -/
def encoded (cs : List Char) : List UInt8 :=
  cs.flatMap String.utf8EncodeChar

/-- The text with the given bytes, if there is one. -/
def decoded? (bytes : List UInt8) : Option (List Char) :=
  (String.fromUTF8? bytes.toByteArray).map String.toList

@[simp] theorem encoded_nil : encoded [] = [] := rfl

theorem encoded_append_newline (cs ds : List Char) :
    encoded (cs ++ '\n' :: ds) = encoded cs ++ newlineByte :: encoded ds :=
  List.flatMap_append

theorem toByteArray_encoded (cs : List Char) :
    (encoded cs).toByteArray = (String.ofList cs).toUTF8 := by
  rw [String.toUTF8_eq_toByteArray, String.toByteArray_ofList]
  rfl

/-- A text is what is decoded from its bytes, and nothing else is decoded from them. -/
theorem decoded?_eq_some_iff {bytes : List UInt8} {cs : List Char} :
    decoded? bytes = some cs ↔ encoded cs = bytes := by
  constructor
  · intro h
    obtain ⟨text, htext, rfl⟩ := Option.map_eq_some_iff.mp h
    have hbytes : text.toUTF8 = bytes.toByteArray := by
      unfold String.fromUTF8? at htext
      split at htext
      · rw [← Option.some.inj htext]
        rfl
      · cases htext
    have hencoded : (encoded text.toList).toByteArray = bytes.toByteArray := by
      rw [toByteArray_encoded, String.ofList_toList, hbytes]
    rw [← List.toList_data_toByteArray (l := encoded text.toList), hencoded,
      List.toList_data_toByteArray]
  · rintro rfl
    rw [decoded?, toByteArray_encoded, Command.fromUTF8?_toUTF8, Option.map_some,
      String.toList_ofList]

/-- The byte of a line feed is in the encoding of no other character: all bytes of a character that
takes more than one are 128 or more. -/
theorem newlineByte_notMem_utf8EncodeChar {c : Char} (h : c ≠ '\n') :
    newlineByte ∉ String.utf8EncodeChar c := by
  have hc : c.toNat ≠ '\n'.toNat := fun hnat => h (Char.toNat_inj.mp hnat)
  intro hmem
  have hbyte : ∃ b ∈ String.utf8EncodeChar c, b.toNat = '\n'.toNat := ⟨newlineByte, hmem, rfl⟩
  have hnat : '\n'.toNat = 10 := rfl
  rw [hnat] at hc hbyte
  simp only [String.utf8EncodeChar, Char.toNat_val] at hbyte
  -- A case for each number of bytes
  split_ifs at hbyte <;>
    simp only [List.mem_cons, List.not_mem_nil, or_false, exists_eq_or_imp, exists_eq_left,
      UInt8.toNat_ofNat', Nat.reducePow] at hbyte <;>
    omega

theorem newlineByte_mem_encoded {cs : List Char} : newlineByte ∈ encoded cs ↔ '\n' ∈ cs := by
  constructor
  · intro h
    obtain ⟨c, hc, hmem⟩ := List.mem_flatMap.mp h
    by_cases hnewline : c = '\n'
    · exact hnewline ▸ hc
    · exact absurd hmem (newlineByte_notMem_utf8EncodeChar hnewline)
  · exact fun h => List.mem_flatMap.mpr ⟨'\n', h, List.mem_singleton_self newlineByte⟩

/-- The first line feed of a text is the first one of its bytes. -/
theorem encoded_eq_append_newlineByte {line rest : List UInt8} (h : newlineByte ∉ line)
    {cs : List Char} :
    encoded cs = line ++ newlineByte :: rest ↔
      ∃ ds es, cs = ds ++ '\n' :: es ∧ encoded ds = line ∧ encoded es = rest := by
  constructor
  · intro hcs
    have hmem : '\n' ∈ cs := newlineByte_mem_encoded.mp (hcs ▸ List.mem_append_cons_self)
    obtain ⟨ds, es, rfl, hds⟩ := List.eq_append_cons_of_mem hmem
    rw [encoded_append_newline] at hcs
    have hsplit := congrArg (List.splitOn newlineByte) hcs
    rw [List.splitOn_append_cons_self_of_not_mem (mt newlineByte_mem_encoded.mp hds),
      List.splitOn_append_cons_self_of_not_mem h] at hsplit
    have hline : encoded ds = line := (List.cons.inj hsplit).1
    refine ⟨ds, es, rfl, hline, ?_⟩
    rw [hline] at hcs
    exact (List.cons.inj (List.append_cancel_left hcs)).2
  · rintro ⟨ds, es, rfl, rfl, rfl⟩
    exact encoded_append_newline ds es

/-- What follows a line is decoded by itself. -/
theorem decoded?_append_newlineByte {line : List UInt8} (h : newlineByte ∉ line)
    (rest : List UInt8) :
    decoded? (line ++ newlineByte :: rest) =
      (decoded? line).bind fun ds => (decoded? rest).map fun es => ds ++ '\n' :: es := by
  ext cs
  rw [decoded?_eq_some_iff, encoded_eq_append_newlineByte h, Option.bind_eq_some_iff]
  simp only [Option.map_eq_some_iff, decoded?_eq_some_iff]
  constructor
  · rintro ⟨ds, es, rfl, hds, hes⟩
    exact ⟨ds, hds, es, hes, rfl⟩
  · rintro ⟨ds, hds, es, hes, rfl⟩
    exact ⟨ds, es, rfl, hds, hes⟩

/-! ### Reading lines -/

/-- **The lines of an input that is read line by line**, without what ends them. The bytes up to a
line feed are decoded before anything after it is looked at; if they are no text, the reading fails
and the lines before are lost. -/
def readLines : List UInt8 → Option (List (List Char))
  | [] => some []
  | b :: bytes =>
    let line := (b :: bytes).takeWhile (· != newlineByte)
    let rest := (b :: bytes).dropWhile (· != newlineByte)
    (decoded? line).bind fun cs =>
      if rest.isEmpty then some [cs] else (readLines rest.tail).map (withoutReturn cs :: ·)
termination_by bytes => bytes.length
decreasing_by
  have hle := (List.dropWhile_suffix (· != newlineByte) : _ <:+ b :: bytes).length_le
  simp only [List.length_tail, List.length_cons] at hle ⊢
  omega

theorem readLines_nil : readLines [] = some [] := by
  rw [readLines]

theorem ne_newlineByte_of_notMem {line : List UInt8} (h : newlineByte ∉ line) :
    ∀ b ∈ line, (b != newlineByte) = true :=
  fun _ hb => bne_iff_ne.mpr (ne_of_mem_of_not_mem hb h)

theorem readLines_of_notMem {line : List UInt8} (hne : line ≠ []) (h : newlineByte ∉ line) :
    readLines line = (decoded? line).map ([·]) := by
  have htake : line.takeWhile (· != newlineByte) = line :=
    List.takeWhile_eq_self_iff.mpr (ne_newlineByte_of_notMem h)
  have hdrop : line.dropWhile (· != newlineByte) = [] :=
    List.dropWhile_eq_nil_iff.mpr (ne_newlineByte_of_notMem h)
  cases line with
  | nil => exact absurd rfl hne
  | cons b line =>
    rw [readLines, htake, hdrop, Option.map_eq_bind]
    rfl

theorem readLines_append_newlineByte {line : List UInt8} (h : newlineByte ∉ line)
    (rest : List UInt8) :
    readLines (line ++ newlineByte :: rest) =
      (decoded? line).bind fun cs => (readLines rest).map (withoutReturn cs :: ·) := by
  have htake : (line ++ newlineByte :: rest).takeWhile (· != newlineByte) = line := by
    rw [List.takeWhile_append_of_pos (ne_newlineByte_of_notMem h),
      List.takeWhile_cons_of_neg (by simp), List.append_nil]
  have hdrop :
      (line ++ newlineByte :: rest).dropWhile (· != newlineByte) = newlineByte :: rest := by
    rw [List.dropWhile_append_of_pos (ne_newlineByte_of_notMem h),
      List.dropWhile_cons_of_neg (by simp)]
  cases hbytes : line ++ newlineByte :: rest with
  | nil => simp at hbytes
  | cons b bytes =>
    rw [readLines, ← hbytes, htake, hdrop]
    rfl

theorem isInLine_of_notMem {cs : List Char} (h : '\n' ∉ cs) : ∀ c ∈ cs, isInLine c = true :=
  fun _ hc => bne_iff_ne.mpr (ne_of_mem_of_not_mem hc h)

/-- What is decoded from the bytes of a line is a line. -/
theorem newline_notMem_of_decoded? {line : List UInt8} (h : newlineByte ∉ line) {cs : List Char}
    (hcs : decoded? line = some cs) : '\n' ∉ cs := by
  obtain rfl := decoded?_eq_some_iff.mp hcs
  exact mt newlineByte_mem_encoded.mpr h

/-- **Reading line by line is decoding as a whole**, for any bytes. -/
theorem readLines_eq (bytes : List UInt8) : readLines bytes = (decoded? bytes).map lines := by
  by_cases hmem : newlineByte ∈ bytes
  · obtain ⟨line, rest, rfl, hline⟩ := List.eq_append_cons_of_mem hmem
    rw [readLines_append_newlineByte hline, decoded?_append_newlineByte hline,
      readLines_eq rest]
    cases hdecoded : decoded? line with
    | none => rfl
    | some cs =>
      have hcs : ∀ c ∈ cs, isInLine c = true :=
        isInLine_of_notMem (newline_notMem_of_decoded? hline hdecoded)
      cases decoded? rest with
      | none => rfl
      | some ds => exact congrArg some (lines_append_newline hcs ds).symm
  · by_cases hne : bytes = []
    · subst hne
      have hempty : decoded? [] = some [] := decoded?_eq_some_iff.mpr encoded_nil
      rw [readLines_nil, hempty, Option.map_some, lines_nil]
    · rw [readLines_of_notMem hne hmem]
      refine Option.map_congr fun cs hcs => ?_
      have hcsne : cs ≠ [] := by
        rintro rfl
        exact hne (decoded?_eq_some_iff.mp hcs).symm
      have hnewline : '\n' ∉ cs := newline_notMem_of_decoded? hmem hcs
      exact (lines_of_all hcsne (isInLine_of_notMem hnewline)).symm
termination_by bytes.length
decreasing_by
  subst_vars
  simp only [List.length_append, List.length_cons]
  omega

/-- An input that is read line by line gives the lines of the text that it is. -/
theorem readLines_toList (input : ByteArray) :
    readLines input.data.toList =
      (String.fromUTF8? input).map fun text => lines text.toList := by
  have hinput : input.data.toList.toByteArray = input := by
    refine ByteArray.ext ?_
    rw [List.data_toByteArray]
  rw [readLines_eq, decoded?, hinput, Option.map_map]
  rfl

end Propositional.Text
