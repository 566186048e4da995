import Propositional.Proofs.Rendering.Cutting

/-!
# The names in a text

Which names can a text contain? If it has no stray character, then only lexable ones
(`Propositional.lexable_of_tokenize`): a name that was cut out of a text is cut out again wherever
it is written by itself, and this is what makes a formula that was read fit to be written.

That there is no stray character is needed, and not only because there would be no tokens otherwise.
In the permissive mode a `T` is a constant if a delimiter follows, and a control is no delimiter; so
a `T` with a control behind it is a name, the one name that could not be read again. It takes the
control that made it a name to be stray (`Propositional.exists_isStray_of_takeWhile_eq_nil`).
-/

namespace Propositional

open Text

variable {mode : LexMode} {c : Char} {cs : List Char} {text : List Char}

/-! ### The first character of a name -/

/-- A text that goes on neither with a delimiter nor with a character of a name goes on with a stray
one. -/
theorem exists_isStray_of_takeWhile_eq_nil (hdelimited : startsDelimited cs = false)
    (hname : cs.takeWhile isNameChar = []) :
    ∃ p ∈ pieces mode (cs.dropWhile isNameChar), p.isStray = true := by
  cases cs with
  | nil => exact absurd hdelimited (by decide)
  | cons d ds =>
    have hd : isNameChar d = false := by
      by_contra h
      rw [List.takeWhile_cons_of_pos (by simpa using h)] at hname
      cases hname
    have hdelimiter : isDelimiter d = false := hdelimited
    have hcontrol : isControl d = true := by simpa [isNameChar, hdelimiter] using hd
    have hblank : isBlank d = false := by
      rw [isDelimiter, Bool.or_eq_false_iff] at hdelimiter
      exact hdelimiter.1
    rw [List.dropWhile_cons_of_neg (by simp [hd]), pieces_cons,
      (IsFirstPiece.stray hblank hcontrol).firstPiece_eq]
    exact ⟨.stray d, by simp, rfl⟩

/-! ### Names that are cut out -/

/-- A name that starts with a character fit for it is lexable, if it is not taken for a constant. -/
theorem lexable_ofList_cons (hc : isNameChar c = true)
    (hconstant : constant? c = none ∨ mode = .permissive ∧ cs.takeWhile isNameChar ≠ []) :
    Lexable mode (String.ofList (c :: cs.takeWhile isNameChar)) where
  ne_nil := by simp
  plain d hd := by
    rw [String.toList_ofList] at hd
    exact isNameChar_iff.mp (isNameChar_of_mem_name hc d hd)
  not_constant _ := by
    rw [String.toList_ofList]
    rcases hconstant with h | ⟨-, h⟩
    · obtain ⟨hT, hF⟩ := constant?_eq_none_iff.mp h
      simp [hT, hF]
    · simp [h]
  not_leading hmode := by
    rw [String.toList_ofList]
    rcases hconstant with h | ⟨hpermissive, -⟩
    · obtain ⟨hT, hF⟩ := constant?_eq_none_iff.mp h
      simp [hT, hF]
    · rw [hmode] at hpermissive
      cases hpermissive

/-- **A name at the start of a text is lexable**, if there is no stray character behind it. -/
theorem IsFirstPiece.lexable {rest : List Char}
    (h : IsFirstPiece mode c cs (.token .name text) rest)
    (hstray : ∀ p ∈ pieces mode rest, p.isStray = false) : Lexable mode (String.ofList text) := by
  cases h with
  | sign h => exact absurd (isSign_of_ofSign? h) nofun
  | name h hmode =>
    refine lexable_ofList_cons h (hmode.imp_right fun ⟨hpermissive, hdelimited⟩ => ?_)
    -- more of the name must follow, for what is no delimiter would be stray otherwise
    refine ⟨hpermissive, fun hnil => ?_⟩
    obtain ⟨p, hp, hpstray⟩ := exists_isStray_of_takeWhile_eq_nil hdelimited hnil
    rw [hstray p hp] at hpstray
    cases hpstray

/-- Every name among the pieces of a text without stray characters is lexable. -/
theorem lexable_of_mem_pieces (hstray : ∀ p ∈ pieces mode cs, p.isStray = false)
    (h : .token .name text ∈ pieces mode cs) : Lexable mode (String.ofList text) := by
  fun_induction pieces mode cs with
  | case1 => cases h
  | case2 c cs ih =>
    obtain ⟨-, hrest⟩ := List.forall_mem_cons.mp hstray
    rcases List.mem_cons.mp h with hfirst | hmem
    · have hcut := isFirstPiece_firstPiece mode c cs
      rw [← hfirst] at hcut
      exact hcut.lexable hrest
    · exact ih hrest hmem

/-! ### Names of tokens -/

/-- Only the piece of a name is the terminal of a name. -/
theorem eq_token_of_terminal? {p : Piece} {name : String} (h : p.terminal? = some (.name name)) :
    ∃ text, p = .token .name text ∧ name = String.ofList text := by
  cases p with
  | token kind text =>
    cases kind with
    | name =>
      obtain rfl := Terminal.name.inj (Option.some.inj h)
      exact ⟨text, rfl, rfl⟩
    | _ => cases h
  | _ => cases h

/-- **The names in a text are lexable**, if the text can be cut into tokens. -/
theorem lexable_of_tokenize {source name : String} {tokens : List Token}
    (h : tokenize mode source = .ok tokens) (hname : .name name ∈ tokens.map Token.terminal) :
    Lexable mode name := by
  rw [map_terminal_of_tokensOfItems h] at hname
  obtain ⟨p, hp, hterminal⟩ := List.mem_filterMap.mp hname
  obtain ⟨text, rfl, rfl⟩ := eq_token_of_terminal? hterminal
  exact lexable_of_mem_pieces (isStray_eq_false_of_tokensOfItems h) hp

end Propositional
