import Propositional.Formula.Rendering
import Propositional.Proofs.Lexeme.Tokens

/-!
# Cutting a rendering

A rendering is made of pieces, and the cut of its text finds the same pieces again, provided that
the names in it are *lexable*: that the text of a name is cut as a name.

A piece by itself need not be found again, since a name or a constant goes on as far as it can. What
has to follow is a delimiter or the end, so the statement that passes from the parts of a formula to
the whole (`Propositional.CutsBack`) is about all texts that go on in this way. Signs and blanks are
delimiters themselves, which is why a rendering can put them between any two parts.
-/

namespace Propositional

open Text

/-! ### Names -/

/-- **A lexable name**: one whose text is cut as a name. It is not empty, it has neither blanks nor
controls nor signs in it, and it is not taken for a constant. -/
structure Lexable (mode : LexMode) (name : String) : Prop where
  /-- There is something to see of it. -/
  ne_nil : name.toList ≠ []
  /-- It has no blank, no control and no sign in it. -/
  plain : ∀ c ∈ name.toList, isBlank c = false ∧ isControl c = false ∧ c ∉ ['(', ')', '!', '&', '|']
  /-- In the permissive mode it is no constant. -/
  not_constant : mode = .permissive → name.toList ≠ ['T'] ∧ name.toList ≠ ['F']
  /-- In the strict mode it does not even begin with one. -/
  not_leading : mode = .strict → name.toList.head? ≠ some 'T' ∧ name.toList.head? ≠ some 'F'

theorem lexable_iff {mode : LexMode} {name : String} : Lexable mode name ↔
    name.toList ≠ [] ∧ name.toList.all isNameChar = true ∧
    (mode = .permissive → name.toList ≠ ['T'] ∧ name.toList ≠ ['F']) ∧
    (mode = .strict → name.toList.head? ≠ some 'T' ∧ name.toList.head? ≠ some 'F') := by
  rw [List.all_eq_true]
  constructor
  · exact fun h =>
      ⟨h.ne_nil, fun c hc => isNameChar_iff.mpr (h.plain c hc), h.not_constant, h.not_leading⟩
  · rintro ⟨hne, hchars, hconstant, hleading⟩
    exact ⟨hne, fun c hc => isNameChar_iff.mp (hchars c hc), hconstant, hleading⟩

instance (mode : LexMode) (name : String) : Decidable (Lexable mode name) :=
  decidable_of_iff _ lexable_iff.symm

/-- No name goes on with a delimiter. -/
theorem isNameChar_head?_of_startsDelimited {cs : List Char} (h : startsDelimited cs = true) :
    ∀ d ∈ cs.head?, isNameChar d = false := by
  cases cs with
  | nil => exact nofun
  | cons c cs =>
    rintro d ⟨⟩
    simp [isNameChar, show isDelimiter c = true from h]

/-- What goes on with a character of a name does not start with a delimiter. -/
theorem startsDelimited_of_isNameChar {c : Char} {cs : List Char} (h : isNameChar c = true) :
    startsDelimited (c :: cs) = false := by
  rw [isNameChar, Bool.and_eq_true, Bool.not_eq_true'] at h
  exact h.1

/-- **The first piece at a lexable name** is the name. -/
theorem firstPiece_of_lexable {mode : LexMode} {name : String} {c : Char} {cs rest : List Char}
    (h : Lexable mode name) (hname : name.toList = c :: cs) (hrest : startsDelimited rest = true) :
    firstPiece mode c (cs ++ rest) = (.token .name (c :: cs), rest) := by
  have hchars : ∀ d ∈ c :: cs, isNameChar d = true := fun d hd =>
    isNameChar_iff.mpr (h.plain d (hname ▸ hd))
  obtain ⟨hc, hcs⟩ := List.forall_mem_cons.mp hchars
  have hmode : constant? c = none ∨ mode = .permissive ∧ startsDelimited (cs ++ rest) = false := by
    cases hconst : constant? c with
    | none => exact .inl rfl
    | some b =>
      -- a letter of a constant at the start of the name: there must be more of the name behind it
      have hletter := eq_or_eq_of_constant? hconst
      have hstrict : mode ≠ .strict := by
        intro hm
        have hleading := h.not_leading hm
        rw [hname, List.head?_cons] at hleading
        rcases hletter with rfl | rfl
        · exact hleading.1 rfl
        · exact hleading.2 rfl
      have hpermissive : mode = .permissive := by
        cases mode with
        | permissive => rfl
        | strict => exact absurd rfl hstrict
      refine .inr ⟨hpermissive, ?_⟩
      cases cs with
      | nil =>
        have hconstant := h.not_constant hpermissive
        rw [hname] at hconstant
        rcases hletter with rfl | rfl
        · exact absurd rfl hconstant.1
        · exact absurd rfl hconstant.2
      | cons d cs => exact startsDelimited_of_isNameChar (hcs d (by simp))
  obtain ⟨htake, hdrop⟩ := takeWhile_isNameChar hcs (isNameChar_head?_of_startsDelimited hrest)
  have hfirst := (IsFirstPiece.name hc hmode).firstPiece_eq
  rwa [htake, hdrop] at hfirst

/-! ### Pieces that are found again -/

/-- **Pieces that are found again**: none is a stray character, and when their text is cut, with any
text behind it that starts with a delimiter, they are what it begins with. -/
structure CutsBack (mode : LexMode) (ps : List Piece) : Prop where
  /-- There is no stray character among them. -/
  noStray : ∀ p ∈ ps, p.isStray = false
  /-- The cut finds them. -/
  pieces_append : ∀ rest, startsDelimited rest = true →
    pieces mode (ps.flatMap Piece.text ++ rest) = ps ++ pieces mode rest

namespace CutsBack

variable {mode : LexMode} {ps qs : List Piece}

theorem nil : CutsBack mode [] where
  noStray := by simp
  pieces_append rest _ := by simp

/-- A single piece is found again if it is the first piece of its text. -/
theorem singleton {p : Piece} {c : Char} {cs : List Char} (hp : p.isStray = false)
    (htext : p.text = c :: cs)
    (h : ∀ rest, startsDelimited rest = true → firstPiece mode c (cs ++ rest) = (p, rest)) :
    CutsBack mode [p] where
  noStray := by simpa using hp
  pieces_append rest hrest := by
    rw [List.flatMap_singleton, htext, List.cons_append, pieces_cons, h rest hrest]
    rfl

/-- A constant is found again. -/
theorem const (b : Bool) : CutsBack mode [.token (.const b) [constantLetter b]] :=
  singleton rfl rfl fun _ hrest =>
    (IsFirstPiece.const (constant?_constantLetter b) (.inr hrest)).firstPiece_eq

/-- A lexable name is found again. -/
theorem name {v : String} (h : Lexable mode v) : CutsBack mode [.token .name v.toList] := by
  obtain ⟨c, cs, hv⟩ := List.exists_cons_of_ne_nil h.ne_nil
  exact singleton rfl hv fun rest hrest => hv ▸ firstPiece_of_lexable h hv hrest

/-- In front of pieces that are found again may stand a sign. -/
theorem cons_sign {kind : TokenKind} {c : Char} (hsign : TokenKind.ofSign? c = some kind)
    (h : CutsBack mode ps) : CutsBack mode (.token kind [c] :: ps) where
  noStray := List.forall_mem_cons.mpr ⟨rfl, h.noStray⟩
  pieces_append rest hrest := by
    rw [List.flatMap_cons, Piece.text, List.append_assoc, List.singleton_append, pieces_cons,
      (IsFirstPiece.sign hsign).firstPiece_eq, h.pieces_append rest hrest, List.cons_append]

/-- In front of pieces that are found again may stand a blank. -/
theorem cons_blank {c : Char} (hblank : isBlank c = true) (h : CutsBack mode ps) :
    CutsBack mode (.blank c :: ps) where
  noStray := List.forall_mem_cons.mpr ⟨rfl, h.noStray⟩
  pieces_append rest hrest := by
    rw [List.flatMap_cons, Piece.text, List.append_assoc, List.singleton_append, pieces_cons,
      (IsFirstPiece.blank hblank).firstPiece_eq, h.pieces_append rest hrest, List.cons_append]

/-- **Two runs of pieces** are found again if the second one starts with a delimiter. -/
theorem append {c : Char} {cs : List Char} (hps : CutsBack mode ps) (hqs : CutsBack mode qs)
    (htext : qs.flatMap Piece.text = c :: cs) (hc : isDelimiter c = true) :
    CutsBack mode (ps ++ qs) where
  noStray p hp := (List.mem_append.mp hp).elim (hps.noStray p) (hqs.noStray p)
  pieces_append rest hrest := by
    have hdelimited : startsDelimited (qs.flatMap Piece.text ++ rest) = true := by
      rw [htext]
      exact hc
    rw [List.flatMap_append, List.append_assoc, hps.pieces_append _ hdelimited,
      hqs.pieces_append rest hrest, List.append_assoc]

/-- The text of pieces that are found again is cut into them. -/
theorem pieces_eq (h : CutsBack mode ps) : pieces mode (ps.flatMap Piece.text) = ps := by
  simpa using h.pieces_append [] rfl

end CutsBack

/-! ### Renderings -/

namespace Formula

variable {mode : LexMode}

theorem cutsBack_parenthesized {needed : Bool} {ps : List Piece} (h : CutsBack mode ps) :
    CutsBack mode (parenthesized needed ps) := by
  cases needed with
  | false => exact h
  | true =>
    have hclose : CutsBack mode [signPiece .rightParen ')'] :=
      CutsBack.nil.cons_sign (by decide)
    exact (h.append hclose rfl (by decide)).cons_sign (by decide)

/-- A connective between two spaces may follow anything. -/
theorem cutsBack_append_separator {op : Connective} {ps qs : List Piece} (hps : CutsBack mode ps)
    (hqs : CutsBack mode qs) : CutsBack mode (ps ++ (separator op ++ qs)) := by
  have hsign : TokenKind.ofSign? op.symbol = some (.connective op) := by cases op <;> decide
  have hmore : CutsBack mode (separator op ++ qs) :=
    ((hqs.cons_blank (by decide)).cons_sign hsign).cons_blank (by decide)
  exact hps.append hmore rfl (by decide)

theorem cutsBack_intercalate {op : Connective} {pss : List (List Piece)}
    (h : ∀ ps ∈ pss, CutsBack mode ps) : CutsBack mode ((separator op).intercalate pss) := by
  match pss, h with
  | [], _ => exact .nil
  | [ps], h => simpa using h
  | ps :: qs :: pss, h =>
    obtain ⟨hps, hrest⟩ := List.forall_mem_cons.mp h
    rw [List.intercalate_cons_cons, List.append_assoc]
    exact cutsBack_append_separator hps (cutsBack_intercalate hrest)

/-- **The pieces of a rendering are found again** when its text is cut. -/
theorem cutsBack_pieces {t : Formula} (h : ∀ name ∈ t.occurrences, Lexable mode name) :
    CutsBack mode t.pieces := by
  induction t with
  | const b =>
    rw [pieces]
    exact .const b
  | var name =>
    rw [pieces]
    exact .name (h name (by simp))
  | neg t ih =>
    rw [pieces]
    have ht := ih fun name hname => h name (by simpa using hname)
    exact (cutsBack_parenthesized ht).cons_sign (by decide)
  | join op ts ih =>
    rw [pieces, piecesOfTerms_eq_map]
    refine cutsBack_intercalate fun ps hps => ?_
    obtain ⟨t, ht, rfl⟩ := List.mem_map.mp hps
    refine cutsBack_parenthesized (ih t ht fun name hname => h name ?_)
    rw [occurrences_join]
    exact List.mem_flatMap.mpr ⟨t, ht, hname⟩

/-- The terminals of a formula's rendering. -/
def terminals (t : Formula) : List Terminal :=
  t.pieces.filterMap Piece.terminal?

/-- **The tokens of a rendering** are to the grammar what the pieces are that it was made of. -/
theorem exists_tokenize_render {t : Formula} (h : ∀ name ∈ t.occurrences, Lexable mode name) :
    ∃ tokens, tokenize mode t.render = .ok tokens ∧ tokens.map Token.terminal = t.terminals := by
  have hcut := cutsBack_pieces h
  have hpieces : Propositional.pieces mode t.render.toList = t.pieces := by
    rw [render, String.toList_ofList, hcut.pieces_eq]
  have hnoStray : ∀ p ∈ Propositional.pieces mode t.render.toList, p.isStray = false :=
    hpieces ▸ hcut.noStray
  obtain ⟨tokens, htokens, hterminals⟩ := exists_tokenize_eq_ok hnoStray
  exact ⟨tokens, htokens, by rw [hterminals, hpieces, terminals]⟩

end Formula

end Propositional
