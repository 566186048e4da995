import Propositional.Proofs.Lexeme.Coverage
import Propositional.Proofs.Rendering.Cutting

/-!
# Texts side by side

Where two texts meet, a name at the end of the first may go on in the second, and a `T` or `F` that
was a constant may become the first letter of a name. Neither can happen if there is a delimiter on
one side of the place where they meet, or nothing at all (`Propositional.MeetsDelimiter`): then the
pieces of both texts together are the pieces of the first and the pieces of the second
(`Propositional.pieces_append`). All that the first text does to the items of the second is to move
them by its size in bytes (`Propositional.items_append`).

The induction is along the pieces of the first text, and its step is about a single one
(`Propositional.IsFirstPiece.append`). Only a name at the very end of the first text can feel what
comes after it, and the last character of a name is no delimiter, so it must be the second text that
has one.
-/

namespace Propositional

open Text

variable {mode : LexMode} {c : Char} {before after cs ds rest : List Char} {p : Piece}

/-! ### Where two texts meet -/

/-- **Two texts that meet at a delimiter**: the first one is empty or ends with a delimiter, or the
second one is empty or starts with one. -/
def MeetsDelimiter (before after : List Char) : Prop :=
  (∀ c ∈ before.getLast?, isDelimiter c = true) ∨ startsDelimited after = true

instance (before after : List Char) : Decidable (MeetsDelimiter before after) :=
  decidable_of_iff ((before.getLast?.all isDelimiter || startsDelimited after) = true)
    (by simp [MeetsDelimiter, Option.all_eq_true])

/-- What is left of the first text meets the second one where the whole does. -/
theorem MeetsDelimiter.of_append (h : MeetsDelimiter (cs ++ before) after) :
    MeetsDelimiter before after := by
  refine h.imp_left fun hlast c hc => hlast c ?_
  rw [List.getLast?_append, Option.mem_def.mp hc]
  rfl

/-- If the first text ends with a name, it is the second one that has the delimiter. -/
theorem MeetsDelimiter.startsDelimited (h : MeetsDelimiter before after) (hne : before ≠ [])
    (hname : ∀ c ∈ before, isNameChar c = true) : startsDelimited after = true := by
  refine h.resolve_left fun hlast => ?_
  have hdelimiter := hlast _ (List.getLast?_eq_some_getLast hne)
  have hchar := hname _ (List.getLast_mem hne)
  simp [isNameChar, hdelimiter] at hchar

/-! ### Pieces -/

/-- A name is cut out in the same way if another text follows at a delimiter. -/
theorem takeWhile_dropWhile_append (h : MeetsDelimiter (c :: cs) ds) (hc : isNameChar c = true) :
    (cs ++ ds).takeWhile isNameChar = cs.takeWhile isNameChar ∧
      (cs ++ ds).dropWhile isNameChar = cs.dropWhile isNameChar ++ ds := by
  have hsplit : cs ++ ds = cs.takeWhile isNameChar ++ (cs.dropWhile isNameChar ++ ds) := by
    rw [← List.append_assoc, List.takeWhile_append_dropWhile]
  have htake : ∀ d ∈ cs.takeWhile isNameChar, isNameChar d = true := fun d hd =>
    List.all_eq_true.mp List.all_takeWhile d hd
  rw [hsplit]
  refine takeWhile_isNameChar htake ?_
  cases hdrop : cs.dropWhile isNameChar with
  | cons e es =>
    have hstop : ∀ d ∈ (cs.dropWhile isNameChar).head?, isNameChar d = false :=
      isNameChar_head?_dropWhile
    rwa [hdrop] at hstop
  | nil =>
    -- the name is all there is of the first text
    rw [← List.takeWhile_append_dropWhile (p := isNameChar) (l := cs), hdrop, List.append_nil] at h
    exact isNameChar_head?_of_startsDelimited
      (h.startsDelimited (by simp) (List.forall_mem_cons.mpr ⟨hc, htake⟩))

/-- **The first piece of a text stays what it is** if another text follows at a delimiter. -/
theorem IsFirstPiece.append (h : IsFirstPiece mode c cs p rest)
    (hmeets : MeetsDelimiter (c :: cs) ds) : IsFirstPiece mode c (cs ++ ds) p (rest ++ ds) := by
  cases h with
  | blank h => exact .blank h
  | sign h => exact .sign h
  | stray hblank h => exact .stray hblank h
  | const h hmode =>
    refine .const h (hmode.imp_right fun hdelimited => ?_)
    cases cs with
    | cons d cs => exact hdelimited
    | nil =>
      exact hmeets.startsDelimited (by simp)
        (List.forall_mem_singleton.mpr (isNameChar_of_constant? h))
  | name h hmode =>
    obtain ⟨htake, hdrop⟩ := takeWhile_dropWhile_append hmeets h
    rw [← htake, ← hdrop]
    refine .name h (hmode.imp_right fun ⟨hpermissive, hdelimited⟩ => ⟨hpermissive, ?_⟩)
    cases cs with
    | cons d cs => exact hdelimited
    | nil => cases hdelimited

/-- **The pieces of two texts that meet at a delimiter** are those of the one and of the other. -/
theorem pieces_append (h : MeetsDelimiter cs ds) :
    pieces mode (cs ++ ds) = pieces mode cs ++ pieces mode ds := by
  fun_induction pieces mode cs with
  | case1 => rfl
  | case2 c cs ih =>
    have hfirst := isFirstPiece_firstPiece mode c cs
    have hrest : MeetsDelimiter (firstPiece mode c cs).2 ds :=
      MeetsDelimiter.of_append (text_firstPiece mode c cs ▸ h)
    rw [List.cons_append, pieces_cons, (hfirst.append h).firstPiece_eq, ih hrest, List.cons_append]

/-! ### Items -/

/-- A stray character at another place. -/
def StrayCharacter.mapPosition (f : Nat → Nat) (s : StrayCharacter) : StrayCharacter :=
  { s with position := f s.position }

/-- A token at another place. -/
def Token.mapPosition (f : Nat → Nat) (t : Token) : Token :=
  { t with position := f t.position }

/-- An item at another place. -/
def Item.mapPosition (f : Nat → Nat) : Item → Item
  | token t => token (t.mapPosition f)
  | stray s => stray (s.mapPosition f)

/-- The items of pieces move with the place of the first piece. -/
theorem itemsFrom_add (n start : Nat) (ps : List Piece) :
    itemsFrom (n + start) ps = (itemsFrom start ps).map (Item.mapPosition (n + ·)) := by
  induction ps generalizing start with
  | nil => rfl
  | cons p ps ih =>
    rw [itemsFrom_cons, itemsFrom_cons, List.map_append, Nat.add_assoc, ih]
    cases p <;> rfl

/-- **The items of two texts that meet at a delimiter** are those of the first and those of the
second, which move by the size of the first. -/
theorem items_append {a b : String} (h : MeetsDelimiter a.toList b.toList) :
    items mode (a ++ b) =
      items mode a ++ (items mode b).map (Item.mapPosition (a.utf8ByteSize + ·)) := by
  have hsize : a.utf8ByteSize = byteSize a.toList := by
    rw [← utf8ByteSize_ofList, String.ofList_toList]
  calc items mode (a ++ b)
      = itemsFrom 0 (pieces mode a.toList ++ pieces mode b.toList) := by
        rw [items, String.toList_append, pieces_append h]
    _ = items mode a ++ itemsFrom (a.utf8ByteSize + 0) (pieces mode b.toList) := by
        rw [itemsFrom_append, flatMap_text_pieces, Nat.zero_add, Nat.add_zero, hsize, items]
    _ = items mode a ++ (items mode b).map (Item.mapPosition (a.utf8ByteSize + ·)) := by
        rw [itemsFrom_add]
        rfl

end Propositional
