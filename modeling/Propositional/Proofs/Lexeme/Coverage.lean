import Propositional.Grammar
import Propositional.Proofs.Lexeme.Tokens

/-!
# How the items of a text cover it

That pieces lose nothing of a text is plain from their definition. Items are another matter, because
the blanks are gone and what is left of a place in the text is a number of bytes. This module puts
the items back on the text: they lie one after the other, each is what the text has at its place,
and between them are only blanks (`Propositional.Tiled`). What is read off the text character by
character, its signs and its stray characters (`Propositional.charIndices`), is read off the items
as well, each once and in the same order.

Everything comes from what a first piece can be (`Propositional.IsFirstPiece`), in two ways. Along
the text, a first piece is a blank or an item in front of the others
(`Propositional.tiled_itemsFrom`); and every item is a first piece where it stands
(`Propositional.exists_isFirstPiece_of_mem`), which is what says that a name ends only where it has
to.

So whether a text can be cut into tokens depends on its characters alone, and the mode has no part
in it (`Propositional.items_cover_text`).
-/

namespace Propositional

open Text

variable {mode : LexMode} {start n : Nat} {c : Char} {cs rest : List Char} {p : Piece} {i : Item}
  {found : List Item}

/-! ### Places in a text -/

/-- The size of a text is that of its characters. -/
theorem utf8ByteSize_ofList (cs : List Char) : (String.ofList cs).utf8ByteSize = byteSize cs := by
  induction cs with
  | nil => rfl
  | cons c cs ih =>
    rw [String.ofList_cons, String.utf8ByteSize_append, String.utf8ByteSize_singleton, ih,
      byteSize_cons]

theorem byteSize_pos (h : cs ≠ []) : 0 < byteSize cs := by
  obtain ⟨c, cs, rfl⟩ := List.exists_cons_of_ne_nil h
  exact Nat.lt_of_lt_of_le c.utf8Size_pos (Nat.le_add_right _ _)

/-- The characters of a text that starts at the given byte, each with the byte at which it
stands. -/
def charIndicesFrom (start : Nat) : List Char → List (Nat × Char)
  | [] => []
  | c :: cs => (start, c) :: charIndicesFrom (start + c.utf8Size) cs

/-- **The characters of a text**, each with the number of bytes in front of it. -/
def charIndices (text : String) : List (Nat × Char) :=
  charIndicesFrom 0 text.toList

theorem charIndicesFrom_append (start : Nat) (cs ds : List Char) :
    charIndicesFrom start (cs ++ ds) =
      charIndicesFrom start cs ++ charIndicesFrom (start + byteSize cs) ds := by
  induction cs generalizing start with
  | nil => rfl
  | cons c cs ih =>
    rw [List.cons_append, charIndicesFrom, ih, charIndicesFrom, byteSize_cons, Nat.add_assoc]
    rfl

/-- The byte of a character is the size of what stands in front of it. -/
theorem mem_charIndicesFrom : (n, c) ∈ charIndicesFrom start cs ↔
    ∃ before after, cs = before ++ c :: after ∧ n = start + byteSize before := by
  constructor
  · intro h
    induction cs generalizing start with
    | nil => cases h
    | cons d cs ih =>
      rcases List.mem_cons.mp h with heq | hmem
      · cases heq
        exact ⟨[], cs, rfl, rfl⟩
      · obtain ⟨before, after, rfl, rfl⟩ := ih hmem
        exact ⟨d :: before, after, rfl, Nat.add_assoc ..⟩
  · rintro ⟨before, after, rfl, rfl⟩
    rw [charIndicesFrom_append]
    exact List.mem_append_right _ (List.mem_cons_self ..)

theorem mem_of_mem_charIndicesFrom (h : (n, c) ∈ charIndicesFrom start cs) : c ∈ cs := by
  obtain ⟨before, after, rfl, -⟩ := mem_charIndicesFrom.mp h
  exact List.mem_append_right _ (List.mem_cons_self ..)

theorem exists_mem_charIndicesFrom (start : Nat) (h : c ∈ cs) :
    ∃ n, (n, c) ∈ charIndicesFrom start cs := by
  obtain ⟨before, after, rfl⟩ := List.append_of_mem h
  exact ⟨_, mem_charIndicesFrom.mpr ⟨before, after, rfl, rfl⟩⟩

/-- A character stands between the start and the end of its text. -/
theorem le_lt_of_mem_charIndicesFrom (h : (n, c) ∈ charIndicesFrom start cs) :
    start ≤ n ∧ n < start + byteSize cs := by
  obtain ⟨before, after, rfl, rfl⟩ := mem_charIndicesFrom.mp h
  have hpos := c.utf8Size_pos
  simp only [byteSize_append, byteSize_cons]
  omega

/-! ### Places of items -/

namespace Item

/-- The characters that an item takes from the text. -/
def text : Item → List Char
  | token t => t.text.toList
  | stray s => [s.character]

/-- The byte at which an item starts. -/
def position : Item → Nat
  | token t => t.position
  | stray s => s.position

/-- The byte behind an item. -/
def stop (i : Item) : Nat :=
  i.position + byteSize i.text

theorem position_lt_stop (h : i.text ≠ []) : i.position < i.stop :=
  Nat.lt_add_of_pos_right (byteSize_pos h)

/-- The token that an item is, if it is a sign. -/
def sign? : Item → Option Token
  | token t => if t.kind.isSign then some t else none
  | stray _ => none

/-- The stray character that an item is. -/
def stray? : Item → Option StrayCharacter
  | token _ => none
  | stray s => some s

end Item

/-- The token that a character at the given byte is by itself, if it is a sign. -/
def signAt? : Nat × Char → Option Token
  | (n, c) => (TokenKind.ofSign? c).map fun kind => ⟨kind, String.ofList [c], n⟩

/-- The stray character that a character at the given byte is, if it is a control and no blank. -/
def strayAt? : Nat × Char → Option StrayCharacter
  | (n, c) => if isControl c = true ∧ isBlank c = false then some ⟨c, n⟩ else none

/-- An item takes its place and its characters from the piece that it comes from. -/
theorem Piece.of_item?_eq_some (h : p.item? start = some i) :
    i.position = start ∧ i.text = p.text := by
  cases p with
  | blank c => cases h
  | token kind text =>
    obtain rfl := Option.some.inj h
    exact ⟨rfl, String.toList_ofList⟩
  | stray c =>
    obtain rfl := Option.some.inj h
    exact ⟨rfl, rfl⟩

theorem IsFirstPiece.text_append (h : IsFirstPiece mode c cs p rest) :
    p.text ++ rest = c :: cs := by
  rw [← text_firstPiece mode c cs, h.firstPiece_eq]

theorem IsFirstPiece.text_ne_nil (h : IsFirstPiece mode c cs p rest) : p.text ≠ [] := by
  have hne := text_firstPiece_ne_nil mode c cs
  rwa [h.firstPiece_eq] at hne

/-- **A first piece is one blank, or an item without any.** -/
theorem IsFirstPiece.blank_or_item (h : IsFirstPiece mode c cs p rest) (start : Nat) :
    (isBlank c = true ∧ p = .blank c ∧ rest = cs) ∨
      (∃ i, p.item? start = some i) ∧ ∀ d ∈ p.text, isBlank d = false := by
  cases h with
  | blank h => exact .inl ⟨h, rfl, rfl⟩
  | sign h =>
    exact .inr ⟨⟨_, rfl⟩, List.forall_mem_singleton.mpr (isBlank_isControl_of_ofSign? h).1⟩
  | const h =>
    have hblank := (isNameChar_iff.mp (isNameChar_of_constant? h)).1
    exact .inr ⟨⟨_, rfl⟩, List.forall_mem_singleton.mpr hblank⟩
  | name h =>
    exact .inr ⟨⟨_, rfl⟩, fun d hd => (isNameChar_iff.mp (isNameChar_of_mem_name h d hd)).1⟩
  | stray hblank h => exact .inr ⟨⟨_, rfl⟩, List.forall_mem_singleton.mpr hblank⟩

/-! ### Tilings -/

/-- **A text falls into items and the blanks between them.** The text starts at the given byte. -/
inductive Tiled : Nat → List Char → List Item → Prop
  /-- Behind the last item there are only blanks. -/
  | blanks {start gap} (hgap : ∀ c ∈ gap, isBlank c = true) : Tiled start gap []
  /-- In front of an item there are only blanks, and in it there are none. -/
  | item {start gap rest i found} (hgap : ∀ c ∈ gap, isBlank c = true)
      (hposition : i.position = start + byteSize gap) (hne : i.text ≠ [])
      (hproper : ∀ c ∈ i.text, isBlank c = false) (hrest : Tiled i.stop rest found) :
      Tiled start (gap ++ i.text ++ rest) (i :: found)

/-- One more blank in front. -/
theorem Tiled.cons_blank (hc : isBlank c = true) (h : Tiled (start + c.utf8Size) cs found) :
    Tiled start (c :: cs) found := by
  cases h with
  | blanks hgap => exact .blanks (List.forall_mem_cons.mpr ⟨hc, hgap⟩)
  | @item _ gap rest i found hgap hposition hne hproper hrest =>
    have hmore : i.position = start + byteSize (c :: gap) := by
      rw [hposition, byteSize_cons, Nat.add_assoc]
    exact .item (List.forall_mem_cons.mpr ⟨hc, hgap⟩) hmore hne hproper hrest

/-- One more first piece in front. -/
theorem Tiled.cons_firstPiece (h : IsFirstPiece mode c cs p rest)
    (hrest : Tiled (start + byteSize p.text) rest found) :
    Tiled start (c :: cs) ((p.item? start).toList ++ found) := by
  rcases h.blank_or_item start with ⟨hc, rfl, rfl⟩ | ⟨⟨i, hi⟩, hproper⟩
  · exact .cons_blank hc hrest
  · obtain ⟨hposition, htext⟩ := Piece.of_item?_eq_some hi
    rw [hi]
    rw [← htext] at hproper
    rw [← hposition, ← htext] at hrest
    have htiled : Tiled start ([] ++ i.text ++ rest) (i :: found) :=
      .item (List.forall_mem_nil _) hposition (htext ▸ h.text_ne_nil) hproper hrest
    rwa [List.nil_append, htext, h.text_append] at htiled

/-- **The items of a text tile it.** -/
theorem tiled_itemsFrom (mode : LexMode) (start : Nat) (cs : List Char) :
    Tiled start cs (itemsFrom start (pieces mode cs)) := by
  fun_induction pieces mode cs generalizing start with
  | case1 => exact .blanks (List.forall_mem_nil _)
  | case2 c cs ih => exact .cons_firstPiece (isFirstPiece_firstPiece mode c cs) (ih _)

/-- Items start behind the start of the text that they tile. -/
theorem Tiled.le_position (h : Tiled start cs found) : ∀ i ∈ found, start ≤ i.position := by
  induction h with
  | blanks => exact nofun
  | item hgap hposition hne hproper hrest ih =>
    have hle := Nat.le_trans (Nat.le_add_right _ _) (Nat.le_of_eq hposition.symm)
    refine List.forall_mem_cons.mpr ⟨hle, fun j hj => ?_⟩
    exact Nat.le_trans hle (Nat.le_trans (Nat.le_add_right _ _) (ih j hj))

/-- **Items do not overlap**, and they stand in their order. -/
theorem Tiled.increasing (h : Tiled start cs found) :
    found.Pairwise fun i j => i.position < j.position ∧ i.stop ≤ j.position := by
  induction h with
  | blanks => exact .nil
  | item hgap hposition hne hproper hrest ih =>
    refine List.pairwise_cons.mpr ⟨fun j hj => ?_, ih⟩
    have hstop := hrest.le_position j hj
    exact ⟨Nat.lt_of_lt_of_le (Item.position_lt_stop hne) hstop, hstop⟩

/-- **The characters that items cover are those that are no blanks.** -/
theorem Tiled.covers (h : Tiled start cs found) (hmem : (n, c) ∈ charIndicesFrom start cs) :
    isBlank c = false ↔ ∃ i ∈ found, i.position ≤ n ∧ n < i.stop := by
  induction h with
  | blanks hgap =>
    rw [hgap c (mem_of_mem_charIndicesFrom hmem)]
    simp
  | @item start gap rest i found hgap hposition hne hproper hrest ih =>
    have hstop : start + byteSize (gap ++ i.text) = i.stop := by
      rw [byteSize_append, Item.stop, hposition, Nat.add_assoc]
    rw [charIndicesFrom_append, List.mem_append, charIndicesFrom_append, List.mem_append, hstop,
      ← hposition] at hmem
    rw [List.exists_mem_cons_iff]
    rcases hmem with (hmem | hmem) | hmem
    · -- A blank in the gap is in front of all items.
      obtain ⟨-, hlt⟩ := le_lt_of_mem_charIndicesFrom hmem
      rw [hgap c (mem_of_mem_charIndicesFrom hmem)]
      refine iff_of_false nofun ?_
      rintro (⟨hle, -⟩ | ⟨j, hj, hle, -⟩)
      · omega
      · have hi := Item.position_lt_stop hne
        have hj := hrest.le_position j hj
        omega
    · exact iff_of_true (hproper c (mem_of_mem_charIndicesFrom hmem))
        (.inl (le_lt_of_mem_charIndicesFrom hmem))
    · obtain ⟨hle, -⟩ := le_lt_of_mem_charIndicesFrom hmem
      rw [ih hmem]
      exact ⟨.inr, fun h => h.resolve_left fun hin => absurd hin.2 (Nat.not_lt.mpr hle)⟩

/-! ### Items as first pieces -/

/-- **Every item is a first piece** of what the text has at its place. -/
theorem exists_isFirstPiece_of_mem (h : i ∈ itemsFrom start (pieces mode cs)) :
    ∃ before c ds p rest, cs = before ++ c :: ds ∧ IsFirstPiece mode c ds p rest ∧
      p.item? (start + byteSize before) = some i := by
  fun_induction pieces mode cs generalizing start with
  | case1 => cases h
  | case2 c cs ih =>
    have hfirst := isFirstPiece_firstPiece mode c cs
    rw [itemsFrom_cons] at h
    rcases List.mem_append.mp h with hhead | hmem
    · exact ⟨[], c, cs, _, _, rfl, hfirst, Option.mem_toList.mp hhead⟩
    · obtain ⟨before, d, ds, p, rest, hrest, hp, hi⟩ := ih hmem
      refine ⟨(firstPiece mode c cs).1.text ++ before, d, ds, p, rest, ?_, hp, ?_⟩
      · rw [List.append_assoc, ← hrest, text_firstPiece]
      · rwa [byteSize_append, ← Nat.add_assoc]

/-- **An item is what the text has at its place.** -/
theorem exists_eq_append_of_mem (h : i ∈ itemsFrom start (pieces mode cs)) :
    ∃ before rest, cs = before ++ i.text ++ rest ∧ i.position = start + byteSize before ∧
      i.text ≠ [] := by
  obtain ⟨before, c, ds, p, rest, rfl, hp, hi⟩ := exists_isFirstPiece_of_mem h
  obtain ⟨hposition, htext⟩ := Piece.of_item?_eq_some hi
  refine ⟨before, rest, ?_, hposition, htext ▸ hp.text_ne_nil⟩
  rw [htext, List.append_assoc, hp.text_append]

/-- **A name goes on as far as it can**, and there is nothing but characters of names in it. -/
theorem exists_eq_append_of_name_mem {t : Token} (hname : t.kind = .name)
    (h : .token t ∈ itemsFrom start (pieces mode cs)) :
    (∀ d ∈ t.text.toList, isNameChar d = true) ∧
      ∃ before rest, cs = before ++ t.text.toList ++ rest ∧
        t.position = start + byteSize before ∧ ∀ d ∈ rest.head?, isNameChar d = false := by
  obtain ⟨before, c, ds, p, rest, rfl, hp, hi⟩ := exists_isFirstPiece_of_mem h
  cases hp with
  | blank => cases hi
  | sign hsign =>
    obtain rfl := Item.token.inj (Option.some.inj hi)
    obtain rfl : _ = TokenKind.name := hname
    exact absurd (isSign_of_ofSign? hsign) nofun
  | const =>
    obtain rfl := Item.token.inj (Option.some.inj hi)
    cases hname
  | name hc =>
    obtain rfl := Item.token.inj (Option.some.inj hi)
    rw [String.toList_ofList]
    refine ⟨isNameChar_of_mem_name hc, before, ds.dropWhile isNameChar, ?_, rfl,
      isNameChar_head?_dropWhile⟩
    simp [List.takeWhile_append_dropWhile]
  | stray => cases hi

/-! ### Signs and stray characters -/

/-- What can be read off the items of a text and off the characters of its first pieces can be read
off all its characters. -/
theorem filterMap_itemsFrom {β : Type} {g : Item → Option β} {f : Nat × Char → Option β}
    (h : ∀ {c cs p rest} start, IsFirstPiece mode c cs p rest →
      (p.item? start).toList.filterMap g = (charIndicesFrom start p.text).filterMap f)
    (start : Nat) (cs : List Char) :
    (itemsFrom start (pieces mode cs)).filterMap g = (charIndicesFrom start cs).filterMap f := by
  fun_induction pieces mode cs generalizing start with
  | case1 => rfl
  | case2 c cs ih =>
    rw [itemsFrom_cons, List.filterMap_append, h start (isFirstPiece_firstPiece mode c cs), ih,
      ← List.filterMap_append, ← charIndicesFrom_append, text_firstPiece]

/-- There are neither signs nor stray characters in a run of characters of names. -/
theorem filterMap_charIndicesFrom_name (h : ∀ d ∈ cs, isNameChar d = true) (start : Nat) :
    (charIndicesFrom start cs).filterMap signAt? = [] ∧
      (charIndicesFrom start cs).filterMap strayAt? = [] := by
  constructor <;> rw [List.filterMap_eq_nil_iff] <;> rintro ⟨n, d⟩ hmem
  · have hname := isNameChar_iff.mp (h d (mem_of_mem_charIndicesFrom hmem))
    rw [signAt?, ofSign?_eq_none_iff.mpr hname.2.2]
    rfl
  · have hname := isNameChar_iff.mp (h d (mem_of_mem_charIndicesFrom hmem))
    exact if_neg (by simp [hname.2.1])

/-- **The signs among the items** are the signs of the text. -/
theorem filterMap_sign?_itemsFrom (mode : LexMode) (start : Nat) (cs : List Char) :
    (itemsFrom start (pieces mode cs)).filterMap Item.sign? =
      (charIndicesFrom start cs).filterMap signAt? := by
  refine filterMap_itemsFrom (fun {c cs p rest} start h => ?_) start cs
  cases h with
  | blank h =>
    have hsign : TokenKind.ofSign? c = none := by
      refine Option.eq_none_iff_forall_ne_some.mpr fun kind hkind => ?_
      rw [(isBlank_isControl_of_ofSign? hkind).1] at h
      cases h
    simp [Piece.item?, Piece.text, charIndicesFrom, signAt?, hsign]
  | sign h =>
    simp [Piece.item?, Piece.text, charIndicesFrom, signAt?, h, Item.sign?, isSign_of_ofSign? h]
  | const h =>
    have hname : ∀ d ∈ [c], isNameChar d = true :=
      List.forall_mem_singleton.mpr (isNameChar_of_constant? h)
    exact (filterMap_charIndicesFrom_name hname start).1.symm
  | name h => exact (filterMap_charIndicesFrom_name (isNameChar_of_mem_name h) start).1.symm
  | stray hblank h =>
    have hsign := (ofSign?_constant?_of_isControl h).1
    simp [Piece.item?, Piece.text, charIndicesFrom, signAt?, hsign, Item.sign?]

/-- **The stray characters among the items** are the controls of the text that are no blanks. -/
theorem filterMap_stray?_itemsFrom (mode : LexMode) (start : Nat) (cs : List Char) :
    (itemsFrom start (pieces mode cs)).filterMap Item.stray? =
      (charIndicesFrom start cs).filterMap strayAt? := by
  refine filterMap_itemsFrom (fun {c cs p rest} start h => ?_) start cs
  cases h with
  | blank h => simp [Piece.item?, Piece.text, charIndicesFrom, strayAt?, h]
  | sign h =>
    have hcontrol := (isBlank_isControl_of_ofSign? h).2
    simp [Piece.item?, Piece.text, charIndicesFrom, strayAt?, hcontrol, Item.stray?]
  | const h =>
    have hname : ∀ d ∈ [c], isNameChar d = true :=
      List.forall_mem_singleton.mpr (isNameChar_of_constant? h)
    exact (filterMap_charIndicesFrom_name hname start).2.symm
  | name h => exact (filterMap_charIndicesFrom_name (isNameChar_of_mem_name h) start).2.symm
  | stray hblank h =>
    simp [Piece.item?, Piece.text, charIndicesFrom, strayAt?, h, hblank, Item.stray?]

/-- What goes wrong with a text is its first stray character. -/
theorem tokensOfItems_eq_error_iff {s : StrayCharacter} :
    tokensOfItems found = .error s ↔ (found.filterMap Item.stray?).head? = some s := by
  induction found with
  | nil => exact iff_of_false nofun nofun
  | cons i found ih =>
    cases i with
    | token t =>
      rw [List.filterMap_cons_none rfl, ← ih, tokensOfItems]
      cases tokensOfItems found <;> simp [Except.map]
    | stray s' => simp [tokensOfItems, Item.stray?]

/-! ### What items say of their text -/

/-- **Items that cover a text exactly.** -/
structure IsCover (text : String) (found : List Item) : Prop where
  /-- The text falls into the items and the blanks between them. -/
  tiled : Tiled 0 text.toList found
  /-- The items stand in their order and do not overlap. -/
  increasing : found.Pairwise fun i j => i.position < j.position ∧ i.stop ≤ j.position
  /-- An item is not empty, and it is what the text has at its place. -/
  slice : ∀ i ∈ found, i.text ≠ [] ∧ ∃ before after,
    text = before ++ String.ofList i.text ++ after ∧ before.utf8ByteSize = i.position
  /-- The items cover the characters that are no blanks, and no others. -/
  covers : ∀ n c, (n, c) ∈ charIndices text →
    (isBlank c = false ↔ ∃ i ∈ found, i.position ≤ n ∧ n < i.stop)
  /-- Every sign of the text is a token by itself, and no other token is a sign. -/
  signs : found.filterMap Item.sign? = (charIndices text).filterMap signAt?
  /-- Every control of the text that is no blank is a stray character, and nothing else is one. -/
  strays : found.filterMap Item.stray? = (charIndices text).filterMap strayAt?
  /-- A name has only characters of names in it, and none follows it. -/
  names : ∀ t, .token t ∈ found → t.kind = .name →
    (∀ c ∈ t.text.toList, isNameChar c = true) ∧ ∃ before after,
      text = before ++ t.text ++ after ∧ before.utf8ByteSize = t.position ∧
        ∀ c ∈ after.toList.head?, isNameChar c = false

/-- A text is put together as its characters are. -/
theorem eq_append_of_toList {text : String} {before middle after : List Char}
    (h : text.toList = before ++ middle ++ after) :
    text = String.ofList before ++ String.ofList middle ++ String.ofList after := by
  rw [← String.ofList_append, ← String.ofList_append, ← h, String.ofList_toList]

theorem isCover_items (mode : LexMode) (text : String) : IsCover text (items mode text) where
  tiled := tiled_itemsFrom mode 0 text.toList
  increasing := (tiled_itemsFrom mode 0 text.toList).increasing
  slice i hi := by
    obtain ⟨before, after, htext, hposition, hne⟩ := exists_eq_append_of_mem hi
    refine ⟨hne, String.ofList before, String.ofList after, eq_append_of_toList htext, ?_⟩
    rw [utf8ByteSize_ofList, hposition, Nat.zero_add]
  covers _ _ hmem := (tiled_itemsFrom mode 0 text.toList).covers hmem
  signs := filterMap_sign?_itemsFrom mode 0 text.toList
  strays := filterMap_stray?_itemsFrom mode 0 text.toList
  names t ht hname := by
    obtain ⟨hchars, before, after, htext, hposition, hstop⟩ :=
      exists_eq_append_of_name_mem hname ht
    refine ⟨hchars, String.ofList before, String.ofList after, ?_, ?_, ?_⟩
    · rw [eq_append_of_toList htext, String.ofList_toList]
    · rw [utf8ByteSize_ofList, hposition, Nat.zero_add]
    · rwa [String.toList_ofList]

/-- A text cannot be cut into tokens if it has a stray character, and the first one is named. -/
theorem tokenize_eq_error_iff {text : String} {s : StrayCharacter} :
    tokenize mode text = .error s ↔ (charIndices text).findSome? strayAt? = some s := by
  rw [tokenize, tokensOfItems_eq_error_iff, (isCover_items mode text).strays, List.head?_filterMap]

theorem parse_eq_error_lexical_iff {text : String} {s : StrayCharacter} :
    parse mode text = .error (.lexical s) ↔ tokenize mode text = .error s := by
  unfold parse
  cases tokenize mode text with
  | error s' => simp
  | ok tokens =>
    refine iff_of_false ?_ nofun
    cases h : parseTokens tokens <;> simp [h, Except.mapError]

/-- **The items of a text cover it**: they are not empty, stand in their order without overlapping,
and leave out nothing but blanks; every sign is one by itself, every control that is no blank is a
stray character, and names go on as far as they can. So in either mode a text can be cut into tokens
unless there is a control in it that is no blank, and the first of these, with its place, is all
that is said of the text then. -/
theorem items_cover_text (mode : LexMode) (text : String) :
    IsCover text (items mode text) ∧
    ((∃ s, tokenize mode text = .error s) ↔
      ∃ c ∈ text.toList, isControl c = true ∧ isBlank c = false) ∧
    (∀ s, tokenize mode text = .error s ↔ (charIndices text).findSome? strayAt? = some s) ∧
    ∀ s, parse mode text = .error (.lexical s) ↔ tokenize mode text = .error s := by
  refine ⟨isCover_items mode text, ?_, fun s => tokenize_eq_error_iff,
    fun s => parse_eq_error_lexical_iff⟩
  simp only [tokenize_eq_error_iff, ← Option.isSome_iff_exists, List.findSome?_isSome_iff]
  constructor
  · rintro ⟨⟨n, c⟩, hmem, hstray⟩
    refine ⟨c, mem_of_mem_charIndicesFrom hmem, ?_⟩
    by_contra hc
    rw [strayAt?, if_neg hc] at hstray
    cases hstray
  · rintro ⟨c, hmem, hc⟩
    obtain ⟨n, hn⟩ := exists_mem_charIndicesFrom 0 hmem
    refine ⟨(n, c), hn, ?_⟩
    rw [strayAt?, if_pos hc]
    rfl

/-- A text with two controls in it, the first of which is a blank of two bytes, and the second of
which follows a name that is written like a constant. -/
theorem items_cover_text_of_control :
    items .permissive "a\u0085T\u0001" =
      [.token ⟨.name, "a", 0⟩, .token ⟨.name, "T", 3⟩, .stray ⟨'\u0001', 4⟩] ∧
    tokenize .permissive "a\u0085T\u0001" = .error ⟨'\u0001', 4⟩ ∧
    parse .permissive "a\u0085T\u0001" = .error (.lexical ⟨'\u0001', 4⟩) := by
  have herror : tokenize .permissive "a\u0085T\u0001" = .error ⟨'\u0001', 4⟩ :=
    ((items_cover_text .permissive "a\u0085T\u0001").2.2.1 _).mpr (by decide)
  exact ⟨by decide +kernel, herror, ((items_cover_text .permissive _).2.2.2 _).mpr herror⟩

end Propositional
