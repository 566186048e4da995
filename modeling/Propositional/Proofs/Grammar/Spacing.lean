import Mathlib.Logic.Relation
import Propositional.Proofs.Lexeme.Concatenation
import Propositional.Proofs.Rendering.Parentheses

/-!
# Reading and the spacing of a text

Blanks separate tokens and are nothing else. So a text can be spaced in another way, with more
blanks where there are some, or with blanks next to a sign where there are none, or fewer, and what
is seen of it stays the same (`Propositional.placelessItems_eqvGen_respaced`). All that a reader can
notice are the places that faults name (`Propositional.parse_eq_of_placelessItems_eq`).

Two facts meet here. That a text that is put together at delimiters has the items of its parts
(`Propositional.items_append`) tells what happens to the items: they move and that is all. That the
reader never looks at the position of a token, it only hands it on to a fault, tells what happens to
the formula or the fault: moving the tokens is moving the fault
(`Propositional.parseTokens_map_mapPosition`). It is a fact of one step first, and of a run then.

The tokens of a text that are written again with a space between any two are spaced in yet another
way. They are found again, kinds and all (`Propositional.exists_tokenize_intercalate`), because a
token is found again where it stands alone, and a space is a delimiter.
-/

namespace Propositional

open Text

variable {mode : LexMode} {f : Nat → Nat} {a b : String} {tokens : List Token} {t : Token}

/-! ### Moving tokens and faults -/

/-- A fault in the tokens at another place. -/
def GrammarFault.mapPosition (f : Nat → Nat) : GrammarFault → GrammarFault
  | unexpectedToken found expected => unexpectedToken (found.mapPosition f) expected
  | unexpectedEnd expected => unexpectedEnd expected
  | nestingTooDeep position => nestingTooDeep (f position)

/-- A fault at another place. -/
def Fault.mapPosition (f : Nat → Nat) : Fault → Fault
  | lexical s => lexical (s.mapPosition f)
  | grammatical g => grammatical (g.mapPosition f)

namespace Progress

/-- **A step hands the position of its token on** to the fault, and does nothing else with it. -/
theorem step_mapPosition (p : Progress) (t : Token) :
    p.step (t.mapPosition f) = (p.step t).mapError (GrammarFault.mapPosition f) := by
  obtain ⟨kind, text, position⟩ := t
  cases p with
  | wanting level outer =>
    cases kind with
    | leftParen =>
      by_cases hlimit : outer.length = nestingLimit
      · simp only [Token.mapPosition, step, if_pos hlimit]
        rfl
      · simp only [Token.mapPosition, step, if_neg hlimit]
        rfl
    | _ => rfl
  | complete level outer =>
    cases kind with
    | rightParen => cases outer <;> rfl
    | _ => rfl

/-- So does a run. -/
theorem run_map_mapPosition (p : Progress) (tokens : List Token) :
    p.run (tokens.map (Token.mapPosition f)) =
      (p.run tokens).mapError (GrammarFault.mapPosition f) := by
  induction tokens generalizing p with
  | nil => rfl
  | cons t tokens ih =>
    rw [List.map_cons, run_cons, run_cons, step_mapPosition]
    cases p.step t with
    | error g => rfl
    | ok q => exact ih q

/-- What is missing at the end has no place. -/
theorem mapError_finish (p : Progress) :
    p.finish.mapError (GrammarFault.mapPosition f) = p.finish := by
  rcases p with ⟨level, outer⟩ | ⟨level, _ | ⟨around, outer⟩⟩ <;> rfl

end Progress

/-- **Reading tokens that have moved** gives the same formula, or the fault that has moved with
them. -/
theorem parseTokens_map_mapPosition (tokens : List Token) :
    parseTokens (tokens.map (Token.mapPosition f)) =
      (parseTokens tokens).mapError (GrammarFault.mapPosition f) := by
  rw [parseTokens, parseTokens, Progress.run_map_mapPosition]
  cases Progress.start.run tokens with
  | error g => rfl
  | ok q => exact (q.mapError_finish).symm

/-- The formula that items spell, or what is wrong with them. -/
def parseItems (found : List Item) : Except Fault Formula :=
  match tokensOfItems found with
  | .error s => .error (.lexical s)
  | .ok tokens => (parseTokens tokens).mapError .grammatical

theorem parse_eq_parseItems (mode : LexMode) (text : String) :
    parse mode text = parseItems (items mode text) :=
  rfl

/-- The tokens of items that have moved, or the first stray character among them. -/
theorem tokensOfItems_map_mapPosition (found : List Item) :
    tokensOfItems (found.map (Item.mapPosition f)) =
      ((tokensOfItems found).map (List.map (Token.mapPosition f))).mapError
        (StrayCharacter.mapPosition f) := by
  induction found with
  | nil => rfl
  | cons i found ih =>
    cases i with
    | stray s => rfl
    | token t =>
      rw [List.map_cons, Item.mapPosition, tokensOfItems, ih, tokensOfItems]
      cases tokensOfItems found <;> rfl

/-- **Reading items that have moved.** -/
theorem parseItems_map_mapPosition (found : List Item) :
    parseItems (found.map (Item.mapPosition f)) =
      (parseItems found).mapError (Fault.mapPosition f) := by
  rw [parseItems, parseItems, tokensOfItems_map_mapPosition]
  cases tokensOfItems found with
  | error s => rfl
  | ok tokens =>
    have hmoved : (parseTokens (tokens.map (Token.mapPosition f))).mapError Fault.grammatical =
        ((parseTokens tokens).mapError Fault.grammatical).mapError (Fault.mapPosition f) := by
      rw [parseTokens_map_mapPosition]
      cases parseTokens tokens <;> rfl
    exact hmoved

/-! ### What is seen of a text -/

/-- **What is seen of a text** by someone who does not look at places: its items, all of them put at
its start. -/
def placelessItems (mode : LexMode) (text : String) : List Item :=
  (items mode text).map (Item.mapPosition fun _ => 0)

/-- Where a text looks the same, the same is read, but for the place of a fault. -/
theorem parse_eq_of_placelessItems_eq (h : placelessItems mode a = placelessItems mode b) :
    (parse mode a).mapError (Fault.mapPosition fun _ => 0) =
      (parse mode b).mapError (Fault.mapPosition fun _ => 0) := by
  rw [parse_eq_parseItems, parse_eq_parseItems, ← parseItems_map_mapPosition,
    ← parseItems_map_mapPosition]
  exact congrArg parseItems h

theorem placelessItems_append (h : MeetsDelimiter a.toList b.toList) :
    placelessItems mode (a ++ b) = placelessItems mode a ++ placelessItems mode b := by
  have hmoved (n : Nat) (i : Item) :
      (i.mapPosition (n + ·)).mapPosition (fun _ => 0) = i.mapPosition fun _ => 0 := by
    cases i <;> rfl
  rw [placelessItems, items_append h, List.map_append, List.map_map]
  exact congrArg _ (List.map_congr_left fun i _ => hmoved _ i)

/-! ### Blanks -/

/-- A text of blanks only, which may be empty. -/
def IsSpacing (text : String) : Prop :=
  ∀ c ∈ text.toList, isBlank c = true

instance (text : String) : Decidable (IsSpacing text) :=
  decidable_of_iff (text.toList.all isBlank = true) List.all_eq_true

theorem isDelimiter_of_isBlank {c : Char} (h : isBlank c = true) : isDelimiter c = true := by
  rw [isDelimiter, h, Bool.true_or]

/-- There is nothing to see of blanks. -/
theorem placelessItems_of_isSpacing (h : IsSpacing a) : placelessItems mode a = [] := by
  have hnone (start : Nat) (cs : List Char) (hcs : ∀ c ∈ cs, isBlank c = true) :
      itemsFrom start (pieces mode cs) = [] := by
    induction cs generalizing start with
    | nil => rw [pieces_nil]; rfl
    | cons c cs ih =>
      obtain ⟨hc, hrest⟩ := List.forall_mem_cons.mp hcs
      rw [pieces_cons, (IsFirstPiece.blank hc).firstPiece_eq]
      exact ih _ hrest
  rw [placelessItems, items, hnone 0 _ h]
  rfl

/-- Blanks may follow any text. -/
theorem IsSpacing.meetsDelimiter (h : IsSpacing b) : MeetsDelimiter a.toList b.toList := by
  right
  cases hb : b.toList with
  | nil => rfl
  | cons c cs => exact isDelimiter_of_isBlank (h c (hb ▸ List.mem_cons_self ..))

/-- **Blanks between two texts are not seen**, if there are any or if the texts meet at a
delimiter. -/
theorem placelessItems_spaced {blanks : String} (hblanks : IsSpacing blanks)
    (h : blanks ≠ "" ∨ MeetsDelimiter a.toList b.toList) :
    placelessItems mode (a ++ blanks ++ b) = placelessItems mode a ++ placelessItems mode b := by
  have hmeets : MeetsDelimiter (a ++ blanks).toList b.toList := by
    by_cases hempty : blanks = ""
    · rw [hempty, String.append_empty]
      exact h.resolve_left (absurd hempty)
    · refine .inl fun c hc => isDelimiter_of_isBlank (hblanks c ?_)
      have hne : blanks.toList ≠ [] := by simpa using hempty
      rw [String.toList_append, List.getLast?_append_of_ne_nil _ hne] at hc
      exact List.mem_of_mem_getLast? hc
  rw [placelessItems_append hmeets, placelessItems_append hblanks.meetsDelimiter,
    placelessItems_of_isSpacing hblanks, List.append_nil]

/-- **A text that is spaced in another way** at one place. -/
inductive Respaced : String → String → Prop
  /-- Where there are blanks, there may be others. -/
  | replace {a b blanks others : String} (hblanks : IsSpacing blanks) (hothers : IsSpacing others)
      (hne : blanks ≠ "") (hne' : others ≠ "") : Respaced (a ++ blanks ++ b) (a ++ others ++ b)
  /-- Next to a delimiter and at the ends of the text, blanks may be put in. -/
  | insert {a b blanks : String} (hmeets : MeetsDelimiter a.toList b.toList)
      (hblanks : IsSpacing blanks) : Respaced (a ++ b) (a ++ blanks ++ b)

theorem Respaced.placelessItems_eq (h : Respaced a b) :
    placelessItems mode a = placelessItems mode b := by
  cases h with
  | replace hblanks hothers hne hne' =>
    rw [placelessItems_spaced hblanks (.inl hne), placelessItems_spaced hothers (.inl hne')]
  | insert hmeets hblanks =>
    rw [placelessItems_append hmeets, placelessItems_spaced hblanks (.inr hmeets)]

/-- **Spacing a text in another way** at any number of places, by more blanks or fewer, is not
seen. -/
theorem placelessItems_eqvGen_respaced (h : Relation.EqvGen Respaced a b) :
    placelessItems mode a = placelessItems mode b := by
  induction h with
  | rel a b h => exact h.placelessItems_eq
  | refl a => rfl
  | symm a b _ ih => exact ih.symm
  | trans a b c _ _ ih ih' => exact ih.trans ih'

/-! ### Tokens with spaces between them -/

/-- A token is the only piece of its own text. -/
theorem exists_pieces_text (h : tokenize mode a = .ok tokens) (ht : t ∈ tokens) :
    ∃ text, pieces mode t.text.toList = [.token t.kind text] ∧ t.text = String.ofList text := by
  have hitem : .token t ∈ items mode a := by
    rw [tokensOfItems_eq_ok_iff.mp h]
    exact List.mem_map_of_mem ht
  obtain ⟨before, c, ds, p, rest, -, hp, hi⟩ := exists_isFirstPiece_of_mem hitem
  have halone {kind : TokenKind} {text : List Char} (hcut : CutsBack mode [.token kind text]) :
      pieces mode text = [.token kind text] := by
    simpa [Piece.text] using hcut.pieces_eq
  cases hp with
  | blank => cases hi
  | stray => cases hi
  | sign hsign =>
    obtain rfl := Item.token.inj (Option.some.inj hi)
    refine ⟨[c], ?_, rfl⟩
    rw [String.toList_ofList]
    exact halone (CutsBack.nil.cons_sign hsign)
  | const hconst =>
    obtain rfl := Item.token.inj (Option.some.inj hi)
    refine ⟨[c], ?_, rfl⟩
    rw [String.toList_ofList, eq_constantLetter_of_constant? hconst]
    exact halone (.const _)
  | name =>
    obtain rfl := Item.token.inj (Option.some.inj hi)
    -- the one name that would not be found again needs a stray character behind it
    have hlex := lexable_of_tokenize h (List.mem_map.mpr ⟨_, ht, rfl⟩)
    refine ⟨_, ?_, rfl⟩
    rw [String.toList_ofList]
    have hcut := halone (CutsBack.name hlex)
    rwa [String.toList_ofList] at hcut

/-- **A token is found again where it stands alone.** -/
theorem placelessItems_text (h : tokenize mode a = .ok tokens) (ht : t ∈ tokens) :
    placelessItems mode t.text = [.token (t.mapPosition fun _ => 0)] := by
  obtain ⟨text, hpieces, htext⟩ := exists_pieces_text h ht
  rw [placelessItems, items, hpieces, itemsFrom_cons, Piece.item?, ← htext]
  rfl

/-- What is seen of texts with spaces between them is what is seen of the texts. -/
theorem placelessItems_intercalate (texts : List String) :
    placelessItems mode (" ".intercalate texts) = texts.flatMap (placelessItems mode) := by
  match texts with
  | [] =>
    rw [String.intercalate_nil, placelessItems_of_isSpacing (by simp [IsSpacing])]
    rfl
  | [a] => rw [String.intercalate_singleton, List.flatMap_singleton]
  | a :: b :: texts =>
    have hspace : IsSpacing " " := by decide
    rw [String.intercalate_cons_cons, placelessItems_spaced hspace (.inl (by decide)),
      placelessItems_intercalate (b :: texts), List.flatMap_cons (x := a)]

/-- Tokens that have moved are what they were and written as they were. -/
theorem map_word_map_mapPosition (tokens : List Token) :
    (tokens.map (Token.mapPosition f)).map Token.word = tokens.map Token.word := by
  rw [List.map_map]
  rfl

/-- **The tokens of a text with spaces between them** are found again. -/
theorem exists_tokenize_intercalate (h : tokenize mode a = .ok tokens) :
    ∃ again, tokenize mode (" ".intercalate (tokens.map Token.text)) = .ok again ∧
      again.map Token.word = tokens.map Token.word := by
  have hseen : placelessItems mode (" ".intercalate (tokens.map Token.text)) =
      (tokens.map (Token.mapPosition fun _ => 0)).map .token := by
    rw [placelessItems_intercalate, List.flatMap_map, List.map_map]
    calc tokens.flatMap (fun t => placelessItems mode t.text)
        = tokens.flatMap fun t => [.token (t.mapPosition fun _ => 0)] :=
          List.flatMap_congr fun t ht => placelessItems_text h ht
      _ = tokens.map fun t => .token (t.mapPosition fun _ => 0) := List.map_eq_flatMap.symm
  have hread := tokensOfItems_map_mapPosition (f := fun _ => 0)
    (items mode (" ".intercalate (tokens.map Token.text)))
  rw [← placelessItems, hseen, tokensOfItems_eq_ok_iff.mpr rfl] at hread
  rw [tokenize]
  cases hfound : tokensOfItems (items mode (" ".intercalate (tokens.map Token.text))) with
  | error s =>
    rw [hfound] at hread
    cases hread
  | ok again =>
    rw [hfound] at hread
    have hsame : tokens.map (Token.mapPosition fun _ => 0) =
        again.map (Token.mapPosition fun _ => 0) := Except.ok.inj hread
    refine ⟨again, rfl, ?_⟩
    rw [← map_word_map_mapPosition again, ← hsame, map_word_map_mapPosition]

/-- **Texts can be put together at delimiters.** If two texts meet at a delimiter, their items are
those of the first and those of the second, which move by the size of the first. So spacing is for
separating only: a text that is spaced in another way, wherever there are blanks or a delimiter, has
the same formula, or the same fault but for its place; and its tokens with spaces between them are
cut into the same tokens again. -/
theorem items_append_at_delimiter (mode : LexMode) :
    (∀ a b : String, MeetsDelimiter a.toList b.toList → items mode (a ++ b) =
      items mode a ++ (items mode b).map (Item.mapPosition (a.utf8ByteSize + ·))) ∧
    (∀ a b, Relation.EqvGen Respaced a b →
      (parse mode a).mapError (Fault.mapPosition fun _ => 0) =
        (parse mode b).mapError (Fault.mapPosition fun _ => 0)) ∧
    ∀ text tokens, tokenize mode text = .ok tokens →
      ∃ again, tokenize mode (" ".intercalate (tokens.map Token.text)) = .ok again ∧
        again.map Token.word = tokens.map Token.word :=
  ⟨fun _ _ h => items_append h,
    fun _ _ h => parse_eq_of_placelessItems_eq (placelessItems_eqvGen_respaced h),
    fun _ _ h => exists_tokenize_intercalate h⟩

/-- Texts that meet at a `|`, the first of three bytes and the second with a stray character; a text
with a fault that is spaced in another way at two places; and the tokens of a text, one of them a
name that begins like a constant. -/
theorem items_append_at_delimiter_of_bytes :
    items .permissive ("é|" ++ "T b\u0001") = [.token ⟨.name, "é", 0⟩,
      .token ⟨.connective .or, "|", 2⟩, .token ⟨.const true, "T", 3⟩, .token ⟨.name, "b", 5⟩,
      .stray ⟨'\u0001', 6⟩] ∧
    (parse .strict "a b").mapError (Fault.mapPosition fun _ => 0) =
      (parse .strict "\ta\u0085 b").mapError (Fault.mapPosition fun _ => 0) ∧
    ∃ again, tokenize .permissive "T & ! Tx" = .ok again ∧ again.map Token.word =
      [(.const true, "T"), (.connective .and, "&"), (.negation, "!"), (.name, "Tx")] := by
  obtain ⟨hitems, -, htokens⟩ := items_append_at_delimiter .permissive
  obtain ⟨-, hspacing, -⟩ := items_append_at_delimiter .strict
  have hinsert : Respaced ("" ++ "a b") ("" ++ "\t" ++ "a b") :=
    .insert (by decide) (by decide)
  have hreplace : Respaced ("\ta" ++ " " ++ "b") ("\ta" ++ "\u0085 " ++ "b") :=
    .replace (by decide) (by decide) (by decide) (by decide)
  have hrespaced : Relation.EqvGen Respaced "a b" "\ta\u0085 b" :=
    .trans _ _ _ (.rel _ _ hinsert) (.rel _ _ hreplace)
  refine ⟨?_, hspacing _ _ hrespaced, ?_⟩
  · rw [hitems "é|" "T b\u0001" (by decide)]
    decide +kernel
  · exact htokens "T&!Tx" [⟨.const true, "T", 0⟩, ⟨.connective .and, "&", 1⟩, ⟨.negation, "!", 2⟩,
      ⟨.name, "Tx", 3⟩] (by decide +kernel)

/-- Elsewhere a constant may become the first letter of a name. -/
example : items .permissive ("T" ++ "b") ≠
    items .permissive "T" ++ (items .permissive "b").map (Item.mapPosition (1 + ·)) := by
  decide +kernel

end Propositional
