import Propositional.Proofs.Rendering.Rereading

/-!
# The two modes

Where the permissive mode finds a name that begins with `T` or `F`, the strict mode finds constants,
one for each of these letters, and then a name if something else is left. Apart from this the modes
find the same (`Propositional.items_strict`). The strict mode needs several steps where the
permissive one needs one, but in the end both stand at the same place, because a name ends where it
has to in either mode.

To a reader of formulas the split comes to a restriction. What the strict mode makes of such a name
are at least two operands side by side, and these cannot be read, whatever stands around them
(`Propositional.Progress.Runs.isSign_of_operand`). That there are two takes an argument: the name
`T` by itself would give one, but it takes a stray character to make the permissive mode find it
(`Propositional.lexable_of_tokenize`). So the strict mode reads the formulas of the permissive mode
that have no such name, and no others (`Propositional.strict_restricts_permissive`).
-/

namespace Propositional

open Text Formula

variable {c : Char} {cs name rest : List Char} {p : Piece} {t : Token} {tokens : List Token}
  {text : String}

/-! ### Splitting names -/

/-- **What the strict mode makes of a name** at the given byte: a constant for each `T` or `F` up to
the first other character, and a name from there on, if there is anything left. -/
def splitName (position : Nat) : List Char → List Token
  | [] => []
  | c :: cs =>
    match constant? c with
    | some b => ⟨.const b, String.ofList [c], position⟩ :: splitName (position + c.utf8Size) cs
    | none => [⟨.name, String.ofList (c :: cs), position⟩]

/-- What the strict mode makes of a token. Only names are split. -/
def Token.split (t : Token) : List Token :=
  if t.kind = .name then splitName t.position t.text.toList else [t]

/-- What the strict mode makes of an item. -/
def Item.split : Item → List Item
  | token t => t.split.map .token
  | stray s => [.stray s]

theorem splitName_of_constant? {b : Bool} (h : constant? c = some b) (position : Nat) :
    splitName position (c :: cs) =
      ⟨.const b, String.ofList [c], position⟩ :: splitName (position + c.utf8Size) cs := by
  rw [splitName, h]

theorem splitName_of_constant?_eq_none (h : constant? c = none) (position : Nat) :
    splitName position (c :: cs) = [⟨.name, String.ofList (c :: cs), position⟩] := by
  rw [splitName, h]

theorem Token.split_of_kind_ne (h : t.kind ≠ .name) : t.split = [t] :=
  if_neg h

theorem Token.split_of_kind_eq (h : t.kind = .name) :
    t.split = splitName t.position t.text.toList :=
  if_pos h

/-! ### The items of both modes -/

/-- The strict mode has come through a name when it has found what it makes of it. -/
theorem itemsFrom_strict_name (hname : ∀ d ∈ name, isNameChar d = true)
    (hrest : ∀ d ∈ rest.head?, isNameChar d = false) (position : Nat) :
    itemsFrom position (pieces .strict (name ++ rest)) =
      (splitName position name).map .token ++
        itemsFrom (position + byteSize name) (pieces .strict rest) := by
  -- each letter of a constant is a step of the strict mode, and what is left of the name is one
  induction name generalizing position with
  | nil => rfl
  | cons d ds ih =>
    obtain ⟨hd, hds⟩ := List.forall_mem_cons.mp hname
    rw [List.cons_append, pieces_cons]
    cases hconst : constant? d with
    | some b =>
      rw [(IsFirstPiece.const hconst (.inl rfl)).firstPiece_eq, splitName_of_constant? hconst,
        itemsFrom_cons, ih hds, byteSize_cons, ← Nat.add_assoc]
      rfl
    | none =>
      obtain ⟨htake, hdrop⟩ := takeWhile_isNameChar hds hrest
      rw [(IsFirstPiece.name hd (.inl hconst)).firstPiece_eq, htake, hdrop,
        splitName_of_constant?_eq_none hconst]
      rfl

/-- One first piece of the permissive mode, and what the strict mode makes of it. -/
theorem IsFirstPiece.itemsFrom_strict (h : IsFirstPiece .permissive c cs p rest) (position : Nat) :
    itemsFrom position (pieces .strict (c :: cs)) =
      (p.item? position).toList.flatMap Item.split ++
        itemsFrom (position + byteSize p.text) (pieces .strict rest) := by
  cases h with
  | blank h =>
    rw [pieces_cons, (IsFirstPiece.blank h).firstPiece_eq]
    rfl
  | @sign kind h =>
    have hkind : kind ≠ .name := by
      rintro rfl
      exact absurd (isSign_of_ofSign? h) nofun
    rw [pieces_cons, (IsFirstPiece.sign h).firstPiece_eq, itemsFrom_cons, Piece.item?,
      Option.toList_some, List.flatMap_singleton, Item.split, Token.split_of_kind_ne hkind]
    rfl
  | const h =>
    rw [pieces_cons, (IsFirstPiece.const h (.inl rfl)).firstPiece_eq]
    rfl
  | name h =>
    have hname : ∀ d ∈ c :: cs.takeWhile isNameChar, isNameChar d = true :=
      isNameChar_of_mem_name h
    have hrest : ∀ d ∈ (cs.dropWhile isNameChar).head?, isNameChar d = false :=
      isNameChar_head?_dropWhile
    have hsplit := itemsFrom_strict_name hname hrest position
    rw [List.cons_append, List.takeWhile_append_dropWhile] at hsplit
    rw [hsplit, Piece.item?, Option.toList_some, List.flatMap_singleton, Item.split,
      Token.split_of_kind_eq rfl, String.toList_ofList]
    rfl
  | stray hblank h =>
    rw [pieces_cons, (IsFirstPiece.stray hblank h).firstPiece_eq]
    rfl

theorem itemsFrom_strict (position : Nat) (cs : List Char) :
    itemsFrom position (pieces .strict cs) =
      (itemsFrom position (pieces .permissive cs)).flatMap Item.split := by
  fun_induction pieces LexMode.permissive cs generalizing position with
  | case1 => rw [pieces_nil]; rfl
  | case2 c cs ih =>
    rw [(isFirstPiece_firstPiece .permissive c cs).itemsFrom_strict, ih, itemsFrom_cons,
      List.flatMap_append]

/-- **The items of the strict mode** are those of the permissive one, with names split. -/
theorem items_strict (text : String) :
    items .strict text = (items .permissive text).flatMap Item.split :=
  itemsFrom_strict 0 text.toList

/-! ### The tokens of both modes -/

theorem tokensOfItems_map_append (tokens : List Token) (found : List Item) :
    tokensOfItems (tokens.map .token ++ found) = (tokensOfItems found).map (tokens ++ ·) := by
  induction tokens with
  | nil =>
    rw [List.map_nil, List.nil_append]
    cases tokensOfItems found <;> rfl
  | cons t tokens ih =>
    rw [List.map_cons, List.cons_append, tokensOfItems, ih]
    cases tokensOfItems found <;> rfl

theorem tokensOfItems_flatMap_split (found : List Item) :
    tokensOfItems (found.flatMap Item.split) =
      (tokensOfItems found).map fun tokens => tokens.flatMap Token.split := by
  induction found with
  | nil => rfl
  | cons i found ih =>
    rw [List.flatMap_cons]
    cases i with
    | token t =>
      rw [Item.split, tokensOfItems_map_append, ih, tokensOfItems]
      cases tokensOfItems found <;> rfl
    | stray s => rfl

/-- **The tokens of the strict mode** are those of the permissive one, with names split. -/
theorem tokenize_strict (text : String) :
    tokenize .strict text =
      (tokenize .permissive text).map fun tokens => tokens.flatMap Token.split := by
  rw [tokenize, items_strict, tokensOfItems_flatMap_split, tokenize]

/-! ### Names that begin like a constant -/

/-- Whether a name begins with `T` or `F`. -/
def BeginsLikeConstant (name : String) : Prop :=
  name.toList.head? = some 'T' ∨ name.toList.head? = some 'F'

theorem beginsLikeConstant_iff {v : String} (h : v.toList = c :: cs) :
    BeginsLikeConstant v ↔ ∃ b, constant? c = some b := by
  rw [BeginsLikeConstant, h, List.head?_cons, Option.some_inj, Option.some_inj]
  constructor
  · rintro (rfl | rfl)
    · exact ⟨true, rfl⟩
    · exact ⟨false, rfl⟩
  · exact fun ⟨b, hb⟩ => eq_or_eq_of_constant? hb

/-- A name is split into operands. -/
theorem isSign_of_mem_splitName {position : Nat} :
    ∀ t ∈ splitName position name, t.kind.isSign = false := by
  induction name generalizing position with
  | nil => exact nofun
  | cons c cs ih =>
    cases hc : constant? c with
    | some b =>
      rw [splitName_of_constant? hc]
      exact List.forall_mem_cons.mpr ⟨rfl, ih⟩
    | none =>
      rw [splitName_of_constant?_eq_none hc]
      exact List.forall_mem_singleton.mpr rfl

theorem splitName_ne_nil {position : Nat} (h : name ≠ []) : splitName position name ≠ [] := by
  obtain ⟨c, cs, rfl⟩ := List.exists_cons_of_ne_nil h
  cases hc : constant? c with
  | some b => simp [splitName_of_constant? hc]
  | none => simp [splitName_of_constant?_eq_none hc]

/-- A name that does not begin like a constant is left alone. -/
theorem Token.split_eq_singleton
    (h : t.kind = .name → t.text.toList ≠ [] ∧ ¬BeginsLikeConstant t.text) : t.split = [t] := by
  by_cases hname : t.kind = .name
  · obtain ⟨hne, hbegins⟩ := h hname
    obtain ⟨c, cs, htext⟩ := List.exists_cons_of_ne_nil hne
    rw [beginsLikeConstant_iff htext, not_exists, ← Option.eq_none_iff_forall_ne_some] at hbegins
    obtain ⟨kind, text, position⟩ := t
    obtain rfl : kind = .name := hname
    rw [Token.split_of_kind_eq rfl, htext, splitName_of_constant?_eq_none hbegins, ← htext,
      String.ofList_toList]
  · exact Token.split_of_kind_ne hname

/-- **A name that begins like a constant is split into at least two operands**, if the permissive
mode would take it for a name by itself. -/
theorem Token.exists_split_eq (hname : t.kind = .name) (hlex : Lexable .permissive t.text)
    (h : BeginsLikeConstant t.text) :
    ∃ a b more, t.split = a :: b :: more ∧ a.kind.isSign = false ∧ b.kind.isSign = false := by
  obtain ⟨c, cs, htext⟩ := List.exists_cons_of_ne_nil hlex.ne_nil
  obtain ⟨b, hc⟩ := (beginsLikeConstant_iff htext).mp h
  -- a single letter would be a constant in either mode
  have hne : cs ≠ [] := by
    rintro rfl
    obtain ⟨hT, hF⟩ := hlex.not_constant rfl
    rcases eq_or_eq_of_constant? hc with rfl | rfl
    · exact hT htext
    · exact hF htext
  have hsplit : splitName (t.position + c.utf8Size) cs ≠ [] := splitName_ne_nil hne
  obtain ⟨next, more, hnext⟩ := List.exists_cons_of_ne_nil hsplit
  rw [Token.split_of_kind_eq hname, htext, splitName_of_constant? hc, hnext]
  exact ⟨_, next, more, rfl, rfl, isSign_of_mem_splitName next (hnext ▸ List.mem_cons_self ..)⟩

/-! ### Operands side by side -/

/-- **After an operand comes a sign**, wherever in a run. -/
theorem Progress.Runs.isSign_of_operand {q r : Progress} {w v : Terminal} {ws vs : List Terminal}
    (h : Runs q (ws ++ w :: v :: vs) r) (hw : w.kind.isSign = false) : v.kind.isSign = true := by
  induction ws generalizing q with
  | nil =>
    obtain _ | ⟨hm, hs⟩ := h
    obtain _ | ⟨hm', -⟩ := hs
    -- an operand leaves the level complete, and then only signs are taken
    cases hm with
    | const b => cases hm' <;> rfl
    | name v => cases hm' <;> rfl
    | _ => cases hw
  | cons u ws ih =>
    obtain _ | ⟨-, hs⟩ := h
    exact ih hs

/-- No formula has two operands side by side. -/
theorem parseTokens_ne_ok_of_operands {before after : List Token} {a b : Token}
    (ha : a.kind.isSign = false) (hb : b.kind.isSign = false) (f : Formula) :
    parseTokens (before ++ a :: b :: after) ≠ .ok f := by
  intro h
  obtain ⟨level, hruns, -⟩ := Progress.parseTokens_eq_ok_iff_runs.mp h
  rw [List.map_append, List.map_cons, List.map_cons] at hruns
  have hsign := hruns.isSign_of_operand (by rwa [Token.kind_terminal])
  rw [Token.kind_terminal, hb] at hsign
  cases hsign

/-! ### The formulas of both modes -/

theorem Token.terminal_eq_name_iff {v : String} :
    t.terminal = .name v ↔ t.kind = .name ∧ t.text = v := by
  obtain ⟨kind, text, position⟩ := t
  cases kind <;> simp [Token.terminal, Terminal.ofKind]

/-- The variables of a formula are the names among its tokens. -/
theorem mem_occurrences_iff_of_parseTokens {f : Formula} {v : String}
    (h : parseTokens tokens = .ok f) :
    v ∈ f.occurrences ↔ ∃ t ∈ tokens, t.kind = .name ∧ t.text = v := by
  rw [(parseTokens_eq_ok_iff_spells.mp h).1.occurrences, List.mem_filterMap]
  constructor
  · rintro ⟨w, hw, hname⟩
    rw [Terminal.eq_name_of_name? hname] at hw
    obtain ⟨t, ht, hterminal⟩ := List.mem_map.mp hw
    exact ⟨t, ht, Token.terminal_eq_name_iff.mp hterminal⟩
  · rintro ⟨t, ht, hname⟩
    exact ⟨_, List.mem_map.mpr ⟨t, ht, Token.terminal_eq_name_iff.mpr hname⟩, rfl⟩

/-- The name of a token is lexable. -/
theorem Token.lexable_of_tokenize {mode : LexMode} (h : tokenize mode text = .ok tokens)
    (ht : t ∈ tokens) (hname : t.kind = .name) : Lexable mode t.text :=
  Propositional.lexable_of_tokenize h
    (List.mem_map.mpr ⟨t, ht, Token.terminal_eq_name_iff.mpr ⟨hname, rfl⟩⟩)

/-- **Tokens are left alone** if no name among them begins like a constant. -/
theorem flatMap_split_eq_self (h : tokenize .permissive text = .ok tokens)
    (hnames : ∀ t ∈ tokens, t.kind = .name → ¬BeginsLikeConstant t.text) :
    tokens.flatMap Token.split = tokens :=
  calc tokens.flatMap Token.split
      = tokens.flatMap fun t => [t] :=
        List.flatMap_congr fun t ht => Token.split_eq_singleton fun hname =>
          ⟨(t.lexable_of_tokenize h ht hname).ne_nil, hnames t ht hname⟩
    _ = tokens := List.flatMap_singleton' tokens

/-- **A name that begins like a constant cannot be read in the strict mode.** -/
theorem parseTokens_flatMap_split_ne_ok (h : tokenize .permissive text = .ok tokens)
    (ht : t ∈ tokens) (hname : t.kind = .name) (hbegins : BeginsLikeConstant t.text) (f : Formula) :
    parseTokens (tokens.flatMap Token.split) ≠ .ok f := by
  obtain ⟨before, after, rfl⟩ := List.append_of_mem ht
  obtain ⟨a, b, more, hsplit, ha, hb⟩ :=
    Token.exists_split_eq hname (t.lexable_of_tokenize h ht hname) hbegins
  rw [List.flatMap_append, List.flatMap_cons, hsplit, List.cons_append, List.cons_append]
  exact parseTokens_ne_ok_of_operands ha hb f

/-- **What the strict mode reads**: the formulas that the permissive mode reads from tokens with no
name among them that begins like a constant. -/
theorem parse_strict_eq_ok_iff {f : Formula} :
    parse .strict text = .ok f ↔ ∃ tokens, tokenize .permissive text = .ok tokens ∧
      parseTokens tokens = .ok f ∧ ∀ t ∈ tokens, t.kind = .name → ¬BeginsLikeConstant t.text := by
  rw [parse_eq_ok_iff, tokenize_strict]
  constructor
  · rintro ⟨split, hstrict, hparse⟩
    cases htokens : tokenize .permissive text with
    | error s =>
      rw [htokens] at hstrict
      cases hstrict
    | ok tokens =>
      rw [htokens] at hstrict
      obtain rfl : tokens.flatMap Token.split = split := Except.ok.inj hstrict
      have hnames : ∀ t ∈ tokens, t.kind = .name → ¬BeginsLikeConstant t.text :=
        fun t ht hname hbegins =>
          parseTokens_flatMap_split_ne_ok htokens ht hname hbegins f hparse
      rw [flatMap_split_eq_self htokens hnames] at hparse
      exact ⟨tokens, rfl, hparse, hnames⟩
  · rintro ⟨tokens, htokens, hparse, hnames⟩
    refine ⟨tokens, ?_, hparse⟩
    rw [htokens]
    exact congrArg Except.ok (flatMap_split_eq_self htokens hnames)

/-- **The strict mode restricts the permissive one.** It finds the same items, but for the names
that begin with `T` or `F`, which are split; it reads the same formulas, but for those with a
variable of such a name; and for these the fault is in the tokens. -/
theorem strict_restricts_permissive (text : String) :
    items .strict text = (items .permissive text).flatMap Item.split ∧
    (∀ f, parse .strict text = .ok f ↔
      parse .permissive text = .ok f ∧ ∀ v ∈ f.occurrences, ¬BeginsLikeConstant v) ∧
    ∀ f, parse .permissive text = .ok f → (∃ v ∈ f.occurrences, BeginsLikeConstant v) →
      ∃ g, parse .strict text = .error (.grammatical g) := by
  have hiff : ∀ f, parse .strict text = .ok f ↔
      parse .permissive text = .ok f ∧ ∀ v ∈ f.occurrences, ¬BeginsLikeConstant v := by
    intro f
    rw [parse_strict_eq_ok_iff, parse_eq_ok_iff]
    constructor
    · rintro ⟨tokens, htokens, hparse, hnames⟩
      refine ⟨⟨tokens, htokens, hparse⟩, fun v hv => ?_⟩
      obtain ⟨t, ht, hname, rfl⟩ := (mem_occurrences_iff_of_parseTokens hparse).mp hv
      exact hnames t ht hname
    · rintro ⟨⟨tokens, htokens, hparse⟩, hvariables⟩
      refine ⟨tokens, htokens, hparse, fun t ht hname => hvariables t.text ?_⟩
      exact (mem_occurrences_iff_of_parseTokens hparse).mpr ⟨t, ht, hname, rfl⟩
  refine ⟨items_strict text, hiff, ?_⟩
  rintro f hf ⟨v, hv, hbegins⟩
  obtain ⟨tokens, htokens, hparse⟩ := parse_eq_ok_iff.mp hf
  obtain ⟨t, ht, hname, rfl⟩ := (mem_occurrences_iff_of_parseTokens hparse).mp hv
  have hrefused := parseTokens_flatMap_split_ne_ok htokens ht hname hbegins
  rw [parse, tokenize_strict, htokens]
  cases hstrict : parseTokens (tokens.flatMap Token.split) with
  | error g => exact ⟨g, by simp [Except.map, Except.mapError, hstrict]⟩
  | ok f' => exact absurd hstrict (hrefused f')

/-- A formula with a variable that begins with both letters. -/
theorem strict_restricts_permissive_of_prefix :
    parse .permissive "a & TFx" = .ok (join .and [var "a", var "TFx"]) ∧
    items .strict "a & TFx" = [.token ⟨.name, "a", 0⟩, .token ⟨.connective .and, "&", 2⟩,
      .token ⟨.const true, "T", 4⟩, .token ⟨.const false, "F", 5⟩, .token ⟨.name, "x", 6⟩] ∧
    ∃ g, parse .strict "a & TFx" = .error (.grammatical g) := by
  have h := strict_restricts_permissive "a & TFx"
  have hread : parse .permissive "a & TFx" = .ok (join .and [var "a", var "TFx"]) := by
    decide +kernel
  refine ⟨hread, ?_, h.2.2 _ hread ⟨"TFx", by decide, .inl rfl⟩⟩
  rw [h.1]
  decide +kernel

end Propositional
