import Mathlib.Data.Nat.Find
import Propositional.Proofs.Grammar.Acceptance

/-!
# Where tokens are refused

Tokens that are no formula are refused at the first of them that cannot stand where it stands,
whatever follows it, and if there is none, then at the end
(`Propositional.parseTokens_eq_error_at_first_impossible`). That a token *cannot* stand somewhere is
said without the reader: no list of tokens that starts with those in front of it and with the token
itself is a formula (`Propositional.IsCompletable`).

Two things are needed for it. The reader gives up too late nowhere: from wherever it has come to,
some tokens lead on to a formula (`Propositional.Progress.exists_finish_eq_ok`), since an operand
may always follow where one is wanted, and open groups can be closed one after the other. And it
gives up for the reason it names. What it has in hand is the progress, while the reason is given in
terms of the tokens: the last of them tells whether an operand is due
(`Propositional.operandDue`), and their parentheses, how many groups are open
(`Propositional.openGroups`). That the two agree is again an invariant of runs.
-/

namespace Propositional

open Formula

/-! ### What may follow -/

/-- **Tokens that can go on** to a formula, or are one already. -/
def IsCompletable (tokens : List Token) : Prop :=
  ∃ rest t, parseTokens (tokens ++ rest) = .ok t

/-- **The place of the first token that cannot stand where it stands**: up to each one before it the
tokens can go on to a formula, and up to this one they cannot. -/
structure IsFirstImpossible (tokens : List Token) (i : Nat) : Prop where
  /-- Up to each token before it the tokens can go on. -/
  isCompletable : ∀ j < i, IsCompletable (tokens.take (j + 1))
  /-- With this token they cannot. -/
  not_isCompletable : ¬IsCompletable (tokens.take (i + 1))

/-- Whether an operand must follow a token of a kind. -/
def TokenKind.callsForOperand : TokenKind → Bool
  | leftParen => true
  | negation => true
  | connective _ => true
  | _ => false

/-- Whether an operand is due: at the start, and after a token that calls for one. -/
def operandDue (tokens : List Token) : Bool :=
  tokens.getLast?.all fun token => token.kind.callsForOperand

/-- The number of groups that have been opened and not closed. -/
def openGroups (tokens : List Token) : Int :=
  (tokens.map fun token => token.kind.opening).sum

/-- What a reader can say that it expects after some tokens. -/
def expectedAfter (tokens : List Token) : Expectation :=
  if operandDue tokens then .operand
  else if openGroups tokens = 0 then .ending
  else .closing

/-- **The fault that a token is** behind tokens that could have gone on: a group too many, where an
operand is due and as many groups are open as may be, and otherwise a token that was not
expected. -/
def faultAfter (before : List Token) (token : Token) : GrammarFault :=
  if token.kind = .leftParen ∧ operandDue before ∧ openGroups before = nestingLimit then
    .nestingTooDeep token.position
  else .unexpectedToken token (expectedAfter before)

theorem position?_faultAfter (before : List Token) (token : Token) :
    (faultAfter before token).position? = some token.position := by
  unfold faultAfter
  split <;> rfl

namespace Progress

/-! ### From anywhere to a formula -/

/-- Where an operand has just been read, the open groups may be closed, and that is a formula. -/
theorem exists_finish_of_complete (level : Level) (outer : List Level) :
    ∃ rest t, ((complete level outer).run rest).bind finish = .ok t := by
  induction outer generalizing level with
  | nil => exact ⟨[], level.result, rfl⟩
  | cons around outer ih =>
    obtain ⟨rest, t, h⟩ := ih (around.supply level.result)
    exact ⟨⟨.rightParen, ")", 0⟩ :: rest, t, h⟩

/-- **From wherever the reader has come to, it can go on to a formula.** -/
theorem exists_finish_eq_ok (p : Progress) : ∃ rest t, (p.run rest).bind finish = .ok t := by
  cases p with
  | complete level outer => exact exists_finish_of_complete level outer
  | wanting level outer =>
    obtain ⟨rest, t, h⟩ := exists_finish_of_complete (level.supply (.const true)) outer
    exact ⟨⟨.const true, "T", 0⟩ :: rest, t, h⟩

/-! ### The reasons that are given -/

/-- Whether an operand must come next. -/
def isWanting : Progress → Bool
  | wanting _ _ => true
  | complete _ _ => false

/-- What the reader says that it expects. -/
def expected : Progress → Expectation
  | wanting _ _ => .operand
  | complete _ outer => expectedEnd outer

/-- **The fault that a refused token is.** -/
theorem eq_of_step_eq_error {p : Progress} {token : Token} {g : GrammarFault}
    (h : p.step token = .error g) :
    g = if token.kind = .leftParen ∧ p.isWanting ∧ p.outer.length = nestingLimit then
        .nestingTooDeep token.position
      else .unexpectedToken token p.expected := by
  obtain ⟨kind, text, position⟩ := token
  cases p with
  | wanting level outer =>
    cases kind with
    | leftParen =>
      simp only [step] at h
      split at h
      case isTrue hlimit => simp [isWanting, Progress.outer, hlimit, ← Except.error.inj h]
      case isFalse => cases h
    | rightParen => cases h; rfl
    | connective op => cases h; rfl
    | _ => cases h
  | complete level outer =>
    have hnot : ¬(kind = .leftParen ∧ (complete level outer).isWanting ∧
        (complete level outer).outer.length = nestingLimit) := fun hc => Bool.noConfusion hc.2.1
    rw [if_neg hnot]
    cases kind with
    | connective op => cases h
    | rightParen =>
      cases outer with
      | nil => cases h; rfl
      | cons around outer => cases h
    | _ => cases h; rfl

/-- What is missing at the end of the tokens. -/
theorem eq_of_finish_eq_error {p : Progress} {g : GrammarFault} (h : p.finish = .error g) :
    g = .unexpectedEnd p.expected := by
  match p, h with
  | wanting _ _, h => exact (Except.error.inj h).symm
  | complete _ (_ :: _), h => exact (Except.error.inj h).symm

/-! ### Progress and tokens -/

/-- A move ends where its terminal calls for an operand or does not. -/
theorem Moves.isWanting {p q : Progress} {w : Terminal} (h : Moves p w q) :
    q.isWanting = w.kind.callsForOperand := by
  cases h <;> rfl

/-- A run opens and closes groups as its terminals say. -/
theorem Runs.length_outer {p q : Progress} {ws : List Terminal} (h : Runs p ws q) :
    (q.outer.length : Int) = p.outer.length + (ws.map Terminal.opening).sum := by
  induction h with
  | nil => simp
  | cons hm _ ih =>
    rw [ih, hm.length_outer, List.map_cons, List.sum_cons, Int.add_assoc]

variable {tokens : List Token} {p : Progress}

/-- The groups that are open to the reader are those that the tokens have left open. -/
theorem length_outer_of_run (h : Progress.start.run tokens = .ok p) :
    (p.outer.length : Int) = openGroups tokens := by
  have hlength := (run_eq_ok_iff.mp h).length_outer
  rw [hlength, List.map_map]
  simp [Progress.start, Progress.outer, openGroups, Terminal.opening, Function.comp_def]

/-- The reader wants an operand exactly where one is due. -/
theorem isWanting_of_run (h : Progress.start.run tokens = .ok p) :
    p.isWanting = operandDue tokens := by
  rcases List.eq_nil_or_concat tokens with rfl | ⟨before, token, rfl⟩
  · cases h
    rfl
  · rw [List.concat_eq_append] at h ⊢
    obtain ⟨q, -, hlast⟩ := run_append_eq_ok_iff.mp h
    have hmoves : Runs q [token.terminal] p := run_eq_ok_iff.mp hlast
    cases hmoves with
    | cons hm hs =>
      cases hs
      rw [hm.isWanting, Token.kind_terminal, operandDue, List.getLast?_concat]
      rfl

theorem expected_of_run (h : Progress.start.run tokens = .ok p) :
    p.expected = expectedAfter tokens := by
  have hwanting := isWanting_of_run h
  have hlength := length_outer_of_run h
  rw [expectedAfter, ← hwanting, ← hlength]
  cases p with
  | wanting level outer => rfl
  | complete level outer =>
    rw [if_neg (show ¬(complete level outer).isWanting = true from Bool.false_ne_true)]
    cases outer with
    | nil => rfl
    | cons around outer =>
      have hopen : ((complete level (around :: outer)).outer.length : Int) ≠ 0 := by
        rw [Progress.outer, List.length_cons]
        omega
      rw [if_neg hopen]
      rfl

/-- **The fault at a refused token**, in terms of the tokens in front of it. -/
theorem eq_faultAfter {token : Token} {g : GrammarFault} (h : Progress.start.run tokens = .ok p)
    (hstep : p.step token = .error g) : g = faultAfter tokens token := by
  rw [eq_of_step_eq_error hstep, faultAfter, ← isWanting_of_run h, ← length_outer_of_run h,
    ← expected_of_run h]
  simp only [Nat.cast_inj]

end Progress

/-! ### Refusing tokens -/

/-- **Tokens can go on exactly if the reader has not refused any of them.** -/
theorem isCompletable_iff_exists_run {tokens : List Token} :
    IsCompletable tokens ↔ ∃ p, Progress.start.run tokens = .ok p := by
  constructor
  · rintro ⟨rest, t, h⟩
    obtain ⟨q, hrun, -⟩ := bind_eq_ok_iff.mp h
    obtain ⟨p, hp, -⟩ := Progress.run_append_eq_ok_iff.mp hrun
    exact ⟨p, hp⟩
  · rintro ⟨p, hrun⟩
    obtain ⟨rest, t, h⟩ := p.exists_finish_eq_ok
    refine ⟨rest, t, ?_⟩
    rw [parseTokens, Progress.run_append, hrun]
    exact h

instance (tokens : List Token) : Decidable (IsCompletable tokens) :=
  match h : Progress.start.run tokens with
  | .ok p => isTrue (isCompletable_iff_exists_run.mpr ⟨p, h⟩)
  | .error g => isFalse fun hc => by
    obtain ⟨p, hp⟩ := isCompletable_iff_exists_run.mp hc
    cases hp.symm.trans h

theorem isCompletable_nil : IsCompletable [] :=
  isCompletable_iff_exists_run.mpr ⟨_, rfl⟩

/-- If tokens can go on, so can those at their start. -/
theorem IsCompletable.take {tokens : List Token} (h : IsCompletable tokens) (n : Nat) :
    IsCompletable (tokens.take n) := by
  obtain ⟨rest, t, ht⟩ := h
  exact ⟨tokens.drop n ++ rest, t, by rwa [← List.append_assoc, List.take_append_drop]⟩

theorem isFirstImpossible_iff {tokens : List Token} {i : Nat} : IsFirstImpossible tokens i ↔
    IsCompletable (tokens.take i) ∧ ¬IsCompletable (tokens.take (i + 1)) := by
  constructor
  · rintro ⟨hbefore, hnot⟩
    refine ⟨?_, hnot⟩
    cases i with
    | zero => exact isCompletable_nil
    | succ j => exact hbefore j (Nat.lt_succ_self j)
  · rintro ⟨hbefore, hnot⟩
    refine ⟨fun j hj => ?_, hnot⟩
    have htake := hbefore.take (j + 1)
    rwa [List.take_take, Nat.min_eq_left hj] at htake

instance (tokens : List Token) (i : Nat) : Decidable (IsFirstImpossible tokens i) :=
  decidable_of_iff _ isFirstImpossible_iff.symm

/-- The first impossible token is one of the tokens. -/
theorem IsFirstImpossible.lt_length {tokens : List Token} {i : Nat}
    (h : IsFirstImpossible tokens i) : i < tokens.length := by
  by_contra hlt
  have hle : tokens.length ≤ i := Nat.le_of_not_lt hlt
  obtain ⟨hbefore, hnot⟩ := isFirstImpossible_iff.mp h
  rw [List.take_of_length_le hle] at hbefore
  rw [List.take_of_length_le (Nat.le_succ_of_le hle)] at hnot
  exact hnot hbefore

/-- Tokens that cannot go on have a first impossible one among them. -/
theorem exists_isFirstImpossible {tokens : List Token} (h : ¬IsCompletable tokens) :
    ∃ i, IsFirstImpossible tokens i := by
  have hex : ∃ i, ¬IsCompletable (tokens.take (i + 1)) :=
    ⟨tokens.length, by rwa [List.take_of_length_le (Nat.le_succ _)]⟩
  exact ⟨Nat.find hex, fun j hj => not_not.mp (Nat.find_min hex hj), Nat.find_spec hex⟩

theorem IsFirstImpossible.exists_token {tokens : List Token} {i : Nat}
    (h : IsFirstImpossible tokens i) :
    ∃ token, tokens[i]? = some token ∧ tokens.take (i + 1) = tokens.take i ++ [token] := by
  have hlt := h.lt_length
  exact ⟨tokens[i], List.getElem?_eq_getElem hlt, (List.take_append_getElem hlt).symm⟩

/-- **A token that cannot follow is refused**, whatever follows it. -/
theorem parseTokens_eq_error_of_isCompletable {before : List Token} {token : Token}
    (hbefore : IsCompletable before) (htoken : ¬IsCompletable (before ++ [token]))
    (rest : List Token) :
    parseTokens (before ++ [token] ++ rest) = .error (faultAfter before token) := by
  obtain ⟨p, hrun⟩ := isCompletable_iff_exists_run.mp hbefore
  cases hstep : p.step token with
  | ok q =>
    have hboth : Progress.start.run (before ++ [token]) = .ok q :=
      Progress.run_append_eq_ok_iff.mpr ⟨p, hrun, by rw [Progress.run_cons, hstep]; rfl⟩
    exact absurd (isCompletable_iff_exists_run.mpr ⟨q, hboth⟩) htoken
  | error g =>
    rw [← Progress.eq_faultAfter hrun hstep, parseTokens, Progress.run_append,
      Progress.run_append, hrun]
    simp [hstep, Except.bind]

/-- **Tokens that are no formula are refused at the first impossible one.** The fault is that a
group opens too deep, exactly if the token is a `(` where an operand is due and as many groups are
open as may be, and otherwise that this token was not expected; what follows it makes no difference.
If there is no such token, so that the tokens can go on to a formula, it is that they end. -/
theorem parseTokens_eq_error_at_first_impossible {tokens : List Token} {g : GrammarFault}
    (h : parseTokens tokens = .error g) :
    (∀ i, IsFirstImpossible tokens i → ∃ token, tokens[i]? = some token ∧
      g.position? = some token.position ∧
      (g = if token.kind = .leftParen ∧ operandDue (tokens.take i) ∧
            openGroups (tokens.take i) = nestingLimit then
          .nestingTooDeep token.position
        else .unexpectedToken token (expectedAfter (tokens.take i))) ∧
      ∀ rest, parseTokens (tokens.take (i + 1) ++ rest) = .error g) ∧
    ((¬∃ i, IsFirstImpossible tokens i) →
      IsCompletable tokens ∧ g = .unexpectedEnd (expectedAfter tokens)) := by
  refine ⟨fun i hi => ?_, fun hno => ?_⟩
  · obtain ⟨token, htoken, htake⟩ := hi.exists_token
    have hrefused (rest : List Token) :
        parseTokens (tokens.take (i + 1) ++ rest) = .error (faultAfter (tokens.take i) token) := by
      obtain ⟨hbefore, hnot⟩ := isFirstImpossible_iff.mp hi
      rw [htake] at hnot ⊢
      exact parseTokens_eq_error_of_isCompletable hbefore hnot rest
    -- the tokens behind it are one way to go on
    have hg : g = faultAfter (tokens.take i) token := by
      have hall := hrefused (tokens.drop (i + 1))
      rw [List.take_append_drop, h] at hall
      exact Except.error.inj hall
    refine ⟨token, htoken, ?_, hg, fun rest => hg ▸ hrefused rest⟩
    rw [hg, position?_faultAfter]
  · have hcompletable : IsCompletable tokens :=
      not_not.mp fun hc => hno (exists_isFirstImpossible hc)
    obtain ⟨p, hrun⟩ := isCompletable_iff_exists_run.mp hcompletable
    rw [parseTokens, hrun] at h
    refine ⟨hcompletable, ?_⟩
    rw [Progress.eq_of_finish_eq_error h, Progress.expected_of_run hrun]

/-- Two groups more than may be open at once, the first of which is refused; a group that closes
where an operand is due; and tokens that end in a group. -/
theorem parseTokens_eq_error_of_deep_group :
    (IsFirstImpossible ((List.range 258).map fun n => ⟨.leftParen, "(", n⟩) 256 ∧
      ∀ rest, parseTokens (((List.range 258).map fun n => ⟨.leftParen, "(", n⟩).take 257 ++ rest) =
        .error (.nestingTooDeep 256)) ∧
    (IsFirstImpossible [⟨.leftParen, "(", 0⟩, ⟨.name, "a", 1⟩, ⟨.connective .and, "&", 2⟩,
        ⟨.rightParen, ")", 3⟩, ⟨.rightParen, ")", 4⟩] 3 ∧
      ∀ rest, parseTokens ([⟨.leftParen, "(", 0⟩, ⟨.name, "a", 1⟩, ⟨.connective .and, "&", 2⟩,
        ⟨.rightParen, ")", 3⟩] ++ rest) =
          .error (.unexpectedToken ⟨.rightParen, ")", 3⟩ .operand)) ∧
    IsCompletable [⟨.negation, "!", 0⟩, ⟨.leftParen, "(", 1⟩, ⟨.name, "a", 2⟩] ∧
      parseTokens [⟨.negation, "!", 0⟩, ⟨.leftParen, "(", 1⟩, ⟨.name, "a", 2⟩] =
        .error (.unexpectedEnd .closing) := by
  have hdeep : parseTokens ((List.range 258).map fun n => ⟨.leftParen, "(", n⟩) =
      .error (.nestingTooDeep 256) := by decide +kernel
  have hdeepAt : IsFirstImpossible ((List.range 258).map fun n => ⟨.leftParen, "(", n⟩) 256 := by
    decide +kernel
  have hempty : parseTokens [⟨.leftParen, "(", 0⟩, ⟨.name, "a", 1⟩, ⟨.connective .and, "&", 2⟩,
      ⟨.rightParen, ")", 3⟩, ⟨.rightParen, ")", 4⟩] =
        .error (.unexpectedToken ⟨.rightParen, ")", 3⟩ .operand) := by decide
  have hemptyAt : IsFirstImpossible [⟨.leftParen, "(", 0⟩, ⟨.name, "a", 1⟩,
      ⟨.connective .and, "&", 2⟩, ⟨.rightParen, ")", 3⟩, ⟨.rightParen, ")", 4⟩] 3 := by decide
  have hopen : parseTokens [⟨.negation, "!", 0⟩, ⟨.leftParen, "(", 1⟩, ⟨.name, "a", 2⟩] =
      .error (.unexpectedEnd .closing) := by decide
  have hcompletable :
      IsCompletable [⟨.negation, "!", 0⟩, ⟨.leftParen, "(", 1⟩, ⟨.name, "a", 2⟩] := by decide
  obtain ⟨_, -, -, -, hdeepRest⟩ :=
    (parseTokens_eq_error_at_first_impossible hdeep).1 256 hdeepAt
  obtain ⟨_, -, -, -, hemptyRest⟩ :=
    (parseTokens_eq_error_at_first_impossible hempty).1 3 hemptyAt
  refine ⟨⟨hdeepAt, hdeepRest⟩, ⟨hemptyAt, hemptyRest⟩, ?_, hopen⟩
  exact ((parseTokens_eq_error_at_first_impossible hopen).2 fun ⟨i, hi⟩ =>
    hi.not_isCompletable (hcompletable.take (i + 1))).1

end Propositional
