import Propositional.Proofs.Grammar.Counting

/-!
# The reader and the grammar

The reader of `Propositional.Progress` keeps a level for every open group and never looks back, the
grammar of `Propositional.Spells` knows of neither. This file shows that they agree: a list of
tokens is read as a formula exactly when it spells that formula, with runs of `!` counted as a level
counts them, and never opens more groups than `Propositional.nestingLimit`
(`Propositional.parseTokens_eq_ok_iff_spells`). How far this is the documented grammar is then a
question about counting alone (`Propositional.Spells.spells_id_iff`).

What a token that is not refused does to the progress is said once, by
`Propositional.Progress.Moves`, with one case for each way forward, and a run is a chain of such
moves (`Propositional.Progress.Runs`). The two directions are then inductions over different things.

* From a derivation to a run, the induction is on the derivation: each phrase takes a level that
  wants an operand to one that has it, whatever the level held before, inside any number of open
  groups.
* From a run to a derivation, it is on the run, and the invariant says what the tokens read so far
  have become: behind every level stand the finished operands of its two chains, each with its
  connective, and the `!` that wait (`Propositional.Level.Wants`, `Propositional.Level.Has`).

The number of open groups is the number of levels around the innermost one, so the limit on levels
is the limit on nesting, and a level that is left at `)` gives back what it had taken.
-/

namespace Propositional

open Formula

/-- What is computed in two steps succeeds if both do. -/
theorem bind_eq_ok_iff {ε α β : Type} {x : Except ε α} {f : α → Except ε β} {b : β} :
    x.bind f = .ok b ↔ ∃ a, x = .ok a ∧ f a = .ok b := by
  cases x <;> simp [Except.bind]

namespace Progress

/-! ### Moves and runs -/

/-- **What a token that is not refused does**, by its terminal. -/
inductive Moves : Progress → Terminal → Progress → Prop
  /-- A constant is an operand. -/
  | const {level outer} (b : Bool) :
      Moves (wanting level outer) (.const b) (complete (level.supply (.const b)) outer)
  /-- A name is an operand. -/
  | name {level outer} (v : String) :
      Moves (wanting level outer) (.name v) (complete (level.supply (.var v)) outer)
  /-- A `!` waits for an operand. -/
  | negation {level outer} : Moves (wanting level outer) .negation (wanting level.negate outer)
  /-- A group opens, unless too many are open already. -/
  | leftParen {level outer} (h : outer.length ≠ nestingLimit) :
      Moves (wanting level outer) .leftParen (wanting .start (level :: outer))
  /-- A connective calls for another operand. -/
  | connective {level outer} (op : Connective) :
      Moves (complete level outer) (.connective op) (wanting (level.extend op) outer)
  /-- A group closes and is an operand of the level around it. -/
  | rightParen {level around outer} :
      Moves (complete level (around :: outer)) .rightParen
        (complete (around.supply level.result) outer)

/-- A step succeeds exactly if it is a move. -/
theorem step_eq_ok_iff {p q : Progress} {token : Token} :
    p.step token = .ok q ↔ Moves p token.terminal q := by
  obtain ⟨kind, text, position⟩ := token
  constructor
  · intro h
    cases p with
    | wanting level outer =>
      cases kind with
      | name => cases h; exact .name text
      | const b => cases h; exact .const b
      | negation => cases h; exact .negation
      | leftParen =>
        simp only [step] at h
        split at h
        · cases h
        · rename_i hne
          cases h
          exact .leftParen hne
      | rightParen => cases h
      | connective op => cases h
    | complete level outer =>
      cases kind with
      | connective op => cases h; exact .connective op
      | rightParen =>
        cases outer with
        | nil => cases h
        | cons around outer => cases h; exact .rightParen
      | _ => cases h
  · intro h
    cases kind with
    | name => cases h; rfl
    | const b => cases h; rfl
    | negation => cases h; rfl
    | leftParen =>
      cases h with
      | leftParen hne => simp only [step, if_neg hne]
    | rightParen => cases h; rfl
    | connective op => cases h; rfl

/-- **A run**: moves one after the other. -/
inductive Runs : Progress → List Terminal → Progress → Prop
  /-- Nothing is read. -/
  | nil (p : Progress) : Runs p [] p
  /-- One move, and then the others. -/
  | cons {p q r : Progress} {w : Terminal} {ws : List Terminal} (h : Moves p w q)
      (hs : Runs q ws r) : Runs p (w :: ws) r

theorem run_eq_ok_iff {p q : Progress} {tokens : List Token} :
    p.run tokens = .ok q ↔ Runs p (tokens.map Token.terminal) q := by
  induction tokens generalizing p with
  | nil =>
    constructor
    · intro h
      cases h
      exact .nil _
    · intro h
      cases h
      rfl
  | cons token tokens ih =>
    rw [run_cons, List.map_cons, bind_eq_ok_iff]
    constructor
    · rintro ⟨r, hstep, hrun⟩
      exact .cons (step_eq_ok_iff.mp hstep) (ih.mp hrun)
    · rintro (_ | ⟨hm, hs⟩)
      exact ⟨_, step_eq_ok_iff.mpr hm, ih.mpr hs⟩

/-- Tokens that are read one list after the other are read as one list. -/
theorem run_append_eq_ok_iff {p r : Progress} {tokens more : List Token} :
    p.run (tokens ++ more) = .ok r ↔ ∃ q, p.run tokens = .ok q ∧ q.run more = .ok r := by
  rw [run_append, bind_eq_ok_iff]

/-- The formula of a list of tokens is what a run over all of them leaves, with no group open. -/
theorem parseTokens_eq_ok_iff_runs {tokens : List Token} {t : Formula} :
    parseTokens tokens = .ok t ↔
      ∃ level, Runs .start (tokens.map Token.terminal) (complete level []) ∧ level.result = t := by
  rw [parseTokens, bind_eq_ok_iff]
  constructor
  · rintro ⟨q, hrun, hfinish⟩
    match q, hfinish with
    | complete level [], hfinish =>
      cases hfinish
      exact ⟨level, run_eq_ok_iff.mp hrun, rfl⟩
  · rintro ⟨level, hruns, rfl⟩
    exact ⟨_, run_eq_ok_iff.mpr hruns, rfl⟩

theorem Runs.single {p q : Progress} {w : Terminal} (h : Moves p w q) : Runs p [w] q :=
  .cons h (.nil q)

/-- Runs compose. -/
theorem Runs.append {p q r : Progress} {ws vs : List Terminal} (h : Runs p ws q)
    (h' : Runs q vs r) : Runs p (ws ++ vs) r := by
  induction h with
  | nil => exact h'
  | cons hm _ ih => exact .cons hm (ih h')

/-! ### From a derivation to a run -/

/-- **What reading a phrase comes to** inside the open groups `outer`. An atom goes to the level
that wants it, behind the negations that wait there; an operand brings its negations, so none may
wait. A chain fills the level that it starts on, and leaves its formula there. -/
def ReadsAs (outer : List Level) : Phrase → List Terminal → Formula → Prop
  | .atom, ws, t => ∀ level, Runs (wanting level outer) ws (complete (level.supply t) outer)
  | .negation, ws, t => ∀ ds cs,
      Runs (wanting ⟨ds, cs, 0⟩ outer) ws (complete ⟨ds, t :: cs, 0⟩ outer)
  | .chain .and, ws, t => ∀ ds, ∃ level : Level, level.disjuncts = ds ∧ level.conjunction = t ∧
      Runs (wanting ⟨ds, [], 0⟩ outer) ws (complete level outer)
  | .chain .or, ws, t => ∃ level : Level, level.result = t ∧
      Runs (wanting .start outer) ws (complete level outer)

theorem readsAs_chain_and {outer : List Level} {parts : List (List Terminal × Formula)}
    (hne : parts ≠ []) (h : ∀ part ∈ parts, ReadsAs outer .negation part.1 part.2)
    (ds cs : List Formula) :
    Runs (wanting ⟨ds, cs, 0⟩ outer) (chained .and (parts.map Prod.fst))
      (complete ⟨ds, (parts.map Prod.snd).reverse ++ cs, 0⟩ outer) := by
  match parts, hne with
  | [part], _ => simpa using h part (by simp) ds cs
  | part :: next :: parts, _ =>
    obtain ⟨hpart, hrest⟩ := List.forall_mem_cons.mp h
    have ih := readsAs_chain_and (List.cons_ne_nil next parts) hrest ds (part.2 :: cs)
    rw [List.map_cons, List.map_cons, chained_cons_cons]
    refine (hpart ds cs).append (.cons (.connective .and) ?_)
    simpa [Level.extend] using ih

theorem readsAs_chain_or {outer : List Level} {parts : List (List Terminal × Formula)}
    (hne : parts ≠ []) (h : ∀ part ∈ parts, ReadsAs outer (.chain .and) part.1 part.2)
    (ds : List Formula) :
    ∃ level : Level, level.conjunction :: level.disjuncts = (parts.map Prod.snd).reverse ++ ds ∧
      Runs (wanting ⟨ds, [], 0⟩ outer) (chained .or (parts.map Prod.fst))
        (complete level outer) := by
  match parts, hne with
  | [part], _ =>
    obtain ⟨level, hds, hcon, hruns⟩ := h part (by simp) ds
    exact ⟨level, by simp [hds, hcon], by simpa using hruns⟩
  | part :: next :: parts, _ =>
    obtain ⟨hpart, hrest⟩ := List.forall_mem_cons.mp h
    obtain ⟨level, hds, hcon, hruns⟩ := hpart ds
    obtain ⟨last, hlast, hruns'⟩ :=
      readsAs_chain_or (List.cons_ne_nil next parts) hrest (part.2 :: ds)
    refine ⟨last, by simpa using hlast, ?_⟩
    rw [List.map_cons, List.map_cons, chained_cons_cons]
    refine hruns.append (.cons (.connective .or) ?_)
    rw [Level.extend, hds, hcon]
    exact hruns'

/-- **A run of `!`** is added to the count of those that wait. -/
theorem runs_negations (n : Nat) (level : Level) (outer : List Level) :
    Runs (wanting level outer) (List.replicate n .negation)
      (wanting { level with negations := level.negations + Int32.ofNat n } outer) := by
  induction n generalizing level with
  | zero =>
    have hcount : level.negations + Int32.ofNat 0 = level.negations := Int32.add_zero _
    rw [hcount]
    exact .nil _
  | succ n ih =>
    have hcount : level.negate.negations + Int32.ofNat n =
        level.negations + Int32.ofNat (n + 1) := by
      rw [Level.negate, Int32.add_assoc, Nat.add_comm n, Int32.ofNat_add]
      rfl
    rw [← hcount]
    exact .cons .negation (ih level.negate)

/-- **What a phrase spells is what reading it comes to**, if there are groups enough left to be
opened. -/
theorem readsAs_of_spells {p : Phrase} {ws : List Terminal} {t : Formula}
    (h : Spells Level.counted p ws t) (outer : List Level)
    (hfits : NestsWithin (nestingLimit - outer.length) (ws.map Terminal.opening)) :
    ReadsAs outer p ws t := by
  induction h generalizing outer with
  | const b => exact fun level => .single (.const b)
  | name v => exact fun level => .single (.name v)
  | @group ws t h ih =>
    rw [nestsWithin_group h.sum_opening] at hfits
    have hlimit := hfits.nonneg
    -- inside, the level that wants the operand is one more of those around
    intro level
    obtain ⟨inner, rfl, hruns⟩ := ih (level :: outer) (by
      rw [List.length_cons]
      simpa [Int.sub_sub] using hfits)
    exact .cons (.leftParen (by omega)) (hruns.append (.single .rightParen))
  | @negations n ws t h ih =>
    rw [nestsWithin_run] at hfits
    intro ds cs
    have hrun := runs_negations n ⟨ds, cs, 0⟩ outer
    rw [Int32.zero_add] at hrun
    exact hrun.append (ih outer hfits ⟨ds, cs, Int32.ofNat n⟩)
  | @chain op parts hne h ih =>
    have hparts : ∀ part ∈ parts, ReadsAs outer (.operand op) part.1 part.2 := by
      rw [nestsWithin_chained _ op (by simpa using hne)
        (List.forall_mem_map.mpr fun part hp => (h part hp).sum_opening)] at hfits
      exact fun part hp => ih part hp outer (hfits part.1 (List.mem_map_of_mem hp))
    cases op with
    | and =>
      intro ds
      refine ⟨_, rfl, ?_, readsAs_chain_and hne hparts ds []⟩
      simp [Level.conjunction]
    | or =>
      obtain ⟨level, hlevel, hruns⟩ := readsAs_chain_or hne hparts []
      refine ⟨level, ?_, hruns⟩
      rw [Level.result, hlevel]
      simp

end Progress

/-! ### From a run to a derivation -/

/-- **The finished operands of a chain**, the newest first, and the words read so far that they
stand for: each of them is followed by the connective that calls for the next. -/
def Held (op : Connective) (ws : List Terminal) (us : List Formula) : Prop :=
  ∃ parts : List (List Terminal × Formula),
    (∀ part ∈ parts, Spells Level.counted (.operand op) part.1 part.2) ∧
      ws = (parts.map Prod.fst).flatMap (fun vs => vs ++ [.connective op]) ∧
        us.reverse = parts.map Prod.snd

theorem held_nil (op : Connective) : Held op [] [] :=
  ⟨[], by simp, rfl, rfl⟩

/-- Another operand and its connective have been read. -/
theorem Held.more {op : Connective} {ws vs : List Terminal} {us : List Formula} {u : Formula}
    (h : Held op ws us) (hu : Spells Level.counted (.operand op) vs u) :
    Held op (ws ++ (vs ++ [.connective op])) (u :: us) := by
  obtain ⟨parts, hparts, rfl, hus⟩ := h
  refine ⟨parts ++ [(vs, u)], ?_, by simp, by simp [hus]⟩
  intro part hp
  rcases List.mem_append.mp hp with hp | hp
  · exact hparts part hp
  · rw [List.mem_singleton.mp hp]
    exact hu

/-- The last operand has been read, and the chain is complete. -/
theorem Held.spells {op : Connective} {ws vs : List Terminal} {us : List Formula} {u : Formula}
    (h : Held op ws us) (hu : Spells Level.counted (.operand op) vs u) :
    Spells Level.counted (.chain op) (ws ++ vs) (combine op (u :: us).reverse) := by
  obtain ⟨parts, hparts, rfl, hus⟩ := h
  -- no connective follows the last operand
  have hne : parts ++ [(vs, u)] ≠ [] := by simp
  have hchain := Spells.chain op hne (List.forall_mem_append.mpr ⟨hparts, by simpa using hu⟩)
  rw [List.map_append, List.map_append, List.map_singleton, List.map_singleton,
    chained_append_singleton] at hchain
  rwa [List.reverse_cons, hus]

namespace Level

/-- What has been read where a level wants an operand: operands of its two chains, and a run of `!`
that it has counted. -/
def Wants (level : Level) (ws : List Terminal) : Prop :=
  ∃ ds cs n, ws = ds ++ cs ++ List.replicate n .negation ∧ level.negations = Int32.ofNat n ∧
    Held .or ds level.disjuncts ∧ Held .and cs level.conjuncts

/-- What has been read where a level has just got an operand: this operand is the last of all. -/
def Has (level : Level) (ws : List Terminal) : Prop :=
  level.negations = 0 ∧ ∃ ds cs vs u us, ws = ds ++ cs ++ vs ∧ level.conjuncts = u :: us ∧
    Held .or ds level.disjuncts ∧ Held .and cs us ∧ Spells Level.counted .negation vs u

theorem wants_start : start.Wants [] :=
  ⟨[], [], 0, rfl, rfl, held_nil .or, held_nil .and⟩

variable {level : Level} {ws vs : List Terminal} {t : Formula}

theorem Wants.negate (h : level.Wants ws) : level.negate.Wants (ws ++ [.negation]) := by
  obtain ⟨ds, cs, n, rfl, hn, hds, hcs⟩ := h
  refine ⟨ds, cs, n + 1, by simp [List.replicate_succ'], ?_, hds, hcs⟩
  rw [Level.negate, hn, Int32.ofNat_add]
  rfl

/-- The negations that wait are those of the atom that comes. -/
theorem Wants.supply (h : level.Wants ws) (ht : Spells counted .atom vs t) :
    (level.supply t).Has (ws ++ vs) := by
  obtain ⟨ds, cs, n, rfl, hn, hds, hcs⟩ := h
  have hoperand := Spells.negations n ht
  rw [counted, ← hn] at hoperand
  exact ⟨rfl, ds, cs, _, _, level.conjuncts, by simp, rfl, hds, hcs, hoperand⟩

/-- The chain of `&` of a level that has an operand. -/
theorem Has.spells_conjunction (h : level.Has ws) : ∃ ds vs, ws = ds ++ vs ∧
    Held .or ds level.disjuncts ∧ Spells counted (.chain .and) vs level.conjunction := by
  obtain ⟨-, ds, cs, vs, u, us, rfl, hu, hds, hcs, hvs⟩ := h
  refine ⟨ds, cs ++ vs, by simp, hds, ?_⟩
  rw [conjunction, hu]
  exact hcs.spells hvs

theorem Has.extend (h : level.Has ws) (op : Connective) :
    (level.extend op).Wants (ws ++ [.connective op]) := by
  cases op with
  | and =>
    obtain ⟨hneg, ds, cs, vs, u, us, rfl, hu, hds, hcs, hvs⟩ := h
    refine ⟨ds, cs ++ (vs ++ [.connective .and]), 0, by simp, hneg, hds, ?_⟩
    rw [Level.extend, hu]
    exact hcs.more hvs
  | or =>
    obtain ⟨ds, vs, rfl, hds, hvs⟩ := h.spells_conjunction
    exact ⟨_, [], 0, by simp, rfl, hds.more hvs, held_nil .and⟩

/-- **A level that has its last operand** spells its result. -/
theorem Has.spells (h : level.Has ws) : Spells counted (.chain .or) ws level.result := by
  obtain ⟨ds, vs, rfl, hds, hvs⟩ := h.spells_conjunction
  exact hds.spells hvs

end Level

namespace Progress

/-- What has been read of the groups that are open, up to the innermost parenthesis. -/
inductive Opened : List Level → List Terminal → Prop
  /-- No group is open. -/
  | nil : Opened [] []
  /-- One more group is open. -/
  | cons {level : Level} {outer : List Level} {ws vs : List Terminal} (h : Opened outer ws)
      (hlevel : level.Wants vs) : Opened (level :: outer) (ws ++ vs ++ [.leftParen])

/-- **The invariant of reading**: what the terminals read so far have become. -/
def Accounts : Progress → List Terminal → Prop
  | wanting level outer, ws => ∃ vs us, ws = vs ++ us ∧ Opened outer vs ∧ level.Wants us
  | complete level outer, ws => ∃ vs us, ws = vs ++ us ∧ Opened outer vs ∧ level.Has us

/-- **One move keeps the invariant.** -/
theorem Moves.accounts {p q : Progress} {w : Terminal} {ws : List Terminal} (h : Moves p w q)
    (hp : p.Accounts ws) : q.Accounts (ws ++ [w]) := by
  cases h with
  | const b =>
    obtain ⟨vs, us, rfl, houter, hlevel⟩ := hp
    exact ⟨vs, us ++ [.const b], by simp, houter, hlevel.supply (.const b)⟩
  | name v =>
    obtain ⟨vs, us, rfl, houter, hlevel⟩ := hp
    exact ⟨vs, us ++ [.name v], by simp, houter, hlevel.supply (.name v)⟩
  | negation =>
    obtain ⟨vs, us, rfl, houter, hlevel⟩ := hp
    exact ⟨vs, us ++ [.negation], by simp, houter, hlevel.negate⟩
  | leftParen hne =>
    obtain ⟨vs, us, rfl, houter, hlevel⟩ := hp
    -- everything read so far stands in front of the new group
    exact ⟨vs ++ us ++ [.leftParen], [], by simp, houter.cons hlevel, Level.wants_start⟩
  | connective op =>
    obtain ⟨vs, us, rfl, houter, hlevel⟩ := hp
    exact ⟨vs, us ++ [.connective op], by simp, houter, hlevel.extend op⟩
  | rightParen =>
    obtain ⟨vs, us, rfl, houter, hlevel⟩ := hp
    -- the words since the parenthesis that closes here are a group of the level around it
    cases houter with
    | @cons around outer xs ys houter haround =>
      exact ⟨xs, ys ++ grouped us, by simp [grouped], houter, haround.supply (.group hlevel.spells)⟩

/-- A whole run keeps the invariant. -/
theorem Runs.accounts {p q : Progress} {ws vs : List Terminal} (h : Runs p vs q)
    (hp : p.Accounts ws) : q.Accounts (ws ++ vs) := by
  induction h generalizing ws with
  | nil => simpa using hp
  | @cons p q r w vs hm _ ih =>
    have := ih (hm.accounts hp)
    rwa [List.append_assoc] at this

/-- **What a run from the start has read**, if no group is open at its end. -/
theorem Runs.spells {level : Level} {ws : List Terminal}
    (h : Runs .start ws (complete level [])) :
    Spells Level.counted (.chain .or) ws level.result := by
  have hstart : Progress.start.Accounts [] := ⟨[], [], rfl, .nil, Level.wants_start⟩
  obtain ⟨vs, us, hws, houter, hlevel⟩ := h.accounts hstart
  cases houter
  rw [List.nil_append, List.nil_append] at hws
  exact hws ▸ hlevel.spells

/-! ### The groups that are open -/

/-- The levels of the open groups. -/
def outer : Progress → List Level
  | wanting _ outer => outer
  | complete _ outer => outer

/-- A move opens or closes groups as its terminal says. -/
theorem Moves.length_outer {p q : Progress} {w : Terminal} (h : Moves p w q) :
    (q.outer.length : Int) = p.outer.length + w.opening := by
  cases h with
  | leftParen hne => simp [outer]
  | rightParen =>
    simp only [outer, List.length_cons, Terminal.opening_rightParen]
    omega
  | _ => simp [outer]

/-- No move goes beyond the limit. -/
theorem Moves.length_outer_le {p q : Progress} {w : Terminal} (h : Moves p w q)
    (hp : p.outer.length ≤ nestingLimit) : q.outer.length ≤ nestingLimit := by
  cases h with
  | leftParen hne =>
    simp only [outer, List.length_cons] at hp ⊢
    omega
  | rightParen =>
    simp only [outer, List.length_cons] at hp ⊢
    omega
  | _ => exact hp

/-- **A run nests within the limit**, counted from the groups that are open at its start. -/
theorem Runs.nestsWithin {p q : Progress} {ws : List Terminal} (h : Runs p ws q)
    (hp : p.outer.length ≤ nestingLimit) :
    NestsWithin (nestingLimit - p.outer.length) (ws.map Terminal.opening) := by
  induction h with
  | nil p =>
    rw [List.map_nil, nestsWithin_nil]
    omega
  | @cons p q r w ws hm _ ih =>
    have hq := ih (hm.length_outer_le hp)
    rw [hm.length_outer, ← Int.sub_sub] at hq
    rw [List.map_cons, nestsWithin_cons]
    exact ⟨by omega, hq⟩

/-! ### Kinds alone decide acceptance -/

/-- Two progresses that differ in nothing but the formulas read so far. -/
def Alike : Progress → Progress → Prop
  | wanting _ outer, wanting _ outer' => outer.length = outer'.length
  | complete _ outer, complete _ outer' => outer.length = outer'.length
  | _, _ => False

/-- Alike progresses move alike on tokens of one kind. -/
theorem Moves.exists_alike {p q p' : Progress} {w w' : Terminal} (h : Moves p w q)
    (hp : Alike p p') (hw : w'.kind = w.kind) : ∃ q', Moves p' w' q' ∧ Alike q q' := by
  cases h with
  | const b =>
    match p', w', hp, hw with
    | wanting level outer, .const c, hp, _ => exact ⟨_, .const c, hp⟩
  | name v =>
    match p', w', hp, hw with
    | wanting level outer, .name u, hp, _ => exact ⟨_, .name u, hp⟩
  | negation =>
    match p', w', hp, hw with
    | wanting level outer, .negation, hp, _ => exact ⟨_, .negation, hp⟩
  | leftParen hne =>
    match p', w', hp, hw with
    | wanting level outer, .leftParen, hp, _ =>
      have hlength : outer.length ≠ nestingLimit := fun hc => hne (Eq.trans hp hc)
      exact ⟨_, .leftParen hlength, congrArg (· + 1) hp⟩
  | connective op =>
    match p', w', hp, hw with
    | complete level outer, .connective op', hp, _ => exact ⟨_, .connective op', hp⟩
  | rightParen =>
    match p', w', hp, hw with
    | complete level (around :: outer), .rightParen, hp, _ =>
      exact ⟨_, .rightParen, Nat.succ.inj hp⟩
    | complete level [], _, hp, _ => exact absurd hp (Nat.succ_ne_zero _)

/-- Alike progresses run alike over texts of the same kinds. -/
theorem Runs.exists_alike {p q p' : Progress} {ws ws' : List Terminal} (h : Runs p ws q)
    (hp : Alike p p') (hws : ws'.map Terminal.kind = ws.map Terminal.kind) :
    ∃ q', Runs p' ws' q' ∧ Alike q q' := by
  induction h generalizing p' ws' with
  | nil p =>
    rw [List.map_nil, List.map_eq_nil_iff] at hws
    exact ⟨p', hws ▸ .nil p', hp⟩
  | @cons p q r w ws hm _ ih =>
    rw [List.map_cons] at hws
    obtain ⟨w', vs, rfl, hw, hvs⟩ := List.map_eq_cons_iff.mp hws
    obtain ⟨q', hm', hq⟩ := hm.exists_alike hp hw
    obtain ⟨r', hs', hr⟩ := ih hq hvs
    exact ⟨r', .cons hm' hs', hr⟩

end Progress

/-! ### The formula of a list of tokens -/

/-- **Reading is spelling**: tokens are read as a formula exactly when they spell it as an
expression and no more groups than the limit are ever open at once. -/
theorem parseTokens_eq_ok_iff_spells {tokens : List Token} {t : Formula} :
    parseTokens tokens = .ok t ↔
      Spells Level.counted (.chain .or) (tokens.map Token.terminal) t ∧
        NestsWithin nestingLimit (tokens.map fun token => token.kind.opening) := by
  rw [Progress.parseTokens_eq_ok_iff_runs, ← map_opening_terminal]
  constructor
  · rintro ⟨level, hruns, rfl⟩
    refine ⟨hruns.spells, ?_⟩
    simpa [Progress.outer, Progress.start] using hruns.nestsWithin (Nat.zero_le _)
  · rintro ⟨hspells, hnests⟩
    obtain ⟨level, hlevel, hruns⟩ := Progress.readsAs_of_spells hspells [] (by simpa using hnests)
    exact ⟨level, hruns, hlevel⟩

/-- Tokens of the same kinds are accepted together. -/
theorem exists_parseTokens_of_kinds {tokens others : List Token} {t : Formula}
    (hkinds : others.map Token.kind = tokens.map Token.kind) (h : parseTokens tokens = .ok t) :
    ∃ u, parseTokens others = .ok u := by
  have hws : (others.map Token.terminal).map Terminal.kind =
      (tokens.map Token.terminal).map Terminal.kind := by
    simpa [Function.comp_def] using hkinds
  obtain ⟨level, hruns, -⟩ := Progress.parseTokens_eq_ok_iff_runs.mp h
  obtain ⟨q, hruns', hq⟩ := hruns.exists_alike (show Progress.start.Alike .start from rfl) hws
  match q, hq with
  | .complete level' [], _ =>
    exact ⟨_, Progress.parseTokens_eq_ok_iff_runs.mpr ⟨level', hruns', rfl⟩⟩

/-- **Tokens are accepted exactly if they are an expression** of the documented grammar that opens
no more groups at once than the limit. -/
theorem exists_parseTokens_iff (tokens : List Token) :
    (∃ t, parseTokens tokens = .ok t) ↔
      (∃ t, Spells id (.chain .or) (tokens.map Token.terminal) t) ∧
        NestsWithin nestingLimit (tokens.map fun token => token.kind.opening) := by
  constructor
  · rintro ⟨t, ht⟩
    obtain ⟨hspells, hnests⟩ := parseTokens_eq_ok_iff_spells.mp ht
    exact ⟨hspells.recounted id, hnests⟩
  · rintro ⟨⟨t, ht⟩, hnests⟩
    obtain ⟨u, hu⟩ := ht.recounted Level.counted
    exact ⟨u, parseTokens_eq_ok_iff_spells.mpr ⟨hu, hnests⟩⟩

/-- The tokens of a text that is a run of `!` and a name. -/
def runTokens (n : Nat) (name : String) : List Token :=
  (List.range n).map (fun i => ⟨.negation, "!", i⟩) ++ [⟨.name, name, n⟩]

theorem map_terminal_runTokens (n : Nat) (name : String) :
    (runTokens n name).map Token.terminal = List.replicate n .negation ++ [.name name] := by
  rw [runTokens, List.map_append, List.map_map, List.map_singleton, ← List.length_range (n := n),
    ← List.map_const', List.length_range]
  rfl

/-- A run of `!` does not open groups. -/
theorem nestsWithin_runTokens (n : Nat) (name : String) :
    NestsWithin nestingLimit ((runTokens n name).map fun token => token.kind.opening) := by
  rw [← map_opening_terminal, map_terminal_runTokens, nestsWithin_run, List.map_singleton,
    Terminal.opening_name]
  decide

/-- **What a run of `!` and a name are read as.** -/
theorem parseTokens_runTokens (n : Nat) (name : String) :
    parseTokens (runTokens n name) = .ok ((var name).negated (Level.counted n)) := by
  refine parseTokens_eq_ok_iff_spells.mpr ⟨?_, nestsWithin_runTokens n name⟩
  rw [map_terminal_runTokens]
  exact .run n (.name name) (isFlat_var name)

/-- **The reader accepts its grammar and nothing else, and builds the formula of the derivation**
with runs of `!` counted as a level counts them. This is the formula of the documented grammar
exactly where all runs are short. Whether tokens are accepted depends on their kinds only, and the
formula on these and on the texts of the names, so never on a position or on the letters of any
other token. -/
theorem parseTokens_eq_ok_iff (tokens : List Token) :
    ((∃ t, parseTokens tokens = .ok t) ↔
      (∃ t, Spells id (.chain .or) (tokens.map Token.terminal) t) ∧
        NestsWithin nestingLimit (tokens.map fun token => token.kind.opening)) ∧
    (∀ t, parseTokens tokens = .ok t ↔
      Spells Level.counted (.chain .or) (tokens.map Token.terminal) t ∧
        NestsWithin nestingLimit (tokens.map fun token => token.kind.opening)) ∧
    (ShortRuns (tokens.map Token.terminal) → ∀ t, parseTokens tokens = .ok t ↔
      Spells id (.chain .or) (tokens.map Token.terminal) t ∧
        NestsWithin nestingLimit (tokens.map fun token => token.kind.opening)) ∧
    (¬ ShortRuns (tokens.map Token.terminal) → ∀ t, parseTokens tokens = .ok t →
      ¬ Spells id (.chain .or) (tokens.map Token.terminal) t) ∧
    (∀ others : List Token, others.map Token.kind = tokens.map Token.kind →
      ((∃ t, parseTokens others = .ok t) ↔ ∃ t, parseTokens tokens = .ok t)) ∧
    ∀ others : List Token, others.map Token.terminal = tokens.map Token.terminal →
      ∀ t, parseTokens others = .ok t ↔ parseTokens tokens = .ok t := by
  refine ⟨exists_parseTokens_iff tokens, fun t => parseTokens_eq_ok_iff_spells, fun hshort t => ?_,
    fun hlong t ht hid => ?_, fun others hkinds => ?_, fun others hwords t => ?_⟩
  · rw [parseTokens_eq_ok_iff_spells, Spells.counted_iff hshort]
  · exact hlong ((parseTokens_eq_ok_iff_spells.mp ht).1.spells_id_iff.mp hid)
  · constructor
    · rintro ⟨t, ht⟩
      exact exists_parseTokens_of_kinds hkinds.symm ht
    · rintro ⟨t, ht⟩
      exact exists_parseTokens_of_kinds hkinds ht
  · have hkinds : others.map Token.kind = tokens.map Token.kind := by
      simpa [Function.comp_def] using congrArg (List.map Terminal.kind) hwords
    have hopening : (others.map fun token => token.kind.opening) =
        tokens.map fun token => token.kind.opening := by
      simpa [Function.comp_def] using congrArg (List.map TokenKind.opening) hkinds
    rw [parseTokens_eq_ok_iff_spells, parseTokens_eq_ok_iff_spells, hwords, hopening]

/-- The shortest run that is miscounted. The tokens spell its negations, and are read as the
variable alone. -/
theorem parseTokens_of_long_run :
    Spells id (.chain .or) ((runTokens (2 ^ 31) "x").map Token.terminal)
      ((var "x").negated (2 ^ 31)) ∧
    NestsWithin nestingLimit
      ((runTokens (2 ^ 31) "x").map fun token => token.kind.opening) ∧
    parseTokens (runTokens (2 ^ 31) "x") = .ok (var "x") ∧
    parseTokens (runTokens (2 ^ 31) "x") ≠ .ok ((var "x").negated (2 ^ 31)) ∧
    ¬ Spells id (.chain .or) ((runTokens (2 ^ 31) "x").map Token.terminal) (var "x") := by
  have hlost : Level.counted (2 ^ 31) = 0 := Level.counted_eq_zero (by decide) (by decide)
  have hread := parseTokens_runTokens (2 ^ 31) "x"
  rw [hlost, negated_zero] at hread
  refine ⟨?_, nestsWithin_runTokens _ _, hread, fun h => ?_, fun h => ?_⟩
  · rw [map_terminal_runTokens]
    exact .run (2 ^ 31) (.name "x") (isFlat_var "x")
  · exact ne_negated (by decide) (var "x") (Except.ok.inj (hread.symm.trans h))
  · have hcount := h.negationCount_eq
    rw [map_terminal_runTokens, List.count_append, List.count_replicate_self,
      negationCount_var] at hcount
    omega

end Propositional
