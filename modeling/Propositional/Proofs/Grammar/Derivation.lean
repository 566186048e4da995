import Mathlib.Algebra.Ring.Int.Defs
import Mathlib.Data.List.Basic
import Propositional.Grammar

/-!
# The grammar of formulas

What a list of tokens spells, said without a reader: by a grammar whose derivations build the
formula along with the text.

| phrase | what it is | formula |
|---|---|---|
| `.chain .or` | operands `.chain .and`, one or more, with `|` between them | one combined join |
| `.chain .and` | operands `.negation`, one or more, with `&` between them | one combined join |
| `.negation` | any number of `!`, and an `.atom` | negations of that of the atom |
| `.atom` | a constant, a name, or a `.chain .or` in parentheses | that of what it is |

An expression is a `.chain .or`. The grammar looks at tokens through their *terminals*
(`Propositional.Token.terminal`), which hold nothing but the kind and, of a name, the text; so that
neither positions nor the letters of other tokens can matter is part of the statement.

For how many negations a run of `!` counts is a parameter of the grammar. It is `id` where each `!`
is a negation, and then the rule for `.negation` is the same as that a `.negation` is a `!` with a
`.negation` behind it, or an `.atom` (`Propositional.Spells.atom`, `Propositional.Spells.neg`). Of
most that is said here the parameter makes no difference.

The grammar has no bound on the nesting of groups. How deep a text nests is a property of its own,
`Propositional.NestsWithin`, of the signs `(` and `)` in it alone.
-/

namespace Propositional

open Formula

/-! ### Terminals -/

/-- **A terminal** of the grammar: what is left of a token without its position and, unless it is a
name, without its text. -/
inductive Terminal where
  /-- A name -/
  | name (text : String)
  /-- A constant -/
  | const (value : Bool)
  /-- `(` -/
  | leftParen
  /-- `)` -/
  | rightParen
  /-- `!` -/
  | negation
  /-- `&` or `|` -/
  | connective (op : Connective)
  deriving DecidableEq, Repr

namespace Terminal

/-- The terminal of a token of the given kind and text. -/
def ofKind : TokenKind → String → Terminal
  | .name, text => name text
  | .const b, _ => const b
  | .leftParen, _ => leftParen
  | .rightParen, _ => rightParen
  | .negation, _ => negation
  | .connective op, _ => connective op

/-- The kind of a terminal. -/
def kind : Terminal → TokenKind
  | name _ => .name
  | const b => .const b
  | leftParen => .leftParen
  | rightParen => .rightParen
  | negation => .negation
  | connective op => .connective op

@[simp] theorem kind_ofKind (k : TokenKind) (text : String) : (ofKind k text).kind = k := by
  cases k <;> rfl

end Terminal

/-- The terminal that a token is to the grammar. -/
def Token.terminal (t : Token) : Terminal :=
  .ofKind t.kind t.text

@[simp] theorem Token.kind_terminal (t : Token) : t.terminal.kind = t.kind :=
  Terminal.kind_ofKind t.kind t.text

/-! ### Nesting -/

/-- How a token of a kind changes the number of open groups. -/
def TokenKind.opening : TokenKind → Int
  | leftParen => 1
  | rightParen => -1
  | _ => 0

/-- How a terminal changes the number of open groups. -/
def Terminal.opening (w : Terminal) : Int :=
  w.kind.opening

theorem map_opening_terminal (tokens : List Token) :
    (tokens.map Token.terminal).map Terminal.opening =
      tokens.map fun token => token.kind.opening := by
  simp [Terminal.opening, Function.comp_def]

@[simp] theorem Terminal.opening_name (v : String) : opening (name v) = 0 := rfl

@[simp] theorem Terminal.opening_const (b : Bool) : opening (const b) = 0 := rfl

@[simp] theorem Terminal.opening_leftParen : opening leftParen = 1 := rfl

@[simp] theorem Terminal.opening_rightParen : opening rightParen = -1 := rfl

@[simp] theorem Terminal.opening_negation : opening negation = 0 := rfl

@[simp] theorem Terminal.opening_connective (op : Connective) : opening (connective op) = 0 := rfl

/-- **Nesting within a limit**: if each member of a list says by how much the number of open groups
changes there, then at no point more than `limit` groups are open. -/
def NestsWithin (limit : Int) (changes : List Int) : Prop :=
  ∀ before, before <+: changes → before.sum ≤ limit

theorem nestsWithin_nil {limit : Int} : NestsWithin limit [] ↔ 0 ≤ limit := by
  simp [NestsWithin]

theorem nestsWithin_cons {limit change : Int} {changes : List Int} :
    NestsWithin limit (change :: changes) ↔ 0 ≤ limit ∧ NestsWithin (limit - change) changes := by
  constructor
  · intro h
    refine ⟨h [] List.nil_prefix, fun before hb => ?_⟩
    have := h (change :: before) (List.cons_prefix_cons.mpr ⟨rfl, hb⟩)
    rw [List.sum_cons] at this
    omega
  · rintro ⟨hzero, h⟩ before hb
    cases before with
    | nil => simpa using hzero
    | cons c before =>
      obtain ⟨rfl, hbefore⟩ := List.cons_prefix_cons.mp hb
      have := h before hbefore
      rw [List.sum_cons]
      omega

instance decidableNestsWithin : (limit : Int) → (changes : List Int) →
    Decidable (NestsWithin limit changes)
  | _, [] => decidable_of_iff _ nestsWithin_nil.symm
  | limit, change :: changes =>
    have := decidableNestsWithin (limit - change) changes
    decidable_of_iff _ nestsWithin_cons.symm

theorem NestsWithin.nonneg {limit : Int} {changes : List Int} (h : NestsWithin limit changes) :
    0 ≤ limit := by
  simpa using h [] List.nil_prefix

/-- Of two texts one after the other, the second starts with the groups that the first leaves
open. -/
theorem nestsWithin_append {limit : Int} {changes more : List Int} :
    NestsWithin limit (changes ++ more) ↔
      NestsWithin limit changes ∧ NestsWithin (limit - changes.sum) more := by
  induction changes generalizing limit with
  | nil =>
    simp only [List.nil_append, List.sum_nil, Int.sub_zero, nestsWithin_nil]
    exact ⟨fun h => ⟨h.nonneg, h⟩, fun h => h.2⟩
  | cons c changes ih =>
    rw [List.cons_append, nestsWithin_cons, nestsWithin_cons, ih, List.sum_cons, Int.sub_sub,
      and_assoc]

/-- Where nothing is opened or closed, nothing changes. -/
theorem nestsWithin_filter_ne_zero {limit : Int} {changes : List Int} :
    NestsWithin limit (changes.filter (· ≠ 0)) ↔ NestsWithin limit changes := by
  induction changes generalizing limit with
  | nil => rfl
  | cons c changes ih =>
    by_cases hc : c = 0
    · rw [List.filter_cons_of_neg (by simp [hc]), ih, nestsWithin_cons, hc, Int.sub_zero]
      exact ⟨fun h => ⟨h.nonneg, h⟩, fun h => h.2⟩
    · rw [List.filter_cons_of_pos (by simp [hc]), nestsWithin_cons, nestsWithin_cons, ih]

/-! ### Derivations -/

/-- A phrase of the grammar. -/
inductive Phrase where
  /-- Operands with a connective between them; for `|` this is an expression -/
  | chain (op : Connective)
  /-- An operand of `&` -/
  | negation
  /-- An operand of `!` that is no negation -/
  | atom
  deriving DecidableEq, Repr

/-- What the operands of a chain are. -/
def Phrase.operand : Connective → Phrase
  | .or => chain .and
  | .and => negation

/-- The words of a chain: those of its operands, with the connective between them. -/
def chained (op : Connective) (wss : List (List Terminal)) : List Terminal :=
  [.connective op].intercalate wss

/-- The words of a group: those inside it, between parentheses. -/
def grouped (ws : List Terminal) : List Terminal :=
  .leftParen :: ws ++ [.rightParen]

/-- **What a text spells**: `Spells count p ws t` says that the terminals `ws` can be derived from
the phrase `p`, and that `t` is the formula of the derivation, where `n` times `!` in front of an
atom count for `count n` negations. -/
inductive Spells (count : Nat → Nat) : Phrase → List Terminal → Formula → Prop
  /-- A constant spells itself. -/
  | const (b : Bool) : Spells count .atom [.const b] (.const b)
  /-- A name spells the variable of this name. -/
  | name (v : String) : Spells count .atom [.name v] (.var v)
  /-- A group spells what stands between its parentheses. -/
  | group {ws : List Terminal} {t : Formula} (h : Spells count (.chain .or) ws t) :
      Spells count .atom (grouped ws) t
  /-- An operand is an atom with any number of `!` in front of it. -/
  | negations (n : Nat) {ws : List Terminal} {t : Formula} (h : Spells count .atom ws t) :
      Spells count .negation (List.replicate n .negation ++ ws) (t.negated (count n))
  /-- A chain is one join of its operands, spliced and collapsed. -/
  | chain (op : Connective) {parts : List (List Terminal × Formula)} (hne : parts ≠ [])
      (h : ∀ part ∈ parts, Spells count (.operand op) part.1 part.2) :
      Spells count (.chain op) (chained op (parts.map Prod.fst)) (combine op (parts.map Prod.snd))

namespace Spells

variable {ws : List Terminal} {t : Formula}

/-- An operand may come without negations. -/
theorem atom (h : Spells id .atom ws t) : Spells id .negation ws t :=
  .negations 0 h

/-- Each `!` in front of an operand is a negation. -/
theorem neg (h : Spells id .negation ws t) : Spells id .negation (.negation :: ws) (.neg t) := by
  cases h with
  | negations n h => exact .negations (n + 1) h

end Spells

@[simp] theorem chained_singleton (op : Connective) (ws : List Terminal) :
    chained op [ws] = ws :=
  List.intercalate_singleton

theorem chained_cons_cons (op : Connective) (ws vs : List Terminal) (wss : List (List Terminal)) :
    chained op (ws :: vs :: wss) = ws ++ .connective op :: chained op (vs :: wss) := by
  simp [chained]

/-- One chain behind another, with the connective between them, is one chain. -/
theorem chained_append (op : Connective) {wss vss : List (List Terminal)} (hws : wss ≠ [])
    (hvs : vss ≠ []) :
    chained op (wss ++ vss) = chained op wss ++ .connective op :: chained op vss := by
  match wss, vss, hws, hvs with
  | [ws], vs :: vss, _, _ => rw [List.singleton_append, chained_cons_cons, chained_singleton]
  | ws :: us :: wss, vs :: vss, _, hvs =>
    have ih := chained_append op (List.cons_ne_nil us wss) hvs
    rw [List.cons_append, List.cons_append, chained_cons_cons, ← List.cons_append, ih,
      chained_cons_cons, List.append_assoc, List.cons_append]

/-- A chain with one more operand at its end. -/
theorem chained_append_singleton (op : Connective) (wss : List (List Terminal))
    (ws : List Terminal) :
    chained op (wss ++ [ws]) = (wss.flatMap fun vs => vs ++ [.connective op]) ++ ws := by
  match wss with
  | [] => simp
  | [vs] => simp [chained_cons_cons]
  | vs :: us :: wss =>
    have ih := chained_append_singleton op (us :: wss) ws
    rw [List.cons_append, List.cons_append, chained_cons_cons, ← List.cons_append, ih]
    simp

/-- A sum over a chain, with the connective in front of each operand counted once too often on both
sides. -/
theorem sum_map_chained (f : Terminal → Int) (op : Connective) {wss : List (List Terminal)}
    (hne : wss ≠ []) : ((chained op wss).map f).sum + f (.connective op) =
      (wss.map fun ws => (ws.map f).sum + f (.connective op)).sum := by
  match wss, hne with
  | [ws], _ => simp
  | ws :: vs :: wss, _ =>
    have ih := sum_map_chained f op (List.cons_ne_nil vs wss)
    rw [chained_cons_cons, List.map_cons, List.sum_cons, ← ih]
    simp only [List.map_append, List.map_cons, List.sum_append, List.sum_cons]
    omega

/-- **Counting along a derivation**: if a count gives every constant and every name the same, takes
it away again at every connective, and finds nothing in a negation or a pair of parentheses, then it
gives that much for every text that spells something. -/
theorem Spells.sum_map {f : Terminal → Int} {k : Int} (hconst : ∀ b, f (.const b) = k)
    (hname : ∀ v, f (.name v) = k) (hneg : f .negation = 0)
    (hgroup : f .leftParen + f .rightParen = 0) (hconn : ∀ op, f (.connective op) = -k)
    {count : Nat → Nat} {p : Phrase} {ws : List Terminal} {t : Formula} (h : Spells count p ws t) :
    (ws.map f).sum = k := by
  induction h with
  | const b => simp [hconst]
  | name v => simp [hname]
  | group h ih =>
    rw [grouped, List.cons_append, List.map_cons, List.sum_cons, List.map_append, List.sum_append,
      ih]
    simp only [List.map_cons, List.map_nil, List.sum_cons, List.sum_nil]
    omega
  | negations n h ih =>
    rw [List.map_append, List.sum_append, List.map_replicate, hneg, ih, List.sum_replicate_int,
      Int.mul_zero, Int.zero_add]
  | @chain op parts hne h ih =>
    -- every operand counts `k`, and the connective in front of it takes that away again
    have hsum := sum_map_chained f op (List.map_eq_nil_iff.not.mpr hne : parts.map Prod.fst ≠ [])
    have hzero : (parts.map Prod.fst).map (fun ws => (ws.map f).sum + f (.connective op)) =
        parts.map fun _ => 0 := by
      rw [List.map_map]
      refine List.map_congr_left fun part hp => ?_
      rw [Function.comp_apply, ih part hp, hconn, Int.add_right_neg]
    rw [hzero, hconn] at hsum
    simp only [List.map_const', List.sum_replicate_int] at hsum
    omega

/-- A text that spells something leaves no group open. -/
theorem Spells.sum_opening {count : Nat → Nat} {p : Phrase} {ws : List Terminal} {t : Formula}
    (h : Spells count p ws t) : (ws.map Terminal.opening).sum = 0 :=
  h.sum_map (fun _ => rfl) (fun _ => rfl) rfl rfl fun _ => rfl

/-! ### The nesting of phrases -/

/-- A group nests one deeper than what stands in it. -/
theorem nestsWithin_group {limit : Int} {ws : List Terminal}
    (hsum : (ws.map Terminal.opening).sum = 0) :
    NestsWithin limit ((grouped ws).map Terminal.opening) ↔
      NestsWithin (limit - 1) (ws.map Terminal.opening) := by
  rw [grouped, List.cons_append, List.map_cons, List.map_append, nestsWithin_cons,
    nestsWithin_append, hsum]
  constructor
  · exact fun h => h.2.1
  · intro h
    have hlimit := h.nonneg
    rw [Terminal.opening_leftParen]
    refine ⟨by omega, h, ?_⟩
    rw [List.map_cons, List.map_nil, nestsWithin_cons, nestsWithin_nil, Terminal.opening_rightParen]
    omega

/-- A run of `!` does not nest. -/
theorem nestsWithin_run {limit : Int} {n : Nat} {ws : List Terminal} :
    NestsWithin limit ((List.replicate n Terminal.negation ++ ws).map Terminal.opening) ↔
      NestsWithin limit (ws.map Terminal.opening) := by
  have hfilter : ((List.replicate n Terminal.negation ++ ws).map Terminal.opening).filter (· ≠ 0) =
      (ws.map Terminal.opening).filter (· ≠ 0) := by
    rw [List.map_append, List.filter_append, List.map_replicate, Terminal.opening_negation,
      List.filter_replicate_of_neg (by decide), List.nil_append]
  rw [← nestsWithin_filter_ne_zero, hfilter, nestsWithin_filter_ne_zero]

/-- A chain nests as deep as its deepest operand. -/
theorem nestsWithin_chained (limit : Int) (op : Connective) {wss : List (List Terminal)}
    (hne : wss ≠ []) (hsum : ∀ ws ∈ wss, (ws.map Terminal.opening).sum = 0) :
    NestsWithin limit ((chained op wss).map Terminal.opening) ↔
      ∀ ws ∈ wss, NestsWithin limit (ws.map Terminal.opening) := by
  match wss, hne with
  | [ws], _ => simp
  | ws :: vs :: wss, _ =>
    obtain ⟨hws, hrest⟩ := List.forall_mem_cons.mp hsum
    have ih := nestsWithin_chained limit op (List.cons_ne_nil vs wss) hrest
    rw [chained_cons_cons, List.map_append, List.map_cons, nestsWithin_append, nestsWithin_cons,
      hws, Terminal.opening_connective, Int.sub_zero, Int.sub_zero, ih]
    constructor
    · rintro ⟨h, -, htail⟩
      exact List.forall_mem_cons.mpr ⟨h, htail⟩
    · intro h
      obtain ⟨h, htail⟩ := List.forall_mem_cons.mp h
      exact ⟨h, h.nonneg, htail⟩

end Propositional
