import Propositional.Proofs.Formula.Flatness
import Propositional.Proofs.Formula.Parts
import Propositional.Proofs.Rendering.Cutting

/-!
# What a rendering spells

The terminals of a rendering spell something exactly if every join in the formula has a term, and
then they spell the formula built anew from its leaves.

For the one direction the parentheses of a rendering have to be the right ones. A term that stands
in a join of its own connective without parentheses is not one operand of the chain that is written,
but all of its operands; so what carries through the formula is that a text is a chain of parts
whose operands are, taken together, those of the formula
(`Propositional.Formula.SpellsOperands`). For the other direction it is enough to count: every text
that spells something has one more constant or name than it has connectives, and a join without
terms takes a connective too many (`Propositional.Formula.surplus_terminals`).
-/

namespace Propositional.Formula

/-! ### Terminals -/

/-- Words in parentheses if these are needed. -/
def wrapped (needed : Bool) (ws : List Terminal) : List Terminal :=
  if needed then grouped ws else ws

theorem filterMap_parenthesized (needed : Bool) (ps : List Piece) :
    (parenthesized needed ps).filterMap Piece.terminal? =
      wrapped needed (ps.filterMap Piece.terminal?) := by
  cases needed with
  | false => rfl
  | true =>
    rw [parenthesized, if_pos rfl, List.filterMap_append]
    rfl

theorem filterMap_intercalate (op : Connective) (pss : List (List Piece)) :
    ((separator op).intercalate pss).filterMap Piece.terminal? =
      chained op (pss.map (List.filterMap Piece.terminal?)) := by
  match pss with
  | [] => rfl
  | [ps] => simp
  | ps :: qs :: pss =>
    have ih := filterMap_intercalate op (qs :: pss)
    rw [List.intercalate_cons_cons, List.filterMap_append, List.filterMap_append, ih,
      List.append_assoc]
    exact (chained_cons_cons op _ _ _).symm

@[simp] theorem terminals_const (b : Bool) : terminals (const b) = [.const b] := by
  rw [terminals, pieces]
  rfl

@[simp] theorem terminals_var (name : String) : terminals (var name) = [.name name] := by
  rw [terminals, pieces]
  simp [Piece.terminal?, Terminal.ofKind]

@[simp] theorem terminals_neg (t : Formula) :
    terminals (neg t) = .negation :: wrapped t.needsParensNegated t.terminals := by
  rw [terminals, pieces, terminals, ← filterMap_parenthesized]
  rfl

@[simp] theorem terminals_join (op : Connective) (ts : List Formula) : terminals (join op ts) =
    chained op (ts.map fun t => wrapped (t.needsParensIn op) t.terminals) := by
  rw [terminals, pieces, piecesOfTerms_eq_map, filterMap_intercalate, List.map_map]
  simp only [Function.comp_def, filterMap_parenthesized, terminals]

/-! ### Operands of a chain -/

/-- **A text that spells operands**: a chain of parts that have, taken together, the given formulas
for their operands. -/
def SpellsOperands (op : Connective) (ws : List Terminal) (us : List Formula) : Prop :=
  ∃ parts : List (List Terminal × Formula), parts ≠ [] ∧
    (∀ part ∈ parts, Spells id (.operand op) part.1 part.2) ∧
    ws = chained op (parts.map Prod.fst) ∧ splice op (parts.map Prod.snd) = us

namespace SpellsOperands

variable {op : Connective} {ws vs : List Terminal} {us rs : List Formula} {t : Formula}

/-- A chain may have a single part. -/
theorem single (h : Spells id (.operand op) ws t) : SpellsOperands op ws (operands op t) :=
  ⟨[(ws, t)], by simp, by simpa using h, by simp, by simp⟩

/-- Operands of two chains are those of the chain made of both. -/
theorem append (h : SpellsOperands op ws us) (h' : SpellsOperands op vs rs) :
    SpellsOperands op (ws ++ .connective op :: vs) (us ++ rs) := by
  obtain ⟨parts, hne, hparts, rfl, rfl⟩ := h
  obtain ⟨parts', hne', hparts', rfl, rfl⟩ := h'
  refine ⟨parts ++ parts', by simp [hne], ?_, ?_, by simp⟩
  · intro part hp
    exact (List.mem_append.mp hp).elim (hparts part) (hparts' part)
  · rw [List.map_append, chained_append op (by simpa using hne) (by simpa using hne')]

/-- What spells the operands of a flat formula spells the formula. -/
theorem spells (h : SpellsOperands op ws (operands op t)) (hflat : t.isFlat = true) :
    Spells id (.chain op) ws t := by
  obtain ⟨parts, hne, hparts, rfl, hsplice⟩ := h
  have hchain := Spells.chain op hne hparts
  rwa [combine, hsplice, collapse_operands hflat] at hchain

/-- **Operands add up**: a chain of texts that spell the operands of some formulas spells the
operands of all of them. -/
theorem chain {f : Formula → List Terminal} {g : Formula → Formula} {ts : List Formula}
    (hne : ts ≠ []) (h : ∀ t ∈ ts, SpellsOperands op (f t) (operands op (g t))) :
    SpellsOperands op (chained op (ts.map f)) (splice op (ts.map g)) := by
  match ts, hne with
  | [t], _ => simpa using h t (by simp)
  | t :: u :: ts, _ =>
    obtain ⟨ht, hrest⟩ := List.forall_mem_cons.mp h
    have hchain := ht.append (chain (List.cons_ne_nil u ts) hrest)
    rwa [List.map_cons, ← chained_cons_cons, ← splice_cons] at hchain

end SpellsOperands

/-- What can stand behind a `!` can stand in a chain of either connective. -/
theorem spellsOperands_of_negation {ws : List Terminal} {t : Formula} (h : Spells id .negation ws t)
    (hflat : t.isFlat = true) (op : Connective) : SpellsOperands op ws (operands op t) := by
  have hand : SpellsOperands .and ws (operands .and t) := .single h
  cases op with
  | and => exact hand
  | or => exact .single (hand.spells hflat)

/-! ### Renderings with a term in every join -/

/-- **Every join has a term**, wherever it stands in the formula. -/
def HasTerms (t : Formula) : Prop :=
  ∀ op ts, Within (join op ts) t → ts ≠ []

/-- What the rendering of a formula is good for: behind a `!`, unless it needs parentheses there,
and in a chain of a connective, unless it needs parentheses there. -/
structure Fits (t : Formula) : Prop where
  /-- It can stand behind a `!`. -/
  negation : t.needsParensNegated = false → Spells id .negation t.terminals t.rebuild
  /-- It can stand in a chain. -/
  chain : ∀ op, t.needsParensIn op = false → SpellsOperands op t.terminals (operands op t.rebuild)

/-- A rendering spells the formula built anew. -/
theorem Fits.spells {t : Formula} (h : t.Fits) :
    Spells id (.chain .or) t.terminals t.rebuild :=
  (h.chain .or rfl).spells (isFlat_rebuild t)

/-- Behind a `!` a rendering can stand once the parentheses are put that it needs. -/
theorem Fits.negation_wrapped {t : Formula} (h : t.Fits) :
    Spells id .negation (wrapped t.needsParensNegated t.terminals) t.rebuild := by
  cases hneeded : t.needsParensNegated with
  | false => exact h.negation hneeded
  | true => exact .atom (.group h.spells)

/-- In a chain a rendering can stand once the parentheses are put that it needs. -/
theorem Fits.chain_wrapped {t : Formula} (h : t.Fits) (op : Connective) :
    SpellsOperands op (wrapped (t.needsParensIn op) t.terminals) (operands op t.rebuild) := by
  cases hneeded : t.needsParensIn op with
  | false => exact h.chain op hneeded
  | true => exact spellsOperands_of_negation (.atom (.group h.spells)) (isFlat_rebuild t) op

/-- What can stand behind a `!` without parentheses fits everywhere. -/
theorem fits_of_negation {t : Formula} (h : Spells id .negation t.terminals t.rebuild) :
    t.Fits where
  negation _ := h
  chain op _ := spellsOperands_of_negation h (isFlat_rebuild t) op

/-- **A rendering fits** wherever the formula can stand, if every join has a term. -/
theorem fits_of_hasTerms {t : Formula} (h : t.HasTerms) : t.Fits := by
  induction t with
  | const b => exact fits_of_negation (by simpa using .atom (.const b))
  | var name => exact fits_of_negation (by simpa using .atom (.name name))
  | neg t ih =>
    have ht := ih fun op ts hw => h op ts (within_neg.mpr (.inr hw))
    exact fits_of_negation (by simpa using .neg ht.negation_wrapped)
  | join op ts ih =>
    have hne : ts ≠ [] := h op ts (.refl _)
    have hparts : ∀ t ∈ ts, SpellsOperands op (wrapped (t.needsParensIn op) t.terminals)
        (operands op t.rebuild) := fun t ht =>
      (ih t ht fun p us hw => h p us (within_join.mpr (.inr ⟨t, ht, hw⟩))).chain_wrapped op
    have hchain : SpellsOperands op (join op ts).terminals (operands op (join op ts).rebuild) := by
      have hflat : ∀ t ∈ ts.map rebuild, t.isFlat = true := by
        intro t ht
        obtain ⟨u, -, rfl⟩ := List.mem_map.mp ht
        exact isFlat_rebuild u
      rw [terminals_join, rebuild_join, operands_combine (by simpa using hne) hflat]
      exact .chain hne hparts
    constructor
    · intro hneeded
      cases op <;> simp [needsParensNegated, isJoin] at hneeded
    · intro p hneeded
      by_cases hp : p = op
      · exact hp ▸ hchain
      -- the other connective: a chain of `&` is one operand for `|`, but not the other way round
      cases op with
      | and =>
        cases p with
        | or => exact .single (hchain.spells (isFlat_rebuild _))
        | and => exact absurd rfl hp
      | or =>
        cases p with
        | or => exact absurd rfl hp
        | and => simp [needsParensIn, isJoin] at hneeded

/-! ### Counting -/

/-- The count that finds one more constant or name than there are connectives. -/
def surplus : Terminal → Int
  | .const _ => 1
  | .name _ => 1
  | .connective _ => -1
  | _ => 0

theorem surplus_connective (op : Connective) : surplus (.connective op) = -1 := rfl

theorem surplus_of_spells {count : Nat → Nat} {p : Phrase} {ws : List Terminal} {t : Formula}
    (h : Spells count p ws t) : (ws.map surplus).sum = 1 :=
  h.sum_map (fun _ => rfl) (fun _ => rfl) rfl rfl fun _ => rfl

/-- Parentheses do not count. -/
theorem surplus_wrapped (needed : Bool) (ws : List Terminal) :
    ((wrapped needed ws).map surplus).sum = (ws.map surplus).sum := by
  cases needed with
  | false => rfl
  | true => simp [wrapped, grouped, surplus]

/-- Numbers that are all at most zero have a sum at most zero, and only zeros have the sum zero. -/
theorem sum_le_zero {changes : List Int} (h : ∀ c ∈ changes, c ≤ 0) :
    changes.sum ≤ 0 ∧ (changes.sum = 0 → ∀ c ∈ changes, c = 0) := by
  induction changes with
  | nil => simp
  | cons c changes ih =>
    obtain ⟨hc, hrest⟩ := List.forall_mem_cons.mp h
    obtain ⟨hle, hzero⟩ := ih hrest
    rw [List.sum_cons]
    refine ⟨by omega, fun hsum => List.forall_mem_cons.mpr ⟨by omega, hzero (by omega)⟩⟩

/-- **A join without terms takes a connective too many**: no rendering counts more than one, and one
only if every join has a term. -/
theorem surplus_terminals (t : Formula) : (t.terminals.map surplus).sum ≤ 1 ∧
    ((t.terminals.map surplus).sum = 1 → t.HasTerms) := by
  induction t with
  | const b => exact ⟨by simp [surplus], fun _ op ts hw => by simp at hw⟩
  | var name => exact ⟨by simp [surplus], fun _ op ts hw => by simp at hw⟩
  | neg t ih =>
    have hsum : ((neg t).terminals.map surplus).sum = (t.terminals.map surplus).sum := by
      rw [terminals_neg, List.map_cons, List.sum_cons, surplus_wrapped]
      simp [surplus]
    rw [hsum]
    refine ⟨ih.1, fun hone op ts hw => ih.2 hone op ts ?_⟩
    simpa using hw
  | join op ts ih =>
    by_cases hne : ts = []
    · have hterminals : (join op ts).terminals = [] := by
        rw [hne, terminals_join]
        rfl
      rw [hterminals]
      exact ⟨by simp, fun hone => by simp at hone⟩
    -- every term adds what it counts, less the one that the connective in front of it takes
    have hsum : ((join op ts).terminals.map surplus).sum + -1 =
        (ts.map fun t => (t.terminals.map surplus).sum + -1).sum := by
      have hwords : ts.map (fun t => wrapped (t.needsParensIn op) t.terminals) ≠ [] := by
        simpa using hne
      have hchained := sum_map_chained surplus op hwords
      rw [List.map_map] at hchained
      simpa only [terminals_join, Function.comp_def, surplus_wrapped, surplus_connective]
        using hchained
    have hterms : ∀ c ∈ ts.map (fun t => (t.terminals.map surplus).sum + -1), c ≤ 0 := by
      intro c hc
      obtain ⟨t, ht, rfl⟩ := List.mem_map.mp hc
      have := (ih t ht).1
      omega
    obtain ⟨hle, hzero⟩ := sum_le_zero hterms
    refine ⟨by omega, fun hone p us hw => ?_⟩
    rcases within_join.mp hw with heq | ⟨t, ht, hwt⟩
    · obtain ⟨-, rfl⟩ := join.inj heq
      exact hne
    · have ht_zero := hzero (by omega) _ (List.mem_map_of_mem ht)
      exact (ih t ht).2 (by omega) p us hwt

/-- **Which renderings spell something**: those that count one, and these are the renderings of the
formulas in which every join has a term. -/
theorem surplus_terminals_eq_one_iff {t : Formula} :
    (t.terminals.map surplus).sum = 1 ↔ t.HasTerms :=
  ⟨(surplus_terminals t).2, fun h => surplus_of_spells (fits_of_hasTerms h).spells⟩

instance (t : Formula) : Decidable t.HasTerms :=
  decidable_of_iff _ surplus_terminals_eq_one_iff

/-- What a rendering spells can only come from a formula in which every join has a term. -/
theorem hasTerms_of_spells {count : Nat → Nat} {t u : Formula}
    (h : Spells count (.chain .or) t.terminals u) : t.HasTerms :=
  surplus_terminals_eq_one_iff.mp (surplus_of_spells h)

end Propositional.Formula
