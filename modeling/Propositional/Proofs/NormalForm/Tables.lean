import Mathlib.Algebra.GroupWithZero.Nat
import Propositional.Proofs.NormalForm.Literals
import Propositional.Proofs.NormalForm.Products
import Propositional.Proofs.NormalForm.Regrouping

/-!
# Tables of literals

Where a formula has no constants and a term in every join, making its normal form is bookkeeping: no
zero decides anything, no unit is left over, and nothing collapses. The normal form is then written
down from a *table*, a list of clauses each of which is a list of literals
(`Propositional.Formula.ofTable`), and the table is made from the formula by two operations that
know nothing of formulas (`Propositional.joinTables`): a disjunction puts the tables of its terms
one below the other, and a conjunction chooses one clause from each and puts the chosen ones side by
side (`Propositional.Formula.value_normalForm_eq_ofTable`).

All that one may ask about such a normal form is a question about its table. It has as many clauses
as the table has, which is a sum or a product (`Propositional.Formula.length_clauseTable`); its
literals are those of the table, and no literal of the formula is lost on the way there, since where
every clause is chosen from a table that is not empty each of them is chosen some time
(`Propositional.exists_choice_of_mem`). And since whether units are dropped does not enter the
table, the normal form is the same in both modes.
-/

namespace Propositional

/-! ### Tables -/

section Tables

variable {α : Type} {tables : List (List (List α))} {table : List (List α)}

/-- **The table of a join**, from those of its terms. -/
def joinTables : Connective → List (List (List α)) → List (List α)
  | .or, tables => tables.flatten
  | .and, tables => (choices tables).map List.flatten

/-- The number of clauses of a join, from those of its terms: their sum or their product. -/
def joinCounts : Connective → List Nat → Nat
  | .or, counts => counts.sum
  | .and, counts => counts.prod

theorem length_joinTables (op : Connective) (tables : List (List (List α))) :
    (joinTables op tables).length = joinCounts op (tables.map List.length) := by
  cases op with
  | or => exact List.length_flatten
  | and => exact (List.length_map _).trans (length_choices tables)

/-- **A proper table** has a clause, and each of its clauses has a literal. -/
structure IsProperTable (table : List (List α)) : Prop where
  /-- It has a clause -/
  ne_nil : table ≠ []
  /-- No clause is empty -/
  nil_notMem : [] ∉ table

/-- Whatever stands in one of the lists is chosen some time, if all lists can be chosen from. -/
theorem exists_choice_of_mem {xss : List (List α)} {xs : List α} {x : α}
    (hne : ∀ ys ∈ xss, ys ≠ []) (hxs : xs ∈ xss) (hx : x ∈ xs) : ∃ ys ∈ choices xss, x ∈ ys := by
  induction xss with
  | nil => simp at hxs
  | cons zs xss ih =>
    obtain ⟨hzs, hxss⟩ := List.forall_mem_cons.mp hne
    rcases List.mem_cons.mp hxs with rfl | hxs
    · obtain ⟨rest, hrest⟩ := List.exists_mem_of_length_pos (length_choices_pos hxss)
      exact ⟨x :: rest, mem_choices_cons.mpr ⟨x, hx, rest, hrest, rfl⟩, List.mem_cons_self⟩
    · obtain ⟨ys, hys, hxys⟩ := ih hxss hxs
      obtain ⟨z, hz⟩ := List.exists_mem_of_ne_nil zs hzs
      exact ⟨z :: ys, mem_choices_cons.mpr ⟨z, hz, ys, hys, rfl⟩, List.mem_cons_of_mem _ hxys⟩

/-- **Joining proper tables gives a proper table**, if there are any. -/
theorem isProperTable_joinTables (op : Connective) (hne : tables ≠ [])
    (h : ∀ table ∈ tables, IsProperTable table) : IsProperTable (joinTables op tables) := by
  obtain ⟨table, htable⟩ := List.exists_mem_of_ne_nil tables hne
  cases op with
  | or =>
    refine ⟨fun hnil => ?_, fun hmem => ?_⟩
    · exact (h table htable).ne_nil (List.flatten_eq_nil_iff.mp hnil table htable)
    · obtain ⟨table, htable, hmem⟩ := List.mem_flatten.mp hmem
      exact (h table htable).nil_notMem hmem
  | and =>
    refine ⟨fun hnil => ?_, fun hmem => ?_⟩
    · have hpos := length_choices_pos fun table htable => (h table htable).ne_nil
      rw [List.map_eq_nil_iff.mp hnil] at hpos
      exact absurd hpos (Nat.lt_irrefl 0)
    · -- a choice with nothing in it would have an empty clause from each table
      obtain ⟨choice, hchoice, hflat⟩ := List.mem_map.mp hmem
      obtain ⟨clause, hclause, hmem⟩ := exists_mem_choice hchoice htable
      rw [List.flatten_eq_nil_iff.mp hflat clause hmem] at hclause
      exact (h table htable).nil_notMem hclause

/-- **Joining tables loses nothing and adds nothing** to what stands in them. -/
theorem mem_flatten_joinTables (op : Connective) (hne : ∀ table ∈ tables, table ≠ []) {x : α} :
    x ∈ (joinTables op tables).flatten ↔ ∃ table ∈ tables, x ∈ table.flatten := by
  cases op with
  | or =>
    rw [joinTables]
    simp only [List.mem_flatten]
    constructor
    · rintro ⟨clause, ⟨table, htable, hclause⟩, hx⟩
      exact ⟨table, htable, clause, hclause, hx⟩
    · rintro ⟨table, htable, clause, hclause, hx⟩
      exact ⟨clause, ⟨table, htable, hclause⟩, hx⟩
  | and =>
    rw [joinTables]
    constructor
    · intro hx
      obtain ⟨_, hflat, hx⟩ := List.mem_flatten.mp hx
      obtain ⟨choice, hchoice, rfl⟩ := List.mem_map.mp hflat
      obtain ⟨clause, hclause, hx⟩ := List.mem_flatten.mp hx
      obtain ⟨table, htable, hmem⟩ := exists_mem_of_mem_choices hchoice hclause
      exact ⟨table, htable, List.mem_flatten.mpr ⟨clause, hmem, hx⟩⟩
    · rintro ⟨table, htable, hx⟩
      obtain ⟨clause, hclause, hx⟩ := List.mem_flatten.mp hx
      obtain ⟨choice, hchoice, hmem⟩ := exists_choice_of_mem hne htable hclause
      exact List.mem_flatten.mpr ⟨choice.flatten, List.mem_map_of_mem hchoice,
        List.mem_flatten.mpr ⟨clause, hmem, hx⟩⟩

end Tables

namespace Formula

variable {dropUnits positive : Bool} {t : Formula} {ts : List Formula}
  {table : List (List (String × Bool))}

/-! ### The table of a formula -/

/-- **The table of a formula**, or of its negation if it is not to be taken positively. The constant
`T` has one clause without literals, and `F` has no clause. -/
def clauseTable (positive : Bool) (t : Formula) : List (List (String × Bool)) :=
  fold (α := Bool → List (List (String × Bool))) {
    const := fun b positive => if b = positive then [[]] else []
    var := fun name positive => [[(name, positive)]]
    neg := fun table positive => table (!positive)
    join := fun op tables positive =>
      joinTables (if positive then op else op.dual) (tables.map fun table => table positive) }
    t positive

/-- **The number of clauses of a formula**, or of its negation if it is not to be taken positively:
one for a variable, the sum for a disjunction, the product for a conjunction, and these two the
other way round under a negation. -/
def clauseCount (positive : Bool) (t : Formula) : Nat :=
  fold (α := Bool → Nat) {
    const := fun b positive => if b = positive then 1 else 0
    var := fun _ _ => 1
    neg := fun count positive => count (!positive)
    join := fun op counts positive =>
      joinCounts (if positive then op else op.dual) (counts.map fun count => count positive) }
    t positive

theorem clauseTable_neg (t : Formula) :
    clauseTable positive (neg t) = clauseTable (!positive) t := by
  simp [clauseTable]

theorem clauseTable_join (op : Connective) (ts : List Formula) :
    clauseTable positive (join op ts) =
      joinTables (if positive then op else op.dual) (ts.map (clauseTable positive)) := by
  simp only [clauseTable, fold_join, List.map_map]
  rfl

theorem clauseCount_neg (t : Formula) :
    clauseCount positive (neg t) = clauseCount (!positive) t := by
  simp [clauseCount]

theorem clauseCount_join (op : Connective) (ts : List Formula) :
    clauseCount positive (join op ts) =
      joinCounts (if positive then op else op.dual) (ts.map (clauseCount positive)) := by
  simp only [clauseCount, fold_join, List.map_map]
  rfl

/-- The table of a formula has the clauses that are counted. -/
theorem length_clauseTable (t : Formula) :
    (clauseTable positive t).length = clauseCount positive t := by
  induction t generalizing positive with
  | const b => simp only [clauseTable, clauseCount, fold_const]; split <;> rfl
  | var name => simp [clauseTable, clauseCount]
  | neg t ih => rw [clauseTable_neg, clauseCount_neg, ih]
  | join op ts ih =>
    rw [clauseTable_join, clauseCount_join, length_joinTables, List.map_map]
    exact congrArg _ (List.map_congr_left fun t ht => ih t ht)

/-- A formula of variables: it has no constants, and a term in every join. -/
structure IsProper (t : Formula) : Prop where
  /-- No constant stands in it -/
  const_notWithin : ∀ b, ¬Within (const b) t
  /-- Every join in it has a term -/
  hasTerms : t.HasTerms

theorem IsProper.of_neg (h : (neg t).IsProper) : t.IsProper where
  const_notWithin b hw := h.const_notWithin b (within_neg.mpr (.inr hw))
  hasTerms op ts hw := h.hasTerms op ts (within_neg.mpr (.inr hw))

theorem IsProper.of_join {op : Connective} (h : (join op ts).IsProper) :
    ts ≠ [] ∧ ∀ t ∈ ts, t.IsProper :=
  ⟨h.hasTerms op ts (.refl _), fun t ht =>
    ⟨fun b hw => h.const_notWithin b (within_join.mpr (.inr ⟨t, ht, hw⟩)),
      fun op ts hw => h.hasTerms op ts (within_join.mpr (.inr ⟨t, ht, hw⟩))⟩⟩

theorem isProperTable_clauseTable (h : t.IsProper) : IsProperTable (clauseTable positive t) := by
  induction t generalizing positive with
  | const b => exact absurd (.refl _) (h.const_notWithin b)
  | var name => exact ⟨by simp [clauseTable], by simp [clauseTable]⟩
  | neg t ih =>
    rw [clauseTable_neg]
    exact ih h.of_neg
  | join op ts ih =>
    obtain ⟨hne, hts⟩ := h.of_join
    rw [clauseTable_join]
    refine isProperTable_joinTables _ (by simpa using hne) ?_
    rw [List.forall_mem_map]
    exact fun t ht => ih t ht (hts t ht)

/-- **The table of a formula holds its literals**, all of them and no others. -/
theorem mem_flatten_clauseTable (h : t.IsProper) {l : String × Bool} :
    l ∈ (clauseTable positive t).flatten ↔ l ∈ literals positive t := by
  induction t generalizing positive with
  | const b => exact absurd (.refl _) (h.const_notWithin b)
  | var name => simp [clauseTable]
  | neg t ih => rw [clauseTable_neg, literals_neg, ih h.of_neg]
  | join op ts ih =>
    obtain ⟨-, hts⟩ := h.of_join
    have hne : ∀ table ∈ ts.map (clauseTable positive), table ≠ [] := by
      rw [List.forall_mem_map]
      exact fun t ht => (isProperTable_clauseTable (hts t ht)).ne_nil
    rw [clauseTable_join, mem_flatten_joinTables _ hne, literals_join, List.mem_flatMap]
    simp only [List.mem_map, exists_exists_and_eq_and]
    exact exists_congr fun t => and_congr_right fun ht => ih t ht (hts t ht)

/-! ### Formulas from tables -/

/-- A literal as a formula. -/
def ofLiteral (l : String × Bool) : Formula :=
  if l.2 then var l.1 else neg (var l.1)

/-- A clause of literals as a formula. -/
def ofClause (clause : List (String × Bool)) : Formula :=
  combine .and (clause.map ofLiteral)

/-- **A table as a formula.** -/
def ofTable (table : List (List (String × Bool))) : Formula :=
  combine .or (table.map ofClause)

theorem isLiteral_ofLiteral (l : String × Bool) : (ofLiteral l).isLiteral = true := by
  unfold ofLiteral
  split <;> rfl

theorem ofLiteral_ne_const (l : String × Bool) (b : Bool) : ofLiteral l ≠ const b := by
  unfold ofLiteral
  split <;> exact nofun

/-- Terms that a join may have are assembled to their join, whether units are dropped or not. -/
theorem assemble_eq_combine {op : Connective} {p : Formula → Prop} (hp : IsBase op p)
    (hts : ∀ t ∈ ts, p t ∧ Admits dropUnits op t) : assemble dropUnits op ts = combine op ts := by
  rw [assemble_of_notMem_zero _ _ (zero_notMem_of_admits hts), spliceTrimmed_eq_self hp hts]

theorem admits_of_ne_const {op : Connective} (h : ∀ b, t ≠ const b) : Admits dropUnits op t :=
  ⟨h _, fun _ => h _⟩

theorem assemble_map_ofLiteral (dropUnits : Bool) (clause : List (String × Bool)) :
    assemble dropUnits .and (clause.map ofLiteral) = ofClause clause := by
  refine assemble_eq_combine isBase_isLiteral ?_
  rw [List.forall_mem_map]
  exact fun l _ => ⟨isLiteral_ofLiteral l, admits_of_ne_const (ofLiteral_ne_const l)⟩

theorem isClauseForm_ofClause (dropUnits : Bool) (clause : List (String × Bool)) :
    IsClauseForm dropUnits (ofClause clause) := by
  rw [← assemble_map_ofLiteral dropUnits]
  refine isLayer_assemble isBase_isLiteral ?_
  rw [List.forall_mem_map]
  exact fun l _ => .alone (isLiteral_ofLiteral l)

/-- A clause with a literal is no constant. -/
theorem ofClause_ne_const {clause : List (String × Bool)} (h : clause ≠ []) (b : Bool) :
    ofClause clause ≠ const b := by
  intro hconst
  rw [ofClause, combine, splice_eq_self] at hconst
  · rcases collapse_eq_const hconst with ⟨hnil, -⟩ | hsingle
    · exact h (List.map_eq_nil_iff.mp hnil)
    · obtain ⟨l, -, hl⟩ := List.mem_map.mp (hsingle ▸ List.mem_singleton_self (const b))
      exact ofLiteral_ne_const l b hl
  · rw [List.forall_mem_map]
    exact fun l _ => isJoin_eq_false_of_isLiteral (isLiteral_ofLiteral l)

theorem admits_map_ofClause (h : [] ∉ table) :
    ∀ c ∈ table.map ofClause, IsClauseForm dropUnits c ∧ Admits dropUnits .or c := by
  rw [List.forall_mem_map]
  refine fun clause hclause => ⟨isClauseForm_ofClause dropUnits clause, admits_of_ne_const ?_⟩
  exact ofClause_ne_const fun hnil => h (hnil ▸ hclause)

theorem assemble_map_ofClause (dropUnits : Bool) (h : [] ∉ table) :
    assemble dropUnits .or (table.map ofClause) = ofTable table :=
  assemble_eq_combine isBase_isClauseForm (admits_map_ofClause h)

theorem isNormalForm_ofTable (dropUnits : Bool) (h : [] ∉ table) :
    IsNormalForm dropUnits (ofTable table) := by
  rw [← assemble_map_ofClause dropUnits h]
  exact isLayer_assemble isBase_isClauseForm fun c hc => .alone (admits_map_ofClause h c hc).1

theorem operands_ofTable (h : IsProperTable table) :
    operands .or (ofTable table) = table.map ofClause := by
  have hjoin : ∀ c ∈ table.map ofClause, c.isJoin .or = false := by
    rw [List.forall_mem_map]
    exact fun clause _ => (isClauseForm_ofClause true clause).isJoin_or
  rw [ofTable, combine, splice_eq_self hjoin, operands_collapse _ hjoin]
  simpa using h.ne_nil

/-- A proper table is no constant. -/
theorem ofTable_ne_const (h : IsProperTable table) (b : Bool) : ofTable table ≠ const b := by
  intro hconst
  have hoperands := operands_ofTable h
  rw [hconst, operands_const] at hoperands
  obtain ⟨clause, hclause, heq⟩ := List.mem_map.mp (hoperands ▸ List.mem_singleton_self (const b))
  exact ofClause_ne_const (fun hnil => h.nil_notMem (hnil ▸ hclause)) b heq

theorem literals_ofTable (table : List (List (String × Bool))) :
    literals true (ofTable table) = table.flatten := by
  have hliteral (l : String × Bool) : literals true (ofLiteral l) = [l] := by
    obtain ⟨name, positive⟩ := l
    cases positive <;> simp [ofLiteral]
  have hclause (clause : List (String × Bool)) : literals true (ofClause clause) = clause := by
    rw [ofClause, literals_combine, List.flatMap_map]
    simp only [hliteral, List.flatMap_singleton']
  rw [ofTable, literals_combine, List.flatMap_map]
  simp only [hclause, List.flatMap_id']

/-! ### Normal forms from tables -/

/-- Clauses side by side are assembled to the clause of all their literals. -/
theorem assemble_map_ofClause_and (dropUnits : Bool) {clauses : List (List (String × Bool))}
    (h : [] ∉ clauses) :
    assemble dropUnits .and (clauses.map ofClause) = ofClause clauses.flatten := by
  have hgroups : clauses.map ofClause =
      (clauses.map (List.map ofLiteral)).map (assemble dropUnits .and) := by
    rw [List.map_map]
    exact List.map_congr_left fun clause _ => (assemble_map_ofLiteral dropUnits clause).symm
  rw [hgroups, assemble_flatten isBase_isLiteral, ← List.map_flatten, assemble_map_ofLiteral]
  · rw [List.forall_mem_map]
    exact fun clause hclause hnil => h (List.map_eq_nil_iff.mp hnil ▸ hclause)
  · rw [List.forall_mem_map]
    intro clause _
    rw [List.forall_mem_map]
    exact fun l _ => .alone (isLiteral_ofLiteral l)

/-- **Disjoining normal forms** puts their tables one below the other. -/
theorem disjoin_map_ofTable (dropUnits : Bool) {tables : List (List (List (String × Bool)))}
    (h : ∀ table ∈ tables, IsProperTable table) :
    disjoin dropUnits (tables.map ofTable) = ofTable tables.flatten := by
  have hgroups : tables.map ofTable =
      (tables.map (List.map ofClause)).map (assemble dropUnits .or) := by
    rw [List.map_map]
    exact List.map_congr_left fun table htable =>
      (assemble_map_ofClause dropUnits (h table htable).nil_notMem).symm
  have hnil : [] ∉ tables.flatten := fun hmem => by
    obtain ⟨table, htable, hmem⟩ := List.mem_flatten.mp hmem
    exact (h table htable).nil_notMem hmem
  rw [disjoin_eq_assemble, hgroups, assemble_flatten (p := IsClauseForm dropUnits)
    isBase_isClauseForm, ← List.map_flatten, assemble_map_ofClause dropUnits hnil]
  · rw [List.forall_mem_map]
    exact fun table htable => by simpa using (h table htable).ne_nil
  · rw [List.forall_mem_map]
    exact fun table htable c hc =>
      .alone (admits_map_ofClause (h table htable).nil_notMem c hc).1

/-- **Conjoining normal forms** chooses one clause from each of their tables and puts the chosen
ones side by side. -/
theorem value_conjoin_map_ofTable (dropUnits : Bool)
    {tables : List (List (List (String × Bool)))} (hne : tables ≠ [])
    (h : ∀ table ∈ tables, IsProperTable table) :
    (conjoin dropUnits (tables.map ofTable)).value =
      ofTable ((choices tables).map List.flatten) := by
  have hproper : IsProperTable ((choices tables).map List.flatten) :=
    isProperTable_joinTables .and hne h
  have hnormal : ∀ n ∈ tables.map ofTable, IsNormalForm dropUnits n := by
    rw [List.forall_mem_map]
    exact fun table htable => isNormalForm_ofTable dropUnits (h table htable).nil_notMem
  have hfalse : const false ∉ tables.map ofTable := fun hmem => by
    obtain ⟨table, htable, hconst⟩ := List.mem_map.mp hmem
    exact ofTable_ne_const (h table htable) false hconst
  have hoperands : (tables.map ofTable).map (operands .or) = tables.map (List.map ofClause) := by
    rw [List.map_map]
    exact List.map_congr_left fun table htable => operands_ofTable (h table htable)
  refine eq_of_operands_eq (isNormalForm_conjoin hnormal)
    (isNormalForm_ofTable dropUnits hproper.nil_notMem) ?_
  rw [operands_conjoin hnormal hfalse, hoperands, choices_map, operands_ofTable hproper,
    List.map_map, List.map_map]
  refine List.map_congr_left fun choice hchoice =>
    assemble_map_ofClause_and dropUnits fun hnil => ?_
  obtain ⟨table, htable, hmem⟩ := exists_mem_of_mem_choices hchoice hnil
  exact (h table htable).nil_notMem hmem

/-- **Joining normal forms is joining their tables.** -/
theorem value_joinNormal_map_ofTable (dropUnits : Bool) (op : Connective)
    {tables : List (List (List (String × Bool)))} (hne : tables ≠ [])
    (h : ∀ table ∈ tables, IsProperTable table) :
    (joinNormal dropUnits op (tables.map ofTable)).value = ofTable (joinTables op tables) := by
  cases op with
  | or => exact disjoin_map_ofTable dropUnits h
  | and => exact value_conjoin_map_ofTable dropUnits hne h

/-- **The normal form of a formula of variables is its table.** -/
theorem value_normalForm_eq_ofTable (h : t.IsProper) :
    (normalForm dropUnits positive t).value = ofTable (clauseTable positive t) := by
  induction t generalizing positive with
  | const b => exact absurd (.refl _) (h.const_notWithin b)
  | var name =>
    rw [normalForm_var]
    cases positive <;> simp [clauseTable, ofTable, ofClause, ofLiteral, combine, splice]
  | neg t ih => rw [normalForm_neg_eq, clauseTable_neg, ih h.of_neg]
  | join op ts ih =>
    obtain ⟨hne, hts⟩ := h.of_join
    have hmap : (ts.map fun t => (normalForm dropUnits positive t).value) =
        (ts.map (clauseTable positive)).map ofTable := by
      rw [List.map_map]
      exact List.map_congr_left fun t ht => ih t ht (hts t ht)
    rw [value_normalForm_join, hmap, clauseTable_join]
    refine value_joinNormal_map_ofTable dropUnits _ (by simpa using hne) ?_
    rw [List.forall_mem_map]
    exact fun t ht => isProperTable_clauseTable (hts t ht)

/-- **A normal form keeps the literals of its formula**, each with its sign, and adds none. If the
formula has no constants and a term in every join, then it loses none either, it has no constants,
it does not matter whether units are dropped, and there are as many clauses as are counted in the
formula. -/
theorem normalize_keeps_literals :
    (∀ (dropUnits : Bool) (t : Formula), literals true (t.normalize dropUnits) ⊆ literals true t) ∧
    ∀ t : Formula, (∀ b, ¬Within (const b) t) → (∀ op, ¬Within (join op []) t) →
      t.normalize true = t.normalize false ∧
      ∀ dropUnits, (∀ b, ¬Within (const b) (t.normalize dropUnits)) ∧
        (∀ l, l ∈ literals true (t.normalize dropUnits) ↔ l ∈ literals true t) ∧
        (operands .or (t.normalize dropUnits)).length = clauseCount true t := by
  refine ⟨fun dropUnits t => literals_normalForm_subset dropUnits true t, fun t hconst hterms => ?_⟩
  have hproper : t.IsProper := ⟨hconst, fun op ts hw hnil => hterms op (hnil ▸ hw)⟩
  have htable : IsProperTable (clauseTable true t) := isProperTable_clauseTable hproper
  have hnormal (d : Bool) : t.normalize d = ofTable (clauseTable true t) :=
    value_normalForm_eq_ofTable hproper
  refine ⟨(hnormal true).trans (hnormal false).symm, fun dropUnits => ?_⟩
  rw [hnormal dropUnits]
  refine ⟨fun b hw => ?_, fun l => ?_, ?_⟩
  · exact ofTable_ne_const htable b
      ((isNormalForm_ofTable true htable.nil_notMem).isCanonical.eq_const hw)
  · rw [literals_ofTable, mem_flatten_clauseTable hproper]
  · rw [operands_ofTable htable, List.length_map, length_clauseTable]

/-- Below the negation the disjunction becomes a product of two tables with two clauses each. One of
the four clauses holds a literal twice and one holds two opposite ones, and all of them stay. -/
theorem normalize_keeps_literals_of_alternation :
    let t := neg (join .or [join .and [var "a", neg (var "a")],
      join .and [var "b", join .or [var "a", neg (neg (var "c"))]]])
    t.normalize true = t.normalize false ∧
    (operands .or (t.normalize false)).length = 4 ∧
    ∀ l, l ∈ literals true (t.normalize true) ↔
      l ∈ [("a", false), ("a", true), ("b", false), ("c", false)] := by
  intro t
  have hterms : literals true t =
      [("a", false), ("a", true), ("b", false), ("a", false), ("c", false)] := by decide
  obtain ⟨-, hkeeps⟩ := normalize_keeps_literals
  obtain ⟨hmodes, hclauses⟩ := hkeeps t (by simp [t]) (by simp [t])
  obtain ⟨-, hliterals, -⟩ := hclauses true
  obtain ⟨-, -, hlength⟩ := hclauses false
  refine ⟨hmodes, hlength.trans (by decide), fun l => (hliterals l).trans ?_⟩
  rw [hterms]
  simp only [List.mem_cons]
  tauto

end Formula

end Propositional
