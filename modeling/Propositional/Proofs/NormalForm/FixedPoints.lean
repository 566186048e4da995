import Propositional.Proofs.NormalForm.Assembly

/-!
# Formulas that are their own normal form

A formula is its own normal form exactly if it has the shape of one
(`Propositional.Formula.normalize_eq_self_iff`). That a normal form has the shape is known
(`Propositional.Formula.isNormalForm_normalForm`); here it is shown that the shape is all there is
to it: on a formula of that shape nothing is spliced, nothing trimmed, nothing decided by a zero and
nothing distributed, so that every join is put together again as it was
(`Propositional.Formula.normalize_eq_self`).

The shape is first given in the words of `Propositional.Formula.IsCanonical`, for the formula as a
whole and the joins that stand anywhere in it, and has to be cut into layers
(`Propositional.Formula.isNormalForm_of_isDnf`). Units may stay or not, and a formula without them
has the shape in both cases; so a normal form that was made without units is one that could have
been made with them.
-/

namespace Propositional.Formula

variable {dropUnits : Bool} {n c l : Formula}

/-! ### From shapes to layers -/

/-- A clause whose terms are fit for it is one layer. -/
theorem isClauseForm_of_isClause (hclause : c.isClause = true) (hflat : c.isFlat = true)
    (hadmits : ∀ ls, c = join .and ls → ∀ l ∈ ls, Admits dropUnits .and l) :
    IsClauseForm dropUnits c := by
  match c, hclause with
  | const b, _ => exact .alone rfl
  | var name, _ => exact .alone rfl
  | neg t, hclause => exact .alone hclause
  | join .and ls, hclause =>
    have hlit : ∀ l ∈ ls, l.isLiteral = true := List.all_eq_true.mp hclause
    exact .join (isFlat_join_iff.mp hflat).1 fun l hl => ⟨hlit l hl, hadmits ls rfl l hl⟩

/-- **A flat formula in disjunctive normal form** whose joins have terms fit for them is made of
layers. -/
theorem isNormalForm_of_isDnf (hdnf : n.isDnf = true) (hflat : n.isFlat = true)
    (hadmits : ∀ op ts, Within (join op ts) n → ∀ t ∈ ts, Admits dropUnits op t) :
    IsNormalForm dropUnits n := by
  by_cases hj : n.isJoin .or = true
  · obtain ⟨cs, rfl⟩ := exists_eq_join hj
    obtain ⟨hlen, hterms⟩ := isFlat_join_iff.mp hflat
    have hclauses : ∀ c ∈ cs, c.isClause = true := List.all_eq_true.mp hdnf
    refine .join hlen fun c hc => ⟨?_, hadmits _ cs (.refl _) c hc⟩
    refine isClauseForm_of_isClause (hclauses c hc) (hterms c hc).2 ?_
    rintro ls rfl
    exact hadmits _ ls (within_join.mpr (.inr ⟨_, hc, .refl _⟩))
  · have hclause : n.isClause = true := by
      match n, hdnf, hj with
      | const b, _, _ => rfl
      | var name, _, _ => rfl
      | neg t, hdnf, _ => exact hdnf
      | join .and ls, hdnf, _ => exact hdnf
      | join .or cs, _, hj => exact absurd rfl hj
    refine .alone (isClauseForm_of_isClause hclause hflat ?_)
    rintro ls rfl
    exact hadmits _ ls (.refl _)

/-- Without units a layer is one that may have units. -/
theorem IsLayer.of_dropUnits {op : Connective} {p q : Formula → Prop} {t : Formula}
    (h : IsLayer true op p t) (himp : ∀ u, p u → q u) : IsLayer false op q t := by
  cases h with
  | alone h => exact .alone (himp t h)
  | join hlen hts =>
    exact .join hlen fun u hu => ⟨himp u (hts u hu).1, (hts u hu).2.1, nofun⟩

theorem IsNormalForm.of_dropUnits (h : IsNormalForm true n) : IsNormalForm false n :=
  IsLayer.of_dropUnits h fun _ hc => IsLayer.of_dropUnits hc fun _ hl => hl

/-! ### Nothing happens to a normal form -/

theorem value_normalForm_of_isLiteral (h : l.isLiteral = true) :
    (normalForm dropUnits true l).value = l := by
  match l, h with
  | const b, _ => simp
  | var name, _ => simp
  | neg (var name), _ => simp [normalForm_neg_eq]

/-- A clause is left alone: its literals are, and they are assembled to it. -/
theorem value_normalForm_of_isClauseForm (h : IsClauseForm dropUnits c) :
    (normalForm dropUnits true c).value = c := by
  cases h with
  | alone h => exact value_normalForm_of_isLiteral h
  | @join ls hlen hls =>
    have hmap : (ls.map fun l => (normalForm dropUnits true l).value) = ls :=
      (List.map_congr_left fun l hl => value_normalForm_of_isLiteral (hls l hl).1).trans
        (List.map_id _)
    have hclauses : ∀ l ∈ ls, IsClauseForm dropUnits l := fun l hl => .alone (hls l hl).1
    rw [value_normalForm_join, hmap]
    exact (value_conjoin_eq_assemble hclauses).trans (assemble_eq_join isBase_isLiteral hlen hls)

/-- **A normal form is left alone.** -/
theorem normalize_eq_self (h : IsNormalForm dropUnits n) : n.normalize dropUnits = n := by
  cases h with
  | alone h => exact value_normalForm_of_isClauseForm h
  | @join cs hlen hcs =>
    have hmap : (cs.map fun c => (normalForm dropUnits true c).value) = cs :=
      (List.map_congr_left fun c hc => value_normalForm_of_isClauseForm (hcs c hc).1).trans
        (List.map_id _)
    have hjoin := value_normalForm_join dropUnits true .or cs
    rw [hmap] at hjoin
    exact hjoin.trans (assemble_eq_join isBase_isClauseForm hlen hcs)

/-- **The formulas that are their own normal forms** are those of the shape of one: disjunctive,
flat, without `T` among the terms of a disjunction and `F` among those of a conjunction, and, where
units are dropped, without a constant anywhere in a join. So normalizing twice is normalizing once,
and a normal form without units is also the normal form of itself where units stay. -/
theorem normalize_eq_self_iff (dropUnits : Bool) :
    (∀ t : Formula, t.normalize dropUnits = t ↔
      t.isDnf = true ∧ t.isFlat = true ∧
      (∀ ts, Within (join .or ts) t → const true ∉ ts) ∧
      (∀ ts, Within (join .and ts) t → const false ∉ ts) ∧
      (dropUnits = true → ∀ op ts b, Within (join op ts) t → ¬Within (const b) (join op ts))) ∧
    (∀ u : Formula, (u.normalize dropUnits).normalize dropUnits = u.normalize dropUnits) ∧
    ∀ u : Formula, (u.normalize true).normalize false = u.normalize true := by
  have hnormal (d : Bool) (u : Formula) : IsNormalForm d (u.normalize d) :=
    isNormalForm_normalForm d true u
  refine ⟨fun t => ⟨fun h => ?_, ?_⟩, fun u => normalize_eq_self (hnormal dropUnits u), fun u =>
    normalize_eq_self (hnormal true u).of_dropUnits⟩
  · have hcanonical : t.IsCanonical dropUnits := by
      rw [← h]
      exact (hnormal dropUnits t).isCanonical
    refine ⟨hcanonical.isDnf, hcanonical.isFlat, hcanonical.true_notMem, fun ts hw hmem => ?_,
      hcanonical.const_notWithin⟩
    exact hcanonical.false_notWithin ts hw (within_join.mpr (.inr ⟨_, hmem, .refl _⟩))
  · rintro ⟨hdnf, hflat, htrue, hfalse, hconst⟩
    refine normalize_eq_self (isNormalForm_of_isDnf hdnf hflat fun op ts hw t ht => ⟨?_, ?_⟩)
    · rintro rfl
      cases op with
      | or => exact htrue ts hw ht
      | and => exact hfalse ts hw ht
    · rintro hd rfl
      exact hconst hd op ts _ hw (within_join.mpr (.inr ⟨_, ht, .refl _⟩))

end Propositional.Formula
