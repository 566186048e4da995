import Mathlib.Data.List.Basic
import Propositional.Counterexample
import Propositional.Proofs.Evaluation.Occurrences

/-!
# The search for a counterexample

The search of `Propositional.Assignment.search` makes every trial in one assignment and never takes
anything back, so when it comes to try `true` for a variable, the variables behind it still have the
values that the last trial with `false` has left. None of that can matter: the search sets each of
its variables and leaves all others alone (`Propositional.Assignment.continues_search`), so what is
left over is overwritten before anybody asks for it (`Propositional.Assignment.Continues.retry`).

The load-bearing statement is `Propositional.Assignment.search_of_covers`. It compares the search
with *any* assignment of the wanted property that agrees with the current one on the variables
already set, and says that the search succeeds and ends no later in the order
`Propositional.Assignment.Precedes`. That one statement is both the completeness of the search and
the minimality of what it finds; and since a formula depends on its variables only
(`Propositional.Formula.evaluate_eq_of_occurrences`), the finitely many trials speak for all
assignments whatsoever.
-/

namespace Propositional

namespace Assignment

variable {wanted : Assignment → Bool} {name : String} {names vars : List String}
  {s t u : Assignment} {b c : Bool}

/-! ### One variable of the search -/

/-- If `false` will do for the first variable, it stays. -/
theorem search_cons_of_found (h : (search wanted names (s.set name false)).1 = true) :
    search wanted (name :: names) s = search wanted names (s.set name false) :=
  if_pos h

/-- If `false` will not do, `true` is tried in what the trials with `false` have left. -/
theorem search_cons_of_failed (h : (search wanted names (s.set name false)).1 = false) :
    search wanted (name :: names) s =
      search wanted names ((search wanted names (s.set name false)).2.set name true) :=
  if_neg (by simp [h])

/-- The search asks the last assignment that it makes. -/
theorem fst_search (names : List String) (s : Assignment) :
    (search wanted names s).1 = wanted (search wanted names s).2 := by
  induction names generalizing s with
  | nil => rfl
  | cons name names ih =>
    cases hfound : (search wanted names (s.set name false)).1 with
    | true => rw [search_cons_of_found hfound, ih]
    | false => rw [search_cons_of_failed hfound, ih]

/-! ### What the search sets -/

/-- **Going on with some variables**: an assignment that has values for all of them and says of the
others what it said before. -/
structure Continues (names : List String) (s t : Assignment) : Prop where
  /-- Defaults stay defaults. -/
  defaults : t.defaults = s.defaults
  /-- The other variables keep what was said of them. -/
  get?_of_notMem : ∀ v ∉ names, t.get? v = s.get? v
  /-- The variables have values. -/
  covers : t.Covers names

/-- Going on behind a variable that has been set is going on with it. -/
theorem Continues.cons (h : Continues names (s.set name b) t) : Continues (name :: names) s t where
  defaults := h.defaults
  get?_of_notMem v hv := by
    rw [List.mem_cons, not_or] at hv
    obtain ⟨hne, hnames⟩ := hv
    rw [h.get?_of_notMem v hnames, get?_set, if_neg hne]
  covers := by
    refine List.forall_mem_cons.mpr ⟨?_, h.covers⟩
    by_cases hmem : name ∈ names
    · exact h.covers name hmem
    · rw [h.get?_of_notMem name hmem, get?_set, if_pos rfl]
      rfl

/-- **What a trial leaves is forgotten**: going on from it after the variable has been set anew is
going on from where the trial began. -/
theorem Continues.retry (h : Continues names (s.set name b) t)
    (h' : Continues names (t.set name c) u) : Continues names (s.set name c) u where
  defaults := h'.defaults.trans h.defaults
  get?_of_notMem v hv := by
    have hleft := h.get?_of_notMem v hv
    rw [get?_set] at hleft
    rw [h'.get?_of_notMem v hv, get?_set, get?_set]
    by_cases hname : v = name
    · rw [if_pos hname, if_pos hname]
    · rw [if_neg hname, if_neg hname, hleft, if_neg hname]
  covers := h'.covers

/-- **The search sets its variables** and leaves all others alone. -/
theorem continues_search (names : List String) (s : Assignment) :
    Continues names s (search wanted names s).2 := by
  induction names generalizing s with
  | nil => exact ⟨rfl, fun _ _ => rfl, by simp [Covers]⟩
  | cons name names ih =>
    have htried := ih (s.set name false)
    cases hfound : (search wanted names (s.set name false)).1 with
    | true =>
      rw [search_cons_of_found hfound]
      exact htried.cons
    | false =>
      rw [search_cons_of_failed hfound]
      exact (htried.retry (ih _)).cons

/-- What is known of the assignment with which the search ends. -/
theorem of_search_eq (h : search wanted names s = (b, t)) :
    Continues names s t ∧ wanted t = b := by
  have hcontinues : Continues names s (search wanted names s).2 := continues_search names s
  have hasked : (search wanted names s).1 = wanted (search wanted names s).2 := fst_search names s
  rw [h] at hcontinues hasked
  exact ⟨hcontinues, hasked.symm⟩

/-! ### The order of the search -/

/-- The values that an assignment has for some variables, in their order. -/
def values (s : Assignment) (names : List String) : List (Option Bool) :=
  names.map s.get?

/-- **The order of assignments** on some variables: at the first variable on which they differ, the
one that comes before says `false` and the other says `true`. -/
def Precedes (names : List String) (s t : Assignment) : Prop :=
  List.Lex (fun x y => x = some false ∧ y = some true) (s.values names) (t.values names)

/-- An assignment comes no later than another on some variables. -/
def NoLater (names : List String) (s t : Assignment) : Prop :=
  s.values names = t.values names ∨ Precedes names s t

/-- Where two assignments agree on the first variable, the others decide. -/
theorem NoLater.cons (h : NoLater names s t) (hname : s.get? name = t.get? name) :
    NoLater (name :: names) s t := by
  unfold NoLater Precedes values at h ⊢
  rw [List.map_cons, List.map_cons, hname]
  rcases h with heq | hlex
  · exact .inl (congrArg _ heq)
  · exact .inr (.cons hlex)

theorem noLater_of_false_true (hs : s.get? name = some false) (ht : t.get? name = some true) :
    NoLater (name :: names) s t :=
  .inr (.rel ⟨hs, ht⟩)

/-- Two assignments say the same of the variables `vars` apart from those that are still to be set,
the `names`. -/
def AgreeBefore (vars names : List String) (s t : Assignment) : Prop :=
  ∀ v ∈ vars, v ∉ names → s.get? v = t.get? v

/-- Setting a variable to the value that it has elsewhere. -/
theorem AgreeBefore.set (h : AgreeBefore vars (name :: names) s t) (hname : t.get? name = some b) :
    AgreeBefore vars names (s.set name b) t := by
  intro v hv hnames
  rw [get?_set]
  split
  · rename_i heq
    rw [heq, hname]
  · rename_i hne
    exact h v hv (List.not_mem_cons_of_ne_of_not_mem hne hnames)

/-- A trial that came to nothing changes none of the variables set before. -/
theorem AgreeBefore.of_continues (h : AgreeBefore vars (name :: names) s t)
    (hu : Continues (name :: names) s u) : AgreeBefore vars (name :: names) u t := by
  intro v hv hnames
  rw [hu.get?_of_notMem v hnames, h v hv hnames]

/-- **The search finds whatever there is, and nothing later**: if some assignment of the wanted
property has values for the variables of the search, and agrees on the others with the assignment
that the search starts from, then the search succeeds and ends no later than there. -/
theorem search_of_covers (hnodup : names.Nodup)
    (hwanted : ∀ s t : Assignment, (∀ v ∈ vars, s.get? v = t.get? v) → wanted s = wanted t)
    (hagree : AgreeBefore vars names s t) (hcovers : t.Covers names) (ht : wanted t = true) :
    (search wanted names s).1 = true ∧ NoLater names (search wanted names s).2 t := by
  induction names generalizing s with
  | nil =>
    have hst : wanted s = wanted t := hwanted s t fun v hv => hagree v hv (by simp)
    exact ⟨hst.trans ht, .inl rfl⟩
  | cons name names ih =>
    obtain ⟨hname, hnodup⟩ := List.nodup_cons.mp hnodup
    obtain ⟨hvalue, hcovers⟩ := List.forall_mem_cons.mp hcovers
    obtain ⟨value, hvalue⟩ := Option.isSome_iff_exists.mp hvalue
    -- a variable that was set stays as it is while the variables behind it are tried
    have hset (r : Assignment) (b : Bool) :
        (search wanted names (r.set name b)).2.get? name = some b := by
      rw [(continues_search names (r.set name b)).get?_of_notMem name hname, get?_set, if_pos rfl]
    have htried : Continues (name :: names) s (search wanted names (s.set name false)).2 :=
      (continues_search names _).cons
    cases hfound : (search wanted names (s.set name false)).1 with
    | true =>
      rw [search_cons_of_found hfound]
      refine ⟨hfound, ?_⟩
      cases value with
      | false =>
        obtain ⟨-, hle⟩ := ih hnodup (hagree.set hvalue) hcovers
        exact hle.cons ((hset s false).trans hvalue.symm)
      | true => exact noLater_of_false_true (hset s false) hvalue
    | false =>
      -- then the given assignment has `true` here, or the trial with `false` would have found one
      have hvalue : t.get? name = some true := by
        cases value with
        | false =>
          obtain ⟨hfound', -⟩ := ih hnodup (hagree.set hvalue) hcovers
          rw [hfound'] at hfound
          cases hfound
        | true => exact hvalue
      rw [search_cons_of_failed hfound]
      obtain ⟨hsucceeds, hle⟩ := ih hnodup ((hagree.of_continues htried).set hvalue) hcovers
      exact ⟨hsucceeds, hle.cons ((hset _ true).trans hvalue.symm)⟩

end Assignment

/-! ### Counterexamples -/

namespace Formula

theorem nodup_eraseDups (names : List String) : names.eraseDups.Nodup := by
  match names with
  | [] => exact List.nodup_nil
  | name :: names =>
    rw [List.eraseDups_cons]
    refine List.nodup_cons.mpr ⟨by simp, nodup_eraseDups _⟩
termination_by names.length
decreasing_by
  have := List.length_filter_le (fun b => !b == name) names
  rw [List.length_cons]
  omega

theorem mem_namesOfBoth {a b : Formula} {name : String} :
    name ∈ namesOfBoth a b ↔ name ∈ a.occurrences ∨ name ∈ b.occurrences := by
  rw [namesOfBoth, List.mem_eraseDups, List.mem_append]

/-- The property that is searched for depends on the variables of the two formulas only. -/
theorem evaluate_bne_eq {a b : Formula} {s t : Assignment}
    (h : ∀ v ∈ namesOfBoth a b, s.get? v = t.get? v) :
    (a.evaluate s != b.evaluate s) = (a.evaluate t != b.evaluate t) := by
  have ha : a.evaluate s = a.evaluate t :=
    evaluate_eq_of_occurrences fun v hv => h v (mem_namesOfBoth.mpr (.inl hv))
  have hb : b.evaluate s = b.evaluate t :=
    evaluate_eq_of_occurrences fun v hv => h v (mem_namesOfBoth.mpr (.inr hv))
  rw [ha, hb]

/-- The assignment that is found is the one with which the search ends. -/
theorem counterexample_eq_some_iff {a b : Formula} {w : Assignment} :
    a.counterexample b = some w ↔
      Assignment.search (fun s => a.evaluate s != b.evaluate s) (namesOfBoth a b) (.empty false) =
        (true, w) := by
  rw [counterexample]
  generalize Assignment.search (fun s => a.evaluate s != b.evaluate s) (namesOfBoth a b)
    (.empty false) = tried
  obtain ⟨found, t⟩ := tried
  cases found <;> simp

/-- Any assignment of all variables that tells the formulas apart makes the search find one, which
comes no later. -/
theorem exists_counterexample {a b : Formula} {s : Assignment} (hs : s.Covers (namesOfBoth a b))
    (hne : a.evaluate s ≠ b.evaluate s) :
    ∃ w, a.counterexample b = some w ∧ Assignment.NoLater (namesOfBoth a b) w s := by
  have hagree : Assignment.AgreeBefore (namesOfBoth a b) (namesOfBoth a b) (.empty false) s :=
    fun v hv hnot => absurd hv hnot
  have hwanted : (a.evaluate s != b.evaluate s) = true := by simpa using hne
  obtain ⟨hfound, hle⟩ := Assignment.search_of_covers (nodup_eraseDups _)
    (fun _ _ => evaluate_bne_eq) hagree hs hwanted
  exact ⟨_, counterexample_eq_some_iff.mpr (Prod.ext hfound rfl), hle⟩

/-- **What is found**: an assignment without defaults of the variables of the two formulas, and of
no other variables, which tells them apart. -/
theorem of_counterexample_eq_some {a b : Formula} {w : Assignment}
    (h : a.counterexample b = some w) :
    Assignment.Continues (namesOfBoth a b) (.empty false) w ∧ a.evaluate w ≠ b.evaluate w := by
  obtain ⟨hcontinues, hwanted⟩ := Assignment.of_search_eq (counterexample_eq_some_iff.mp h)
  exact ⟨hcontinues, by simpa using hwanted⟩

/-- **The search for a counterexample decides equivalence, and what it finds comes first.** It finds
nothing exactly if the formulas have the same value under every assignment, with or without
defaults, that has values for the variables of both. Otherwise it finds an assignment without
defaults that has values for these variables and no other, under which both formulas have values and
not the same, and which comes before all others that tell them apart, in the order of the variables
as they occur first in the one formula and then in the other, with `false` before `true`. -/
theorem counterexample_decides (a b : Formula) :
    (a.counterexample b = none ↔
      ∀ s : Assignment, s.Covers (namesOfBoth a b) → a.evaluate s = b.evaluate s) ∧
    ∀ w, a.counterexample b = some w →
      w.defaults = false ∧
      (∀ name, (w.get? name).isSome = true ↔ name ∈ a.occurrences ∨ name ∈ b.occurrences) ∧
      (∃ x y, a.evaluate w = some x ∧ b.evaluate w = some y ∧ x ≠ y) ∧
      ∀ s : Assignment, s.Covers (namesOfBoth a b) → a.evaluate s ≠ b.evaluate s →
        Assignment.NoLater (namesOfBoth a b) w s := by
  have hfound (w : Assignment) (hw : a.counterexample b = some w) :
      w.Covers (namesOfBoth a b) ∧ a.evaluate w ≠ b.evaluate w :=
    ⟨(of_counterexample_eq_some hw).1.covers, (of_counterexample_eq_some hw).2⟩
  refine ⟨⟨fun hnone s hs => ?_, fun hequal => ?_⟩, fun w hw => ?_⟩
  · by_contra hne
    obtain ⟨w, hw, -⟩ := exists_counterexample hs hne
    rw [hnone] at hw
    cases hw
  · refine Option.eq_none_iff_forall_ne_some.mpr fun w hw => ?_
    exact (hfound w hw).2 (hequal w (hfound w hw).1)
  · obtain ⟨hcontinues, hne⟩ := of_counterexample_eq_some hw
    refine ⟨hcontinues.defaults, fun name => ⟨fun hsome => ?_, fun hname => ?_⟩, ?_, ?_⟩
    · by_contra hnot
      rw [hcontinues.get?_of_notMem name (mem_namesOfBoth.not.mpr hnot)] at hsome
      cases hsome
    · exact hcontinues.covers name (mem_namesOfBoth.mpr hname)
    · have ha : (a.evaluate w).isSome = true :=
        isSome_evaluate fun v hv => hcontinues.covers v (mem_namesOfBoth.mpr (.inl hv))
      have hb : (b.evaluate w).isSome = true :=
        isSome_evaluate fun v hv => hcontinues.covers v (mem_namesOfBoth.mpr (.inr hv))
      obtain ⟨x, hx⟩ := Option.isSome_iff_exists.mp ha
      obtain ⟨y, hy⟩ := Option.isSome_iff_exists.mp hb
      refine ⟨x, y, hx, hy, fun hxy => hne ?_⟩
      rw [hx, hy, hxy]
    · intro s hs hne'
      obtain ⟨w', hw', hle⟩ := exists_counterexample hs hne'
      obtain rfl : w = w' := Option.some.inj (hw.symm.trans hw')
      exact hle

/-- Two formulas with the variables `q`, `p` and `r`, in this order, and an assignment that tells
them apart with a default for `p`. What is found comes before it, though `p` comes before `q` as a
name. -/
theorem counterexample_in_order_of_occurrence :
    (join .and [var "q", var "p"]).counterexample (join .or [var "p", var "r"]) =
      some ((((Assignment.empty false).set "q" false).set "p" false).set "r" true) ∧
    Assignment.NoLater ["q", "p", "r"]
      ((((Assignment.empty false).set "q" false).set "p" false).set "r" true)
      (((Assignment.empty true).set "q" true).set "r" true) := by
  have hfound : (join .and [var "q", var "p"]).counterexample (join .or [var "p", var "r"]) =
      some ((((Assignment.empty false).set "q" false).set "p" false).set "r" true) := by decide
  have hnames : namesOfBoth (join .and [var "q", var "p"]) (join .or [var "p", var "r"]) =
      ["q", "p", "r"] := by decide
  have hcovers : (((Assignment.empty true).set "q" true).set "r" true).Covers ["q", "p", "r"] := by
    unfold Assignment.Covers
    decide
  obtain ⟨-, -, -, hfirst⟩ := (counterexample_decides _ _).2 _ hfound
  rw [hnames] at hfirst
  exact ⟨hfound, hfirst _ hcovers (by decide)⟩

end Formula

end Propositional
