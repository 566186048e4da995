import Mathlib.Data.List.Sort
import Mathlib.Data.Prod.Lex
import Mathlib.Data.String.Basic
import Propositional.Proofs.Evaluation.Occurrences
import Propositional.Proofs.Rendering.Rereading

/-!
# Assignments and the writes that made them

An assignment comes about by writes, one after the other, and what is left of them is the last write
to each name and whether there are defaults (`Propositional.Assignment.Built.eq_iff`). All that can
be asked of an assignment is answered from these: the value of a variable
(`Propositional.Assignment.Built.get?_eq`), with it the value of every formula, and the rendering,
which has the names that were written, each once and in their order. The order of the writes is not
to be seen in any of them, nor is any order in which a table without an order of its own may give
out its pairs (`Propositional.Assignment.mergeSort_eq_entries`).

The way back is open as well. A rendering does not show whether there are defaults, but it gives
away the pairs (`Propositional.Assignment.entries_eq_of_render_eq`), and that without any quoting:
names may have colons, commas and brackets in them. What they may not have is a space, which stands
in a rendering behind the colon of every entry and is therefore the first one in the entry if the
name has none. The statement that carries this is about one entry with any text behind it
(`Propositional.Assignment.renderEntry_append_inj`). Names in formulas that were read have no blank
in them at all.
-/

namespace Propositional

open Text

namespace Assignment

variable {s s' : Assignment} {name : String}

/-! ### Entries and what is found in them -/

/-- In increasing entries a pair stands exactly if it is what is found under its name. -/
theorem mem_iff_lookup {entries : List (String × Bool)}
    (h : entries.Pairwise fun p q => p.1 < q.1) {value : Bool} :
    (name, value) ∈ entries ↔ entries.lookup name = some value := by
  induction entries with
  | nil => simp
  | cons e rest ih =>
    obtain ⟨he, hrest⟩ := List.pairwise_cons.mp h
    obtain ⟨other, b⟩ := e
    rw [lookup_entry_cons, List.mem_cons, ih hrest, Prod.mk.injEq]
    by_cases hname : name = other
    · -- the names behind are greater, so that this one is not among them
      have hnone : rest.lookup name ≠ some value := fun hfound =>
        absurd (he _ ((ih hrest).mpr hfound)) (hname ▸ String.lt_irrefl other)
      simp [hname, hname ▸ hnone, eq_comm]
    · simp [hname]

/-- **Increasing entries are determined by what is found in them.** -/
theorem entries_eq_of_lookup {es fs : List (String × Bool)}
    (hes : es.Pairwise fun p q => p.1 < q.1) (hfs : fs.Pairwise fun p q => p.1 < q.1)
    (h : ∀ name, es.lookup name = fs.lookup name) : es = fs := by
  have : Std.Antisymm fun p q : String × Bool => p.1 < q.1 :=
    ⟨fun _ _ hpq hqp => absurd hqp (String.lt_asymm hpq)⟩
  have : Std.Irrefl fun p q : String × Bool => p.1 < q.1 := ⟨fun p => String.lt_irrefl p.1⟩
  refine hes.eq_of_mem_iff hfs ?_
  rintro ⟨name, value⟩
  rw [mem_iff_lookup hes, mem_iff_lookup hfs, h]

/-- Entries and defaults are all there is to an assignment. -/
theorem eq_iff_entries : s = s' ↔ s.defaults = s'.defaults ∧ s.entries = s'.entries := by
  constructor
  · rintro rfl
    exact ⟨rfl, rfl⟩
  · rintro ⟨hdefaults, hentries⟩
    cases s
    cases s'
    simp_all

/-- **The entries are what sorting makes of their pairs**, in whatever order these come. -/
theorem mergeSort_eq_entries {pairs : List (String × Bool)} (h : pairs.Perm s.entries) :
    pairs.mergeSort (fun p q => decide (toLex p ≤ toLex q)) = s.entries := by
  have hsorted : (pairs.mergeSort fun p q => decide (toLex p ≤ toLex q)).Pairwise
      fun p q => decide (toLex p ≤ toLex q) = true := by
    refine List.pairwise_mergeSort (fun p q r hpq hqr => ?_) (fun p q => ?_) pairs
    · exact decide_eq_true ((of_decide_eq_true hpq).trans (of_decide_eq_true hqr))
    · simpa using le_total (toLex p) (toLex q)
  refine List.Perm.eq_of_pairwise ?_ hsorted ?_ ((List.mergeSort_perm _ _).trans h)
  · intro p q _ _ hpq hqp
    exact toLex_inj.mp (le_antisymm (of_decide_eq_true hpq) (of_decide_eq_true hqp))
  · exact s.increasing.imp fun hlt => decide_eq_true (Prod.Lex.toLex_le_toLex.mpr (.inl hlt))

/-! ### Writes -/

/-- The value that the last write to a name gives to it, if there is such a write. -/
def lastWrite (writes : List (String × Bool)) (name : String) : Option Bool :=
  writes.reverse.lookup name

theorem lastWrite_cons (w : String × Bool) (writes : List (String × Bool)) (name : String) :
    lastWrite (w :: writes) name =
      (lastWrite writes name).or (if name = w.1 then some w.2 else none) := by
  rw [lastWrite, List.reverse_cons, List.lookup_append, lookup_entry_cons, List.lookup_nil]
  rfl

/-- **What is found after some writes**: the last of them to the name, or else what was there
before. -/
theorem lookup_setAll (s : Assignment) (writes : List (String × Bool)) (name : String) :
    (s.setAll writes).entries.lookup name =
      (lastWrite writes name).or (s.entries.lookup name) := by
  induction writes generalizing s with
  | nil => rfl
  | cons w writes ih =>
    have hstep : s.setAll (w :: writes) = (s.set w.1 w.2).setAll writes := rfl
    rw [hstep, ih, lastWrite_cons, Option.or_assoc, set, lookup_setEntry]
    split <;> rfl

/-- Writes do not touch the defaults. -/
theorem defaults_setAll (s : Assignment) (writes : List (String × Bool)) :
    (s.setAll writes).defaults = s.defaults := by
  induction writes generalizing s with
  | nil => rfl
  | cons w writes ih => exact ih (s.set w.1 w.2)

/-- **How an assignment comes about**, with its defaults and all writes to it in their order. -/
inductive Built : Assignment → Bool → List (String × Bool) → Prop
  /-- Nothing is written yet, and there are defaults or not. -/
  | empty (defaults : Bool) : Built (.empty defaults) defaults []
  /-- Some pairs are collected, without defaults. -/
  | pairs (writes : List (String × Bool)) :
    Built ((Assignment.empty false).setAll writes) false writes
  /-- One more variable is set. -/
  | set {s : Assignment} {defaults : Bool} {writes : List (String × Bool)} (name : String)
    (value : Bool) (h : Built s defaults writes) :
    Built (s.set name value) defaults (writes ++ [(name, value)])

section Built

variable {a b : Assignment} {d e : Bool} {ws vs : List (String × Bool)}

/-- However it came about, an assignment is an empty one after all the writes. -/
theorem Built.eq_setAll (h : Built a d ws) : a = (Assignment.empty d).setAll ws := by
  induction h with
  | empty d => rfl
  | pairs ws => rfl
  | set name value h ih =>
    rw [ih]
    simp [setAll]

theorem Built.defaults_eq (h : Built a d ws) : a.defaults = d := by
  rw [h.eq_setAll, defaults_setAll]
  rfl

theorem Built.lookup_eq (h : Built a d ws) (name : String) :
    a.entries.lookup name = lastWrite ws name := by
  rw [h.eq_setAll, lookup_setAll]
  exact Option.or_none

/-- **A variable has the value last written to it**, or else the default if there is one. -/
theorem Built.get?_eq (h : Built a d ws) (name : String) :
    a.get? name = (lastWrite ws name).or (if d then some false else none) := by
  rw [get?, h.lookup_eq, h.defaults_eq]

/-- The same entries are left exactly after the same last writes. -/
theorem Built.entries_eq_iff (ha : Built a d ws) (hb : Built b e vs) :
    a.entries = b.entries ↔ ∀ name, lastWrite ws name = lastWrite vs name := by
  constructor
  · intro h name
    rw [← ha.lookup_eq, h, hb.lookup_eq]
  · intro h
    refine entries_eq_of_lookup a.increasing b.increasing fun name => ?_
    rw [ha.lookup_eq, hb.lookup_eq, h]

/-- **Assignments are equal** exactly if their defaults and their last writes are. -/
theorem Built.eq_iff (ha : Built a d ws) (hb : Built b e vs) :
    a = b ↔ d = e ∧ ∀ name, lastWrite ws name = lastWrite vs name := by
  rw [eq_iff_entries, ha.defaults_eq, hb.defaults_eq, ha.entries_eq_iff hb]

/-- The pairs of an assignment, in any order, are its entries in that order. -/
theorem Built.perm_entries (h : Built a d ws) {pairs : List (String × Bool)}
    (hnames : (pairs.map Prod.fst).Nodup)
    (hpairs : ∀ name value, (name, value) ∈ pairs ↔ lastWrite ws name = some value) :
    pairs.Perm a.entries := by
  have hnodup : a.entries.Nodup := a.increasing.imp fun hlt heq =>
    absurd (heq ▸ hlt) (String.lt_irrefl _)
  refine (List.perm_ext_iff_of_nodup (hnames.of_map _) hnodup).mpr ?_
  rintro ⟨name, value⟩
  rw [hpairs, mem_iff_lookup a.increasing, h.lookup_eq]

end Built

/-! ### Reading a rendering -/

/-- **A name without blanks.** -/
def Unspaced (name : String) : Prop :=
  ∀ c ∈ name.toList, isBlank c = false

instance (name : String) : Decidable (Unspaced name) :=
  decidable_of_iff (name.toList.all (fun c => !isBlank c) = true) (by simp [Unspaced])

/-- What was read from a text has names without blanks. -/
theorem unspaced_of_parse {mode : LexMode} {text : String} {t : Formula}
    (h : parse mode text = .ok t) : ∀ name ∈ t.occurrences, Unspaced name :=
  fun name hname c hc => ((lexable_of_parse h name hname).plain c hc).1

theorem Unspaced.space_notMem (h : Unspaced name) : ' ' ∉ name.toList := by
  intro hmem
  exact absurd (h ' ' hmem) (by decide)

theorem toList_renderEntry (e : String × Bool) :
    (renderEntry e).toList = e.1.toList ++ ':' :: ' ' :: [if e.2 then 'T' else 'F'] := by
  obtain ⟨name, value⟩ := e
  cases value <;> simp [renderEntry]

/-- What stands behind the first entry of a rendering, up to the bracket. -/
def laterEntries (es : List (String × Bool)) : List Char :=
  es.flatMap fun e => ',' :: ' ' :: (renderEntry e).toList

theorem toList_intercalate_renderEntry (e : String × Bool) (es : List (String × Bool)) :
    (", ".intercalate ((e :: es).map renderEntry)).toList =
      (renderEntry e).toList ++ laterEntries es := by
  induction es generalizing e with
  | nil => simp [laterEntries]
  | cons f es ih =>
    rw [List.map_cons, List.map_cons, String.intercalate_cons_cons, ← List.map_cons,
      String.toList_append, ih, String.toList_append]
    simp [laterEntries]

/-- Two texts with a common separator, up to which neither has another one. -/
theorem append_cons_inj {α : Type} {x : α} {xs ys xs' ys' : List α} (hxs : x ∉ xs)
    (hxs' : x ∉ xs') (h : xs ++ x :: ys = xs' ++ x :: ys') : xs = xs' ∧ ys = ys' := by
  induction xs generalizing xs' with
  | nil =>
    cases xs' with
    | nil => exact ⟨rfl, (List.cons.inj h).2⟩
    | cons y xs' => exact absurd (List.cons.inj h).1 (fun heq => hxs' (heq ▸ .head _))
  | cons y xs ih =>
    cases xs' with
    | nil => exact absurd (List.cons.inj h).1 (fun heq => hxs (heq ▸ .head _))
    | cons y' xs' =>
      obtain ⟨rfl, htail⟩ := List.cons.inj h
      obtain ⟨rfl, hys⟩ :=
        ih (fun hmem => hxs (.tail _ hmem)) (fun hmem => hxs' (.tail _ hmem)) htail
      exact ⟨rfl, hys⟩

/-- **One entry is read from a text that begins with it**, and with it the rest of the text. -/
theorem renderEntry_append_inj {e e' : String × Bool} {rest rest' : List Char}
    (he : Unspaced e.1) (he' : Unspaced e'.1)
    (h : (renderEntry e).toList ++ rest = (renderEntry e').toList ++ rest') :
    e = e' ∧ rest = rest' := by
  obtain ⟨name, value⟩ := e
  obtain ⟨name', value'⟩ := e'
  -- the first space is the one behind the colon
  have hsplit : (name.toList ++ [':']) ++ ' ' :: (if value then 'T' else 'F') :: rest =
      (name'.toList ++ [':']) ++ ' ' :: (if value' then 'T' else 'F') :: rest' := by
    simpa [toList_renderEntry] using h
  obtain ⟨hname, htail⟩ := append_cons_inj (by simpa using he.space_notMem)
    (by simpa using he'.space_notMem) hsplit
  obtain ⟨hvalue, hrest⟩ := List.cons.inj htail
  obtain rfl : name = name' := String.toList_inj.mp (List.append_cancel_right hname)
  obtain rfl : value = value' := by
    cases value <;> cases value' <;> first | rfl | exact absurd hvalue (by decide)
  exact ⟨rfl, hrest⟩

/-- What follows the first entry is read up to the bracket. -/
theorem laterEntries_inj {es fs : List (String × Bool)} (hes : ∀ e ∈ es, Unspaced e.1)
    (hfs : ∀ f ∈ fs, Unspaced f.1) (h : laterEntries es ++ [']'] = laterEntries fs ++ [']']) :
    es = fs := by
  induction es generalizing fs with
  | nil =>
    cases fs with
    | nil => rfl
    | cons f fs => simp [laterEntries] at h
  | cons e es ih =>
    cases fs with
    | nil => simp [laterEntries] at h
    | cons f fs =>
      obtain ⟨he, hlater⟩ := List.forall_mem_cons.mp hes
      obtain ⟨hf, hlater'⟩ := List.forall_mem_cons.mp hfs
      have hfirst : (renderEntry e).toList ++ (laterEntries es ++ [']']) =
          (renderEntry f).toList ++ (laterEntries fs ++ [']']) := by
        simpa [laterEntries] using h
      obtain ⟨rfl, htail⟩ := renderEntry_append_inj he hf hfirst
      rw [ih hlater hlater' htail]

/-- **A rendering gives away the pairs**, if no name has a blank in it. -/
theorem entries_eq_of_render_eq (hs : ∀ p ∈ s.entries, Unspaced p.1)
    (hs' : ∀ p ∈ s'.entries, Unspaced p.1) (h : s.render = s'.render) :
    s.entries = s'.entries := by
  have hchars : (", ".intercalate (s.entries.map renderEntry)).toList ++ [']'] =
      (", ".intercalate (s'.entries.map renderEntry)).toList ++ [']'] := by
    simpa [render] using congrArg String.toList h
  -- an entry is more than a bracket
  have hbracket (e : String × Bool) (es : List (String × Bool)) :
      (", ".intercalate ((e :: es).map renderEntry)).toList ++ [']'] ≠ [']'] := by
    intro heq
    have hspace : ' ' ∈ [']'] := by
      rw [← heq, toList_intercalate_renderEntry, toList_renderEntry]
      simp
    exact absurd hspace (by decide)
  generalize s.entries = es at hs hchars
  generalize s'.entries = fs at hs' hchars
  match es, fs with
  | [], [] => rfl
  | [], f :: fs => exact absurd hchars.symm (hbracket f fs)
  | e :: es, [] => exact absurd hchars (hbracket e es)
  | e :: es, f :: fs =>
    rw [toList_intercalate_renderEntry, toList_intercalate_renderEntry, List.append_assoc,
      List.append_assoc] at hchars
    obtain ⟨he, hes⟩ := List.forall_mem_cons.mp hs
    obtain ⟨hf, hfs⟩ := List.forall_mem_cons.mp hs'
    obtain ⟨rfl, hlater⟩ := renderEntry_append_inj he hf hchars
    rw [laterEntries_inj hes hfs hlater]

/-- With a space in a name, one entry is written like two. -/
example : ((empty false).set "a: T, b" false).render =
    (((empty false).set "a" true).set "b" false).render := by
  decide

/-! ### What an assignment owes to its writes -/

section Built

variable {a b : Assignment} {d e : Bool} {ws vs : List (String × Bool)}

theorem mem_of_lastWrite {value : Bool} (h : lastWrite ws name = some value) :
    (name, value) ∈ ws := by
  obtain ⟨before, behind, hsplit, -⟩ := List.lookup_eq_some_iff.mp h
  rw [← List.mem_reverse, hsplit]
  simp

theorem Built.unspaced (h : Built a d ws) (hws : ∀ w ∈ ws, Unspaced w.1) :
    ∀ p ∈ a.entries, Unspaced p.1 := by
  rintro ⟨name, value⟩ hp
  rw [mem_iff_lookup a.increasing, h.lookup_eq] at hp
  exact hws _ (mem_of_lastWrite hp)

/-- **Last writes and defaults are all there is to an assignment**, and what is written down of it
is the same in whatever order the writes came and the pairs are given out. If no name has a blank
in it, as no name in a formula that was read has, then the pairs are read from the rendering. -/
theorem Built.determined (ha : Built a d ws) (hb : Built b e vs) :
    (a = b ↔ d = e ∧ ∀ name, lastWrite ws name = lastWrite vs name) ∧
    (∀ name, a.get? name = (lastWrite ws name).or (if d then some false else none) ∧
      b.get? name = (lastWrite vs name).or (if e then some false else none)) ∧
    (∀ t : Formula, d = e → (∀ name ∈ t.occurrences, lastWrite ws name = lastWrite vs name) →
      t.evaluate a = t.evaluate b) ∧
    ((∀ name, lastWrite ws name = lastWrite vs name) → a.render = b.render) ∧
    (∃ es : List (String × Bool), (es.Pairwise fun p q => p.1 < q.1) ∧
      (∀ name value, (name, value) ∈ es ↔ lastWrite ws name = some value) ∧
      a.render = "[" ++ ", ".intercalate (es.map renderEntry) ++ "]") ∧
    (∀ pairs : List (String × Bool), (pairs.map Prod.fst).Nodup →
      (∀ name value, (name, value) ∈ pairs ↔ lastWrite ws name = some value) →
      a.render = "[" ++ ", ".intercalate
        ((pairs.mergeSort fun p q => decide (toLex p ≤ toLex q)).map renderEntry) ++ "]") ∧
    ((∀ w ∈ ws ++ vs, Unspaced w.1) → a.render = b.render →
      ∀ name, lastWrite ws name = lastWrite vs name) ∧
    ∀ (mode : LexMode) (text : String) (t : Formula), parse mode text = .ok t →
      ∀ name ∈ t.occurrences, Unspaced name := by
  refine ⟨ha.eq_iff hb, fun name => ⟨ha.get?_eq name, hb.get?_eq name⟩, ?_, ?_, ?_, ?_, ?_,
    fun _ _ _ h => unspaced_of_parse h⟩
  · rintro t rfl hwrites
    refine Formula.evaluate_eq_of_occurrences fun name hname => ?_
    rw [ha.get?_eq, hb.get?_eq, hwrites name hname]
  · intro hwrites
    rw [render, (ha.entries_eq_iff hb).mpr hwrites, render]
  · refine ⟨a.entries, a.increasing, fun name value => ?_, rfl⟩
    rw [mem_iff_lookup a.increasing, ha.lookup_eq]
  · intro pairs hnames hpairs
    rw [mergeSort_eq_entries (ha.perm_entries hnames hpairs), render]
  · intro hws hrender
    obtain ⟨hws, hvs⟩ := List.forall_mem_append.mp hws
    exact (ha.entries_eq_iff hb).mp
      (entries_eq_of_render_eq (ha.unspaced hws) (hb.unspaced hvs) hrender)

/-- Two histories of the same two names, which have a colon, a comma and brackets in them. Their
renderings are equal, from which everything else follows. -/
theorem determined_of_reordered :
    ∃ a b : Assignment, Built a false [("x:", true), ("[a,]", false), ("x:", false)] ∧
      Built b false [("[a,]", true), ("x:", false), ("[a,]", false)] ∧
      a.render = "[[a,]: F, x:: F]" ∧ a = b ∧
      (∀ t : Formula, t.evaluate a = t.evaluate b) ∧
      a.render = "[" ++ ", ".intercalate (([("x:", false), ("[a,]", false)].mergeSort fun p q =>
        decide (toLex p ≤ toLex q)).map renderEntry) ++ "]" ∧
      parse .permissive "x: | [a,]" = .ok (.join .or [.var "x:", .var "[a,]"]) ∧
      Unspaced "[a,]" := by
  have ha : Built (((empty false).setAll [("x:", true), ("[a,]", false)]).set "x:" false) false
      [("x:", true), ("[a,]", false), ("x:", false)] := (Built.pairs _).set "x:" false
  have hb : Built ((((empty false).set "[a,]" true).set "x:" false).set "[a,]" false) false
      [("[a,]", true), ("x:", false), ("[a,]", false)] :=
    (((Built.empty false).set "[a,]" true).set "x:" false).set "[a,]" false
  obtain ⟨heq, -, hvalue, -, -, hsorted, hread, hnames⟩ := Built.determined ha hb
  have hwrites := hread (by decide) (by decide)
  have hparse : parse .permissive "x: | [a,]" = .ok (.join .or [.var "x:", .var "[a,]"]) := by
    exact Formula.parse_render (t := .join .or [.var "x:", .var "[a,]"]) (by decide) (by decide)
      (by decide) (shortRuns_of_length_lt (by decide))
  refine ⟨_, _, ha, hb, by decide, heq.mpr ⟨rfl, hwrites⟩,
    fun t => hvalue t rfl fun name _ => hwrites name, hsorted _ (by decide) fun name value => ?_,
    hparse, hnames _ _ _ hparse _ (by simp)⟩
  by_cases hx : name = "x:"
  · simp [lastWrite, hx, eq_comm]
  · by_cases ha : name = "[a,]" <;> simp [lastWrite, lookup_entry_cons, hx, ha, eq_comm]

end Built

end Assignment

end Propositional
