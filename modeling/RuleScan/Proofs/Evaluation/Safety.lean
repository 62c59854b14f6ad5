import RuleScan.Evaluation.Clauses
import RuleScan.Proofs.Evaluation.Records
import RuleScan.Proofs.Query.Matching
import RuleScan.Proofs.Query.Parsing

/-! Clauses that cannot fail. Main statement: a sound clause whose names are no inherent ones gives matches,
unless its budget halts it. -/
namespace RuleScan

open Counted

namespace Counted

variable {α β : Type}

/-- `m` gives a result with a property, unless it is halted. -/
def Returns (m : Counted α) (P : α → Prop) : Prop := ∃ a, EndsIn m (.ok a) ∧ P a

variable {m : Counted α} {P Q : α → Prop}

theorem returns_pure {a : α} (h : P a) : Returns (pure a) P := ⟨a, endsIn_pure a, h⟩

theorem returns_ofExcept {ε : Type} {wrap : ε → EvalError} {x : Except ε α} {a : α} (hx : x = .ok a) (h : P a) :
    Returns (ofExcept wrap x) P := by
  subst hx
  exact returns_pure h

theorem returns_ofExcept_bind {ε : Type} {wrap : ε → EvalError} {x : Except ε α} {a : α} {f : α → Counted β}
    {R : β → Prop} (hx : x = .ok a) (h : Returns (f a) R) : Returns (ofExcept wrap x >>= f) R := by
  subst hx
  exact h

theorem Returns.bind {f : α → Counted β} {R : β → Prop} (hm : Returns m P) (hf : ∀ a, P a → Returns (f a) R) :
    Returns (m >>= f) R := by
  obtain ⟨a, ha, hp⟩ := hm
  obtain ⟨b, hb, hr⟩ := hf a hp
  exact ⟨b, ha.bind_ok hb, hr⟩

theorem Returns.step_bind (h : Returns m P) : Returns (step >>= fun _ => m) P := by
  obtain ⟨a, ha, hp⟩ := h
  exact ⟨a, ha.step_bind, hp⟩

end Counted

/-- No name is one that every record answers to by itself. -/
def Plain (names : List String) : Prop := ∀ name ∈ names, name ∉ Bindings.inherent

namespace Bindings

variable {b : Bindings} {name : String} {n : Node}

theorem mem_of_lookup (h : b.lookup name = some n) : (name, n) ∈ b := by
  obtain ⟨l₁, l₂, rfl, -⟩ := List.lookup_eq_some_iff.mp h
  exact List.mem_append_right _ List.mem_cons_self

theorem meaning_eq_node_iff : b.meaning name = .node n ↔ b.lookup name = some n := by
  unfold meaning
  cases b.lookup name with
  | some m => simp
  | none =>
    simp only [inherited, reduceCtorEq, iff_false]
    split <;> simp

theorem meaning_eq_nothing_iff : b.meaning name = .nothing ↔ b.lookup name = none ∧ name ∉ inherent := by
  unfold meaning
  cases b.lookup name with
  | some m => simp
  | none => simp [inherited]

theorem mem_of_meaning (h : b.meaning name = .node n) : (name, n) ∈ b := mem_of_lookup (meaning_eq_node_iff.mp h)

theorem meaning_eq_noNode_iff : b.meaning name = .noNode ↔ b.lookup name = none ∧ name ∈ inherent := by
  unfold meaning
  cases b.lookup name with
  | some m => simp
  | none => simp [inherited]

theorem meaning_ne_noNode (h : name ∉ inherent) (b : Bindings) : b.meaning name ≠ .noNode :=
  fun he => h (meaning_eq_noNode_iff.mp he).2

end Bindings

theorem exists_bind_eq_ok {ε α β : Type} {x : Except ε α} {f : α → Except ε β} (hx : ∃ a, x = .ok a)
    (hf : ∀ a, ∃ b, f a = .ok b) : ∃ b, x >>= f = .ok b := by
  obtain ⟨a, rfl⟩ := hx
  exact hf a

namespace Constraint

structure Sound (declared : List String) (c : Constraint) : Prop where
  capture : c.capture ∈ declared
  mustMatch : ∀ source ∈ c.mustMatch, ∃ program, Regex.compile source "" = .ok program
  mustNotMatch : ∀ source ∈ c.mustNotMatch, ∃ program, Regex.compile source "" = .ok program

namespace Test

theorem exists_matchesText_eq_ok {source : String} (h : ∃ program, Regex.compile source "" = .ok program)
    (text : Units) : ∃ b, matchesText text (Regex.compile source "") = .ok b := by
  obtain ⟨program, hp⟩ := h
  exact ⟨_, by rw [hp]; rfl⟩

variable {declared : List String} {c : Constraint}

theorem exists_holdsOf_eq_ok (h : c.Sound declared) (text : Units) (kind : String) :
    ∃ b, c.compile.holdsOf text kind = .ok b := by
  have hmatch : ∀ p, c.compile.mustMatch = some p → ∃ b, matchesText text p = .ok b := by
    intro p hp
    obtain ⟨source, hs, rfl⟩ := Option.map_eq_some_iff.mp hp
    exact exists_matchesText_eq_ok (h.mustMatch source hs) text
  have hnotMatch : ∀ p, c.compile.mustNotMatch = some p → ∃ b, matchesText text p = .ok b := by
    intro p hp
    obtain ⟨source, hs, rfl⟩ := Option.map_eq_some_iff.mp hp
    exact exists_matchesText_eq_ok (h.mustNotMatch source hs) text
  unfold holdsOf
  dsimp only
  repeat' first
    | exact ⟨_, rfl⟩
    | refine exists_bind_eq_ok (hmatch _ ‹_›) fun b => ?_
    | refine exists_bind_eq_ok (hnotMatch _ ‹_›) fun b => ?_
    | split

theorem exists_holds_eq_ok (h : c.Sound declared) (hd : Plain declared) (source : Units) (bindings : Bindings) :
    ∃ b, c.compile.holds source bindings = .ok b := by
  have hne := Bindings.meaning_ne_noNode (hd c.capture h.capture) bindings
  unfold holds
  split
  · exact exists_holdsOf_eq_ok h _ _
  · exact ⟨_, rfl⟩
  · next he => exact absurd he hne

theorem exists_allHold_eq_ok {constraints : List Constraint} (h : ∀ c ∈ constraints, c.Sound declared)
    (hd : Plain declared) (source : Units) (bindings : Bindings) :
    ∃ b, allHold source bindings (constraints.map Constraint.compile) = .ok b := by
  induction constraints with
  | nil => exact ⟨true, rfl⟩
  | cons c rest ih =>
    obtain ⟨hc, hrest⟩ := List.forall_mem_cons.mp h
    obtain ⟨b, hb⟩ := exists_holds_eq_ok hc hd source bindings
    rw [List.map_cons, allHold, hb]
    cases b with
    | true => exact ih hrest
    | false => exact ⟨false, rfl⟩

end Test

end Constraint

namespace Match

/-- The match binds only some names, and its record has no node as its base. -/
structure Binds (names : List String) (m : Match) : Prop where
  bound : ∀ x ∈ m.bindings, x.1 ∈ names
  base : m.base = none

def AllBind (names : List String) (ms : List Match) : Prop := ∀ m ∈ ms, m.Binds names

theorem mem_of_mem_distinct {m : Match} {ms : List Match} {seen : List String} (h : m ∈ distinct ms seen) :
    m ∈ ms := by
  induction ms generalizing seen with
  | nil => cases h
  | cons x rest ih =>
    rw [distinct] at h
    split at h
    · exact List.mem_cons_of_mem _ (ih h)
    · rcases List.mem_cons.mp h with rfl | h
      · exact List.mem_cons_self
      · exact List.mem_cons_of_mem _ (ih h)

theorem exists_of_mem_union {m : Match} {results : List (List Match)} (h : m ∈ union results) :
    ∃ ms ∈ results, m ∈ ms := List.mem_flatten.mp (List.mem_mergeSort.mp (mem_of_mem_distinct h))

end Match

namespace Regex.Program

variable {p : Regex.Program} {text : Units}

private theorem sublist_of_matchAt? {i : Nat} {found : Found} (h : p.matchAt? text i = some found) :
    (found.named.map (·.1)).Sublist (p.names.map (·.1)) := by
  obtain ⟨y, -, rfl⟩ := Option.map_eq_some_iff.mp h
  dsimp only
  induction p.names with
  | nil => exact .slnil
  | cons x rest ih =>
    rw [List.filterMap_cons]
    split
    · exact ih.cons _
    · next z hz =>
      obtain ⟨range, -, rfl⟩ := Option.map_eq_some_iff.mp hz
      exact ih.cons_cons _

private theorem sublist_of_searchFrom {fuel i : Nat} {found : Found} (h : p.searchFrom text fuel i = some found) :
    (found.named.map (·.1)).Sublist (p.names.map (·.1)) := by
  induction fuel generalizing i with
  | zero => cases h
  | succ fuel ih =>
    rw [searchFrom] at h
    split at h
    · cases h
    split at h
    · next hm =>
      cases h
      exact sublist_of_matchAt? hm
    · exact ih h

/-- The groups that a match holds are some of those that the expression names, in their order. -/
theorem sublist_of_mem_all {found : Found} (h : found ∈ p.all text) :
    (found.named.map (·.1)).Sublist (p.names.map (·.1)) := by
  have hfrom : ∀ fuel i, found ∈ p.allFrom text fuel i → (found.named.map (·.1)).Sublist (p.names.map (·.1)) := by
    intro fuel
    induction fuel with
    | zero => exact nofun
    | succ fuel ih =>
      intro i h
      rw [allFrom] at h
      split at h
      · cases h
      · next m hm =>
        rcases List.mem_cons.mp h with rfl | h
        · exact sublist_of_searchFrom hm
        · exact ih _ h
  exact hfrom _ _ h

/-- A match holds only groups that the expression names. -/
theorem named_of_mem_all {found : Found} (h : found ∈ p.all text) :
    ∀ x ∈ found.named, x.1 ∈ p.names.map (·.1) :=
  fun _ hx => (sublist_of_mem_all h).subset (List.mem_map_of_mem hx)

end Regex.Program

namespace Bindings

theorem placeKey_perm (name : String) (node : Node) (b : Bindings) : (placeKey name node b).Perm ((name, node) :: b) := by
  induction b with
  | nil => exact List.Perm.refl _
  | cons y rest ih =>
    rw [placeKey]
    by_cases hbefore : walksBefore name y.1 = true
    · rw [if_pos hbefore]
    · rw [if_neg hbefore]
      exact (ih.cons y).trans (List.Perm.swap _ _ _)

/-- Walking the bindings passes each of them once. -/
theorem walked_perm (b : Bindings) : b.walked.Perm b := by
  have hfold (placed : Bindings) : (b.foldl (fun placed x => placeKey x.1 x.2 placed) placed).Perm (b ++ placed) := by
    induction b generalizing placed with
    | nil => exact List.Perm.refl _
    | cons x rest ih =>
      have hplaced : (placeKey x.1 x.2 placed).Perm (x :: placed) := placeKey_perm x.1 x.2 placed
      exact (ih _).trans ((hplaced.append_left rest).trans List.perm_middle)
  have hall := hfold []
  rw [List.append_nil] at hall
  exact hall

theorem mem_walked_iff {b : Bindings} {x : String × Node} : x ∈ b.walked ↔ x ∈ b := (walked_perm b).mem_iff

/-- Adding bindings to others binds nothing else. -/
theorem mem_of_mergeOnto {a b merged : Bindings} (h : a.mergeOnto b = .ok (some merged)) :
    ∀ x ∈ merged, x ∈ a ∨ x ∈ b := by
  induction b generalizing a with
  | nil =>
    cases h
    exact fun x hx => .inl hx
  | cons y rest ih =>
    obtain ⟨name, node⟩ := y
    rw [mergeOnto] at h
    intro x hx
    split at h
    · split at h
      · exact (ih h x hx).imp_right (List.mem_cons_of_mem _)
      · cases h
    · rcases ih h x hx with ha | hb
      · rcases List.mem_append.mp ha with ha | ha
        · exact .inl ha
        · exact .inr (List.mem_singleton.mp ha ▸ List.mem_cons_self)
      · exact .inr (List.mem_cons_of_mem _ hb)
    · cases h

/-- Adding bindings asks only for their names. -/
theorem exists_mergeOnto_eq_ok {a b : Bindings} (h : Plain (b.map (·.1))) : ∃ merged, a.mergeOnto b = .ok merged := by
  induction b generalizing a with
  | nil => exact ⟨some a, rfl⟩
  | cons y rest ih =>
    obtain ⟨name, node⟩ := y
    obtain ⟨hname, hrest⟩ := List.forall_mem_cons.mp h
    have hne := meaning_ne_noNode hname a
    rw [mergeOnto]
    split
    · split
      · exact ih hrest
      · exact ⟨none, rfl⟩
    · exact ih hrest
    · next he => exact absurd he hne

/-- Merging binds nothing else. -/
theorem mem_of_merge {a b merged : Bindings} (h : a.merge b = .ok (some merged)) : ∀ x ∈ merged, x ∈ a ∨ x ∈ b := by
  intro x hx
  have hboth := mem_of_mergeOnto h x hx
  rw [mem_walked_iff] at hboth
  exact hboth

/-- Merging asks only for the names of the second bindings. -/
theorem exists_merge_eq_ok {a b : Bindings} (h : Plain (b.map (·.1))) : ∃ merged, a.merge b = .ok merged := by
  have hwalked : Plain (b.walked.map (·.1)) := fun name hname => h name (((walked_perm b).map _).mem_iff.mp hname)
  exact exists_mergeOnto_eq_ok hwalked

end Bindings

/-- With a test that never fails, the matches of a query are found, each a solution of its pattern. -/
theorem Query.Compiled.returns_findMatches (c : Compiled) (tree : Tree) {accept : Bindings → Counted Bool}
    (h : ∀ env, ∃ b, EndsIn (accept env) (.ok b)) :
    Returns (c.findMatches tree accept) fun found => ∀ x ∈ found, Solves tree.source c.pattern x.1 [] x.2 := by
  choose test htest using h
  refine ⟨_, c.endsIn_findMatches_pick tree htest, ?_⟩
  intro x hx
  obtain ⟨node, -, hn⟩ := List.mem_filterMap.mp hx
  obtain ⟨env, hp, rfl⟩ := Option.map_eq_some_iff.mp hn
  exact (accepts_of_pick hp).1

namespace Clause

mutual

/-- The names that a clause declares at any depth: the captures of its queries, and the groups of its
expressions as they are written and as they are compiled. -/
def declared : Clause → List String
  | .structural query _ _ =>
    match Query.parse query with
    | .ok q => q.captureNames
    | .error _ => []
  | .textual regex flags _ =>
    Textual.groupNames regex ++
      match Regex.compile regex (Textual.flags flags) with
      | .ok program => program.names.map (·.1)
      | .error _ => []
  | .all clauses => declaredEach clauses
  | .any clauses => declaredEach clauses
  | .guard _ clause => clause.declared
  | .shared _ clause => clause.declared
  | .other _ => []

def declaredEach : List Clause → List String
  | [] => []
  | c :: rest => c.declared ++ declaredEach rest

end

/-- A clause that can be evaluated: queries and expressions compile, a focus and constraints are about
declared captures, and guards stand under an 'all' clause beside a positive clause. -/
inductive Sound : Clause → Prop
  | structural {query : String} {focus : Option String} {constraints : Option (List Constraint)} {q : Query}
      (parses : Query.parse query = .ok q) (focus_mem : ∀ f ∈ focus, f ∈ q.captureNames)
      (constrained : ∀ c ∈ constraints.getD [], c.Sound q.captureNames) :
      Sound (.structural query focus constraints)
  | textual {regex : String} {flags : Option String} {constraints : Option (List Constraint)}
      {program : Regex.Program} (compiles : Regex.compile regex (Textual.flags flags) = .ok program)
      (constrained : ∀ c ∈ constraints.getD [], c.Sound (Textual.groupNames regex)) :
      Sound (.textual regex flags constraints)
  | any {clauses : List Clause} (positive : ∀ c ∈ clauses, c.isGuard = false) (each : ∀ c ∈ clauses, Sound c) :
      Sound (.any clauses)
  | all {clauses : List Clause} (positive : ∃ c ∈ clauses, c.isGuard = false) (each : ∀ c ∈ clauses, Sound c) :
      Sound (.all clauses)
  | guard {kind : GuardKind} {clause : Clause} (positive : clause.isGuard = false) (inner : Sound clause) :
      Sound (.guard kind clause)

theorem Sound.each {clauses : List Clause} (h : (Clause.all clauses).Sound) : ∀ c ∈ clauses, c.Sound := by
  cases h with
  | all positive each => exact each

theorem Sound.exists_positive {clauses : List Clause} (h : (Clause.all clauses).Sound) :
    ∃ c ∈ clauses, c.isGuard = false := by
  cases h with
  | all positive each => exact positive

theorem declared_subset_of_mem {c : Clause} {clauses : List Clause} (h : c ∈ clauses) :
    c.declared ⊆ declaredEach clauses := by
  induction clauses with
  | nil => cases h
  | cons d rest ih =>
    rw [declaredEach]
    rcases List.mem_cons.mp h with rfl | h
    · exact List.subset_append_left _ _
    · exact fun x hx => List.mem_append_right _ (ih h hx)

/-- The reported match keeps what was bound. -/
theorem exists_focused_eq_ok {focus : Option String} (h : ∀ f ∈ focus, f ∉ Bindings.inherent) (node : Node)
    (bindings : Bindings) : ∃ m, focused focus node bindings = .ok m ∧ m.bindings = bindings ∧ m.base = none := by
  unfold focused
  split
  · exact ⟨_, rfl, rfl, rfl⟩
  · next name =>
    have hne := Bindings.meaning_ne_noNode (h name rfl) bindings
    split
    · exact ⟨_, rfl, rfl, rfl⟩
    · exact ⟨_, rfl, rfl, rfl⟩
    · next he => exact absurd he hne

section Evaluation

variable {names : List String} (hplain : Plain names)

include hplain

theorem returns_structuralMatches {query : String} {focus : Option String} {constraints : List Constraint}
    {q : Query} (hparse : Query.parse query = .ok q) (hfocus : ∀ f ∈ focus, f ∈ q.captureNames)
    (hconstraints : ∀ c ∈ constraints, c.Sound q.captureNames) (hnames : q.captureNames ⊆ names) (tree : Tree) :
    Returns (structuralMatches tree query focus constraints) (Match.AllBind names) := by
  have hq : Plain q.captureNames := fun name h => hplain name (hnames h)
  obtain ⟨compiled, hcompile, hpattern⟩ := Query.compile_of_parse hparse
  unfold structuralMatches
  refine returns_ofExcept_bind hparse (returns_ofExcept_bind hcompile ?_)
  refine (compiled.returns_findMatches tree ?_).bind ?_
  · intro env
    split
    · obtain ⟨b, hb⟩ := Constraint.Test.exists_allHold_eq_ok hconstraints hq tree.source env
      rw [hb]
      exact ⟨b, endsIn_pure b⟩
    · exact ⟨false, endsIn_pure false⟩
  · intro found hfound
    have hfocused : ∀ x ∈ found, ∃ m, focused focus x.1 x.2 = .ok m := by
      intro x _
      obtain ⟨m, hm, -⟩ := exists_focused_eq_ok (fun f hf => hq f (hfocus f hf)) x.1 x.2
      exact ⟨m, hm⟩
    obtain ⟨ms, hms⟩ := Query.mapM_eq_ok hfocused
    refine returns_ofExcept hms ?_
    intro m hm
    obtain ⟨x, hx, he⟩ := Query.exists_of_mapM hms m hm
    obtain ⟨m', hm', hb, hbase⟩ := exists_focused_eq_ok (fun f hf => hq f (hfocus f hf)) x.1 x.2
    obtain rfl : m' = m := Except.ok.inj (hm'.symm.trans he)
    have hsolves := hfound x hx
    rw [hpattern] at hsolves
    exact ⟨fun y hy => hnames (Query.mem_captureNames_of_solves hparse hsolves (hb ▸ hy)), hbase⟩

theorem returns_textualMatches {constraints : List Constraint} {declared : List String}
    (hconstraints : ∀ c ∈ constraints, c.Sound declared) (hdeclared : declared ⊆ names) (tree : Tree)
    (lines : LineIndex) {found : List Regex.Found} (hfound : ∀ f ∈ found, ∀ x ∈ f.named, x.1 ∈ names) :
    Returns (textualMatches tree lines (constraints.map Constraint.compile) found) (Match.AllBind names) := by
  have hd : Plain declared := fun name h => hplain name (hdeclared h)
  induction found with
  | nil => exact returns_pure nofun
  | cons f rest ih =>
    obtain ⟨hf, hrest⟩ := List.forall_mem_cons.mp hfound
    rw [textualMatches]
    refine Returns.step_bind ?_
    split
    · exact ih hrest
    have hbase : Bindings.baseName ∉ f.named.map (·.1) := by
      intro hmem
      obtain ⟨x, hx, he⟩ := List.mem_map.mp hmem
      exact hplain x.1 (hf x hx) (he ▸ by decide)
    refine returns_ofExcept_bind (Textual.bindings_of_notMem hbase) ?_
    obtain ⟨b, hb⟩ := Constraint.Test.exists_allHold_eq_ok hconstraints hd tree.source
      (Textual.groups tree.source lines f)
    refine returns_ofExcept_bind hb ?_
    cases b with
    | true =>
      refine (ih hrest).bind fun ms hms => returns_pure ?_
      refine List.forall_mem_cons.mpr ⟨⟨?_, rfl⟩, hms⟩
      intro x hx
      obtain ⟨y, hy, rfl⟩ := List.mem_map.mp hx
      exact hf y hy
    | false => exact ih hrest

theorem exists_joinFirst_eq_ok {candidate : Match} {others : List Match} (ho : Match.AllBind names others)
    (hc : candidate.Binds names) :
    ∃ joined, joinFirst candidate others = .ok joined ∧ ∀ m ∈ joined, m.Binds names := by
  induction others with
  | nil => exact ⟨none, rfl, nofun⟩
  | cons m rest ih =>
    obtain ⟨hm, hrest⟩ := List.forall_mem_cons.mp ho
    rw [joinFirst]
    split
    · have hb : Plain (m.bindings.map (·.1)) := by
        intro name h
        obtain ⟨x, hx, rfl⟩ := List.mem_map.mp h
        exact hplain x.1 (hm.bound x hx)
      obtain ⟨merged, he⟩ := Bindings.exists_merge_eq_ok (a := candidate.bindings) hb
      rw [he]
      cases merged with
      | none => exact ih hrest
      | some b =>
        refine ⟨some { candidate with bindings := b, base := none }, rfl, ?_⟩
        intro j hj
        obtain rfl := Option.some.inj hj
        refine ⟨fun x hx => ?_, rfl⟩
        rcases Bindings.mem_of_merge he x hx with h | h
        · exact hc.bound x h
        · exact hm.bound x h
    · exact ih hrest

theorem returns_narrow {others candidates : List Match} (ho : Match.AllBind names others)
    (hc : Match.AllBind names candidates) : Returns (narrow others candidates) (Match.AllBind names) := by
  induction candidates with
  | nil => exact returns_pure nofun
  | cons m rest ih =>
    obtain ⟨hm, hrest⟩ := List.forall_mem_cons.mp hc
    obtain ⟨joined, hj, hb⟩ := exists_joinFirst_eq_ok hplain ho hm
    rw [narrow]
    refine Returns.step_bind (returns_ofExcept_bind hj ?_)
    cases joined with
    | none => exact ih hrest
    | some j => exact (ih hrest).bind fun ms hms => returns_pure (List.forall_mem_cons.mpr ⟨hb j rfl, hms⟩)

omit hplain in
theorem returns_guardPass {candidates : List Match} (hc : Match.AllBind names candidates) (kind : GuardKind)
    (others : List Match) : Returns (guardPass kind others candidates) (Match.AllBind names) := by
  induction candidates with
  | nil => exact returns_pure nofun
  | cons m rest ih =>
    obtain ⟨hm, hrest⟩ := List.forall_mem_cons.mp hc
    rw [guardPass]
    refine Returns.step_bind ((ih hrest).bind fun kept hk => returns_pure ?_)
    split
    · exact List.forall_mem_cons.mpr ⟨hm, hk⟩
    · exact hk

def Evaluates (tree : Tree) (lines : LineIndex) (names : List String) (c : Clause) : Prop :=
  ∀ memo, Returns (evaluate tree lines c memo) fun r => Match.AllBind names r.1

variable {tree : Tree} {lines : LineIndex}

omit hplain in
theorem returns_evaluateEach {clauses : List Clause} (h : ∀ c ∈ clauses, Evaluates tree lines names c) (memo : Memo) :
    Returns (evaluateEach tree lines clauses memo) fun r => ∀ ms ∈ r.1, Match.AllBind names ms := by
  induction clauses generalizing memo with
  | nil =>
    rw [evaluateEach]
    exact returns_pure nofun
  | cons c rest ih =>
    obtain ⟨hc, hrest⟩ := List.forall_mem_cons.mp h
    rw [evaluateEach]
    refine (hc memo).bind fun r hr => (ih hrest r.2).bind fun rs hrs => returns_pure ?_
    exact List.forall_mem_cons.mpr ⟨hr, hrs⟩

/-- There are candidates at the end if there were some before or a positive clause gives them. -/
theorem returns_evaluatePositives {clauses : List Clause}
    (h : ∀ c ∈ clauses, c.isGuard = false → Evaluates tree lines names c) {candidates : Option (List Match)}
    (hc : ∀ ms ∈ candidates, Match.AllBind names ms)
    (hsome : candidates = none → ∃ c ∈ clauses, c.isGuard = false) (memo : Memo) :
    Returns (evaluatePositives tree lines clauses candidates memo)
      fun r => ∃ ms, r.1 = some ms ∧ Match.AllBind names ms := by
  induction clauses generalizing candidates memo with
  | nil =>
    rw [evaluatePositives]
    cases candidates with
    | none =>
      obtain ⟨c, hm, -⟩ := hsome rfl
      cases hm
    | some ms => exact returns_pure ⟨ms, rfl, hc ms rfl⟩
  | cons c rest ih =>
    obtain ⟨hfirst, hrest⟩ := List.forall_mem_cons.mp h
    rw [evaluatePositives.eq_def]
    dsimp only
    split
    · next hg =>
      refine ih hrest hc ?_ memo
      intro hn
      obtain ⟨d, hm, hd⟩ := hsome hn
      rcases List.mem_cons.mp hm with rfl | hm
      · exact absurd hg (by simp [hd])
      · exact ⟨d, hm, hd⟩
    · next hg =>
      have hpos : Evaluates tree lines names c := hfirst (by simpa using hg)
      have hnext : ∀ ms, Match.AllBind names ms → ∀ memo, Returns (evaluatePositives tree lines rest (some ms) memo)
          fun r => ∃ ms, r.1 = some ms ∧ Match.AllBind names ms := by
        intro ms hms memo
        exact ih hrest (fun _ h => Option.some.inj h ▸ hms) (fun h => nomatch h) memo
      split
      · exact (hpos memo).bind fun r hr => hnext r.1 hr r.2
      · exact returns_pure ⟨[], rfl, nofun⟩
      · next ms _ =>
        refine (hpos memo).bind fun r hr => ?_
        exact (returns_narrow hplain hr (hc ms rfl)).bind fun narrowed hn => hnext narrowed hn r.2

end Evaluation

section Guards

variable {names : List String} {tree : Tree} {lines : LineIndex}

theorem guardMatches_of_sound {c : Clause} (hs : c.Sound) (hg : c.isGuard = false) (memo : Memo) :
    guardMatches tree lines c memo = pure (none, memo) := by
  cases hs with
  | guard positive inner => cases hg
  | _ => rw [guardMatches.eq_def]

theorem returns_evaluateGuards {clauses : List Clause} (hs : ∀ c ∈ clauses, c.Sound)
    (h : ∀ kind c, .guard kind c ∈ clauses → Evaluates tree lines names c) {candidates : List Match}
    (hc : Match.AllBind names candidates) (memo : Memo) :
    Returns (evaluateGuards tree lines clauses candidates memo) fun r => Match.AllBind names r.1 := by
  induction clauses generalizing candidates memo with
  | nil =>
    rw [evaluateGuards]
    exact returns_pure hc
  | cons c rest ih =>
    obtain ⟨hsound, hsounds⟩ := List.forall_mem_cons.mp hs
    have hnext : ∀ {candidates : List Match}, Match.AllBind names candidates → ∀ memo,
        Returns (evaluateGuards tree lines rest candidates memo) fun r => Match.AllBind names r.1 :=
      ih hsounds fun kind d hm => h kind d (List.mem_cons_of_mem _ hm)
    rw [evaluateGuards]
    split
    · exact returns_pure nofun
    cases hg : c.isGuard with
    | false =>
      rw [guardMatches_of_sound hsound hg, pure_bind]
      exact hnext hc memo
    | true =>
      cases hsound with
      | guard positive inner =>
        rw [guardMatches]
        rw [bind_assoc]
        refine (h _ _ List.mem_cons_self memo).bind fun r hr => ?_
        rw [pure_bind]
        exact (returns_guardPass hc _ r.1).bind fun kept hk => hnext hk r.2
      | _ => cases hg

end Guards

theorem allBind_union {names : List String} {results : List (List Match)}
    (h : ∀ ms ∈ results, Match.AllBind names ms) : Match.AllBind names (Match.union results) := by
  intro m hm
  obtain ⟨ms, hms, hmem⟩ := Match.exists_of_mem_union hm
  exact h ms hms m hmem

/-- The clause that a guard holds; any other clause itself. -/
def unguarded : Clause → Clause
  | .guard _ c => c
  | c => c

theorem unguarded_of_not_isGuard {c : Clause} (h : c.isGuard = false) : c.unguarded = c := by
  cases c with
  | guard kind c => cases h
  | _ => rfl

/-- A sound clause, or the clause that it guards with, gives matches that bind only declared names. -/
theorem Sound.evaluates_unguarded {names : List String} (hplain : Plain names) (tree : Tree) (lines : LineIndex)
    {c : Clause} (hs : c.Sound) (hd : c.declared ⊆ names) : Evaluates tree lines names c.unguarded := by
  induction hs with
  | @structural query focus constraints q parses focus_mem constrained =>
    intro memo
    rw [declared, parses] at hd
    rw [unguarded, evaluate]
    · exact (returns_structuralMatches hplain parses focus_mem constrained hd tree).bind fun ms hms => returns_pure hms
    · exact nofun
  | @textual regex flags constraints program compiles constrained =>
    intro memo
    rw [declared, compiles] at hd
    obtain ⟨hwritten, hcompiled⟩ := List.append_subset.mp hd
    rw [unguarded, evaluate]
    · refine returns_ofExcept_bind compiles ?_
      refine (returns_textualMatches hplain constrained hwritten tree lines ?_).bind fun ms hms => returns_pure hms
      intro f hf x hx
      exact hcompiled (Regex.Program.named_of_mem_all hf x hx)
    · exact nofun
  | any positive each ih =>
    intro memo
    rw [declared] at hd
    rw [unguarded, evaluate]
    · refine (returns_evaluateEach ?_ memo).bind fun r hr => returns_pure (allBind_union hr)
      intro c hc
      have he := ih c hc fun x hx => hd (declared_subset_of_mem hc hx)
      rw [unguarded_of_not_isGuard (positive c hc)] at he
      exact he
    · exact nofun
  | @all clauses positive each ih =>
    intro memo
    rw [declared] at hd
    have hpositive : ∀ c ∈ clauses, c.isGuard = false → Evaluates tree lines names c := by
      intro c hc hg
      have he := ih c hc fun x hx => hd (declared_subset_of_mem hc hx)
      rw [unguarded_of_not_isGuard hg] at he
      exact he
    have hguarded : ∀ kind c, .guard kind c ∈ clauses → Evaluates tree lines names c := fun kind c hc =>
      ih (.guard kind c) hc fun x hx => hd (declared_subset_of_mem hc hx)
    have hnone : ∀ ms ∈ (none : Option (List Match)), Match.AllBind names ms := nofun
    rw [unguarded, evaluate]
    · refine (returns_evaluatePositives hplain hpositive hnone (fun _ => positive) memo).bind ?_
      rintro ⟨_, memo'⟩ ⟨candidates, rfl, hc⟩
      exact returns_evaluateGuards each hguarded hc memo'
    · exact nofun
  | guard positive inner ih =>
    rw [declared] at hd
    have he := ih hd
    rw [unguarded_of_not_isGuard positive] at he
    exact he

/-- A list of sound clauses that are no guards is evaluated to matches, unless the budget halts it. Their records have no
node as their base. -/
theorem evaluateAll_of_sound {clauses : List Clause} (hs : ∀ c ∈ clauses, c.Sound)
    (hg : ∀ c ∈ clauses, c.isGuard = false) (hplain : Plain (declaredEach clauses)) (tree : Tree) (t : Tracker) :
    (∃ ms t', evaluateAll tree clauses t = .ok ms t' ∧ ∀ m ∈ ms, m.base = none) ∨
      ∃ h t', evaluateAll tree clauses t = .error (.halted h) t' := by
  have heach : ∀ c ∈ clauses, Evaluates tree (LineIndex.ofText tree.source) (declaredEach clauses) c := by
    intro c hc
    have he := (hs c hc).evaluates_unguarded hplain tree (LineIndex.ofText tree.source) (declared_subset_of_mem hc)
    rw [unguarded_of_not_isGuard (hg c hc)] at he
    exact he
  obtain ⟨⟨results, memo⟩, hend, hbind⟩ := returns_evaluateEach heach []
  have hbase : ∀ m ∈ Match.union results, m.base = none := fun m hm => (allBind_union hbind m hm).base
  have hall := hend.bind_ok (f := fun r => pure (Match.union r.1)) (endsIn_pure (Match.union results))
  rw [evaluateAll, checkpoint_bind]
  split
  · next t' _ =>
    rcases hall.run t' with ⟨t₂, h⟩ | ⟨e, t₂, h⟩
    · exact .inl ⟨_, t₂, h, hbase⟩
    · exact .inr ⟨e, t₂, h⟩
  · next e t' _ => exact .inr ⟨e, t', rfl⟩

end Clause

end RuleScan
