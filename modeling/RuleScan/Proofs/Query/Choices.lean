import RuleScan.Proofs.Query.Solutions

/-! The choices that lead to a solution. They are made from left to right through the pattern, depth first: an
alternative, the child of one more occurrence, or to take no more. Main statement: the search runs through the
solutions in the order of the first choice in which they differ. -/
namespace RuleScan.Query

inductive Choice where
  /-- The alternative at this index. -/
  | alternative (i : Nat)
  /-- One more occurrence, of the child at this position. -/
  | take (i : Nat)
  /-- No more occurrences. -/
  | stop

/-- Earlier alternatives and earlier children come first, and one more occurrence before taking no more. -/
def Choice.Before : Choice → Choice → Prop
  | .alternative i, .alternative j => i < j
  | .take i, .take j => i < j
  | .take _, .stop => True
  | _, _ => False

/-- At the first place in which they differ, the first choices are earlier. -/
inductive Precedes : List Choice → List Choice → Prop
  | here {a b : Choice} {xs ys : List Choice} (earlier : a.Before b) : Precedes (a :: xs) (b :: ys)
  | later {a : Choice} {xs ys : List Choice} (rest : Precedes xs ys) : Precedes (a :: xs) (a :: ys)

theorem Choice.not_before_self (a : Choice) : ¬a.Before a := by
  cases a with
  | alternative i => exact Nat.lt_irrefl i
  | take i => exact Nat.lt_irrefl i
  | stop => exact id

theorem Choice.Before.asymm {a b : Choice} (h : a.Before b) : ¬b.Before a := by
  intro h'
  cases a <;> cases b <;> first
    | exact Nat.lt_asymm h h'
    | exact h
    | exact h'

theorem Precedes.asymm {xs ys : List Choice} (h : Precedes xs ys) : ¬Precedes ys xs := by
  induction h with
  | here earlier =>
    intro h'
    cases h' with
    | here earlier' => exact earlier.asymm earlier'
    | later rest => exact Choice.not_before_self _ earlier
  | later rest ih =>
    intro h'
    cases h' with
    | here earlier' => exact Choice.not_before_self _ earlier'
    | later rest' => exact ih rest'

/-- What follows a difference plays no part. -/
theorem Precedes.append {xs ys : List Choice} (h : Precedes xs ys) (us vs : List Choice) :
    Precedes (xs ++ us) (ys ++ vs) := by
  induction h with
  | here earlier => exact .here earlier
  | later rest ih => exact .later ih

theorem Precedes.append_left {us vs : List Choice} (h : Precedes us vs) (xs : List Choice) :
    Precedes (xs ++ us) (xs ++ vs) := by
  induction xs with
  | nil => exact h
  | cons a xs ih => exact .later ih

/-- An occurrence of an element: the position of its child and the choices made there. -/
abbrev Occurrence := Nat × List Choice

def Occurrence.choices (x : Occurrence) : List Choice := .take x.1 :: x.2

/-- The choice to take no more after some occurrences, where another one could be taken. -/
def Quantifier.ending : Quantifier → Nat → List Choice
  | .one, _ | .optional, _ + 1 => []
  | .optional, 0 | .zeroOrMore, _ | .oneOrMore, _ => [.stop]

/-- The children of some occurrences are eligible and solved by the choices made there. What the first one binds
is kept, and nothing is bound where there is none. -/
def Occurs (eligible : Node → Prop) (chosen : Node → List Choice → Environment → Prop) (children : List Node)
    (s : Environment) : List Occurrence → Environment → Prop
  | [], t => t = s
  | x :: later, t =>
    (∃ c ∈ children[x.1]?, eligible c ∧ chosen c x.2 t) ∧
      ∀ y ∈ later, ∃ c ∈ children[y.1]?, eligible c ∧ ∃ u, chosen c y.2 u

mutual

/-- By some choices `s'` solves a pattern at a node from `s`. -/
def Chosen (source : Units) : Pattern → Node → Environment → List Choice → Environment → Prop
  | .wildcard _ cs, n, s, choices, s' => choices = [] ∧ Binds source n cs s s'
  | .literal v _ cs, n, s, choices, s' =>
    choices = [] ∧ (n.kind = v ∨ n.children = [] ∧ n.textIn source = Units.ofString v) ∧ Binds source n cs s s'
  | .alternation as _ cs, n, s, choices, s' =>
    ∃ t, ChosenOneOf source as 0 n s choices t ∧ Binds source n cs t s'
  | .node kind es absent _ cs, n, s, choices, s' =>
    n.named = true ∧ (∀ k ∈ kind, n.kind = k) ∧ (∀ f ∈ absent, ∀ c ∈ n.children, c.field ≠ some f) ∧
      ∃ t, Binds source n cs s t ∧ ChosenAmong source es n.children 0 t choices s'

/-- The first choice is one of the alternatives, which are counted from `i` on. -/
def ChosenOneOf (source : Units) : List Pattern → Nat → Node → Environment → List Choice → Environment → Prop
  | [], _, _, _, _, _ => False
  | p :: ps, i, n, s, choices, s' =>
    (∃ inner, choices = .alternative i :: inner ∧ Chosen source p n s inner s') ∨
      ChosenOneOf source ps (i + 1) n s choices s'

/-- Each element in turn has its occurrences among the children from a position on, as many as its quantifier
allows. -/
def ChosenAmong (source : Units) :
    List Element → List Node → Nat → Environment → List Choice → Environment → Prop
  | [], _, _, s, choices, s' => choices = [] ∧ s' = s
  | (field, p) :: es, children, pos, s, choices, s' =>
    ∃ (taken : List Occurrence) (rest : List Choice) (t : Environment),
      choices = taken.flatMap Occurrence.choices ++ p.quantifier.ending taken.length ++ rest ∧
      p.quantifier.Allows taken.length ∧ (taken.map (·.1)).Pairwise (· < ·) ∧ (∀ x ∈ taken, pos ≤ x.1) ∧
      Occurs (Eligible field p) (fun c inner u => Chosen source p c s inner u) children s taken t ∧
      ChosenAmong source es children (following pos (taken.map (·.1))) t rest s'

end

/-- A list runs through the environments that some choices lead to, once for each, in the order of the choices. -/
def Lists (R : List Choice → Environment → Prop) (xs : List Environment) : Prop :=
  ∃ found : List (List Choice × Environment),
    found.map (·.2) = xs ∧ found.Pairwise (fun a b => Precedes a.1 b.1) ∧
      ∀ choices t, (choices, t) ∈ found ↔ R choices t

namespace Lists

variable {R S : List Choice → Environment → Prop} {xs ys : List Environment}

theorem congr (h : Lists R xs) (he : ∀ choices t, R choices t ↔ S choices t) : Lists S xs := by
  obtain ⟨found, hmap, hordered, hmem⟩ := h
  exact ⟨found, hmap, hordered, fun choices t => (hmem choices t).trans (he choices t)⟩

theorem nil (h : ∀ choices t, ¬R choices t) : Lists R [] :=
  ⟨[], rfl, List.Pairwise.nil, fun choices t => iff_of_false List.not_mem_nil (h choices t)⟩

/-- Where nothing is chosen there is one environment at most. -/
theorem option (o : Option Environment) : Lists (fun choices t => choices = [] ∧ o = some t) o.toList := by
  cases o with
  | none => exact nil fun _ _ h => nomatch h.2
  | some s =>
    refine ⟨[([], s)], rfl, List.pairwise_singleton _ _, ?_⟩
    intro choices t
    rw [List.mem_singleton, Prod.mk.injEq]
    exact and_congr_right fun _ => ⟨fun h => congrArg some h.symm, fun h => (Option.some.inj h).symm⟩

theorem append (hR : Lists R xs) (hS : Lists S ys) (h : ∀ a t b u, R a t → S b u → Precedes a b) :
    Lists (fun choices t => R choices t ∨ S choices t) (xs ++ ys) := by
  obtain ⟨found, rfl, hordered, hmem⟩ := hR
  obtain ⟨more, rfl, hordered', hmem'⟩ := hS
  refine ⟨found ++ more, List.map_append, ?_, ?_⟩
  · apply List.pairwise_append.mpr
    refine ⟨hordered, hordered', ?_⟩
    intro a ha b hb
    exact h a.1 a.2 b.1 b.2 ((hmem _ _).mp ha) ((hmem' _ _).mp hb)
  · intro choices t
    rw [List.mem_append, hmem, hmem']

theorem cons (a : Choice) (h : Lists R xs) :
    Lists (fun choices t => ∃ rest, choices = a :: rest ∧ R rest t) xs := by
  obtain ⟨found, rfl, hordered, hmem⟩ := h
  refine ⟨found.map fun x => (a :: x.1, x.2), ?_, ?_, ?_⟩
  · rw [List.map_map]
    rfl
  · apply List.pairwise_map.mpr
    exact hordered.imp fun h => .later h
  · intro choices t
    rw [List.mem_map]
    constructor
    · rintro ⟨x, hx, he⟩
      cases he
      exact ⟨x.1, rfl, (hmem _ _).mp hx⟩
    · rintro ⟨rest, rfl, hR⟩
      exact ⟨(rest, t), (hmem _ _).mpr hR, rfl⟩

/-- Choices that go on from what others lead to. -/
theorem flatMap {S : Environment → List Choice → Environment → Prop} {f : Environment → List Environment}
    (h : Lists R xs) (hf : ∀ t, Lists (S t) (f t)) :
    Lists (fun choices u => ∃ first t rest, choices = first ++ rest ∧ R first t ∧ S t rest u) (xs.flatMap f) := by
  obtain ⟨found, rfl, hordered, hmem⟩ := h
  choose more hmap hordered' hmem' using hf
  refine ⟨found.flatMap fun x => (more x.2).map fun y => (x.1 ++ y.1, y.2), ?_, ?_, ?_⟩
  · rw [List.map_flatMap, List.flatMap_map]
    congr 1
    funext x
    rw [List.map_map]
    exact hmap x.2
  · apply List.pairwise_flatMap.mpr
    constructor
    · intro x _
      apply List.pairwise_map.mpr
      exact (hordered' x.2).imp fun h => h.append_left x.1
    · apply hordered.imp
      intro a b hab x hx y hy
      obtain ⟨x', -, rfl⟩ := List.mem_map.mp hx
      obtain ⟨y', -, rfl⟩ := List.mem_map.mp hy
      exact hab.append x'.1 y'.1
  · intro choices u
    rw [List.mem_flatMap]
    constructor
    · rintro ⟨x, hx, hy⟩
      obtain ⟨y, hmore, he⟩ := List.mem_map.mp hy
      cases he
      exact ⟨x.1, x.2, y.1, rfl, (hmem _ _).mp hx, (hmem' _ _ _).mp hmore⟩
    · rintro ⟨first, t, rest, rfl, hR, hS⟩
      exact ⟨(first, t), (hmem _ _).mpr hR, List.mem_map.mpr ⟨(rest, u), (hmem' _ _ _).mpr hS, rfl⟩⟩

/-- The environments in a list are those that some choices lead to. -/
theorem mem_iff (h : Lists R xs) {t : Environment} : t ∈ xs ↔ ∃ choices, R choices t := by
  obtain ⟨found, rfl, -, hmem⟩ := h
  rw [List.mem_map]
  constructor
  · rintro ⟨x, hx, rfl⟩
    exact ⟨x.1, (hmem _ _).mp hx⟩
  · rintro ⟨choices, hR⟩
    exact ⟨(choices, t), (hmem _ _).mpr hR, rfl⟩

/-- What is found first in a list is what the earliest choices lead to. -/
theorem find?_eq_some_iff (h : Lists R xs) {test : Environment → Bool} {t : Environment} :
    xs.find? test = some t ↔ ∃ choices, R choices t ∧ test t = true ∧
      ∀ choices' t', R choices' t' → test t' = true → choices' = choices ∧ t' = t ∨ Precedes choices choices' := by
  obtain ⟨found, rfl, hordered, hmem⟩ := h
  have hfirst {x : List Choice × Environment} (hx : found.find? (fun x => test x.2) = some x) :
      R x.1 x.2 ∧ test x.2 = true ∧
        ∀ choices' t', R choices' t' → test t' = true → choices' = x.1 ∧ t' = x.2 ∨ Precedes x.1 choices' := by
    obtain ⟨htest, before, after, rfl, hnone⟩ := List.find?_eq_some_iff_append.mp hx
    refine ⟨(hmem _ _).mp (List.mem_append_right _ List.mem_cons_self), htest, ?_⟩
    intro choices' t' hR htest'
    rcases List.mem_append.mp ((hmem choices' t').mpr hR) with hb | hb
    · have hfails := hnone _ hb
      simp [htest'] at hfails
    rcases List.mem_cons.mp hb with he | hb
    · cases he
      exact .inl ⟨rfl, rfl⟩
    · have hafter := (List.pairwise_append.mp hordered).2.1
      exact .inr (List.rel_of_pairwise_cons hafter hb)
  rw [List.find?_map]
  constructor
  · intro hfind
    obtain ⟨x, hx, rfl⟩ := Option.map_eq_some_iff.mp hfind
    exact ⟨x.1, hfirst hx⟩
  · rintro ⟨choices, hR, htest, hleast⟩
    cases hx : found.find? (test ∘ (·.2)) with
    | none =>
      have hfails := List.find?_eq_none.mp hx _ ((hmem choices t).mpr hR)
      exact absurd htest hfails
    | some x =>
      obtain ⟨hRx, htestx, hleastx⟩ := hfirst hx
      rcases hleast x.1 x.2 hRx htestx with ⟨-, he⟩ | hp
      · exact congrArg some he
      · rcases hleastx choices t hR htest with ⟨-, he⟩ | hp'
        · exact congrArg some he.symm
        · exact absurd hp' hp.asymm

end Lists

section Enumeration

variable (fits : Node → Bool) {solve : Node → List Environment} {next : List Node → Environment → List Environment}
  {children : List Node} {R : Node → List Choice → Environment → Prop}
  {N : Nat → Environment → List Choice → Environment → Prop}

/-- The head of an enumeration: one child at a position is taken if it fits. -/
private theorem lists_taken (hsolve : ∀ c, Lists (R c) (solve c)) {c : Node} {pos : Nat} (hc : children[pos]? = some c)
    {S : Environment → List Choice → Environment → Prop} {f : Environment → List Environment}
    (hf : ∀ t, Lists (S t) (f t)) :
    Lists (fun choices s' => ∃ inner rest t, choices = .take pos :: (inner ++ rest) ∧
        (∃ c ∈ children[pos]?, fits c = true ∧ R c inner t) ∧ S t rest s')
      (if fits c then (solve c).flatMap f else []) := by
  split
  · next hfits =>
    apply (((hsolve c).flatMap hf).cons (.take pos)).congr
    intro choices s'
    constructor
    · rintro ⟨_, rfl, inner, t, rest, rfl, hR, hS⟩
      exact ⟨inner, rest, t, rfl, ⟨c, hc, hfits, hR⟩, hS⟩
    · rintro ⟨inner, rest, t, rfl, ⟨d, hd, -, hR⟩, hS⟩
      cases hc.symm.trans hd
      exact ⟨_, rfl, inner, t, rest, rfl, hR, hS⟩
  · next hfits =>
    apply Lists.nil
    rintro choices s' ⟨inner, rest, t, -, ⟨d, hd, hfits', -⟩, -⟩
    cases hc.symm.trans hd
    exact hfits hfits'

theorem lists_occurrencesIn (hsolve : ∀ c, Lists (R c) (solve c))
    (hnext : ∀ i t, Lists (N i t) (next (children.drop i) t)) {cs : List Node} {pos : Nat}
    (hcs : children.drop pos = cs) :
    Lists (fun choices s' => ∃ i, pos ≤ i ∧ ∃ inner rest t, choices = .take i :: (inner ++ rest) ∧
        (∃ c ∈ children[i]?, fits c = true ∧ R c inner t) ∧ N (i + 1) t rest s')
      (occurrencesIn fits solve next cs) := by
  induction cs generalizing pos with
  | nil =>
    have hlen : children.length ≤ pos := List.drop_eq_nil_iff.mp hcs
    apply Lists.nil
    rintro choices s' ⟨i, hi, inner, rest, t, -, ⟨c, hc, -⟩, -⟩
    have hlt := (List.getElem?_eq_some_iff.mp hc).1
    omega
  | cons c cs ih =>
    obtain ⟨hc, hrest⟩ := drop_eq_cons hcs
    have hhead := lists_taken fits hsolve hc (f := next cs) fun t => hrest ▸ hnext (pos + 1) t
    rw [occurrencesIn]
    apply (hhead.append (ih hrest) ?_).congr
    · intro choices s'
      constructor
      · rintro (h | ⟨i, hi, h⟩)
        · exact ⟨pos, Nat.le_refl pos, h⟩
        · exact ⟨i, by omega, h⟩
      · rintro ⟨i, hi, h⟩
        by_cases he : i = pos
        · subst he
          exact .inl h
        · exact .inr ⟨i, by omega, h⟩
    · rintro a t b u ⟨inner, rest, t', rfl, -⟩ ⟨i, hi, inner', rest', u', rfl, -⟩
      have hlt : pos < i := by omega
      exact .here hlt

/-- Choices that take some children, the first of which binds if `first`, and then no more. -/
private def TakesSome (fits : Node → Bool) (R : Node → List Choice → Environment → Prop)
    (N : Nat → Environment → List Choice → Environment → Prop) (children : List Node) (pos : Nat) (first : Bool)
    (env : Environment) (choices : List Choice) (s' : Environment) : Prop :=
  ∃ i, pos ≤ i ∧ ∃ inner more t, choices = .take i :: (inner ++ more) ∧
    (∃ c ∈ children[i]?, fits c = true ∧ R c inner t) ∧
    ∃ (later : List Occurrence) (rest : List Choice), more = later.flatMap Occurrence.choices ++ .stop :: rest ∧
      (i :: later.map (·.1)).Pairwise (· < ·) ∧
      (∀ y ∈ later, ∃ c ∈ children[y.1]?, fits c = true ∧ ∃ u, R c y.2 u) ∧
      N (following (i + 1) (later.map (·.1))) (if first then t else env) rest s'

/-- Either the child at the position is taken, as the last one or with others to come, or all are taken later. -/
private theorem takesSome_iff_now_or_later {pos : Nat} {first : Bool} {env s' : Environment} {choices : List Choice} :
    TakesSome fits R N children pos first env choices s' ↔
      (∃ inner more t, choices = .take pos :: (inner ++ more) ∧ (∃ c ∈ children[pos]?, fits c = true ∧ R c inner t) ∧
        (TakesSome fits R N children (pos + 1) false (if first then t else env) more s' ∨
          ∃ rest, more = .stop :: rest ∧ N (pos + 1) (if first then t else env) rest s')) ∨
      TakesSome fits R N children (pos + 1) first env choices s' := by
  constructor
  · rintro ⟨i, hi, inner, more, t, rfl, hR, later, rest, rfl, hsorted, hlater, hN⟩
    by_cases he : i = pos
    · subst he
      refine .inl ⟨inner, _, t, rfl, hR, ?_⟩
      cases later with
      | nil => exact .inr ⟨rest, rfl, hN⟩
      | cons y later =>
        obtain ⟨hy, hsorted⟩ := List.pairwise_cons.mp hsorted
        obtain ⟨⟨d, hd, hfits, u, hd'⟩, hlater⟩ := List.forall_mem_cons.mp hlater
        exact .inl ⟨y.1, hy y.1 List.mem_cons_self, y.2, _, u, by simp [Occurrence.choices],
          ⟨d, hd, hfits, hd'⟩, later, rest, rfl, hsorted, hlater, hN⟩
    · exact .inr ⟨i, by omega, inner, _, t, rfl, hR, later, rest, rfl, hsorted, hlater, hN⟩
  · rintro (⟨inner, _, t, rfl, hR, ⟨j, hj, inner', _, u, rfl, ⟨d, hd, hfits, hd'⟩, later, rest, rfl, hsorted, hlater,
      hN⟩ | ⟨rest, rfl, hN⟩⟩ | ⟨i, hi, h⟩)
    · refine ⟨pos, Nat.le_refl pos, inner, _, t, rfl, hR, (j, inner') :: later, rest, by simp [Occurrence.choices], ?_,
        List.forall_mem_cons.mpr ⟨⟨d, hd, hfits, u, hd'⟩, hlater⟩, hN⟩
      apply List.pairwise_cons.mpr
      refine ⟨?_, hsorted⟩
      intro k hk
      rcases List.mem_cons.mp hk with rfl | hk
      · exact hj
      · exact Nat.lt_trans hj ((List.pairwise_cons.mp hsorted).1 k hk)
    · exact ⟨pos, Nat.le_refl pos, inner, _, t, rfl, hR, [], rest, rfl, List.pairwise_singleton _ _,
        List.forall_mem_nil _, hN⟩
    · exact ⟨i, by omega, h⟩

private theorem lists_repeatsIn (hsolve : ∀ c, Lists (R c) (solve c))
    (hnext : ∀ i t, Lists (N i t) (next (children.drop i) t)) {cs : List Node} {pos : Nat}
    (hcs : children.drop pos = cs) {Stop : List Choice → Environment → Prop} {stop : List Environment}
    (hstop : Lists Stop stop) (hfinal : ∀ choices s', Stop choices s' → ∃ rest, choices = .stop :: rest)
    (first : Bool) (env : Environment) :
    Lists (fun choices s' => TakesSome fits R N children pos first env choices s' ∨ Stop choices s')
      (repeatsIn fits solve next cs first env stop) := by
  induction cs generalizing pos first env Stop stop with
  | nil =>
    have hlen : children.length ≤ pos := List.drop_eq_nil_iff.mp hcs
    rw [repeatsIn]
    apply hstop.congr
    intro choices s'
    refine ⟨.inr, fun h => h.resolve_left ?_⟩
    rintro ⟨i, hi, inner, more, t, -, ⟨c, hc, -⟩, -⟩
    have hlt := (List.getElem?_eq_some_iff.mp hc).1
    omega
  | cons c cs ih =>
    obtain ⟨hc, hrest⟩ := drop_eq_cons hcs
    -- after one child the search takes more or stops, whatever comes then
    have hafter (t : Environment) := ih hrest
      (((hrest ▸ hnext (pos + 1) (if first then t else env) : Lists _ (next cs _))).cons .stop)
      (fun _ _ h => h.imp fun _ he => he.1) false (if first then t else env)
    have hhead := lists_taken fits hsolve hc hafter
    rw [repeatsIn]
    apply (hhead.append (ih hrest hstop hfinal first env) ?_).congr
    · intro choices s'
      exact or_assoc.symm.trans (or_congr_left (takesSome_iff_now_or_later fits).symm)
    · rintro a t b u ⟨inner, rest, t', rfl, -⟩ (⟨i, hi, inner', more, u', rfl, -⟩ | hb)
      · have hlt : pos < i := by omega
        exact .here hlt
      · obtain ⟨rest', rfl⟩ := hfinal b u hb
        exact .here trivial

private theorem takesSome_iff_occurs {pos : Nat} {s s' : Environment} {choices : List Choice} :
    TakesSome fits R N children pos true s choices s' ↔ ∃ (x : Occurrence) (later : List Occurrence)
      (rest : List Choice) (t : Environment), choices = (x :: later).flatMap Occurrence.choices ++ [.stop] ++ rest ∧
        ((x :: later).map (·.1)).Pairwise (· < ·) ∧ (∀ y ∈ x :: later, pos ≤ y.1) ∧
        Occurs (fun c => fits c = true) R children s (x :: later) t ∧
        N (following pos ((x :: later).map (·.1))) t rest s' := by
  constructor
  · rintro ⟨i, hi, inner, _, t, rfl, ⟨c, hc, hfits, hR⟩, later, rest, rfl, hsorted, hlater, hN⟩
    refine ⟨(i, inner), later, rest, t, by simp [Occurrence.choices], hsorted, ?_, ⟨⟨c, hc, hfits, hR⟩, hlater⟩, hN⟩
    intro y hy
    rcases List.mem_cons.mp hy with rfl | hy
    · exact hi
    · have hlt := (List.pairwise_cons.mp hsorted).1 y.1 (List.mem_map_of_mem hy)
      omega
  · rintro ⟨x, later, rest, t, rfl, hsorted, hpos, ⟨hx, hlater⟩, hN⟩
    obtain ⟨c, hc, hfits, hR⟩ := hx
    exact ⟨x.1, hpos x List.mem_cons_self, x.2, _, t, by simp [Occurrence.choices], ⟨c, hc, hfits, hR⟩, later, rest,
      rfl, hsorted, hlater, hN⟩

/-- Taking children under a quantifier: occurrences in increasing positions, as many as are allowed, and then what
follows them. -/
theorem lists_takenIn (hsolve : ∀ c, Lists (R c) (solve c)) (hnext : ∀ i t, Lists (N i t) (next (children.drop i) t))
    (q : Quantifier) (s : Environment) (pos : Nat) :
    Lists (fun choices s' => ∃ (taken : List Occurrence) (rest : List Choice) (t : Environment),
        choices = taken.flatMap Occurrence.choices ++ q.ending taken.length ++ rest ∧ q.Allows taken.length ∧
        (taken.map (·.1)).Pairwise (· < ·) ∧ (∀ x ∈ taken, pos ≤ x.1) ∧
        Occurs (fun c => fits c = true) R children s taken t ∧ N (following pos (taken.map (·.1))) t rest s')
      (takenIn fits solve next q (children.drop pos) s) := by
  have hone : Lists _ (occurrencesIn fits solve next (children.drop pos)) := lists_occurrencesIn fits hsolve hnext rfl
  have hstop := (hnext pos s).cons .stop
  have hfinal (choices : List Choice) (s' : Environment) (h : ∃ rest, choices = .stop :: rest ∧ N pos s rest s') :
      ∃ rest, choices = .stop :: rest := h.imp fun rest h => h.1
  cases q with
  | one =>
    apply hone.congr
    intro choices s'
    constructor
    · rintro ⟨i, hi, inner, rest, t, rfl, ⟨c, hc, hfits, hR⟩, hN⟩
      exact ⟨[(i, inner)], rest, t, by simp [Occurrence.choices, Quantifier.ending], rfl, List.pairwise_singleton _ _,
        by simpa using hi, ⟨⟨c, hc, hfits, hR⟩, nofun⟩, hN⟩
    · rintro ⟨taken, rest, t, rfl, hlength, -, hpos, hoccurs, hN⟩
      obtain ⟨x, rfl⟩ := List.length_eq_one_iff.mp hlength
      obtain ⟨⟨c, hc, hfits, hR⟩, -⟩ := hoccurs
      exact ⟨x.1, hpos x List.mem_cons_self, x.2, rest, t, by simp [Occurrence.choices, Quantifier.ending],
        ⟨c, hc, hfits, hR⟩, hN⟩
  | optional =>
    apply (hone.append hstop ?_).congr
    · intro choices s'
      constructor
      · rintro (⟨i, hi, inner, rest, t, rfl, ⟨c, hc, hfits, hR⟩, hN⟩ | ⟨rest, rfl, hN⟩)
        · exact ⟨[(i, inner)], rest, t, by simp [Occurrence.choices, Quantifier.ending], Nat.le_refl 1,
            List.pairwise_singleton _ _, by simpa using hi, ⟨⟨c, hc, hfits, hR⟩, nofun⟩, hN⟩
        · exact ⟨[], rest, s, rfl, Nat.zero_le 1, List.Pairwise.nil, nofun, rfl, hN⟩
      · rintro ⟨taken, rest, t, rfl, hlength, -, hpos, hoccurs, hN⟩
        match taken, hlength with
        | [], _ =>
          obtain rfl : t = s := hoccurs
          exact .inr ⟨rest, rfl, hN⟩
        | [x], _ =>
          obtain ⟨⟨c, hc, hfits, hR⟩, -⟩ := hoccurs
          exact .inl ⟨x.1, hpos x List.mem_cons_self, x.2, rest, t, by simp [Occurrence.choices, Quantifier.ending],
            ⟨c, hc, hfits, hR⟩, hN⟩
    · rintro a t b u ⟨i, hi, inner, rest, t', rfl, -⟩ ⟨rest', rfl, -⟩
      exact .here trivial
  | zeroOrMore =>
    apply (lists_repeatsIn fits hsolve hnext rfl hstop hfinal true s).congr
    intro choices s'
    rw [takesSome_iff_occurs]
    constructor
    · rintro (⟨x, later, rest, t, he, h⟩ | ⟨rest, rfl, hN⟩)
      · exact ⟨x :: later, rest, t, he, trivial, h⟩
      · exact ⟨[], rest, s, rfl, trivial, List.Pairwise.nil, nofun, rfl, hN⟩
    · rintro ⟨taken, rest, t, he, -, hsorted, hpos, hoccurs, hN⟩
      cases taken with
      | nil =>
        obtain rfl : t = s := hoccurs
        exact .inr ⟨rest, he, hN⟩
      | cons x later => exact .inl ⟨x, later, rest, t, he, hsorted, hpos, hoccurs, hN⟩
  | oneOrMore =>
    have hnever : Lists (fun _ _ => False) [] := Lists.nil fun _ _ h => h
    apply (lists_repeatsIn fits hsolve hnext rfl hnever (fun _ _ h => h.elim) true s).congr
    intro choices s'
    rw [or_false, takesSome_iff_occurs]
    constructor
    · rintro ⟨x, later, rest, t, he, h⟩
      exact ⟨x :: later, rest, t, he, Nat.le_add_left 1 later.length, h⟩
    · rintro ⟨taken, rest, t, he, hlength, h⟩
      cases taken with
      | nil => simp [Quantifier.Allows] at hlength
      | cons x later => exact ⟨x, later, rest, t, he, h⟩

end Enumeration

/-- The alternative chosen is one of those counted. -/
theorem ChosenOneOf.exists_alternative {source : Units} {ps : List Pattern} {i : Nat} {n : Node} {s s' : Environment}
    {choices : List Choice} (h : ChosenOneOf source ps i n s choices s') :
    ∃ j inner, i ≤ j ∧ choices = .alternative j :: inner := by
  induction ps generalizing i with
  | nil =>
    rw [ChosenOneOf] at h
    exact h.elim
  | cons p ps ih =>
    rw [ChosenOneOf] at h
    rcases h with ⟨inner, rfl, -⟩ | h
    · exact ⟨i, inner, Nat.le_refl i, rfl⟩
    · obtain ⟨j, inner, hij, rfl⟩ := ih h
      exact ⟨j, inner, by omega, rfl⟩

mutual

/-- The solutions of a pattern come in the order of the choices that lead to them, by the form of the pattern. -/
theorem lists_solutions (source : Units) : ∀ (p : Pattern) (n : Node) (s : Environment),
    Lists (Chosen source p n s) (solutions source p n s)
  | .wildcard q cs, n, s => by
    rw [solutions]
    apply (Lists.option (bind source n cs s)).congr
    intro choices s'
    rw [Chosen, bind_eq_some_iff]
  | .literal v q cs, n, s => by
    rw [solutions]
    split
    · next h =>
      have hk : n.kind = v ∨ n.children = [] ∧ n.textIn source = Units.ofString v := by simpa using h
      apply (Lists.option (bind source n cs s)).congr
      intro choices s'
      rw [Chosen, bind_eq_some_iff, and_iff_right hk]
    · next h =>
      have hk : ¬(n.kind = v ∨ n.children = [] ∧ n.textIn source = Units.ofString v) := by simpa using h
      apply Lists.nil
      intro choices s' hchosen
      rw [Chosen] at hchosen
      exact hk hchosen.2.1
  | .alternation as q cs, n, s => by
    rw [solutions]
    apply ((lists_solutionsOfAny source as 0 n s).flatMap fun t => Lists.option (bind source n cs t)).congr
    intro choices s'
    rw [Chosen]
    constructor
    · rintro ⟨first, t, rest, rfl, hfirst, rfl, hbind⟩
      exact ⟨t, by rwa [List.append_nil], bind_eq_some_iff.mp hbind⟩
    · rintro ⟨t, hone, hbind⟩
      exact ⟨choices, t, [], (List.append_nil choices).symm, hone, rfl, bind_eq_some_iff.mpr hbind⟩
  | .node kind es absent q cs, n, s => by
    have hes (t : Environment) := lists_solutionsOfElements source es n.children 0 t
    simp only [List.drop_zero] at hes
    have hall := (Lists.option (bind source n cs s)).flatMap hes
    rw [solutions]
    split
    · next h =>
      apply Lists.nil
      intro choices s' hchosen
      rw [Chosen] at hchosen
      exact refused_iff.mp h ⟨hchosen.1, hchosen.2.1⟩
    · next h =>
      have hk : n.named = true ∧ ∀ k ∈ kind, n.kind = k := Classical.not_not.mp fun hk => h (refused_iff.mpr hk)
      split
      · next ha =>
        have hf : ¬∀ f ∈ absent, ∀ c ∈ n.children, c.field ≠ some f := by simpa using ha
        apply Lists.nil
        intro choices s' hchosen
        rw [Chosen] at hchosen
        exact hf hchosen.2.2.1
      · next ha =>
        have hf : ∀ f ∈ absent, ∀ c ∈ n.children, c.field ≠ some f := by simpa using ha
        apply hall.congr
        intro choices s'
        rw [Chosen, and_iff_right hk.1, and_iff_right hk.2, and_iff_right hf]
        constructor
        · rintro ⟨_, t, rest, rfl, ⟨rfl, hbind⟩, hrest⟩
          exact ⟨t, bind_eq_some_iff.mp hbind, hrest⟩
        · rintro ⟨t, hbind, hrest⟩
          exact ⟨[], t, choices, rfl, ⟨rfl, bind_eq_some_iff.mpr hbind⟩, hrest⟩

theorem lists_solutionsOfAny (source : Units) : ∀ (ps : List Pattern) (i : Nat) (n : Node) (s : Environment),
    Lists (ChosenOneOf source ps i n s) (solutionsOfAny source ps n s)
  | [], i, n, s => by
    rw [solutionsOfAny]
    apply Lists.nil
    intro choices s' h
    rw [ChosenOneOf] at h
    exact h
  | p :: ps, i, n, s => by
    rw [solutionsOfAny]
    apply (((lists_solutions source p n s).cons (.alternative i)).append (lists_solutionsOfAny source ps (i + 1) n s)
      ?_).congr
    · intro choices s'
      rw [ChosenOneOf]
    · rintro choices t choices' t' ⟨inner, rfl, -⟩ hlater
      obtain ⟨j, inner', hij, rfl⟩ := hlater.exists_alternative
      have hlt : i < j := by omega
      exact .here hlt

theorem lists_solutionsOfElements (source : Units) : ∀ (es : List Element) (children : List Node) (pos : Nat)
    (s : Environment),
    Lists (ChosenAmong source es children pos s) (solutionsOfElements source es (children.drop pos) s)
  | [], children, pos, s => by
    rw [solutionsOfElements]
    apply (Lists.option (some s)).congr
    intro choices s'
    rw [ChosenAmong, Option.some.injEq, eq_comm (a := s)]
  | (field, p) :: es, children, pos, s => by
    have hfit : (fun c => admits field p.acceptsAnonymous c = true) = Eligible field p :=
      funext fun c => propext admits_iff
    rw [solutionsOfElements]
    apply (lists_takenIn _ (fun c => lists_solutions source p c s)
      (fun i t => lists_solutionsOfElements source es children i t) p.quantifier s pos).congr
    intro choices s'
    rw [ChosenAmong, hfit]

end

end RuleScan.Query
