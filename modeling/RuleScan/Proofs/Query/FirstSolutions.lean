import RuleScan.Proofs.Query.Choices
import RuleScan.Proofs.Query.Mandatory
import RuleScan.Proofs.Query.Matching
import RuleScan.Proofs.Query.RoundTrip

/-! Which solution is reported at a node, and what the captures of its elements denote. Main statement: it is the
one that the earliest choices lead to, and an element binds its captures at its first occurrence. -/
namespace RuleScan.Query

/-- An element on the way to a solution: what is bound when it is reached, the positions of its occurrences, and
what is bound after them. -/
structure Passage where
  field : Option String
  pattern : Pattern
  children : List Node
  before : Environment
  taken : List Nat
  after : Environment

namespace Passage

/-- The element is one of some elements that take children on the way from `s` to `s'`. -/
def Among (source : Units) (es : List Element) (children : List Node) (s s' : Environment) (x : Passage) : Prop :=
  x.children = children ∧ ∃ (es₁ es₂ : List Element) (positions₁ positions₂ : List (List Nat)),
    es = es₁ ++ (x.field, x.pattern) :: es₂ ∧ (positions₁ ++ x.taken :: positions₂).flatten.Pairwise (· < ·) ∧
    Assigns source es₁ children positions₁ s x.before ∧ x.pattern.quantifier.Allows x.taken.length ∧
    Occupies (Eligible x.field x.pattern) (fun c u => Solves source x.pattern c x.before u) children x.before x.taken
      x.after ∧
    Assigns source es₂ children positions₂ x.after s'

/-- A name that the element captures denotes the child, or else what the chosen alternative has bound it to. -/
def Denotes (source : Units) (x : Passage) (child : Node) (name : String) (m : Node) : Prop :=
  match x.pattern with
  | .alternation as _ cs =>
    ∃ t, SolvesOneOf source as child x.before t ∧ Binds source child cs t x.after ∧ m = (t.lookup name).getD child
  | _ => m = child

end Passage

/-- The elements whose bindings are kept on the way from `s` to a solution `s'`: those of the pattern, and those
in the first occurrence of an element or in the chosen alternative. -/
inductive Passes (source : Units) : Pattern → Node → Environment → Environment → Passage → Prop
  | element {kind : Option String} {es : List Element} {absent : List String} {q : Quantifier} {cs : List String}
      {n : Node} {s t s' : Environment} {x : Passage} (bound : Binds source n cs s t)
      (among : x.Among source es n.children t s') : Passes source (.node kind es absent q cs) n s s' x
  | inside {kind : Option String} {es : List Element} {absent : List String} {q : Quantifier} {cs : List String}
      {n child : Node} {s t s' : Environment} {x outer : Passage} (bound : Binds source n cs s t)
      (among : outer.Among source es n.children t s')
      (first : ∃ i ∈ outer.taken.head?, n.children[i]? = some child)
      (inner : Passes source outer.pattern child outer.before outer.after x) :
      Passes source (.node kind es absent q cs) n s s' x
  | alternative {as : List Pattern} {q : Quantifier} {cs : List String} {a : Pattern} {n : Node}
      {s t s' : Environment} {x : Passage} (mem : a ∈ as) (inner : Passes source a n s t x)
      (bound : Binds source n cs t s') : Passes source (.alternation as q cs) n s s' x

section

variable {source : Units} {p : Pattern} {n : Node} {s s' : Environment} {x : Passage}

/-- Some choices lead to each solution, and to nothing else. -/
theorem solves_iff_exists_chosen : Solves source p n s s' ↔ ∃ choices, Chosen source p n s choices s' :=
  (mem_solutions source p n s s').symm.trans (lists_solutions source p n s).mem_iff

theorem Passage.Among.keeps {es : List Element} {children : List Node} (h : x.Among source es children s s') :
    x.after <+: s' := by
  obtain ⟨-, es₁, es₂, positions₁, positions₂, -, -, -, -, -, hafter⟩ := h
  exact hafter.keeps

theorem Passes.keeps (h : Passes source p n s s' x) : x.after <+: s' := by
  induction h with
  | element _ among => exact among.keeps
  | inside _ among _ _ ih => exact ih.trans among.keeps
  | alternative _ _ bound ih => exact ih.trans bound.keeps

theorem Passes.exists_among (h : Passes source p n s s' x) :
    ∃ es children t t', x.Among source es children t t' := by
  induction h with
  | element _ among => exact ⟨_, _, _, _, among⟩
  | inside _ _ _ _ ih => exact ih
  | alternative _ _ _ ih => exact ih

/-- After its occurrence at a child, an element has bound the names that it captures. -/
theorem Passage.exists_denotes {child : Node} (h : Solves source x.pattern child x.before x.after) {name : String}
    (hname : name ∈ x.pattern.captures) (hunbound : x.before.lookup name = none) :
    ∃ m, x.after.lookup name = some m ∧ x.Denotes source child name m := by
  unfold Denotes
  cases hp : x.pattern with
  | wildcard q cs =>
    rw [hp] at h hname
    rw [Solves] at h
    refine ⟨child, ?_, rfl⟩
    rw [h.lookup_eq hname, hunbound]
    rfl
  | literal v q cs =>
    rw [hp] at h hname
    rw [Solves] at h
    refine ⟨child, ?_, rfl⟩
    rw [h.2.lookup_eq hname, hunbound]
    rfl
  | alternation as q cs =>
    rw [hp] at h hname
    rw [Solves] at h
    obtain ⟨t, hone, hbind⟩ := h
    exact ⟨_, hbind.lookup_eq hname, t, hone, hbind, rfl⟩
  | node kind es absent q cs =>
    rw [hp] at h hname
    rw [Solves] at h
    obtain ⟨-, -, -, t, hbind, positions, -, hassign⟩ := h
    refine ⟨child, hassign.keeps.lookup_eq_some ?_, rfl⟩
    rw [hbind.lookup_eq hname, hunbound]
    rfl

/-- A solution binds what an element captures at its first occurrence. -/
theorem Passes.exists_denotes (h : Passes source p n s s' x) {i : Nat} (hi : i ∈ x.taken.head?) :
    ∃ child ∈ x.children[i]?, ∀ name ∈ x.pattern.captures, x.before.lookup name = none →
      ∃ m, s'.lookup name = some m ∧ x.Denotes source child name m := by
  obtain ⟨es, children, t, t', rfl, -, -, -, -, -, -, -, -, hoccupies, -⟩ := h.exists_among
  obtain ⟨later, htaken⟩ := List.head?_eq_some_iff.mp hi
  rw [htaken] at hoccupies
  obtain ⟨⟨child, hchild, -, hsolves⟩, -⟩ := hoccupies
  refine ⟨child, hchild, ?_⟩
  intro name hname hunbound
  obtain ⟨m, hm, hdenotes⟩ := Passage.exists_denotes hsolves hname hunbound
  exact ⟨m, h.keeps.lookup_eq_some hm, hdenotes⟩

end

namespace Compiled

/-- Some choices lead to an environment that satisfies the predicates and passes the caller's test. -/
def Reaches (c : Compiled) (source : Units) (accept : Bindings → Bool) (node : Node) (choices : List Choice)
    (env : Bindings) : Prop :=
  Chosen source c.pattern node [] choices env ∧ (∀ k ∈ c.checks, k.holds source env = true) ∧ accept env = true

section

variable {c : Compiled} {source : Units} {accept : Bindings → Bool} {node : Node} {env : Bindings}

theorem accepts_iff_exists_reaches :
    c.Accepts source accept node env ↔ ∃ choices, c.Reaches source accept node choices env := by
  rw [Accepts, solves_iff_exists_chosen]
  exact exists_and_right.symm

/-- The environment picked at a node is the one that the earliest choices lead to. -/
theorem pick_eq_some_iff : c.pick source accept node = some env ↔ ∃ choices, c.Reaches source accept node choices env ∧
    ∀ choices' env', c.Reaches source accept node choices' env' →
      choices' = choices ∧ env' = env ∨ Precedes choices choices' := by
  have htest (env : Bindings) : (c.checks.all (·.holds source env) && accept env) = true ↔
      (∀ k ∈ c.checks, k.holds source env = true) ∧ accept env = true := by
    simp
  rw [pick, (lists_solutions source c.pattern node []).find?_eq_some_iff]
  simp only [Reaches, htest, and_assoc, and_imp]

end

/-- At each node the solution reported is the one that the earliest choices lead to among those that satisfy the
predicates and pass the test. In it the captures of an element that were not bound before the element denote the
child of its first occurrence, or what the chosen alternative has bound them to. -/
theorem findMatches_first (c : Compiled) (tree : Tree) (accept : Bindings → Bool) :
    ∃ (pick : Node → Option Bindings) (n : Nat),
      (c.findMatches tree fun b => pure (accept b)).Gives
        (tree.root.preorder.filterMap fun node => (pick node).map (node, ·)) n ∧
      ∀ node,
        (∀ env, c.Accepts tree.source accept node env ↔
          ∃ choices, c.Reaches tree.source accept node choices env) ∧
        (pick node = none → ∀ env, ¬c.Accepts tree.source accept node env) ∧
        (∀ env, pick node = some env ↔ ∃ choices, c.Reaches tree.source accept node choices env ∧
          ∀ choices' env', c.Reaches tree.source accept node choices' env' →
            choices' = choices ∧ env' = env ∨ Precedes choices choices') ∧
        ∀ env, pick node = some env → ∀ x, Passes tree.source c.pattern node [] env x → ∀ i ∈ x.taken.head?,
          ∃ child ∈ x.children[i]?, ∀ name ∈ x.pattern.captures, x.before.lookup name = none →
            ∃ m, env.lookup name = some m ∧ x.Denotes tree.source child name m := by
  obtain ⟨n, hn⟩ := (c.endsIn_findMatches_pick tree fun env => Counted.endsIn_pure (accept env)).gives
  refine ⟨c.pick tree.source accept, n, hn, ?_⟩
  intro node
  refine ⟨fun env => accepts_iff_exists_reaches, ?_, fun env => pick_eq_some_iff, ?_⟩
  · intro h env
    exact not_accepts_of_pick h
  · intro env _ x hpasses i hi
    exact hpasses.exists_denotes hi

end Compiled

namespace RepeatedCaptures

/-- `[(A (B) @x)]* @x`: the alternative uses the name for a child. -/
def renamedElement : Pattern :=
  .alternation [.node "A" [(none, .node "B" [] [] .one ["x"])] [] .one []] .zeroOrMore ["x"]

/-- `(A (B)* @x)*`: a repeated element in another one. -/
def nestedElement : Pattern := .node "A" [(none, .node "B" [] [] .zeroOrMore ["x"])] [] .zeroOrMore []

/-- A `P` node with the element. -/
def parentOf (element : Pattern) : Pattern := .node "P" [(none, element)] [] .one []

/-- A `P` node over an `A` node over a `B` node. -/
def chain : Tree :=
  .ofDraft .typescript (Units.ofString "b")
    { kind := "P", start := 0, stop := 1
      children := [{ kind := "A", start := 0, stop := 1
                     children := [{ kind := "B", start := 0, stop := 1, children := [] }] }] } []

/-- A `P` node over two `A` nodes, the second of which is over a `B` node. -/
def fork : Tree :=
  .ofDraft .typescript (Units.ofString "ab")
    { kind := "P", start := 0, stop := 2
      children := [{ kind := "A", start := 0, stop := 1, children := [] },
        { kind := "A", start := 1, stop := 2
          children := [{ kind := "B", start := 1, stop := 2, children := [] }] }] } []

theorem wellFormed_parentOf {element : Pattern} (h : element.WellFormed) : (parentOf element).WellFormed := by
  simp only [parentOf, Pattern.WellFormed, ElementsWellFormed]
  exact ⟨by decide, ⟨nofun, h, trivial⟩, nofun, nofun⟩

theorem wellFormed_renamedElement : renamedElement.WellFormed := by
  simp only [renamedElement, Pattern.WellFormed, ElementsWellFormed, AllWellFormed]
  exact ⟨List.cons_ne_nil _ _,
    ⟨⟨by decide, ⟨nofun, ⟨by decide, trivial, nofun, by decide⟩, trivial⟩, nofun, nofun⟩, trivial⟩, by decide⟩

theorem wellFormed_nestedElement : nestedElement.WellFormed := by
  simp only [nestedElement, Pattern.WellFormed, ElementsWellFormed]
  exact ⟨by decide, ⟨nofun, ⟨by decide, trivial, nofun, by decide⟩, trivial⟩, nofun, nofun⟩

theorem solves_of_solutions_eq {source : Units} {p : Pattern} {n : Node} {s s' : Environment} {rest : List Environment}
    (h : solutions source p n s = s' :: rest) : Solves source p n s s' := by
  apply (mem_solutions source p n s s').mp
  rw [h]
  exact List.mem_cons_self

/-- A capture on a repeated element may denote another node than its first occurrence, or nothing. The first query
binds `x` to the `B` node, although its element first occurs at the `A` node with nothing bound before. The second
one leaves `x` unbound, although the later occurrence of its element binds it. -/
theorem findMatches_elsewhere :
    (∃ q a b x n, parse (print (parentOf renamedElement) []) = .ok q ∧
      compile q = .ok ⟨parentOf renamedElement, []⟩ ∧
      (Compiled.findMatches ⟨parentOf renamedElement, []⟩ chain fun _ => pure true).Gives
        [(chain.root, [("x", b)])] n ∧
      Passes chain.source (parentOf renamedElement) chain.root [] [("x", b)] x ∧ x.pattern = renamedElement ∧
      x.before = [] ∧ x.taken = [0] ∧ x.children[0]? = some a ∧ a ≠ b) ∧
    ∃ q a a' b n, parse (print (parentOf nestedElement) []) = .ok q ∧
      compile q = .ok ⟨parentOf nestedElement, []⟩ ∧
      (Compiled.findMatches ⟨parentOf nestedElement, []⟩ fork fun _ => pure true).Gives [(fork.root, [])] n ∧
      fork.root.children = [a, a'] ∧ Solves fork.source nestedElement a [] [] ∧
      Solves fork.source nestedElement a' [] [("x", b)] := by
  have hends (p : Pattern) (tree : Tree) :=
    Compiled.endsIn_findMatches_pick ⟨p, []⟩ tree fun _ => Counted.endsIn_pure true
  have hparse {element : Pattern} (h : element.WellFormed) := parse_print_pattern (wellFormed_parentOf h) rfl
  constructor
  · obtain ⟨n, hn⟩ := (hends (parentOf renamedElement) chain).gives
    let a := chain.root.children.head!
    let b := a.children.head!
    have hsolutions : solutions chain.source renamedElement a [] = [[("x", b)]] := rfl
    have hpasses : Passes chain.source (parentOf renamedElement) chain.root [] [("x", b)]
        ⟨none, renamedElement, chain.root.children, [], [0], [("x", b)]⟩ := by
      apply Passes.element (.nil [])
      refine ⟨rfl, [], [], [], [], rfl, List.pairwise_singleton _ _, ⟨rfl, rfl⟩, trivial, ?_, ⟨rfl, rfl⟩⟩
      exact ⟨⟨a, rfl, .inl rfl, solves_of_solutions_eq hsolutions⟩, List.forall_mem_nil _⟩
    refine ⟨_, a, b, _, n, hparse wellFormed_renamedElement, rfl, hn, hpasses, rfl, rfl, rfl, rfl, ?_⟩
    intro h
    have hkind : "A" = "B" := congrArg Node.kind h
    exact absurd hkind (by decide)
  · obtain ⟨n, hn⟩ := (hends (parentOf nestedElement) fork).gives
    let a := fork.root.children.head!
    let a' := fork.root.children.tail.head!
    let b := a'.children.head!
    have hfirst : solutions fork.source nestedElement a [] = [[]] := rfl
    have hlater : solutions fork.source nestedElement a' [] = [[("x", b)], []] := rfl
    exact ⟨_, a, a', b, n, hparse wellFormed_nestedElement, rfl, hn, rfl, solves_of_solutions_eq hfirst,
      solves_of_solutions_eq hlater⟩

end RepeatedCaptures

end RuleScan.Query
