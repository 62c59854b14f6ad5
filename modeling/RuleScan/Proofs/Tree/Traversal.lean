import Mathlib.Logic.Function.Iterate
import RuleScan.Proofs.Tree.Addresses
import RuleScan.Tree.Walk

/-! The traversal of a tree by recursion, and the walk with a stack of visits owed. Main statement: the walk ends and
makes exactly the visits of the recursion, each at the place of its node, and so it finds the nodes of a kind once
each, in the order of their places. -/
namespace RuleScan

universe u v

variable {σ : Type u} {τ : Type v}

/-- A visit that was made and whether the visitor went below. -/
abbrev Visit.Made := Visit × Bool

namespace Node

section

variable (visit : σ → Visit → σ × Bool)

mutual

/-- The visits that the recursion makes in the tree of a node with this parent and depth, and the state after them.
Where the visitor does not go below, the children are skipped. -/
def traverse (parent : Option Node) (depth : Nat) (state : σ) : Node → List Visit.Made × σ
  | ⟨kind, named, field, span, children, text, hasError⟩ =>
    let node : Node := ⟨kind, named, field, span, children, text, hasError⟩
    let (next, goBelow) := visit state ⟨node, parent, depth⟩
    let (inner, final) := if goBelow then traverseAll (some node) (depth + 1) next children else ([], next)
    ((⟨node, parent, depth⟩, goBelow) :: inner, final)

def traverseAll (parent : Option Node) (depth : Nat) (state : σ) : List Node → List Visit.Made × σ
  | [] => ([], state)
  | n :: rest =>
    let (first, next) := traverse parent depth state n
    let (others, final) := traverseAll parent depth next rest
    (first ++ others, final)

end

end

variable {visit : σ → Visit → σ × Bool} {parent : Option Node} {depth : Nat} {state : σ}

theorem preorderAll_append (xs ys : List Node) : preorderAll (xs ++ ys) = preorderAll xs ++ preorderAll ys := by
  induction xs with
  | nil => rw [preorderAll, List.nil_append, List.nil_append]
  | cons x xs ih => rw [List.cons_append, preorderAll, preorderAll, ih, List.append_assoc]

theorem traverse_eq (n : Node) : n.traverse visit parent depth state =
    let next := visit state ⟨n, parent, depth⟩
    let inner := if next.2 then traverseAll visit (some n) (depth + 1) next.1 n.children else ([], next.1)
    ((⟨n, parent, depth⟩, next.2) :: inner.1, inner.2) := by
  obtain ⟨_, _, _, _, _, _, _⟩ := n
  rw [traverse]

end Node

namespace Visit

/-- One turn of the loop: the first of the visits owed is made. -/
def turn (visit : σ → Visit → σ × Bool) : σ × List Visit → σ × List Visit
  | (state, []) => (state, [])
  | (state, v :: stack) =>
    let (next, goBelow) := visit state v
    (next, if goBelow then v.below ++ stack else stack)

/-- The visitor, with a record of the visits it makes. -/
def recording (visit : σ → Visit → σ × Bool) : List Made × σ → Visit → (List Made × σ) × Bool
  | (made, state), v =>
    let (next, goBelow) := visit state v
    ((made ++ [(v, goBelow)], next), goBelow)

/-- The visits that the recursion makes for those owed, one after another, and the state after them. -/
def traverseOwed (visit : σ → Visit → σ × Bool) (state : σ) : List Visit → List Made × σ
  | [] => ([], state)
  | v :: stack =>
    let (first, next) := v.node.traverse visit v.parent v.depth state
    let (others, final) := traverseOwed visit next stack
    (first ++ others, final)

variable {visit : σ → Visit → σ × Bool} {state : σ}

theorem traverseOwed_append (vs stack : List Visit) : traverseOwed visit state (vs ++ stack) =
    ((traverseOwed visit state vs).1 ++ (traverseOwed visit (traverseOwed visit state vs).2 stack).1,
      (traverseOwed visit (traverseOwed visit state vs).2 stack).2) := by
  induction vs generalizing state with
  | nil => rfl
  | cons v vs ih => simp only [List.cons_append, traverseOwed, ih, List.append_assoc]

theorem traverseAll_eq (parent : Option Node) (depth : Nat) (ns : List Node) :
    Node.traverseAll visit parent depth state ns = traverseOwed visit state (ns.map fun n => ⟨n, parent, depth⟩) := by
  induction ns generalizing state with
  | nil => rw [Node.traverseAll, List.map_nil, traverseOwed]
  | cons n ns ih => simp only [Node.traverseAll, List.map_cons, traverseOwed, ih]

/-- The loop invariant: what the recursion makes of the stack is the visit of one turn, and then what it makes of the
stack after the turn. -/
theorem traverseOwed_turn (v : Visit) (stack : List Visit) : traverseOwed visit state (v :: stack) =
    let after := turn visit (state, v :: stack)
    let rest := traverseOwed visit after.1 after.2
    ((v, (visit state v).2) :: rest.1, rest.2) := by
  obtain ⟨n, parent, depth⟩ := v
  rw [traverseOwed, turn, Node.traverse_eq]
  rcases visit state ⟨n, parent, depth⟩ with ⟨next, _ | _⟩
  · rfl
  · simp only [if_true, traverseAll_eq, traverseOwed_append]
    rfl

/-- A turn makes one visit, so the stack is empty when all of them are made, and not before. -/
theorem turns_eq_nil_iff (visit : σ → Visit → σ × Bool) (state : σ) (stack : List Visit) (k : Nat) :
    ((turn visit)^[k] (state, stack)).2 = [] ↔ (traverseOwed visit state stack).1.length ≤ k := by
  induction k generalizing state stack with
  | zero =>
    cases stack with
    | nil => simp [traverseOwed]
    | cons v stack => simp [traverseOwed_turn]
  | succ k ih =>
    rw [Function.iterate_succ_apply, ih]
    cases stack with
    | nil => simp [turn, traverseOwed]
    | cons v stack =>
      rw [traverseOwed_turn]
      exact Nat.succ_le_succ_iff.symm

theorem weight_turn (v : Visit) (stack : List Visit) :
    weight (turn visit (state, v :: stack)).2 < weight (v :: stack) := by
  rw [turn]
  dsimp only
  split
  · exact weight_below v stack
  · exact weight_tail v stack

/-- What holds of an empty stack, and before each turn if it holds after it, holds of every stack. -/
@[elab_as_elim]
theorem byTurns (visit : σ → Visit → σ × Bool) {P : σ → List Visit → Prop} (nil : ∀ state, P state [])
    (turn : ∀ state v stack, P (turn visit (state, v :: stack)).1 (turn visit (state, v :: stack)).2 →
      P state (v :: stack)) (state : σ) : (stack : List Visit) → P state stack
  | [] => nil state
  | v :: stack => turn state v stack (byTurns visit nil turn _ _)
  termination_by stack => weight stack
  decreasing_by exact weight_turn v stack

/-- The turns end in the state after the recursion. -/
theorem iterate_turn (visit : σ → Visit → σ × Bool) (state : σ) (stack : List Visit) :
    (turn visit)^[(traverseOwed visit state stack).1.length] (state, stack) =
      ((traverseOwed visit state stack).2, []) := by
  induction state, stack using byTurns visit with
  | nil => rfl
  | turn state v stack ih =>
    rw [traverseOwed_turn]
    exact ih

theorem length_traverseOwed_le (visit : σ → Visit → σ × Bool) (state : σ) (stack : List Visit) :
    (traverseOwed visit state stack).1.length ≤ weight stack := by
  induction state, stack using byTurns visit with
  | nil => exact Nat.zero_le _
  | turn state v stack ih =>
    rw [traverseOwed_turn]
    exact Nat.lt_of_le_of_lt ih (weight_turn v stack)

theorem run_turn (v : Visit) (stack : List Visit) : run visit state (v :: stack) =
    run visit (turn visit (state, v :: stack)).1 (turn visit (state, v :: stack)).2 := by
  rw [run, turn]
  rcases visit state v with ⟨next, _ | _⟩
  · rfl
  · rfl

/-- A walk can be watched: what is seen of its state is the state of a walk of its own. -/
theorem run_simulates (f : σ → τ) (watched : τ → Visit → τ × Bool)
    (h : ∀ s v, watched (f s) v = (f (visit s v).1, (visit s v).2)) (state : σ) (stack : List Visit) :
    run watched (f state) stack = f (run visit state stack) := by
  induction state, stack using byTurns visit with
  | nil state => rw [run, run]
  | turn state v stack ih =>
    rw [run_turn, run_turn, ← ih, turn, h]
    rfl

/-- The record of a walk holds the visits that the recursion makes. -/
theorem run_recording (visit : σ → Visit → σ × Bool) (made : List Made) (state : σ) (stack : List Visit) :
    run (recording visit) (made, state) stack =
      (made ++ (traverseOwed visit state stack).1, (traverseOwed visit state stack).2) := by
  induction state, stack using byTurns visit generalizing made with
  | nil state => rw [run, traverseOwed, List.append_nil]
  | turn state v stack ih =>
    have hturn : turn (recording visit) ((made, state), v :: stack) =
        ((made ++ [(v, (visit state v).2)], (turn visit (state, v :: stack)).1),
          (turn visit (state, v :: stack)).2) := rfl
    rw [run_turn, hturn, ih, traverseOwed_turn, List.append_assoc, List.singleton_append]

/-- A visitor that goes below every node meets the nodes in pre-order. -/
theorem run_everywhere (f : σ → Node → σ) (state : σ) (stack : List Visit) :
    run (fun s v => (f s v.node, true)) state stack = (Node.preorderAll (stack.map (·.node))).foldl f state := by
  induction state, stack using byTurns (fun s v => (f s v.node, true)) with
  | nil state => rw [run, List.map_nil, Node.preorderAll, List.foldl_nil]
  | turn state v stack ih =>
    obtain ⟨⟨kind, named, field, span, children, text, hasError⟩, parent, depth⟩ := v
    have hchildren : (below ⟨⟨kind, named, field, span, children, text, hasError⟩, parent, depth⟩).map (·.node) =
        children := by
      simp [below, Function.comp_def]
    rw [run_turn, ih, turn, List.map_cons, Node.preorderAll, Node.preorder]
    simp only [if_true, List.map_append, hchildren, Node.preorderAll_append, List.foldl_append, List.cons_append,
      List.foldl_cons]

/-- A visit that was made, with the address of its node. -/
abbrev Stop := Address × Made

/-- A visit of the node at an address below a node with this parent and depth. -/
structure Below (n : Node) (parent : Option Node) (depth : Nat) (p : Address) (v : Visit) : Prop where
  node : n.at? p = some v.node
  parent : v.parent = if p = [] then parent else n.at? p.dropLast
  depth : v.depth = depth + p.length

/-- Visits in the order of their places, one at most at each place. A place is visited where all nodes above it are
and the visitor went below them. -/
structure Placed (n : Node) (parent : Option Node) (depth : Nat) (stops : List Stop) : Prop where
  ordered : stops.Pairwise fun s t => s.1 < t.1
  below : ∀ s ∈ stops, s.2.1.Below n parent depth s.1
  reached_iff : ∀ p, (∃ x, (p, x) ∈ stops) ↔
    (n.at? p).isSome = true ∧ ∀ q i rest, p = q ++ i :: rest → ∃ v, (q, v, true) ∈ stops

namespace Placed

variable {n : Node} {parent : Option Node} {depth : Nat}

/-- Nothing below a node is visited where the visitor does not go below it. -/
theorem single (n : Node) (parent : Option Node) (depth : Nat) :
    Placed n parent depth [([], ⟨n, parent, depth⟩, false)] where
  ordered := List.pairwise_singleton _ _
  below := by
    rintro s hs
    rw [List.mem_singleton.mp hs]
    exact ⟨rfl, rfl, rfl⟩
  reached_iff p := by
    cases p with
    | nil => simp [Address.node?]
    | cons i p =>
      constructor
      · rintro ⟨x, hx⟩
        simp at hx
      · rintro ⟨-, h⟩
        obtain ⟨v, hv⟩ := h [] i p rfl
        simp at hv

/-- The stops in the trees of the children, each under the number of its child. -/
def numbered (lists : List (List Stop)) : List Stop :=
  lists.zipIdx.flatMap fun x => x.1.map fun s => (x.2 :: s.1, s.2)

theorem mem_numbered_iff {lists : List (List Stop)} {a : Address} {x : Made} :
    (a, x) ∈ numbered lists ↔ ∃ i p, a = i :: p ∧ ∃ l, lists[i]? = some l ∧ (p, x) ∈ l := by
  rw [numbered, List.mem_flatMap]
  constructor
  · rintro ⟨⟨l, i⟩, hl, hx⟩
    obtain ⟨⟨p, y⟩, hy, he⟩ := List.mem_map.mp hx
    obtain ⟨rfl, rfl⟩ := Prod.mk.inj he
    exact ⟨i, p, rfl, l, List.mk_mem_zipIdx_iff_getElem?.mp hl, hy⟩
  · rintro ⟨i, p, rfl, l, hl, hx⟩
    exact ⟨(l, i), List.mk_mem_zipIdx_iff_getElem?.mpr hl, List.mem_map.mpr ⟨(p, x), hx, rfl⟩⟩

theorem map_numbered (lists : List (List Stop)) : (numbered lists).map (·.2) = lists.flatten.map (·.2) := by
  have hmap : (numbered lists).map (·.2) = lists.zipIdx.flatMap fun x => x.1.map (·.2) := by
    simp [numbered, List.map_flatMap, Function.comp_def]
  rw [hmap, List.map_flatten, ← List.flatMap_def, ← List.zipIdx_map_fst 0 lists, List.flatMap_map]
  simp

theorem ordered_numbered {lists : List (List Stop)} (h : ∀ l ∈ lists, l.Pairwise fun s t => s.1 < t.1) :
    (numbered lists).Pairwise fun s t => s.1 < t.1 := by
  apply List.pairwise_flatMap.mpr
  constructor
  · rintro ⟨l, i⟩ hl
    apply List.pairwise_map.mpr
    have hl' := List.mem_of_getElem? (List.mk_mem_zipIdx_iff_getElem?.mp hl)
    exact (h l hl').imp fun hlt => List.cons_lt_cons_iff.mpr (.inr ⟨rfl, hlt⟩)
  · apply List.pairwise_iff_getElem.mpr
    intro i j hi hj hij s hs t ht
    obtain ⟨s, -, rfl⟩ := List.mem_map.mp hs
    obtain ⟨t, -, rfl⟩ := List.mem_map.mp ht
    apply List.cons_lt_cons_iff.mpr
    simp only [List.getElem_zipIdx]
    exact .inl (by omega)

section

variable {lists : List (List Stop)}
  (h : List.Forall₂ (fun c stops => Placed c (some n) (depth + 1) stops) n.children lists)

include h

theorem exists_child {i : Nat} {l : List Stop} (hl : lists[i]? = some l) :
    ∃ c, n.children[i]? = some c ∧ Placed c (some n) (depth + 1) l := by
  have hrel := Address.rel_getElem? h i
  rw [hl] at hrel
  cases hc : n.children[i]? with
  | none =>
    rw [hc] at hrel
    cases hrel
  | some c =>
    rw [hc] at hrel
    cases hrel with
    | some hplaced => exact ⟨c, rfl, hplaced⟩

theorem exists_stops {i : Nat} {c : Node} (hc : n.children[i]? = some c) :
    ∃ l, lists[i]? = some l ∧ Placed c (some n) (depth + 1) l := by
  have hrel := Address.rel_getElem? h i
  rw [hc] at hrel
  cases hl : lists[i]? with
  | none =>
    rw [hl] at hrel
    cases hrel
  | some l =>
    rw [hl] at hrel
    cases hrel with
    | some hplaced => exact ⟨l, rfl, hplaced⟩

theorem below_numbered {s : Stop} (hs : s ∈ numbered lists) : s.2.1.Below n parent depth s.1 := by
  obtain ⟨a, x⟩ := s
  obtain ⟨i, p, rfl, l, hl, hx⟩ := mem_numbered_iff.mp hs
  obtain ⟨c, hc, hplaced⟩ := exists_child h hl
  have hbelow := hplaced.below _ hx
  have hat (q : Address) : n.at? (i :: q) = c.at? q := by
    rw [Node.at?, Address.node?, hc, Option.bind_some]
  refine ⟨(hat p).trans hbelow.node, ?_, ?_⟩
  · cases p with
    | nil => exact hbelow.parent
    | cons j p => exact hbelow.parent.trans (hat _).symm
  · have hdepth := hbelow.depth
    simp only [List.length_cons] at hdepth ⊢
    omega

theorem reached_numbered_iff {i : Nat} {p : Address} : (∃ x, (i :: p, x) ∈ numbered lists) ↔
    (n.at? (i :: p)).isSome = true ∧ ∀ q k rest, p = q ++ k :: rest → ∃ v, (i :: q, v, true) ∈ numbered lists := by
  have hmem {l : List Stop} (hl : lists[i]? = some l) (q : Address) (x : Made) :
      (i :: q, x) ∈ numbered lists ↔ (q, x) ∈ l := by
    rw [mem_numbered_iff]
    constructor
    · rintro ⟨j, r, he, m, hm, hx⟩
      obtain ⟨rfl, rfl⟩ := List.cons.inj he
      cases hl.symm.trans hm
      exact hx
    · intro hx
      exact ⟨i, q, rfl, l, hl, hx⟩
  have hat : n.at? (i :: p) = (n.children[i]?).bind (Node.at? · p) := rfl
  cases hc : n.children[i]? with
  | none =>
    rw [hat, hc]
    constructor
    · rintro ⟨x, hx⟩
      obtain ⟨j, r, he, m, hm, -⟩ := mem_numbered_iff.mp hx
      obtain ⟨rfl, -⟩ := List.cons.inj he
      obtain ⟨c, hc', -⟩ := exists_child h hm
      exact nomatch hc.symm.trans hc'
    · rintro ⟨hsome, -⟩
      exact nomatch hsome
  | some c =>
    obtain ⟨l, hl, hplaced⟩ := exists_stops h hc
    rw [hat, hc]
    simp only [hmem hl]
    exact hplaced.reached_iff p

/-- The visits below a node where the visitor goes below it. -/
theorem cons : Placed n parent depth (([], ⟨n, parent, depth⟩, true) :: numbered lists) where
  ordered := by
    apply List.pairwise_cons.mpr
    constructor
    · rintro ⟨a, x⟩ hs
      obtain ⟨i, p, rfl, -⟩ := mem_numbered_iff.mp hs
      exact List.nil_lt_cons i p
    · apply ordered_numbered
      intro l hl
      obtain ⟨i, hi⟩ := List.getElem?_of_mem hl
      obtain ⟨c, -, hc⟩ := exists_child h hi
      exact hc.ordered
  below := List.forall_mem_cons.mpr ⟨⟨rfl, rfl, rfl⟩, fun _ hs => below_numbered h hs⟩
  reached_iff p := by
    have hempty {x : Made} : ([], x) ∉ numbered lists := by
      intro hx
      obtain ⟨i, p, he, -⟩ := mem_numbered_iff.mp hx
      cases he
    cases p with
    | nil => simp [Address.node?]
    | cons i p =>
      have hcons (q : Address) (x : Made) : (i :: q, x) ∈ ([], (⟨n, parent, depth⟩, true)) :: numbered lists ↔
          (i :: q, x) ∈ numbered lists := by
        simp
      simp only [hcons, reached_numbered_iff h]
      refine and_congr_right fun _ => ⟨fun hp q k rest he => ?_, fun hp q k rest he => ?_⟩
      · cases q with
        | nil => exact ⟨_, List.mem_cons_self⟩
        | cons j q =>
          obtain ⟨rfl, hrest⟩ := List.cons.inj he
          obtain ⟨v, hv⟩ := hp q k rest hrest
          exact ⟨v, (hcons q _).mpr hv⟩
      · obtain ⟨v, hv⟩ := hp (i :: q) k rest (congrArg (i :: ·) he)
        exact ⟨v, (hcons q _).mp hv⟩

end

end Placed

end Visit

mutual

/-- The recursion makes each visit at its place. -/
theorem Node.exists_placed (visit : σ → Visit → σ × Bool) (parent : Option Node) (depth : Nat) (state : σ) : ∀ n : Node,
    ∃ stops, stops.map (·.2) = (n.traverse visit parent depth state).1 ∧ Visit.Placed n parent depth stops
  | ⟨kind, named, field, span, children, text, hasError⟩ => by
    let n : Node := ⟨kind, named, field, span, children, text, hasError⟩
    obtain ⟨lists, hlists, hall⟩ :=
      exists_placedAll visit (some n) (depth + 1) (visit state ⟨n, parent, depth⟩).1 children
    change ∃ stops, stops.map (·.2) = (n.traverse visit parent depth state).1 ∧ Visit.Placed n parent depth stops
    rw [traverse_eq]
    dsimp only
    cases (visit state ⟨n, parent, depth⟩).2 with
    | false => exact ⟨_, rfl, .single n parent depth⟩
    | true =>
      refine ⟨_, ?_, .cons hall⟩
      rw [List.map_cons, Visit.Placed.map_numbered, hlists]
      rfl

theorem Node.exists_placedAll (visit : σ → Visit → σ × Bool) (parent : Option Node) (depth : Nat) (state : σ) :
    ∀ ns : List Node, ∃ lists : List (List Visit.Stop),
      lists.flatten.map (·.2) = (Node.traverseAll visit parent depth state ns).1 ∧
        List.Forall₂ (fun c stops => Visit.Placed c parent depth stops) ns lists
  | [] => ⟨[], by rw [traverseAll]; rfl, .nil⟩
  | n :: rest => by
    obtain ⟨stops, hstops, hplaced⟩ := exists_placed visit parent depth state n
    obtain ⟨lists, hlists, hall⟩ := exists_placedAll visit parent depth (n.traverse visit parent depth state).2 rest
    refine ⟨stops :: lists, ?_, .cons hplaced hall⟩
    rw [traverseAll, List.flatten_cons, List.map_append, hstops, hlists]

end

namespace Visit

variable {visit : σ → Visit → σ × Bool}

/-- The visitor went below where it says so. -/
theorem exists_answer (state : σ) (stack : List Visit) :
    ∀ x ∈ (traverseOwed visit state stack).1, ∃ s, x.2 = (visit s x.1).2 := by
  induction state, stack using byTurns visit with
  | nil => exact List.forall_mem_nil _
  | turn state v stack ih =>
    rw [traverseOwed_turn]
    exact List.forall_mem_cons.mpr ⟨⟨state, rfl⟩, ih⟩

theorem traverseOwed_singleton (visit : σ → Visit → σ × Bool) (v : Visit) (state : σ) :
    traverseOwed visit state [v] = v.node.traverse visit v.parent v.depth state := by
  simp [traverseOwed]

/-- Where the visitor always goes below, every place in the tree is visited. -/
theorem Placed.mem_of_isSome {n : Node} {parent : Option Node} {depth : Nat} {stops : List Stop}
    (h : Placed n parent depth stops) (hbelow : ∀ s ∈ stops, s.2.2 = true) {p : Address}
    (hp : (n.at? p).isSome = true) : ∃ x, (p, x) ∈ stops := by
  apply (h.reached_iff p).mpr
  refine ⟨hp, ?_⟩
  intro q i rest he
  have hq : (n.at? q).isSome = true := by
    rw [he, Node.at?, Address.node?_append] at hp
    exact Option.isSome_of_isSome_bind hp
  have hlt : q.length < p.length := by
    rw [he, List.length_append, List.length_cons]
    omega
  obtain ⟨⟨v, goBelow⟩, hv⟩ := h.mem_of_isSome hbelow hq
  obtain rfl : goBelow = true := hbelow _ hv
  exact ⟨v, hv⟩
  termination_by p.length

end Visit

namespace Node

theorem walk_eq_foldl (f : σ → Node → σ) (state : σ) (root : Node) :
    root.walk (fun s v => (f s v.node, true)) state = root.preorder.foldl f state := by
  have hrun := Visit.run_everywhere f state [⟨root, none, 0⟩]
  rw [List.map_singleton, preorderAll, preorderAll, List.append_nil] at hrun
  exact hrun

/-- The visitor that goes below every node. -/
def everywhere : Unit → Visit → Unit × Bool := fun state _ => (state, true)

theorem visits_eq (root : Node) : root.visits (fun _ => true) = (root.traverse everywhere none 0 ()).1.map (·.1) := by
  let listed (x : List Visit.Made × Unit) : Array Visit := (x.1.map (·.1)).toArray
  have hlisted (x : List Visit.Made × Unit) (v : Visit) : ((listed x).push v, true) =
      (listed (Visit.recording everywhere x v).1, (Visit.recording everywhere x v).2) := by
    simp [listed, Visit.recording, everywhere]
  have hrun := Visit.run_simulates listed (fun acc v => (acc.push v, true)) hlisted ([], ()) [⟨root, none, 0⟩]
  rw [Visit.run_recording, List.nil_append, Visit.traverseOwed_singleton] at hrun
  exact congrArg Array.toList hrun

/-- The nodes of a kind are found once each, in the order of their places. -/
theorem exists_places_ofKind (root : Node) (kind : String) : ∃ places : List Address, places.Pairwise (· < ·) ∧
    (∀ p, p ∈ places ↔ ∃ n, root.at? p = some n ∧ n.kind = kind) ∧
    places.map root.at? = (root.ofKind kind).map some := by
  obtain ⟨stops, hstops, hplaced⟩ := root.exists_placed everywhere none 0 ()
  have hbelow : ∀ s ∈ stops, s.2.2 = true := by
    intro s hs
    have hs' : s.2 ∈ (Visit.traverseOwed everywhere () [⟨root, none, 0⟩]).1 := by
      rw [Visit.traverseOwed_singleton, ← hstops]
      exact List.mem_map_of_mem hs
    obtain ⟨_, hanswer⟩ := Visit.exists_answer () _ _ hs'
    exact hanswer
  let found := stops.filter fun s => s.2.1.node.kind == kind
  refine ⟨found.map (·.1), ?_, ?_, ?_⟩
  · exact List.pairwise_map.mpr (hplaced.ordered.sublist List.filter_sublist)
  · intro p
    constructor
    · intro hp
      obtain ⟨s, hs, rfl⟩ := List.mem_map.mp hp
      obtain ⟨hs, hkind⟩ := List.mem_filter.mp hs
      exact ⟨_, (hplaced.below s hs).node, beq_iff_eq.mp hkind⟩
    · rintro ⟨n, hn, hkind⟩
      obtain ⟨x, hx⟩ := hplaced.mem_of_isSome hbelow (Option.isSome_of_mem hn)
      have hnode := (hplaced.below _ hx).node
      obtain rfl : n = x.1.node := Option.some.inj (hn.symm.trans hnode)
      exact List.mem_map.mpr ⟨(p, x), List.mem_filter.mpr ⟨hx, beq_iff_eq.mpr hkind⟩, rfl⟩
  · have hkinds : root.ofKind kind = found.map (·.2.1.node) := by
      rw [ofKind, visits_eq, ← hstops, List.map_map, List.map_map, List.filter_map]
      rfl
    rw [hkinds, List.map_map, List.map_map]
    apply List.map_congr_left
    intro s hs
    exact (hplaced.below s (List.mem_filter.mp hs).1).node

/-- The loop ends after as many turns as the recursion makes visits, one for each node at most. The walk makes the
visits of the recursion and comes to the same state. -/
theorem walk_recursive (visit : σ → Visit → σ × Bool) (state : σ) (root : Node) :
    let recursion := root.traverse visit none 0 state
    let start : σ × List Visit := (state, [⟨root, none, 0⟩])
    (∀ k, ((Visit.turn visit)^[k] start).2 = [] ↔ recursion.1.length ≤ k) ∧ recursion.1.length ≤ root.size ∧
      (Visit.turn visit)^[recursion.1.length] start = (recursion.2, []) ∧ root.walk visit state = recursion.2 ∧
      root.walk (Visit.recording visit) ([], state) = recursion ∧
      (∃ stops, stops.map (·.2) = recursion.1 ∧ Visit.Placed root none 0 stops) ∧
      ∀ kind, ∃ places : List Address, places.Pairwise (· < ·) ∧
        (∀ p, p ∈ places ↔ ∃ n, root.at? p = some n ∧ n.kind = kind) ∧
        places.map root.at? = (root.ofKind kind).map some := by
  intro recursion start
  have howed : Visit.traverseOwed visit state [⟨root, none, 0⟩] = recursion := Visit.traverseOwed_singleton _ _ _
  have hturns := Visit.turns_eq_nil_iff visit state [⟨root, none, 0⟩]
  have hlength := Visit.length_traverseOwed_le visit state [⟨root, none, 0⟩]
  have hend := Visit.iterate_turn visit state [⟨root, none, 0⟩]
  have hrecord := Visit.run_recording visit [] state [⟨root, none, 0⟩]
  have hstate : root.walk visit state = (Visit.run (Visit.recording visit) ([], state) [⟨root, none, 0⟩]).2 :=
    Visit.run_simulates Prod.snd visit (fun _ _ => rfl) ([], state) [⟨root, none, 0⟩]
  rw [howed] at hturns hlength hend hrecord
  rw [hrecord] at hstate
  exact ⟨hturns, hlength, hend, hstate, hrecord, root.exists_placed visit none 0 state, root.exists_places_ofKind⟩

end Node

end RuleScan
