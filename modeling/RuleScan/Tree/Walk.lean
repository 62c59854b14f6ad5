import RuleScan.Tree.Basic

/-! Pre-order traversal of a tree, with the parent and the depth of each visited node. -/

namespace RuleScan

structure Visit where
  node : Node
  parent : Option Node
  depth : Nat

namespace Node

mutual

def size : Node → Nat
  | ⟨_, _, _, _, children, _, _⟩ => 1 + sizeAll children

def sizeAll : List Node → Nat
  | [] => 0
  | n :: rest => size n + sizeAll rest

end

mutual

/-- The nodes of a subtree in pre-order. -/
def preorder : Node → List Node
  | ⟨kind, named, field, span, children, text, hasError⟩ =>
    ⟨kind, named, field, span, children, text, hasError⟩ :: preorderAll children

def preorderAll : List Node → List Node
  | [] => []
  | n :: rest => preorder n ++ preorderAll rest

end

theorem mem_preorder_self (n : Node) : n ∈ n.preorder := by
  obtain ⟨_, _, _, _, _, _, _⟩ := n
  rw [preorder]
  exact List.mem_cons_self

theorem mem_preorderAll {m : Node} {ns : List Node} : m ∈ preorderAll ns ↔ ∃ n ∈ ns, m ∈ n.preorder := by
  induction ns with
  | nil => simp [preorderAll]
  | cons n rest ih => simp [preorderAll, ih]

theorem mem_preorder_of_child {m c n : Node} (hc : c ∈ n.children) (hm : m ∈ c.preorder) : m ∈ n.preorder := by
  obtain ⟨_, _, _, _, _, _, _⟩ := n
  rw [preorder]
  exact List.mem_cons_of_mem _ (mem_preorderAll.mpr ⟨c, hc, hm⟩)

mutual

/-- The subtrees of a subtree belong to it. -/
theorem preorder_subset : ∀ r : Node, ∀ n ∈ r.preorder, n.preorder ⊆ r.preorder
  | ⟨kind, named, field, span, children, text, hasError⟩ => by
    rw [preorder]
    intro n hn
    rcases List.mem_cons.mp hn with rfl | hn
    · rw [preorder]
      exact List.Subset.refl _
    · exact List.subset_cons_of_subset _ (preorderAll_subset children n hn)

theorem preorderAll_subset : ∀ ns : List Node, ∀ n ∈ preorderAll ns, n.preorder ⊆ preorderAll ns
  | [] => by
    rw [preorderAll]
    exact nofun
  | r :: rest => by
    rw [preorderAll]
    intro n hn
    rcases List.mem_append.mp hn with hn | hn
    · exact List.subset_append_of_subset_left _ (preorder_subset r n hn)
    · exact List.subset_append_of_subset_right _ (preorderAll_subset rest n hn)

end

end Node

namespace Visit

/-- The visits still owed, in order. -/
def weight (stack : List Visit) : Nat := Node.sizeAll (stack.map (·.node))

def below (v : Visit) : List Visit := v.node.children.map fun c => ⟨c, some v.node, v.depth + 1⟩

theorem sizeAll_append (xs ys : List Node) :
    Node.sizeAll (xs ++ ys) = Node.sizeAll xs + Node.sizeAll ys := by
  induction xs with
  | nil => simp [Node.sizeAll]
  | cons x xs ih => simp [Node.sizeAll, ih, Nat.add_assoc]

theorem weight_below (v : Visit) (stack : List Visit) :
    weight (v.below ++ stack) < weight (v :: stack) := by
  have h : (v.below.map (·.node)) = v.node.children := by
    simp [below, Function.comp_def]
  obtain ⟨⟨_, _, _, _, _, _, _⟩, _, _⟩ := v
  simp [weight, sizeAll_append, h, Node.sizeAll, Node.size]

theorem weight_tail (v : Visit) (stack : List Visit) : weight stack < weight (v :: stack) := by
  obtain ⟨⟨_, _, _, _, _, _, _⟩, _, _⟩ := v
  simp only [weight, List.map_cons, Node.sizeAll, Node.size]
  omega

/-- Walks from a stack of owed visits, threading a state. The visitor says whether to go below. -/
def run {σ : Type u} (visit : σ → Visit → σ × Bool) (state : σ) : List Visit → σ
  | [] => state
  | v :: stack =>
    let (next, goBelow) := visit state v
    if goBelow then run visit next (v.below ++ stack) else run visit next stack
termination_by stack => weight stack
decreasing_by
  · exact weight_below v stack
  · exact weight_tail v stack

end Visit

namespace Node

/-- Walks a tree in pre-order, threading a state. -/
def walk {σ : Type u} (visit : σ → Visit → σ × Bool) (state : σ) (root : Node) : σ :=
  Visit.run visit state [⟨root, none, 0⟩]

/-- All visits in order, going below every node that `enter` admits. -/
def visits (enter : Node → Bool) (root : Node) : List Visit :=
  (root.walk (fun (acc : Array Visit) v => (acc.push v, enter v.node)) #[]).toList

/-- The nodes of a kind, in pre-order. -/
def ofKind (kind : String) (root : Node) : List Node :=
  ((root.visits fun _ => true).map (·.node)).filter (·.kind == kind)

end Node

end RuleScan
