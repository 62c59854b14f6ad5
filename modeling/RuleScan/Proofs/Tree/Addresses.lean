import Mathlib.Data.List.Forall2
import RuleScan.Tree.Basic

/-! Addresses in trees. An address is a list of child numbers that leads from the root to a node. Trees of different
kinds are compared by what stands in them at the same addresses: if two trees have a node at the same addresses,
they have the same shape. -/
namespace RuleScan

/-- The numbers of the children on the way from the root to a node. -/
abbrev Address := List Nat

namespace Address

universe u v w

variable {α : Type u} {β : Type v}

/-- The node at an address, if there is one. -/
def node? (children : α → List α) : Address → α → Option α
  | [], a => some a
  | i :: address, a => (children a)[i]?.bind (node? children address)

variable {children : α → List α} {children' : β → List β}

theorem node?_cons_eq_some_iff {i : Nat} {p : Address} {a b : α} :
    node? children (i :: p) a = some b ↔ ∃ c, (children a)[i]? = some c ∧ node? children p c = some b := by
  rw [node?, Option.bind_eq_some_iff]

theorem node?_append (p q : Address) (a : α) :
    node? children (p ++ q) a = (node? children p a).bind (node? children q) := by
  induction p generalizing a with
  | nil => rfl
  | cons i p ih =>
    rw [List.cons_append, node?, node?]
    cases (children a)[i]? with
    | none => rfl
    | some c => exact ih c

/-- What some node of a tree has is had by its root or by some node of the tree of a child. -/
theorem exists_node?_iff {P : α → Prop} {a : α} :
    (∃ p b, node? children p a = some b ∧ P b) ↔
      P a ∨ ∃ c ∈ children a, ∃ p b, node? children p c = some b ∧ P b := by
  constructor
  · rintro ⟨p, b, hb, h⟩
    cases p with
    | nil =>
      cases hb
      exact .inl h
    | cons i p =>
      obtain ⟨c, hc, hb⟩ := node?_cons_eq_some_iff.mp hb
      exact .inr ⟨c, List.mem_of_getElem? hc, p, b, hb, h⟩
  · rintro (h | ⟨c, hc, p, b, hb, h⟩)
    · exact ⟨[], a, rfl, h⟩
    · obtain ⟨i, hi⟩ := List.getElem?_of_mem hc
      exact ⟨i :: p, b, node?_cons_eq_some_iff.mpr ⟨c, hi, hb⟩, h⟩

theorem rel_getElem? {R : α → β → Prop} {as : List α} {bs : List β} (h : List.Forall₂ R as bs) (i : Nat) :
    Option.Rel R as[i]? bs[i]? := by
  induction h generalizing i with
  | nil => exact .none
  | cons hab _ ih =>
    cases i with
    | zero => exact .some hab
    | succ i => exact ih i

/-- Related trees have related nodes at the same addresses. -/
theorem rel_node? {R : α → β → Prop} (hchildren : ∀ a b, R a b → List.Forall₂ R (children a) (children' b)) {a : α}
    {b : β} (h : R a b) (p : Address) : Option.Rel R (node? children p a) (node? children' p b) := by
  induction p generalizing a b with
  | nil => exact .some h
  | cons i p ih =>
    have hchild := rel_getElem? (hchildren a b h) i
    rw [node?, node?]
    generalize (children a)[i]? = c at hchild
    generalize (children' b)[i]? = d at hchild
    cases hchild with
    | none => exact .none
    | some hcd => exact ih hcd

theorem map_eq_of_rel {γ : Type w} {R : α → β → Prop} {f : α → γ} {g : β → γ} (h : ∀ a b, R a b → f a = g b)
    {x : Option α} {y : Option β} (hrel : Option.Rel R x y) : x.map f = y.map g := by
  cases hrel with
  | none => rfl
  | some hab => exact congrArg some (h _ _ hab)

theorem node?_map {f : α → β} (hchildren : ∀ a, children' (f a) = (children a).map f) (p : Address) (a : α) :
    node? children' p (f a) = (node? children p a).map f := by
  induction p generalizing a with
  | nil => rfl
  | cons i p ih =>
    rw [node?, node?, hchildren, List.getElem?_map]
    cases (children a)[i]? with
    | none => rfl
    | some c => exact ih c

/-- What holds of a node if it holds of its children holds of every node. -/
@[elab_as_elim]
theorem byChildren [SizeOf α] (hsize : ∀ a, ∀ c ∈ children a, sizeOf c < sizeOf a) {P : α → Prop}
    (node : ∀ a, (∀ c ∈ children a, P c) → P a) (a : α) : P a :=
  node a fun c _hc => byChildren hsize node c
  termination_by sizeOf a
  decreasing_by exact hsize a c _hc

end Address

abbrev Draft.at? (d : Draft) (p : Address) : Option Draft := Address.node? Draft.children p d

abbrev Node.at? (n : Node) (p : Address) : Option Node := Address.node? Node.children p n

theorem Draft.sizeOf_child (d : Draft) : ∀ c ∈ d.children, sizeOf c < sizeOf d := by
  intro c hc
  have hlt := List.sizeOf_lt_of_mem hc
  cases d
  simp only [mk.sizeOf_spec] at hlt ⊢
  omega

end RuleScan
