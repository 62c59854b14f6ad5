import RuleScan.Proofs.Query.Solutions

/-! What a solution has to bind. The search only adds to an environment, so that a name keeps the node it was
first bound to. Main statement: every solution binds the mandatory captures of its pattern. -/
namespace RuleScan.Query

/-- The pattern captures the name itself, or an element that has to occur does, or all alternatives do. -/
inductive Mandatory (name : String) : Pattern → Prop
  | own {p : Pattern} (mem : name ∈ p.captures) : Mandatory name p
  | element {kind : Option String} {es : List Element} {absent : List String} {q : Quantifier} {cs : List String}
      {field : Option String} {p : Pattern} (mem : (field, p) ∈ es)
      (occurs : p.quantifier = .one ∨ p.quantifier = .oneOrMore) (inner : Mandatory name p) :
      Mandatory name (.node kind es absent q cs)
  | alternation {as : List Pattern} {q : Quantifier} {cs : List String} (all : ∀ a ∈ as, Mandatory name a) :
      Mandatory name (.alternation as q cs)

theorem solvesOneOf_iff {source : Units} {ps : List Pattern} {n : Node} {s s' : Environment} :
    SolvesOneOf source ps n s s' ↔ ∃ p ∈ ps, Solves source p n s s' := by
  induction ps with
  | nil => simp [SolvesOneOf]
  | cons p ps ih => simp [SolvesOneOf, ih]

theorem Quantifier.Allows.ne_nil {q : Quantifier} (h : q = .one ∨ q = .oneOrMore) {taken : List Nat}
    (ha : q.Allows taken.length) : taken ≠ [] := by
  rintro rfl
  rcases h with rfl | rfl
  · exact absurd ha Nat.zero_ne_one
  · exact absurd ha (Nat.not_succ_le_zero 0)

theorem Binds.keeps {source : Units} {n : Node} {names : List String} {s s' : Environment}
    (h : Binds source n names s s') : s <+: s' := by
  induction h with
  | nil s => exact List.prefix_refl s
  | kept _ _ _ ih => exact ih
  | fresh _ _ ih => exact (List.prefix_append _ _).trans ih

/-- A captured name denotes the node, unless it was bound before. -/
theorem Binds.lookup_eq {source : Units} {n : Node} {names : List String} {s s' : Environment}
    (h : Binds source n names s s') {name : String} (hname : name ∈ names) :
    s'.lookup name = some ((s.lookup name).getD n) := by
  induction h with
  | nil s => cases hname
  | kept bound same rest ih =>
    rcases List.mem_cons.mp hname with rfl | hname
    · rw [bound]
      exact rest.keeps.lookup_eq_some bound
    · exact ih hname
  | @fresh x names s s' unbound rest ih =>
    rcases List.mem_cons.mp hname with rfl | hname
    · have hadded : (s ++ [(name, n)]).lookup name = some n := by
        rw [List.lookup_append, unbound]
        exact List.lookup_cons_self
      rw [unbound]
      exact rest.keeps.lookup_eq_some hadded
    · rw [ih hname, List.lookup_append]
      cases s.lookup name with
      | some m => rfl
      | none =>
        rw [Option.none_or, List.lookup_cons]
        cases name == x <;> rfl

mutual

/-- A solution only adds to what was bound, by the form of the pattern. -/
theorem Solves.keeps {source : Units} : ∀ (p : Pattern) {n : Node} {s s' : Environment},
    Solves source p n s s' → s <+: s'
  | .wildcard q cs, n, s, s', h => by
    rw [Solves] at h
    exact h.keeps
  | .literal v q cs, n, s, s', h => by
    rw [Solves] at h
    exact h.2.keeps
  | .alternation as q cs, n, s, s', h => by
    rw [Solves] at h
    obtain ⟨t, hone, hbind⟩ := h
    exact (SolvesOneOf.keeps as hone).trans hbind.keeps
  | .node kind es absent q cs, n, s, s', h => by
    rw [Solves] at h
    obtain ⟨-, -, -, t, hbind, positions, -, hassign⟩ := h
    exact hbind.keeps.trans (Assigns.keeps es hassign)

theorem SolvesOneOf.keeps {source : Units} : ∀ (ps : List Pattern) {n : Node} {s s' : Environment},
    SolvesOneOf source ps n s s' → s <+: s'
  | [], n, s, s', h => by
    rw [SolvesOneOf] at h
    exact h.elim
  | p :: ps, n, s, s', h => by
    rw [SolvesOneOf] at h
    rcases h with h | h
    · exact Solves.keeps p h
    · exact SolvesOneOf.keeps ps h

theorem Assigns.keeps {source : Units} : ∀ (es : List Element) {children : List Node} {positions : List (List Nat)}
    {s s' : Environment}, Assigns source es children positions s s' → s <+: s'
  | [], children, positions, s, s', h => by
    rw [Assigns] at h
    exact h.2 ▸ List.prefix_refl s
  | (field, p) :: es, children, positions, s, s', h => by
    rw [Assigns] at h
    obtain ⟨taken, rest, t, -, -, hoccupies, hassign⟩ := h
    have hrest := Assigns.keeps es hassign
    cases taken with
    | nil =>
      obtain rfl : t = s := hoccupies
      exact hrest
    | cons i later =>
      obtain ⟨⟨c, -, -, hsolves⟩, -⟩ := hoccupies
      exact (Solves.keeps p hsolves).trans hrest

end

section

variable {source : Units} {n : Node} {name : String} {s s' : Environment}

theorem Solves.exists_lookup_of_own {p : Pattern} (h : Solves source p n s s') (hname : name ∈ p.captures) :
    ∃ m, s'.lookup name = some m := by
  cases p with
  | wildcard q cs =>
    rw [Solves] at h
    exact ⟨_, h.lookup_eq hname⟩
  | literal v q cs =>
    rw [Solves] at h
    exact ⟨_, h.2.lookup_eq hname⟩
  | alternation as q cs =>
    rw [Solves] at h
    obtain ⟨t, -, hbind⟩ := h
    exact ⟨_, hbind.lookup_eq hname⟩
  | node kind es absent q cs =>
    rw [Solves] at h
    obtain ⟨-, -, -, t, hbind, positions, -, hassign⟩ := h
    exact ⟨_, (Assigns.keeps es hassign).lookup_eq_some (hbind.lookup_eq hname)⟩

/-- What the first child taken by an element binds is bound in the end. -/
theorem Assigns.exists_solves {es : List Element} {children : List Node} {positions : List (List Nat)}
    (h : Assigns source es children positions s s') {field : Option String} {p : Pattern} (hp : (field, p) ∈ es)
    (hq : p.quantifier = .one ∨ p.quantifier = .oneOrMore) :
    ∃ c t u, Solves source p c t u ∧ u <+: s' := by
  induction es generalizing positions s with
  | nil => cases hp
  | cons e es ih =>
    rw [Assigns] at h
    obtain ⟨taken, rest, t, -, hallows, hoccupies, hassign⟩ := h
    rcases List.mem_cons.mp hp with rfl | hp
    · obtain ⟨i, later, rfl⟩ := List.exists_cons_of_ne_nil (hallows.ne_nil hq)
      obtain ⟨⟨c, -, -, hsolves⟩, -⟩ := hoccupies
      exact ⟨c, s, t, hsolves, Assigns.keeps es hassign⟩
    · exact ih hassign hp

theorem Mandatory.exists_lookup {p : Pattern} (hname : Mandatory name p) (h : Solves source p n s s') :
    ∃ m, s'.lookup name = some m := by
  induction hname generalizing n s s' with
  | own mem => exact h.exists_lookup_of_own mem
  | element mem occurs inner ih =>
    rw [Solves] at h
    obtain ⟨-, -, -, t, -, positions, -, hassign⟩ := h
    obtain ⟨c, t, u, hsolves, hu⟩ := hassign.exists_solves mem occurs
    obtain ⟨m, hm⟩ := ih hsolves
    exact ⟨m, hu.lookup_eq_some hm⟩
  | alternation all ih =>
    rw [Solves] at h
    obtain ⟨t, hone, hbind⟩ := h
    obtain ⟨a, ha, hsolves⟩ := solvesOneOf_iff.mp hone
    obtain ⟨m, hm⟩ := ih a ha hsolves
    exact ⟨m, hbind.keeps.lookup_eq_some hm⟩

end

end RuleScan.Query
