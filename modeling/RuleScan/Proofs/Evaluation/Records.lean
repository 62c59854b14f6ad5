import RuleScan.Evaluation.Textual

/-! The records that textual matches bind their groups in. Groups are bound in their order, each under its name, but for
the one that has the name of the base: its node becomes the base of the record. -/
namespace RuleScan

def Bindings.memberNames : List String := ["kind", "named", "field", "span", "children", "text", "hasError"]

namespace Textual

open Bindings (baseName)

variable {base base' : Option Node} {bound rest b : Bindings}

theorem bindEach_eq_ok (hunique : (rest.map (·.1)).Nodup) (h : bindEach base bound rest = .ok (b, base')) :
    b = bound ++ rest.filter (·.1 != baseName) ∧ base' = (rest.lookup baseName).or base := by
  induction rest generalizing base bound with
  | nil =>
    cases h
    exact ⟨(List.append_nil _).symm, rfl⟩
  | cons x rest ih =>
    obtain ⟨name, node⟩ := x
    rw [List.map_cons, List.nodup_cons] at hunique
    obtain ⟨hnew, hunique⟩ := hunique
    rw [bindEach] at h
    split at h
    · next hname =>
      obtain ⟨hb, hbase⟩ := ih hunique h
      have hnone : rest.lookup baseName = none := by
        rw [List.lookup_eq_none_iff]
        intro y hy
        rw [bne_iff_ne]
        intro he
        exact hnew (List.mem_map.mpr ⟨y, hy, he.symm.trans hname.symm⟩)
      rw [List.filter_cons_of_neg (by simp [hname]), hb, hbase, hnone, hname, List.lookup_cons_self]
      exact ⟨rfl, rfl⟩
    · next hname =>
      split at h
      · cases h
      obtain ⟨hb, hbase⟩ := ih hunique h
      rw [List.filter_cons_of_pos (by simpa using hname), hb, hbase, List.append_assoc, List.lookup_cons,
        beq_false_of_ne (Ne.symm hname)]
      exact ⟨rfl, rfl⟩

theorem bindEach_of_notMem (h : baseName ∉ rest.map (·.1)) (bound : Bindings) :
    bindEach none bound rest = .ok (bound ++ rest, none) := by
  induction rest generalizing bound with
  | nil => rw [bindEach, List.append_nil]
  | cons x rest ih =>
    obtain ⟨name, node⟩ := x
    rw [List.map_cons, List.mem_cons, not_or] at h
    rw [bindEach, if_neg (Ne.symm h.1), Option.any_none, if_neg Bool.false_ne_true, ih h.2, List.append_assoc]
    rfl

/-- Once there is a base, the names of its members cannot be bound. -/
theorem exists_bindEach_some_iff {n : Node} :
    (∃ record, bindEach (some n) bound rest = .ok record) ↔ ∀ x ∈ rest, x.1 ∉ Bindings.memberNames := by
  induction rest generalizing n bound with
  | nil => exact ⟨fun _ => List.forall_mem_nil _, fun _ => ⟨_, rfl⟩⟩
  | cons x rest ih =>
    obtain ⟨name, node⟩ := x
    rw [List.forall_mem_cons, bindEach]
    split
    · next hname =>
      have hnot : name ∉ Bindings.memberNames := hname ▸ by decide
      rw [ih]
      exact ⟨fun h => ⟨hnot, h⟩, fun h => h.2⟩
    split
    · next hmember =>
      have hmem : name ∈ Bindings.memberNames := List.contains_iff_mem.mp hmember
      simp [hmem]
    · next hmember =>
      have hnot : name ∉ Bindings.memberNames := fun hmem => hmember (List.contains_iff_mem.mpr hmem)
      rw [ih]
      exact ⟨fun h => ⟨hnot, h⟩, fun h => h.2⟩

theorem exists_bindEach_none_iff : (∃ record, bindEach none bound rest = .ok record) ↔
    ∀ before node after, rest = before ++ (baseName, node) :: after → ∀ x ∈ after, x.1 ∉ Bindings.memberNames := by
  induction rest generalizing bound with
  | nil =>
    refine ⟨fun _ before node after he => ?_, fun _ => ⟨_, rfl⟩⟩
    exact absurd he.symm (by simp)
  | cons x rest ih =>
    obtain ⟨name, node⟩ := x
    rw [bindEach]
    split
    · next hname =>
      rw [exists_bindEach_some_iff]
      constructor
      · intro h before node' after he x hx
        rcases List.cons_eq_append_iff.mp he with ⟨-, he⟩ | ⟨before', -, rfl⟩
        · exact h x ((List.cons.inj he).2 ▸ hx)
        · exact h x (by simp [hx])
      · intro h x hx
        exact h [] node rest (by rw [hname]; rfl) x hx
    · next hname =>
      rw [Option.any_none, if_neg Bool.false_ne_true, ih]
      constructor
      · intro h before node' after he
        rcases List.cons_eq_append_iff.mp he with ⟨-, he⟩ | ⟨before', -, hrest⟩
        · exact absurd (congrArg Prod.fst (List.cons.inj he).1).symm hname
        · exact h before' node' after hrest
      · intro h before node' after he
        exact h ((name, node) :: before) node' after (by rw [he]; rfl)

/-- What is so of all nodes that are bound in turn is so of what the record answers with. -/
theorem forall_of_bindEach {P : Node → Prop} (hbase : ∀ n ∈ base, P n) (hbound : ∀ x ∈ bound, P x.2)
    (hrest : ∀ x ∈ rest, P x.2) (h : bindEach base bound rest = .ok (b, base')) :
    (∀ x ∈ b, P x.2) ∧ ∀ n ∈ base', P n := by
  induction rest generalizing base bound with
  | nil =>
    cases h
    exact ⟨hbound, hbase⟩
  | cons x rest ih =>
    obtain ⟨name, node⟩ := x
    obtain ⟨hnode, hrest⟩ := List.forall_mem_cons.mp hrest
    rw [bindEach] at h
    split at h
    · exact ih (fun n hn => Option.some.inj hn ▸ hnode) hbound hrest h
    split at h
    · cases h
    · refine ih hbase ?_ hrest h
      exact List.forall_mem_append.mpr ⟨hbound, List.forall_mem_singleton.mpr hnode⟩

section Matches

variable {source : Units} {lines : LineIndex} {found : Regex.Found}

theorem map_fst_groups (source : Units) (lines : LineIndex) (found : Regex.Found) :
    (groups source lines found).map (·.1) = found.named.map (·.1) := by
  rw [groups, List.map_map]
  rfl

theorem bindings_eq_ok (hunique : (found.named.map (·.1)).Nodup)
    (h : bindings source lines found = .ok (b, base)) :
    b = (groups source lines found).filter (·.1 != baseName) ∧ base = (groups source lines found).lookup baseName := by
  rw [← map_fst_groups source lines] at hunique
  obtain ⟨hb, hbase⟩ := bindEach_eq_ok hunique h
  exact ⟨hb, hbase.trans Option.or_none⟩

theorem bindings_of_notMem (h : baseName ∉ found.named.map (·.1)) :
    bindings source lines found = .ok (groups source lines found, none) := by
  rw [← map_fst_groups source lines] at h
  exact bindEach_of_notMem h []

theorem forall_of_bindings {P : Node → Prop} (h : bindings source lines found = .ok (b, base))
    (hgroups : ∀ x ∈ groups source lines found, P x.2) : (∀ x ∈ b, P x.2) ∧ ∀ n ∈ base, P n := by
  have hnone : ∀ n ∈ (none : Option Node), P n := nofun
  exact forall_of_bindEach hnone (List.forall_mem_nil _) hgroups h

end Matches

end Textual

namespace Bindings

variable {base : Option Node} {name : String} {n : Node}

theorem inherited_eq_node_iff : inherited base name = .node n ↔ base = some n ∧ name = baseName := by
  unfold inherited
  cases base with
  | none =>
    simp only [reduceCtorEq, false_and, iff_false]
    split <;> exact nofun
  | some m =>
    dsimp only
    split
    · next hname => simp [hname]
    · next hname =>
      simp only [hname, and_false, iff_false]
      split <;> exact nofun

theorem inherited_none_eq_noNode_iff : inherited none name = .noNode ↔ name ∈ inherent := by simp [inherited]

/-- No record answers by itself to what is no inherent name and not the name of a member. -/
theorem inherited_ne_noNode (hordinary : name ∉ inherent) (hmember : name ∉ memberNames) (base : Option Node) :
    inherited base name ≠ .noNode := by
  unfold inherited
  cases base with
  | none => simp [hordinary]
  | some n =>
    have hlookup : (members n).lookup name ≠ some true := by
      intro he
      obtain ⟨l₁, l₂, hsplit, -⟩ := List.lookup_eq_some_iff.mp he
      have hmem : name ∈ (members n).map (·.1) := by
        rw [hsplit]
        simp
      exact hmember hmem
    dsimp only
    split
    · exact nofun
    · simp [hordinary, hlookup]

/-- There is a node whose members all are met as something which is no node. -/
theorem exists_inherited_eq_noNode (hmember : name ∈ memberNames) : ∃ base, inherited base name = .noNode := by
  let text := Textual.node (Units.ofString "x") (LineIndex.ofText (Units.ofString "x")) 0 1
  refine ⟨some { text with field := some "field", hasError := true }, ?_⟩
  simp only [memberNames, List.mem_cons, List.not_mem_nil, or_false] at hmember
  rcases hmember with rfl | rfl | rfl | rfl | rfl | rfl | rfl <;> rfl

/-- A record answers with a node if the name is bound to it, or if the name is not bound and the node is the base that is
asked for. -/
theorem meaning_eq_node_or {b : Bindings} : b.meaning name base = .node n ↔
    b.lookup name = some n ∨ b.lookup name = none ∧ base = some n ∧ name = baseName := by
  unfold meaning
  cases b.lookup name with
  | some m => simp
  | none => simp [inherited_eq_node_iff]

theorem meaning_eq_noNode_iff_inherited {b : Bindings} : b.meaning name base = .noNode ↔
    b.lookup name = none ∧ inherited base name = .noNode := by
  unfold meaning
  cases b.lookup name with
  | some m => simp
  | none => simp

end Bindings

theorem Match.mem_of_meaning {m : Match} {name : String} {n : Node} (h : m.meaning name = .node n) :
    (∃ x ∈ m.bindings, x.2 = n) ∨ m.base = some n := by
  obtain hbound | ⟨-, hbase, -⟩ := Bindings.meaning_eq_node_or.mp h
  · obtain ⟨l₁, l₂, he, -⟩ := List.lookup_eq_some_iff.mp hbound
    exact .inl ⟨(name, n), he ▸ List.mem_append_right _ List.mem_cons_self, rfl⟩
  · exact .inr hbase

end RuleScan
