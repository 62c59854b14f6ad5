import RuleScan.Proofs.Query.Solutions
import RuleScan.Query.Parser

/-! The captures of a pattern tree, as they are named in a query and as its solutions bind them. -/
namespace RuleScan.Query

mutual

/-- The captures of a pattern and of the patterns in it, in the order in which they are written. -/
def Pattern.allCaptures : Pattern → List String
  | .wildcard _ cs => cs
  | .literal _ _ cs => cs
  | .alternation as _ cs => capturesOfAll as ++ cs
  | .node _ es _ _ cs => capturesOfElements es ++ cs

def capturesOfAll : List Pattern → List String
  | [] => []
  | p :: ps => p.allCaptures ++ capturesOfAll ps

def capturesOfElements : List Element → List String
  | [] => []
  | (_, p) :: es => p.allCaptures ++ capturesOfElements es

end

private theorem eraseDups_loop_eq_foldl_addName (names acc : List String) :
    List.eraseDupsBy.loop (· == ·) names acc.reverse = names.foldl addName acc := by
  induction names generalizing acc with
  | nil => rw [List.eraseDupsBy.loop, List.reverse_reverse, List.foldl_nil]
  | cons name names ih =>
    have hany : (acc.any fun x => name == x) = acc.contains name := by
      rw [List.contains_eq_any_beq]
    rw [List.eraseDupsBy.loop, List.foldl_cons, addName, List.any_reverse, hany]
    cases acc.contains name with
    | true => exact ih acc
    | false => simpa using ih (acc ++ [name])

/-- Adding names one by one keeps the first of equal ones. -/
theorem foldl_addName_eq_eraseDups (names : List String) : names.foldl addName [] = names.eraseDups :=
  (eraseDups_loop_eq_foldl_addName names []).symm

theorem Binds.mem_or {source : Units} {n : Node} {names : List String} {s s' : Environment}
    (h : Binds source n names s s') {x : String × Node} (hx : x ∈ s') : x ∈ s ∨ x.1 ∈ names ∧ x.2 = n := by
  induction h with
  | nil s => exact .inl hx
  | kept bound same rest ih => exact (ih hx).imp_right fun hn => ⟨List.mem_cons_of_mem _ hn.1, hn.2⟩
  | fresh unbound rest ih =>
    rcases ih hx with hs | hn
    · rcases List.mem_append.mp hs with hs | hs
      · exact .inl hs
      · obtain rfl := List.mem_singleton.mp hs
        exact .inr ⟨List.mem_cons_self, rfl⟩
    · exact .inr ⟨List.mem_cons_of_mem _ hn.1, hn.2⟩

theorem Binds.mem_or_preorder {source : Units} {n : Node} {names : List String} {s s' : Environment}
    (h : Binds source n names s s') {x : String × Node} (hx : x ∈ s') : x ∈ s ∨ x.1 ∈ names ∧ x.2 ∈ n.preorder := by
  rcases h.mem_or hx with hs | ⟨hname, hn⟩
  · exact .inl hs
  · exact .inr ⟨hname, hn ▸ n.mem_preorder_self⟩

mutual

/-- A solution binds only what was bound before and what the pattern captures, to nodes of the subtree. -/
theorem Solves.mem_or {source : Units} {x : String × Node} : ∀ (p : Pattern) {n : Node} {s s' : Environment},
    Solves source p n s s' → x ∈ s' → x ∈ s ∨ x.1 ∈ p.allCaptures ∧ x.2 ∈ n.preorder
  | .wildcard q cs, n, s, s', h, hx => by
    rw [Solves] at h
    rw [Pattern.allCaptures]
    exact h.mem_or_preorder hx
  | .literal v q cs, n, s, s', h, hx => by
    rw [Solves] at h
    rw [Pattern.allCaptures]
    exact h.2.mem_or_preorder hx
  | .alternation as q cs, n, s, s', h, hx => by
    rw [Solves] at h
    obtain ⟨t, hone, hbind⟩ := h
    rw [Pattern.allCaptures, List.mem_append]
    rcases hbind.mem_or_preorder hx with ht | ⟨hc, hn⟩
    · exact (SolvesOneOf.mem_or as hone ht).imp_right fun hm => ⟨.inl hm.1, hm.2⟩
    · exact .inr ⟨.inr hc, hn⟩
  | .node kind es absent q cs, n, s, s', h, hx => by
    rw [Solves] at h
    obtain ⟨-, -, -, t, hbind, positions, -, hassign⟩ := h
    rw [Pattern.allCaptures, List.mem_append]
    rcases Assigns.mem_or es hassign hx with ht | ⟨he, c, hc, hm⟩
    · exact (hbind.mem_or_preorder ht).imp_right fun hn => ⟨.inr hn.1, hn.2⟩
    · exact .inr ⟨.inl he, Node.mem_preorder_of_child hc hm⟩

theorem SolvesOneOf.mem_or {source : Units} {x : String × Node} : ∀ (ps : List Pattern) {n : Node}
    {s s' : Environment}, SolvesOneOf source ps n s s' → x ∈ s' → x ∈ s ∨ x.1 ∈ capturesOfAll ps ∧ x.2 ∈ n.preorder
  | [], n, s, s', h, hx => by
    rw [SolvesOneOf] at h
    exact h.elim
  | p :: ps, n, s, s', h, hx => by
    rw [SolvesOneOf] at h
    rw [capturesOfAll, List.mem_append]
    rcases h with h | h
    · exact (Solves.mem_or p h hx).imp_right fun hm => ⟨.inl hm.1, hm.2⟩
    · exact (SolvesOneOf.mem_or ps h hx).imp_right fun hm => ⟨.inr hm.1, hm.2⟩

theorem Assigns.mem_or {source : Units} {x : String × Node} : ∀ (es : List Element) {children : List Node}
    {positions : List (List Nat)} {s s' : Environment}, Assigns source es children positions s s' → x ∈ s' →
    x ∈ s ∨ x.1 ∈ capturesOfElements es ∧ ∃ c ∈ children, x.2 ∈ c.preorder
  | [], children, positions, s, s', h, hx => by
    rw [Assigns] at h
    exact .inl (h.2 ▸ hx)
  | (field, p) :: es, children, positions, s, s', h, hx => by
    rw [Assigns] at h
    obtain ⟨taken, rest, t, -, -, hoccupies, hassign⟩ := h
    rw [capturesOfElements, List.mem_append]
    rcases Assigns.mem_or es hassign hx with ht | ⟨he, hc⟩
    · cases taken with
      | nil =>
        obtain rfl : t = s := hoccupies
        exact .inl ht
      | cons i later =>
        obtain ⟨⟨c, hc, -, hsolves⟩, -⟩ := hoccupies
        refine (Solves.mem_or p hsolves ht).imp_right fun hm => ⟨.inl hm.1, c, ?_, hm.2⟩
        exact List.mem_of_getElem? hc
    · exact .inr ⟨.inr he, hc⟩

end

end RuleScan.Query
