import RuleScan.Proofs.Evaluation.Counted
import RuleScan.Query.Matcher

/-! What it means that an environment solves a pattern at a node, said without the search, and the list
of the solutions that the search runs through. Main statement: the two agree. -/
namespace RuleScan.Query

/-- Names are bound to a node one after another. A name already bound keeps its node, which must have
the same text. -/
inductive Binds (source : Units) (n : Node) : List String → Environment → Environment → Prop
  | nil (s : Environment) : Binds source n [] s s
  | kept {name : String} {names : List String} {s s' : Environment} {m : Node}
      (bound : s.lookup name = some m) (same : m.textIn source = n.textIn source)
      (rest : Binds source n names s s') : Binds source n (name :: names) s s'
  | fresh {name : String} {names : List String} {s s' : Environment}
      (unbound : s.lookup name = none) (rest : Binds source n names (s ++ [(name, n)]) s') :
      Binds source n (name :: names) s s'

/-- The pattern is a wildcard or a literal, or has such an alternative. -/
inductive TakesAnonymous : Pattern → Prop
  | wildcard (q : Quantifier) (cs : List String) : TakesAnonymous (.wildcard q cs)
  | literal (v : String) (q : Quantifier) (cs : List String) : TakesAnonymous (.literal v q cs)
  | alternation {as : List Pattern} {p : Pattern} (q : Quantifier) (cs : List String) (mem : p ∈ as)
      (inner : TakesAnonymous p) : TakesAnonymous (.alternation as q cs)

/-- An element with a field takes the children that carry it; one without takes named children, and
anonymous ones if its pattern does. -/
def Eligible (field : Option String) (p : Pattern) (c : Node) : Prop :=
  match field with
  | some f => c.field = some f
  | none => c.named = true ∨ TakesAnonymous p

/-- The numbers of children that an element may take. -/
def Quantifier.Allows : Quantifier → Nat → Prop
  | .one, k => k = 1
  | .optional, k => k ≤ 1
  | .zeroOrMore, _ => True
  | .oneOrMore, k => 1 ≤ k

/-- The children at some positions are eligible and solved. What the first one binds is kept, and
nothing is bound where there is none. -/
def Occupies (eligible : Node → Prop) (solves : Node → Environment → Prop) (children : List Node)
    (s : Environment) : List Nat → Environment → Prop
  | [], t => t = s
  | i :: later, t =>
    (∃ c ∈ children[i]?, eligible c ∧ solves c t) ∧
      ∀ j ∈ later, ∃ c ∈ children[j]?, eligible c ∧ ∃ u, solves c u

mutual

/-- `s'` solves a pattern at a node from `s`. -/
def Solves (source : Units) : Pattern → Node → Environment → Environment → Prop
  | .wildcard _ cs, n, s, s' => Binds source n cs s s'
  | .literal v _ cs, n, s, s' =>
    (n.kind = v ∨ n.children = [] ∧ n.textIn source = Units.ofString v) ∧ Binds source n cs s s'
  | .alternation as _ cs, n, s, s' => ∃ t, SolvesOneOf source as n s t ∧ Binds source n cs t s'
  | .node kind es absent _ cs, n, s, s' =>
    n.named = true ∧ (∀ k ∈ kind, n.kind = k) ∧ (∀ f ∈ absent, ∀ c ∈ n.children, c.field ≠ some f) ∧
      ∃ t, Binds source n cs s t ∧
        ∃ positions : List (List Nat),
          positions.flatten.Pairwise (· < ·) ∧ Assigns source es n.children positions t s'

/-- `s'` solves one of some patterns at a node from `s`. -/
def SolvesOneOf (source : Units) : List Pattern → Node → Environment → Environment → Prop
  | [], _, _, _ => False
  | p :: ps, n, s, s' => Solves source p n s s' ∨ SolvesOneOf source ps n s s'

/-- Each element in turn takes the children at its positions, as many as its quantifier allows. -/
def Assigns (source : Units) :
    List Element → List Node → List (List Nat) → Environment → Environment → Prop
  | [], _, positions, s, s' => positions = [] ∧ s' = s
  | (field, p) :: es, children, positions, s, s' =>
    ∃ taken rest t, positions = taken :: rest ∧ p.quantifier.Allows taken.length ∧
      Occupies (Eligible field p) (fun c u => Solves source p c s u) children s taken t ∧
      Assigns source es children rest t s'

end

section Enumeration

variable (fits : Node → Bool) (solve : Node → List Environment)
  (next : List Node → Environment → List Environment)

/-- What follows from each way to take one of some children. -/
def occurrencesIn : List Node → List Environment
  | [] => []
  | c :: rest => (if fits c then (solve c).flatMap (next rest) else []) ++ occurrencesIn rest

/-- What follows from each way to take several of some children, and then from taking no more. -/
def repeatsIn : List Node → Bool → Environment → List Environment → List Environment
  | [], _, _, stop => stop
  | c :: rest, first, env, stop =>
    (if fits c then
      (solve c).flatMap fun matched =>
        let kept := if first then matched else env
        repeatsIn rest false kept (next rest kept)
    else []) ++ repeatsIn rest first env stop

/-- What follows from each way to take as many of some children as a quantifier allows. -/
def takenIn (q : Quantifier) (children : List Node) (s : Environment) : List Environment :=
  match q with
  | .one => occurrencesIn fits solve next children
  | .optional => occurrencesIn fits solve next children ++ next children s
  | .zeroOrMore => repeatsIn fits solve next children true s (next children s)
  | .oneOrMore => repeatsIn fits solve next children true s []

end Enumeration

mutual

/-- The solutions of a pattern at a node, in the order of the search. -/
def solutions (source : Units) : Pattern → Node → Environment → List Environment
  | .wildcard _ cs, n, s => (bind source n cs s).toList
  | .literal v _ cs, n, s =>
    if n.kind = v || (n.children.isEmpty && n.textIn source = Units.ofString v) then
      (bind source n cs s).toList
    else []
  | .alternation as _ cs, n, s => (solutionsOfAny source as n s).flatMap fun t => (bind source n cs t).toList
  | .node kind es absent _ cs, n, s =>
    if !n.named || kind.any (· ≠ n.kind) then []
    else if absent.any fun f => n.children.any (·.field = some f) then []
    else (bind source n cs s).toList.flatMap fun t => solutionsOfElements source es n.children t

/-- The solutions of alternatives, in order. -/
def solutionsOfAny (source : Units) : List Pattern → Node → Environment → List Environment
  | [], _, _ => []
  | p :: ps, n, s => solutions source p n s ++ solutionsOfAny source ps n s

/-- The solutions of elements among some children, in order. -/
def solutionsOfElements (source : Units) : List Element → List Node → Environment → List Environment
  | [], _, s => [s]
  | (field, p) :: es, children, s =>
    takenIn (admits field p.acceptsAnonymous) (fun c => solutions source p c s)
      (fun left t => solutionsOfElements source es left t) p.quantifier children s

end

theorem bind_eq_some_iff {source : Units} {n : Node} {names : List String} {s s' : Environment} :
    bind source n names s = some s' ↔ Binds source n names s s' := by
  induction names generalizing s with
  | nil =>
    constructor
    · intro h
      rw [← Option.some.inj h]
      exact .nil s
    · intro h
      cases h
      rfl
  | cons name names ih =>
    unfold bind
    cases hl : s.lookup name with
    | none =>
      refine ih.trans ⟨fun h => .fresh hl h, fun h => ?_⟩
      cases h with
      | kept bound _ _ => rw [hl] at bound; cases bound
      | fresh _ rest => exact rest
    | some m =>
      dsimp only
      split
      · next same =>
        refine ih.trans ⟨fun h => .kept hl same h, fun h => ?_⟩
        cases h with
        | kept _ _ rest => exact rest
        | fresh unbound _ => rw [hl] at unbound; cases unbound
      · next differ =>
        refine ⟨nofun, fun h => ?_⟩
        cases h with
        | kept bound same _ =>
          rw [hl] at bound
          cases bound
          exact absurd same differ
        | fresh unbound _ => rw [hl] at unbound; cases unbound

mutual

theorem acceptsAnonymous_iff : ∀ p : Pattern, p.acceptsAnonymous = true ↔ TakesAnonymous p
  | .wildcard q cs => ⟨fun _ => .wildcard q cs, fun _ => rfl⟩
  | .literal v q cs => ⟨fun _ => .literal v q cs, fun _ => rfl⟩
  | .alternation as q cs => by
    rw [Pattern.acceptsAnonymous, anyAccepts_iff as]
    constructor
    · rintro ⟨p, hp, ht⟩
      exact .alternation q cs hp ht
    · rintro (_ | _ | ⟨_, _, hp, ht⟩)
      exact ⟨_, hp, ht⟩
  | .node kind es absent q cs => by
    rw [Pattern.acceptsAnonymous]
    exact ⟨nofun, nofun⟩

theorem anyAccepts_iff : ∀ as : List Pattern,
    Pattern.acceptsAnonymous.anyAccepts as = true ↔ ∃ p ∈ as, TakesAnonymous p
  | [] => by simp [Pattern.acceptsAnonymous.anyAccepts]
  | p :: ps => by
    rw [Pattern.acceptsAnonymous.anyAccepts, Bool.or_eq_true, acceptsAnonymous_iff p, anyAccepts_iff ps]
    simp

end

theorem admits_iff {field : Option String} {p : Pattern} {c : Node} :
    admits field p.acceptsAnonymous c = true ↔ Eligible field p c := by
  cases field with
  | some f => simp [admits, Eligible]
  | none => simp [admits, Eligible, acceptsAnonymous_iff, or_comm]

section Enumeration

variable {fits : Node → Bool} {solve : Node → List Environment}
  {next : List Node → Environment → List Environment} {children : List Node}

theorem drop_eq_cons {cs : List Node} {c : Node} {pos : Nat} (h : children.drop pos = c :: cs) :
    children[pos]? = some c ∧ children.drop (pos + 1) = cs := by
  constructor
  · rw [← List.head?_drop, h]
    rfl
  · rw [← List.tail_drop, h]
    rfl

/-- Taking one child: any fitting one from a position on, with what follows it. -/
theorem mem_occurrencesIn {s' : Environment} {cs : List Node} {pos : Nat} (hcs : children.drop pos = cs) :
    s' ∈ occurrencesIn fits solve next cs ↔
      ∃ i, pos ≤ i ∧ ∃ c ∈ children[i]?, fits c = true ∧ ∃ t ∈ solve c, s' ∈ next (children.drop (i + 1)) t := by
  induction cs generalizing pos with
  | nil =>
    have hlen : children.length ≤ pos := List.drop_eq_nil_iff.mp hcs
    constructor
    · intro h
      cases h
    · rintro ⟨i, hi, c, hc, -⟩
      have := (List.getElem?_eq_some_iff.mp hc).1
      omega
  | cons c rest ih =>
    obtain ⟨hc, hrest⟩ := drop_eq_cons hcs
    rw [occurrencesIn, List.mem_append, ih hrest]
    constructor
    · rintro (h | ⟨i, hi, h⟩)
      · split at h
        · next hf =>
          obtain ⟨t, ht, hn⟩ := List.mem_flatMap.mp h
          exact ⟨pos, Nat.le_refl pos, c, hc, hf, t, ht, hrest ▸ hn⟩
        · cases h
      · exact ⟨i, by omega, h⟩
    · rintro ⟨i, hi, d, hd, hf, t, ht, hn⟩
      by_cases he : i = pos
      · subst i
        rw [hc] at hd
        cases hd
        left
        rw [if_pos hf]
        exact List.mem_flatMap.mpr ⟨t, ht, hrest ▸ hn⟩
      · exact .inr ⟨i, by omega, d, hd, hf, t, ht, hn⟩

/-- The first position after those taken, from `pos` on. -/
def following (pos : Nat) : List Nat → Nat
  | [] => pos
  | i :: later => following (i + 1) later

theorem following_le_iff {pos b : Nat} {taken : List Nat} (hp : taken.Pairwise (· < ·))
    (hlo : ∀ i ∈ taken, pos ≤ i) : following pos taken ≤ b ↔ pos ≤ b ∧ ∀ i ∈ taken, i < b := by
  induction taken generalizing pos with
  | nil => simp [following]
  | cons i later ih =>
    obtain ⟨hi, hl⟩ := List.pairwise_cons.mp hp
    have hpos := hlo i List.mem_cons_self
    rw [following, ih hl hi, List.forall_mem_cons]
    constructor
    · rintro ⟨hib, hb⟩
      exact ⟨by omega, hib, hb⟩
    · rintro ⟨-, hib, hb⟩
      exact ⟨hib, hb⟩

/-- Taking several children: the first one binds, unless one was taken before; the others only have
to be solved. -/
theorem mem_repeatsIn {s' env : Environment} {stop : List Environment} {first : Bool} {cs : List Node}
    {pos : Nat} (hcs : children.drop pos = cs) :
    s' ∈ repeatsIn fits solve next cs first env stop ↔
      s' ∈ stop ∨ ∃ i later, (i :: later).Pairwise (· < ·) ∧ pos ≤ i ∧
        (∀ j ∈ later, ∃ c ∈ children[j]?, fits c = true ∧ ∃ u, u ∈ solve c) ∧
        ∃ c ∈ children[i]?, fits c = true ∧ ∃ t ∈ solve c,
          s' ∈ next (children.drop (following (i + 1) later)) (if first then t else env) := by
  induction cs generalizing pos first env stop with
  | nil =>
    have hlen : children.length ≤ pos := List.drop_eq_nil_iff.mp hcs
    rw [repeatsIn]
    refine ⟨.inl, ?_⟩
    rintro (h | ⟨i, later, -, hi, -, c, hc, -⟩)
    · exact h
    · have := (List.getElem?_eq_some_iff.mp hc).1
      omega
  | cons c rest ih =>
    obtain ⟨hc, hrest⟩ := drop_eq_cons hcs
    rw [repeatsIn, List.mem_append, ih hrest]
    constructor
    · rintro (h | h | ⟨i, later, hp, hi, h⟩)
      · split at h
        · next hf =>
          obtain ⟨t, ht, hn⟩ := List.mem_flatMap.mp h
          rcases (ih hrest).mp hn with hn | ⟨j, later, hp, hj, hl, d, hd, hdf, u, hu, hn⟩
          · exact .inr ⟨pos, [], List.pairwise_singleton _ _, Nat.le_refl pos, nofun, c, hc, hf, t, ht,
              hrest ▸ hn⟩
          · refine .inr ⟨pos, j :: later, ?_, Nat.le_refl pos, ?_, c, hc, hf, t, ht, hn⟩
            · refine List.pairwise_cons.mpr ⟨?_, hp⟩
              intro k hk
              rcases List.mem_cons.mp hk with rfl | hk
              · omega
              · have := (List.pairwise_cons.mp hp).1 k hk
                omega
            · exact List.forall_mem_cons.mpr ⟨⟨d, hd, hdf, u, hu⟩, hl⟩
        · cases h
      · exact .inl h
      · exact .inr ⟨i, later, hp, by omega, h⟩
    · rintro (h | ⟨i, later, hp, hi, hl, d, hd, hf, t, ht, hn⟩)
      · exact .inr (.inl h)
      by_cases he : i = pos
      · subst i
        rw [hc] at hd
        cases hd
        left
        rw [if_pos hf]
        refine List.mem_flatMap.mpr ⟨t, ht, (ih hrest).mpr ?_⟩
        -- Either the child taken here was the last one, or the next one leads on.
        cases later with
        | nil => exact .inl (hrest ▸ hn)
        | cons j js =>
          obtain ⟨hj, hjs⟩ := List.pairwise_cons.mp hp
          obtain ⟨⟨e, he, hef, u, hu⟩, hl⟩ := List.forall_mem_cons.mp hl
          exact .inr ⟨j, js, hjs, hj j List.mem_cons_self, hl, e, he, hef, u, hu, hn⟩
      · exact .inr (.inr ⟨i, later, hp, by omega, hl, d, hd, hf, t, ht, hn⟩)

private theorem mem_repeatsIn_first {s s' : Environment} {stop : List Environment} {pos : Nat} :
    s' ∈ repeatsIn fits solve next (children.drop pos) true s stop ↔
      s' ∈ stop ∨ ∃ i later t, (i :: later).Pairwise (· < ·) ∧ (∀ k ∈ i :: later, pos ≤ k) ∧
        Occupies (fun c => fits c = true) (fun c u => u ∈ solve c) children s (i :: later) t ∧
        s' ∈ next (children.drop (following pos (i :: later))) t := by
  rw [mem_repeatsIn rfl]
  refine or_congr_right ?_
  constructor
  · rintro ⟨i, later, hp, hi, hl, c, hc, hf, t, ht, hn⟩
    refine ⟨i, later, t, hp, List.forall_mem_cons.mpr ⟨hi, ?_⟩, ⟨⟨c, hc, hf, ht⟩, hl⟩, hn⟩
    intro k hk
    have := (List.pairwise_cons.mp hp).1 k hk
    omega
  · rintro ⟨i, later, t, hp, hk, ⟨⟨c, hc, hf, ht⟩, hl⟩, hn⟩
    exact ⟨i, later, hp, hk i List.mem_cons_self, hl, c, hc, hf, t, ht, hn⟩

private theorem mem_occurrencesIn_one {s s' : Environment} {pos : Nat} :
    s' ∈ occurrencesIn fits solve next (children.drop pos) ↔
      ∃ i t, pos ≤ i ∧ Occupies (fun c => fits c = true) (fun c u => u ∈ solve c) children s [i] t ∧
        s' ∈ next (children.drop (following pos [i])) t := by
  rw [mem_occurrencesIn rfl]
  constructor
  · rintro ⟨i, hi, c, hc, hf, t, ht, hn⟩
    exact ⟨i, t, hi, ⟨⟨c, hc, hf, ht⟩, nofun⟩, hn⟩
  · rintro ⟨i, t, hi, ⟨⟨c, hc, hf, ht⟩, -⟩, hn⟩
    exact ⟨i, hi, c, hc, hf, t, ht, hn⟩

/-- Taking children under a quantifier: the positions increase, their number is allowed, and what
follows starts after the last. -/
theorem mem_takenIn {q : Quantifier} {s s' : Environment} {pos : Nat} :
    s' ∈ takenIn fits solve next q (children.drop pos) s ↔
      ∃ taken t, q.Allows taken.length ∧ taken.Pairwise (· < ·) ∧ (∀ i ∈ taken, pos ≤ i) ∧
        Occupies (fun c => fits c = true) (fun c u => u ∈ solve c) children s taken t ∧
        s' ∈ next (children.drop (following pos taken)) t := by
  cases q with
  | one =>
    rw [takenIn, mem_occurrencesIn_one]
    constructor
    · rintro ⟨i, t, hi, ho, hn⟩
      exact ⟨[i], t, rfl, List.pairwise_singleton _ _, by simpa using hi, ho, hn⟩
    · rintro ⟨taken, t, hq, -, hlo, ho, hn⟩
      obtain ⟨i, rfl⟩ := List.length_eq_one_iff.mp hq
      exact ⟨i, t, hlo i List.mem_cons_self, ho, hn⟩
  | optional =>
    rw [takenIn, List.mem_append, mem_occurrencesIn_one]
    constructor
    · rintro (⟨i, t, hi, ho, hn⟩ | hn)
      · exact ⟨[i], t, Nat.le_refl 1, List.pairwise_singleton _ _, by simpa using hi, ho, hn⟩
      · exact ⟨[], s, Nat.zero_le 1, .nil, nofun, rfl, hn⟩
    · rintro ⟨_ | ⟨i, _ | ⟨j, later⟩⟩, t, hq, -, hlo, ho, hn⟩
      · cases ho
        exact .inr hn
      · exact .inl ⟨i, t, hlo i List.mem_cons_self, ho, hn⟩
      · simp [Quantifier.Allows] at hq
  | zeroOrMore =>
    rw [takenIn, mem_repeatsIn_first]
    constructor
    · rintro (hn | ⟨i, later, t, hp, hlo, ho, hn⟩)
      · exact ⟨[], s, trivial, .nil, nofun, rfl, hn⟩
      · exact ⟨i :: later, t, trivial, hp, hlo, ho, hn⟩
    · rintro ⟨_ | ⟨i, later⟩, t, -, hp, hlo, ho, hn⟩
      · cases ho
        exact .inl hn
      · exact .inr ⟨i, later, t, hp, hlo, ho, hn⟩
  | oneOrMore =>
    rw [takenIn, mem_repeatsIn_first]
    constructor
    · rintro (hn | ⟨i, later, t, hp, hlo, ho, hn⟩)
      · cases hn
      · exact ⟨i :: later, t, Nat.le_add_left 1 later.length, hp, hlo, ho, hn⟩
    · rintro ⟨_ | ⟨i, later⟩, t, hq, hp, hlo, ho, hn⟩
      · simp [Quantifier.Allows] at hq
      · exact .inr ⟨i, later, t, hp, hlo, ho, hn⟩

end Enumeration

theorem refused_iff {n : Node} {kind : Option String} :
    (!n.named || kind.any (· ≠ n.kind)) = true ↔ ¬(n.named = true ∧ ∀ k ∈ kind, n.kind = k) := by
  cases kind with
  | none => simp
  | some k =>
    by_cases hk : n.kind = k
    · subst k
      simp
    · simp [hk, Ne.symm hk]

mutual

theorem mem_solutions (source : Units) : ∀ (p : Pattern) (n : Node) (s s' : Environment),
    s' ∈ solutions source p n s ↔ Solves source p n s s'
  | .wildcard q cs, n, s, s' => by
    rw [solutions, Solves, Option.mem_toList]
    exact bind_eq_some_iff
  | .literal v q cs, n, s, s' => by
    rw [solutions, Solves]
    split
    · next h =>
      have hk : n.kind = v ∨ n.children = [] ∧ n.textIn source = Units.ofString v := by simpa using h
      rw [Option.mem_toList, bind_eq_some_iff]
      exact ⟨fun hb => ⟨hk, hb⟩, fun hb => hb.2⟩
    · next h =>
      have hk : ¬(n.kind = v ∨ n.children = [] ∧ n.textIn source = Units.ofString v) := by simpa using h
      exact ⟨nofun, fun hb => absurd hb.1 hk⟩
  | .alternation as q cs, n, s, s' => by
    rw [solutions, Solves, List.mem_flatMap]
    refine exists_congr fun t => ?_
    rw [mem_solutionsOfAny source as, Option.mem_toList, bind_eq_some_iff]
  | .node kind es absent q cs, n, s, s' => by
    rw [solutions, Solves]
    split
    · next h =>
      have hk : ¬(n.named = true ∧ ∀ k ∈ kind, n.kind = k) := refused_iff.mp h
      exact ⟨nofun, fun hb => absurd ⟨hb.1, hb.2.1⟩ hk⟩
    · next h =>
      have hk : n.named = true ∧ ∀ k ∈ kind, n.kind = k := Classical.not_not.mp fun hk => h (refused_iff.mpr hk)
      split
      · next ha =>
        have hf : ¬∀ f ∈ absent, ∀ c ∈ n.children, c.field ≠ some f := by
          simpa using ha
        exact ⟨nofun, fun hb => absurd hb.2.2.1 hf⟩
      · next ha =>
        have hf : ∀ f ∈ absent, ∀ c ∈ n.children, c.field ≠ some f := by
          simpa using ha
        have hes := mem_solutionsOfElements source es n.children 0
        simp only [List.drop_zero, Nat.zero_le, implies_true, true_and] at hes
        simp only [List.mem_flatMap, Option.mem_toList, bind_eq_some_iff, hes]
        exact ⟨fun hb => ⟨hk.1, hk.2, hf, hb⟩, fun hb => hb.2.2.2⟩

theorem mem_solutionsOfAny (source : Units) : ∀ (ps : List Pattern) (n : Node) (s s' : Environment),
    s' ∈ solutionsOfAny source ps n s ↔ SolvesOneOf source ps n s s'
  | [], n, s, s' => by
    rw [solutionsOfAny, SolvesOneOf]
    simp
  | p :: ps, n, s, s' => by
    rw [solutionsOfAny, SolvesOneOf, List.mem_append, mem_solutions source p, mem_solutionsOfAny source ps]

theorem mem_solutionsOfElements (source : Units) : ∀ (es : List Element) (children : List Node) (pos : Nat)
    (s s' : Environment), s' ∈ solutionsOfElements source es (children.drop pos) s ↔
      ∃ positions : List (List Nat), positions.flatten.Pairwise (· < ·) ∧
        (∀ i ∈ positions.flatten, pos ≤ i) ∧ Assigns source es children positions s s'
  | [], children, pos, s, s' => by
    simp only [solutionsOfElements, Assigns, List.mem_singleton]
    constructor
    · rintro rfl
      exact ⟨[], .nil, nofun, rfl, rfl⟩
    · rintro ⟨-, -, -, -, rfl⟩
      rfl
  | (field, p) :: es, children, pos, s, s' => by
    have hfit : (fun c => admits field p.acceptsAnonymous c = true) = Eligible field p :=
      funext fun c => propext admits_iff
    have hsol : (fun c u => u ∈ solutions source p c s) = fun c u => Solves source p c s u :=
      funext fun c => funext fun u => propext (mem_solutions source p c s u)
    rw [solutionsOfElements, mem_takenIn, hfit, hsol]
    constructor
    · rintro ⟨taken, t, hq, hp, hlo, ho, hn⟩
      obtain ⟨rest, hrp, hrlo, hr⟩ := (mem_solutionsOfElements source es children _ t s').mp hn
      refine ⟨taken :: rest, ?_, ?_, taken, rest, t, rfl, hq, ho, hr⟩
      · refine List.pairwise_append.mpr ⟨hp, hrp, ?_⟩
        intro i hi j hj
        exact ((following_le_iff hp hlo).mp (hrlo j hj)).2 i hi
      · intro i hi
        rcases List.mem_append.mp hi with hi | hi
        · exact hlo i hi
        · exact ((following_le_iff hp hlo).mp (hrlo i hi)).1
    · rintro ⟨_, hp, hlo, taken, rest, t, rfl, hq, ho, hr⟩
      obtain ⟨htp, hrp, hlt⟩ := List.pairwise_append.mp hp
      have htlo : ∀ i ∈ taken, pos ≤ i := fun i hi => hlo i (List.mem_append_left _ hi)
      refine ⟨taken, t, hq, htp, htlo, ho, (mem_solutionsOfElements source es children _ t s').mpr ?_⟩
      refine ⟨rest, hrp, fun j hj => (following_le_iff htp htlo).mpr ⟨?_, fun i hi => hlt i hi j hj⟩, hr⟩
      exact hlo j (List.mem_append_right _ hj)

end

end RuleScan.Query
