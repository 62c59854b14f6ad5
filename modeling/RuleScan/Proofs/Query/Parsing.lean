import Mathlib.Data.List.Forall2
import RuleScan.Proofs.Query.Grammar
import RuleScan.Query.Matcher

/-! What a parsed query can be relied on for: its pattern is well formed, its names are those of its pattern, and it
compiles. -/
namespace RuleScan.Query

/-- Tokens are a query if they are one pattern, which occurs once, with predicates on what it captures. -/
theorem ofTokens_eq_ok_iff {source : String} {tokens : List Token} {q : Query} :
    ofTokens source tokens = .ok q ↔ tokens ≠ [] ∧ ∃ pattern r₁ r₂,
      readPattern (4 * tokens.length + 4) { tokens, stop := Text.length source } = .ok (pattern, r₁) ∧
      readPredicates r₁.tokens.length r₁ = .ok r₂ ∧ r₂.tokens = [] ∧ pattern.quantifier = .one ∧
      undeclared? r₂.captureNames r₂.predicates = none ∧ q = ⟨source, pattern, r₂.predicates, r₂.captureNames⟩ := by
  constructor
  · intro h
    unfold ofTokens at h
    dsimp only at h
    split at h
    · cases h
    next hsome =>
    obtain ⟨⟨pattern, r₁⟩, hp, h⟩ := bind_eq_ok.mp h
    obtain ⟨r₂, hs, h⟩ := bind_eq_ok.mp h
    dsimp only at h
    split at h
    · cases h
    next hend =>
    split at h
    · cases h
    next hone =>
    split at h
    · cases h
    next hdeclared =>
    cases h
    exact ⟨by simpa using hsome, pattern, r₁, r₂, hp, hs, by simpa using hend, by simpa using hone, hdeclared, rfl⟩
  · rintro ⟨hsome, pattern, r₁, r₂, hp, hs, hend, hone, hdeclared, rfl⟩
    have hfull : tokens.isEmpty = false := by simpa using hsome
    unfold ofTokens
    dsimp only
    rw [hfull, if_neg Bool.false_ne_true, hp]
    dsimp only [Bind.bind, Except.bind]
    rw [hs]
    simp [hend, hone, hdeclared]

/-- How a query was read: its tokens, and what was written with them. -/
structure Derivation (source : String) (q : Query) where
  tokens : List Token
  /-- The tokens of the pattern. -/
  lexemes : List Lexeme
  /-- The predicates in the pattern. -/
  inside : List Predicate
  /-- The predicates after the pattern. -/
  after : List Predicate
  scanned : scan source = .ok tokens
  written : Written true [.element none q.pattern] lexemes inside
  tokens_eq : tokens.map Token.lexeme = lexemes ++ after.flatMap Predicate.lexemes
  predicates_eq : q.predicates = inside ++ after
  offsets : (tokens.filter (·.kind = .predicate)).map (·.offset) = q.predicates.map (·.offset)
  captureNames_eq : q.captureNames = q.pattern.allCaptures.eraseDups
  fits : ∀ p ∈ q.predicates, argumentProblem? p.relation p.args = none
  once : q.pattern.quantifier = .one
  declared : undeclared? q.captureNames q.predicates = none

theorem exists_derivation {source : String} {q : Query} (h : parse source = .ok q) :
    Nonempty (Derivation source q) := by
  obtain ⟨tokens, hscan, h⟩ := bind_eq_ok.mp h
  obtain ⟨-, pattern, r₁, r₂, hp, hs, hend, hone, hdeclared, rfl⟩ := ofTokens_eq_ok_iff.mp h
  have hgenuine : Reader.Genuine { tokens, stop := Text.length source } := genuine_of_scanFrom hscan
  obtain ⟨ls, ps, hpattern, hw⟩ := (ReadsWritten.of_fuel _).pattern hgenuine hp
  obtain ⟨more, hmore⟩ := exists_reads_of_readPredicates (hpattern.genuine hgenuine) hs
  have hreads := hpattern.trans hmore
  rw [List.append_nil] at hreads
  have hpredicates : r₂.predicates = ps ++ more := hreads.predicates
  obtain ⟨ts, htokens, hlexemes, hoffsets⟩ := hreads.tokens
  obtain rfl : tokens = ts := by rw [← List.append_nil ts, ← hend, ← htokens]
  refine ⟨tokens, ls, ps, more, hscan, hw, hlexemes, hpredicates, ?_, ?_, ?_, hone, hdeclared⟩
  · rw [hpredicates]
    exact hoffsets
  · rw [← foldl_addName_eq_eraseDups]
    exact hreads.captures
  · rw [hpredicates]
    exact hreads.fits

theorem Derivation.genuine {source : String} {q : Query} (d : Derivation source q) :
    ∀ l ∈ d.tokens.map Token.lexeme, Genuine l := by
  intro l hl
  obtain ⟨t, ht, rfl⟩ := List.mem_map.mp hl
  exact genuine_of_scanFrom d.scanned t ht

/-- Fields and kinds are identifiers, captures have names, and alternations are not empty. -/
def Item.WellFormed : Item → Prop
  | .element field p => (∀ f ∈ field, IsIdentifier f) ∧ p.WellFormed
  | .absent field => IsIdentifier field
  | .predicate _ => True

theorem allWellFormed_iff {ps : List Pattern} : AllWellFormed ps ↔ ∀ p ∈ ps, p.WellFormed := by
  induction ps with
  | nil => simp [AllWellFormed]
  | cons p ps ih => rw [AllWellFormed, ih, List.forall_mem_cons]

theorem elementsWellFormed_iff {es : List Element} :
    ElementsWellFormed es ↔ ∀ e ∈ es, (∀ f ∈ e.1, IsIdentifier f) ∧ e.2.WellFormed := by
  induction es with
  | nil => simp [ElementsWellFormed]
  | cons e es ih => rw [ElementsWellFormed, ih, List.forall_mem_cons, and_assoc]

theorem Pattern.WellFormed.quantified {p : Pattern} (h : p.WellFormed) (q : Quantifier) :
    (p.quantified q).WellFormed := by
  cases p <;> simpa only [Pattern.quantified, Pattern.WellFormed] using h

theorem Pattern.WellFormed.requantified {p : Pattern} (h : p.WellFormed) (q : Quantifier) :
    (p.requantified q).WellFormed := by
  unfold Pattern.requantified
  split
  · exact h
  · exact h.quantified q

theorem Pattern.WellFormed.capturing {p : Pattern} {names : List String} (h : p.WellFormed)
    (hnames : ∀ name ∈ names, IsCaptureName name) : (p.capturing names).WellFormed := by
  cases p <;> simp only [Pattern.capturing, Pattern.WellFormed, List.forall_mem_append] at h ⊢ <;> tauto

theorem isCaptureName_of_suffix {q : Quantifier} {cs : List String} (h : ∀ l ∈ suffixLexemes q cs, Genuine l) :
    ∀ c ∈ cs, IsCaptureName c := by
  intro c hc
  exact h _ (List.mem_append_right _ (List.mem_map_of_mem hc))

theorem Written.wellFormed {restating : Bool} {items : List Item} {ls : List Lexeme} {ps : List Predicate}
    (h : Written restating items ls ps) (hls : ∀ l ∈ ls, Genuine l) : ∀ i ∈ items, i.WellFormed := by
  induction h with
  | nil => exact nofun
  | append _ _ ih ih' =>
    obtain ⟨hl, hl'⟩ := List.forall_mem_append.mp hls
    exact List.forall_mem_append.mpr ⟨ih hl, ih' hl'⟩
  | absent field =>
    have hfield : IsIdentifier field := hls _ (List.mem_cons_of_mem _ List.mem_cons_self)
    exact List.forall_mem_singleton.mpr hfield
  | predicate p => exact List.forall_mem_singleton.mpr trivial
  | field field _ ih =>
    obtain ⟨hfield, hls⟩ := List.forall_mem_cons.mp hls
    have hp := List.forall_mem_singleton.mp (ih (List.forall_mem_cons.mp hls).2)
    refine List.forall_mem_singleton.mpr ⟨fun f hf => ?_, hp.2⟩
    obtain rfl := Option.some.inj hf
    exact hfield
  | wildcard q cs =>
    refine List.forall_mem_singleton.mpr ⟨nofun, ?_⟩
    rw [Pattern.WellFormed]
    exact isCaptureName_of_suffix (List.forall_mem_cons.mp hls).2
  | literal value q cs =>
    refine List.forall_mem_singleton.mpr ⟨nofun, ?_⟩
    rw [Pattern.WellFormed]
    exact isCaptureName_of_suffix (List.forall_mem_cons.mp hls).2
  | alternation q cs hsome _ ih =>
    obtain ⟨hopen, hclose⟩ := List.forall_mem_append.mp hls
    refine List.forall_mem_singleton.mpr ⟨nofun, ?_⟩
    rw [Pattern.WellFormed, allWellFormed_iff]
    refine ⟨hsome, fun p hp => ?_, isCaptureName_of_suffix (List.forall_mem_cons.mp hclose).2⟩
    exact (ih (List.forall_mem_cons.mp hopen).2 _ (List.mem_map_of_mem hp)).2
  | @node kind items _ _ q cs _ ih =>
    obtain ⟨hopen, hclose⟩ := List.forall_mem_append.mp hls
    obtain ⟨hkind, hinside⟩ := List.forall_mem_cons.mp (List.forall_mem_cons.mp hopen).2
    have hitems := ih hinside
    refine List.forall_mem_singleton.mpr ⟨nofun, ?_⟩
    rw [Pattern.WellFormed, elementsWellFormed_iff]
    refine ⟨fun k hk => ?_, fun e he => ?_, fun f hf => ?_,
      isCaptureName_of_suffix (List.forall_mem_cons.mp hclose).2⟩
    · split at hk
      · cases hk
      · next hnamed =>
        obtain rfl := Option.some.inj hk
        exact ⟨hkind, hnamed⟩
    · obtain ⟨i, hi, he⟩ := List.mem_filterMap.mp he
      cases i <;> cases he
      exact hitems _ hi
    · obtain ⟨i, hi, he⟩ := List.mem_filterMap.mp hf
      cases i <;> cases he
      exact hitems _ hi
  | group more q cs _ _ ih =>
    obtain ⟨hopen, hafter⟩ := List.forall_mem_append.mp hls
    have hp := (List.forall_mem_singleton.mp (ih (List.forall_mem_cons.mp hopen).2)).2
    have hclose := (List.forall_mem_append.mp hafter).2
    refine List.forall_mem_singleton.mpr ⟨nofun, (hp.requantified q).capturing ?_⟩
    exact isCaptureName_of_suffix (List.forall_mem_cons.mp hclose).2

mutual

theorem isCaptureName_of_mem_allCaptures : ∀ (p : Pattern), p.WellFormed → ∀ name ∈ p.allCaptures, IsCaptureName name
  | .wildcard q cs, hp, name, hm => by
    rw [Pattern.WellFormed] at hp
    rw [Pattern.allCaptures] at hm
    exact hp name hm
  | .literal v q cs, hp, name, hm => by
    rw [Pattern.WellFormed] at hp
    rw [Pattern.allCaptures] at hm
    exact hp name hm
  | .alternation as q cs, hp, name, hm => by
    rw [Pattern.WellFormed] at hp
    rw [Pattern.allCaptures, List.mem_append] at hm
    rcases hm with hm | hm
    · exact isCaptureName_of_mem_capturesOfAll as hp.2.1 name hm
    · exact hp.2.2 name hm
  | .node kind es absent q cs, hp, name, hm => by
    rw [Pattern.WellFormed] at hp
    rw [Pattern.allCaptures, List.mem_append] at hm
    rcases hm with hm | hm
    · exact isCaptureName_of_mem_capturesOfElements es hp.2.1 name hm
    · exact hp.2.2.2 name hm

theorem isCaptureName_of_mem_capturesOfAll :
    ∀ (ps : List Pattern), AllWellFormed ps → ∀ name ∈ capturesOfAll ps, IsCaptureName name
  | [], hp, name, hm => by
    rw [capturesOfAll] at hm
    cases hm
  | p :: ps, hp, name, hm => by
    rw [AllWellFormed] at hp
    rw [capturesOfAll, List.mem_append] at hm
    rcases hm with hm | hm
    · exact isCaptureName_of_mem_allCaptures p hp.1 name hm
    · exact isCaptureName_of_mem_capturesOfAll ps hp.2 name hm

theorem isCaptureName_of_mem_capturesOfElements :
    ∀ (es : List Element), ElementsWellFormed es → ∀ name ∈ capturesOfElements es, IsCaptureName name
  | [], he, name, hm => by
    rw [capturesOfElements] at hm
    cases hm
  | (field, p) :: es, he, name, hm => by
    rw [ElementsWellFormed] at he
    rw [capturesOfElements, List.mem_append] at hm
    rcases hm with hm | hm
    · exact isCaptureName_of_mem_allCaptures p he.2.1 name hm
    · exact isCaptureName_of_mem_capturesOfElements es he.2.2 name hm

end

theorem scanFrom_blank {cs : List Char} (h : ∀ c ∈ cs, Text.isBlank c = true) (offset : Nat) :
    scanFrom offset cs = .ok [] := by
  induction cs generalizing offset with
  | nil => rw [scanFrom]
  | cons c cs ih =>
    obtain ⟨hc, hcs⟩ := List.forall_mem_cons.mp h
    rw [scanFrom, if_pos hc]
    exact ih hcs _

theorem exists_not_blank_of_parse {source : String} {q : Query} (h : parse source = .ok q) :
    ∃ c ∈ source.toList, Text.isBlank c = false := by
  by_contra hall
  obtain ⟨tokens, hscan, h⟩ := bind_eq_ok.mp h
  have hblank : ∀ c ∈ source.toList, Text.isBlank c = true := by
    intro c hc
    by_contra hn
    exact hall ⟨c, hc, Bool.eq_false_iff.mpr hn⟩
  have hnone := hscan.symm.trans (scanFrom_blank hblank 0)
  exact (ofTokens_eq_ok_iff.mp h).1 (Except.ok.inj hnone)

/-- A parsed query names the captures of its pattern, each once, and the arguments of its predicates fit. -/
theorem of_parse {source : String} {q : Query} (h : parse source = .ok q) :
    q.captureNames = q.pattern.allCaptures.eraseDups ∧
      ∀ p ∈ q.predicates, argumentProblem? p.relation p.args = none := by
  obtain ⟨d⟩ := exists_derivation h
  exact ⟨d.captureNames_eq, d.fits⟩

theorem pattern_wellFormed_of_parse {source : String} {q : Query} (h : parse source = .ok q) : q.pattern.WellFormed := by
  obtain ⟨d⟩ := exists_derivation h
  have hgenuine : ∀ l ∈ d.lexemes, Genuine l := fun l hl =>
    d.genuine l (d.tokens_eq ▸ List.mem_append_left _ hl)
  exact (d.written.wellFormed hgenuine _ List.mem_cons_self).2

theorem isCaptureName_of_parse {source : String} {q : Query} (h : parse source = .ok q) :
    ∀ name ∈ q.captureNames, IsCaptureName name := by
  intro name hname
  rw [(of_parse h).1, List.mem_eraseDups] at hname
  exact isCaptureName_of_mem_allCaptures q.pattern (pattern_wellFormed_of_parse h) name hname

/-- What a solution of a parsed query binds is among its names. -/
theorem mem_captureNames_of_solves {source : String} {q : Query} (h : parse source = .ok q) {text : Units}
    {n : Node} {env : Environment} (hs : Solves text q.pattern n [] env) {x : String × Node} (hx : x ∈ env) :
    x.1 ∈ q.captureNames := by
  rw [(of_parse h).1, List.mem_eraseDups]
  exact ((Solves.mem_or q.pattern hs hx).resolve_left List.not_mem_nil).1

/-- The expression of a predicate whose arguments fit compiles. -/
theorem exists_ofPredicate_eq_ok {p : Predicate} (h : argumentProblem? p.relation p.args = none) :
    ∃ check, Check.ofPredicate p = .ok check := by
  unfold Check.ofPredicate
  split
  · next a source rest hr ha =>
    rw [hr, ha] at h
    unfold argumentProblem? at h
    split at h
    · next name others he =>
      obtain ⟨rfl, rfl⟩ := List.cons.inj he
      cases rest with
      | nil =>
        dsimp only at h
        cases hc : Regex.compile source "" with
        | ok program => exact ⟨_, rfl⟩
        | error e =>
          rw [hc] at h
          cases h
      | cons b rest => cases h
    · cases h
  · exact ⟨_, rfl⟩

theorem mapM_eq_ok {ε α β : Type} {f : α → Except ε β} {xs : List α} (h : ∀ x ∈ xs, ∃ y, f x = .ok y) :
    ∃ ys, xs.mapM f = .ok ys := by
  induction xs with
  | nil => exact ⟨[], rfl⟩
  | cons x xs ih =>
    obtain ⟨⟨y, hy⟩, hxs⟩ := List.forall_mem_cons.mp h
    obtain ⟨ys, hys⟩ := ih hxs
    exact ⟨y :: ys, by rw [List.mapM_cons, hy, hys]; rfl⟩

theorem exists_of_mem_forall₂ {α β : Type} {R : α → β → Prop} {xs : List α} {ys : List β}
    (h : List.Forall₂ R xs ys) {y : β} (hy : y ∈ ys) : ∃ x ∈ xs, R x y := by
  induction h with
  | nil => cases hy
  | @cons x y' xs ys hxy hrest ih =>
    rcases List.mem_cons.mp hy with rfl | hy
    · exact ⟨x, List.mem_cons_self, hxy⟩
    · obtain ⟨z, hz, hzy⟩ := ih hy
      exact ⟨z, List.mem_cons_of_mem _ hz, hzy⟩

theorem forall₂_of_mapM {ε α β : Type} {f : α → Except ε β} {xs : List α} {ys : List β} (h : xs.mapM f = .ok ys) :
    List.Forall₂ (fun x y => f x = .ok y) xs ys := by
  induction xs generalizing ys with
  | nil =>
    cases h
    exact .nil
  | cons x rest ih =>
    rw [List.mapM_cons] at h
    obtain ⟨b, hx, h⟩ := bind_eq_ok.mp h
    obtain ⟨bs, hrest, h⟩ := bind_eq_ok.mp h
    cases h
    exact .cons hx (ih hrest)

theorem exists_of_mapM {ε α β : Type} {f : α → Except ε β} {xs : List α} {ys : List β} (h : xs.mapM f = .ok ys) :
    ∀ y ∈ ys, ∃ x ∈ xs, f x = .ok y := by
  intro y hy
  exact exists_of_mem_forall₂ (forall₂_of_mapM h) hy

theorem compile_of_parse {source : String} {q : Query} (h : parse source = .ok q) :
    ∃ c, compile q = .ok c ∧ c.pattern = q.pattern := by
  obtain ⟨checks, hc⟩ := mapM_eq_ok fun p hp => exists_ofPredicate_eq_ok ((of_parse h).2 p hp)
  refine ⟨⟨q.pattern, checks⟩, ?_, rfl⟩
  rw [compile, hc]
  rfl

end RuleScan.Query
