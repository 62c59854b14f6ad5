import RuleScan.Proofs.Query.RoundTrip
import RuleScan.Proofs.Rule.Acceptance
import RuleScan.Rule.Violation

/-! Which accepted rules can fail. Main statement: evaluating an accepted rule and reporting its matches
completes, unless the budget halts it, exactly for rules over names that are not inherent. -/
namespace RuleScan

namespace Template

private theorem mem_addNew {names : List String} {p : Piece} {name : String} :
    name ∈ addNew names p ↔ name ∈ names ∨ p = .placeholder name := by
  cases p with
  | char c =>
    rw [addNew]
    exact ⟨.inl, fun h => h.resolve_right nofun⟩
  | placeholder other =>
    rw [addNew, Piece.placeholder.injEq]
    split
    · next hc =>
      refine ⟨.inl, ?_⟩
      rintro (h | rfl)
      · exact h
      · exact List.contains_iff_mem.mp hc
    · rw [List.mem_append, List.mem_singleton, eq_comm]

private theorem mem_foldl_addNew {pieces : List Piece} {names : List String} {name : String} :
    name ∈ pieces.foldl addNew names ↔ name ∈ names ∨ .placeholder name ∈ pieces := by
  induction pieces generalizing names with
  | nil => simp
  | cons p rest ih => rw [List.foldl_cons, ih, mem_addNew, List.mem_cons, or_assoc, eq_comm (a := p)]

theorem mem_placeholders {template name : String} :
    name ∈ placeholders template ↔ .placeholder name ∈ pieces template := by
  rw [placeholders, mem_foldl_addNew]
  exact ⟨fun h => h.resolve_left List.not_mem_nil, .inr⟩

/-- A template renders when every name that it asks for is bound or means nothing. -/
theorem exists_render_of_meaning {template : String} {bindings : Bindings} {base : Option Node}
    (h : ∀ name ∈ placeholders template, name ≠ matchName → bindings.meaning name base ≠ .noNode) (source : Units)
    (matchText : String) : ∃ text, render template bindings source matchText base = .ok text := by
  have hpiece : ∀ p ∈ pieces template, ∃ text, renderPiece bindings source matchText base p = .ok text := by
    intro p hp
    cases p with
    | char c => exact ⟨_, rfl⟩
    | placeholder name =>
      rw [renderPiece]
      split
      · exact ⟨_, rfl⟩
      · next hne =>
        have hmeaning := h name (mem_placeholders.mpr hp) hne
        split
        · exact ⟨_, rfl⟩
        · exact ⟨_, rfl⟩
        · next he => exact absurd he hmeaning
  obtain ⟨parts, hparts⟩ := Query.mapM_eq_ok hpiece
  refine ⟨String.join parts, ?_⟩
  rw [render, hparts]
  rfl

/-- A template renders when nothing that it asks for is inherent. -/
theorem exists_render_eq_ok {names : List String} {template : String} (h : Within names template)
    (hplain : Plain names) (bindings : Bindings) (source : Units) (matchText : String) :
    ∃ text, render template bindings source matchText = .ok text := by
  apply exists_render_of_meaning
  intro name hname hne
  exact Bindings.meaning_ne_noNode (hplain name ((h name hname).resolve_left hne)) bindings

private theorem mapM_eq_error {ε α β : Type} {f : α → Except ε β} {e : ε} {xs : List α}
    (hall : ∀ x ∈ xs, (∃ y, f x = .ok y) ∨ f x = .error e) (hx : ∃ x ∈ xs, f x = .error e) :
    xs.mapM f = .error e := by
  induction xs with
  | nil =>
    obtain ⟨x, hm, -⟩ := hx
    cases hm
  | cons x xs ih =>
    obtain ⟨hfirst, hrest⟩ := List.forall_mem_cons.mp hall
    rw [List.mapM_cons]
    rcases hfirst with ⟨y, hy⟩ | he
    · obtain ⟨z, hz, hze⟩ := hx
      have htail : xs.mapM f = .error e := by
        refine ih hrest ?_
        rcases List.mem_cons.mp hz with rfl | hz
        · rw [hy] at hze
          cases hze
        · exact ⟨z, hz, hze⟩
      rw [hy, htail]
      rfl
    · rw [he]
      rfl

/-- A template does not render when it asks for a name that means something which is no node. -/
theorem render_eq_error {template name : String} (hname : name ∈ placeholders template) (hne : name ≠ matchName)
    {bindings : Bindings} {base : Option Node} (hmeaning : bindings.meaning name base = .noNode) (source : Units)
    (matchText : String) : render template bindings source matchText base = .error ⟨"startIndex"⟩ := by
  have hall : ∀ p ∈ pieces template, (∃ text, renderPiece bindings source matchText base p = .ok text) ∨
      renderPiece bindings source matchText base p = .error ⟨"startIndex"⟩ := by
    intro p _
    unfold renderPiece
    repeat' split
    all_goals first | exact .inl ⟨_, rfl⟩ | exact .inr rfl
  have hone : renderPiece bindings source matchText base (.placeholder name) = .error ⟨"startIndex"⟩ := by
    rw [renderPiece, if_neg hne, hmeaning]
  rw [render, mapM_eq_error hall ⟨_, mem_placeholders.mp hname, hone⟩]
  rfl

end Template

namespace FixTemplate

variable {names : List String} (hplain : Plain names) {m : Match} (hm : m.base = none)

include hplain hm

theorem exists_targetSpan_eq_ok {target : Option String} (h : ∀ name ∈ target, name ∈ names) (part : String) :
    ∃ span, targetSpan part m target = .ok span := by
  unfold targetSpan
  split
  · exact ⟨_, rfl⟩
  · next name =>
    have hmeaning := Bindings.meaning_ne_noNode (hplain name (h name rfl)) m.bindings
    rw [Match.meaning, hm]
    split
    · exact ⟨_, rfl⟩
    · exact ⟨_, rfl⟩
    · next he => exact absurd he hmeaning

theorem exists_renderEdits_eq_ok {edits : List EditTemplate} (ht : ∀ e ∈ edits, ∀ name ∈ e.target, name ∈ names)
    (hc : ∀ e ∈ edits, ∀ text ∈ e.content, Template.Within names text) (source : Units)
    (matchText : String) : ∃ rendered, renderEdits m source matchText edits = .ok rendered := by
  induction edits with
  | nil => exact ⟨_, rfl⟩
  | cons e rest ih =>
    obtain ⟨hte, htrest⟩ := List.forall_mem_cons.mp ht
    obtain ⟨hce, hcrest⟩ := List.forall_mem_cons.mp hc
    obtain ⟨span, hspan⟩ := exists_targetSpan_eq_ok hplain hm hte (firstPart e.kind)
    rw [renderEdits, hspan]
    cases span with
    | none => exact ⟨none, rfl⟩
    | some span =>
      refine exists_bind_eq_ok ?_ fun text => exists_bind_eq_ok (ih htrest hcrest) fun edits => ?_
      · split
        · exact ⟨_, rfl⟩
        · next template he =>
          rw [hm]
          exact Template.exists_render_eq_ok (hce template he) hplain _ _ _
      · cases edits <;> exact ⟨_, rfl⟩

theorem exists_render_eq_ok {fix : FixTemplate} (h : fix.Within names) (source : Units) :
    ∃ rendered, fix.render m source = .ok rendered := by
  unfold render
  refine exists_bind_eq_ok (exists_renderEdits_eq_ok hplain hm h.target h.content source _) fun edits => ?_
  cases edits with
  | none => exact ⟨none, rfl⟩
  | some edits =>
    dsimp only
    split
    · exact ⟨_, rfl⟩
    · next d hd =>
      rw [hm]
      exact exists_bind_eq_ok (Template.exists_render_eq_ok (h.description d hd) hplain _ _ _) fun _ => ⟨_, rfl⟩

end FixTemplate

namespace Rule.Sound

variable {rule : Rule} (h : rule.Sound) (hplain : Plain rule.declared)

include h hplain

theorem exists_ofMatch_eq_ok (path : String) (language : Language) (content : Units) {m : Match} (hm : m.base = none) :
    ∃ v, Violation.ofMatch path language content rule m = .ok v := by
  unfold Violation.ofMatch
  rw [hm]
  refine exists_bind_eq_ok (Template.exists_render_eq_ok h.message hplain _ _ _) fun message => ?_
  dsimp only
  split
  · exact ⟨_, rfl⟩
  · next template ht =>
    exact exists_bind_eq_ok (FixTemplate.exists_render_eq_ok hplain hm (h.fix template ht) content) fun _ => ⟨_, rfl⟩

/-- Whatever was seen before, all matches are turned into violations. -/
theorem exists_collect_eq_ok (path : String) (language : Language) (content : Units) {ms : List Match}
    (hms : ∀ m ∈ ms, m.base = none) (c : Collector) :
    ∃ vs, (Collector.collect path language content rule ms c).1 = .ok vs := by
  induction ms generalizing c with
  | nil => exact ⟨[], rfl⟩
  | cons m rest ih =>
    obtain ⟨hm, hrest⟩ := List.forall_mem_cons.mp hms
    obtain ⟨v, hv⟩ := h.exists_ofMatch_eq_ok hplain path language content hm
    rw [Collector.collect, hv]
    dsimp only
    split
    · exact ih hrest _
    · obtain ⟨vs, hvs⟩ := ih hrest (c.mark path v.fingerprint)
      refine ⟨v :: vs, ?_⟩
      split
      · next ws _ he =>
        rw [he] at hvs
        rw [Except.ok.inj hvs]
      · next e _ he =>
        rw [he] at hvs
        cases hvs

end Rule.Sound

/-- Evaluating the rule completes and all its matches can be reported, or the budget halts it. -/
def Rule.Completes (rule : Rule) (tree : Tree) (t : Tracker) : Prop :=
  (∃ ms t', Clause.evaluateAll tree rule.patterns t = .ok ms t' ∧
    ∀ path language content c, ∃ vs, (Collector.collect path language content rule ms c).1 = .ok vs) ∨
  ∃ halt t', Clause.evaluateAll tree rule.patterns t = .error (.halted halt) t'

theorem Rule.Sound.completes {rule : Rule} (h : rule.Sound) (hplain : Plain rule.declared) (tree : Tree)
    (t : Tracker) : rule.Completes tree t := by
  rcases Clause.evaluateAll_of_sound h.clauses h.positive hplain tree t with ⟨ms, t', he, hms⟩ | hhalted
  · exact .inl ⟨ms, t', he, fun path language content c => h.exists_collect_eq_ok hplain path language content hms c⟩
  · exact .inr hhalted

/-! A rule that looks for `A` nodes, captures a `B` child that they may have, and reports its text. It is
accepted under any name that can be written in its query and in its message. -/

namespace MaybeChild

def pattern (name : String) : Query.Pattern := .node "A" [(none, .node "B" [] [] .optional [name])] [] .one []

def source (name : String) : String := Query.print (pattern name) []

def message (name : String) : String := "\x7b\x7b" ++ name ++ "\x7d\x7d"

def value (name : String) : Value :=
  .obj [("id", .str "maybe"), ("languages", .arr [.str "typescript"]), ("severity", .str "error"),
    ("message", .str (message name)),
    ("patterns", .arr [.obj [("type", .str "structural"), ("query", .str (source name))]])]

def rule (name : String) : Rule :=
  { id := "maybe", languages := [.typescript], severity := .error, message := message name
    patterns := [.structural (source name) none none] }

/-- A tree of one `A` node. -/
def tree : Tree := .ofDraft .typescript (Units.ofString "x") { kind := "A", start := 0, stop := 1, children := [] } []

/-- The name is a capture name and, between braces, a placeholder; query and message are not blank. -/
def Writable (name : String) : Prop :=
  Query.IsCaptureName name ∧ Template.placeholders (message name) = [name] ∧
    Validation.text? (some (.str (source name))) = some (source name) ∧
    Validation.text? (some (.str (message name))) = some (message name)

instance (name : String) : Decidable (Writable name) := inferInstanceAs (Decidable (_ ∧ _ ∧ _ ∧ _))

theorem parse_source {name : String} (h : Query.IsCaptureName name) :
    Query.parse (source name) = .ok ⟨source name, pattern name, [], [name]⟩ := by
  have htree : (pattern name).WellFormed := by
    simp only [pattern, Query.Pattern.WellFormed, Query.ElementsWellFormed]
    refine ⟨by decide, ⟨nofun, ⟨by decide, trivial, nofun, ?_⟩, trivial⟩, nofun, nofun⟩
    intro c hc
    exact List.mem_singleton.mp hc ▸ h
  have hcaptures : (pattern name).allCaptures.eraseDups = [name] := by
    simp only [pattern, Query.Pattern.allCaptures, Query.capturesOfElements]
    rfl
  have hp := Query.parse_print_pattern htree rfl
  rw [hcaptures] at hp
  exact hp

section

open Validation

variable {name : String} (h : Writable name)

include h

theorem checkClause_eq (path : String) :
    checkClause Clause.maxDepth (some (.obj [("type", .str "structural"), ("query", .str (source name))])) path .top =
      { clause := some (.structural (source name) none none), captures := [name] } := by
  obtain ⟨hcapture, -, hsource, -⟩ := h
  have hnone : text? none = none := rfl
  have hstructural : checkStructural path (.obj [("type", .str "structural"), ("query", .str (source name))]) =
      { clause := some (.structural (source name) none none), captures := [name] } := by
    unfold checkStructural
    simp [Value.get?, Members.get?, hsource, parse_source hcapture, checkWhere, hnone]
  rw [Clause.maxDepth, checkClause.eq_def]
  simp [Value.get?, Members.get?, clauseTypes, hstructural]

theorem checkRule_eq : (checkRule (some (value name))).rule = some (rule name) := by
  have hclause := checkClause_eq h
  obtain ⟨-, hplaceholders, -, hmessage⟩ := h
  have hid : (text? (some (.str "maybe"))).map Text.trim = some "maybe" := rfl
  have hlanguages : checkLanguages (some (.arr [.str "typescript"])) = ⟨[.typescript], []⟩ := rfl
  have hseverity : Severity.ofWord? "error" = some .error := rfl
  unfold checkRule
  simp [value, rule, Value.orNull, Value.isObj, Value.get?, Members.get?, Value.str?, hid, hlanguages, hseverity,
    hmessage, hclause, checkTemplate, hplaceholders, checkFix, checkTests, checkTags, checkOptionalText, checkChecksum]

theorem declared_eq : (rule name).declared = [name] := by
  unfold Rule.declared
  simp [rule, Clause.declaredEach, Clause.declared, parse_source h.1]

theorem exists_evaluateAll_eq :
    ∃ t', Clause.evaluateAll tree (rule name).patterns (.start { maxSteps := 10 } (.still 0)) =
      .ok [⟨tree.root.span, tree.root, [], none⟩] t' := by
  have hunion : Match.union [[⟨tree.root.span, tree.root, [], none⟩]] = [⟨tree.root.span, tree.root, [], none⟩] := by
    simp [Match.union, Match.distinct]
  simp only [rule, Clause.evaluateAll, Clause.evaluateEach, Clause.evaluate, Clause.structuralMatches,
    parse_source h.1, Counted.ofExcept, pure_bind, bind_assoc]
  rw [← hunion]
  exact ⟨_, rfl⟩

/-- An inherent name of the child that is not there makes the report fail. -/
theorem collect_eq_error (hinherent : name ∈ Bindings.inherent) (path : String) (language : Language)
    (content : Units) (c : Collector) :
    (Collector.collect path language content (rule name) [⟨tree.root.span, tree.root, [], none⟩] c).1 =
      .error ⟨"startIndex"⟩ := by
  obtain ⟨-, hplaceholders, -⟩ := h
  have hmem : name ∈ Template.placeholders (message name) := hplaceholders ▸ List.mem_cons_self
  have hne : name ≠ Template.matchName := fun he => absurd (he ▸ hinherent) (by decide)
  have hmeaning : Bindings.meaning [] name = .noNode := Bindings.meaning_eq_noNode_iff.mpr ⟨rfl, hinherent⟩
  have hrender := Template.render_eq_error hmem hne hmeaning content
    (content.slice tree.root.span.start tree.root.span.stop).toText
  have hviolation : Violation.ofMatch path language content (rule name) ⟨tree.root.span, tree.root, [], none⟩ =
      .error ⟨"startIndex"⟩ := by
    unfold Violation.ofMatch
    exact congrArg (· >>= _) hrender
  rw [Collector.collect, hviolation]

end

end MaybeChild

theorem MaybeChild.writable_of_inherent : ∀ name ∈ Bindings.inherent, Writable name := by
  decide +kernel

theorem MaybeChild.not_completes {name : String} (h : name ∈ Bindings.inherent) :
    ¬(rule name).Completes tree (.start { maxSteps := 10 } (.still 0)) := by
  have hw := writable_of_inherent name h
  obtain ⟨t', he⟩ := exists_evaluateAll_eq hw
  rintro (⟨ms, t₂, hms, hcollect⟩ | ⟨halt, t₂, hhalted⟩)
  · rw [he] at hms
    cases hms
    obtain ⟨vs, hvs⟩ := hcollect "a.ts" .typescript tree.source {}
    rw [collect_eq_error hw h] at hvs
    cases hvs
  · rw [he] at hhalted
    cases hhalted

/-- The accepted rules over some names complete on every tree and under every budget exactly when none of
the names is inherent. -/
theorem Rule.accepted_completes_iff (names : List String) :
    (∀ raw rule, (Validation.checkRule raw).rule = some rule → rule.declared ⊆ names →
      ∀ tree t, rule.Completes tree t) ↔ ∀ name ∈ names, name ∉ Bindings.inherent := by
  constructor
  · intro h name hname hinherent
    have hw := MaybeChild.writable_of_inherent name hinherent
    have hdeclared : (MaybeChild.rule name).declared ⊆ names := by
      rw [MaybeChild.declared_eq hw]
      exact List.cons_subset.mpr ⟨hname, List.nil_subset _⟩
    exact MaybeChild.not_completes hinherent (h _ _ (MaybeChild.checkRule_eq hw) hdeclared _ _)
  · intro hplain raw rule haccepted hdeclared tree t
    exact (Validation.sound_of_checkRule haccepted).completes (fun name hn => hplain name (hdeclared hn)) tree t

theorem Rule.accepted_completes_child :
    (MaybeChild.rule "child").Completes MaybeChild.tree (.start { maxSteps := 10 } (.still 0)) := by
  have hw : MaybeChild.Writable "child" := by decide
  have hplain : ∀ name ∈ ["child"], name ∉ Bindings.inherent := by decide
  refine (Rule.accepted_completes_iff ["child"]).mpr hplain _ _ (MaybeChild.checkRule_eq hw) ?_ _ _
  rw [MaybeChild.declared_eq hw]
  exact List.Subset.refl _

/-- A rule that captures an optional child as `constructor` is accepted and fails where there is none. -/
theorem Rule.accepted_constructor_fails :
    (Validation.checkRule (some (MaybeChild.value "constructor"))).rule = some (MaybeChild.rule "constructor") ∧
      ∃ ms t', Clause.evaluateAll MaybeChild.tree (MaybeChild.rule "constructor").patterns
          (.start { maxSteps := 10 } (.still 0)) = .ok ms t' ∧
        (Collector.collect "a.ts" .typescript MaybeChild.tree.source (MaybeChild.rule "constructor") ms {}).1 =
          .error ⟨"startIndex"⟩ := by
  have hinherent : "constructor" ∈ Bindings.inherent := by decide
  have hw := MaybeChild.writable_of_inherent "constructor" hinherent
  obtain ⟨t', he⟩ := MaybeChild.exists_evaluateAll_eq hw
  exact ⟨MaybeChild.checkRule_eq hw, _, t', he, MaybeChild.collect_eq_error hw hinherent _ _ _ _⟩

end RuleScan
