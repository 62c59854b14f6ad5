import RuleScan.Proofs.Evaluation.Places
import RuleScan.Proofs.Query.Mandatory
import RuleScan.Proofs.Rule.Safety

/-! What the matches of a query bind, and when there is a fix for them. Main statement: a fix that edits mandatory
captures is rendered for every match of the query, unless a text of it asks for an inherent name that is not bound. -/
namespace RuleScan

open Counted

def Template.Covered (bindings : Bindings) (template : String) : Prop :=
  ∀ name ∈ placeholders template, name ∈ Bindings.inherent → ∃ n, bindings.lookup name = some n

namespace FixTemplate

structure Covered (bindings : Bindings) (fix : FixTemplate) : Prop where
  content : ∀ e ∈ fix.edits, ∀ text ∈ e.content, Template.Covered bindings text
  description : ∀ d ∈ fix.description, Template.Covered bindings d

def Bound (bindings : Bindings) (edits : List EditTemplate) : Prop :=
  ∀ e ∈ edits, ∀ name ∈ e.target, ∃ n, bindings.lookup name = some n

end FixTemplate

namespace Template

variable {bindings : Bindings} {template : String}

theorem exists_render_of_covered (h : Covered bindings template) (source : Units) (matchText : String) :
    ∃ text, render template bindings source matchText = .ok text := by
  apply exists_render_of_meaning
  intro name hname _ he
  obtain ⟨hnone, hinherent⟩ := Bindings.meaning_eq_noNode_iff.mp he
  obtain ⟨n, hn⟩ := h name hname hinherent
  rw [hnone] at hn
  cases hn

theorem render_of_not_covered (h : ¬Covered bindings template) (source : Units) (matchText : String) :
    render template bindings source matchText = .error ⟨"startIndex"⟩ := by
  unfold Covered at h
  push Not at h
  obtain ⟨name, hname, hinherent, hunbound⟩ := h
  have hnone : bindings.lookup name = none := Option.eq_none_iff_forall_ne_some.mpr hunbound
  have hne : name ≠ matchName := fun he => absurd (he ▸ hinherent) (by decide)
  exact render_eq_error hname hne (Bindings.meaning_eq_noNode_iff.mpr ⟨hnone, hinherent⟩) source matchText

/-- A text that may be left out, with what stands for it then. -/
theorem render_given_cases (given : Option String) (default : String) (source : Units) (matchText : String) :
    (∀ text ∈ given, Covered bindings text) ∧
        (∃ text, given.elim (.ok default) (render · bindings source matchText) = .ok text) ∨
      ¬(∀ text ∈ given, Covered bindings text) ∧
        given.elim (.ok default) (render · bindings source matchText) = .error ⟨"startIndex"⟩ := by
  cases given with
  | none => exact .inl ⟨nofun, default, rfl⟩
  | some template =>
    simp only [Option.mem_some_iff, forall_eq', Option.elim_some]
    by_cases h : Covered bindings template
    · exact .inl ⟨h, exists_render_of_covered h source matchText⟩
    · exact .inr ⟨h, render_of_not_covered h source matchText⟩

end Template

namespace FixTemplate

theorem render_eq (fix : FixTemplate) (m : Match) (source : Units) : fix.render m source =
    let text := (source.slice m.span.start m.span.stop).toText
    renderEdits m source text fix.edits >>= fun rendered => rendered.elim (.ok none) fun edits =>
      fix.description.elim (.ok defaultDescription) (Template.render · m.bindings source text m.base) >>=
        fun description => .ok (some ⟨description, edits⟩) := by
  unfold render
  dsimp only
  rcases renderEdits m source _ fix.edits with noNode | _ | edits <;> cases fix.description <;> rfl

variable {m : Match} (hm : m.base = none)

include hm

theorem exists_targetSpan_eq_some {target : Option String} (h : ∀ name ∈ target, ∃ n, m.bindings.lookup name = some n)
    (part : String) : ∃ span, targetSpan part m target = .ok (some span) := by
  cases target with
  | none => exact ⟨_, rfl⟩
  | some name =>
    obtain ⟨n, hn⟩ := h name rfl
    exact ⟨n.span, by rw [targetSpan, Match.meaning, hm, Bindings.meaning_eq_node_iff.mpr hn]⟩

/-- Edits whose targets are bound are rendered, unless one of their contents fails. -/
theorem renderEdits_cases {edits : List EditTemplate} (hbound : Bound m.bindings edits) (source : Units)
    (matchText : String) :
    (∀ e ∈ edits, ∀ text ∈ e.content, Template.Covered m.bindings text) ∧
        (∃ rendered, renderEdits m source matchText edits = .ok (some rendered)) ∨
      ¬(∀ e ∈ edits, ∀ text ∈ e.content, Template.Covered m.bindings text) ∧
        renderEdits m source matchText edits = .error ⟨"startIndex"⟩ := by
  induction edits with
  | nil => exact .inl ⟨nofun, [], rfl⟩
  | cons e rest ih =>
    obtain ⟨hfirst, hrest⟩ := List.forall_mem_cons.mp hbound
    obtain ⟨span, hspan⟩ := exists_targetSpan_eq_some hm hfirst (firstPart e.kind)
    have hedits : renderEdits m source matchText (e :: rest) =
        e.content.elim (.ok "") (Template.render · m.bindings source matchText) >>= fun text =>
          renderEdits m source matchText rest >>= fun rendered =>
            rendered.elim (.ok none) fun edits => .ok (some ((editAt? e.kind span text).toList ++ edits)) := by
      rw [renderEdits, hspan, hm]
      rcases renderEdits m source matchText rest with noNode | _ | edits <;> cases e.content <;> rfl
    rw [hedits, List.forall_mem_cons]
    rcases Template.render_given_cases e.content "" source matchText with ⟨hcovered, text, ht⟩ | ⟨hnot, ht⟩
    · rcases ih hrest with ⟨hcovered', rendered, hr⟩ | ⟨hnot, hr⟩
      · rw [ht, hr]
        exact .inl ⟨⟨hcovered, hcovered'⟩, _, rfl⟩
      · rw [ht, hr]
        exact .inr ⟨fun h => hnot h.2, rfl⟩
    · rw [ht]
      exact .inr ⟨fun h => hnot h.1, rfl⟩

/-- A fix whose targets are bound is rendered, unless one of its texts fails. -/
theorem render_cases {fix : FixTemplate} (hbound : Bound m.bindings fix.edits) (source : Units) :
    fix.Covered m.bindings ∧ (∃ f, fix.render m source = .ok (some f)) ∨
      ¬fix.Covered m.bindings ∧ fix.render m source = .error ⟨"startIndex"⟩ := by
  let text := (source.slice m.span.start m.span.stop).toText
  have hfix := render_eq fix m source
  rw [hm] at hfix
  dsimp only at hfix
  rcases renderEdits_cases hm hbound source text with ⟨hcontent, edits, he⟩ | ⟨hnot, he⟩
  · have hrendered : fix.render m source =
        fix.description.elim (.ok defaultDescription) (Template.render · m.bindings source text) >>= fun description =>
          .ok (some ⟨description, edits⟩) := by
      rw [hfix, he]
      rfl
    rw [hrendered]
    rcases Template.render_given_cases fix.description defaultDescription source text with
      ⟨hdescription, description, hd⟩ | ⟨hnot, hd⟩
    · rw [hd]
      exact .inl ⟨⟨hcontent, hdescription⟩, ⟨description, edits⟩, rfl⟩
    · rw [hd]
      exact .inr ⟨fun h => hnot h.description, rfl⟩
  · rw [hfix, he]
    exact .inr ⟨fun h => hnot h.content, rfl⟩

end FixTemplate

namespace Clause

/-- All matches of one query bind its mandatory captures, and their records have no base. -/
theorem yields_mandatory {query : String} {parsed : Query} (hparse : Query.parse query = .ok parsed) (tree : Tree)
    (focus : Option String) (constraints : Option (List Constraint)) :
    Yields (evaluateAll tree [.structural query focus constraints]) fun ms => ∀ m ∈ ms,
      m.base = none ∧ ∀ name, Query.Mandatory name parsed.pattern → ∃ n, m.bindings.lookup name = some n := by
  have hmatches := yields_isSolution tree query focus (constraints.getD [])
  rw [evaluateAll]
  refine yields_bind fun _ => ?_
  simp only [evaluateEach, evaluate, bind_assoc, pure_bind]
  refine hmatches.bind fun ms hms => yields_pure fun m hm => ?_
  obtain ⟨ms', hms', hm⟩ := Match.exists_of_mem_union hm
  rw [List.mem_singleton.mp hms'] at hm
  obtain ⟨parsed', node, hparse', -, hsolves, hfocused⟩ := hms m hm
  obtain rfl : parsed' = parsed := Except.ok.inj (hparse'.symm.trans hparse)
  exact ⟨(bindings_of_focused hfocused).2, fun name hname => hname.exists_lookup hsolves⟩

/-- The matches of a query bind captures of the query, the mandatory ones among them, to nodes under the matched one.
A fix that edits mandatory captures is rendered for each match, exactly if the inherent names that its texts ask for
are bound. -/
theorem captures_and_fixes {query : String} {parsed : Query} (hparse : Query.parse query = .ok parsed) (tree : Tree) :
    (∀ compiled, Query.compile parsed = .ok compiled → ∀ accept : Bindings → Counted Bool,
      (∀ env, Settles (accept env)) → Yields (compiled.findMatches tree accept) fun found => ∀ x ∈ found,
        (∀ y ∈ x.2, y.1 ∈ parsed.captureNames ∧ y.2 ∈ x.1.preorder) ∧
          ∀ name, Query.Mandatory name parsed.pattern → ∃ n, x.2.lookup name = some n) ∧
      ∀ focus constraints, Yields (evaluateAll tree [.structural query focus constraints]) fun ms =>
        ∀ m ∈ ms, ∀ (fix : FixTemplate) (source : Units),
          (∀ e ∈ fix.edits, ∀ name ∈ e.target, Query.Mandatory name parsed.pattern) →
            fix.Covered m.bindings ∧ (∃ f, fix.render m source = .ok (some f)) ∨
              ¬fix.Covered m.bindings ∧ fix.render m source = .error ⟨"startIndex"⟩ := by
  constructor
  · intro compiled hcompile accept haccept t found t' hrun x hx
    obtain ⟨-, hsolves⟩ := compiled.yields_solves tree haccept t found t' hrun x hx
    obtain ⟨compiled', hcompile', hpattern⟩ := Query.compile_of_parse hparse
    obtain rfl : compiled = compiled' := Except.ok.inj (hcompile.symm.trans hcompile')
    rw [hpattern] at hsolves
    refine ⟨fun y hy => ⟨Query.mem_captureNames_of_solves hparse hsolves hy, ?_⟩, fun name h => h.exists_lookup hsolves⟩
    exact ((Query.Solves.mem_or parsed.pattern hsolves hy).resolve_left List.not_mem_nil).2
  · intro focus constraints t ms t' hrun m hm fix source htargets
    obtain ⟨hbase, hmandatory⟩ := yields_mandatory hparse tree focus constraints t ms t' hrun m hm
    exact FixTemplate.render_cases hbase (fun e he name hname => hmandatory name (htargets e he name hname)) source

end Clause

/-! A fix that puts the text of a `B` child, which an `A` node may have, before the `A` node. -/

namespace OptionalText

/-- `(A (B)? @name) @a` -/
def pattern (name : String) : Query.Pattern := .node "A" [(none, .node "B" [] [] .optional [name])] [] .one ["a"]

def query (name : String) : String := Query.print (pattern name) []

def fix (name : String) : FixTemplate :=
  { edits := [{ kind := .insertBefore, target := "a", content := MaybeChild.message name }] }

/-- The `A` node without children. -/
def found : Match := ⟨MaybeChild.tree.root.span, MaybeChild.tree.root, [("a", MaybeChild.tree.root)], none⟩

theorem parse_query {name : String} (h : Query.IsCaptureName name) :
    Query.parse (query name) = .ok ⟨query name, pattern name, [], (pattern name).allCaptures.eraseDups⟩ := by
  have htree : (pattern name).WellFormed := by
    simp only [pattern, Query.Pattern.WellFormed, Query.ElementsWellFormed]
    refine ⟨by decide, ⟨nofun, ⟨by decide, trivial, nofun, ?_⟩, trivial⟩, nofun, by decide⟩
    intro c hc
    exact List.mem_singleton.mp hc ▸ h
  exact Query.parse_print_pattern htree rfl

theorem exists_evaluateAll_eq {name : String} (h : Query.IsCaptureName name) :
    ∃ t', Clause.evaluateAll MaybeChild.tree [.structural (query name) none none]
      (.start { maxSteps := 10 } (.still 0)) = .ok [found] t' := by
  have hunion : Match.union [[found]] = [found] := by simp [Match.union, Match.distinct]
  simp only [Clause.evaluateAll, Clause.evaluateEach, Clause.evaluate, Clause.structuralMatches, parse_query h,
    Counted.ofExcept, pure_bind, bind_assoc]
  rw [← hunion]
  exact ⟨_, rfl⟩

theorem mandatory_target (name : String) :
    ∀ e ∈ (fix name).edits, ∀ target ∈ e.target, Query.Mandatory target (pattern name) := by
  intro e he target htarget
  obtain rfl := List.mem_singleton.mp he
  cases htarget
  exact .own List.mem_cons_self

/-- The one name that the fix asks for is the one given, if it can be written. -/
theorem covered_iff {name : String} (h : MaybeChild.Writable name) :
    (fix name).Covered found.bindings ↔ (name ∈ Bindings.inherent → ∃ n, found.bindings.lookup name = some n) := by
  obtain ⟨-, hplaceholders, -⟩ := h
  have hcontent : Template.Covered found.bindings (MaybeChild.message name) ↔
      (name ∈ Bindings.inherent → ∃ n, found.bindings.lookup name = some n) := by
    rw [Template.Covered, hplaceholders, List.forall_mem_singleton]
  rw [← hcontent]
  constructor
  · intro h
    exact h.content _ List.mem_cons_self _ rfl
  · intro h
    constructor
    · intro e he text htext
      obtain rfl := List.mem_singleton.mp he
      cases htext
      exact h
    · exact nofun

/-- Where the child is missing its text is empty. -/
theorem captures_and_fixes_child : Query.IsCaptureName "child" ∧ ∃ t' f,
    Clause.evaluateAll MaybeChild.tree [.structural (query "child") none none]
      (.start { maxSteps := 10 } (.still 0)) = .ok [found] t' ∧
    (fix "child").render found MaybeChild.tree.source = .ok (some f) := by
  have hname : Query.IsCaptureName "child" := by decide
  obtain ⟨t', hrun⟩ := exists_evaluateAll_eq hname
  obtain ⟨-, hfixes⟩ := Clause.captures_and_fixes (parse_query hname) MaybeChild.tree
  have hcases := hfixes none none _ _ _ hrun found List.mem_cons_self (fix "child") MaybeChild.tree.source
    (mandatory_target "child")
  have hcovered : (fix "child").Covered found.bindings := (covered_iff (by decide)).mpr fun h => absurd h (by decide)
  obtain ⟨-, f, hf⟩ := hcases.resolve_right fun h => h.1 hcovered
  exact ⟨hname, t', f, hrun, hf⟩

/-- A child captured as `constructor` makes the fix fail where it is missing. -/
theorem render_constructor_fails :
    Query.parse (query "constructor") =
        .ok ⟨query "constructor", pattern "constructor", [], (pattern "constructor").allCaptures.eraseDups⟩ ∧
      (∀ e ∈ (fix "constructor").edits, ∀ target ∈ e.target, Query.Mandatory target (pattern "constructor")) ∧
      (∃ t', Clause.evaluateAll MaybeChild.tree [.structural (query "constructor") none none]
        (.start { maxSteps := 10 } (.still 0)) = .ok [found] t') ∧
      (fix "constructor").render found MaybeChild.tree.source = .error ⟨"startIndex"⟩ := by
  have hname : Query.IsCaptureName "constructor" := by decide
  have hinherent : "constructor" ∈ Bindings.inherent := by decide
  obtain ⟨t', hrun⟩ := exists_evaluateAll_eq hname
  have hbound : FixTemplate.Bound found.bindings (fix "constructor").edits := by
    intro e he target htarget
    have hmandatory := Clause.yields_mandatory (parse_query hname) MaybeChild.tree none none _ _ _ hrun
    exact (hmandatory found List.mem_cons_self).2 target (mandatory_target _ e he target htarget)
  have hnot : ¬(fix "constructor").Covered found.bindings := by
    intro h
    obtain ⟨n, hn⟩ := (covered_iff (MaybeChild.writable_of_inherent _ hinherent)).mp h hinherent
    have hnone : found.bindings.lookup "constructor" = none := rfl
    rw [hnone] at hn
    cases hn
  have hrender := (FixTemplate.render_cases rfl hbound MaybeChild.tree.source).resolve_left fun h => hnot h.1
  exact ⟨parse_query hname, mandatory_target _, ⟨t', hrun⟩, hrender.2⟩

end OptionalText

end RuleScan
