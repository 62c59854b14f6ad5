import RuleScan.Proofs.Rule.Fixes
import RuleScan.Proofs.Rule.Splicing

/-! Where the edits of a rendered fix are. Each is made at the span of the match or of a node that it binds. Main
statement: a fix that is rendered for a match lies in the text of the tree, so it can be applied unless two of its
edits overlap. -/
namespace RuleScan

namespace FixTemplate

variable {m : Match} {source : Units} {matchText content part : String} {span : Span}

theorem within_targetSpan {lines : LineIndex} (hm : m.Within lines) {target : Option String}
    (h : targetSpan part m target = .ok (some span)) : span.Within lines := by
  unfold targetSpan at h
  split at h
  · cases h
    exact hm.span
  · split at h
    · next name node hnode =>
      cases h
      exact hm.of_meaning hnode
    · cases h
    · cases h

/-- An edit is made on the span of its target, or at one of the ends. -/
theorem bounds_of_editAt? {kind : EditKind} {e : Edit} (hspan : span.start ≤ span.stop)
    (h : editAt? kind span content = some e) :
    (span.start : Int) ≤ e.start ∧ e.start ≤ e.stop ∧ e.stop ≤ span.stop := by
  have hordered : (span.start : Int) ≤ span.stop := Int.ofNat_le.mpr hspan
  cases kind with
  | replace | remove =>
    cases h
    exact ⟨Int.le_refl _, hordered, Int.le_refl _⟩
  | insertBefore =>
    cases h
    exact ⟨Int.le_refl _, Int.le_refl _, hordered⟩
  | insertAfter =>
    cases h
    exact ⟨hordered, Int.le_refl _, Int.le_refl _⟩
  | unknown => cases h

/-- The kinds that replace nothing. -/
def Inserts (kind : EditKind) : Prop := kind = .insertBefore ∨ kind = .insertAfter

instance : DecidablePred Inserts := fun _ => inferInstanceAs (Decidable (_ ∨ _))

theorem Inserts.start_eq_stop {kind : EditKind} (hkind : Inserts kind) {e : Edit}
    (h : editAt? kind span content = some e) : e.start = e.stop := by
  rcases hkind with rfl | rfl
  · cases h
    rfl
  · cases h
    rfl

theorem renderEdits_cons {e : EditTemplate} {rest : List EditTemplate} {edits : List Edit}
    (h : renderEdits m source matchText (e :: rest) = .ok (some edits)) : ∃ span text later,
      targetSpan (firstPart e.kind) m e.target = .ok (some span) ∧
      renderEdits m source matchText rest = .ok (some later) ∧
      edits = (editAt? e.kind span text).toList ++ later := by
  rw [renderEdits] at h
  dsimp only at h
  split at h
  · cases h
  · next span hspan =>
    obtain ⟨text, -, h⟩ := Query.bind_eq_ok.mp h
    obtain ⟨later, hlater, h⟩ := Query.bind_eq_ok.mp h
    cases later with
    | none => cases h
    | some later =>
      cases h
      exact ⟨span, text, later, hspan, hlater, rfl⟩
  · obtain ⟨text, -, h⟩ := Query.bind_eq_ok.mp h
    cases h

/-- Every rendered edit is the one that some edit of the template makes at its target. -/
theorem exists_of_mem_renderEdits {templates : List EditTemplate} {edits : List Edit}
    (h : renderEdits m source matchText templates = .ok (some edits)) : ∀ e ∈ edits, ∃ t ∈ templates, ∃ span text,
      targetSpan (firstPart t.kind) m t.target = .ok (some span) ∧ editAt? t.kind span text = some e := by
  induction templates generalizing edits with
  | nil =>
    cases h
    exact nofun
  | cons t rest ih =>
    obtain ⟨span, text, later, hspan, hlater, rfl⟩ := renderEdits_cons h
    intro e he
    rcases List.mem_append.mp he with he | he
    · exact ⟨t, List.mem_cons_self, span, text, hspan, Option.mem_toList.mp he⟩
    · obtain ⟨t', ht', hmade⟩ := ih hlater e he
      exact ⟨t', List.mem_cons_of_mem _ ht', hmade⟩

theorem length_renderEdits_le {templates : List EditTemplate} {edits : List Edit}
    (h : renderEdits m source matchText templates = .ok (some edits)) : edits.length ≤ templates.length := by
  induction templates generalizing edits with
  | nil =>
    cases h
    exact Nat.le_refl _
  | cons t rest ih =>
    obtain ⟨span, text, later, -, hlater, rfl⟩ := renderEdits_cons h
    have hone : (editAt? t.kind span text).toList.length ≤ 1 := by
      cases editAt? t.kind span text <;> simp
    have := ih hlater
    simp only [List.length_append, List.length_cons]
    omega

theorem exists_renderEdits {template : FixTemplate} {fix : Fix} (h : template.render m source = .ok (some fix)) :
    ∃ matchText, renderEdits m source matchText template.edits = .ok (some fix.edits) := by
  rw [render_eq] at h
  obtain ⟨edits, hedits, h⟩ := Query.bind_eq_ok.mp h
  cases edits with
  | none => cases h
  | some edits =>
    obtain ⟨description, -, h⟩ := Query.bind_eq_ok.mp h
    cases h
    exact ⟨_, hedits⟩

theorem inside_of_render {lines : LineIndex} (hm : m.Within lines) {template : FixTemplate} {fix : Fix}
    (h : template.render m source = .ok (some fix)) : ∀ e ∈ fix.edits, e.Inside lines.size := by
  obtain ⟨matchText, hedits⟩ := exists_renderEdits h
  intro e he
  obtain ⟨t, -, span, text, hspan, hmade⟩ := exists_of_mem_renderEdits hedits e he
  obtain ⟨-, hordered, hbounded⟩ := within_targetSpan hm hspan
  obtain ⟨hstart, hle, hstop⟩ := bounds_of_editAt? hordered hmade
  exact ⟨by omega, hle, by omega⟩

theorem apart_of_render {template : FixTemplate} {fix : Fix} (h : template.render m source = .ok (some fix))
    (hfew : template.edits.length ≤ 1 ∨ ∀ t ∈ template.edits, Inserts t.kind) : fix.edits.Pairwise Edit.Apart := by
  obtain ⟨matchText, hedits⟩ := exists_renderEdits h
  rcases hfew with hone | hinserts
  · have hlength := Nat.le_trans (length_renderEdits_le hedits) hone
    match he : fix.edits with
    | [] => exact .nil
    | [e] => exact List.pairwise_singleton _ e
    | e :: e' :: rest => simp [he] at hlength
  · have hpoint : ∀ e ∈ fix.edits, e.start = e.stop := by
      intro e he
      obtain ⟨t, ht, span, text, -, hmade⟩ := exists_of_mem_renderEdits hedits e he
      exact (hinserts t ht).start_eq_stop hmade
    refine List.pairwise_of_forall_mem_list fun a ha b hb => ?_
    have := hpoint a ha
    have := hpoint b hb
    unfold Edit.Apart
    omega

end FixTemplate

namespace Fix

theorem exists_not_inside_of_flaw? {length : Nat} {lowest : Int} {edits : List Edit} {start stop : Int} {n : Nat}
    (h : flaw? length lowest edits = some (.outside start stop n)) : ∃ e ∈ edits, ¬e.Inside length := by
  induction edits generalizing lowest with
  | nil => cases h
  | cons e rest ih =>
    simp only [flaw?, Bool.or_eq_true, decide_eq_true_eq] at h
    split at h
    · next hout =>
      refine ⟨e, List.mem_cons_self, fun hinside => ?_⟩
      obtain ⟨hnonneg, hordered, hbounded⟩ := hinside
      simp only [Edit.start, Edit.stop] at hnonneg hordered hbounded
      omega
    · split at h
      · cases h
      · obtain ⟨b, hb, hnot⟩ := ih h
        exact ⟨b, List.mem_cons_of_mem _ hb, hnot⟩

/-- Only an edit that does not lie in the text is refused as outside. -/
theorem exists_not_inside {fix : Fix} {content : Units} {start stop : Int} {n : Nat}
    (h : fix.apply content = .error (.outside start stop n)) : ∃ e ∈ fix.edits, ¬e.Inside content.size := by
  unfold apply at h
  dsimp only at h
  split at h
  · next e he =>
    cases h
    obtain ⟨b, hb, hnot⟩ := exists_not_inside_of_flaw? he
    exact ⟨b, List.mem_mergeSort.mp hb, hnot⟩
  · cases h

end Fix

open Counted

/-- A fix that is rendered for a match of a rule lies in the source of the tree. It is never refused as outside, it
fails exactly if two edits overlap, and it is applied if there is one edit only or all edits insert. -/
theorem Rule.rendered_fix_fits (language : Language) (source : Units) (root : Draft)
    (diagnostics : List DraftDiagnostic) (rule : Rule) :
    Yields (Clause.evaluateAll (Tree.ofDraft language source root diagnostics) rule.patterns) fun ms =>
      ∀ m ∈ ms, ∀ (template : FixTemplate) (fix : Fix), template.render m source = .ok (some fix) →
        (∀ e ∈ fix.edits, e.Inside source.size) ∧
        (∀ start stop length, fix.apply source ≠ .error (.outside start stop length)) ∧
        ((∃ e, fix.apply source = .error e) ↔ ¬fix.edits.Pairwise Edit.Apart) ∧
        (template.edits.length = 1 ∨ (∀ t ∈ template.edits, FixTemplate.Inserts t.kind) →
          ∃ result, fix.apply source = .ok result) := by
  have hplaced := Tree.placed_ofDraft language source root diagnostics
  intro t ms t' hrun m hm template fix hfix
  have hwithin : m.Within (LineIndex.ofText source) :=
    (Clause.lasting_within hplaced _).yields_evaluateAll t ms t' hrun m hm
  have hinside : ∀ e ∈ fix.edits, e.Inside source.size := FixTemplate.inside_of_render hwithin hfix
  have hfits : fix.Fits source.size ↔ fix.edits.Pairwise Edit.Apart := ⟨Fix.Fits.apart, fun h => ⟨hinside, h⟩⟩
  refine ⟨hinside, fun start stop length hout => ?_, Fix.exists_error_iff.trans hfits.not, fun hfew => ?_⟩
  · obtain ⟨e, he, hnot⟩ := Fix.exists_not_inside hout
    exact hnot (hinside e he)
  · have hapart := FixTemplate.apart_of_render hfix (hfew.imp_left Nat.le_of_eq)
    exact ⟨_, Fix.apply_eq_ok_iff.mpr ⟨hfits.mpr hapart, rfl⟩⟩

namespace OptionalText

/-- Writes the text of an `A` node in front of it and a comma behind it. -/
def repeating : FixTemplate :=
  { edits := [{ kind := .insertAfter, content := "," },
      { kind := .insertBefore, target := "a", content := MaybeChild.message "a" }] }

def rule : Rule := { MaybeChild.rule "child" with patterns := [.structural (query "child") none none] }

theorem rendered_fix_fits_repeating : ∃ t' fix result,
    Clause.evaluateAll MaybeChild.tree rule.patterns (.start { maxSteps := 10 } (.still 0)) = .ok [found] t' ∧
      repeating.render found (Units.ofString "x") = .ok (some fix) ∧ fix.apply (Units.ofString "x") = .ok result := by
  obtain ⟨t', hrun⟩ := @exists_evaluateAll_eq "child" (by decide)
  have hfix : repeating.render found (Units.ofString "x") = .ok (some ⟨FixTemplate.defaultDescription,
      [⟨⟨1, 2, 1, 2, 1, 1⟩, ","⟩, ⟨⟨1, 1, 1, 1, 0, 0⟩, "x"⟩]⟩) := by decide +kernel
  obtain ⟨-, -, -, hinserts⟩ := Rule.rendered_fix_fits .typescript (Units.ofString "x")
    { kind := "A", start := 0, stop := 1, children := [] } [] rule _ _ _ hrun found List.mem_cons_self repeating _ hfix
  obtain ⟨result, hresult⟩ := hinserts (.inr (by decide))
  exact ⟨t', _, result, hrun, hfix, hresult⟩

end OptionalText

end RuleScan
