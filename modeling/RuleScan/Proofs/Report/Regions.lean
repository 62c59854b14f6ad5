import RuleScan.Proofs.Evaluation.Places
import RuleScan.Proofs.Number.Texts
import RuleScan.Proofs.Rule.Deduplication
import RuleScan.Proofs.Rule.Ranges
import RuleScan.Proofs.Value.Members
import RuleScan.Report.Sarif
import RuleScan.Rule.Decoding

/-! Where violations are. The place of a violation and those of the edits that fix it are given as offsets and as
lines and columns, and a region of a log has lines and columns only. Main statements: the places of a violation
lie in the text, with lines and columns that name their offsets, and so the regions of its result select the
text between the offsets. -/
namespace RuleScan

namespace Location

/-- The place lies in a text, and its lines and columns name its offsets. -/
structure Within (t : Units) (l : Location) : Prop where
  nonneg : 0 ≤ l.startOffset
  ordered : l.startOffset ≤ l.endOffset
  bounded : l.endOffset ≤ t.size
  start : t.offsetAt? l.line l.column = some l.startOffset.toNat
  stop : t.offsetAt? l.endLine l.endColumn = some l.endOffset.toNat

def text (t : Units) (l : Location) : Units := t.slice l.startOffset.toNat l.endOffset.toNat

variable {t : Units} {s : Span}

theorem within_ofSpan (h : s.Within (LineIndex.ofText t)) : (ofSpan s).Within t where
  nonneg := Int.natCast_nonneg _
  ordered := Int.ofNat_le.mpr h.ordered
  bounded := Int.ofNat_le.mpr h.bounded
  start := by
    simp only [ofSpan, h.start, Int.toNat_natCast]
    exact LineIndex.offsetAt?_position (Nat.le_trans h.ordered h.bounded)
  stop := by
    simp only [ofSpan, h.stop, Int.toNat_natCast]
    exact LineIndex.offsetAt?_position h.bounded

theorem within_point {offset : Nat} (h : offset ≤ t.size) :
    (point ((LineIndex.ofText t).position offset) offset).Within t where
  nonneg := Int.natCast_nonneg _
  ordered := Int.le_refl _
  bounded := Int.ofNat_le.mpr h
  start := by
    simp only [point, Int.toNat_natCast]
    exact LineIndex.offsetAt?_position h
  stop := by
    simp only [point, Int.toNat_natCast]
    exact LineIndex.offsetAt?_position h

end Location

namespace Sarif

def selected? (t : Units) (r : Value) : Option Units := do
  let start ← t.offsetAt? (← r.natAt? "startLine") (← r.natAt? "startColumn")
  let stop ← t.offsetAt? (← r.natAt? "endLine") (← r.natAt? "endColumn")
  return t.slice start stop

def results (log : Value) : List Value := (log.listAt "runs").flatMap (·.listAt "results")

def regions (r : Value) : List Value :=
  (r.listAt "locations").filterMap fun l => (l.get? "physicalLocation").bind (·.get? "region")

def deletedRegions (r : Value) : List Value :=
  (r.listAt "fixes").flatMap fun f =>
    (f.listAt "artifactChanges").flatMap fun c => (c.listAt "replacements").filterMap (·.get? "deletedRegion")

theorem selected?_region {t : Units} {l : Location} (h : l.Within t) : selected? t (region l) = some (l.text t) := by
  have hnat : ∀ n : Nat, ((Value.ofNat n).num?).bind Number.toNat? = some n := fun n => Number.toNat?_ofNat n
  simp [selected?, region, Value.natAt?, Value.get?_object, Members.get?, hnat, h.start, h.stop, Location.text]

theorem results_ofReport (r : Report) :
    results (ofReport r) = r.violations.map (result (Listing.ofViolations r.violations).index) := by
  simp [results, ofReport, Value.listAt, Value.get?_object, Members.get?, Value.arr?]

theorem regions_result (index : List (String × Nat)) (v : Violation) :
    regions (result index v) = [region v.location] := by
  cases hfix : v.fix <;>
    simp [regions, result, hfix, Value.record, Value.listAt, Value.get?_object, Members.get?, Value.arr?]

theorem deletedRegions_fix (uri : String) (f : Fix) :
    ((fix uri f).listAt "artifactChanges").flatMap (fun c =>
      (c.listAt "replacements").filterMap (·.get? "deletedRegion")) = f.edits.map (region ·.location) := by
  simp [fix, Value.listAt, Value.get?_object, Members.get?, Value.arr?, List.filterMap_map]

theorem deletedRegions_result (index : List (String × Nat)) (v : Violation) :
    deletedRegions (result index v) = (v.fix.elim [] (·.edits)).map (region ·.location) := by
  cases hfix : v.fix with
  | none => simp [deletedRegions, result, hfix, Value.record, Value.listAt, Value.get?_object, Members.get?]
  | some f =>
    have hfixes : (result index v).listAt "fixes" = [fix v.file f] := by
      simp [result, hfix, Value.record, Value.listAt, Value.get?_object, Members.get?, Value.arr?]
    rw [deletedRegions, hfixes, List.flatMap_singleton, deletedRegions_fix]
    rfl

end Sarif

namespace Violation

def places (v : Violation) : List Location := v.location :: (v.fix.elim [] (·.edits)).map (·.location)

end Violation

namespace FixTemplate

variable {m : Match} {source : Units}

theorem within_editAt? {s : Span} (hs : s.Within (LineIndex.ofText source)) {kind : EditKind} {content : String}
    {e : Edit} (h : editAt? kind s content = some e) : e.location.Within source := by
  cases kind with
  | replace =>
    cases h
    exact Location.within_ofSpan hs
  | remove =>
    cases h
    exact Location.within_ofSpan hs
  | insertBefore =>
    cases h
    rw [hs.start]
    exact Location.within_point (Nat.le_trans hs.ordered hs.bounded)
  | insertAfter =>
    cases h
    rw [hs.stop]
    exact Location.within_point hs.bounded
  | unknown => cases h

theorem within_render {template : FixTemplate} (hm : m.Within (LineIndex.ofText source)) {f : Fix}
    (h : template.render m source = .ok (some f)) : ∀ e ∈ f.edits, e.location.Within source := by
  obtain ⟨matchText, hedits⟩ := exists_renderEdits h
  intro e he
  obtain ⟨t, -, span, text, hspan, hmade⟩ := exists_of_mem_renderEdits hedits e he
  exact within_editAt? (within_targetSpan hm hspan) hmade

end FixTemplate

namespace Violation

theorem within_ofMatch {path : String} {language : Language} {content : Units} {rule : Rule} {m : Match} {v : Violation}
    (hm : m.Within (LineIndex.ofText content)) (h : ofMatch path language content rule m = .ok v) :
    ∀ l ∈ v.places, l.Within content := by
  obtain ⟨message, fix, hfix, rfl⟩ := exists_of_ofMatch h
  refine List.forall_mem_cons.mpr ⟨Location.within_ofSpan hm.span, fun l hl => ?_⟩
  obtain ⟨e, he, rfl⟩ := List.mem_map.mp hl
  cases fix with
  | none => cases he
  | some f =>
    obtain ⟨template, hrender⟩ := hfix f rfl
    exact FixTemplate.within_render hm hrender e he

end Violation

theorem Sarif.map_selected?_result {t : Units} {v : Violation} (h : ∀ l ∈ v.places, l.Within t)
    (index : List (String × Nat)) :
    (regions (result index v) ++ deletedRegions (result index v)).map (selected? t) =
      v.places.map fun l => some (l.text t) := by
  have hregions : regions (result index v) ++ deletedRegions (result index v) = v.places.map region := by
    rw [regions_result, deletedRegions_result, Violation.places, List.map_cons, List.map_map]
    rfl
  rw [hregions, List.map_map]
  exact List.map_congr_left fun l hl => selected?_region (h l hl)

end RuleScan
