import Mathlib.Data.List.Nodup
import Mathlib.Data.List.Perm.Basic
import RuleScan.Analysis.Run
import RuleScan.Proofs.Analysis.Units
import RuleScan.Proofs.Text.Order

/-! What a report lists and counts. Both report orders are total and tell apart what differs in the fields
they compare, and the statistics of a rule are sums, so a report depends on what its files came to and not
on the order in which they did. -/
namespace RuleScan

namespace Violation

theorem order_eq_compareLex : order =
    compareLex (compareOn fun v => (Units.ofString v.file).toList)
      (compareLex (compareOn (·.location.line))
        (compareLex (compareOn (·.location.column))
          (compareLex (compareOn fun v => (Units.ofString v.ruleId).toList)
            (compareLex (compareOn (·.location.endOffset))
              (compareOn fun v => (Units.ofString v.fingerprint).toList))))) := by
  funext a b
  simp only [order, Text.order_eq_compareOn, compareLex, compareOn]

instance : Std.TransCmp order := by
  rw [order_eq_compareLex]
  infer_instance

theorem file_of_order {v w : Violation} (h : order v w = .eq) : w.file = v.file := by
  simp only [order, Ordering.then_eq_eq] at h
  exact (Text.eq_of_order h.1).symm

/-- The report order puts no two fingerprints of a file at the same place. -/
theorem sort_eq_of_perm {vs ws : List Violation} (h : vs.Perm ws)
    (hdistinct : (vs.map fun v => (v.file, v.fingerprint)).Nodup) : sort vs = sort ws := by
  refine mergeSort_eq_of_perm h fun a ha b hb he => List.inj_on_of_nodup_map hdistinct ha hb ?_
  simp only [order, Ordering.then_eq_eq] at he
  obtain ⟨hfile, -, -, -, -, hprint⟩ := he
  rw [Text.eq_of_order hfile, Text.eq_of_order hprint]

end Violation

namespace AnalysisError

theorem order_eq_compareLex : order =
    compareLex (compareOn fun e => (Units.ofString e.file).toList)
      (compareLex (compareOn fun e => (Units.ofString (e.ruleId.getD "")).toList)
        (compareOn fun e => (Units.ofString e.kind.word).toList)) := by
  funext a b
  simp only [order, Text.order_eq_compareOn, compareLex, compareOn]

instance : Std.TransCmp order := by
  rw [order_eq_compareLex]
  infer_instance

theorem file_of_order {e f : AnalysisError} (h : order e f = .eq) : f.file = e.file := by
  simp only [order, Ordering.then_eq_eq] at h
  exact (Text.eq_of_order h.1).symm

/-- The report order puts no errors about two rules of a file at the same place. -/
theorem sort_eq_of_perm {es fs : List AnalysisError} (h : es.Perm fs)
    (hdistinct : (es.map fun e => (e.file, e.ruleId.getD "")).Nodup) : sort es = sort fs := by
  refine mergeSort_eq_of_perm h fun a ha b hb he => List.inj_on_of_nodup_map hdistinct ha hb ?_
  simp only [order, Ordering.then_eq_eq] at he
  obtain ⟨hfile, hrule, -⟩ := he
  rw [Text.eq_of_order hfile, Text.eq_of_order hrule]

end AnalysisError

/-! Statistics, with times left out. -/

namespace RuleStatistics

def untimed (s : RuleStatistics) : RuleStatistics := { s with executionTimeMs := 0, maxExecutionTimeMs := 0 }

/-- What a rule did in some evaluations, with times left out. -/
def tally (id : String) (es : List RuleEvaluation) : RuleStatistics :=
  { ruleId := id, files := es.countP (·.ruleId = id)
    violations := ((es.filter (·.ruleId = id)).flatMap (·.violations)).length
    errors := es.countP fun e =>
      e.ruleId = id && ((e.error.map (·.kind)).isSome && e.error.map (·.kind) ≠ some .timeout)
    timeouts := es.countP fun e => e.ruleId = id && e.error.map (·.kind) = some .timeout }

theorem tally_eq_of_perm {es fs : List RuleEvaluation} (h : es.Perm fs) (id : String) : tally id es = tally id fs := by
  simp only [tally, h.countP_eq, ((h.filter _).flatMap_right _).length_eq]

theorem tally_untimed (id : String) (es : List RuleEvaluation) : tally id (es.map (·.untimed)) = tally id es := by
  simp only [tally, List.countP_map, List.filter_map, List.flatMap_map]
  rfl

theorem tally_of_notMem {id : String} {es : List RuleEvaluation} (h : id ∉ es.map (·.ruleId)) :
    tally id es = { ruleId := id } := by
  have hothers : ∀ e ∈ es, e.ruleId ≠ id := fun e he hid => h (hid ▸ List.mem_map_of_mem he)
  have hfilter : es.filter (·.ruleId = id) = [] := by simpa using hothers
  have hcount : ∀ p : RuleEvaluation → Bool, es.countP (fun e => decide (e.ruleId = id) && p e) = 0 := by
    intro p
    refine List.countP_eq_zero.mpr fun e he => ?_
    simp [hothers e he]
  have hfiles : es.countP (·.ruleId = id) = 0 := by simpa [List.countP_eq_zero] using hothers
  simp only [tally, hfilter, hcount, hfiles, List.flatMap_nil, List.length_nil]

theorem tally_append (id : String) (es : List RuleEvaluation) (e : RuleEvaluation) :
    tally id (es ++ [e]) =
      if e.ruleId = id then (AnalysisRun.addStatistics.grow e (tally id es)).untimed else tally id es := by
  by_cases hid : e.ruleId = id
  · simp only [tally, untimed, AnalysisRun.addStatistics.grow, hid, List.countP_append, List.countP_singleton,
      List.filter_append, List.filter_singleton, List.flatMap_append, List.length_append, decide_true, Bool.true_and,
      if_true, decide_eq_true_eq, Bool.cond_true, List.flatMap_singleton]
  · simp [tally, hid]

end RuleStatistics

namespace AnalysisRun

/-- There is one entry for each rule that was evaluated, with what the rule did. -/
structure Tallies (es : List RuleEvaluation) (acc : List RuleStatistics) : Prop where
  distinct : (acc.map (·.ruleId)).Nodup
  rules : ∀ id, id ∈ acc.map (·.ruleId) ↔ id ∈ es.map (·.ruleId)
  tally : ∀ s ∈ acc, s.untimed = RuleStatistics.tally s.ruleId es

theorem untimed_grow (e : RuleEvaluation) (s : RuleStatistics) :
    (addStatistics.grow e s).untimed = (addStatistics.grow e s.untimed).untimed := rfl

theorem map_ruleId_addStatistics (e : RuleEvaluation) (acc : List RuleStatistics) :
    (addStatistics e acc).map (·.ruleId) =
      if e.ruleId ∈ acc.map (·.ruleId) then acc.map (·.ruleId) else acc.map (·.ruleId) ++ [e.ruleId] := by
  induction acc with
  | nil => rfl
  | cons s acc ih =>
    rw [addStatistics]
    by_cases hid : s.ruleId = e.ruleId
    · rw [if_pos hid, if_pos (by simp [hid])]
      rfl
    · have hother : e.ruleId ∈ (s :: acc).map (·.ruleId) ↔ e.ruleId ∈ acc.map (·.ruleId) := by
        rw [List.map_cons, List.mem_cons, or_iff_right (Ne.symm hid)]
      simp only [if_neg hid, hother]
      rw [List.map_cons, ih]
      split <;> rfl

/-- An entry is that of the rule, which grows, or one of another rule. -/
theorem mem_addStatistics {e : RuleEvaluation} {acc : List RuleStatistics} (hacc : (acc.map (·.ruleId)).Nodup)
    {s : RuleStatistics} (h : s ∈ addStatistics e acc) :
    (s = addStatistics.grow e { ruleId := e.ruleId } ∧ e.ruleId ∉ acc.map (·.ruleId)) ∨
      (∃ s₀ ∈ acc, s₀.ruleId = e.ruleId ∧ s = addStatistics.grow e s₀) ∨ s ∈ acc ∧ s.ruleId ≠ e.ruleId := by
  induction acc with
  | nil =>
    rw [addStatistics, List.mem_singleton] at h
    exact .inl ⟨h, nofun⟩
  | cons s₀ acc ih =>
    rw [List.map_cons, List.nodup_cons] at hacc
    rw [addStatistics] at h
    split at h
    · next hid =>
      rcases List.mem_cons.mp h with rfl | hs
      · exact .inr (.inl ⟨s₀, List.mem_cons_self, hid, rfl⟩)
      · refine .inr (.inr ⟨List.mem_cons_of_mem _ hs, fun he => hacc.1 ?_⟩)
        rw [hid, ← he]
        exact List.mem_map_of_mem hs
    · next hid =>
      rcases List.mem_cons.mp h with rfl | hs
      · exact .inr (.inr ⟨List.mem_cons_self, hid⟩)
      · rcases ih hacc.2 hs with ⟨rfl, hnew⟩ | ⟨s₁, hs₁, hid₁, rfl⟩ | ⟨hs, hne⟩
        · exact .inl ⟨rfl, by simpa [Ne.symm hid] using hnew⟩
        · exact .inr (.inl ⟨s₁, List.mem_cons_of_mem _ hs₁, hid₁, rfl⟩)
        · exact .inr (.inr ⟨List.mem_cons_of_mem _ hs, hne⟩)

theorem Tallies.append {es : List RuleEvaluation} {acc : List RuleStatistics} (h : Tallies es acc)
    (e : RuleEvaluation) : Tallies (es ++ [e]) (addStatistics e acc) where
  distinct := by
    rw [map_ruleId_addStatistics]
    split
    · exact h.distinct
    · next hnew =>
      refine List.nodup_append.mpr ⟨h.distinct, List.nodup_singleton _, ?_⟩
      rintro a ha b hb rfl
      exact hnew (List.mem_singleton.mp hb ▸ ha)
  rules id := by
    rw [map_ruleId_addStatistics, List.map_append, List.mem_append, ← h.rules id]
    split
    · next hmem =>
      constructor
      · exact .inl
      · rintro (hid | hid)
        · exact hid
        · exact List.mem_singleton.mp hid ▸ hmem
    · rw [List.mem_append]
      rfl
  tally s hs := by
    rw [RuleStatistics.tally_append]
    rcases mem_addStatistics h.distinct hs with ⟨rfl, hnew⟩ | ⟨s₀, hs₀, hid, rfl⟩ | ⟨hs, hne⟩
    · have hgrown : (addStatistics.grow e { ruleId := e.ruleId }).ruleId = e.ruleId := rfl
      rw [h.rules] at hnew
      rw [hgrown, if_pos rfl, RuleStatistics.tally_of_notMem hnew]
    · have hs₀' := h.tally s₀ hs₀
      rw [hid] at hs₀'
      have hgrown : (addStatistics.grow e s₀).ruleId = e.ruleId := hid
      rw [if_pos hgrown.symm, hgrown, untimed_grow, hs₀']
    · rw [if_neg hne.symm]
      exact h.tally s hs

theorem Tallies.foldl {es : List RuleEvaluation} {acc : List RuleStatistics} (h : Tallies es acc)
    (fs : List RuleEvaluation) : Tallies (es ++ fs) (fs.foldl (fun acc e => addStatistics e acc) acc) := by
  induction fs generalizing es acc with
  | nil => rwa [List.append_nil]
  | cons e fs ih =>
    have hrest := ih (h.append e)
    rwa [List.append_assoc] at hrest

theorem tallies_foldl (es : List RuleEvaluation) :
    Tallies es (es.foldl (fun acc e => addStatistics e acc) []) := by
  have hnone : Tallies [] [] := ⟨List.nodup_nil, fun _ => Iff.rfl, nofun⟩
  exact hnone.foldl es

theorem Tallies.mem_iff {es : List RuleEvaluation} {acc : List RuleStatistics} (h : Tallies es acc)
    (s : RuleStatistics) :
    s ∈ acc.map (·.untimed) ↔ ∃ id ∈ es.map (·.ruleId), s = RuleStatistics.tally id es := by
  constructor
  · intro hs
    obtain ⟨s₀, hs₀, rfl⟩ := List.mem_map.mp hs
    exact ⟨s₀.ruleId, (h.rules _).mp (List.mem_map_of_mem hs₀), h.tally s₀ hs₀⟩
  · rintro ⟨id, hid, rfl⟩
    obtain ⟨s₀, hs₀, rfl⟩ := List.mem_map.mp ((h.rules id).mpr hid)
    exact h.tally s₀ hs₀ ▸ List.mem_map_of_mem hs₀

theorem Tallies.nodup {es : List RuleEvaluation} {acc : List RuleStatistics} (h : Tallies es acc) :
    ((acc.map (·.untimed)).map (·.ruleId)).Nodup := by
  rw [List.map_map]
  exact h.distinct

/-- With times left out, statistics do not depend on the order of the evaluations. -/
theorem statistics_eq_of_perm {es fs : List RuleEvaluation} (h : (es.map (·.untimed)).Perm (fs.map (·.untimed))) :
    (statistics es).map (·.untimed) = (statistics fs).map (·.untimed) := by
  have hids : (es.map (·.ruleId)).Perm (fs.map (·.ruleId)) := by
    have hmapped := h.map (·.ruleId)
    rwa [List.map_map, List.map_map] at hmapped
  have htally : ∀ id, RuleStatistics.tally id es = RuleStatistics.tally id fs := by
    intro id
    rw [← RuleStatistics.tally_untimed id es, ← RuleStatistics.tally_untimed id fs]
    exact RuleStatistics.tally_eq_of_perm h id
  have hes := tallies_foldl es
  have hfs := tallies_foldl fs
  have hentries : ((es.foldl (fun acc e => addStatistics e acc) []).map (·.untimed)).Perm
      ((fs.foldl (fun acc e => addStatistics e acc) []).map (·.untimed)) := by
    refine (List.perm_ext_iff_of_nodup (.of_map _ hes.nodup) (.of_map _ hfs.nodup)).mpr fun s => ?_
    simp only [hes.mem_iff, hfs.mem_iff, hids.mem_iff, htally]
  have hsorted : ∀ acc : List RuleStatistics, (acc.mergeSort fun a b => Text.le a.ruleId b.ruleId).map (·.untimed) =
      (acc.map (·.untimed)).mergeSort fun a b =>
        (compareOn (fun s : RuleStatistics => (Units.ofString s.ruleId).toList) a b).isLE := by
    intro acc
    refine List.map_mergeSort fun a _ b _ => ?_
    rw [Text.le_eq, Text.order_eq_compareOn]
    rfl
  unfold statistics
  rw [hsorted, hsorted]
  refine mergeSort_eq_of_perm hentries fun a ha b hb he => List.inj_on_of_nodup_map hes.nodup ha hb ?_
  refine Text.eq_of_order ?_
  rw [Text.order_eq_compareOn]
  exact he

end AnalysisRun

def Report.untimed (r : Report) : Report :=
  { r with
    summary := { r.summary with durationMs := 0 }
    statistics := r.statistics.map (·.map (·.untimed)) }

namespace AnalysisRun

def errorsOf (units : List UnitResult) : List AnalysisError :=
  units.flatMap (·.errors) ++ (units.flatMap (·.evaluations)).filterMap (·.error)

theorem mem_errorsOf {units : List UnitResult} {e : AnalysisError} :
    e ∈ errorsOf units ↔ ∃ u ∈ units, e ∈ u.errors ++ u.evaluations.filterMap (·.error) := by
  simp only [errorsOf, List.filterMap_flatMap, List.mem_append, List.mem_flatMap]
  grind

def violationsOf (units : List UnitResult) : List Violation := (units.flatMap (·.evaluations)).flatMap (·.violations)

/-- A list as a report shows it: sorted, or as it has come. -/
def arrange {α : Type} (options : RunOptions) (cmp : α → α → Ordering) (xs : List α) : List α :=
  if options.ordering = .deterministic then xs.mergeSort fun a b => (cmp a b).isLE else xs

section Arrange

variable {α : Type} {cmp : α → α → Ordering} {xs ys : List α}

theorem arrange_perm (options : RunOptions) (cmp : α → α → Ordering) (xs : List α) :
    (arrange options cmp xs).Perm xs := by
  unfold arrange
  split
  · exact List.mergeSort_perm xs _
  · exact List.Perm.refl xs

/-- What a report shows of a list that is part of another one, up to the order of what it tells apart. -/
theorem arrange_sublist [Std.TransCmp cmp] {options : RunOptions}
    (harrival : options.ordering = .arrival → xs.Sublist ys)
    (hsorted : options.ordering = .deterministic →
      ∀ a, (xs.filter (cmp a · = .eq)).Sublist (ys.filter (cmp a · = .eq))) :
    (arrange options cmp xs).Sublist (arrange options cmp ys) := by
  unfold arrange
  cases hordering : options.ordering with
  | arrival => exact harrival hordering
  | deterministic => exact mergeSort_sublist (hsorted hordering)

end Arrange

def listedErrors (options : RunOptions) (units : List UnitResult) : List AnalysisError :=
  if options.ordering = .deterministic then AnalysisError.sort (errorsOf units) else errorsOf units

theorem listedErrors_eq (options : RunOptions) (units : List UnitResult) :
    listedErrors options units = arrange options AnalysisError.order (errorsOf units) := rfl

/-- The violations that a report without a baseline shows. -/
def listedViolations (options : RunOptions) (units : List UnitResult) : List Violation :=
  if options.ordering = .deterministic then Violation.sort (violationsOf units) else violationsOf units

theorem listedViolations_eq (options : RunOptions) (units : List UnitResult) :
    listedViolations options units = arrange options Violation.order (violationsOf units) := rfl

theorem violations_report (options : RunOptions) (rulesLoaded : Nat) (loadErrors : List LoadFailure)
    (units : List UnitResult) (cancellation : Option CancelReason) (durationMs : Int) :
    (report options rulesLoaded loadErrors units cancellation durationMs).violations =
      match options.baseline with
      | none => listedViolations options units
      | some known => (listedViolations options units).filter (!known.contains ·.fingerprint) := rfl

theorem violations_report_sublist {options : RunOptions} {rulesLoaded rulesLoaded' : Nat}
    {loadErrors loadErrors' : List LoadFailure} {units units' : List UnitResult}
    {cancellation cancellation' : Option CancelReason} {durationMs durationMs' : Int}
    (h : (listedViolations options units).Sublist (listedViolations options units')) :
    (report options rulesLoaded loadErrors units cancellation durationMs).violations.Sublist
      (report options rulesLoaded' loadErrors' units' cancellation' durationMs').violations := by
  rw [violations_report, violations_report]
  split
  · exact h
  · exact h.filter _

theorem violations_report_subperm {options : RunOptions} {rulesLoaded rulesLoaded' : Nat}
    {loadErrors loadErrors' : List LoadFailure} {units units' : List UnitResult}
    {cancellation cancellation' : Option CancelReason} {durationMs durationMs' : Int}
    (h : (violationsOf units).Subperm (violationsOf units')) :
    (report options rulesLoaded loadErrors units cancellation durationMs).violations.Subperm
      (report options rulesLoaded' loadErrors' units' cancellation' durationMs').violations := by
  have hlisted : (listedViolations options units).Subperm (listedViolations options units') :=
    (arrange_perm ..).subperm.trans (h.trans (arrange_perm ..).symm.subperm)
  rw [violations_report, violations_report]
  split
  · exact hlisted
  · exact hlisted.filter _

/-- A report lists the violations of its files, all of them if there is no baseline. -/
theorem exists_listed_report (options : RunOptions) (rulesLoaded : Nat) (loadErrors : List LoadFailure)
    (units : List UnitResult) (cancellation : Option CancelReason) (durationMs : Int) :
    ∃ listed : List Violation, listed.Perm (violationsOf units) ∧
      (report options rulesLoaded loadErrors units cancellation durationMs).violations.Sublist listed ∧
      (options.baseline = none →
        (report options rulesLoaded loadErrors units cancellation durationMs).violations = listed) := by
  refine ⟨listedViolations options units, arrange_perm _ _ _, ?_, fun hnone => ?_⟩
  · rw [violations_report]
    split
    · exact List.Sublist.refl _
    · exact List.filter_sublist
  · rw [violations_report, hnone]

/-- Files that are listed alike, and whose evaluations are the same in another order and with other times, have
the same report, apart from times. -/
theorem report_untimed_eq {options : RunOptions} {units units' : List UnitResult} {rulesLoaded : Nat}
    {loadErrors : List LoadFailure} {cancellation : Option CancelReason} {durationMs durationMs' : Int}
    (hanalyzed : units.countP (·.analyzed) = units'.countP (·.analyzed))
    (hevaluations : ((units.flatMap (·.evaluations)).map (·.untimed)).Perm
      ((units'.flatMap (·.evaluations)).map (·.untimed)))
    (herrors : listedErrors options units = listedErrors options units')
    (hviolations : listedViolations options units = listedViolations options units') :
    (report options rulesLoaded loadErrors units cancellation durationMs).untimed =
      (report options rulesLoaded loadErrors units' cancellation durationMs').untimed := by
  have hcompleted : (units.flatMap (·.evaluations)).countP (·.error.isNone) =
      (units'.flatMap (·.evaluations)).countP (·.error.isNone) := by
    have hcount := hevaluations.countP_eq (·.error.isNone)
    rwa [List.countP_map, List.countP_map] at hcount
  have hcollapsed : (units.flatMap (·.evaluations)).foldl (fun n e => n + e.duplicatesCollapsed) 0 =
      (units'.flatMap (·.evaluations)).foldl (fun n e => n + e.duplicatesCollapsed) 0 := by
    have hsum := hevaluations.foldl_eq' (f := fun n (e : RuleEvaluation) => n + e.duplicatesCollapsed)
      (fun x _ y _ n => by omega) 0
    rwa [List.foldl_map, List.foldl_map] at hsum
  have hstatistics : (if options.collectStatistics then some (statistics (units.flatMap (·.evaluations))) else none).map
      (·.map (·.untimed)) =
        (if options.collectStatistics then some (statistics (units'.flatMap (·.evaluations))) else none).map
          (·.map (·.untimed)) := by
    split
    · exact congrArg some (statistics_eq_of_perm hevaluations)
    · rfl
  unfold listedErrors errorsOf at herrors
  unfold listedViolations violationsOf at hviolations
  unfold report Report.untimed
  simp only [herrors, hviolations, hcompleted, hcollapsed, hanalyzed, hstatistics]

/-- Files whose evaluations are the same in another order and with other times have the same report, apart
from times, if it tells apart what they list. -/
theorem report_untimed_eq_of_perm {options : RunOptions} {units units' : List UnitResult} {rulesLoaded : Nat}
    {loadErrors : List LoadFailure} {cancellation : Option CancelReason} {durationMs durationMs' : Int}
    (hordering : options.ordering = .deterministic)
    (hanalyzed : units.countP (·.analyzed) = units'.countP (·.analyzed))
    (herrors : (units.flatMap (·.errors)).Perm (units'.flatMap (·.errors)))
    (hevaluations : ((units.flatMap (·.evaluations)).map (·.untimed)).Perm
      ((units'.flatMap (·.evaluations)).map (·.untimed)))
    (hlistedErrors : ((errorsOf units).map fun e => (e.file, e.ruleId.getD "")).Nodup)
    (hlisted : ((violationsOf units).map fun v => (v.file, v.fingerprint)).Nodup) :
    (report options rulesLoaded loadErrors units cancellation durationMs).untimed =
      (report options rulesLoaded loadErrors units' cancellation durationMs').untimed := by
  refine report_untimed_eq hanalyzed hevaluations ?_ ?_
  · unfold listedErrors
    rw [if_pos hordering, if_pos hordering]
    refine AnalysisError.sort_eq_of_perm (herrors.append ?_) hlistedErrors
    have hmapped := hevaluations.filterMap (·.error)
    rwa [List.filterMap_map, List.filterMap_map] at hmapped
  · unfold listedViolations
    rw [if_pos hordering, if_pos hordering]
    refine Violation.sort_eq_of_perm ?_ hlisted
    have hmapped := hevaluations.flatMap_right (·.violations)
    rwa [List.flatMap_map, List.flatMap_map] at hmapped

end AnalysisRun

end RuleScan
