import Mathlib.Data.List.Induction
import RuleScan.Proofs.Report.Regions

/-! What a log says about its own parts. Its results refer to the rules of its driver by number. Main statement: the
numbers lead to the rules that the results name, the rules are those named, in the order in which they first are, and
results and notifications tell of the violations and failures of the report one by one. -/
namespace RuleScan.Sarif

def driverRules (log : Value) : List Value :=
  (log.listAt "runs").flatMap fun run => (((run.get? "tool").bind (·.get? "driver")).map (·.listAt "rules")).getD []

def notifications (log : Value) : List Value :=
  (log.listAt "runs").flatMap fun run => (run.listAt "invocations").flatMap (·.listAt "toolExecutionNotifications")

def messageText? (v : Value) : Option String := (v.get? "message").bind (·.textAt? "text")

/-- The files of the locations of a result or a notification. -/
def files (v : Value) : List String :=
  (v.listAt "locations").filterMap fun l =>
    ((l.get? "physicalLocation").bind (·.get? "artifactLocation")).bind (·.textAt? "uri")

/-- The rules that violations name, each with the severity of the first that names it. -/
structure Firsts (vs : List Violation) (rules : List (String × Severity)) : Prop where
  nodup : (rules.map (·.1)).Nodup
  mem_iff : ∀ id, id ∈ rules.map (·.1) ↔ id ∈ vs.map (·.ruleId)
  ordered : (rules.map (·.1)).Pairwise fun a b => (vs.map (·.ruleId)).idxOf a < (vs.map (·.ruleId)).idxOf b
  severity : ∀ rule ∈ rules, (vs.find? (·.ruleId = rule.1)).map (·.severity) = some rule.2

namespace Firsts

variable {vs : List Violation} {rules : List (String × Severity)} {v : Violation}

theorem nil : Firsts [] [] where
  nodup := List.nodup_nil
  mem_iff _ := Iff.rfl
  ordered := List.Pairwise.nil
  severity := List.forall_mem_nil _

/-- More violations change nothing about the rules already named. -/
theorem ordered_concat (h : Firsts vs rules) (v : Violation) : (rules.map (·.1)).Pairwise fun a b =>
    ((vs ++ [v]).map (·.ruleId)).idxOf a < ((vs ++ [v]).map (·.ruleId)).idxOf b := by
  apply h.ordered.imp_of_mem
  intro a b ha hb hlt
  rw [List.map_append, List.idxOf_append_of_mem ((h.mem_iff a).mp ha), List.idxOf_append_of_mem ((h.mem_iff b).mp hb)]
  exact hlt

theorem severity_concat (h : Firsts vs rules) (v : Violation) :
    ∀ rule ∈ rules, ((vs ++ [v]).find? (·.ruleId = rule.1)).map (·.severity) = some rule.2 := by
  intro rule hrule
  obtain ⟨w, hw, hseverity⟩ := Option.map_eq_some_iff.mp (h.severity rule hrule)
  rw [List.find?_append, hw, Option.some_or, Option.map_some, hseverity]

theorem again (h : Firsts vs rules) (hv : v.ruleId ∈ vs.map (·.ruleId)) : Firsts (vs ++ [v]) rules where
  nodup := h.nodup
  mem_iff id := by
    rw [h.mem_iff, List.map_append, List.mem_append, List.map_singleton, List.mem_singleton]
    constructor
    · exact .inl
    · rintro (hid | rfl)
      · exact hid
      · exact hv
  ordered := h.ordered_concat v
  severity := h.severity_concat v

theorem fresh (h : Firsts vs rules) (hv : v.ruleId ∉ vs.map (·.ruleId)) :
    Firsts (vs ++ [v]) (rules ++ [(v.ruleId, v.severity)]) where
  nodup := by
    rw [List.map_append, List.map_singleton]
    apply List.nodup_append.mpr
    refine ⟨h.nodup, List.nodup_singleton _, ?_⟩
    intro a ha b hb hab
    rw [hab, List.mem_singleton.mp hb, h.mem_iff] at ha
    exact hv ha
  mem_iff id := by
    rw [List.map_append, List.map_append, List.mem_append, List.mem_append, h.mem_iff]
    rfl
  ordered := by
    have hids : (rules ++ [(v.ruleId, v.severity)]).map (·.1) = rules.map (·.1) ++ [v.ruleId] := List.map_append
    rw [hids]
    refine List.pairwise_append.mpr ⟨h.ordered_concat v, List.pairwise_singleton _ _, ?_⟩
    intro a ha b hb
    have hmem := (h.mem_iff a).mp ha
    rw [List.mem_singleton.mp hb, List.map_append, List.idxOf_append_of_mem hmem, List.idxOf_append_of_notMem hv]
    have hlt := List.idxOf_lt_length_of_mem hmem
    omega
  severity := by
    refine List.forall_mem_append.mpr ⟨h.severity_concat v, List.forall_mem_singleton.mpr ?_⟩
    have hnone : vs.find? (·.ruleId = v.ruleId) = none := by
      apply List.find?_eq_none.mpr
      intro w hw hname
      exact hv (List.mem_map.mpr ⟨w, hw, of_decide_eq_true hname⟩)
    rw [List.find?_append, hnone]
    simp

end Firsts

namespace Listing

/-- The rules listed are those that the violations name, and the index has the place of each in the list. -/
structure Of (vs : List Violation) (l : Listing) : Prop where
  firsts : Firsts vs l.rules
  agrees : ∀ id, l.index.lookup id = l.rules.findIdx? (·.1 == id)

variable {vs : List Violation} {l : Listing}

theorem Of.isSome_iff (h : Of vs l) (id : String) : (l.index.lookup id).isSome = true ↔ id ∈ vs.map (·.ruleId) := by
  rw [h.agrees, List.findIdx?_isSome, List.any_eq_true, ← h.firsts.mem_iff, List.mem_map]
  simp only [beq_iff_eq]

theorem Of.add (h : Of vs l) (v : Violation) : Of (vs ++ [v]) (l.add v) := by
  unfold Listing.add
  split
  · next hseen => exact ⟨h.firsts.again ((h.isSome_iff _).mp hseen), h.agrees⟩
  · next hseen =>
    refine ⟨h.firsts.fresh (mt (h.isSome_iff _).mpr hseen), fun id => ?_⟩
    rw [List.lookup_cons, List.findIdx?_append, ← h.agrees]
    by_cases hid : id = v.ruleId
    · have hnone : l.index.lookup v.ruleId = none := Option.not_isSome_iff_eq_none.mp hseen
      simp [hid, hnone]
    · simp [beq_false_of_ne hid, Ne.symm hid]

theorem of_ofViolations (vs : List Violation) : Of vs (ofViolations vs) := by
  induction vs using List.reverseRecOn with
  | nil => exact ⟨.nil, fun _ => rfl⟩
  | append_singleton vs v ih =>
    rw [ofViolations, List.foldl_concat]
    exact ih.add v

/-- A rule that is named has a number, which leads to it. -/
theorem Of.exists_lookup (h : Of vs l) {v : Violation} (hv : v ∈ vs) :
    ∃ i severity, l.index.lookup v.ruleId = some i ∧ l.rules[i]? = some (v.ruleId, severity) := by
  obtain ⟨i, hi⟩ := Option.isSome_iff_exists.mp ((h.isSome_iff v.ruleId).mpr (List.mem_map_of_mem hv))
  obtain ⟨hlt, hat, -⟩ := List.findIdx?_eq_some_iff_getElem.mp ((h.agrees _).symm.trans hi)
  refine ⟨i, l.rules[i].2, hi, ?_⟩
  rw [List.getElem?_eq_getElem hlt, ← beq_iff_eq.mp hat]

end Listing

/-- The result tells of the violation, and its number is that of the rule it names. -/
structure Tells (rules : List Value) (v : Violation) (result : Value) : Prop where
  ruleId : result.textAt? "ruleId" = some v.ruleId
  rule : ∃ i rule, result.natAt? "ruleIndex" = some i ∧ rules[i]? = some rule ∧ rule.textAt? "id" = some v.ruleId
  level : result.textAt? "level" = some (level v.severity)
  message : messageText? result = some v.message
  files : files result = [v.file]
  regions : regions result = [region v.location]
  deletedRegions : deletedRegions result = (v.fix.elim [] (·.edits)).map (region ·.location)
  fingerprint : (result.get? "partialFingerprints").bind (·.textAt? "codeprobe/v1") = some v.fingerprint

/-- The notification tells of a failure with this code and message in these files. -/
structure Notifies (severity code message : String) (inFiles : List String) (notification : Value) : Prop where
  level : notification.textAt? "level" = some severity
  code : (notification.get? "descriptor").bind (·.textAt? "id") = some code
  message : messageText? notification = some message
  files : files notification = inFiles

/-- The rules of the driver of a log, from those that the violations name. -/
theorem driverRules_ofReport (r : Report) : driverRules (ofReport r) =
    (Listing.ofViolations r.violations).rules.map fun rule =>
      Value.object [("id", rule.1), ("defaultConfiguration", Value.object [("level", level rule.2)])] := by
  simp [driverRules, ofReport, Value.listAt, Value.get?_object, Members.get?, Value.arr?]

theorem notifications_ofReport (r : Report) :
    notifications (ofReport r) = r.errors.map errorNotification ++ r.loadErrors.map loadNotification := by
  simp [notifications, ofReport, Value.listAt, Value.get?_object, Members.get?, Value.arr?]

theorem tells_result {r : Report} {v : Violation} (hv : v ∈ r.violations) :
    Tells (driverRules (ofReport r)) v (result (Listing.ofViolations r.violations).index v) where
  ruleId := by
    cases hfix : v.fix <;>
      simp [result, hfix, Value.record, Value.textAt?, Value.get?_object, Members.get?, Value.str?]
  rule := by
    obtain ⟨i, severity, hfind, hat⟩ := (Listing.of_ofViolations r.violations).exists_lookup hv
    refine ⟨i, Value.object [("id", v.ruleId), ("defaultConfiguration", Value.object [("level", level severity)])],
      ?_, ?_, ?_⟩
    · have hnat : ((Value.ofNat i).num?).bind Number.toNat? = some i := Number.toNat?_ofNat i
      cases hfix : v.fix <;>
        simp [result, hfix, Value.record, Value.natAt?, Value.get?_object, Members.get?, hfind, hnat]
    · rw [driverRules_ofReport, List.getElem?_map, hat]
      rfl
    · simp [Value.textAt?, Value.get?_object, Members.get?, Value.str?]
  level := by
    cases hfix : v.fix <;>
      simp [result, hfix, Value.record, Value.textAt?, Value.get?_object, Members.get?, Value.str?]
  message := by
    cases hfix : v.fix <;>
      simp [result, hfix, messageText?, text, Value.record, Value.textAt?, Value.get?_object, Members.get?,
        Value.str?]
  files := by
    cases hfix : v.fix <;>
      simp [result, hfix, files, artifact, Value.record, Value.listAt, Value.textAt?, Value.get?_object, Members.get?,
        Value.arr?, Value.str?]
  regions := regions_result _ v
  deletedRegions := deletedRegions_result _ v
  fingerprint := by
    cases hfix : v.fix <;>
      simp [result, hfix, Value.record, Value.textAt?, Value.get?_object, Members.get?, Value.str?]

/-- The text of the notification of an error: a rule that is named stands before the message. -/
def errorText (e : AnalysisError) : String :=
  match e.ruleId with
  | none | some "" => e.message
  | some id => id ++ ": " ++ e.message

theorem notifies_errorNotification (e : AnalysisError) :
    Notifies (if e.isFileFailure then "error" else "warning") e.code (errorText e) [e.file] (errorNotification e) where
  level := by
    simp only [errorNotification, Value.textAt?, Value.get?_object]
    split <;> rfl
  code := by
    simp [errorNotification, Value.textAt?, Value.get?_object, Members.get?, Value.str?]
  message := by
    cases hrule : e.ruleId with
    | none => simp [errorNotification, errorText, hrule, messageText?, text, Value.textAt?, Value.get?_object,
        Members.get?, Value.str?]
    | some id =>
      by_cases hid : id = ""
      · simp [errorNotification, errorText, hrule, hid, messageText?, text, Value.textAt?, Value.get?_object,
          Members.get?, Value.str?, Option.filter]
      · simp [errorNotification, errorText, hrule, hid, messageText?, text, Value.textAt?, Value.get?_object,
          Members.get?, Value.str?, Option.filter]
  files := by
    simp [errorNotification, files, artifact, Value.listAt, Value.textAt?, Value.get?_object, Members.get?,
      Value.arr?, Value.str?]

theorem notifies_loadNotification (e : LoadFailure) :
    Notifies "error" e.code (e.source ++ ": " ++ e.message) [] (loadNotification e) where
  level := by
    simp [loadNotification, Value.textAt?, Value.get?_object, Members.get?, Value.str?]
  code := by
    simp [loadNotification, Value.textAt?, Value.get?_object, Members.get?, Value.str?]
  message := by
    simp [loadNotification, messageText?, text, Value.textAt?, Value.get?_object, Members.get?, Value.str?]
  files := by
    simp [loadNotification, files, Value.listAt, Value.get?_object, Members.get?]

theorem textAt?_id_driverRules (r : Report) :
    (driverRules (ofReport r)).map (·.textAt? "id") = ((Listing.ofViolations r.violations).rules.map (·.1)).map some := by
  rw [driverRules_ofReport, List.map_map, List.map_map]
  apply List.map_congr_left
  intro rule _
  simp [Value.textAt?, Value.get?_object, Members.get?, Value.str?]

theorem forall₂_tells_results (r : Report) :
    List.Forall₂ (Tells (driverRules (ofReport r))) r.violations (results (ofReport r)) := by
  rw [results_ofReport, List.forall₂_map_right_iff, List.forall₂_same]
  exact fun v hv => tells_result hv

theorem level_of_mem_driverRules {r : Report} {rule : Value} (h : rule ∈ driverRules (ofReport r)) :
    ∃ v, r.violations.find? (fun v => some v.ruleId = rule.textAt? "id") = some v ∧
      (rule.get? "defaultConfiguration").bind (·.textAt? "level") = some (level v.severity) := by
  rw [driverRules_ofReport] at h
  obtain ⟨⟨id, severity⟩, hmem, rfl⟩ := List.mem_map.mp h
  obtain ⟨v, hfirst, hseverity⟩ := Option.map_eq_some_iff.mp ((Listing.of_ofViolations r.violations).firsts.severity _ hmem)
  refine ⟨v, ?_, ?_⟩
  · simpa [Value.textAt?, Value.get?_object, Members.get?, Value.str?] using hfirst
  · simp [Value.textAt?, Value.get?_object, Members.get?, Value.str?, hseverity]

/-- A log is consistent. It has one run, whose results tell of the violations in their order and refer by a valid
number to the rule that they name. The rules have distinct names in order of first appearance, each is named by a
result, and its level is that of the first violation that names it. The notifications tell of the errors of the run,
one each, and then of what could not be loaded. -/
theorem ofReport_consistent (r : Report) :
    ((ofReport r).listAt "runs").length = 1 ∧
    List.Forall₂ (Tells (driverRules (ofReport r))) r.violations (results (ofReport r)) ∧
    (∃ ids : List String, (driverRules (ofReport r)).map (·.textAt? "id") = ids.map some ∧ ids.Nodup ∧
      ids.Pairwise (fun a b => (r.violations.map (·.ruleId)).idxOf a < (r.violations.map (·.ruleId)).idxOf b) ∧
      ∀ id, id ∈ ids ↔ ∃ result ∈ results (ofReport r), result.textAt? "ruleId" = some id) ∧
    (∀ rule ∈ driverRules (ofReport r), ∃ v,
      r.violations.find? (fun v => some v.ruleId = rule.textAt? "id") = some v ∧
      (rule.get? "defaultConfiguration").bind (·.textAt? "level") = some (level v.severity)) ∧
    ∃ errors failures, notifications (ofReport r) = errors ++ failures ∧
      List.Forall₂ (fun e => Notifies (if e.isFileFailure then "error" else "warning") e.code (errorText e) [e.file])
        r.errors errors ∧
      List.Forall₂ (fun e => Notifies "error" e.code (e.source ++ ": " ++ e.message) []) r.loadErrors failures := by
  have htells := forall₂_tells_results r
  have hfirsts := (Listing.of_ofViolations r.violations).firsts
  refine ⟨?_, htells, ⟨_, textAt?_id_driverRules r, hfirsts.nodup, hfirsts.ordered, fun id => ?_⟩,
    fun rule => level_of_mem_driverRules, ⟨_, _, notifications_ofReport r, ?_, ?_⟩⟩
  · simp [ofReport, Value.listAt, Value.get?_object, Members.get?, Value.arr?]
  · rw [hfirsts.mem_iff, results_ofReport]
    constructor
    · intro hid
      obtain ⟨v, hv, rfl⟩ := List.mem_map.mp hid
      exact ⟨_, List.mem_map_of_mem hv, (tells_result hv).ruleId⟩
    · rintro ⟨_, hresult, hid⟩
      obtain ⟨v, hv, rfl⟩ := List.mem_map.mp hresult
      rw [(tells_result hv).ruleId] at hid
      exact List.mem_map.mpr ⟨v, hv, Option.some.inj hid⟩
  · rw [List.forall₂_map_right_iff, List.forall₂_same]
    exact fun e _ => notifies_errorNotification e
  · rw [List.forall₂_map_right_iff, List.forall₂_same]
    exact fun e _ => notifies_loadNotification e

end RuleScan.Sarif
