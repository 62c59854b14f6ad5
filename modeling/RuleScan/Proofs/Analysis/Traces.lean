import RuleScan.Parsing.GrammarTree
import RuleScan.Proofs.Analysis.Uniqueness
import RuleScan.Proofs.Report.Regions

/-! Where the violations of a report come from. Each one names an input and a selected rule for its language, and
its places lie in the text that was read for that input. This needs of the parsers that they finish their trees:
a tree is made of a draft, over the source that was given, in the language of the parser. -/
namespace RuleScan

namespace Parser

/-- What the parser builds is a finished draft over the source, in its own language. -/
def Finishes (p : Parser) : Prop :=
  ∀ source path tree, p.build source path = .ok tree →
    ∃ root diagnostics, tree = Tree.ofDraft p.language (Units.ofString source) root diagnostics

theorem finishes_ofGrammar {p : Parser} {parse : String → String → Except String GrammarNode}
    (h : ∀ source path, p.build source path = (parse source path).map (Tree.ofGrammar p.language source)) :
    p.Finishes := by
  intro source path tree htree
  rw [h] at htree
  obtain ⟨root, -, rfl⟩ := Query.map_eq_ok.mp htree
  exact ⟨_, _, rfl⟩

theorem build_of_parse {p : Parser} {source : String} {path : Option String} {policy : SyntaxPolicy} {tree : Tree}
    (h : p.parse source path policy = .ok tree) : ∃ path', p.build source path' = .ok tree := by
  unfold parse at h
  dsimp only at h
  split at h
  · cases h
  split at h
  · cases h
  split at h
  · cases h
  · next built hbuilt =>
    split at h
    · cases h
    · cases h
      exact ⟨_, hbuilt⟩

end Parser

/-- A tree that is parsed for a language is finished over the source in that language. -/
theorem ParserRegistry.exists_draft_of_parse {ps : ParserRegistry} (hps : ∀ p ∈ ps, p.Finishes) {source : String}
    {language : Language} {path : Option String} {policy : SyntaxPolicy} {tree : Tree}
    (h : ps.parse source language path policy = .ok tree) :
    ∃ root diagnostics, tree = Tree.ofDraft language (Units.ofString source) root diagnostics := by
  unfold parse at h
  split at h
  · cases h
  · next p hp =>
    unfold get? at hp
    obtain ⟨path', hbuild⟩ := Parser.build_of_parse h
    have hlanguage : p.language = language := by simpa using List.find?_some hp
    rw [← hlanguage]
    exact hps p (List.mem_of_find?_eq_some hp) source path' tree hbuild

/-- The violation is about the file and the rule, which is one for its language, and its places lie in the
content of the file. -/
structure Violation.Traced (input : SourceInput) (content : String) (rule : Rule) (v : Violation) : Prop where
  file : v.file = input.path
  ruleId : v.ruleId = rule.id
  severity : v.severity = rule.severity
  language : v.language ∈ rule.languages
  places : ∀ l ∈ v.places, l.Within (Units.ofString content)

namespace FileUnit

section Rules

variable {path : String} {tree : Tree} {settings : UnitSettings} {interference : Interference}

/-- What rules report on a tree is about the file and one of them, and lies in the text of the tree. -/
theorem Evaluated.exists_rule (htree : tree.Placed (LineIndex.ofText tree.source)) {rules : List Rule} {c : Collector}
    {es : List RuleEvaluation} (h : Evaluated path tree settings interference rules c es) :
    ∀ v ∈ es.flatMap (·.violations), ∃ rule ∈ rules,
      (v.file = path ∧ v.ruleId = rule.id ∧ v.severity = rule.severity ∧ v.language = tree.language) ∧
        ∀ l ∈ v.places, l.Within tree.source := by
  induction h with
  | nil => simp
  | @cons rule rules c c' w e es head tail ih =>
    obtain ⟨w₁, w₂, -, hrule⟩ := head
    refine List.forall_mem_append.mpr ⟨fun v hv => ?_, fun v hv => ?_⟩
    · obtain ⟨found, m, hfound, hm, hmatch⟩ := exists_ofMatch_of_evaluateRule hrule hv
      have hplaces := Violation.within_ofMatch (Clause.within_of_outcome htree hfound m hm) hmatch
      obtain ⟨message, fix, -, rfl⟩ := Violation.exists_of_ofMatch hmatch
      exact ⟨rule, List.mem_cons_self, ⟨rfl, rfl, rfl, rfl⟩, hplaces⟩
    · obtain ⟨r, hr, hv⟩ := ih v hv
      exact ⟨r, List.mem_cons_of_mem _ hr, hv⟩

end Rules

variable {input : SourceInput} {rules : List Rule} {settings : UnitSettings} {tools : UnitTools}

/-- A file that is parsed for some rules was read, and its tree is finished over what was read. -/
theorem exists_draft_of_opened (htools : ∀ p ∈ tools.parsers, p.Finishes) {language : Language} {tree : Tree}
    (h : opened input rules settings tools = .ok (some (language, tree))) :
    ∃ content, input.read settings.maxFileSizeBytes tools.disk = .ok content ∧
      ∃ root diagnostics, tree = Tree.ofDraft language (Units.ofString content) root diagnostics := by
  unfold opened at h
  split at h
  · cases h
  split at h
  · cases h
  · next content hread =>
    split at h
    · split at h
      · cases h
      · next hparse =>
        cases h
        exact ⟨content, hread, ParserRegistry.exists_draft_of_parse htools hparse⟩
    · cases h

/-- The evaluations of a file report violations of some rules in what is read of the file. -/
def Sourced (input : SourceInput) (rules : List Rule) (settings : UnitSettings) (tools : UnitTools)
    (es : List RuleEvaluation) : Prop :=
  ∀ v ∈ es.flatMap (·.violations), ∃ content, input.read settings.maxFileSizeBytes tools.disk = .ok content ∧
    ∃ rule ∈ rules, v.Traced input content rule

theorem sourced_of_none {es : List RuleEvaluation} (h : es.flatMap (·.violations) = []) :
    Sourced input rules settings tools es := by
  intro v hv
  rw [h] at hv
  cases hv

theorem Sourced.mono {es : List RuleEvaluation} (h : Sourced input rules settings tools es) {rules' : List Rule}
    (hrules : rules ⊆ rules') : Sourced input rules' settings tools es := by
  intro v hv
  obtain ⟨content, hread, rule, hrule, htraced⟩ := h v hv
  exact ⟨content, hread, rule, hrules hrule, htraced⟩

theorem Sourced.append {es es' : List RuleEvaluation} (h : Sourced input rules settings tools es)
    (h' : Sourced input rules settings tools es') : Sourced input rules settings tools (es ++ es') := by
  intro v hv
  rw [List.flatMap_append] at hv
  exact (List.mem_append.mp hv).elim (h v) (h' v)

variable (input rules settings) in
theorem sourced_run (htools : ∀ p ∈ tools.parsers, p.Finishes) (world : Surroundings) :
    Sourced input rules settings tools (run input rules settings tools world).1.evaluations := by
  rw [run_fst]
  rcases cancellation settings world with ⟨_ | reason, world'⟩
  · unfold started
    rcases hopened : opened input rules settings tools with e | _ | ⟨language, tree⟩
    · exact sourced_of_none rfl
    · exact sourced_of_none rfl
    · obtain ⟨content, hread, root, diagnostics, rfl⟩ := exists_draft_of_opened htools hopened
      obtain ⟨done, hfront, -, hdone⟩ := evaluated_evaluateRules input.path
        (Tree.ofDraft language (Units.ofString content) root diagnostics) settings tools.interference language rules
        0 {} (if tools.interference.onParse input.path then world'.setStop true else world')
      intro v hv
      obtain ⟨rule, hrule, ⟨hfile, hid, hseverity, hlanguage⟩, hplaces⟩ :=
        hdone.exists_rule (Tree.placed_ofDraft _ _ _ _) v hv
      obtain ⟨hmem, hcontains⟩ := List.mem_filter.mp (hfront.subset hrule)
      exact ⟨content, hread, rule, hmem, hfile, hid, hseverity, hlanguage ▸ List.contains_iff_mem.mp hcontains, hplaces⟩
  · exact sourced_of_none rfl

theorem Ends.sourced (htools : ∀ p ∈ tools.parsers, p.Finishes) {mode : ExecutionMode} {u : UnitResult}
    (h : Ends mode input settings tools rules u) : Sourced input rules settings tools u.evaluations := by
  induction h with
  | once rules world => exact sourced_run input rules settings htools world
  | @resumed before rest rule es later threads world elapsedMs kept resume ih =>
    have hkept := sourced_run input before settings htools world
    rw [kept] at hkept
    refine (hkept.mono (List.subset_append_left _ _)).append ?_
    exact ih.mono fun r hr => List.mem_append_right _ (List.mem_cons_of_mem _ hr)
  | @givenUp before rest rule es threads world elapsedMs kept =>
    have hkept := sourced_run input before settings htools world
    rw [kept] at hkept
    exact (hkept.mono (List.subset_append_left _ _)).append (sourced_of_none rfl)

end FileUnit

namespace AnalysisRun

variable {mode : ExecutionMode} {workers : Int} {inputs : List SourceInput} {rules : List Rule} {options : RunOptions}
  {loadErrors : List LoadFailure} {tools : UnitTools} {r : Report}

theorem exists_of_mem_violationsOf {ended : List (SettledTask SourceInput UnitResult)} {v : Violation}
    (h : v ∈ violationsOf (unitsOf ended)) :
    ∃ e ∈ ended, ∃ u, e.outcome = .completed u ∧ v ∈ u.evaluations.flatMap (·.violations) := by
  rw [violationsOf, List.flatMap_assoc] at h
  obtain ⟨u, hu, hv⟩ := List.mem_flatMap.mp h
  rcases List.mem_append.mp hu with hu | hu
  · -- a file whose thread failed has no evaluations
    obtain ⟨e, -, he⟩ := List.mem_filterMap.mp hu
    split at he
    · cases he
      cases hv
    · cases he
  · obtain ⟨e, he, hresult⟩ := List.mem_filterMap.mp hu
    exact ⟨e, he, u, outcome_of_resultOf? hresult, hv⟩

theorem Accounted.sourced {settings : UnitSettings} (htools : ∀ p ∈ tools.parsers, p.Finishes)
    {cancellation : Option CancelReason} {e : SettledTask SourceInput UnitResult} {u : UnitResult}
    (h : Accounted mode rules settings tools cancellation e) (hu : e.outcome = .completed u) :
    FileUnit.Sourced e.task.input rules settings tools u.evaluations := by
  unfold Accounted at h
  rw [hu] at h
  rcases h with ⟨hends, -⟩ | ⟨-, rfl⟩
  · exact hends.sourced htools
  · exact FileUnit.sourced_of_none rfl

/-- Every violation of a report comes from an input and a selected rule. Its places and those of its edits lie in
what was read of the input, their lines and columns name their offsets, and the regions of its result in the log
select the same texts. -/
theorem Reports.violations_traced (h : Reports mode workers inputs rules options loadErrors tools r)
    (htools : ∀ p ∈ tools.parsers, p.Finishes) :
    List.Forall₂ (fun v result =>
      ∃ input ∈ inputs, ∃ content, input.read options.maxFileSizeBytes tools.disk = .ok content ∧
        (∃ rule ∈ Rule.select options rules, v.Traced input content rule) ∧
        (Sarif.regions result ++ Sarif.deletedRegions result).map (Sarif.selected? (Units.ofString content)) =
          v.places.map fun l => some (l.text (Units.ofString content)))
      r.violations (Sarif.results (Sarif.ofReport r)) := by
  rw [Sarif.results_ofReport, List.forall₂_map_right_iff, List.forall₂_same]
  obtain ⟨startedAt, durationMs, cancellation, ended, hperm, hended, rfl⟩ := h.exists_ended
  obtain ⟨listed, hlisted, hsublist, -⟩ :=
    exists_listed_report options rules.length loadErrors (unitsOf ended) cancellation durationMs
  intro v hv
  obtain ⟨e, he, u, hu, hv⟩ := exists_of_mem_violationsOf (hlisted.subset (hsublist.subset hv))
  obtain ⟨content, hread, rule, hrule, htraced⟩ := (hended e he).sourced htools hu v hv
  refine ⟨e.task.input, hperm.subset (List.mem_map_of_mem he), content, hread, ⟨rule, hrule, htraced⟩, ?_⟩
  exact Sarif.map_selected?_result htraced.places _

end AnalysisRun

/-! A file of two lines, and a rule that finds the statement on the second one and removes it. -/

namespace SecondLine

def text : String := "x\npass"

def leaf (type : String) (start stop : Int) (named : Bool) : GrammarNode :=
  ⟨type, start, stop, named, false, none, []⟩

def parse (source _path : String) : Except String GrammarNode :=
  if source = text then
    .ok ⟨"module", 0, 6, true, false, none,
      [⟨"expression_statement", 0, 1, true, false, none, [leaf "identifier" 0 1 true]⟩,
        ⟨"pass_statement", 2, 6, true, false, none, [leaf "pass" 2 6 false]⟩]⟩
  else .error "Unknown text"

def parser : Parser :=
  { language := .python, extensions := []
    build := fun source path => (parse source path).map (.ofGrammar .python source) }

def tools : UnitTools := { parsers := [parser], disk := { root := "/" } }

def file : SourceInput := { path := "a.py", content := some (.text text), language := some .python }

def rule : Rule :=
  { id := "passes", languages := [.python], severity := .warning, message := "a statement that does nothing"
    patterns := [.structural "(pass_statement)" none none], fix := some { edits := [{ kind := .remove }] } }

def found : Report := (AnalysisRun.run [file] [rule] {} [] .inProcess tools (.still 0)).report

theorem finishes_tools : ∀ p ∈ tools.parsers, p.Finishes := by
  intro p hp
  obtain rfl := List.mem_singleton.mp hp
  have hbuild : ∀ source path, parser.build source path = (parse source path).map (.ofGrammar .python source) :=
    fun _ _ => rfl
  exact Parser.finishes_ofGrammar hbuild

end SecondLine

open SecondLine in
/-- The statement is reported and removed where it is. -/
theorem AnalysisRun.Reports.violations_traced_secondLine :
    found.violations.map (fun v => v.places.map fun l => (l.line, l.column, l.endLine, l.endColumn)) =
      [[(2, 1, 2, 5), (2, 1, 2, 5)]] ∧
    List.Forall₂ (fun v result => (∀ l ∈ v.places, l.Within (Units.ofString text)) ∧
        (Sarif.regions result ++ Sarif.deletedRegions result).map (Sarif.selected? (Units.ofString text)) =
          v.places.map fun l => some (l.text (Units.ofString text)))
      found.violations (Sarif.results (Sarif.ofReport found)) := by
  refine ⟨by decide +kernel, ?_⟩
  have hreports : Reports .inProcess 1 [file] [rule] {} [] tools found := reports_run ..
  refine (Reports.violations_traced hreports finishes_tools).imp ?_
  rintro v result ⟨input, hinput, content, hread, ⟨rule, -, htraced⟩, hselected⟩
  obtain rfl := List.mem_singleton.mp hinput
  obtain rfl : text = content := Except.ok.inj hread
  exact ⟨htraced.places, hselected⟩

end RuleScan
