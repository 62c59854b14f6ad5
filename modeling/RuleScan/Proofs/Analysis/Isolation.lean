import RuleScan.Proofs.Analysis.Units

/-! Rules do not disturb each other. The rules of a file share a collector, which only remembers
fingerprints; those of rules with different ids differ, so each rule is evaluated as with a collector of
its own. -/
namespace RuleScan

namespace Collector

variable {path : String} {language : Language} {content : Units} {rule : Rule}

variable (language content rule) in
theorem mem_seenIn_collect {p : String} {c : Collector} (ms : List Match) (h : p ∈ c.seenIn path) :
    p ∈ (collect path language content rule ms c).2.seenIn path := by
  induction ms generalizing c with
  | nil => exact h
  | cons m ms ih =>
    rw [collect]
    cases Violation.ofMatch path language content rule m with
    | error e => exact h
    | ok v =>
      dsimp only
      split
      · exact ih h
      · have hmark : p ∈ (c.mark path v.fingerprint).seenIn path := (mem_seenIn_mark path).mpr (.inr h)
        have hrest := ih hmark
        revert hrest
        rcases collect path language content rule ms (c.mark path v.fingerprint) with ⟨_ | vs, c'⟩ <;> exact id

/-- A call remembers no other fingerprints than those of its matches, also when it fails. -/
theorem mem_seenIn_of_collect {p : String} {c : Collector} {ms : List Match}
    (h : p ∈ (collect path language content rule ms c).2.seenIn path) :
    p ∈ c.seenIn path ∨ p ∈ (findings rule ms).map (·.fingerprint path content) := by
  induction ms generalizing c with
  | nil => exact .inl h
  | cons m ms ih =>
    rw [collect] at h
    rw [findings, List.map_cons, List.map_cons, List.mem_cons]
    cases hv : Violation.ofMatch path language content rule m with
    | error e =>
      rw [hv] at h
      exact .inl h
    | ok v =>
      rw [hv] at h
      dsimp only at h
      split at h
      · exact (ih h).imp_right .inr
      · have hrest : p ∈ (collect path language content rule ms (c.mark path v.fingerprint)).2.seenIn path := by
          revert h
          rcases collect path language content rule ms (c.mark path v.fingerprint) with ⟨_ | vs, c'⟩ <;> exact id
        rcases ih hrest with hmark | hms
        · rw [mem_seenIn_mark, Finding.fingerprint_of_violation (f := ⟨rule, m⟩) hv] at hmark
          exact hmark.elim (fun he => .inr (.inl he)) .inl
        · exact .inr (.inr hms)

variable (path language content rule) in
/-- A call depends only on which fingerprints of its matches were seen. -/
theorem collect_congr (ms : List Match) (c c' : Collector)
    (h : ∀ p ∈ (findings rule ms).map (·.fingerprint path content), p ∈ c.seenIn path ↔ p ∈ c'.seenIn path) :
    (collect path language content rule ms c).1 = (collect path language content rule ms c').1 ∧
      (collect path language content rule ms c).2.collapsed + c'.collapsed =
        (collect path language content rule ms c').2.collapsed + c.collapsed := by
  induction ms generalizing c c' with
  | nil => exact ⟨rfl, Nat.add_comm _ _⟩
  | cons m ms ih =>
    rw [findings, List.map_cons, List.map_cons, List.forall_mem_cons] at h
    obtain ⟨hm, hms⟩ := h
    rw [collect, collect]
    cases hv : Violation.ofMatch path language content rule m with
    | error e => exact ⟨rfl, Nat.add_comm _ _⟩
    | ok v =>
      rw [← Finding.fingerprint_of_violation (f := ⟨rule, m⟩) hv] at hm
      simp only [List.contains_iff_mem, ← hm]
      split
      · have hrest := ih { c with collapsed := c.collapsed + 1 } { c' with collapsed := c'.collapsed + 1 } hms
        dsimp only at hrest
        exact ⟨hrest.1, by omega⟩
      · have hrest := ih (c.mark path v.fingerprint) (c'.mark path v.fingerprint) fun p hp => by
          rw [mem_seenIn_mark, mem_seenIn_mark, hms p hp]
        revert hrest
        rcases collect path language content rule ms (c.mark path v.fingerprint) with ⟨r, d⟩
        rcases collect path language content rule ms (c'.mark path v.fingerprint) with ⟨r', d'⟩
        rintro ⟨rfl, hcount⟩
        simp only [mark] at hcount
        cases r <;> exact ⟨rfl, hcount⟩

end Collector

namespace FileUnit

section Rules

variable {path : String} {tree : Tree} {settings : UnitSettings} {interference : Interference}

theorem ruleId_of_evaluateRule {rule : Rule} {c c' : Collector} {w w' : Surroundings} {e : RuleEvaluation}
    (h : evaluateRule path tree rule settings c w = (.ok e, c', w')) : e.ruleId = rule.id := by
  change e.untimed.ruleId = rule.id
  rcases evaluateRule_cases h with ⟨elapsed, he, -⟩ | he
  · rw [he]
    rfl
  rcases conclude_cases path tree settings.maxSteps rule c with
    ⟨err, -, hc⟩ | ⟨found, -, ⟨err, after, -, hc⟩ | ⟨vs, after, -, hc⟩⟩
  all_goals exact congrArg RuleEvaluation.ruleId (Prod.mk.inj (he.trans hc)).1

theorem violations_of_evaluateRule {rule : Rule} {c c' : Collector} {w w' : Surroundings} {e : RuleEvaluation}
    (h : evaluateRule path tree rule settings c w = (.ok e, c', w')) (herror : e.error.isSome) :
    e.violations = [] := by
  change e.untimed.error.isSome at herror
  change e.untimed.violations = []
  rcases evaluateRule_cases h with ⟨elapsed, he, -⟩ | he
  · rw [he]
    rfl
  rcases conclude_cases path tree settings.maxSteps rule c with
    ⟨err, -, hc⟩ | ⟨found, -, ⟨err, after, -, hc⟩ | ⟨vs, after, -, hc⟩⟩
  · rw [(Prod.mk.inj (he.trans hc)).1]
    rfl
  · rw [(Prod.mk.inj (he.trans hc)).1]
    rfl
  · rw [(Prod.mk.inj (he.trans hc)).1] at herror
    cases herror

theorem mem_seenIn_of_conclude {maxSteps : Int} {rule : Rule} {c : Collector} {p : String}
    (hp : p ∈ (conclude path tree maxSteps rule c).2.seenIn path) :
    p ∈ c.seenIn path ∨ p ∈ (hashedBy path tree maxSteps rule).map Sha256.hex := by
  rcases conclude_cases path tree maxSteps rule c with
    ⟨err, -, hc⟩ | ⟨found, hfound, ⟨err, after, hcollect, hc⟩ | ⟨vs, after, hcollect, hc⟩⟩
  · rw [hc] at hp
    exact .inl hp
  all_goals
    have hafter : (Collector.collect path tree.language tree.source rule found c).2 = after :=
      congrArg Prod.snd hcollect
    rw [hc, ← hafter] at hp
    rw [hashedBy, hfound, List.map_map]
    exact Collector.mem_seenIn_of_collect hp

theorem mem_seenIn_of_evaluateRule {rule : Rule} {c c' : Collector} {w w' : Surroundings} {e : RuleEvaluation}
    (h : evaluateRule path tree rule settings c w = (.ok e, c', w')) {p : String} (hp : p ∈ c'.seenIn path) :
    p ∈ c.seenIn path ∨ p ∈ (hashedBy path tree settings.maxSteps rule).map Sha256.hex := by
  rcases evaluateRule_cases h with ⟨-, -, rfl⟩ | he
  · exact .inl hp
  · refine mem_seenIn_of_conclude ?_
    rwa [← he]

/-- To a rule, a collector that has seen none of its fingerprints is like an empty one. -/
theorem collect_of_unseen {maxSteps : Int} {rule : Rule} {c : Collector} {found : List Match}
    (hfound : Clause.outcome tree rule.patterns maxSteps = .ok found)
    (hunseen : ∀ s ∈ hashedBy path tree maxSteps rule, Sha256.hex s ∉ c.seenIn path) :
    (Collector.collect path tree.language tree.source rule found c).1 =
        (Collector.collect path tree.language tree.source rule found {}).1 ∧
      (Collector.collect path tree.language tree.source rule found c).2.collapsed - c.collapsed =
        (Collector.collect path tree.language tree.source rule found {}).2.collapsed := by
  rw [hashedBy, hfound] at hunseen
  have hempty : ∀ p, p ∉ ({} : Collector).seenIn path := fun p => by simp [Collector.seenIn]
  obtain ⟨hresult, hcount⟩ := Collector.collect_congr path tree.language tree.source rule found c {}
    fun p hp => by
      obtain ⟨f, hf, rfl⟩ := List.mem_map.mp hp
      exact iff_of_false (hunseen _ (List.mem_map_of_mem hf)) (hempty _)
  refine ⟨hresult, ?_⟩
  dsimp only at hcount
  omega

theorem conclude_of_unseen {maxSteps : Int} {rule : Rule} {c : Collector}
    (hunseen : ∀ s ∈ hashedBy path tree maxSteps rule, Sha256.hex s ∉ c.seenIn path) :
    (conclude path tree maxSteps rule c).1 = (conclude path tree maxSteps rule {}).1 := by
  unfold conclude
  cases hfound : Clause.outcome tree rule.patterns maxSteps with
  | error e => rfl
  | ok found =>
    have hsame := collect_of_unseen hfound hunseen
    dsimp only
    revert hsame
    rcases Collector.collect path tree.language tree.source rule found c with ⟨r, d⟩
    rcases Collector.collect path tree.language tree.source rule found {} with ⟨r', d'⟩
    rintro ⟨rfl, hcount⟩
    cases r with
    | error err => rfl
    | ok vs => exact congrArg (RuleEvaluation.mk rule.id vs · 0 none) hcount

theorem evaluateRule_of_unseen {rule : Rule} {c c' : Collector} {w w' : Surroundings} {e : RuleEvaluation}
    (h : evaluateRule path tree rule settings c w = (.ok e, c', w'))
    (hunseen : ∀ s ∈ hashedBy path tree settings.maxSteps rule, Sha256.hex s ∉ c.seenIn path) :
    ∃ c'' w'', evaluateRule path tree rule settings {} w = (.ok e, c'', w'') := by
  rw [evaluateRule_eq] at h ⊢
  rcases Clause.evaluateAll_trichotomy tree rule.patterns (t := trackerOf settings w) rfl with
    ⟨o, t, -, hout, hrun⟩ | ⟨_, _, _, _, t, -, hrun⟩ | ⟨halt, t, hrun, -⟩
  · rw [hrun] at h ⊢
    cases o with
    | error err =>
      rcases err with (_ | _ | reason) | _ | _ | _ | _ | _
      case halted.cancelled => cases h
      all_goals
        cases h
        exact ⟨_, _, rfl⟩
    | ok found =>
      have hsame := collect_of_unseen hout hunseen
      dsimp only [Counted.ended, wrapUp] at h ⊢
      revert h hsame
      rcases Collector.collect path tree.language tree.source rule found c with ⟨r, d⟩
      rcases Collector.collect path tree.language tree.source rule found {} with ⟨r', d'⟩
      rintro h ⟨rfl, hcount⟩
      cases r with
      | error err =>
        cases h
        exact ⟨_, _, rfl⟩
      | ok vs =>
        cases h
        refine ⟨d', t.world.readClock.2, ?_⟩
        dsimp only at hcount ⊢
        rw [hcount, Nat.sub_zero]
  · rw [hrun] at h ⊢
    cases h
    exact ⟨_, _, rfl⟩
  · rw [hrun] at h ⊢
    cases halt with
    | cancelled reason => cases h
    | stepLimit _ _ _ | timeLimit _ _ =>
      cases h
      exact ⟨_, _, rfl⟩

theorem hashedBy_ne {rule rule' : Rule} {maxSteps : Int} {s s' : String} (h : rule.id ≠ rule'.id)
    (hs : s ∈ hashedBy path tree maxSteps rule) (hs' : s' ∈ hashedBy path tree maxSteps rule') : s ≠ s' := by
  unfold hashedBy at hs hs'
  split at hs
  · cases hs
  split at hs'
  · cases hs'
  obtain ⟨f, hf, rfl⟩ := List.mem_map.mp hs
  obtain ⟨f', hf', rfl⟩ := List.mem_map.mp hs'
  obtain ⟨m, -, rfl⟩ := List.mem_map.mp hf
  obtain ⟨m', -, rfl⟩ := List.mem_map.mp hf'
  intro he
  exact h (Violation.label_inj_left (Violation.identity_inj he).1)

/-- The collector has seen no fingerprint of the rules. -/
def Unseen (path : String) (tree : Tree) (maxSteps : Int) (rules : List Rule) (c : Collector) : Prop :=
  ∀ rule ∈ rules, ∀ s ∈ hashedBy path tree maxSteps rule, Sha256.hex s ∉ c.seenIn path

theorem unseen_empty (maxSteps : Int) (rules : List Rule) : Unseen path tree maxSteps rules {} := by
  intro rule _ s _
  simp [Collector.seenIn]

/-- A rule leaves the fingerprints of rules with other ids unseen. -/
theorem Unseen.tail {maxSteps : Int} {rule : Rule} {rules : List Rule} {c c' : Collector}
    (h : Unseen path tree maxSteps (rule :: rules) c) (hids : ((rule :: rules).map (·.id)).Nodup)
    (hdigest : Sha256.CollisionFree {s | s ∈ (rule :: rules).flatMap (hashedBy path tree maxSteps)})
    (hadds : ∀ p ∈ c'.seenIn path, p ∈ c.seenIn path ∨ p ∈ (hashedBy path tree maxSteps rule).map Sha256.hex) :
    Unseen path tree maxSteps rules c' := by
  rw [List.map_cons, List.nodup_cons] at hids
  intro rule' hrule' s hs hseen
  rcases hadds _ hseen with hseen | hseen
  · exact h rule' (List.mem_cons_of_mem rule hrule') s hs hseen
  · obtain ⟨s', hs', he⟩ := List.mem_map.mp hseen
    have hne : rule.id ≠ rule'.id := fun he => hids.1 (he ▸ List.mem_map_of_mem hrule')
    refine hashedBy_ne hne hs' hs (hdigest ?_ ?_ he)
    · exact List.mem_flatMap.mpr ⟨rule, List.mem_cons_self, hs'⟩
    · exact List.mem_flatMap.mpr ⟨rule', List.mem_cons_of_mem rule hrule', hs⟩

theorem Evaluated.alone {rules : List Rule} {c : Collector} {es : List RuleEvaluation}
    (h : Evaluated path tree settings interference rules c es) (hids : (rules.map (·.id)).Nodup)
    (hdigest : Sha256.CollisionFree {s | s ∈ rules.flatMap (hashedBy path tree settings.maxSteps)})
    (hunseen : Unseen path tree settings.maxSteps rules c) :
    List.Forall₂ (fun rule e => ∃ w c', Evaluates path tree settings interference rule {} w e c') rules es := by
  induction h with
  | nil => exact .nil
  | cons head tail ih =>
    obtain ⟨w₁, w₂, hcheck, hrule⟩ := head
    obtain ⟨c'', w'', halone⟩ := evaluateRule_of_unseen hrule (hunseen _ List.mem_cons_self)
    refine .cons ⟨_, c'', w₁, w'', hcheck, halone⟩ (ih hids.of_cons (hdigest.mono ?_) ?_)
    · exact fun s hs => List.mem_append_right _ hs
    · exact hunseen.tail hids hdigest fun p hp => mem_seenIn_of_evaluateRule hrule hp

theorem Evaluated.violations {rules : List Rule} {c : Collector} {es : List RuleEvaluation}
    (h : Evaluated path tree settings interference rules c es) :
    ∀ e ∈ es, e.error.isSome → e.violations = [] := by
  induction h with
  | nil => exact fun e he => absurd he List.not_mem_nil
  | cons head tail ih =>
    obtain ⟨w₁, w₂, -, hrule⟩ := head
    exact List.forall_mem_cons.mpr ⟨violations_of_evaluateRule hrule, ih⟩

/-- Where ids are distinct, a rule has exactly one evaluation. -/
theorem exists_filter_ruleId {R : Rule → RuleEvaluation → Prop} {rules : List Rule} {es : List RuleEvaluation}
    (h : List.Forall₂ R rules es) (hid : ∀ rule e, R rule e → e.ruleId = rule.id)
    (hids : (rules.map (·.id)).Nodup) {r : Rule} (hr : r ∈ rules) :
    ∃ e, R r e ∧ es.filter (·.ruleId = r.id) = [e] := by
  have hothers : ∀ {rules : List Rule} {es : List RuleEvaluation}, List.Forall₂ R rules es →
      r.id ∉ rules.map (·.id) → es.filter (·.ruleId = r.id) = [] := by
    intro rules es h
    induction h with
    | nil => exact fun _ => rfl
    | @cons rule e rules es head tail ih =>
      intro hnot
      rw [List.map_cons, List.mem_cons, not_or] at hnot
      have hne : ¬e.ruleId = r.id := fun he => hnot.1 (he.symm.trans (hid rule e head))
      rw [List.filter_cons_of_neg (by simpa using hne)]
      exact ih hnot.2
  induction h with
  | nil => cases hr
  | @cons rule e rules es head tail ih =>
    rw [List.map_cons, List.nodup_cons] at hids
    rcases List.mem_cons.mp hr with rfl | hr
    · refine ⟨e, head, ?_⟩
      rw [List.filter_cons_of_pos (by simpa using hid r e head), hothers tail hids.1]
    · obtain ⟨e', he', hfilter⟩ := ih hids.2 hr
      have hne : ¬e.ruleId = r.id := by
        intro he
        rw [hid rule e head] at he
        exact hids.1 (he ▸ List.mem_map_of_mem hr)
      exact ⟨e', he', by rw [List.filter_cons_of_neg (by simpa using hne), hfilter]⟩

/-! What a rule sees of its surroundings is all that they do to it. -/

theorem cancellation_sameAhead {w w' : Surroundings} (h : w.SameAhead w') (settings : UnitSettings) :
    (cancellation settings w).1 = (cancellation settings w').1 ∧
      (cancellation settings w).2.SameAhead (cancellation settings w').2 := by
  have hlook := h.look_fst
  have hworld := h.look_snd
  have hnow := hworld.readClock_fst
  unfold cancellation
  simp only [← hlook]
  split
  · exact ⟨rfl, hworld⟩
  split
  · exact ⟨rfl, hworld⟩
  · rw [← hnow]
    exact ⟨rfl, hworld.readClock_snd⟩

variable (path tree settings) in
theorem evaluateRule_sameAhead {w w' : Surroundings} (h : w.SameAhead w') (rule : Rule) (c : Collector) :
    (evaluateRule path tree rule settings c w).1 = (evaluateRule path tree rule settings c w').1 := by
  have hstart : (trackerOf settings w).SameAhead (trackerOf settings w') := by
    unfold trackerOf
    rw [h.readClock_fst]
    exact .start h.readClock_snd _
  have hend := Clause.sameEnd_evaluateAll tree rule.patterns hstart
  rw [evaluateRule_eq, evaluateRule_eq, h.readClock_fst]
  revert hend
  rcases Clause.evaluateAll tree rule.patterns (trackerOf settings w) with ⟨found, t⟩ | ⟨e, t⟩
  · rcases Clause.evaluateAll tree rule.patterns (trackerOf settings w') with ⟨found', t'⟩ | ⟨e', t'⟩
    · rintro ⟨rfl, hworld⟩
      unfold wrapUp
      dsimp only
      rw [hworld.world.readClock_fst]
      rcases Collector.collect path tree.language tree.source rule found c with ⟨_ | vs, after⟩ <;> rfl
    · exact False.elim
  · rcases Clause.evaluateAll tree rule.patterns (trackerOf settings w') with ⟨found', t'⟩ | ⟨e', t'⟩
    · exact False.elim
    · rintro ⟨rfl, hworld⟩
      have hnow := hworld.world.readClock_fst
      rcases e with (_ | _ | _) | _ | _ | _ | _ | _ <;> simp only [wrapUp, hnow]

/-- Surroundings that let a run go on can be met by a run that has checked once before. -/
theorem exists_cancellation_before {w w₁ : Surroundings} (h : cancellation settings w = (none, w₁)) :
    ∃ w₀ w', cancellation settings w₀ = (none, w') ∧ w'.SameAhead w := by
  unfold cancellation Surroundings.look Surroundings.readClock at h ⊢
  dsimp only at h ⊢
  split at h
  · cases h
  next hstop =>
  cases hdeadline : settings.runDeadline with
  | none =>
    refine ⟨{ w with stop := fun i => w.stop (w.looks + (i - 1)), looks := 0 }, _, if_neg hstop, fun _ => rfl, ?_⟩
    intro i
    simp
  | some deadline =>
    rw [hdeadline] at h
    dsimp only at h ⊢
    have hnow : ¬deadline < w.time w.readings := by
      intro hlt
      rw [if_pos hlt] at h
      cases h
    refine ⟨
      { time := fun i => w.time (w.readings + (i - 1)), stop := fun i => w.stop (w.looks + (i - 1)) }, _,
      (if_neg hstop).trans (congrArg (·, _) (if_neg hnow)), ?_, ?_⟩
    · intro i
      simp
    · intro i
      simp

/-- A stop asked for at the start leaves no rule to be evaluated. -/
theorem cancellation_evaluateRules_stop {language : Language} {rules : List Rule} {r : Rule} (hr : r ∈ rules)
    (happlies : r.languages.contains language) (index : Nat) (c : Collector) (w : Surroundings) :
    (evaluateRules path tree language settings interference rules index c (w.setStop true)).cancellation ≠ none := by
  induction rules generalizing index with
  | nil => cases hr
  | cons rule rules ih =>
    rw [evaluateRules]
    split
    · next hskip =>
      have hne : r ≠ rule := by
        rintro rfl
        rw [happlies] at hskip
        cases hskip
      exact ih (List.mem_of_ne_of_mem hne hr) (index + 1)
    · exact Option.some_ne_none CancelReason.aborted

end Rules

variable {input : SourceInput} {rules : List Rule} {settings : UnitSettings} {tools : UnitTools} {r : Rule}
  {language : Language}

variable (settings) in
theorem opened_singleton (hlanguage : languageOf? input tools = some language) (hr : r ∈ rules)
    (happlies : r.languages.contains language) :
    opened input [r] settings tools = opened input rules settings tools := by
  have hany : rules.any (·.languages.contains language) = true := List.any_eq_true.mpr ⟨r, hr, happlies⟩
  unfold opened
  simp only [hlanguage, hany, List.any_cons, happlies, List.any_nil, Bool.or_false]

variable (settings) in
theorem opened_cases (hlanguage : languageOf? input tools = some language) (hr : r ∈ rules)
    (happlies : r.languages.contains language) :
    (∃ e, opened input rules settings tools = .error e) ∨
      ∃ tree, opened input rules settings tools = .ok (some (language, tree)) := by
  have hany : rules.any (·.languages.contains language) = true := List.any_eq_true.mpr ⟨r, hr, happlies⟩
  unfold opened
  simp only [hlanguage, hany, if_true]
  cases input.read settings.maxFileSizeBytes tools.disk with
  | error e => exact .inl ⟨e, rfl⟩
  | ok source =>
    dsimp only
    cases tools.parsers.parse source language (some input.path) settings.syntaxErrors with
    | error e => exact .inl ⟨_, rfl⟩
    | ok tree => exact .inr ⟨tree, rfl⟩

/-- In surroundings like those in which a rule was evaluated among others, a run with this rule only
records the same evaluation. -/
theorem exists_run_singleton {tree : Tree} {w : Surroundings} {e : RuleEvaluation} {c' : Collector}
    (hopened : opened input [r] settings tools = .ok (some (language, tree)))
    (happlies : r.languages.contains language) (hparse : tools.interference.onParse input.path = false)
    (h : Evaluates input.path tree settings tools.interference r {} w e c') :
    ∃ world, (run input [r] settings tools world).1 =
      { path := input.path, analyzed := true, evaluations := [e] } := by
  obtain ⟨w₁, w₂, hcheck, hrule⟩ := h
  obtain ⟨w₀, w', hbefore, hsame⟩ := exists_cancellation_before hcheck
  have hchecked := cancellation_sameAhead hsame settings
  rw [hcheck] at hchecked
  refine ⟨w₀, ?_⟩
  rw [run_fst, hbefore]
  simp only [started, hopened, hparse, Bool.false_eq_true, if_false, evaluateRules, happlies, Bool.not_true]
  rcases hcheck' : cancellation settings w' with ⟨reason, w₁'⟩
  rw [hcheck'] at hchecked
  obtain ⟨rfl, hahead⟩ := hchecked
  have hstart : (if tools.interference.onRule r.id then w₁'.setStop true else w₁').SameAhead
      (if tools.interference.onRule r.id then w₁.setStop true else w₁) := by
    split
    · exact hahead.setStop true
    · exact hahead
  have hsame := evaluateRule_sameAhead input.path tree settings hstart r {}
  rw [hrule] at hsame
  dsimp only
  rcases hrule' : evaluateRule input.path tree r settings {}
    (if tools.interference.onRule r.id then w₁'.setStop true else w₁') with ⟨result, c'', w₂'⟩
  rw [hrule'] at hsame
  obtain rfl : result = .ok e := hsame
  rfl

end FileUnit

def UnitResult.only (u : UnitResult) (ruleId : String) : UnitResult :=
  { u with evaluations := u.evaluations.filter (·.ruleId = ruleId) }

/-- The same apart from times, as far as no time limit decides. -/
structure UnitResult.Alike (u v : UnitResult) : Prop where
  path : u.path = v.path
  analyzed : u.analyzed = v.analyzed
  errors : u.errors = v.errors
  evaluations : List.Forall₂ (fun e e' => e.untimed = e'.untimed ∨ e.OutOfTime ∨ e'.OutOfTime) u.evaluations
    v.evaluations

namespace FileUnit

variable {input : SourceInput} {rules : List Rule} {settings : UnitSettings} {tools : UnitTools} {r : Rule}
  {language : Language} {tree : Tree} {world : Surroundings}

theorem forall₂_evaluations (hopened : opened input rules settings tools = .ok (some (language, tree)))
    (hids : (rules.map (·.id)).Nodup)
    (hdigest : Sha256.CollisionFree {s | s ∈ hashed input rules settings tools})
    (hrun : (run input rules settings tools world).1.cancellation = none) :
    ∃ es, (run input rules settings tools world).1 =
        { path := input.path, analyzed := true, evaluations := es } ∧
      List.Forall₂ (fun rule e => ∃ w c', Evaluates input.path tree settings tools.interference rule {} w e c')
        (rules.filter (·.languages.contains language)) es := by
  obtain ⟨world', hstarted⟩ := exists_run_eq_started hrun
  rw [hstarted, started, hopened] at hrun ⊢
  dsimp only at hrun ⊢
  obtain ⟨done, -, hall, hdone⟩ := evaluated_evaluateRules input.path tree settings tools.interference language
    rules 0 {}
    (if tools.interference.onParse input.path then world'.setStop true else world')
  obtain rfl := hall hrun
  refine ⟨_, by rw [hrun], hdone.alone ?_ ?_ (unseen_empty _ _)⟩
  · exact hids.sublist (List.filter_sublist.map _)
  · rw [hashed, hopened] at hdigest
    exact hdigest

/-- Two evaluations of a rule that was the first to use its collector differ in their times, unless a time
limit ended one of them. -/
theorem Evaluates.alike {path : String} {tree : Tree} {interference : Interference} {w w' : Surroundings}
    {e e' : RuleEvaluation} {c c' : Collector} (h : Evaluates path tree settings interference r {} w e c)
    (h' : Evaluates path tree settings interference r {} w' e' c') :
    e.untimed = e'.untimed ∨ e.OutOfTime ∨ e'.OutOfTime := by
  obtain ⟨w₁, w₂, -, hrule⟩ := h
  obtain ⟨w₁', w₂', -, hrule'⟩ := h'
  rcases evaluateRule_cases hrule with ⟨elapsed, he, -⟩ | he
  · exact .inr (.inl (outOfTime_of_untimed he))
  rcases evaluateRule_cases hrule' with ⟨elapsed, he', -⟩ | he'
  · exact .inr (.inr (outOfTime_of_untimed he'))
  · exact .inl (congrArg Prod.fst (he.trans he'.symm))

theorem run_eq_of_error {e : AnalysisError} (hopened : opened input rules settings tools = .error e)
    (hrun : (run input rules settings tools world).1.cancellation = none) :
    (run input rules settings tools world).1 = { path := input.path, errors := [e] } := by
  obtain ⟨world', hstarted⟩ := exists_run_eq_started hrun
  rw [hstarted, started, hopened]

theorem violations_of_error {e : RuleEvaluation} (he : e ∈ (run input rules settings tools world).1.evaluations)
    (herror : e.error.isSome) : e.violations = [] := by
  rw [run_fst] at he
  rcases hcheck : cancellation settings world with ⟨_ | reason, world'⟩
  · rw [hcheck] at he
    dsimp only [started] at he
    split at he
    · cases he
    · cases he
    · next language tree hopened =>
      obtain ⟨done, -, -, hdone⟩ := evaluated_evaluateRules input.path tree settings tools.interference language
        rules 0 {} (if tools.interference.onParse input.path then world'.setStop true else world')
      exact hdone.violations e he herror
  · rw [hcheck] at he
    cases he

section Tree

variable (hopened : opened input rules settings tools = .ok (some (language, tree))) (hr : r ∈ rules)
  (hcontains : r.languages.contains language = true)
  (hrun : (run input rules settings tools world).1.cancellation = none)

include hopened hr hcontains hrun

/-- Nobody asks for a stop when the tree is built, or the rules would not be evaluated. -/
theorem onParse_eq_false : tools.interference.onParse input.path = false := by
  by_contra hstop
  obtain ⟨world', hstarted⟩ := exists_run_eq_started hrun
  rw [hstarted, started, hopened, eq_true_of_ne_false hstop] at hrun
  exact cancellation_evaluateRules_stop hr hcontains 0 {} world' hrun

/-- About a rule, a run that is not cancelled records one evaluation with a collector of its own. -/
theorem exists_only_eq (hids : (rules.map (·.id)).Nodup)
    (hdigest : Sha256.CollisionFree {s | s ∈ hashed input rules settings tools}) :
    ∃ e w c', Evaluates input.path tree settings tools.interference r {} w e c' ∧
      (run input rules settings tools world).1.only r.id =
        { path := input.path, analyzed := true, evaluations := [e] } := by
  obtain ⟨es, htogether, hes⟩ := forall₂_evaluations hopened hids hdigest hrun
  have hruleIds : ∀ rule e, (∃ w c', Evaluates input.path tree settings tools.interference rule {} w e c') →
      e.ruleId = rule.id := by
    rintro rule e ⟨w, c', w₁, w₂, -, hrule⟩
    exact ruleId_of_evaluateRule hrule
  have hmem : r ∈ rules.filter (·.languages.contains language) := List.mem_filter.mpr ⟨hr, hcontains⟩
  obtain ⟨e, ⟨w, c', he⟩, hfilter⟩ :=
    exists_filter_ruleId hes hruleIds (hids.sublist (List.filter_sublist.map _)) hmem
  exact ⟨e, w, c', he, by rw [htogether, UnitResult.only, hfilter]⟩

end Tree

theorem exists_singleton_eq (hopened : opened input [r] settings tools = .ok (some (language, tree)))
    (hcontains : r.languages.contains language = true)
    (hrun : (run input [r] settings tools world).1.cancellation = none) :
    ∃ e w c', Evaluates input.path tree settings tools.interference r {} w e c' ∧
      (run input [r] settings tools world).1 = { path := input.path, analyzed := true, evaluations := [e] } := by
  obtain ⟨world', hstarted⟩ := exists_run_eq_started hrun
  rw [hstarted, started, hopened] at hrun ⊢
  dsimp only at hrun ⊢
  obtain ⟨done, -, hall, hdone⟩ := evaluated_evaluateRules input.path tree settings tools.interference language
    [r] 0 {} (if tools.interference.onParse input.path then world'.setStop true else world')
  have hfilter : [r].filter (·.languages.contains language) = [r] := List.filter_cons_of_pos hcontains
  rw [hall hrun, hfilter] at hdone
  revert hdone hrun
  rcases evaluateRules input.path tree language settings tools.interference [r] 0 {}
    (if tools.interference.onParse input.path then world'.setStop true else world') with ⟨es, events, reason, w⟩
  rintro rfl hdone
  cases hdone with
  | cons head tail =>
    cases tail
    exact ⟨_, _, _, head, rfl⟩

/-- Rules do not disturb each other. What a run that is not cancelled records about a rule is what a run with
this rule only records: exactly this in some surroundings, and in all others the same apart from times, unless
a time limit ends one of the two. A file that was analyzed has one evaluation of the rule, and no evaluation
with an error has violations. -/
theorem run_isolated (hids : (rules.map (·.id)).Nodup) (hr : r ∈ rules)
    (hlanguage : languageOf? input tools = some language) (happlies : language ∈ r.languages)
    (hdigest : Sha256.CollisionFree {s | s ∈ hashed input rules settings tools})
    (hrun : (run input rules settings tools world).1.cancellation = none) :
    (∃ world', (run input [r] settings tools world').1 = (run input rules settings tools world).1.only r.id) ∧
      (∀ world', (run input [r] settings tools world').1.cancellation = none →
        (run input [r] settings tools world').1.Alike ((run input rules settings tools world).1.only r.id)) ∧
      ((run input rules settings tools world).1.analyzed = true →
        ∃ e, ((run input rules settings tools world).1.only r.id).evaluations = [e]) ∧
      ∀ e ∈ (run input rules settings tools world).1.evaluations, e.error.isSome → e.violations = [] := by
  have hcontains : r.languages.contains language = true := List.contains_iff_mem.mpr happlies
  have hsingle := opened_singleton settings hlanguage hr hcontains
  rcases opened_cases settings hlanguage hr hcontains with ⟨e, hopened⟩ | ⟨tree, hopened⟩
  · -- the file fails in the same way for one rule as for all
    rw [hopened] at hsingle
    have hsame : (run input [r] settings tools world).1 = (run input rules settings tools world).1 := by
      simp only [run_fst, started, hopened, hsingle]
    have htogether := run_eq_of_error hopened hrun
    refine ⟨⟨world, ?_⟩, fun world' hrun' => ?_, ?_, fun e => violations_of_error⟩
    · rw [hsame, htogether]
      rfl
    · rw [run_eq_of_error hsingle hrun', htogether]
      exact ⟨rfl, rfl, rfl, .nil⟩
    · rw [htogether]
      exact nofun
  · rw [hopened] at hsingle
    obtain ⟨e, w, c, he, honly⟩ := exists_only_eq hopened hr hcontains hrun hids hdigest
    refine ⟨?_, fun world' hrun' => ?_, fun _ => ⟨e, by rw [honly]⟩, fun e => violations_of_error⟩
    · rw [honly]
      exact exists_run_singleton hsingle hcontains (onParse_eq_false hopened hr hcontains hrun) he
    · obtain ⟨e', w', c', he', halone⟩ := exists_singleton_eq hsingle hcontains hrun'
      rw [halone, honly]
      exact ⟨rfl, rfl, rfl, .cons (he'.alike he) .nil⟩

end FileUnit

/-! Files of one node, and rules that ask for nodes of a kind. -/

namespace OneNode

def tree (language : Language) : Tree :=
  .ofDraft language (Units.ofString "x") { kind := "A", start := 0, stop := 1, children := [] } []

def parser (language : Language) : Parser := { language, extensions := [], build := fun _ _ => .ok (tree language) }

def tools : UnitTools := { parsers := [parser .typescript, parser .javascript], disk := { root := "/" } }

def file (path : String) (language : Language) : SourceInput :=
  { path, content := some (.text "x"), language := some language }

def rule (id : String) (languages : List Language) (patterns : List Clause) : Rule :=
  { id, languages, severity := .error, message := "an A", patterns }

/-- Finds the node in files of some languages. -/
def finder (id : String) (languages : List Language) : Rule := rule id languages [.structural "(A)" none none]

def finds : Rule := finder "finds" [.typescript]

def misses : Rule := rule "misses" [.typescript] [.structural "(B)" none none]

/-- Cannot be evaluated. -/
def fails : Rule := rule "fails" [.typescript] [.other "guard"]

end OneNode

open OneNode in
/-- Next to a rule that fails, a rule finds what it finds alone. -/
theorem FileUnit.run_isolated_finds :
    (∃ world', (run (file "a.ts" .typescript) [finds] {} tools world').1 =
        (run (file "a.ts" .typescript) [fails, finds] {} tools (.still 0)).1.only "finds") ∧
      ∃ e, ((run (file "a.ts" .typescript) [fails, finds] {} tools (.still 0)).1.only "finds").evaluations = [e] := by
  have hids : ([fails, finds].map (·.id)).Nodup := by decide
  have hone : (hashed (file "a.ts" .typescript) [fails, finds] {} tools).length = 1 := by decide +kernel
  have hdigest : Sha256.CollisionFree {s | s ∈ hashed (file "a.ts" .typescript) [fails, finds] {} tools} := by
    obtain ⟨s, hs⟩ := List.length_eq_one_iff.mp hone
    intro x hx y hy _
    rw [hs] at hx hy
    exact (List.mem_singleton.mp hx).trans (List.mem_singleton.mp hy).symm
  have hrun : (run (file "a.ts" .typescript) [fails, finds] {} tools (.still 0)).1.cancellation = none := by
    decide +kernel
  have hlanguage : languageOf? (file "a.ts" .typescript) tools = some .typescript := rfl
  have hisolated := run_isolated (r := finds) hids (by simp) hlanguage (by decide) hdigest hrun
  exact ⟨hisolated.1, hisolated.2.2.1 (by decide +kernel)⟩

end RuleScan
