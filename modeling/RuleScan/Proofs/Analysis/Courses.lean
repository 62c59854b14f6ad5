import RuleScan.Proofs.Analysis.Schedules
import RuleScan.Proofs.Analysis.Stops

/-! Runs and what they are told. A run is cancelled for the first reason that it records, and that reason has
come up: files that stop later because the run is cancelled do not change it. -/
namespace RuleScan

namespace AnalysisRun

/-- A run in the midst of its files, with the reasons to stop that have come up outside, and those recorded. -/
structure Course where
  stage : Stage
  arisen : List CancelReason := []
  recorded : List CancelReason := []

namespace Course

section Steps

variable (rules : List Rule) (settings : UnitSettings) (tools : UnitTools)

/-- What can happen in a run that takes its files in one process. A reason to stop comes up at any time. A file
sees a stop asked for only if one came up or the run is cancelled; what it stops for is recorded when it ends.
The run itself records what has come up, before a file or as it comes up. -/
inductive Step : Course → Course → Prop
  | arise {g : Course} (reason : CancelReason) : Step g { g with arisen := g.arisen ++ [reason] }
  | complete {g : Course} {t : PoolTask SourceInput} (running : t ∈ g.stage.pool.active) (world : Surroundings)
      (seen : ∀ reason, (FileUnit.run t.input rules settings tools world).2.2.Shows settings.runDeadline reason →
        reason ∈ g.arisen ∨ reason = .aborted ∧ g.stage.cancellation.isSome) :
      Step g
        { g with
          stage :=
            ⟨g.stage.pool.settle t.sequence (.completed (FileUnit.run t.input rules settings tools world).1),
              g.stage.cancellation.or (FileUnit.run t.input rules settings tools world).1.cancellation⟩
          recorded := g.recorded ++ (FileUnit.run t.input rules settings tools world).1.cancellation.toList }
  | leave {g : Course} {t : PoolTask SourceInput} (running : t ∈ g.stage.pool.active)
      (cancelled : g.stage.cancellation.isSome) :
      Step g
        { g with
          stage := ⟨g.stage.pool.settle t.sequence (.completed { path := t.input.path }), g.stage.cancellation⟩ }
  | record {g : Course} {reason : CancelReason} (arisen : reason ∈ g.arisen) :
      Step g
        { g with
          stage := ⟨g.stage.pool, g.stage.cancellation.or (some reason)⟩
          recorded := g.recorded ++ [reason] }
  | abort {g : Course} (arisen : .aborted ∈ g.arisen) :
      Step g
        { g with
          stage := ⟨g.stage.pool.cancelPending, g.stage.cancellation.or (some .aborted)⟩
          recorded := g.recorded ++ [.aborted] }

/-- The run is cancelled for the first reason that it has recorded, which has come up. -/
structure Truthful (g : Course) : Prop where
  first : g.stage.cancellation = g.recorded.head?
  arisen : ∀ reason ∈ g.stage.cancellation, reason ∈ g.arisen

variable {rules settings tools} {g g' : Course}

theorem Truthful.record (h : g.Truthful) (reason : Option CancelReason) {pool : TaskPool SourceInput UnitResult}
    (harisen : ∀ r ∈ reason, r ∈ g.arisen ∨ g.stage.cancellation.isSome) :
    Truthful
      { g with
        stage := ⟨pool, g.stage.cancellation.or reason⟩
        recorded := g.recorded ++ reason.toList } where
  first := by
    rw [List.head?_append, ← h.first, Option.head?_toList]
  arisen r hr := by
    cases hc : g.stage.cancellation with
    | none =>
      rw [hc] at hr
      refine (harisen r hr).resolve_right ?_
      simp [hc]
    | some first =>
      rw [hc] at hr
      exact h.arisen r (hc ▸ hr)

theorem Step.truthful (hstep : Step rules settings tools g g') (h : g.Truthful) : g'.Truthful := by
  cases hstep with
  | arise reason => exact ⟨h.first, fun r hr => List.mem_append_left _ (h.arisen r hr)⟩
  | complete running world seen =>
    refine h.record _ fun r hr => ?_
    exact (seen r (FileUnit.shows_run hr)).imp_right And.right
  | leave running cancelled => exact ⟨h.first, h.arisen⟩
  | record arisen =>
    refine h.record (some _) ?_
    rintro r ⟨⟩
    exact .inl arisen
  | abort arisen =>
    refine h.record (some .aborted) ?_
    rintro r ⟨⟩
    exact .inl arisen

theorem truthful_of_reach (hreach : Relation.ReflTransGen (Step rules settings tools) g g') (h : g.Truthful) :
    g'.Truthful := by
  induction hreach with
  | refl => exact h
  | tail _ hstep ih => exact hstep.truthful ih

/-- Without what it is told, a course is a run. -/
theorem Step.stage (hstep : Step rules settings tools g g') :
    Relation.ReflTransGen (AnalysisRun.Step .inProcess rules settings tools) g.stage g'.stage := by
  cases hstep with
  | arise reason => exact .refl
  | complete running world seen => exact .single (.complete running (.once rules world))
  | leave running cancelled => exact .single (.leave running cancelled)
  | record arisen => exact .single (.cancel _)
  | abort arisen => exact .single .abort

theorem reach_stage (hreach : Relation.ReflTransGen (Step rules settings tools) g g') :
    Relation.ReflTransGen (AnalysisRun.Step .inProcess rules settings tools) g.stage g'.stage := by
  induction hreach with
  | refl => exact .refl
  | tail _ hstep ih => exact ih.trans hstep.stage

variable (rules settings tools g) in
theorem exists_arisen :
    ∃ g', Relation.ReflTransGen (Step rules settings tools) g g' ∧ g'.stage = g.stage ∧
      ∀ reason, reason ∈ g'.arisen := by
  refine ⟨_, .tail (.single (.arise .aborted)) (.arise .budgetExceeded), rfl, ?_⟩
  rintro (_ | _) <;> simp

variable (rules settings tools) in
/-- The run that takes one file after another is such a course. -/
theorem follows_step : Follows (Step rules settings tools) stage rules settings tools where
  cancel {g _ _ reason} _ := by
    obtain ⟨g₁, hreach, hstage, harisen⟩ := exists_arisen rules settings tools g
    refine ⟨_, hreach.tail (.record (harisen reason)), ?_⟩
    rw [hstage]
  leave running cancelled := ⟨_, .single (.leave running cancelled), rfl⟩
  complete {g t} running world := by
    obtain ⟨g₁, hreach, hstage, harisen⟩ := exists_arisen rules settings tools g
    refine ⟨_, hreach.tail (.complete (hstage ▸ running) world fun reason _ => .inl (harisen reason)), ?_⟩
    rw [hstage]

end Steps

end Course

end AnalysisRun

end RuleScan
