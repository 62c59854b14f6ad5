import Mathlib.Data.List.Nodup
import RuleScan.Proofs.Query.Parsing
import RuleScan.Proofs.Rule.Fingerprints

/-! One collector over the calls for one file. Over spans of one text, fingerprints tell findings apart
exactly by rule id and offsets, so the violations that the calls return are those of the first finding of
each rule and place, as long as every finding can be turned into a violation. -/
namespace RuleScan

section FirstOfEach

variable {α κ : Type} [DecidableEq κ] {key : α → κ}

def firstOfEach (key : α → κ) (xs : List α) : List α := xs.eraseDupsBy fun a b => key a = key b

theorem firstOfEach_filter (p : κ → Bool) (xs : List α) :
    firstOfEach key (xs.filter fun x => p (key x)) = (firstOfEach key xs).filter fun x => p (key x) := by
  match xs with
  | [] => rfl
  | x :: xs =>
    have ih := firstOfEach_filter p (xs.filter fun y => decide (key y = key x) = false)
    unfold firstOfEach at ih ⊢
    rw [List.eraseDupsBy_cons, List.filter_cons, List.filter_cons, ← ih, List.filter_filter]
    split
    · rw [List.eraseDupsBy_cons, List.filter_filter]
      simp only [Bool.and_comm]
    · next hx =>
      congr 1
      refine List.filter_congr fun y _ => ?_
      by_cases hy : key y = key x <;> simp_all
termination_by xs.length
decreasing_by exact Nat.lt_succ_of_le (List.length_filter_le _ _)

@[simp] theorem firstOfEach_nil : firstOfEach key [] = [] := rfl

theorem firstOfEach_cons (x : α) (xs : List α) :
    firstOfEach key (x :: xs) = x :: (firstOfEach key xs).filter fun y => key y ≠ key x := by
  rw [← firstOfEach_filter fun k => k ≠ key x]
  simp [firstOfEach, List.eraseDupsBy_cons]

theorem firstOfEach_append (xs ys : List α) :
    firstOfEach key (xs ++ ys) =
      firstOfEach key xs ++ (firstOfEach key ys).filter fun y => key y ∉ xs.map key := by
  induction xs with
  | nil =>
    rw [List.filter_eq_self.mpr fun y _ => by simp]
    rfl
  | cons x xs ih =>
    simp only [List.cons_append, firstOfEach_cons, ih, List.filter_append, List.filter_filter, List.map_cons,
      List.mem_cons, not_or, Bool.decide_and]

theorem firstOfEach_sublist (xs : List α) : (firstOfEach key xs).Sublist xs := by
  induction xs with
  | nil => exact List.Sublist.refl []
  | cons x xs ih =>
    rw [firstOfEach_cons]
    exact (List.filter_sublist.trans ih).cons_cons x

theorem mem_of_mem_firstOfEach {x : α} {xs : List α} (h : x ∈ firstOfEach key xs) : x ∈ xs :=
  (firstOfEach_sublist xs).subset h

theorem nodup_map_firstOfEach (xs : List α) : ((firstOfEach key xs).map key).Nodup := by
  induction xs with
  | nil => exact List.nodup_nil
  | cons x xs ih =>
    rw [firstOfEach_cons, List.map_cons, List.nodup_cons]
    refine ⟨?_, ih.sublist (List.filter_sublist.map key)⟩
    simp

theorem mem_map_firstOfEach {k : κ} {xs : List α} : k ∈ (firstOfEach key xs).map key ↔ k ∈ xs.map key := by
  induction xs with
  | nil => rfl
  | cons x xs ih =>
    rw [firstOfEach_cons, List.map_cons, List.map_cons, List.mem_cons, List.mem_cons, ← ih]
    by_cases hk : k = key x
    · simp [hk]
    · simp only [hk, false_or, List.mem_map, List.mem_filter, decide_eq_true_eq]
      exact ⟨fun ⟨y, hy, hyk⟩ => ⟨y, hy.1, hyk⟩, fun ⟨y, hy, hyk⟩ => ⟨y, ⟨hy, hyk ▸ hk⟩, hyk⟩⟩

theorem firstOfEach_eq_self {xs : List α} (h : (xs.map key).Nodup) : firstOfEach key xs = xs := by
  induction xs with
  | nil => rfl
  | cons x xs ih =>
    obtain ⟨hx, hxs⟩ := List.nodup_cons.mp h
    rw [firstOfEach_cons, ih hxs, List.filter_eq_self.mpr]
    intro y hy
    have hne : key y ≠ key x := fun he => hx (he ▸ List.mem_map_of_mem hy)
    simpa using hne

theorem firstOfEach_concat (xs : List α) (x : α) :
    firstOfEach key (xs ++ [x]) =
      if key x ∈ xs.map key then firstOfEach key xs else firstOfEach key xs ++ [x] := by
  rw [firstOfEach_append, firstOfEach_cons, firstOfEach_nil]
  split <;> simp_all

theorem firstOfEach_map {β : Type} (f : β → α) (xs : List β) :
    firstOfEach key (xs.map f) = (firstOfEach (fun x => key (f x)) xs).map f := by
  induction xs with
  | nil => rfl
  | cons x xs ih =>
    rw [List.map_cons, firstOfEach_cons, firstOfEach_cons, List.map_cons, ih, List.filter_map]
    rfl

/-- The firsts of several lists together are the firsts among the firsts of each. -/
theorem firstOfEach_flatMap {β : Type} (f : β → List α) (xs : List β) :
    firstOfEach key (xs.flatMap fun x => firstOfEach key (f x)) = firstOfEach key (xs.flatMap f) := by
  induction xs with
  | nil => rfl
  | cons x xs ih =>
    rw [List.flatMap_cons, List.flatMap_cons, firstOfEach_append, firstOfEach_append, ih,
      firstOfEach_eq_self (nodup_map_firstOfEach (f x))]
    simp only [mem_map_firstOfEach]

/-- Keys that tell the same elements apart have the same firsts. -/
theorem firstOfEach_congr {κ' : Type} [DecidableEq κ'] {key' : α → κ'} {xs : List α}
    (h : ∀ x ∈ xs, ∀ y ∈ xs, key x = key y ↔ key' x = key' y) : firstOfEach key xs = firstOfEach key' xs := by
  induction xs with
  | nil => rfl
  | cons x xs ih =>
    have htail := ih fun y hy z hz => h y (List.mem_cons_of_mem x hy) z (List.mem_cons_of_mem x hz)
    rw [firstOfEach_cons, firstOfEach_cons, htail]
    congr 1
    refine List.filter_congr fun y hy => ?_
    have hmem := mem_of_mem_firstOfEach hy
    simp [h y (List.mem_cons_of_mem x hmem) x List.mem_cons_self]

end FirstOfEach

/-- A violation is made of the rule, the file and the place of the match; a fix is rendered for the match. -/
theorem Violation.exists_of_ofMatch {path : String} {language : Language} {content : Units} {rule : Rule} {m : Match}
    {v : Violation} (h : ofMatch path language content rule m = .ok v) :
    ∃ message fix, (∀ f ∈ fix, ∃ template : FixTemplate, template.render m content = .ok (some f)) ∧
      v =
        { ruleId := rule.id, file := path, language, severity := rule.severity, category := rule.category, message
          location := .ofSpan m.span, fix
          fingerprint := fingerprintOf rule.id path (.ofSpan m.span)
            (content.slice m.span.start m.span.stop).toText } := by
  unfold ofMatch at h
  obtain ⟨message, -, h⟩ := Query.bind_eq_ok.mp h
  dsimp only at h
  split at h
  · cases h
    exact ⟨message, none, nofun, rfl⟩
  · next template _ =>
    obtain ⟨fix, hfix, h⟩ := Query.bind_eq_ok.mp h
    cases h
    refine ⟨message, fix, ?_, rfl⟩
    rintro f rfl
    exact ⟨template, hfix⟩

structure Finding where
  rule : Rule
  found : Match

namespace Finding

def key (f : Finding) : String × Nat × Nat := (f.rule.id, f.found.span.start, f.found.span.stop)

/-- The text that is hashed for a finding in a file. -/
def identity (path : String) (content : Units) (f : Finding) : String :=
  Violation.identity f.rule.id path (.ofSpan f.found.span)
    (content.slice f.found.span.start f.found.span.stop).toText

def fingerprint (path : String) (content : Units) (f : Finding) : String := Sha256.hex (f.identity path content)

/-- The violation of a finding in a file, if it can be written down. -/
def violation (path : String) (language : Language) (content : Units) (f : Finding) : Except NoNode Violation :=
  Violation.ofMatch path language content f.rule f.found

/-- The finding can be written down as a violation. -/
def Reportable (path : String) (language : Language) (content : Units) (f : Finding) : Prop :=
  ∃ v, f.violation path language content = .ok v

instance (path : String) (language : Language) (content : Units) (f : Finding) :
    Decidable (f.Reportable path language content) :=
  match h : f.violation path language content with
  | .ok v => isTrue ⟨v, h⟩
  | .error _ => isFalse fun ⟨_, hv⟩ => nomatch h.symm.trans hv

variable {path : String} {language : Language} {content : Units}

theorem fingerprint_of_violation {f : Finding} {v : Violation} (h : f.violation path language content = .ok v) :
    v.fingerprint = f.fingerprint path content := by
  obtain ⟨message, fix, -, rfl⟩ := Violation.exists_of_ofMatch h
  rfl

variable (path content) in
/-- Over spans of one text, the hashed texts of two findings are the same exactly when rule id and offsets
are. -/
theorem identity_eq_iff {lines : LineIndex} {f g : Finding} (hf : f.found.span.Over lines)
    (hg : g.found.span.Over lines) : f.identity path content = g.identity path content ↔ f.key = g.key := by
  constructor
  · intro h
    obtain ⟨hlabel, hplace, -⟩ := Violation.identity_inj h
    have hid := Violation.label_inj_left hlabel
    obtain ⟨hstart, hstop⟩ := (Location.render_ofSpan_eq_iff hf hg).mp hplace
    simp only [key, hid, hstart, hstop]
  · intro h
    obtain ⟨hid, hoffsets⟩ := Prod.mk.inj h
    obtain ⟨hstart, hstop⟩ := Prod.mk.inj hoffsets
    have hplace := (Location.render_ofSpan_eq_iff hf hg).mpr ⟨hstart, hstop⟩
    simp only [identity, Violation.identity, hid, hplace, hstart, hstop]

end Finding

namespace Collector

variable (path : String) (language : Language) (content : Units)

theorem mem_seenIn_mark {c : Collector} {print p : String} :
    p ∈ (c.mark path print).seenIn path ↔ p = print ∨ p ∈ c.seenIn path := by
  simp [seenIn, mark]

/-- From `c` on, exactly the first findings of each new fingerprint gave violations, in order; `c'` has seen
the fingerprints of all of them and counts the others as collapsed. -/
structure Collected (fs : List Finding) (c : Collector) (vs : List Violation) (c' : Collector) : Prop where
  violations : vs.map .ok = ((firstOfEach (·.fingerprint path content) fs).filter
    fun f => f.fingerprint path content ∉ c.seenIn path).map (·.violation path language content)
  seen : ∀ p, p ∈ c'.seenIn path ↔ p ∈ c.seenIn path ∨ p ∈ fs.map (·.fingerprint path content)
  collapsed : c'.collapsed + vs.length = c.collapsed + fs.length

variable {path language content}

theorem Collected.nil (c : Collector) : Collected path language content [] c [] c :=
  ⟨rfl, fun _ => by simp, rfl⟩

theorem Collected.append {fs gs : List Finding} {vs ws : List Violation} {c c' c'' : Collector}
    (h : Collected path language content fs c vs c') (h' : Collected path language content gs c' ws c'') :
    Collected path language content (fs ++ gs) c (vs ++ ws) c'' where
  violations := by
    rw [List.map_append, h.violations, h'.violations, firstOfEach_append, List.filter_append, List.map_append,
      List.filter_filter]
    simp only [h.seen, not_or, Bool.decide_and]
  seen p := by
    rw [h'.seen, h.seen, List.map_append, List.mem_append, or_assoc]
  collapsed := by
    have := h.collapsed
    have := h'.collapsed
    simp only [List.length_append]
    omega

theorem Collected.dropped {f : Finding} {c : Collector} (h : f.fingerprint path content ∈ c.seenIn path) :
    Collected path language content [f] c [] { c with collapsed := c.collapsed + 1 } where
  violations := by
    simp [firstOfEach_cons, h]
  seen p := by
    rw [List.map_singleton, List.mem_singleton]
    exact ⟨.inl, fun hp => hp.elim id fun he => he ▸ h⟩
  collapsed := rfl

theorem Collected.kept {f : Finding} {v : Violation} {c : Collector} (hv : f.violation path language content = .ok v)
    (h : f.fingerprint path content ∉ c.seenIn path) :
    Collected path language content [f] c [v] (c.mark path (f.fingerprint path content)) where
  violations := by
    simp [firstOfEach_cons, h, hv]
  seen p := by
    rw [mem_seenIn_mark, List.map_singleton, List.mem_singleton, or_comm]
  collapsed := rfl

def findings (rule : Rule) (ms : List Match) : List Finding := ms.map (Finding.mk rule)

/-- A call whose matches can all be reported. -/
theorem exists_collect_eq_ok {rule : Rule} {ms : List Match}
    (h : ∀ f ∈ findings rule ms, f.Reportable path language content) (c : Collector) :
    ∃ vs c', collect path language content rule ms c = (.ok vs, c') ∧
      Collected path language content (findings rule ms) c vs c' := by
  induction ms generalizing c with
  | nil => exact ⟨[], c, rfl, .nil c⟩
  | cons m ms ih =>
    obtain ⟨⟨v, hv⟩, hrest⟩ := List.forall_mem_cons.mp h
    have hprint := Finding.fingerprint_of_violation hv
    have hmatch : Violation.ofMatch path language content rule m = .ok v := hv
    rw [collect, hmatch]
    dsimp only
    split
    · next hseen =>
      rw [List.contains_iff_mem, hprint] at hseen
      obtain ⟨vs, c', hcollect, hvs⟩ := ih hrest { c with collapsed := c.collapsed + 1 }
      exact ⟨vs, c', hcollect, (Collected.dropped hseen).append hvs⟩
    · next hseen =>
      rw [List.contains_iff_mem, hprint] at hseen
      obtain ⟨vs, c', hcollect, hvs⟩ := ih hrest (c.mark path v.fingerprint)
      rw [hcollect]
      rw [hprint] at hvs
      exact ⟨v :: vs, c', rfl, (Collected.kept hv hseen).append hvs⟩

/-- A call with a match that cannot be reported returns nothing, and has counted less than its matches. -/
theorem exists_collect_eq_error {rule : Rule} {ms : List Match}
    (h : ¬∀ f ∈ findings rule ms, f.Reportable path language content) (c : Collector) :
    ∃ e c', collect path language content rule ms c = (.error e, c') ∧ c'.collapsed < c.collapsed + ms.length := by
  induction ms generalizing c with
  | nil => exact absurd (fun _ hf => nomatch hf) h
  | cons m ms ih =>
    rw [collect, List.length_cons]
    cases hv : Violation.ofMatch path language content rule m with
    | error e => exact ⟨e, c, rfl, by omega⟩
    | ok v =>
      have hrest : ¬∀ f ∈ findings rule ms, f.Reportable path language content :=
        fun hall => h (List.forall_mem_cons.mpr ⟨⟨v, hv⟩, hall⟩)
      dsimp only
      split
      · obtain ⟨e, c', hcollect, hlt⟩ := ih hrest { c with collapsed := c.collapsed + 1 }
        refine ⟨e, c', hcollect, ?_⟩
        dsimp only at hlt
        omega
      · obtain ⟨e, c', hcollect, hlt⟩ := ih hrest (c.mark path v.fingerprint)
        rw [hcollect]
        refine ⟨e, c', rfl, ?_⟩
        simp only [mark] at hlt
        omega

/-- One collector over several calls for a file: what each call returns, and the collector after them. -/
def collectAll (path : String) (language : Language) (content : Units) :
    List (Rule × List Match) → Collector → List (Except NoNode (List Violation)) × Collector
  | [], c => ([], c)
  | (rule, ms) :: calls, c =>
    let (result, c) := collect path language content rule ms c
    let (results, c) := collectAll path language content calls c
    (result :: results, c)

def allFindings (calls : List (Rule × List Match)) : List Finding :=
  calls.flatMap fun (rule, ms) => findings rule ms

def returned (results : List (Except NoNode (List Violation))) : List Violation :=
  results.flatMap fun r => r.toOption.getD []

/-- If all findings can be reported, the calls act as one. -/
theorem collected_collectAll {calls : List (Rule × List Match)}
    (h : ∀ f ∈ allFindings calls, f.Reportable path language content) (c : Collector) :
    Collected path language content (allFindings calls) c
      (returned (collectAll path language content calls c).1) (collectAll path language content calls c).2 := by
  induction calls generalizing c with
  | nil => exact .nil c
  | cons call calls ih =>
    obtain ⟨rule, ms⟩ := call
    obtain ⟨hfirst, hrest⟩ := List.forall_mem_append.mp h
    obtain ⟨vs, c', hcollect, hvs⟩ := exists_collect_eq_ok hfirst c
    rw [collectAll, hcollect]
    exact hvs.append (ih hrest c')

/-- If a finding cannot be reported, the calls return and count less than there are findings. -/
theorem collapsed_collectAll_lt {calls : List (Rule × List Match)}
    (h : ¬∀ f ∈ allFindings calls, f.Reportable path language content) (c : Collector) :
    (collectAll path language content calls c).2.collapsed +
      (returned (collectAll path language content calls c).1).length < c.collapsed + (allFindings calls).length := by
  induction calls generalizing c with
  | nil => exact absurd (fun _ hf => nomatch hf) h
  | cons call calls ih =>
    obtain ⟨rule, ms⟩ := call
    have hlength : (allFindings ((rule, ms) :: calls)).length = ms.length + (allFindings calls).length := by
      simp [allFindings, findings]
    rw [collectAll, hlength]
    by_cases hfirst : ∀ f ∈ findings rule ms, f.Reportable path language content
    · have hrest : ¬∀ f ∈ allFindings calls, f.Reportable path language content :=
        fun hall => h (List.forall_mem_append.mpr ⟨hfirst, hall⟩)
      obtain ⟨vs, c', hcollect, hvs⟩ := exists_collect_eq_ok hfirst c
      have hcount := hvs.collapsed
      have hlt := ih hrest c'
      simp only [findings, List.length_map] at hcount
      simp only [hcollect, returned, Except.toOption, List.flatMap_cons, Option.getD_some, List.length_append]
      simp only [returned, Except.toOption] at hlt
      omega
    · obtain ⟨e, c', hcollect, hlt⟩ := exists_collect_eq_error hfirst c
      have hle : (collectAll path language content calls c').2.collapsed +
          (returned (collectAll path language content calls c').1).length ≤
            c'.collapsed + (allFindings calls).length := by
        by_cases hrest : ∀ f ∈ allFindings calls, f.Reportable path language content
        · exact (collected_collectAll hrest c').collapsed.le
        · exact (ih hrest c').le
      simp only [hcollect, returned, Except.toOption, List.flatMap_cons, Option.getD_none, List.nil_append]
      simp only [returned, Except.toOption] at hle
      omega

/-- What the calls for one file return. Two findings have the same fingerprint exactly when rule id and
offsets are the same. The calls return, in order, the violations of the first findings of each rule id and
place and count the others exactly when every finding can be reported. -/
theorem collectAll_first_of_each (calls : List (Rule × List Match))
    (hspans : ∀ f ∈ allFindings calls, ∃ start stop, f.found.span = (LineIndex.ofText content).span start stop)
    (hdigest : Sha256.CollisionFree {s | ∃ f ∈ allFindings calls, s = f.identity path content}) :
    (∀ f ∈ allFindings calls, ∀ g ∈ allFindings calls,
      f.fingerprint path content = g.fingerprint path content ↔
        f.rule.id = g.rule.id ∧ f.found.span.start = g.found.span.start ∧ f.found.span.stop = g.found.span.stop) ∧
    ((∀ f ∈ allFindings calls, f.Reportable path language content) ↔
      (returned (collectAll path language content calls {}).1).map .ok =
          (firstOfEach Finding.key (allFindings calls)).map (·.violation path language content) ∧
        (collectAll path language content calls {}).2.collapsed +
          (returned (collectAll path language content calls {}).1).length = (allFindings calls).length) := by
  have hover : ∀ f ∈ allFindings calls, f.found.span.Over (LineIndex.ofText content) := by
    intro f hf
    obtain ⟨start, stop, he⟩ := hspans f hf
    exact he ▸ Span.over_span _ start stop
  have hprint : ∀ f ∈ allFindings calls, ∀ g ∈ allFindings calls,
      f.fingerprint path content = g.fingerprint path content ↔ f.key = g.key := by
    intro f hf g hg
    rw [← Finding.identity_eq_iff path content (hover f hf) (hover g hg)]
    exact ⟨fun h => hdigest ⟨f, hf, rfl⟩ ⟨g, hg, rfl⟩ h, fun h => congrArg Sha256.hex h⟩
  refine ⟨?_, ?_, ?_⟩
  · intro f hf g hg
    simpa only [Finding.key, Prod.mk.injEq] using hprint f hf g hg
  · intro hall
    have hvs := collected_collectAll hall {}
    refine ⟨?_, by simpa using hvs.collapsed⟩
    rw [hvs.violations, firstOfEach_congr hprint, List.filter_eq_self.mpr fun f _ => by simp [seenIn]]
  · rintro ⟨-, hcount⟩
    by_contra hsome
    have hlt := collapsed_collectAll_lt hsome {}
    simp only [Nat.zero_add] at hlt
    omega

end Collector

/-! Two places of a text of one line, and calls for them. -/

namespace TwoPlaces

def content : Units := Units.ofString "xy"

def lines : LineIndex := .ofText content

def node (start stop : Nat) : Node :=
  { kind := "A", named := true, field := none, span := lines.span start stop, children := []
    text := some (content.slice start stop), hasError := false }

def place (start stop : Nat) (bindings : Bindings) : Match :=
  ⟨lines.span start stop, node start stop, bindings, none⟩

def rule (id message : String) : Rule :=
  { id, languages := [.typescript], severity := .error, message, patterns := [] }

/-- Each place twice for a rule of its own, and the first once more. -/
def calls : List (Rule × List Match) :=
  [(rule "one" "an A", [place 0 1 [], place 0 1 []]), (rule "two" "an A", [place 1 2 [], place 1 2 []]),
    (rule "one" "an A", [place 0 1 []])]

/-- Both places for a rule whose message names a capture that only the first binds, and again for another
rule of the same id. -/
def failing : List (Rule × List Match) :=
  [(rule "maybe" "\x7b\x7bconstructor\x7d\x7d", [place 0 1 [("constructor", node 0 1)], place 1 2 []]),
    (rule "maybe" "an A", [place 0 1 [], place 1 2 []])]

end TwoPlaces

open Collector TwoPlaces in
theorem Collector.collectAll_two_places :
    (returned (collectAll "a.ts" .typescript content calls {}).1).map .ok =
        [Violation.ofMatch "a.ts" .typescript content (rule "one" "an A") (place 0 1 []),
          Violation.ofMatch "a.ts" .typescript content (rule "two" "an A") (place 1 2 [])] ∧
      (collectAll "a.ts" .typescript content calls {}).2.collapsed +
        (returned (collectAll "a.ts" .typescript content calls {}).1).length = 5 := by
  have hfirsts : firstOfEach Finding.key (allFindings calls) =
      [⟨rule "one" "an A", place 0 1 []⟩, ⟨rule "two" "an A", place 1 2 []⟩] := by
    simp [allFindings, findings, calls, firstOfEach_cons, Finding.key, rule]
  have hcases : ∀ f ∈ allFindings calls, f ∈ firstOfEach Finding.key (allFindings calls) := by
    rw [hfirsts]
    simp [allFindings, findings, calls]
  have hspans : ∀ f ∈ allFindings calls, ∃ start stop, f.found.span = (LineIndex.ofText content).span start stop := by
    intro f hf
    specialize hcases f hf
    rw [hfirsts, List.mem_pair] at hcases
    rcases hcases with rfl | rfl
    · exact ⟨_, _, rfl⟩
    · exact ⟨_, _, rfl⟩
  have hhashed : (((firstOfEach Finding.key (allFindings calls)).map (·.identity "a.ts" content)).map
      Sha256.hex).Nodup := by
    decide +kernel
  have hdigest : Sha256.CollisionFree {s | ∃ f ∈ allFindings calls, s = f.identity "a.ts" content} := by
    rintro s ⟨f, hf, rfl⟩ t ⟨g, hg, rfl⟩ h
    exact List.inj_on_of_nodup_map hhashed (List.mem_map_of_mem (hcases f hf)) (List.mem_map_of_mem (hcases g hg)) h
  have hall : ∀ f ∈ allFindings calls, f.Reportable "a.ts" .typescript content := by
    decide
  have hclaim := (collectAll_first_of_each calls hspans hdigest).2.mp hall
  rwa [hfirsts] at hclaim

/-- The first call cannot report its second match and returns nothing, so less is returned and counted than
was found. -/
theorem Collector.collectAll_failing_loses :
    ¬((returned (collectAll "a.ts" .typescript TwoPlaces.content TwoPlaces.failing {}).1).map .ok =
        (firstOfEach Finding.key (allFindings TwoPlaces.failing)).map
          (·.violation "a.ts" .typescript TwoPlaces.content) ∧
      (collectAll "a.ts" .typescript TwoPlaces.content TwoPlaces.failing {}).2.collapsed +
        (returned (collectAll "a.ts" .typescript TwoPlaces.content TwoPlaces.failing {}).1).length =
          (allFindings TwoPlaces.failing).length) := by
  have hsome : ¬∀ f ∈ allFindings TwoPlaces.failing, f.Reportable "a.ts" .typescript TwoPlaces.content := by
    decide
  rintro ⟨-, hcount⟩
  have hlt := collapsed_collectAll_lt hsome {}
  simp only [Nat.zero_add] at hlt
  omega

end RuleScan
