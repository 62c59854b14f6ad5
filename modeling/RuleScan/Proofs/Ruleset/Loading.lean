import Mathlib.Data.List.Induction
import Mathlib.Data.List.Perm.Basic
import RuleScan.Proofs.Rule.Deduplication
import RuleScan.Proofs.Text.Order
import RuleScan.Ruleset.Loading

/-! Loading loses no rule and invents none. Ids are told apart three times, within a document, within a
directory and between sources; together this keeps the first valid entry of each id, and every entry and
every document that gives no rule is reported once. -/
namespace RuleScan

/-- What a failure is about: a source or, with an index, an entry of it. -/
def LoadFailure.place (f : LoadFailure) : String × Option Nat := (f.source, f.position)

def Origin.place (o : Origin) : String × Option Nat := (o.source, some o.position)

structure RuleEntry where
  origin : Origin
  value : Value

namespace RuleEntry

/-- The validated form of the entry, if it is valid. -/
def rule? (e : RuleEntry) : Option Rule := (Validation.checkRule (some e.value)).rule

def declared? (e : RuleEntry) : Option (Rule × Origin) := e.rule?.map (·, e.origin)

/-- Whether an entry with these before it is the first valid one of its id. -/
def isFirst (before : List RuleEntry) (e : RuleEntry) : Bool :=
  match e.rule? with
  | none => false
  | some rule => (before.filterMap rule?).all (·.id ≠ rule.id)

def firsts (entries : List RuleEntry) : List RuleEntry :=
  (entries.zipIdx.filter fun (e, n) => isFirst (entries.take n) e).map (·.1)

/-- The entries that are not valid or not the first of their id. -/
def others (entries : List RuleEntry) : List RuleEntry :=
  (entries.zipIdx.filter fun (e, n) => !isFirst (entries.take n) e).map (·.1)

theorem perm_firsts_others (entries : List RuleEntry) : (firsts entries ++ others entries).Perm entries := by
  have hperm := (List.filter_append_perm (fun (e, n) => isFirst (entries.take n) e) entries.zipIdx).map Prod.fst
  rwa [List.map_append, List.zipIdx_map_fst] at hperm

theorem firsts_concat (entries : List RuleEntry) (e : RuleEntry) :
    firsts (entries ++ [e]) = firsts entries ++ if isFirst entries e then [e] else [] := by
  have hbefore : ∀ x ∈ entries.zipIdx, isFirst ((entries ++ [e]).take x.2) x.1 = isFirst (entries.take x.2) x.1 := by
    intro x hx
    have hlt := List.snd_lt_of_mem_zipIdx hx
    rw [List.take_append_of_le_length (by omega)]
  unfold firsts
  rw [List.zipIdx_append, List.filter_append, List.map_append, List.filter_congr hbefore]
  simp only [List.zipIdx_singleton, List.filter_singleton, Nat.zero_add, List.take_left]
  cases isFirst entries e <;> rfl

theorem map_fst_declared (entries : List RuleEntry) :
    (entries.filterMap declared?).map (·.1) = entries.filterMap rule? := by
  simp only [List.map_filterMap, declared?, Option.map_map]
  exact List.filterMap_congr fun e _ => Option.map_id'

theorem filterMap_firsts (entries : List RuleEntry) :
    (firsts entries).filterMap declared? = firstOfEach (·.1.id) (entries.filterMap declared?) := by
  induction entries using List.reverseRecOn with
  | nil => rfl
  | append_singleton entries e ih =>
    rw [firsts_concat, List.filterMap_append, List.filterMap_append, ih]
    cases he : e.rule? with
    | none => simp [isFirst, declared?, he]
    | some rule =>
      have hids : (entries.filterMap declared?).map (·.1.id) = (entries.filterMap rule?).map (·.id) := by
        rw [← map_fst_declared, List.map_map]
        rfl
      have hfirst : isFirst entries e = true ↔ rule.id ∉ (entries.filterMap declared?).map (·.1.id) := by
        rw [hids, isFirst, he]
        simp only [List.all_eq_true, decide_eq_true_eq, List.mem_map, not_exists, not_and]
      have hnew : [e].filterMap declared? = [(rule, e.origin)] := by
        simp [declared?, he]
      rw [hnew, firstOfEach_concat]
      by_cases h : isFirst entries e = true
      · rw [if_pos h, if_neg (hfirst.mp h), hnew]
      · rw [if_neg h, if_pos (not_not.mp fun hn => h (hfirst.mpr hn)), List.filterMap_nil, List.append_nil]

theorem exists_rule_of_mem_firsts {entries : List RuleEntry} {e : RuleEntry} (h : e ∈ firsts entries) :
    ∃ rule, e.rule? = some rule := by
  obtain ⟨⟨e', n⟩, he, rfl⟩ := List.mem_map.mp h
  have hfirst := (List.mem_filter.mp he).2
  dsimp only [isFirst] at hfirst ⊢
  cases hrule : e'.rule? with
  | none =>
    rw [hrule] at hfirst
    cases hfirst
  | some rule => exact ⟨rule, rfl⟩

/-- Every first entry is kept, so those kept have their origins. -/
theorem map_place_firsts (entries : List RuleEntry) :
    ((firsts entries).filterMap declared?).map (·.2.place) = (firsts entries).map (·.origin.place) := by
  have hdeclared : ∀ e ∈ firsts entries, e.declared?.map (·.2.place) = some e.origin.place := by
    intro e he
    obtain ⟨rule, hrule⟩ := exists_rule_of_mem_firsts he
    simp [declared?, hrule]
  rw [List.map_filterMap, List.filterMap_congr hdeclared, List.filterMap_eq_map']

end RuleEntry

/-- A document that is to hold a list of rules; it has none if the document cannot be read or decoded or is
of another shape. -/
structure RuleDocument where
  source : String
  list? : Option (List Value)

namespace RuleDocument

def entries (d : RuleDocument) : List RuleEntry :=
  (d.list?.getD []).zipIdx.map fun (value, position) => ⟨⟨d.source, position⟩, value⟩

/-- What has to be accounted for: the entries, or the document as a whole. -/
def places (d : RuleDocument) : List (String × Option Nat) :=
  if d.list?.isSome then d.entries.map (·.origin.place) else [(d.source, none)]

def ruleList? : Value → Option (List Value)
  | .arr items => some items
  | document => (document.get? "rules").bind Value.arr?

def ofFile (disk : Disk) (path : String) : RuleDocument where
  source := path
  list? := do
    let file ← (disk.read path).toOption
    let document ← (Ruleset.decodeText file.content.lossy path file.decoded).toOption
    ruleList? document

def rulesetName? (entry : String × Entry) : Option String :=
  match entry.2 with
  | .file _ => if RulesetSource.isRulesetFile entry.1 then some entry.1 else none
  | _ => none

/-- The documents of the ruleset files of a directory, in order of their names. -/
def ofDirectory (disk : Disk) (path : String) : List RuleDocument :=
  match disk.find "scandir" path with
  | .ok (.directory entries) =>
    ((entries.filterMap rulesetName?).mergeSort Text.le).map fun name => ofFile disk (Path.join path name)
  | _ => [⟨path, none⟩]

/-- The documents of a source, in the order in which they are loaded. -/
def ofSource (reach : Reach) : RulesetSource → List RuleDocument
  | .inline name document => [⟨"inline:" ++ name, document.bind ruleList?⟩]
  | .file path => [ofFile reach.disk (Path.resolve reach.base path)]
  | .directory path => ofDirectory reach.disk (Path.resolve reach.base path)
  | .registry name =>
    [⟨RulesetSource.registryMark ++ name,
      do
        let registry ← reach.registry
        let document ← (registry.fetch reach.network name).toOption
        ruleList? document⟩]

theorem perm_places (documents : List RuleDocument) :
    (documents.flatMap (·.places)).Perm ((documents.flatMap (·.entries)).map (·.origin.place) ++
      (documents.filter (·.list?.isNone)).map fun d => (d.source, none)) := by
  induction documents with
  | nil => exact .nil
  | cons d documents ih =>
    obtain ⟨source, list?⟩ := d
    cases list? with
    | none =>
      exact (ih.cons (source, none)).trans List.perm_middle.symm
    | some items =>
      simp only [List.flatMap_cons, List.map_append, List.append_assoc]
      exact ih.append_left _

end RuleDocument

/-! Within a document. -/

namespace Validation

/-- The rules accepted so far are the first valid ones of each id, and every index is that of an accepted rule or
of a failure. -/
structure RulesCheck.Accounts (acc : RulesCheck) (entries : List (Value × Nat)) : Prop where
  rules : acc.rules = firstOfEach (·.1.id) (entries.filterMap fun (v, i) => (checkRule (some v)).rule.map (·, i))
  positions : (acc.failures.map (·.position) ++ acc.rules.map (·.2)).Perm (entries.map (·.2))

theorem RulesCheck.Accounts.add {acc : RulesCheck} {entries : List (Value × Nat)} (h : acc.Accounts entries)
    (v : Value) (i : Nat) : (acc.add (checkRule (some v)) i).Accounts (entries ++ [(v, i)]) := by
  have hfailure : ∀ f : Failure, f.position = i →
      ((acc.failures ++ [f]).map (·.position) ++ acc.rules.map (·.2)).Perm ((entries ++ [(v, i)]).map (·.2)) := by
    rintro f rfl
    rw [List.map_append, List.map_append, List.append_assoc]
    exact ((List.perm_append_comm).append_left _).trans (by simpa using h.positions.append_right [f.position])
  unfold RulesCheck.add
  split
  · next rule hrule =>
    have hnew : [(v, i)].filterMap (fun (v, i) => (checkRule (some v)).rule.map (·, i)) = [(rule, i)] := by
      simp [hrule]
    have htaken : acc.rules.any (·.1.id == rule.id) = true ↔
        rule.id ∈ (entries.filterMap fun (v, i) => (checkRule (some v)).rule.map (·, i)).map (·.1.id) := by
      rw [← mem_map_firstOfEach, ← h.rules]
      simp [List.any_eq_true]
    split
    · next hany =>
      refine ⟨?_, hfailure _ rfl⟩
      rw [List.filterMap_append, hnew, firstOfEach_concat, if_pos (htaken.mp hany)]
      exact h.rules
    · next hany =>
      constructor
      · rw [List.filterMap_append, hnew, firstOfEach_concat, if_neg (mt htaken.mpr hany), ← h.rules]
      · rw [List.map_append, List.map_append, ← List.append_assoc]
        exact h.positions.append_right _
  · next hrule =>
    refine ⟨?_, hfailure _ rfl⟩
    rw [List.filterMap_append, h.rules]
    simp [hrule]

theorem accounts_checkRules (items : List Value) : (checkRules items).Accounts items.zipIdx := by
  have hfold : ∀ (rest entries : List (Value × Nat)) (acc : RulesCheck), acc.Accounts entries →
      (rest.foldl (fun acc (r, i) => acc.add (checkRule (some r)) i) acc).Accounts (entries ++ rest) := by
    intro rest
    induction rest with
    | nil =>
      intro entries acc h
      rwa [List.append_nil]
    | cons next rest ih =>
      intro entries acc h
      have hrest := ih _ _ (h.add next.1 next.2)
      rwa [List.append_assoc] at hrest
  exact hfold _ [] {} ⟨rfl, .nil⟩

end Validation

/-! Between documents. -/

namespace Ruleset

/-- Of some entries the first of each id were taken over, each id has the source of the first as its owner, and what has
to be accounted for was taken over or reported. -/
structure Merging.Of {α : Type} (idOf : α → String) (entries : List (α × Origin)) (places : List (String × Option Nat))
    (m : Merging α) : Prop where
  rules : m.rules = (firstOfEach (idOf ·.1) entries).map (·.1)
  origins : m.origins = (firstOfEach (idOf ·.1) entries).map (·.2)
  owners : ∀ id, m.owners.lookup id = ((firstOfEach (idOf ·.1) entries).find? (idOf ·.1 == id)).map (·.2.source)
  places : (m.errors.map (·.place) ++ m.origins.map (·.place)).Perm places

namespace Merging

variable {α : Type} {idOf : α → String} {entries : List (α × Origin)} {places : List (String × Option Nat)}
  {m : Merging α}

theorem Of.lookup_eq_none_iff (h : m.Of idOf entries places) (id : String) :
    m.owners.lookup id = none ↔ id ∉ entries.map (idOf ·.1) := by
  rw [h.owners, Option.map_eq_none_iff, List.find?_eq_none, ← mem_map_firstOfEach, List.mem_map]
  simp only [beq_iff_eq, not_exists, not_and]

theorem Of.report (h : m.Of idOf entries places) (errors : List LoadFailure) :
    { m with errors := m.errors ++ errors }.Of idOf entries (places ++ errors.map LoadFailure.place) := by
  refine ⟨h.rules, h.origins, h.owners, ?_⟩
  rw [List.map_append, List.append_assoc]
  exact (List.perm_append_comm.append_left _).trans (by simpa using h.places.append_right _)

theorem Of.add (h : m.Of idOf entries places) (entry : α × Origin) :
    (m.add idOf entry).Of idOf (entries ++ [entry]) (places ++ [entry.2.place]) := by
  unfold Merging.add
  split
  · next owner howner =>
    have htaken : idOf entry.1 ∈ entries.map (idOf ·.1) := by
      by_contra hfree
      rw [(h.lookup_eq_none_iff _).mpr hfree] at howner
      cases howner
    have hreport := h.report [taken (idOf entry.1) owner entry.2]
    have hfirsts : firstOfEach (idOf ·.1) (entries ++ [entry]) = firstOfEach (idOf ·.1) entries := by
      rw [firstOfEach_concat, if_pos htaken]
    exact ⟨hfirsts ▸ hreport.rules, hfirsts ▸ hreport.origins, hfirsts ▸ hreport.owners, hreport.places⟩
  · next hnone =>
    have hfirsts : firstOfEach (idOf ·.1) (entries ++ [entry]) = firstOfEach (idOf ·.1) entries ++ [entry] := by
      rw [firstOfEach_concat, if_neg ((h.lookup_eq_none_iff _).mp hnone)]
    refine ⟨?_, ?_, ?_, ?_⟩
    · rw [hfirsts, List.map_append, ← h.rules]
      rfl
    · rw [hfirsts, List.map_append, ← h.origins]
      rfl
    · intro id
      rw [hfirsts, List.find?_append, List.lookup_cons, h.owners]
      by_cases hid : idOf entry.1 = id
      · subst hid
        rw [h.owners, Option.map_eq_none_iff] at hnone
        simp [hnone]
      · simp [hid, beq_false_of_ne (Ne.symm hid)]
    · rw [List.map_append, ← List.append_assoc]
      exact h.places.append_right _

theorem Of.addEach (h : m.Of idOf entries places) (new : List (α × Origin)) :
    (new.foldl (Merging.add idOf) m).Of idOf (entries ++ new) (places ++ new.map (·.2.place)) := by
  induction new generalizing entries places m with
  | nil => simpa using h
  | cons entry rest ih => simpa using ih (h.add entry)

theorem Of.addPart (h : m.Of idOf entries places) (part : List LoadFailure × List (α × Origin)) :
    (m.addPart idOf part).Of idOf (entries ++ part.2)
      (places ++ (part.1.map LoadFailure.place ++ part.2.map (·.2.place))) := by
  rw [← List.append_assoc]
  exact (h.report part.1).addEach part.2

end Merging

/-- The first entries of each id, and the failures of all else. -/
structure Merged {α : Type} (idOf : α → String) (entries : List (α × Origin)) (places : List (String × Option Nat))
    (acc : List (α × Origin) × List LoadFailure) : Prop where
  kept : acc.1 = firstOfEach (idOf ·.1) entries
  places : (acc.2.map (·.place) ++ acc.1.map (·.2.place)).Perm places

theorem merged_merge {α : Type} (idOf : α → String) (parts : List (List LoadFailure × List (α × Origin))) :
    Merged idOf (parts.flatMap (·.2)) (parts.flatMap fun p => p.1.map (·.place) ++ p.2.map (·.2.place))
      (merge idOf parts) := by
  have hfold : ∀ (rest : List (List LoadFailure × List (α × Origin))) {entries places} {m : Merging α},
      m.Of idOf entries places →
      (rest.foldl (Merging.addPart idOf) m).Of idOf (entries ++ rest.flatMap (·.2))
        (places ++ rest.flatMap fun p => p.1.map (·.place) ++ p.2.map (·.2.place)) := by
    intro rest
    induction rest with
    | nil =>
      intro entries places m h
      simpa using h
    | cons part rest ih =>
      intro entries places m h
      simpa using ih (h.addPart part)
  have hnone : ({} : Merging α).Of idOf [] [] := ⟨rfl, rfl, fun _ => rfl, .nil⟩
  obtain ⟨hrules, horigins, -, hplaces⟩ := hfold parts hnone
  rw [List.nil_append] at hrules horigins hplaces
  -- beside each rule stands the origin of the same entry
  have hkept : (merge idOf parts).1 = firstOfEach (idOf ·.1) (parts.flatMap (·.2)) := by
    rw [merge, hrules, horigins, List.zip_map']
    exact List.map_id' _
  refine ⟨hkept, ?_⟩
  rw [hkept]
  rw [horigins, List.map_map] at hplaces
  exact hplaces

/-- These are the first valid entries of each id in some documents, and the failures of all else. -/
abbrev Settled (documents : List RuleDocument) (acc : List (Rule × Origin) × List LoadFailure) : Prop :=
  Merged Rule.id ((documents.flatMap (·.entries)).filterMap (·.declared?)) (documents.flatMap (·.places)) acc

theorem settled_mergeAll {ι : Type} {documents : ι → List RuleDocument} {set : ι → Ruleset}
    (h : ∀ x, Settled (documents x) ((set x).rules, (set x).errors)) (xs : List ι) :
    Settled (xs.flatMap documents) (mergeAll (xs.map set)) := by
  obtain ⟨hkept, hplaces⟩ := merged_merge Rule.id ((xs.map set).map fun s => (s.errors, s.rules))
  constructor
  · have hsets : ∀ x, (set x).rules = _ := fun x => (h x).kept
    rw [mergeAll, hkept, List.flatMap_map, List.flatMap_map, List.flatMap_assoc, List.filterMap_flatMap]
    simp only [hsets, firstOfEach_flatMap]
  · refine hplaces.trans ?_
    rw [List.flatMap_map, List.flatMap_map, List.flatMap_assoc]
    exact List.Perm.flatMap_left xs fun x _ => (h x).places

/-! From sources. -/

theorem settled_failed (source name code message : String) :
    Settled [⟨source, none⟩] ((failed source name code message).rules, (failed source name code message).errors) :=
  ⟨rfl, .refl _⟩

theorem settled_list (source : String) (items : List Value) :
    Settled [⟨source, some items⟩]
      ((Validation.checkRules items).rules.map fun (rule, position) => (rule, ⟨source, position⟩),
        (Validation.checkRules items).failures.map (ofFailure source)) := by
  obtain ⟨hrules, hpositions⟩ := Validation.accounts_checkRules items
  have hentries : [(⟨source, some items⟩ : RuleDocument)].flatMap (·.entries) =
      items.zipIdx.map fun (value, position) => ⟨⟨source, position⟩, value⟩ := by
    simp [RuleDocument.entries]
  constructor
  · have hdeclared : (items.zipIdx.map fun (value, position) => (⟨⟨source, position⟩, value⟩ : RuleEntry)).filterMap
        (·.declared?) =
        (items.zipIdx.filterMap fun (v, i) => (Validation.checkRule (some v)).rule.map (·, i)).map
          fun (rule, position) => (rule, ⟨source, position⟩) := by
      simp only [List.filterMap_map, List.map_filterMap, Option.map_map]
      rfl
    rw [hentries, hdeclared, firstOfEach_map, hrules]
  · have hplaces := hpositions.map fun position => (source, some position)
    simp only [List.map_append, List.map_map] at hplaces
    simp only [RuleDocument.places, RuleDocument.entries, List.map_map, List.flatMap_singleton]
    exact hplaces

theorem settled_ofDocument (source fallback : String) (document : Option Value) :
    Settled [⟨source, document.bind RuleDocument.ruleList?⟩]
      ((ofDocument source fallback document).rules, (ofDocument source fallback document).errors) := by
  unfold ofDocument
  match document with
  | none => exact settled_failed _ _ _ _
  | some (.arr items) => exact settled_list source items
  | some (.obj m) =>
    have hlist : (some (Value.obj m)).bind RuleDocument.ruleList? = (Members.get? m "rules").bind Value.arr? := rfl
    rw [hlist]
    dsimp only
    cases Members.get? m "rules" with
    | none => exact settled_failed _ _ _ _
    | some rules =>
      cases rules with
      | arr items => exact settled_list source items
      | _ => exact settled_failed _ _ _ _
  | some .null | some (.bool _) | some (.num _) | some (.str _) => exact settled_failed _ _ _ _

theorem settled_loadFile (disk : Disk) (path : String) :
    Settled [.ofFile disk path] ((loadFile disk path).rules, (loadFile disk path).errors) := by
  unfold loadFile RuleDocument.ofFile
  dsimp only
  cases disk.read path with
  | error e => exact settled_failed _ _ _ _
  | ok file =>
    simp only [Except.toOption, Option.bind_eq_bind, Option.bind_some]
    cases decodeText file.content.lossy path file.decoded with
    | error e => exact settled_failed _ _ _ _
    | ok document => exact settled_ofDocument path _ (some document)

/-- Sorting the entries of a directory sorts the names of its ruleset files. -/
theorem filterMap_mergeSort_entries (entries : List (String × Entry)) :
    (entries.mergeSort fun a b => Text.le a.1 b.1).filterMap RuleDocument.rulesetName? =
      (entries.filterMap RuleDocument.rulesetName?).mergeSort Text.le := by
  have hname : ∀ {e : String × Entry} {name}, RuleDocument.rulesetName? e = some name → e.1 = name := by
    rintro ⟨n, entry⟩ name h
    cases entry with
    | file f =>
      simp only [RuleDocument.rulesetName?, Option.ite_none_right_eq_some] at h
      exact Option.some.inj h.2
    | _ => cases h
  have hsorted : ((entries.mergeSort fun a b => Text.le a.1 b.1).filterMap RuleDocument.rulesetName?).Pairwise
      fun a b => Text.le a b := by
    have hentries : (entries.mergeSort fun a b => Text.le a.1 b.1).Pairwise fun a b => Text.le a.1 b.1 := by
      refine List.pairwise_mergeSort ?_ ?_ entries
      · intro a b c hab hbc
        exact Text.le_trans hab hbc
      · intro a b
        exact Text.le_total a.1 b.1
    rw [List.pairwise_filterMap]
    refine hentries.imp fun hab n hn m hm => ?_
    rwa [← hname hn, ← hname hm]
  have hperm : ((entries.mergeSort fun a b => Text.le a.1 b.1).filterMap RuleDocument.rulesetName?).Perm
      (entries.filterMap RuleDocument.rulesetName?) := (List.mergeSort_perm entries _).filterMap _
  rw [← Text.mergeSort_le_eq_of_perm hperm, List.mergeSort_of_pairwise hsorted]

theorem settled_loadDirectory (disk : Disk) (path : String) :
    Settled (RuleDocument.ofDirectory disk path)
      ((loadDirectory disk path).rules, (loadDirectory disk path).errors) := by
  unfold loadDirectory RuleDocument.ofDirectory Disk.list
  cases disk.find "scandir" path with
  | error e => exact settled_failed _ _ _ _
  | ok entry =>
    cases entry with
    | file _ | link _ | special => exact settled_failed _ _ _ _
    | directory entries =>
      have hmerged := settled_mergeAll (fun name => settled_loadFile disk (Path.join path name))
        ((entries.filterMap RuleDocument.rulesetName?).mergeSort Text.le)
      rw [← filterMap_mergeSort_entries, ← List.map_eq_flatMap] at hmerged
      dsimp only
      rw [← filterMap_mergeSort_entries]
      exact hmerged

theorem settled_loadNamed (reach : Reach) (name : String) :
    Settled (RuleDocument.ofSource reach (.registry name))
      ((loadNamed reach name).1.rules, (loadNamed reach name).1.errors) := by
  unfold loadNamed RuleDocument.ofSource
  dsimp only
  cases reach.registry with
  | none => exact settled_failed _ _ _ _
  | some registry =>
    simp only [Option.bind_eq_bind, Option.bind_some]
    cases registry.fetch reach.network name with
    | error e => exact settled_failed _ _ _ _
    | ok document => exact settled_ofDocument _ _ (some document)

theorem settled_load (reach : Reach) (source : RulesetSource) :
    Settled (RuleDocument.ofSource reach source) ((load reach source).1.rules, (load reach source).1.errors) := by
  cases source with
  | inline name document => exact settled_ofDocument _ name document
  | file path => exact settled_loadFile reach.disk _
  | directory path => exact settled_loadDirectory reach.disk _
  | registry name => exact settled_loadNamed reach name

end Ruleset

/-- Loading loses no rule and invents none. The entries of all documents that have a list of rules, in order of
sources, names of files and indices, give the rules: those of the first valid entry of each id, so no id is
there twice. The failures are one for each other entry, with its source and index, and one without an index
for each document that has no list. -/
theorem LoadedRules.load_first_valid (reach : Reach) (sources : List RulesetSource) :
    let documents := sources.flatMap (RuleDocument.ofSource reach)
    let entries := documents.flatMap (·.entries)
    let loaded := LoadedRules.load reach sources
    loaded.rules = (RuleEntry.firsts entries).filterMap (·.rule?) ∧ (loaded.rules.map (·.id)).Nodup ∧
      (loaded.errors.map (·.place)).Perm
        ((RuleEntry.others entries).map (·.origin.place) ++
          (documents.filter (·.list?.isNone)).map fun d => (d.source, none)) := by
  intro documents entries loaded
  have hsets : (sources.map fun s => (s, Ruleset.load reach s)).map (·.2.1) =
      sources.map fun s => (Ruleset.load reach s).1 := List.map_map
  obtain ⟨hkept, hplaces⟩ := Ruleset.settled_mergeAll (Ruleset.settled_load reach) sources
  rw [← hsets] at hkept hplaces
  rw [← RuleEntry.filterMap_firsts] at hkept
  have hrules : loaded.rules = (RuleEntry.firsts entries).filterMap (·.rule?) := by
    rw [← RuleEntry.map_fst_declared, ← hkept]
    rfl
  refine ⟨hrules, ?_, ?_⟩
  · rw [hrules, ← RuleEntry.map_fst_declared, RuleEntry.filterMap_firsts, List.map_map]
    exact nodup_map_firstOfEach _
  · rw [hkept, RuleEntry.map_place_firsts] at hplaces
    have hentries := (RuleEntry.perm_firsts_others entries).symm.map (·.origin.place)
    rw [List.map_append] at hentries
    have hall := hplaces.trans ((RuleDocument.perm_places documents).trans (hentries.append_right _))
    rw [List.append_assoc] at hall
    exact (List.perm_append_left_iff _).mp (List.perm_append_comm.trans hall)

end RuleScan
