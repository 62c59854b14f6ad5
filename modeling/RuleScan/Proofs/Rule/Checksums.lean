import RuleScan.Proofs.Rule.Unread

/-! Checksums of rules. The checksum is the digest of the canonical text of the normalized patterns, and this text
tells accepted patterns apart. So a checksum stays with its patterns, however a rule is written down, and fits no
others. -/
namespace RuleScan

namespace Value

/-- No object in the value has a key twice, and there is no number in it. -/
def Wordy (v : Value) : Prop := v.DistinctKeys ∧ ∀ x, ¬Within (.num x) v

namespace Wordy

theorem str (s : String) : Wordy (.str s) := ⟨nofun, nofun⟩

theorem arr {items : List Value} (h : ∀ v ∈ items, Wordy v) : Wordy (.arr items) := by
  refine ⟨distinctKeys_arr.mpr fun v hv => (h v hv).1, ?_⟩
  rintro x (_ | ⟨hmem, hx⟩)
  exact (h _ hmem).2 x hx

theorem obj {ms : Members} (hkeys : ms.keys.Nodup) (h : ∀ p ∈ ms, Wordy p.2) : Wordy (.obj ms) := by
  refine ⟨distinctKeys_obj.mpr ⟨hkeys, fun p hp => (h p hp).1⟩, ?_⟩
  rintro x (_ | _ | ⟨hmem, hx⟩)
  exact (h _ hmem).2 x hx

theorem object {pairs : List (String × Value)} (h : ∀ p ∈ pairs, Wordy p.2) : Wordy (object pairs) :=
  obj (Members.nodup_keys_ofPairs pairs) fun p hp => h p (mem_of_mem_ofPairs hp)

theorem record {pairs : List (String × Option Value)} (h : ∀ p ∈ pairs, ∀ v ∈ p.2, Wordy v) :
    Wordy (record pairs) := by
  refine object fun p hp => ?_
  obtain ⟨q, hq, hmap⟩ := List.mem_filterMap.mp hp
  obtain ⟨v, hv, rfl⟩ := Option.map_eq_some_iff.mp hmap
  exact h q hq v hv

theorem printedApart {v w : Value} (hv : Wordy v) (hw : Wordy w) : PrintedApart (v.numbers ∪ w.numbers) := by
  have hnone : ∀ x ∈ v.numbers ∪ w.numbers, False := fun x hx => hx.elim (hv.2 x) (hw.2 x)
  exact ⟨fun x hx => (hnone x hx).elim, fun x hx => (hnone x hx).elim⟩

theorem strings (xs : List String) : Wordy (strings xs) := by
  refine arr fun v hv => ?_
  obtain ⟨s, -, rfl⟩ := List.mem_map.mp hv
  exact str s

end Wordy

end Value

theorem Constraint.wordy_toValue (c : Constraint) : c.toValue.Wordy := by
  refine .record ?_
  simp [optionalText, Value.Wordy.str, Value.Wordy.strings]

theorem wordy_constraintsValue (cs : Option (List Constraint)) : ∀ v ∈ constraintsValue cs, v.Wordy := by
  intro v hv
  obtain ⟨cs, -, rfl⟩ := Option.map_eq_some_iff.mp hv
  refine .arr fun w hw => ?_
  obtain ⟨c, -, rfl⟩ := List.mem_map.mp hw
  exact c.wordy_toValue

namespace Clause

mutual

theorem wordy_toValue : ∀ c : Clause, c.toValue.Wordy
  | .structural query focus constraints => by
    refine .record ?_
    simpa [optionalText, Value.Wordy.str] using wordy_constraintsValue constraints
  | .textual regex flags constraints => by
    refine .record ?_
    simpa [optionalText, Value.Wordy.str] using wordy_constraintsValue constraints
  | .all clauses => by
    refine .object ?_
    simpa [Value.Wordy.str] using Value.Wordy.arr (wordy_toValues clauses)
  | .any clauses => by
    refine .object ?_
    simpa [Value.Wordy.str] using Value.Wordy.arr (wordy_toValues clauses)
  | .guard kind clause => by
    refine .object ?_
    simpa [Value.Wordy.str] using wordy_toValue clause
  | .shared _ clause => wordy_toValue clause
  | .other type => by
    refine .object ?_
    simp [Value.Wordy.str]

theorem wordy_toValues : ∀ cs : List Clause, ∀ v ∈ toValues cs, v.Wordy
  | [], _, h => absurd h List.not_mem_nil
  | c :: cs, v, h => by
    rw [toValues, List.mem_cons] at h
    rcases h with rfl | h
    · exact wordy_toValue c
    · exact wordy_toValues cs v h

end

def canonicalText (patterns : List Clause) : String := (Value.arr (toValues patterns)).canonical

end Clause

namespace Validation

theorem eq_of_reads {room : Nat} {place : Place} {v : Value} {c c' : Clause} (h : Clause.Reads room place v c)
    (h' : Clause.Reads room place v c') : c = c' := by
  have hdecides := (decides_checkClause room (some v) "" place).gives
  obtain ⟨-, hc⟩ := (hdecides (some c)).mpr ⟨c, rfl, v, rfl, h⟩
  obtain ⟨-, hc'⟩ := (hdecides (some c')).mpr ⟨c', rfl, v, rfl, h'⟩
  exact Option.some.inj (hc.symm.trans hc')

theorem reads_toValue_of_isList {room : Nat} {place : Place} {v : Value} {cs : List Clause}
    (h : v.IsList (Clause.Reads room place) cs) : ∀ c ∈ cs, Clause.Reads room place c.toValue c := by
  obtain ⟨items, -, hitems⟩ := h
  induction hitems with
  | nil => exact nofun
  | cons hread _ ih => exact List.forall_mem_cons.mpr ⟨rereads_clause room place _ _ hread, ih⟩

/-- A clause can be told from what is written for it, whatever the order of members. -/
theorem eq_of_reordered {room : Nat} {place : Place} {c c' : Clause} (h : Clause.Reads room place c.toValue c)
    (h' : Clause.Reads room place c'.toValue c') (hr : Value.Reordered c.toValue c'.toValue) : c = c' :=
  eq_of_reads (keeps_clause room place _ _ c (.of_reordered _ hr c.wordy_toValue.1) h) h'

/-- Accepted patterns can be told from their canonical text. -/
theorem eq_of_canonicalText_eq {room : Nat} {place : Place} {cs cs' : List Clause}
    (h : ∀ c ∈ cs, Clause.Reads room place c.toValue c) (h' : ∀ c ∈ cs', Clause.Reads room place c.toValue c)
    (he : Clause.canonicalText cs = Clause.canonicalText cs') : cs = cs' := by
  have hwordy (cs : List Clause) : (Value.arr (Clause.toValues cs)).Wordy := .arr (Clause.wordy_toValues cs)
  have hapart := (hwordy cs).printedApart (hwordy cs')
  obtain ⟨ws, hws, hall⟩ := ((Value.canonical_eq_iff_reordered (hwordy cs).1 hapart).mp he).arr
  cases hws
  rw [toValues_eq_map, toValues_eq_map, List.forall₂_map_left_iff, List.forall₂_map_right_iff] at hall
  clear he hapart
  induction hall with
  | nil => rfl
  | cons hr _ ih =>
    obtain ⟨hc, hcs⟩ := List.forall_mem_cons.mp h
    obtain ⟨hc', hcs'⟩ := List.forall_mem_cons.mp h'
    rw [eq_of_reordered hc hc' hr, ih hcs hcs']

def mismatch (patterns : List Clause) (given : String) : Issue :=
  { path := "checksum", code := .checksumMismatch, message := "checksum does not match the rule patterns"
    expected := some (Clause.checksum patterns), actual := some (.str given) }

theorem checkChecksum_some (patterns : List Clause) (given : String) :
    checkChecksum patterns (some given) =
      if given.toLower = Clause.checksum patterns then [] else [mismatch patterns given] := rfl

variable {ms : Members} {rule : Rule} {given : String}

def unsealed (ms : Members) : Members := ms.filter (·.1 != "checksum")

/-- What a checksum does to a rule that is accepted without it. -/
theorem checkRule_of_unsealed (hget : ms.get? "checksum" = some (.str given))
    (h : Passes (.obj (unsealed ms)) rule) :
    checkRule (some (.obj ms)) =
      if given.toLower = Clause.checksum rule.patterns then
        { rule := some { rule with checksum := some given }, ruleId := some rule.id, issues := [] }
      else { rule := none, ruleId := some rule.id, issues := [mismatch rule.patterns given] } := by
  have hsame {key : String} (hkey : (key != "checksum") = true) :
      (Value.obj (unsealed ms)).get? key = (Value.obj ms).get? key :=
    (Members.get?_filter (· != "checksum") ms key).trans (if_pos hkey)
  have hoptional {key : String} (hkey : (key != "checksum") = true) :
      checkOptionalText (.obj (unsealed ms)) key = checkOptionalText (.obj ms) key := by
    rw [checkOptionalText, hsame hkey, checkOptionalText]
  have hsum : (checkOptionalText (.obj ms) "checksum").Gives (some given) := by
    simp [checkOptionalText, Value.get?, hget]
  obtain ⟨hid, hlanguages, hseverity, hmessage, hpatterns, htemplate, hfix, htests, htags, hname, hdescription,
    hcategory, -, -⟩ := h
  rw [hsame (by decide)] at hid hlanguages hseverity hmessage hpatterns htemplate hfix htests htags
  rw [hsame (by decide)] at hfix
  rw [hoptional (by decide)] at hname hdescription hcategory
  split
  · next heq =>
    have hpasses : Passes (.obj ms) { rule with checksum := some given } :=
      { id := hid, languages := hlanguages, severity := hseverity, message := hmessage, patterns := hpatterns
        template := htemplate, fix := hfix, tests := htests, tags := htags, name := hname
        description := hdescription, category := hcategory, checksum := hsum
        checksum_eq := (checkChecksum_some _ _).trans (if_pos heq) }
    exact checkRule_of_passes hpasses
  · next hne =>
    have hissues : checkChecksum ((patternChecks ((Value.obj ms).get? "patterns")).filterMap (·.clause))
        (checkOptionalText (.obj ms) "checksum").result = [mismatch rule.patterns given] := by
      rw [hpatterns.2, hsum.2, checkChecksum_some, if_neg hne]
    obtain ⟨htext, -⟩ := text?_eq_some_iff.mp hmessage
    unfold checkRule
    dsimp only [Value.orNull, Option.getD_some]
    rw [if_neg (by simp [Value.isObj])]
    split
    · next hnone _ _ _ =>
      have hsome := (ite_isEmpty_eq_nil_iff.mp hnone).2
      exact absurd (hissues.symm.trans hsome) (List.cons_ne_nil _ _)
    · rw [RuleCheck.mk.injEq]
      refine ⟨rfl, hid, ?_⟩
      rw [if_pos ?_]
      · exact hissues
      · rw [List.isEmpty_iff]
        simp only [List.append_eq_nil_iff]
        refine ⟨⟨⟨⟨⟨⟨⟨⟨⟨⟨⟨⟨?_, hlanguages.1⟩, ?_⟩, ?_⟩, hpatterns.1⟩, ?_⟩, hfix.1⟩, htests.1⟩, htags.1⟩, hname.1⟩,
          hdescription.1⟩, hcategory.1⟩, hsum.1⟩
        · rw [hid]
          rfl
        · rw [hseverity]
          rfl
        · rw [hmessage]
          rfl
        · rw [htext]
          exact htemplate

theorem reads_patterns_of_checkRule {raw : Option Value} (h : (checkRule raw).rule = some rule) :
    ∀ c ∈ rule.patterns, Clause.Reads Clause.maxDepth .top c.toValue c := by
  obtain ⟨v, -, hreads⟩ := reads_of_checkRule h
  obtain ⟨⟨w, -, hlist⟩, -⟩ := hreads.patterns
  exact reads_toValue_of_isList hlist

/-- Checksums of accepted patterns are equal exactly if the patterns are. -/
theorem checksum_eq_iff {raw raw' : Option Value} {rule rule' : Rule} (h : (checkRule raw).rule = some rule)
    (h' : (checkRule raw').rule = some rule')
    (hdigest : Sha256.CollisionFree {Clause.canonicalText rule.patterns, Clause.canonicalText rule'.patterns}) :
    Clause.checksum rule.patterns = Clause.checksum rule'.patterns ↔ rule.patterns = rule'.patterns := by
  refine ⟨fun he => ?_, fun he => by rw [he]⟩
  exact eq_of_canonicalText_eq (reads_patterns_of_checkRule h) (reads_patterns_of_checkRule h')
    (hdigest (Set.mem_insert _ _) (Set.mem_insert_of_mem _ rfl) he)

/-- What canonical text and the checksums made from it tell. Canonical texts of values are equal exactly if the values
are equal up to the order of members, and so are their digests. A rule is accepted, with its checksum, whatever the
order of members and whatever members that validation ignores there are. The checksum of an accepted rule, put on a rule
that is accepted without one, is accepted if the normalized patterns are the same, and otherwise is the one issue. -/
theorem checksum_laws :
    (∀ v w : Value, v.DistinctKeys → Value.PrintedApart (v.numbers ∪ w.numbers) →
      (v.canonical = w.canonical ↔ v.Reordered w) ∧
        (Sha256.CollisionFree {v.canonical, w.canonical} → (v.checksum = w.checksum ↔ v.Reordered w))) ∧
    (∀ v w : Value, v.DistinctKeys → (v.Reordered w ∨ Alike (.one .rule) (some v) (some w)) →
      (checkRule (some v)).rule = (checkRule (some w)).rule) ∧
    ∀ (raw : Option Value) (sealed rule : Rule) (given : String) (ms : Members),
      (checkRule raw).rule = some sealed → sealed.checksum = some given → ms.get? "checksum" = some (.str given) →
      (checkRule (some (.obj (unsealed ms)))).rule = some rule →
      Sha256.CollisionFree {Clause.canonicalText sealed.patterns, Clause.canonicalText rule.patterns} →
      (sealed.patterns = rule.patterns → checkRule (some (.obj ms)) =
        { rule := some { rule with checksum := some given }, ruleId := some rule.id, issues := [] }) ∧
      (sealed.patterns ≠ rule.patterns → checkRule (some (.obj ms)) =
        { rule := none, ruleId := some rule.id, issues := [mismatch rule.patterns given] }) := by
  refine ⟨fun v w hv hapart => ?_, fun v w hv h => ?_, ?_⟩
  · have hiff := Value.canonical_eq_iff_reordered hv hapart
    refine ⟨hiff, fun hdigest => Iff.trans ?_ hiff⟩
    exact hdigest.eq_iff (Set.mem_insert _ _) (Set.mem_insert_of_mem _ rfl)
  · exact rule_eq_of_alike (h.elim (Alike.of_reordered _ · hv) id) hv
  · intro raw sealed rule given ms hsealed hgiven hget hrule hdigest
    obtain ⟨v, -, hreads⟩ := reads_of_checkRule hsealed
    obtain ⟨_, ⟨⟩, hpasses⟩ := reads_of_checkRule hrule
    have hput := checkRule_of_unsealed hget (passes_iff_reads.mpr hpasses)
    have hiff := checksum_eq_iff hsealed hrule hdigest
    rw [hreads.checksum_eq given hgiven] at hput
    constructor
    · intro heq
      rw [hput, if_pos (hiff.mpr heq)]
    · intro hne
      rw [hput, if_neg (mt hiff.mp hne)]

/-- A rule that looks for a query and carries a checksum. -/
def searching (query given : String) : Members :=
  [("checksum", .str given), ("id", .str "r"), ("languages", .arr [.str "python"]), ("severity", .str "error"),
    ("message", .str "found"), ("patterns", .arr [.obj [("type", .str "structural"), ("query", .str query)]])]

/-- The same rule in another order, with notes. -/
def annotated (query given : String) : Members :=
  [("note", .null), ("id", .str "r"), ("languages", .arr [.str "python"]), ("severity", .str "error"),
    ("message", .str "found"), ("checksum", .str given),
    ("patterns", .arr [.obj [("query", .str query), ("note", .null), ("type", .str "structural")]])]

def searched (query : String) : Rule :=
  { id := "r", languages := [.python], severity := .error, message := "found"
    patterns := [.structural query none none] }

theorem distinctKeys_searching (query given : String) : Value.DistinctKeys (.obj (searching query given)) := by
  simp [searching, Value.distinctKeys_obj, Value.distinctKeys_arr, Value.distinctKeys_str, Members.keys]

theorem alike_annotated (query given : String) :
    Alike (.one .rule) (some (.obj (searching query given))) (some (.obj (annotated query given))) := by
  have hclause : Alike (.one .clause) (some (.obj [("type", .str "structural"), ("query", .str query)]))
      (some (.obj [("query", .str query), ("note", .null), ("type", .str "structural")])) := by
    refine .members fun key slot hmem => ?_
    rw [slots_of_type rfl] at hmem
    simp only [Part.slots, List.mem_cons, Prod.mk.injEq, List.not_mem_nil, or_false] at hmem
    rcases hmem with ⟨rfl, rfl⟩ | ⟨rfl, rfl⟩ | ⟨rfl, rfl⟩ | ⟨rfl, rfl⟩
    · exact .leaf (.refl _)
    · exact .leaf (.refl _)
    all_goals exact .missing
  refine .members fun key slot hmem => ?_
  simp only [Part.slots, List.mem_cons, Prod.mk.injEq, List.not_mem_nil, or_false] at hmem
  rcases hmem with ⟨rfl, rfl⟩ | ⟨rfl, rfl⟩ | ⟨rfl, rfl⟩ | ⟨rfl, rfl⟩ | ⟨rfl, rfl⟩ | ⟨rfl, rfl⟩ | ⟨rfl, rfl⟩ |
    ⟨rfl, rfl⟩ | ⟨rfl, rfl⟩ | ⟨rfl, rfl⟩ | ⟨rfl, rfl⟩ | ⟨rfl, rfl⟩
  case inr.inr.inr.inr.inl => exact .cons hclause (.nil _)
  all_goals first | exact .missing | exact .leaf (.refl _)

theorem rule_searching {query : String} {q : Query} (hq : Query.parse query = .ok q) (given : String) :
    (checkRule (some (.obj (unsealed (searching query given))))).rule = some (searched query) := by
  have hplain : Template.placeholders (searched query).message = [] :=
    show Template.placeholders "found" = [] by decide
  refine rule_of_reads ?_
  exact
    { id := ⟨"r", rfl, ⟨'r', by decide, by decide⟩, show "r" = Text.trim "r" by decide⟩
      languages := ⟨_, [.python], rfl, ⟨_, rfl, .cons rfl .nil⟩, by decide,
        show [Language.python] = [Language.python].eraseDups by decide⟩
      severity := rfl
      message := ⟨⟨_, rfl, rfl, fun name hname => absurd hname (hplain ▸ List.not_mem_nil)⟩,
        ⟨'f', show 'f' ∈ "found".toList by decide, by decide⟩⟩
      patterns := ⟨⟨_, rfl, _, rfl, .cons ⟨rfl, rfl, q, hq, .none, .none⟩ .nil⟩, by simp [searched]⟩
      fix := .none
      tests := .none
      tags := .none
      name := .none
      description := .none
      category := .none
      checksum := .none
      checksum_eq := nofun }

theorem canonicalText_structural (query : String) : Clause.canonicalText [.structural query none none] =
    "[\x7b\"query\":" ++ Value.quote query ++ ",\"type\":\"structural\"\x7d]" := by
  have hwalk : walksBefore "query" "type" = false := by decide
  have hvalue : Clause.toValue (.structural query none none) =
      .obj [("type", .str "structural"), ("query", .str query)] := by
    rw [Clause.toValue]
    simp [Value.record, optionalText, constraintsValue, Value.object, Members.ofPairs, Members.set, Members.contains,
      Members.get?, Members.place, placeKey, hwalk]
  have hle : Text.le "type" "query" = false := by decide
  have hsort : (Value.canonicalMembers [("type", .str "structural"), ("query", .str query)]).mergeSort
      (fun a b => Text.le a.1 b.1) = [("query", Value.quote "query" ++ ":" ++ Value.quote query),
        ("type", Value.quote "type" ++ ":" ++ Value.quote "structural")] := by
    simp only [Value.canonicalMembers, Value.canonical, Value.compact]
    simp [List.mergeSort, List.MergeSort.Internal.splitInTwo, hle]
  have hquery : Value.quote "query" = "\"query\"" := by decide
  have htype : Value.quote "type" = "\"type\"" := by decide
  have hstructural : Value.quote "structural" = "\"structural\"" := by decide
  rw [Clause.canonicalText, Clause.toValues, Clause.toValues, hvalue]
  simp only [Value.canonical, Value.canonicalItems, hsort, hquery, htype, hstructural]
  apply String.toList_injective
  simp

/-- The checksum made for `(A)` is accepted with its query in whatever order and with notes, and is the one issue of a
rule that looks for `(B)`. -/
theorem checksum_laws_searching :
    let given := Clause.checksum (searched "(A)").patterns
    let v := Value.obj [("b", .str "1"), ("a", .arr [])]
    let w := Value.obj [("a", .arr []), ("b", .str "1")]
    v.canonical = w.canonical ∧ v.checksum = w.checksum ∧
      (checkRule (some (.obj (annotated "(A)" given)))).rule = some { searched "(A)" with checksum := some given } ∧
      checkRule (some (.obj (searching "(B)" given))) =
        { rule := none, ruleId := some "r", issues := [mismatch (searched "(B)").patterns given] } := by
  intro given v w
  obtain ⟨hcanonical, halike, hsealed⟩ := checksum_laws
  have hv : v.Wordy := by
    refine .obj (by decide) ?_
    simp [Value.Wordy.str, Value.Wordy.arr]
  have hw : w.Wordy := by
    refine .obj (by decide) ?_
    simp [Value.Wordy.str, Value.Wordy.arr]
  have hreordered : v.Reordered w := .order (.swap _ _ _) (.refl _)
  obtain ⟨htext, hsum⟩ := hcanonical v w hv.1 (hv.printedApart hw)
  obtain ⟨a, ha⟩ := exists_query (show (Query.parse "(A)").toOption.isSome = true by decide +kernel)
  obtain ⟨b, hb⟩ := exists_query (show (Query.parse "(B)").toOption.isSome = true by decide +kernel)
  have hput : (checkRule (some (.obj (searching "(A)" given)))).rule =
      some { searched "(A)" with checksum := some given } := by
    obtain ⟨_, ⟨⟩, hreads⟩ := reads_of_checkRule (rule_searching ha given)
    have hown : given.toLower = Clause.checksum (searched "(A)").patterns := Sha256.toLower_hex _
    rw [checkRule_of_unsealed rfl (passes_iff_reads.mpr hreads), if_pos hown]
  refine ⟨htext.mpr hreordered, (hsum ?_).mpr hreordered, ?_, ?_⟩
  · rw [htext.mpr hreordered, Set.pair_eq_singleton]
    exact Set.injOn_singleton _ _
  · rw [← halike _ _ (distinctKeys_searching "(A)" given) (.inr (alike_annotated "(A)" given)), hput]
  · refine (hsealed _ _ _ given _ hput rfl rfl (rule_searching hb given) ?_).2 (by simp [searched])
    refine Set.injOn_pair.mpr fun hhex => absurd hhex ?_
    simp only [searched, canonicalText_structural]
    decide +kernel

end Validation

end RuleScan
