import RuleScan.Analysis.Discovery
import RuleScan.Proofs.Analysis.Units
import RuleScan.Proofs.Text.Order

/-! Which files are found in a directory: those that are wanted, below directories that are open, each once and in code
unit order. The name of a file says what its path says of its language, so that each of them has a parser when it is
analyzed. -/
namespace RuleScan

namespace Entry

mutual

/-- Wherever names stand together in a directory they hold no slash, and none is repeated. -/
def WellNamed : Entry → Prop
  | .directory entries => (entries.map (·.1)).Nodup ∧ AllWellNamed entries
  | _ => True

def AllWellNamed : List (String × Entry) → Prop
  | [] => True
  | (name, entry) :: rest => '/' ∉ name.toList ∧ WellNamed entry ∧ AllWellNamed rest

end

/-- What stands at the end of a way on which no link is followed. -/
def own? (e : Entry) : List String → Option Entry
  | [] => some e
  | name :: rest =>
    match e with
    | .directory entries => (entries.lookup name).bind fun inner => inner.own? rest
    | _ => none

/-- What holds of the entries of a directory if it holds of those of the directories in it. -/
@[elab_as_elim]
theorem byDirectories {P : List (String × Entry) → Prop}
    (step : ∀ entries, (∀ name inner, (name, Entry.directory inner) ∈ entries → P inner) → P entries)
    (entries : List (String × Entry)) : P entries :=
  step entries fun _ inner _ => byDirectories step inner
  termination_by sizeOf entries
  decreasing_by
    have hlt := List.sizeOf_lt_of_mem ‹_ ∈ entries›
    simp only [Prod.mk.sizeOf_spec, Entry.directory.sizeOf_spec] at hlt
    omega

variable {entries : List (String × Entry)} {name : String}

theorem allWellNamed_iff : AllWellNamed entries ↔ ∀ p ∈ entries, '/' ∉ p.1.toList ∧ p.2.WellNamed := by
  induction entries with
  | nil => simp [AllWellNamed]
  | cons p rest ih =>
    obtain ⟨name, entry⟩ := p
    rw [AllWellNamed, ih, List.forall_mem_cons, and_assoc]

theorem own?_directory_cons (rest : List String) :
    (Entry.directory entries).own? (name :: rest) = (entries.lookup name).bind fun inner => inner.own? rest := rfl

theorem wellNamed_directory_iff : (Entry.directory entries).WellNamed ↔
    (entries.map (·.1)).Nodup ∧ ∀ p ∈ entries, '/' ∉ p.1.toList ∧ p.2.WellNamed := by
  rw [WellNamed, allWellNamed_iff]

theorem lookup_eq_some_iff (h : (entries.map (·.1)).Nodup) {entry : Entry} :
    entries.lookup name = some entry ↔ (name, entry) ∈ entries := by
  rw [List.lookup_eq_some_iff]
  constructor
  · rintro ⟨before, after, rfl, -⟩
    exact List.mem_append_right _ List.mem_cons_self
  · intro hmem
    obtain ⟨before, after, rfl⟩ := List.append_of_mem hmem
    refine ⟨before, after, rfl, fun p hp => ?_⟩
    rw [List.map_append, List.map_cons] at h
    have hne := (List.nodup_append.mp h).2.2 p.1 (List.mem_map_of_mem hp) name List.mem_cons_self
    simpa using hne.symm

end Entry

namespace Discovery

variable {d : Discovery} {name path lead : String} {entries : List (String × Entry)} {e : Entry}

/-- A file that is looked for: one with an extension that a parser handles. -/
structure Wanted (d : Discovery) (name path : String) : Prop where
  handled : ∃ parser ∈ d.parsers, Path.languageExtension name ≠ "" ∧ parser.handles (Path.languageExtension name)
  included : d.included ≠ [] → ∃ glob ∈ d.included, d.admits glob path
  not_ignored : ∀ glob ∈ d.ignore, ¬d.admits glob path

/-- A directory that files are looked for in. -/
structure Open (d : Discovery) (name path : String) : Prop where
  not_hidden : ¬name.startsWith "."
  not_skipped : name ∉ skippedDirectories
  not_ignored : ∀ glob ∈ d.ignore, ¬d.admits glob path ∧ ¬d.admits glob (path ++ "/")

/-- The path of a file that is wanted, below directories that are all open. -/
def Eligible (d : Discovery) (top : Entry) (path : String) : Prop :=
  ∃ parents name f, top.own? (parents ++ [name]) = some (.file f) ∧ path = "/".intercalate (parents ++ [name]) ∧
    d.Wanted name path ∧
    ∀ outer parent, outer ++ [parent] <+: parents → d.Open parent ("/".intercalate (outer ++ [parent]))

theorem isSome_detect?_iff (parsers : ParserRegistry) (name : String) : (parsers.detect? name).isSome ↔
    ∃ parser ∈ parsers, Path.languageExtension name ≠ "" ∧ parser.handles (Path.languageExtension name) := by
  unfold ParserRegistry.detect?
  by_cases hnone : Path.languageExtension name = ""
  · simp [hnone]
  · simp [hnone, List.find?_isSome]

theorem takes_iff : d.takes name path = true ↔ d.Wanted name path := by
  simp only [takes, anyAdmits, Bool.and_eq_true, Bool.or_eq_true, List.isEmpty_iff, List.any_eq_true,
    Bool.not_eq_true', Bool.eq_false_iff, ne_eq, not_exists, not_and]
  constructor
  · rintro ⟨⟨hhandled, hincluded⟩, hignored⟩
    exact ⟨(isSome_detect?_iff _ _).mp hhandled, hincluded.resolve_left, hignored⟩
  · rintro ⟨hhandled, hincluded, hignored⟩
    exact ⟨⟨(isSome_detect?_iff _ _).mpr hhandled, or_iff_not_imp_left.mpr hincluded⟩, hignored⟩

theorem enters_iff : d.enters name path = true ↔ d.Open name path := by
  simp only [enters, anyAdmits, Bool.and_eq_true, Bool.not_eq_true', List.any_eq_true, List.contains_eq_mem,
    decide_eq_true_eq, Bool.eq_false_iff, ne_eq, not_exists, not_and]
  constructor
  · rintro ⟨⟨⟨hhidden, hskipped⟩, hignored⟩, hslash⟩
    exact ⟨hhidden, hskipped, fun glob hglob => ⟨hignored glob hglob, hslash glob hglob⟩⟩
  · rintro ⟨hhidden, hskipped, hignored⟩
    exact ⟨⟨⟨hhidden, hskipped⟩, fun glob hglob => (hignored glob hglob).1⟩, fun glob hglob => (hignored glob hglob).2⟩

/-! The files below a directory. -/

/-- Each name on a way to a file is passed, below the directory whose paths start like this. -/
def Passes (d : Discovery) : (lead : String) → List String → Prop
  | _, [] => False
  | lead, [name] => d.Wanted name (lead ++ name)
  | lead, name :: next :: rest => d.Open name (lead ++ name) ∧ Passes d (lead ++ name ++ "/") (next :: rest)

theorem passes_iff (parents : List String) : d.Passes lead (parents ++ [name]) ↔
    d.Wanted name (lead ++ "/".intercalate (parents ++ [name])) ∧
      ∀ outer parent, outer ++ [parent] <+: parents →
        d.Open parent (lead ++ "/".intercalate (outer ++ [parent])) := by
  induction parents generalizing lead with
  | nil => simp [Passes]
  | cons first rest ih =>
    have hcons : ∀ ways : List String, ways ≠ [] →
        lead ++ "/".intercalate (first :: ways) = lead ++ first ++ "/" ++ "/".intercalate ways := by
      intro ways hways
      rw [String.intercalate_cons_of_ne_nil hways]
      simp only [String.append_assoc]
    have hstep : d.Passes lead (first :: rest ++ [name]) ↔
        d.Open first (lead ++ first) ∧ d.Passes (lead ++ first ++ "/") (rest ++ [name]) := by
      cases rest <;> rfl
    rw [hstep, ih, List.cons_append, hcons _ (List.append_ne_nil_of_right_ne_nil _ (List.cons_ne_nil _ _)),
      and_left_comm]
    refine and_congr_right fun _ => ⟨?_, fun h => ⟨?_, fun outer parent hprefix => ?_⟩⟩
    · rintro ⟨hfirst, hrest⟩ outer parent hprefix
      cases outer with
      | nil =>
        obtain rfl := (List.cons_prefix_cons.mp hprefix).1
        simpa using hfirst
      | cons second outer =>
        obtain ⟨rfl, hlater⟩ := List.cons_prefix_cons.mp hprefix
        rw [List.cons_append, hcons _ (List.append_ne_nil_of_right_ne_nil _ (List.cons_ne_nil _ _))]
        exact hrest outer parent hlater
    · simpa using h [] first (List.cons_prefix_cons.mpr ⟨rfl, List.nil_prefix⟩)
    · rw [← hcons _ (List.append_ne_nil_of_right_ne_nil _ (List.cons_ne_nil _ _))]
      exact h (first :: outer) parent (List.cons_prefix_cons.mpr ⟨rfl, hprefix⟩)

theorem filesIn_eq_flatMap (d : Discovery) (lead : String) (entries : List (String × Entry)) :
    d.filesIn lead entries = entries.flatMap fun p => d.filesAt p.1 (lead ++ p.1) p.2 := by
  induction entries with
  | nil => rw [filesIn, List.flatMap_nil]
  | cons p rest ih =>
    obtain ⟨name, entry⟩ := p
    rw [filesIn, List.flatMap_cons, ih]

theorem mem_filesAt_file_iff {f : File} {found : String} :
    found ∈ d.filesAt name path (.file f) ↔ d.Wanted name path ∧ found = path := by
  rw [filesAt, ← takes_iff]
  split <;> simp [*]

theorem mem_filesAt_directory_iff {found : String} :
    found ∈ d.filesAt name path (.directory entries) ↔ d.Open name path ∧ found ∈ d.filesIn (path ++ "/") entries := by
  rw [filesAt, ← enters_iff]
  split <;> simp [*]

@[simp] theorem filesAt_link (target : Option Entry) : d.filesAt name path (.link target) = [] := by
  rw [filesAt]

@[simp] theorem filesAt_special : d.filesAt name path .special = [] := by
  rw [filesAt]

theorem mem_filesIn_iff (h : (Entry.directory entries).WellNamed) {found : String} :
    found ∈ d.filesIn lead entries ↔ ∃ way f, (Entry.directory entries).own? way = some (.file f) ∧
      d.Passes lead way ∧ found = lead ++ "/".intercalate way := by
  induction entries using Entry.byDirectories generalizing lead with
  | step entries ih =>
    obtain ⟨hnodup, hparts⟩ := Entry.wellNamed_directory_iff.mp h
    rw [filesIn_eq_flatMap, List.mem_flatMap]
    constructor
    · rintro ⟨⟨name, entry⟩, hmem, hfound⟩
      have hlookup := (Entry.lookup_eq_some_iff hnodup).mpr hmem
      cases entry with
      | file f =>
        obtain ⟨hwanted, rfl⟩ := mem_filesAt_file_iff.mp hfound
        refine ⟨[name], f, ?_, hwanted, by rw [String.intercalate_singleton]⟩
        rw [Entry.own?_directory_cons, hlookup]
        rfl
      | directory inner =>
        obtain ⟨hopen, hinner⟩ := mem_filesAt_directory_iff.mp hfound
        obtain ⟨way, f, hown, hpasses, rfl⟩ := (ih _ _ hmem (hparts _ hmem).2).mp hinner
        cases way with
        | nil => cases hpasses
        | cons next rest =>
          refine ⟨name :: next :: rest, f, ?_, ⟨hopen, hpasses⟩, ?_⟩
          · rw [Entry.own?_directory_cons, hlookup]
            exact hown
          · rw [String.intercalate_cons_cons]
            simp only [String.append_assoc]
      | link _ | special => simp at hfound
    · rintro ⟨way, f, hown, hpasses, rfl⟩
      cases way with
      | nil => cases hpasses
      | cons name rest =>
        obtain ⟨entry, hlookup, hown⟩ := Option.bind_eq_some_iff.mp hown
        have hmem := (Entry.lookup_eq_some_iff hnodup).mp hlookup
        refine ⟨(name, entry), hmem, ?_⟩
        cases rest with
        | nil =>
          cases hown
          exact mem_filesAt_file_iff.mpr ⟨hpasses, by rw [String.intercalate_singleton]⟩
        | cons next rest =>
          cases entry with
          | directory inner =>
            refine mem_filesAt_directory_iff.mpr ⟨hpasses.1, ?_⟩
            refine (ih _ _ hmem (hparts _ hmem).2).mpr ⟨next :: rest, f, hown, hpasses.2, ?_⟩
            rw [String.intercalate_cons_cons]
            simp only [String.append_assoc]
          | _ => cases hown

theorem mem_filesIn_iff_eligible (h : (Entry.directory entries).WellNamed) :
    path ∈ d.filesIn "" entries ↔ d.Eligible (.directory entries) path := by
  rw [mem_filesIn_iff h]
  simp only [String.empty_append]
  constructor
  · rintro ⟨way, f, hown, hpasses, rfl⟩
    obtain rfl | ⟨parents, name, rfl⟩ := List.eq_nil_or_concat way
    · cases hpasses
    · rw [List.concat_eq_append] at hown hpasses ⊢
      have hboth := (passes_iff parents).mp hpasses
      simp only [String.empty_append] at hboth
      exact ⟨parents, name, f, hown, rfl, hboth⟩
  · rintro ⟨parents, name, f, hown, rfl, hboth⟩
    refine ⟨parents ++ [name], f, hown, (passes_iff parents).mpr ?_, rfl⟩
    simpa only [String.empty_append] using hboth

/-! No path twice. -/

/-- What is found at an entry starts with its path, up to the end or a slash. -/
theorem exists_toList_eq (h : e.WellNamed) {found : String} (hmem : found ∈ d.filesAt name path e) :
    ∃ tail : List Char, found.toList = path.toList ++ tail ∧ tail.head?.all (· = '/') := by
  cases e with
  | file f =>
    obtain ⟨-, rfl⟩ := mem_filesAt_file_iff.mp hmem
    exact ⟨[], (List.append_nil _).symm, rfl⟩
  | directory entries =>
    obtain ⟨-, hinner⟩ := mem_filesAt_directory_iff.mp hmem
    obtain ⟨way, -, -, -, rfl⟩ := (mem_filesIn_iff h).mp hinner
    refine ⟨'/' :: ("/".intercalate way).toList, ?_, rfl⟩
    simp
  | link _ | special => simp at hmem

theorem takeWhile_of_head? {tail : List Char} (h : tail.head?.all (· = '/')) : tail.takeWhile (· ≠ '/') = [] := by
  cases tail with
  | nil => rfl
  | cons c tail => exact List.takeWhile_cons_of_neg (by simpa using h)

/-- Entries of different names have no path in common. -/
theorem name_eq_of_mem_filesAt {name' : String} {e e' : Entry} (hname : '/' ∉ name.toList) (he : e.WellNamed)
    (hname' : '/' ∉ name'.toList) (he' : e'.WellNamed) {found : String}
    (hmem : found ∈ d.filesAt name (lead ++ name) e) (hmem' : found ∈ d.filesAt name' (lead ++ name') e') :
    name = name' := by
  obtain ⟨tail, hfound, htail⟩ := exists_toList_eq he hmem
  obtain ⟨tail', hfound', htail'⟩ := exists_toList_eq he' hmem'
  have hlists : name.toList ++ tail = name'.toList ++ tail' := by
    rw [hfound, String.toList_append, String.toList_append, List.append_assoc, List.append_assoc] at hfound'
    exact List.append_cancel_left hfound'
  have hupto : ∀ {n : String} {t : List Char}, '/' ∉ n.toList → t.head?.all (· = '/') →
      (n.toList ++ t).takeWhile (· ≠ '/') = n.toList := by
    intro n t hn ht
    have hall : ∀ c ∈ n.toList, decide (c ≠ '/') = true := fun c hc => by
      rw [decide_eq_true_iff]
      rintro rfl
      exact hn hc
    rw [List.takeWhile_append_of_pos hall, takeWhile_of_head? ht, List.append_nil]
  rw [← String.toList_inj, ← hupto hname htail, hlists, hupto hname' htail']

theorem nodup_filesIn (h : (Entry.directory entries).WellNamed) (lead : String) : (d.filesIn lead entries).Nodup := by
  induction entries using Entry.byDirectories generalizing lead with
  | step entries ih =>
    obtain ⟨hnodup, hparts⟩ := Entry.wellNamed_directory_iff.mp h
    rw [filesIn_eq_flatMap, List.nodup_flatMap]
    constructor
    · rintro ⟨name, entry⟩ hmem
      cases entry with
      | file f =>
        rw [filesAt]
        split
        · exact List.nodup_singleton _
        · exact List.nodup_nil
      | directory inner =>
        rw [filesAt]
        split
        · exact ih _ _ hmem (hparts _ hmem).2 _
        · exact List.nodup_nil
      | link _ | special => simp
    · refine (List.pairwise_map.mp hnodup).imp_of_mem fun {p q} hp hq hne => ?_
      intro found hfound hfound'
      exact hne (name_eq_of_mem_filesAt (hparts p hp).1 (hparts p hp).2 (hparts q hq).1 (hparts q hq).2 hfound hfound')

/-! Languages. -/

theorem takeWhile_append_of_eq_nil {α : Type} {p : α → Bool} {xs ys : List α} (h : ys.takeWhile p = []) :
    (xs ++ ys).takeWhile p = xs.takeWhile p := by
  induction xs with
  | nil => exact h
  | cons x xs ih => rw [List.cons_append, List.takeWhile_cons, List.takeWhile_cons, ih]

/-- What stands before the last slash does not matter for the extension. -/
theorem languageExtension_append (h : lead.toList.getLast?.all (· = '/')) (name : String) :
    Path.languageExtension (lead ++ name) = Path.languageExtension name := by
  have hlead : lead.toList.reverse.takeWhile (fun c => c ≠ '/' && c ≠ '\\') = [] := by
    rw [← List.head?_reverse] at h
    cases hreverse : lead.toList.reverse with
    | nil => rfl
    | cons c rest =>
      rw [hreverse] at h
      obtain rfl : c = '/' := by simpa using h
      rfl
  have hbase : (lead ++ name).toList.reverse.takeWhile (fun c => c ≠ '/' && c ≠ '\\') =
      name.toList.reverse.takeWhile (fun c => c ≠ '/' && c ≠ '\\') := by
    rw [String.toList_append, List.reverse_append, takeWhile_append_of_eq_nil hlead]
  simp only [Path.languageExtension, hbase]

theorem exists_lead (parents : List String) (name : String) :
    ∃ lead : String, "/".intercalate (parents ++ [name]) = lead ++ name ∧ lead.toList.getLast?.all (· = '/') := by
  induction parents with
  | nil => exact ⟨"", by simp, rfl⟩
  | cons first rest ih =>
    obtain ⟨lead, hpath, hlead⟩ := ih
    refine ⟨first ++ "/" ++ lead, ?_, ?_⟩
    · rw [List.cons_append, String.intercalate_cons_of_ne_nil
        (List.append_ne_nil_of_right_ne_nil _ (List.cons_ne_nil _ _)), hpath]
      simp only [String.append_assoc]
    · rw [String.toList_append, List.getLast?_append]
      cases hlast : lead.toList.getLast? with
      | none => simp
      | some c => rwa [hlast] at hlead

/-- The language of a file is the same from its path. -/
theorem detect?_path (parsers : ParserRegistry) (parents : List String) (name : String) :
    parsers.detect? ("/".intercalate (parents ++ [name])) = parsers.detect? name := by
  obtain ⟨lead, hpath, hlead⟩ := exists_lead parents name
  rw [hpath, ParserRegistry.detect?, ParserRegistry.detect?, languageExtension_append hlead]

end Discovery

/-! Files without a parser. -/

namespace FileUnit

theorem message_unhandled (path : String) :
    (ParseFailure.unhandled path).message = "No parser handles the extension of " ++ path := rfl

theorem message_unregistered (language : Language) : (ParseFailure.unregistered language).message =
    "No parser registered for language '" ++ language.name ++ "'" := rfl

theorem message_unavailable (language : Language) (reason : String) :
    (ParseFailure.unavailable language reason).message =
      "No " ++ language.name ++ " parser available: " ++ reason := rfl

/-- No other failure is reported like a missing parser. -/
theorem eq_unhandled_of_reads {failure : ParseFailure} {path : String}
    (hcode : failure.code = (ParseFailure.unhandled path).code)
    (hmessage : failure.message = (ParseFailure.unhandled path).message) : ∃ other, failure = .unhandled other := by
  cases failure with
  | unhandled other => exact ⟨other, rfl⟩
  | unregistered language =>
    rw [message_unregistered, message_unhandled] at hmessage
    have hlists := congrArg String.toList hmessage
    simp at hlists
  | unavailable language reason =>
    rw [message_unavailable, message_unhandled] at hmessage
    have hlists := congrArg String.toList hmessage
    cases language <;> simp [Language.name] at hlists
  | _ => simp [ParseFailure.code] at hcode

/-- A report that a file has no parser for its extension. -/
def saysUnhandled (path : String) (e : AnalysisError) : Prop := e = .ofParseError ⟨path, .unhandled path⟩

theorem not_saysUnhandled_of_failure {e : ParseError} (h : ∀ path, e.failure ≠ .unhandled path) (path : String) :
    ¬saysUnhandled path (.ofParseError e) := by
  intro hsays
  obtain ⟨other, hother⟩ :=
    eq_unhandled_of_reads (congrArg AnalysisError.code hsays) (congrArg AnalysisError.message hsays)
  exact h other hother

theorem not_saysUnhandled_of_read {input : SourceInput} {limit : Int} {disk : Disk} {e : AnalysisError}
    (h : input.read limit disk = .error e) (path : String) : ¬saysUnhandled path e := by
  obtain ⟨_, rfl⟩ | rfl | ⟨_, rfl⟩ := input.error_of_read h
  · exact not_saysUnhandled_of_failure (fun _ he => ParseFailure.noConfusion he) path
  · exact not_saysUnhandled_of_failure (fun _ he => ParseFailure.noConfusion he) path
  · -- what the system refuses is no failure of a parser
    exact fun hsays => ErrorKind.noConfusion (congrArg AnalysisError.kind hsays)

theorem failure_ne_unhandled_of_parse {parsers : ParserRegistry} {source : String} {language : Language}
    {named : Option String} {policy : SyntaxPolicy} {e : ParseError}
    (h : parsers.parse source language named policy = .error e) (path : String) : e.failure ≠ .unhandled path := by
  unfold ParserRegistry.parse Parser.parse at h
  dsimp only at h
  split at h
  · cases h
    exact nofun
  · split at h
    · cases h
      exact nofun
    · split at h
      · cases h
        exact nofun
      · split at h
        · cases h
          exact nofun
        · split at h
          · cases h
            exact nofun
          · cases h

/-- A file whose language is detected is not reported as one without a parser. -/
theorem not_saysUnhandled_of_detect? {input : SourceInput} {tools : UnitTools}
    (h : (tools.parsers.detect? input.path).isSome) (rules : List Rule) (settings : UnitSettings)
    (world : Surroundings) :
    ∀ e ∈ (run input rules settings tools world).1.errors, ¬saysUnhandled input.path e := by
  have hopened : ∀ e, opened input rules settings tools = .error e → ¬saysUnhandled input.path e := by
    intro e he
    unfold opened at he
    split at he
    · next hlanguage =>
      rw [languageOf?, Option.or_eq_none_iff] at hlanguage
      rw [hlanguage.2] at h
      cases h
    · split at he
      · next hread =>
        cases he
        exact not_saysUnhandled_of_read hread _
      · split at he
        · split at he
          · next hparse =>
            cases he
            exact not_saysUnhandled_of_failure (failure_ne_unhandled_of_parse hparse) _
          · cases he
        · cases he
  rw [run_fst]
  rcases cancellation settings world with ⟨_ | reason, world'⟩
  · dsimp only
    unfold started
    rcases he : opened input rules settings tools with e | _ | ⟨language, tree⟩
    · exact List.forall_mem_singleton.mpr (hopened e he)
    · exact fun _ hmem => absurd hmem List.not_mem_nil
    · exact fun _ hmem => absurd hmem List.not_mem_nil
  · exact fun _ hmem => absurd hmem List.not_mem_nil

end FileUnit

namespace Discovery

theorem files_of_find {d : Discovery} {disk : Disk} {root : String} {entries : List (String × Entry)}
    (h : disk.find "scandir" root = .ok (.directory entries)) :
    d.files disk root = .ok (Text.sort (d.filesIn "" (entries.mergeSort fun a b => Text.le a.1 b.1))) := by
  rw [files, Disk.list, h]
  rfl

/-- The eligible paths of a directory are found, each once and in code unit order, whatever order its entries come in.
None of them is reported as a file without a parser by an analysis with the same parsers. -/
theorem files_eligible (d : Discovery) {disk : Disk} {root : String} {entries : List (String × Entry)}
    (hroot : disk.find "scandir" root = .ok (.directory entries)) (hnamed : (Entry.directory entries).WellNamed) :
    ∃ found, d.files disk root = .ok found ∧ found.Pairwise (fun a b => Text.lt a b = true) ∧
      (∀ path, path ∈ found ↔ d.Eligible (.directory entries) path) ∧
      ∀ input : SourceInput, input.path ∈ found → ∀ rules settings tools world, tools.parsers = d.parsers →
        ∀ e ∈ (FileUnit.run input rules settings tools world).1.errors, ¬FileUnit.saysUnhandled input.path e := by
  -- the order of the entries decides the order in which files are found, and they are sorted in the end
  have hperm : (d.filesIn "" (entries.mergeSort fun a b => Text.le a.1 b.1)).Perm (d.filesIn "" entries) := by
    rw [filesIn_eq_flatMap, filesIn_eq_flatMap]
    exact (List.mergeSort_perm entries _).flatMap_right _
  have hmem : ∀ path, path ∈ Text.sort (d.filesIn "" (entries.mergeSort fun a b => Text.le a.1 b.1)) ↔
      d.Eligible (.directory entries) path := by
    intro path
    rw [Text.sort, List.mem_mergeSort, hperm.mem_iff, mem_filesIn_iff_eligible hnamed]
  refine ⟨_, files_of_find hroot, Text.pairwise_lt_sort (hperm.nodup_iff.mpr (nodup_filesIn hnamed "")), hmem, ?_⟩
  intro input hfound rules settings tools world hparsers
  obtain ⟨parents, name, f, -, hpath, hwanted, -⟩ := (hmem input.path).mp hfound
  refine FileUnit.not_saysUnhandled_of_detect? ?_ rules settings world
  rw [hparsers, hpath, detect?_path]
  exact (isSome_detect?_iff _ _).mpr hwanted.handled

/-- A directory with sources, and with files that are not looked for. -/
def project : List (String × Entry) :=
  [("src", .directory [("b.ts", .file { content := .text "b" }), ("a.ts", .file { content := .text "a" })]),
    ("main.ts", .file { content := .text "" }), ("notes.md", .file { content := .text "" }),
    ("node_modules", .directory [("c.ts", .file { content := .text "c" })]),
    ("lib", .directory [("d.ts", .file { content := .text "d" })])]

/-- Sources of one language, but for those in a library. -/
def sources : Discovery :=
  { parsers := [{ language := .typescript, extensions := [".ts"], build := fun _ _ => .error "" }], ignore := ["lib/"] }

theorem files_eligible_project : ∃ found, sources.files ⟨"/w", .directory project⟩ "/w" = .ok found ∧
    (Entry.directory project).WellNamed ∧ "src/a.ts" ∈ found ∧ "lib/d.ts" ∉ found ∧
    found.Pairwise fun a b => Text.lt a b = true := by
  have hroot : (⟨"/w", .directory project⟩ : Disk).find "scandir" "/w" = .ok (.directory project) := by
    have hbelow : (⟨"/w", .directory project⟩ : Disk).below? "/w" = some [] := by decide +kernel
    simp only [Disk.find, hbelow]
    rfl
  have hnamed : (Entry.directory project).WellNamed := by simp [project, Entry.WellNamed, Entry.AllWellNamed]
  obtain ⟨found, hfiles, hsorted, hmem, -⟩ := files_eligible sources hroot hnamed
  have hsource : "src/a.ts" ∈ sources.filesIn "" project := by decide +kernel
  have hlibrary : "lib/d.ts" ∉ sources.filesIn "" project := by decide +kernel
  rw [mem_filesIn_iff_eligible hnamed, ← hmem] at hsource hlibrary
  exact ⟨found, hfiles, hnamed, hsource, hlibrary, hsorted⟩

end Discovery

end RuleScan
