import RuleScan.Proofs.Rule.Pieces
import RuleScan.Proofs.Rule.Safety
import RuleScan.Proofs.Rule.Validity

/-! Names in the placeholders of templates. The name of a capture may start with any character that it may go on with,
the name in a placeholder only with a letter or the low line. Main statement: a capture can be mentioned in templates,
and is looked for in them, exactly if its name starts so; any other name in double braces is plain text. -/
namespace RuleScan

namespace Template

/-- The first character is one that the name in a placeholder may start with. -/
def StartsPlainly (name : String) : Prop := ∀ c ∈ name.toList.head?, isNameStart c = true

instance : DecidablePred StartsPlainly := fun name =>
  decidable_of_iff (name.toList.head?.all isNameStart = true) (Option.all_eq_true _ _)

/-- The name can stand in a placeholder, whatever blanks are around it: the placeholder is reported under the name,
and renders as the text of the node that is bound to it. -/
def Mentionable (name : String) : Prop :=
  ∀ before after : List Char, (∀ c ∈ before, Text.isBlank c = true) → (∀ c ∈ after, Text.isBlank c = true) →
    let template := String.ofList (braced (before ++ name.toList ++ after))
    placeholders template = [name] ∧
    ∀ (bindings : Bindings) (node : Node) (source : Units) (matchText : String), bindings.lookup name = some node →
      render template bindings source matchText = .ok (node.textIn source).toText

/-- The name is looked for among the captures wherever it stands in double braces. -/
def Caught (name : String) : Prop :=
  ∀ before after : List Char, (∀ c ∈ before, Text.isBlank c = true) → (∀ c ∈ after, Text.isBlank c = true) →
    ∀ (left right : List Char) (path : String) (captures : List String), name ∉ captures →
      ∃ issue ∈ Validation.checkTemplate path captures
          (String.ofList (left ++ braced (before ++ name.toList ++ after) ++ right)),
        issue.path = path ∧ issue.code = .unknownCapture ∧ issue.actual = some (.str name)

/-- In double braces the name is plain text: nothing is reported, nothing is looked for among the captures, and the
template renders as it is written. -/
def PlainText (name : String) : Prop :=
  ∀ before after : List Char, (∀ c ∈ before, Text.isBlank c = true) → (∀ c ∈ after, Text.isBlank c = true) →
    let template := String.ofList (braced (before ++ name.toList ++ after))
    placeholders template = [] ∧
    (∀ (path : String) (captures : List String), Validation.checkTemplate path captures template = []) ∧
    ∀ (bindings : Bindings) (source : Units) (matchText : String),
      render template bindings source matchText = .ok template

section Names

variable {name : String} {before after : List Char}

private theorem ne_brace_of_isBlank {c : Char} (h : Text.isBlank c = true) : c ≠ '\x7b' := by
  rintro rfl
  cases h

/-- The inside of a placeholder, with its blanks before it left out. -/
private theorem dropWhile_inner (hcapture : Query.IsCaptureName name) (hbefore : ∀ c ∈ before, Text.isBlank c = true)
    (rest : List Char) : (before ++ name.toList ++ rest).dropWhile Text.isBlank = name.toList ++ rest := by
  rw [List.append_assoc]
  refine (Query.takeWhile_append_stop hbefore ?_).2
  intro c hc
  obtain ⟨hne, hparts⟩ := hcapture
  have hmem : c ∈ name.toList := by
    rw [List.head?_append_of_ne_nil _ hne] at hc
    exact List.mem_of_mem_head? hc
  exact (ne_brace_of_isCapturePart (hparts c hmem)).2

theorem isName_of_isCaptureName (hcapture : Query.IsCaptureName name) (hstart : StartsPlainly name) :
    IsName name.toList := by
  obtain ⟨hne, hparts⟩ := hcapture
  cases hchars : name.toList with
  | nil => exact absurd hchars hne
  | cons c tail =>
    refine .plain (hstart c (by rw [hchars]; rfl)) fun d hd => ?_
    exact isNamePart_iff.mpr (hparts d (by rw [hchars]; exact List.mem_cons_of_mem _ hd))

theorem readPlaceholder_braced (hcapture : Query.IsCaptureName name) (hstart : StartsPlainly name)
    (hbefore : ∀ c ∈ before, Text.isBlank c = true) (hafter : ∀ c ∈ after, Text.isBlank c = true)
    (right : List Char) :
    readPlaceholder (braced (before ++ name.toList ++ after) ++ right) = some (name, right) :=
  readPlaceholder_eq_some_iff.mpr ⟨_, .mk hbefore hafter (isName_of_isCaptureName hcapture hstart), rfl⟩

theorem split_braced (hcapture : Query.IsCaptureName name) (hstart : StartsPlainly name)
    (hbefore : ∀ c ∈ before, Text.isBlank c = true) (hafter : ∀ c ∈ after, Text.isBlank c = true)
    (left right : List Char) :
    split (left ++ braced (before ++ name.toList ++ after) ++ right) = split left ++ .placeholder name :: split right := by
  have hread := readPlaceholder_braced hcapture hstart hbefore hafter right
  have hopen (inner : List Char) : braced inner ++ right = '\x7b' :: '\x7b' :: (inner ++ ['\x7d', '\x7d'] ++ right) := rfl
  rw [hopen] at hread
  rw [List.append_assoc, hopen, split_append_braces, split_cons, hread]

theorem split_braced_of_not (hcapture : Query.IsCaptureName name) (hstart : ¬StartsPlainly name)
    (hbefore : ∀ c ∈ before, Text.isBlank c = true) (hafter : ∀ c ∈ after, Text.isBlank c = true) :
    split (braced (before ++ name.toList ++ after)) = (braced (before ++ name.toList ++ after)).map .char := by
  apply split_braces_of_no_name
  · intro c hc
    simp only [List.mem_append, List.mem_cons, List.not_mem_nil, or_false] at hc
    rcases hc with ((hc | hc) | hc) | rfl | rfl
    · exact ne_brace_of_isBlank (hbefore c hc)
    · exact (ne_brace_of_isCapturePart (hcapture.2 c hc)).1
    · exact ne_brace_of_isBlank (hafter c hc)
    · decide
    · decide
  · rw [List.append_assoc, dropWhile_inner hcapture hbefore]
    obtain ⟨hne, hparts⟩ := hcapture
    cases hchars : name.toList with
    | nil => exact absurd hchars hne
    | cons c tail =>
      have hc : isNameStart c = false := by
        by_contra hc
        apply hstart
        intro d hd
        rw [hchars] at hd
        rw [← Option.some.inj hd]
        exact Bool.not_eq_false _ ▸ hc
      have hdollar : c ≠ '$' := by
        rintro rfl
        have hpart := hparts '$' (by rw [hchars]; exact List.mem_cons_self)
        cases hpart
      rw [List.cons_append, readName_cons hdollar, hc]
      rfl

end Names

theorem pieces_ofList (cs : List Char) : pieces (String.ofList cs) = split cs := by
  unfold pieces split
  rw [String.toList_ofList]

private theorem foldl_addNew_chars (cs : List Char) (names : List String) :
    (cs.map Piece.char).foldl addNew names = names := by
  induction cs with
  | nil => rfl
  | cons c rest ih => exact ih

private theorem join_chars (cs : List Char) : String.join (cs.map Char.toString) = String.ofList cs := by
  induction cs with
  | nil => rfl
  | cons c rest ih =>
    rw [List.map_cons, String.join_cons, ih]
    apply String.toList_inj.mp
    simp

/-- A text without placeholders renders as itself. -/
theorem render_of_split {cs : List Char} (h : split cs = cs.map .char) (bindings : Bindings) (source : Units)
    (matchText : String) : render (String.ofList cs) bindings source matchText = .ok (String.ofList cs) := by
  have hparts : (cs.map Piece.char).mapM (renderPiece bindings source matchText) = .ok (cs.map Char.toString) := by
    rw [List.mapM_map]
    exact List.mapM_pure
  rw [render, pieces_ofList, h, hparts, ← join_chars]
  rfl

theorem placeholders_of_split {cs : List Char} (h : split cs = cs.map .char) : placeholders (String.ofList cs) = [] := by
  rw [placeholders, pieces_ofList, h, foldl_addNew_chars]

section Mentions

variable {name : String}

theorem mentionable_of_startsPlainly (hcapture : Query.IsCaptureName name) (hstart : StartsPlainly name) :
    Mentionable name := by
  intro before after hbefore hafter template
  have hpieces : pieces template = [.placeholder name] := by
    have hsplit := split_braced hcapture hstart hbefore hafter [] []
    rw [List.nil_append, List.append_nil] at hsplit
    exact (pieces_ofList _).trans hsplit
  constructor
  · rw [placeholders, hpieces]
    rfl
  · intro bindings node source matchText hlookup
    have hne : name ≠ matchName := by
      rintro rfl
      have hdollar : isNameStart '$' = true := hstart '$' rfl
      cases hdollar
    have hpiece : renderPiece bindings source matchText none (.placeholder name) = .ok (node.textIn source).toText := by
      rw [renderPiece, if_neg hne, Bindings.meaning_eq_node_iff.mpr hlookup]
    rw [render, hpieces, List.mapM_cons, hpiece, List.mapM_nil]
    exact congrArg Except.ok (by simp [String.join_cons, String.join_nil])

theorem caught_of_startsPlainly (hcapture : Query.IsCaptureName name) (hstart : StartsPlainly name) : Caught name := by
  intro before after hbefore hafter left right path captures hundeclared
  have hmem : name ∈ placeholders (String.ofList (left ++ braced (before ++ name.toList ++ after) ++ right)) := by
    rw [mem_placeholders, pieces_ofList, split_braced hcapture hstart hbefore hafter]
    exact List.mem_append_right _ List.mem_cons_self
  have hne : name ≠ matchName := by
    rintro rfl
    have hdollar : isNameStart '$' = true := hstart '$' rfl
    cases hdollar
  have hunknown : ¬(name = matchName ∨ captures.contains name = true) := by
    rw [List.contains_iff_mem]
    exact not_or_intro hne hundeclared
  refine ⟨_, List.mem_filterMap.mpr ⟨name, hmem, if_neg (by simpa using hunknown)⟩, rfl, rfl, rfl⟩

theorem plainText_of_not_startsPlainly (hcapture : Query.IsCaptureName name) (hstart : ¬StartsPlainly name) :
    PlainText name := by
  intro before after hbefore hafter template
  have hsplit := split_braced_of_not hcapture hstart hbefore hafter
  have hnone : placeholders template = [] := placeholders_of_split hsplit
  refine ⟨hnone, fun path captures => ?_, render_of_split hsplit⟩
  rw [Validation.checkTemplate, hnone]
  rfl

theorem not_mentionable_of_plainText (h : PlainText name) : ¬Mentionable name := by
  intro hmention
  have hnone := (h [] [] nofun nofun).1
  have hone := (hmention [] [] nofun nofun).1
  rw [hnone] at hone
  cases hone

theorem not_caught_of_plainText (h : PlainText name) : ¬Caught name := by
  intro hcaught
  have hsilent := (h [] [] nofun nofun).2.1 "message" []
  obtain ⟨issue, hissue, -⟩ := hcaught [] [] nofun nofun [] [] "message" [] List.not_mem_nil
  rw [List.nil_append, List.append_nil, hsilent] at hissue
  cases hissue

end Mentions

/-- Which captures templates can name. A capture of a query can be mentioned in a template exactly if its name starts
with a letter or the low line. So can a name be mistaken for one: wherever it stands in double braces, the check of
templates misses it if it is not declared, exactly if it starts so. In braces any other name that captures can have is
plain text. -/
theorem mentionable_iff {text : String} {q : Query} (h : Query.parse text = .ok q) :
    (∀ name ∈ q.captureNames, Mentionable name ↔ StartsPlainly name) ∧
      ∀ name, Query.IsCaptureName name →
        (Caught name ↔ StartsPlainly name) ∧ (PlainText name ↔ ¬StartsPlainly name) := by
  constructor
  · intro name hname
    have hcapture := Query.isCaptureName_of_parse h name hname
    constructor
    · intro hmention
      by_contra hstart
      exact not_mentionable_of_plainText (plainText_of_not_startsPlainly hcapture hstart) hmention
    · exact mentionable_of_startsPlainly hcapture
  · intro name hcapture
    have hplain := plainText_of_not_startsPlainly hcapture
    have hcaught := caught_of_startsPlainly hcapture
    constructor
    · constructor
      · intro hcaught
        by_contra hstart
        exact not_caught_of_plainText (hplain hstart) hcaught
      · exact hcaught
    · constructor
      · intro h hstart
        exact not_caught_of_plainText h (hcaught hstart)
      · exact hplain

section Queries

/-- The pattern `(A) @name`. -/
def naming (name : String) : Query.Pattern := .node "A" [] [] .one [name]

variable {name : String}

theorem print_naming (name : String) : Query.print (naming name) [] = "(A) @" ++ name := by
  apply String.toList_inj.mp
  simp [naming, Query.print, Query.Pattern.print, Query.printElements, Query.printAbsent, Query.printSuffix,
    Query.Quantifier.sign, Query.printCaptures, Query.printPredicates]

theorem parse_naming (h : Query.IsCaptureName name) :
    Query.parse ("(A) @" ++ name) = .ok ⟨"(A) @" ++ name, naming name, [], [name]⟩ := by
  have htree : (naming name).WellFormed := by
    simp only [naming, Query.Pattern.WellFormed, Query.ElementsWellFormed]
    refine ⟨by decide, trivial, nofun, ?_⟩
    intro c hc
    exact List.mem_singleton.mp hc ▸ h
  have hcaptures : (naming name).allCaptures.eraseDups = [name] := by
    simp only [naming, Query.Pattern.allCaptures, Query.capturesOfElements]
    rfl
  have hparse := Query.parse_print_pattern htree rfl
  rw [hcaptures, print_naming] at hparse
  exact hparse

/-- `{{ found }}` is the text of the node that `(A) @found` binds, and is missed if no pattern declares it. -/
theorem mentionable_found :
    Query.parse "(A) @found" = .ok ⟨"(A) @found", naming "found", [], ["found"]⟩ ∧
      Mentionable "found" ∧ Caught "found" := by
  have hname : Query.IsCaptureName "found" := by decide
  have hparse : Query.parse "(A) @found" = .ok ⟨"(A) @found", naming "found", [], ["found"]⟩ := parse_naming hname
  obtain ⟨hmention, hcaught⟩ := mentionable_iff hparse
  exact ⟨hparse, (hmention "found" List.mem_cons_self).mpr (by decide), (hcaught "found" hname).1.mpr (by decide)⟩

/-- The query `(A) @1` captures, but `{{1}}` is printed as it is, and nobody notices where no pattern declares it. -/
theorem numeral_not_mentionable :
    Query.parse "(A) @1" = .ok ⟨"(A) @1", naming "1", [], ["1"]⟩ ∧
      placeholders "\x7b\x7b1\x7d\x7d" = [] ∧ Validation.checkTemplate "message" [] "\x7b\x7b1\x7d\x7d" = [] ∧
      render "\x7b\x7b1\x7d\x7d" [("1", MaybeChild.tree.root)] MaybeChild.tree.source "x" =
        .ok "\x7b\x7b1\x7d\x7d" ∧
      (MaybeChild.tree.root.textIn MaybeChild.tree.source).toText = "x" := by
  have hname : Query.IsCaptureName "1" := by decide
  have hplain : PlainText "1" := plainText_of_not_startsPlainly hname (by decide)
  obtain ⟨hnone, hsilent, hrender⟩ := hplain [] [] nofun nofun
  exact ⟨parse_naming hname, hnone, hsilent "message" [], hrender _ _ _, by decide⟩

end Queries

end Template

end RuleScan
