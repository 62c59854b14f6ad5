import RuleScan.Proofs.Rule.Placeholders

/-! What a template renders as: a text is scanned for placeholders once, from left to right. Main statement: a template
renders as that scan says, unless it asks for a name that the record of the bindings answers by itself. -/
namespace RuleScan

namespace Template

/-- What a text comes to when it is scanned once from left to right. A placeholder is replaced by the value of its
name, a character that starts none is kept, and what is put in is not scanned. -/
inductive Replaced (value : String → String) : List Char → List Char → Prop
  | done : Replaced value [] []
  | placeholder {name : String} {written rest out : List Char} (hwritten : Written name written)
      (hrest : Replaced value rest out) : Replaced value (written ++ rest) ((value name).toList ++ out)
  | char {c : Char} {rest out : List Char}
      (hnone : ∀ name written after, Written name written → written ++ after ≠ c :: rest)
      (hrest : Replaced value rest out) : Replaced value (c :: rest) (c :: out)

/-- The text that a name stands for: that of the match, that of the node captured under the name, or nothing. -/
def valueOf (bindings : Bindings) (base : Option Node) (source : Units) (matchText name : String) : String :=
  if name = matchName then matchText
  else
    match bindings.meaning name base with
    | .node node => (node.textIn source).toText
    | _ => ""

/-- Every name that the template asks for and that the record answers by itself with something that is no node is bound.
Where the record has no base, these are the inherent names. -/
def Answers (bindings : Bindings) (base : Option Node) (template : String) : Prop :=
  ∀ name ∈ placeholders template, Bindings.inherited base name = .noNode → ∃ node, bindings.lookup name = some node


/-- From records without a base, rendering never fails and replaces every placeholder, and nothing else of the bindings
counts than the texts of the names that are asked for. -/
structure Faithful (template : String) : Prop where
  renders : ∀ (bindings : Bindings) (source : Units) (matchText : String),
    ∃ text, render template bindings source matchText = .ok text ∧
      Replaced (valueOf bindings none source matchText) template.toList text.toList
  agree : ∀ (bindings bindings' : Bindings) (source : Units) (matchText : String),
    (∀ name ∈ placeholders template,
      valueOf bindings none source matchText name = valueOf bindings' none source matchText name) →
      render template bindings source matchText = render template bindings' source matchText

section Scanning

variable {value value' : String → String} {cs out : List Char}

def Piece.replaced (value : String → String) : Piece → List Char
  | .char c => [c]
  | .placeholder name => (value name).toList

theorem split_written_append {name : String} {written : List Char} (h : Written name written) (rest : List Char) :
    split (written ++ rest) = .placeholder name :: split rest := by
  have hread : readPlaceholder (written ++ rest) = some (name, rest) :=
    readPlaceholder_eq_some_iff.mpr ⟨written, h, rfl⟩
  obtain ⟨c, tail, htail⟩ : ∃ c tail, written ++ rest = c :: tail := by
    cases h
    exact ⟨_, _, rfl⟩
  rw [htail] at hread ⊢
  rw [split_cons, hread]

theorem split_cons_of_not_written {c : Char} {rest : List Char}
    (h : ∀ name written after, Written name written → written ++ after ≠ c :: rest) :
    split (c :: rest) = .char c :: split rest := by
  have hread : readPlaceholder (c :: rest) = none := by
    rw [Option.eq_none_iff_forall_ne_some]
    rintro ⟨name, after⟩ hread
    obtain ⟨written, hwritten, heq⟩ := readPlaceholder_eq_some_iff.mp hread
    exact h name written after hwritten heq.symm
  rw [split_cons, hread]

/-- The pieces of a text are those that the scan meets. -/
theorem replaced_iff : Replaced value cs out ↔ out = (split cs).flatMap (Piece.replaced value) := by
  constructor
  · intro h
    induction h with
    | done => rfl
    | placeholder hwritten _ ih =>
      rw [split_written_append hwritten, List.flatMap_cons, ← ih]
      rfl
    | char hnone _ ih =>
      rw [split_cons_of_not_written hnone, List.flatMap_cons, ← ih]
      rfl
  · rintro rfl
    induction hn : cs.length using Nat.strong_induction_on generalizing cs with
    | _ n ih =>
      cases cs with
      | nil => exact .done
      | cons c rest =>
        cases hread : readPlaceholder (c :: rest) with
        | some x =>
          obtain ⟨name, after⟩ := x
          have hshorter := length_readPlaceholder hread
          obtain ⟨written, hwritten, heq⟩ := readPlaceholder_eq_some_iff.mp hread
          rw [heq, split_written_append hwritten]
          exact .placeholder hwritten (ih _ (hn ▸ hshorter) rfl)
        | none =>
          have hnone : ∀ name written after, Written name written → written ++ after ≠ c :: rest := by
            intro name written after hwritten heq
            rw [readPlaceholder_eq_some_iff.mpr ⟨written, hwritten, heq.symm⟩] at hread
            cases hread
          rw [split_cons_of_not_written hnone]
          exact .char hnone (ih _ (by rw [← hn, List.length_cons]; omega) rfl)

/-- The scan is determined by the values of the names that it meets. -/
theorem Replaced.congr {template : String} (h : ∀ name ∈ placeholders template, value name = value' name)
    (hout : Replaced value template.toList out) : Replaced value' template.toList out := by
  rw [replaced_iff] at hout ⊢
  rw [hout]
  refine List.flatMap_congr fun p hp => ?_
  cases p with
  | char c => rfl
  | placeholder name => exact congrArg String.toList (h name (mem_placeholders.mpr hp))

end Scanning

section Rendering

variable {template : String} {bindings : Bindings} {base : Option Node}

theorem renderPiece_eq_ok {p : Piece} (h : ∀ name, p = .placeholder name → Bindings.inherited base name = .noNode →
      ∃ node, bindings.lookup name = some node) (source : Units) (matchText : String) :
    renderPiece bindings source matchText base p =
      .ok (String.ofList (p.replaced (valueOf bindings base source matchText))) := by
  cases p with
  | char c => rfl
  | placeholder name =>
    rw [renderPiece, Piece.replaced, String.ofList_toList, valueOf]
    split
    · rfl
    cases hmeaning : bindings.meaning name base with
    | node n => rfl
    | nothing => rfl
    | noNode =>
      obtain ⟨hnone, hinherited⟩ := Bindings.meaning_eq_noNode_iff_inherited.mp hmeaning
      obtain ⟨node, hnode⟩ := h name rfl hinherited
      rw [hnone] at hnode
      cases hnode

theorem render_of_answers (h : Answers bindings base template) (source : Units) (matchText : String) :
    render template bindings source matchText base =
      .ok (String.ofList ((pieces template).flatMap (Piece.replaced (valueOf bindings base source matchText)))) := by
  have hparts : ∀ ps : List Piece, (∀ p ∈ ps, p ∈ pieces template) →
      ps.mapM (renderPiece bindings source matchText base) =
        .ok (ps.map fun p => String.ofList (p.replaced (valueOf bindings base source matchText))) := by
    intro ps hps
    induction ps with
    | nil => rfl
    | cons p ps ih =>
      obtain ⟨hp, hps⟩ := List.forall_mem_cons.mp hps
      have hpiece := renderPiece_eq_ok (p := p)
        (fun name he hinherited => h name (mem_placeholders.mpr (he ▸ hp)) hinherited) source matchText
      rw [List.mapM_cons, hpiece, ih hps]
      rfl
  rw [render, hparts _ fun _ => id]
  have hjoin (ps : List Piece) :
      String.join (ps.map fun p => String.ofList (p.replaced (valueOf bindings base source matchText))) =
        String.ofList (ps.flatMap (Piece.replaced (valueOf bindings base source matchText))) := by
    induction ps with
    | nil => rfl
    | cons p ps ih => rw [List.map_cons, String.join_cons, ih, List.flatMap_cons, String.ofList_append]
  exact congrArg Except.ok (hjoin _)

theorem render_of_not_answers (h : ¬Answers bindings base template) (source : Units) (matchText : String) :
    render template bindings source matchText base = .error ⟨"startIndex"⟩ := by
  unfold Answers at h
  push Not at h
  obtain ⟨name, hname, hinherited, hunbound⟩ := h
  have hne : name ≠ matchName := by
    rintro rfl
    exact Bindings.inherited_ne_noNode (by decide) (by decide) base hinherited
  have hnone : bindings.lookup name = none := Option.eq_none_iff_forall_ne_some.mpr hunbound
  exact render_eq_error hname hne (Bindings.meaning_eq_noNode_iff_inherited.mpr ⟨hnone, hinherited⟩) source matchText

/-- A template renders exactly if the record answers what it asks for, and then as the scan says. -/
theorem render_eq_ok_iff {source : Units} {matchText text : String} :
    render template bindings source matchText base = .ok text ↔
      Answers bindings base template ∧
        Replaced (valueOf bindings base source matchText) template.toList text.toList := by
  have hpieces : pieces template = split template.toList := rfl
  rw [replaced_iff]
  constructor
  · intro h
    by_cases hanswers : Answers bindings base template
    · rw [render_of_answers hanswers, Except.ok.injEq] at h
      exact ⟨hanswers, by rw [← h, String.toList_ofList, hpieces]⟩
    · rw [render_of_not_answers hanswers] at h
      cases h
  · rintro ⟨hanswers, htext⟩
    rw [render_of_answers hanswers, hpieces, ← htext, String.ofList_toList]

/-- Records that answer the template and give the names that it asks for the same texts render it alike. -/
theorem render_congr {bindings' : Bindings} {base' : Option Node} {source : Units} {matchText : String}
    (h : Answers bindings base template) (h' : Answers bindings' base' template)
    (hagree : ∀ name ∈ placeholders template,
      valueOf bindings base source matchText name = valueOf bindings' base' source matchText name) :
    render template bindings source matchText base = render template bindings' source matchText base' := by
  obtain ⟨text, htext⟩ : ∃ text, render template bindings source matchText base = .ok text :=
    ⟨_, render_of_answers h source matchText⟩
  have hreplaced := (render_eq_ok_iff.mp htext).2.congr hagree
  rw [htext, render_eq_ok_iff.mpr ⟨h', hreplaced⟩]

end Rendering

theorem existsUnique_replaced (value : String → String) (cs : List Char) : ∃! out, Replaced value cs out :=
  ⟨_, replaced_iff.mpr rfl, fun _ h => replaced_iff.mp h⟩

theorem answers_of_ordinary {template : String} (h : ∀ name ∈ placeholders template, name ∉ Bindings.inherent)
    (bindings : Bindings) : Answers bindings none template :=
  fun name hname hinherited => absurd (Bindings.inherited_none_eq_noNode_iff.mp hinherited) (h name hname)

theorem faithful_iff (template : String) :
    Faithful template ↔ ∀ name ∈ placeholders template, name ∉ Bindings.inherent := by
  constructor
  · intro h name hname hinherent
    obtain ⟨text, htext, -⟩ := h.renders [] #[] ""
    have hinherited := Bindings.inherited_none_eq_noNode_iff.mpr hinherent
    obtain ⟨node, hnode⟩ := (render_eq_ok_iff.mp htext).1 name hname hinherited
    cases hnode
  · intro h
    have hanswers := answers_of_ordinary h
    constructor
    · intro bindings source matchText
      have htext := render_of_answers (hanswers bindings) source matchText
      exact ⟨_, htext, (render_eq_ok_iff.mp htext).2⟩
    · intro bindings bindings' source matchText
      exact render_congr (hanswers bindings) (hanswers bindings')

theorem renders_iff (template : String) :
    (∀ bindings base source matchText, ∃ text, render template bindings source matchText base = .ok text) ↔
      ∀ name ∈ placeholders template, name ∉ Bindings.inherent ∧ name ∉ Bindings.memberNames := by
  constructor
  · intro h name hname
    have hanswers (base : Option Node) : Bindings.inherited base name ≠ .noNode := by
      intro hinherited
      obtain ⟨text, htext⟩ := h [] base #[] ""
      obtain ⟨node, hnode⟩ := (render_eq_ok_iff.mp htext).1 name hname hinherited
      cases hnode
    constructor
    · exact fun hinherent => hanswers none (Bindings.inherited_none_eq_noNode_iff.mpr hinherent)
    · intro hmember
      obtain ⟨base, hinherited⟩ := Bindings.exists_inherited_eq_noNode hmember
      exact hanswers base hinherited
  · intro h bindings base source matchText
    have hanswers : Answers bindings base template := fun name hname hinherited =>
      absurd hinherited (Bindings.inherited_ne_noNode (h name hname).1 (h name hname).2 base)
    exact ⟨_, render_of_answers hanswers source matchText⟩

/-- What a template renders as. The scan from left to right gives one text, and this is what is rendered if every name
that the template asks for, and that the record answers by itself with something that is no node, is bound; otherwise
rendering fails. Of the bindings only the texts of the names that are asked for count. So from records without a base
rendering never fails exactly if no name that the template asks for is inherent, and from any records exactly if besides
none is the name of a member of a node. -/
theorem rendered_as_scanned (template : String) :
    (∀ value : String → String, ∃! out, Replaced value template.toList out) ∧
    (∀ (bindings : Bindings) (base : Option Node) (source : Units) (matchText text : String),
      render template bindings source matchText base = .ok text ↔ Answers bindings base template ∧
        Replaced (valueOf bindings base source matchText) template.toList text.toList) ∧
    (∀ (bindings bindings' : Bindings) (base base' : Option Node) (source : Units) (matchText : String),
      Answers bindings base template → Answers bindings' base' template →
      (∀ name ∈ placeholders template,
        valueOf bindings base source matchText name = valueOf bindings' base' source matchText name) →
      render template bindings source matchText base = render template bindings' source matchText base') ∧
    (Faithful template ↔ ∀ name ∈ placeholders template, name ∉ Bindings.inherent) ∧
    ((∀ bindings base source matchText, ∃ text, render template bindings source matchText base = .ok text) ↔
      ∀ name ∈ placeholders template, name ∉ Bindings.inherent ∧ name ∉ Bindings.memberNames) :=
  ⟨fun value => existsUnique_replaced value _, fun _ _ _ _ _ => render_eq_ok_iff,
    fun _ _ _ _ _ _ h h' => render_congr h h', faithful_iff template, renders_iff template⟩

/-- The text of the match holds a placeholder itself, which is put in as it is; nothing is bound to `b`, and what is
bound to `c` does not count. -/
theorem rendered_as_scanned_once :
    let template := "\x7b\x7b a \x7d\x7d\x7b\x7b$match\x7d\x7d\x7b\x7bb\x7d\x7d!"
    let node := MaybeChild.tree.root
    let source := MaybeChild.tree.source
    placeholders template = ["a", "$match", "b"] ∧ Faithful template ∧
      Replaced (valueOf [("a", node)] none source "\x7b\x7ba\x7d\x7d") template.toList "x\x7b\x7ba\x7d\x7d!".toList ∧
      render template [("a", node)] source "\x7b\x7ba\x7d\x7d" =
        render template [("a", node), ("c", node)] source "\x7b\x7ba\x7d\x7d" := by
  intro template node source
  have hnames : placeholders template = ["a", "$match", "b"] := by decide
  have hordinary : ∀ name ∈ placeholders template, name ∉ Bindings.inherent := by
    rw [hnames]
    decide
  have hanswers := answers_of_ordinary hordinary
  obtain ⟨-, hrender, hagree, hfaithful, -⟩ := rendered_as_scanned template
  refine ⟨hnames, hfaithful.mpr hordinary, ((hrender _ _ _ _ _).mp (by decide)).2, ?_⟩
  refine hagree _ _ _ _ _ _ (hanswers _) (hanswers _) ?_
  rw [hnames]
  decide

/-- Nothing is bound to `constructor`, so the scan leaves nothing, but rendering fails. -/
theorem inherent_not_rendered :
    placeholders "\x7b\x7bconstructor\x7d\x7d" = ["constructor"] ∧
      Replaced (valueOf [] none MaybeChild.tree.source "x") "\x7b\x7bconstructor\x7d\x7d".toList "".toList ∧
      render "\x7b\x7bconstructor\x7d\x7d" [] MaybeChild.tree.source "x" = .error ⟨"startIndex"⟩ ∧
      ¬Faithful "\x7b\x7bconstructor\x7d\x7d" := by
  have hnames : placeholders "\x7b\x7bconstructor\x7d\x7d" = ["constructor"] := by decide
  refine ⟨hnames, replaced_iff.mpr (by decide), by decide, ?_⟩
  rw [faithful_iff, hnames]
  decide

end Template

end RuleScan
