import RuleScan.Proofs.Query.Parsing

/-! What becomes of the tokens of a query. Main statement: a parsed query has the captures, the predicates and the
absent fields that were written, and as many quantifiers as were written unless a group restates one. -/
namespace RuleScan.Query

/-- The captures outside predicates; `inside` says whether a predicate is open. A predicate goes from its name to the
next closing parenthesis. -/
def capturesOutside : Bool → List Lexeme → List String
  | _, [] => []
  | _, (.predicate, _) :: ls => capturesOutside true ls
  | _, (.rparen, _) :: ls => capturesOutside false ls
  | false, (.capture, name) :: ls => name :: capturesOutside false ls
  | inside, _ :: ls => capturesOutside inside ls

/-- The arguments that the tokens start with. -/
def leadingArguments : List Lexeme → List Argument
  | (.capture, name) :: ls => .capture name :: leadingArguments ls
  | (.string, value) :: ls => .string value :: leadingArguments ls
  | _ => []

def predicatesWritten : List Lexeme → List (String × List Argument)
  | [] => []
  | (.predicate, name) :: ls => (name, leadingArguments ls) :: predicatesWritten ls
  | _ :: ls => predicatesWritten ls

def absentWritten : List Lexeme → List String
  | [] => []
  | (.bang, _) :: (.identifier, field) :: ls => field :: absentWritten ls
  | _ :: ls => absentWritten ls

def quantifiersWritten (ls : List Lexeme) : Nat := ls.countP (·.1 = .quantifier)

mutual

/-- The patterns in a pattern, in the order in which they end. -/
def Pattern.inner : Pattern → List Pattern
  | .wildcard _ _ => []
  | .literal _ _ _ => []
  | .alternation as _ _ => patternsIn as
  | .node _ es _ _ _ => patternsOf es

def patternsIn : List Pattern → List Pattern
  | [] => []
  | p :: ps => p.inner ++ p :: patternsIn ps

def patternsOf : List Element → List Pattern
  | [] => []
  | (_, p) :: es => p.inner ++ p :: patternsOf es

end

def Pattern.subpatterns (p : Pattern) : List Pattern := p.inner ++ [p]

/-- The fields that no child may carry. -/
def Pattern.absentFields : Pattern → List String
  | .node _ _ fields _ _ => fields
  | _ => []

def quantifiedAmong (ps : List Pattern) : Nat := ps.countP (·.quantifier ≠ .one)

section Tokens

variable (rest : List Lexeme)

@[simp] theorem capturesOutside_captureLexemes (cs : List String) :
    capturesOutside false (captureLexemes cs ++ rest) = cs ++ capturesOutside false rest := by
  induction cs with
  | nil => rfl
  | cons c cs ih => exact congrArg (c :: ·) ih

@[simp] theorem predicatesWritten_captureLexemes (cs : List String) :
    predicatesWritten (captureLexemes cs ++ rest) = predicatesWritten rest := by
  induction cs with
  | nil => rfl
  | cons c cs ih => exact ih

@[simp] theorem absentWritten_captureLexemes (cs : List String) :
    absentWritten (captureLexemes cs ++ rest) = absentWritten rest := by
  induction cs with
  | nil => rfl
  | cons c cs ih => exact ih

@[simp] theorem capturesOutside_suffixLexemes (q : Quantifier) (cs : List String) :
    capturesOutside false (suffixLexemes q cs ++ rest) = cs ++ capturesOutside false rest := by
  cases q <;> simp [suffixLexemes, Quantifier.lexemes, capturesOutside]

@[simp] theorem predicatesWritten_suffixLexemes (q : Quantifier) (cs : List String) :
    predicatesWritten (suffixLexemes q cs ++ rest) = predicatesWritten rest := by
  cases q <;> simp [suffixLexemes, Quantifier.lexemes, predicatesWritten]

@[simp] theorem absentWritten_suffixLexemes (q : Quantifier) (cs : List String) :
    absentWritten (suffixLexemes q cs ++ rest) = absentWritten rest := by
  cases q <;> simp [suffixLexemes, Quantifier.lexemes, absentWritten]

private theorem capturesOutside_argumentLexemes (args : List Argument) :
    capturesOutside true (argumentLexemes args ++ rest) = capturesOutside true rest := by
  induction args with
  | nil => rfl
  | cons a args ih => cases a <;> exact ih

private theorem predicatesWritten_argumentLexemes (args : List Argument) :
    predicatesWritten (argumentLexemes args ++ rest) = predicatesWritten rest := by
  induction args with
  | nil => rfl
  | cons a args ih => cases a <;> exact ih

private theorem leadingArguments_argumentLexemes (args : List Argument) (value : String) :
    leadingArguments (argumentLexemes args ++ (.rparen, value) :: rest) = args := by
  induction args with
  | nil => rfl
  | cons a args ih => cases a <;> exact congrArg (_ :: ·) ih

private theorem absentWritten_argumentLexemes (args : List Argument) :
    absentWritten (argumentLexemes args ++ rest) = absentWritten rest := by
  induction args with
  | nil => rfl
  | cons a args ih => cases a <;> exact ih

variable (inside : Bool) (p : Predicate)

@[simp] theorem capturesOutside_lexemes :
    capturesOutside inside (p.lexemes ++ rest) = capturesOutside false rest := by
  simp [Predicate.lexemes, capturesOutside, capturesOutside_argumentLexemes]

@[simp] theorem predicatesWritten_lexemes :
    predicatesWritten (p.lexemes ++ rest) = (p.name, p.args) :: predicatesWritten rest := by
  simp [Predicate.lexemes, predicatesWritten, predicatesWritten_argumentLexemes, leadingArguments_argumentLexemes]

@[simp] theorem absentWritten_lexemes : absentWritten (p.lexemes ++ rest) = absentWritten rest := by
  simp [Predicate.lexemes, absentWritten, absentWritten_argumentLexemes]

variable (ps : List Predicate)

@[simp] theorem capturesOutside_flatMap :
    capturesOutside false (ps.flatMap Predicate.lexemes ++ rest) = capturesOutside false rest := by
  induction ps with
  | nil => rfl
  | cons p ps ih => simp [ih]

@[simp] theorem predicatesWritten_flatMap :
    predicatesWritten (ps.flatMap Predicate.lexemes ++ rest) =
      ps.map (fun p => (p.name, p.args)) ++ predicatesWritten rest := by
  induction ps with
  | nil => rfl
  | cons p ps ih => simp [ih]

@[simp] theorem absentWritten_flatMap :
    absentWritten (ps.flatMap Predicate.lexemes ++ rest) = absentWritten rest := by
  induction ps with
  | nil => rfl
  | cons p ps ih => simp [ih]

@[simp] theorem quantifiersWritten_append (ls ls' : List Lexeme) :
    quantifiersWritten (ls ++ ls') = quantifiersWritten ls + quantifiersWritten ls' :=
  List.countP_append

@[simp] theorem quantifiersWritten_cons {kind : TokenKind} (h : kind ≠ .quantifier) (value : String)
    (ls : List Lexeme) : quantifiersWritten ((kind, value) :: ls) = quantifiersWritten ls := by
  simp [quantifiersWritten, h]

@[simp] theorem quantifiersWritten_captureLexemes (cs : List String) : quantifiersWritten (captureLexemes cs) = 0 := by
  simp [quantifiersWritten, captureLexemes, List.countP_map, Function.comp_def]

theorem Quantifier.length_lexemes (q : Quantifier) : q.lexemes.length = if q = .one then 0 else 1 := by
  cases q <;> rfl

@[simp] theorem quantifiersWritten_suffixLexemes (q : Quantifier) (cs : List String) :
    quantifiersWritten (suffixLexemes q cs) = q.lexemes.length := by
  rw [suffixLexemes, quantifiersWritten_append, quantifiersWritten_captureLexemes]
  cases q <;> rfl

@[simp] theorem quantifiersWritten_lexemes : quantifiersWritten p.lexemes = 0 := by
  have hargs : quantifiersWritten (argumentLexemes p.args) = 0 := by
    induction p.args with
    | nil => rfl
    | cons a args ih => cases a <;> exact ih
  have hclose : quantifiersWritten [(.rparen, ")")] = 0 := rfl
  simp [Predicate.lexemes, hargs, hclose]

@[simp] theorem quantifiersWritten_flatMap : quantifiersWritten (ps.flatMap Predicate.lexemes) = 0 := by
  induction ps with
  | nil => rfl
  | cons p ps ih => simp [ih]

variable {ls : List Lexeme} {q : Quantifier} {cs : List String}

theorem quantifiersWritten_enclosed {kind kind' : TokenKind} {value value' : String} (hopen : kind ≠ .quantifier)
    (hclose : kind' ≠ .quantifier) :
    quantifiersWritten ((kind, value) :: ls ++ (kind', value') :: suffixLexemes q cs) =
      quantifiersWritten ls + q.lexemes.length := by
  rw [quantifiersWritten_append, quantifiersWritten_cons hopen, quantifiersWritten_cons hclose,
    quantifiersWritten_suffixLexemes]

theorem quantifiersWritten_group :
    quantifiersWritten
        ((.lparen, "(") :: ls ++ (ps.flatMap Predicate.lexemes ++ (.rparen, ")") :: suffixLexemes q cs)) =
      quantifiersWritten ls + q.lexemes.length := by
  simp

end Tokens

section Trees

theorem Pattern.inner_requantified (q : Quantifier) (p : Pattern) : (p.requantified q).inner = p.inner := by
  unfold Pattern.requantified
  split
  · rfl
  · cases p <;> simp only [Pattern.quantified, Pattern.inner]

theorem Pattern.inner_capturing (names : List String) (p : Pattern) : (p.capturing names).inner = p.inner := by
  cases p <;> simp only [Pattern.capturing, Pattern.inner]

theorem Pattern.absentFields_requantified (q : Quantifier) (p : Pattern) :
    (p.requantified q).absentFields = p.absentFields := by
  unfold Pattern.requantified
  split
  · rfl
  · cases p <;> simp only [Pattern.quantified, Pattern.absentFields]

theorem Pattern.absentFields_capturing (names : List String) (p : Pattern) :
    (p.capturing names).absentFields = p.absentFields := by
  cases p <;> simp only [Pattern.capturing, Pattern.absentFields]

theorem Pattern.quantifier_quantified (q : Quantifier) (p : Pattern) : (p.quantified q).quantifier = q := by
  cases p <;> rfl

theorem Pattern.quantifier_requantified (q : Quantifier) (p : Pattern) :
    (p.requantified q).quantifier = if q = .one then p.quantifier else q := by
  unfold Pattern.requantified
  split
  · rfl
  · exact Pattern.quantifier_quantified q p

theorem Pattern.quantifier_capturing (names : List String) (p : Pattern) :
    (p.capturing names).quantifier = p.quantifier := by
  cases p <;> rfl

@[simp] theorem patternsOf_singleton (field : Option String) (p : Pattern) : patternsOf [(field, p)] = p.subpatterns :=
  rfl

theorem patternsOf_append (es es' : List Element) : patternsOf (es ++ es') = patternsOf es ++ patternsOf es' := by
  induction es with
  | nil => rfl
  | cons e es ih => rw [List.cons_append, patternsOf, patternsOf, ih, List.append_assoc, List.cons_append]

theorem patternsOf_alternatives (as : List Pattern) : patternsOf (as.map fun p => (none, p)) = patternsIn as := by
  induction as with
  | nil => rfl
  | cons p as ih => rw [List.map_cons, patternsOf, patternsIn, ih]

mutual

/-- The captures of a tree are those of its patterns. -/
theorem allCaptures_eq_flatMap : ∀ p : Pattern, p.allCaptures = p.subpatterns.flatMap Pattern.captures
  | .wildcard q cs => by simp [Pattern.allCaptures, Pattern.subpatterns, Pattern.inner, Pattern.captures]
  | .literal v q cs => by simp [Pattern.allCaptures, Pattern.subpatterns, Pattern.inner, Pattern.captures]
  | .alternation as q cs => by
    simp [Pattern.allCaptures, Pattern.subpatterns, Pattern.inner, Pattern.captures, capturesOfAll_eq_flatMap as]
  | .node kind es absent q cs => by
    simp [Pattern.allCaptures, Pattern.subpatterns, Pattern.inner, Pattern.captures, capturesOfElements_eq_flatMap es]

theorem capturesOfAll_eq_flatMap : ∀ ps : List Pattern, capturesOfAll ps = (patternsIn ps).flatMap Pattern.captures
  | [] => by simp [capturesOfAll, patternsIn]
  | p :: ps => by
    simp [capturesOfAll, patternsIn, allCaptures_eq_flatMap p, capturesOfAll_eq_flatMap ps, Pattern.subpatterns]

theorem capturesOfElements_eq_flatMap :
    ∀ es : List Element, capturesOfElements es = (patternsOf es).flatMap Pattern.captures
  | [] => by simp [capturesOfElements, patternsOf]
  | (field, p) :: es => by
    simp [capturesOfElements, patternsOf, allCaptures_eq_flatMap p, capturesOfElements_eq_flatMap es,
      Pattern.subpatterns]

end

theorem capturesOfElements_alternatives (as : List Pattern) :
    capturesOfElements (as.map fun p => (none, p)) = capturesOfAll as := by
  induction as with
  | nil => rw [List.map_nil, capturesOfElements, capturesOfAll]
  | cons p as ih => rw [List.map_cons, capturesOfElements, capturesOfAll, ih]

theorem absentFields_subpatterns (p : Pattern) :
    p.subpatterns.flatMap Pattern.absentFields = p.inner.flatMap Pattern.absentFields ++ p.absentFields := by
  rw [Pattern.subpatterns, List.flatMap_append, List.flatMap_singleton]

@[simp] theorem quantifiedAmong_nil : quantifiedAmong [] = 0 := rfl

@[simp] theorem quantifiedAmong_append (ps ps' : List Pattern) :
    quantifiedAmong (ps ++ ps') = quantifiedAmong ps + quantifiedAmong ps' :=
  List.countP_append

@[simp] theorem quantifiedAmong_singleton (p : Pattern) : quantifiedAmong [p] = p.quantifier.lexemes.length := by
  rw [quantifiedAmong, List.countP_singleton]
  cases p.quantifier <;> rfl

theorem quantifiedAmong_subpatterns (p : Pattern) :
    quantifiedAmong p.subpatterns = quantifiedAmong p.inner + p.quantifier.lexemes.length := by
  rw [Pattern.subpatterns, quantifiedAmong_append, quantifiedAmong_singleton]

theorem quantifiedAmong_group (p : Pattern) (q : Quantifier) (cs : List String) :
    quantifiedAmong ((p.requantified q).capturing cs).subpatterns =
      quantifiedAmong p.inner + max p.quantifier.lexemes.length q.lexemes.length := by
  rw [quantifiedAmong_subpatterns, Pattern.inner_capturing, Pattern.inner_requantified, Pattern.quantifier_capturing,
    Pattern.quantifier_requantified]
  split
  · next hone => simp [hone, Quantifier.lexemes]
  · next hsome =>
    rw [Quantifier.length_lexemes q, if_neg hsome, Quantifier.length_lexemes]
    split <;> rfl

end Trees

namespace Written

variable {restating : Bool} {items : List Item} {ls : List Lexeme} {ps : List Predicate}

theorem capturesOutside_append (h : Written restating items ls ps) (rest : List Lexeme) :
    capturesOutside false (ls ++ rest) = capturesOfElements (elementsOf items) ++ capturesOutside false rest := by
  induction h generalizing rest with
  | nil => simp [capturesOfElements]
  | append _ _ ih ih' => simp [ih, ih', capturesOfElements_append]
  | absent field => simp [capturesOfElements, capturesOutside]
  | predicate p => simp [capturesOfElements]
  | field field _ ih => simpa [capturesOfElements, capturesOutside] using ih rest
  | wildcard q cs => simp [capturesOfElements, capturesOutside, Pattern.allCaptures]
  | literal value q cs => simp [capturesOfElements, capturesOutside, Pattern.allCaptures]
  | alternation q cs _ _ ih =>
    simp [capturesOfElements, capturesOutside, Pattern.allCaptures, ih, capturesOfElements_alternatives]
  | node kind q cs _ ih => simp [capturesOfElements, capturesOutside, Pattern.allCaptures, ih]
  | group more q cs _ _ ih =>
    simp [capturesOfElements, capturesOutside, allCaptures_capturing, allCaptures_requantified, ih]

theorem predicatesWritten_append (h : Written restating items ls ps) (rest : List Lexeme) :
    predicatesWritten (ls ++ rest) = ps.map (fun p => (p.name, p.args)) ++ predicatesWritten rest := by
  induction h generalizing rest with
  | nil => simp
  | append _ _ ih ih' => simp [ih, ih']
  | absent field => simp [predicatesWritten]
  | predicate p => simp
  | field field _ ih => simpa [predicatesWritten] using ih rest
  | wildcard q cs => simp [predicatesWritten]
  | literal value q cs => simp [predicatesWritten]
  | alternation q cs _ _ ih => simp [predicatesWritten, ih]
  | node kind q cs _ ih => simp [predicatesWritten, ih]
  | group more q cs _ _ ih => simp [predicatesWritten, ih]

/-- Every absent field is kept with the node in which it is written. -/
theorem count_absentWritten (h : Written restating items ls ps) (rest : List Lexeme) (name : String) :
    (absentWritten (ls ++ rest)).count name =
      (absentOf items ++ (patternsOf (elementsOf items)).flatMap Pattern.absentFields ++ absentWritten rest).count
        name := by
  induction h generalizing rest with
  | nil => rfl
  | append _ _ ih ih' =>
    simp only [List.append_assoc, List.count_append, ih, ih', absentOf_append, elementsOf_append, patternsOf_append,
      List.flatMap_append]
    omega
  | absent field => rfl
  | predicate p => simp [patternsOf]
  | field field _ ih => simpa [absentWritten] using ih rest
  | wildcard q cs => simp [absentWritten, absentFields_subpatterns, Pattern.inner, Pattern.absentFields]
  | literal value q cs => simp [absentWritten, absentFields_subpatterns, Pattern.inner, Pattern.absentFields]
  | alternation q cs _ _ ih =>
    simp [absentWritten, absentFields_subpatterns, Pattern.inner, Pattern.absentFields, ih, patternsOf_alternatives]
  | node kind q cs _ ih =>
    simp only [List.cons_append, List.append_assoc, absentWritten, ih, absentWritten_suffixLexemes, List.count_append,
      absentOf_element, elementsOf_element, patternsOf_singleton, absentFields_subpatterns, Pattern.inner,
      Pattern.absentFields, List.nil_append]
    omega
  | group more q cs _ _ ih =>
    simp [absentWritten, absentFields_subpatterns, ih, Pattern.inner_capturing, Pattern.inner_requantified,
      Pattern.absentFields_capturing, Pattern.absentFields_requantified]

/-- Where no group restates a quantifier, every quantifier is kept. -/
theorem quantifiedAmong_eq (h : Written false items ls ps) :
    quantifiedAmong (patternsOf (elementsOf items)) = quantifiersWritten ls := by
  induction h with
  | nil => rfl
  | append _ _ ih ih' => simp [patternsOf_append, ih, ih']
  | absent field => rfl
  | predicate p => simp [patternsOf]
  | field field _ ih => simpa using ih
  | wildcard q cs => simp [quantifiedAmong_subpatterns, Pattern.inner, Pattern.quantifier]
  | literal value q cs => simp [quantifiedAmong_subpatterns, Pattern.inner, Pattern.quantifier]
  | alternation q cs _ _ ih =>
    rw [elementsOf_alternatives, patternsOf_alternatives] at ih
    simp [quantifiedAmong_subpatterns, Pattern.inner, Pattern.quantifier, ih]
  | node kind q cs _ ih => simp [quantifiedAmong_subpatterns, Pattern.inner, Pattern.quantifier, ih]
  | group more q cs hone _ ih =>
    rw [elementsOf_element, patternsOf_singleton, quantifiedAmong_subpatterns] at ih
    rw [elementsOf_element, patternsOf_singleton, quantifiedAmong_group, quantifiersWritten_group, ← ih]
    rcases hone with hrestating | rfl | hone
    · cases hrestating
    · simp [Quantifier.lexemes]
    · simp [hone, Quantifier.lexemes]

/-- No more quantifiers are kept than are written; with as many, no group restates one. -/
theorem quantifiedAmong_le (h : Written true items ls ps) :
    quantifiedAmong (patternsOf (elementsOf items)) ≤ quantifiersWritten ls ∧
      (quantifiedAmong (patternsOf (elementsOf items)) = quantifiersWritten ls → Written false items ls ps) := by
  induction h with
  | nil => exact ⟨Nat.le_refl _, fun _ => .nil⟩
  | append _ _ ih ih' =>
    simp only [elementsOf_append, patternsOf_append, quantifiedAmong_append, quantifiersWritten_append]
    exact ⟨by omega, fun he => (ih.2 (by omega)).append (ih'.2 (by omega))⟩
  | absent field => exact ⟨Nat.le_refl _, fun _ => .absent field⟩
  | predicate p => exact ⟨by simp [patternsOf], fun _ => .predicate p⟩
  | field field _ ih => exact ⟨by simpa using ih.1, fun he => .field field (ih.2 (by simpa using he))⟩
  | wildcard q cs =>
    exact ⟨by simp [quantifiedAmong_subpatterns, Pattern.inner, Pattern.quantifier], fun _ => .wildcard q cs⟩
  | literal value q cs =>
    exact ⟨by simp [quantifiedAmong_subpatterns, Pattern.inner, Pattern.quantifier], fun _ => .literal value q cs⟩
  | alternation q cs hsome _ ih =>
    rw [elementsOf_alternatives, patternsOf_alternatives] at ih
    simp only [elementsOf_element, patternsOf_singleton, quantifiedAmong_subpatterns, Pattern.inner,
      Pattern.quantifier, quantifiersWritten_enclosed, Nat.add_le_add_iff_right, Nat.add_right_cancel_iff, ne_eq,
      reduceCtorEq, not_false_eq_true]
    exact ⟨ih.1, fun he => by simpa using Written.alternation q cs hsome (ih.2 he)⟩
  | node kind q cs _ ih =>
    simp only [elementsOf_element, patternsOf_singleton, quantifiedAmong_subpatterns, Pattern.inner,
      Pattern.quantifier, quantifiersWritten_enclosed, Nat.add_le_add_iff_right, Nat.add_right_cancel_iff, ne_eq,
      reduceCtorEq, not_false_eq_true, quantifiersWritten_cons]
    exact ⟨ih.1, fun he => by simpa using Written.node kind q cs (ih.2 he)⟩
  | @group p ls ps more q cs _ _ ih =>
    rw [elementsOf_element, patternsOf_singleton, quantifiedAmong_subpatterns] at ih
    rw [elementsOf_element, patternsOf_singleton, quantifiedAmong_group, quantifiersWritten_group]
    refine ⟨by omega, fun he => ?_⟩
    have hone : q = .one ∨ p.quantifier = .one := by
      -- otherwise two quantifiers are written here and one is kept, which no other part makes up for
      by_contra hboth
      rw [not_or] at hboth
      simp only [Quantifier.length_lexemes, if_neg hboth.1, if_neg hboth.2] at he ih
      omega
    simpa using Written.group more q cs (.inr hone) (ih.2 (by omega))

end Written

/-- What a query keeps of its tokens: in the order in which they are written all captures outside predicates and all
predicates, and with their nodes all absent fields. -/
structure Accounted (tokens : List Token) (q : Query) : Prop where
  captures : capturesOutside false (tokens.map Token.lexeme) = q.pattern.subpatterns.flatMap Pattern.captures
  predicates : predicatesWritten (tokens.map Token.lexeme) = q.predicates.map fun p => (p.name, p.args)
  offsets : (tokens.filter (·.kind = .predicate)).map (·.offset) = q.predicates.map (·.offset)
  absent : (absentWritten (tokens.map Token.lexeme)).Perm (q.pattern.subpatterns.flatMap Pattern.absentFields)

/-- A pattern with predicates in it and after it is written so that no group has a quantifier of its own around a
pattern that has one. -/
def QuantifiesOnce (p : Pattern) (ls : List Lexeme) : Prop :=
  ∃ (lexemes : List Lexeme) (inside after : List Predicate), ls = lexemes ++ after.flatMap Predicate.lexemes ∧
    Written false [.element none p] lexemes inside

theorem Derivation.accounted_tokens {source : String} {q : Query} (d : Derivation source q) : Accounted d.tokens q where
  captures := by
    have hafter := capturesOutside_flatMap [] d.after
    rw [List.append_nil] at hafter
    rw [d.tokens_eq, d.written.capturesOutside_append, hafter, capturesOfElements_eq_flatMap, capturesOutside,
      List.append_nil, elementsOf_element, patternsOf_singleton]
  predicates := by
    have hafter := predicatesWritten_flatMap [] d.after
    rw [List.append_nil] at hafter
    rw [d.tokens_eq, d.written.predicatesWritten_append, hafter, predicatesWritten, List.append_nil,
      ← List.map_append, ← d.predicates_eq]
  offsets := d.offsets
  absent := by
    have hafter := absentWritten_flatMap [] d.after
    rw [List.append_nil] at hafter
    rw [d.tokens_eq, List.perm_iff_count]
    intro name
    rw [d.written.count_absentWritten, hafter, absentWritten, List.append_nil, absentOf_element, List.nil_append,
      elementsOf_element, patternsOf_singleton]

/-- A parsed query keeps the captures, the predicates and the absent fields that are written, and at most the
quantifiers that are written: all of them exactly if no group restates one. -/
theorem accounted_of_parse {source : String} {q : Query} (h : parse source = .ok q) :
    ∃ tokens, scan source = .ok tokens ∧ Accounted tokens q ∧
      quantifiedAmong q.pattern.subpatterns ≤ quantifiersWritten (tokens.map Token.lexeme) ∧
      (quantifiedAmong q.pattern.subpatterns = quantifiersWritten (tokens.map Token.lexeme) ↔
        QuantifiesOnce q.pattern (tokens.map Token.lexeme)) := by
  obtain ⟨d⟩ := exists_derivation h
  have hcount : quantifiersWritten (d.tokens.map Token.lexeme) = quantifiersWritten d.lexemes := by
    rw [d.tokens_eq, quantifiersWritten_append, quantifiersWritten_flatMap, Nat.add_zero]
  obtain ⟨hle, honce⟩ := d.written.quantifiedAmong_le
  refine ⟨d.tokens, d.scanned, d.accounted_tokens, hcount ▸ hle, fun he => ?_, ?_⟩
  · exact ⟨d.lexemes, d.inside, d.after, d.tokens_eq, honce (he.trans hcount)⟩
  · rintro ⟨lexemes, inside, after, htokens, hw⟩
    rw [htokens, quantifiersWritten_append, quantifiersWritten_flatMap, Nat.add_zero]
    exact hw.quantifiedAmong_eq

/-- `(A !t ((B !x)+ @b (#eq? @b @a)) f: ["d"]* @c) @a (#empty? @c)` keeps all that is written. -/
theorem accounted_of_parse_groups :
    let source := "(A !t ((B !x)+ @b (#eq? @b @a)) f: [\"d\"]* @c) @a (#empty? @c)"
    let q : Query :=
      ⟨source,
        .node "A" [(none, .node "B" [] ["x"] .oneOrMore ["b"]),
          (some "f", .alternation [.literal "d" .one []] .zeroOrMore ["c"])] ["t"] .one ["a"],
        [⟨.eq, false, [.capture "b", .capture "a"], 19⟩, ⟨.empty, false, [.capture "c"], 50⟩], ["b", "c", "a"]⟩
    parse source = .ok q ∧ ∃ tokens, scan source = .ok tokens ∧ Accounted tokens q ∧
      quantifiedAmong q.pattern.subpatterns ≤ quantifiersWritten (tokens.map Token.lexeme) ∧
      (quantifiedAmong q.pattern.subpatterns = quantifiersWritten (tokens.map Token.lexeme) ↔
        QuantifiesOnce q.pattern (tokens.map Token.lexeme)) := by
  intro source q
  have hscan : scan source = .ok
      [⟨.lparen, "(", 0⟩, ⟨.identifier, "A", 1⟩, ⟨.bang, "!", 3⟩, ⟨.identifier, "t", 4⟩, ⟨.lparen, "(", 6⟩,
        ⟨.lparen, "(", 7⟩, ⟨.identifier, "B", 8⟩, ⟨.bang, "!", 10⟩, ⟨.identifier, "x", 11⟩, ⟨.rparen, ")", 12⟩,
        ⟨.quantifier, "+", 13⟩, ⟨.capture, "b", 15⟩, ⟨.lparen, "(", 18⟩, ⟨.predicate, "eq?", 19⟩,
        ⟨.capture, "b", 24⟩, ⟨.capture, "a", 27⟩, ⟨.rparen, ")", 29⟩, ⟨.rparen, ")", 30⟩, ⟨.identifier, "f", 32⟩,
        ⟨.colon, ":", 33⟩, ⟨.lbracket, "[", 35⟩, ⟨.string, "d", 36⟩, ⟨.rbracket, "]", 39⟩, ⟨.quantifier, "*", 40⟩,
        ⟨.capture, "c", 42⟩, ⟨.rparen, ")", 44⟩, ⟨.capture, "a", 46⟩, ⟨.lparen, "(", 49⟩, ⟨.predicate, "empty?", 50⟩,
        ⟨.capture, "c", 58⟩, ⟨.rparen, ")", 60⟩] := by decide +kernel
  have hparse : parse source = .ok q := by
    rw [parse, hscan]
    rfl
  exact ⟨hparse, accounted_of_parse hparse⟩

/-- In `(A ((B)?)+)` the group restates a quantifier: two are written and one is kept. -/
theorem quantifier_restated :
    ∃ q tokens, parse "(A ((B)?)+)" = .ok q ∧ scan "(A ((B)?)+)" = .ok tokens ∧
      quantifiersWritten (tokens.map Token.lexeme) = 2 ∧ quantifiedAmong q.pattern.subpatterns = 1 := by
  let q : Query :=
    ⟨"(A ((B)?)+)", .node "A" [(none, .node "B" [] [] .oneOrMore [])] [] .one [], [], []⟩
  have hscan : scan "(A ((B)?)+)" = .ok
      [⟨.lparen, "(", 0⟩, ⟨.identifier, "A", 1⟩, ⟨.lparen, "(", 3⟩, ⟨.lparen, "(", 4⟩, ⟨.identifier, "B", 5⟩,
        ⟨.rparen, ")", 6⟩, ⟨.quantifier, "?", 7⟩, ⟨.rparen, ")", 8⟩, ⟨.quantifier, "+", 9⟩,
        ⟨.rparen, ")", 10⟩] := by decide +kernel
  have hparse : parse "(A ((B)?)+)" = .ok q := by
    rw [parse, hscan]
    rfl
  exact ⟨q, _, hparse, hscan, rfl, rfl⟩

end RuleScan.Query
