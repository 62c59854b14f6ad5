import RuleScan.Query.Parser

/-! The canonical text of a query and the tokens that it is made of. Main statement: scanning the text of
a well-formed pattern gives its tokens. -/
namespace RuleScan.Query

/-- The kind and the value of a token, without its place. -/
abbrev Lexeme := TokenKind × String

def Token.lexeme (t : Token) : Lexeme := (t.kind, t.value)

/-- A letter or low line, followed by letters, digits, low lines, dollar signs and hyphens. -/
def IsIdentifier (s : String) : Prop :=
  ∃ c cs, s.toList = c :: cs ∧ isIdentifierStart c = true ∧ ∀ d ∈ cs, isIdentifierPart d = true

/-- One or more letters, digits, low lines, dots and hyphens. -/
def IsCaptureName (s : String) : Prop := s.toList ≠ [] ∧ ∀ d ∈ s.toList, isCapturePart d = true

-- The runs are tested with `List.all`: a quantifier over characters may be decided over all of them.
instance : DecidablePred IsIdentifier := fun s =>
  match h : s.toList with
  | [] => isFalse fun ⟨c, cs, he, _⟩ => absurd (h.symm.trans he) nofun
  | c :: cs =>
    decidable_of_iff (isIdentifierStart c = true ∧ cs.all isIdentifierPart = true)
      ⟨fun ⟨hc, hcs⟩ => ⟨c, cs, h, hc, List.all_eq_true.mp hcs⟩, fun ⟨_, _, he, hc, hcs⟩ => by
        obtain ⟨rfl, rfl⟩ := List.cons.inj (h.symm.trans he)
        exact ⟨hc, List.all_eq_true.mpr hcs⟩⟩

instance : DecidablePred IsCaptureName := fun s =>
  decidable_of_iff (s.toList ≠ [] ∧ s.toList.all isCapturePart = true) (and_congr_right fun _ => List.all_eq_true)

mutual

/-- Alternations are not empty, and kinds, fields and captures can be written as names. The kind `_` is
written for any kind, so no node pattern has it as its own. -/
def Pattern.WellFormed : Pattern → Prop
  | .wildcard _ cs => ∀ c ∈ cs, IsCaptureName c
  | .literal _ _ cs => ∀ c ∈ cs, IsCaptureName c
  | .alternation as _ cs => as ≠ [] ∧ AllWellFormed as ∧ ∀ c ∈ cs, IsCaptureName c
  | .node kind es absent _ cs =>
    (∀ k ∈ kind, IsIdentifier k ∧ k ≠ "_") ∧ ElementsWellFormed es ∧ (∀ f ∈ absent, IsIdentifier f) ∧
      ∀ c ∈ cs, IsCaptureName c

def AllWellFormed : List Pattern → Prop
  | [] => True
  | p :: ps => p.WellFormed ∧ AllWellFormed ps

def ElementsWellFormed : List Element → Prop
  | [] => True
  | (field, p) :: es => (∀ f ∈ field, IsIdentifier f) ∧ p.WellFormed ∧ ElementsWellFormed es

end

def Quantifier.sign : Quantifier → List Char
  | .one => []
  | .optional => ['?']
  | .zeroOrMore => ['*']
  | .oneOrMore => ['+']

/-- The characters of a string with quotes and backslashes escaped. -/
def escaped : List Char → List Char
  | [] => []
  | c :: cs => if c = '"' ∨ c = '\\' then '\\' :: c :: escaped cs else c :: escaped cs

def quoted (s : String) : List Char := '"' :: escaped s.toList ++ ['"']

def printCaptures : List String → List Char
  | [] => []
  | name :: names => ' ' :: '@' :: name.toList ++ printCaptures names

/-- What follows every pattern: the quantifier, then the captures. -/
def printSuffix (q : Quantifier) (cs : List String) : List Char := q.sign ++ printCaptures cs

def printField : Option String → List Char
  | none => []
  | some f => f.toList ++ [':', ' ']

def printAbsent : List String → List Char
  | [] => []
  | f :: fs => ' ' :: '!' :: f.toList ++ printAbsent fs

mutual

def Pattern.print : Pattern → List Char
  | .wildcard q cs => '_' :: printSuffix q cs
  | .literal v q cs => quoted v ++ printSuffix q cs
  | .alternation as q cs => '[' :: printAlternatives as ++ ']' :: printSuffix q cs
  | .node kind es absent q cs =>
    '(' :: (kind.getD "_").toList ++ printElements es ++ printAbsent absent ++ ')' :: printSuffix q cs

def printAlternatives : List Pattern → List Char
  | [] => []
  | [p] => p.print
  | p :: ps => p.print ++ ' ' :: printAlternatives ps

def printElements : List Element → List Char
  | [] => []
  | (field, p) :: es => ' ' :: printField field ++ p.print ++ printElements es

end

def printArgument : Argument → List Char
  | .capture name => '@' :: name.toList
  | .string value => quoted value

def printArguments : List Argument → List Char
  | [] => []
  | a :: as => ' ' :: printArgument a ++ printArguments as

def Predicate.print (p : Predicate) : List Char :=
  '(' :: '#' :: p.name.toList ++ printArguments p.args ++ [')']

def printPredicates : List Predicate → List Char
  | [] => []
  | p :: ps => ' ' :: p.print ++ printPredicates ps

/-- The canonical text of a query: its pattern, then its predicates. -/
def print (pattern : Pattern) (predicates : List Predicate) : String :=
  String.ofList (pattern.print ++ printPredicates predicates)

def Quantifier.lexemes : Quantifier → List Lexeme
  | .one => []
  | .optional => [(.quantifier, "?")]
  | .zeroOrMore => [(.quantifier, "*")]
  | .oneOrMore => [(.quantifier, "+")]

def captureLexemes (cs : List String) : List Lexeme := cs.map fun c => (.capture, c)

def suffixLexemes (q : Quantifier) (cs : List String) : List Lexeme := q.lexemes ++ captureLexemes cs

def fieldLexemes : Option String → List Lexeme
  | none => []
  | some f => [(.identifier, f), (.colon, ":")]

def absentLexemes : List String → List Lexeme
  | [] => []
  | f :: fs => (.bang, "!") :: (.identifier, f) :: absentLexemes fs

mutual

def Pattern.lexemes : Pattern → List Lexeme
  | .wildcard q cs => (.identifier, "_") :: suffixLexemes q cs
  | .literal v q cs => (.string, v) :: suffixLexemes q cs
  | .alternation as q cs => (.lbracket, "[") :: alternativeLexemes as ++ (.rbracket, "]") :: suffixLexemes q cs
  | .node kind es absent q cs =>
    (.lparen, "(") :: (.identifier, kind.getD "_") :: elementLexemes es ++ absentLexemes absent ++
      (.rparen, ")") :: suffixLexemes q cs

def alternativeLexemes : List Pattern → List Lexeme
  | [] => []
  | p :: ps => p.lexemes ++ alternativeLexemes ps

def elementLexemes : List Element → List Lexeme
  | [] => []
  | (field, p) :: es => fieldLexemes field ++ p.lexemes ++ elementLexemes es

end

def argumentLexemes (as : List Argument) : List Lexeme :=
  as.map fun
    | .capture name => (.capture, name)
    | .string value => (.string, value)

def Predicate.lexemes (p : Predicate) : List Lexeme :=
  (.lparen, "(") :: (.predicate, p.name) :: argumentLexemes p.args ++ [(.rparen, ")")]

/-- Wherever it starts, scanning the characters gives tokens with these kinds and values. -/
def Lexes (cs : List Char) (ls : List Lexeme) : Prop :=
  ∀ offset, ∃ ts, scanFrom offset cs = .ok ts ∧ ts.map Token.lexeme = ls

section Scanning

variable {cs : List Char} {ls : List Lexeme}

-- The equations of the scanner take seconds to derive: named here, they are there before the proofs below need them.
attribute [simp] scanFrom.eq_1

theorem lexes_nil : Lexes [] [] := by
  intro offset
  refine ⟨[], ?_, rfl⟩
  simp

theorem Lexes.blank (h : Lexes cs ls) : Lexes (' ' :: cs) ls := by
  intro offset
  obtain ⟨ts, hs, hl⟩ := h (offset + Units.width ' ')
  refine ⟨ts, ?_, hl⟩
  rw [scanFrom, if_pos (by decide)]
  exact hs

/-- A token that is scanned in front of others. -/
private theorem lexes_of_map {ws rest : List Char} {l : Lexeme} (h : Lexes rest ls)
    (hs : ∀ offset, ∃ next t, Token.lexeme t = l ∧
      scanFrom offset ws = (scanFrom next rest).map (t :: ·)) : Lexes ws (l :: ls) := by
  intro offset
  obtain ⟨next, t, ht, he⟩ := hs offset
  obtain ⟨ts, hr, hl⟩ := h next
  refine ⟨t :: ts, ?_, by rw [List.map_cons, ht, hl]⟩
  rw [he, hr]
  rfl

theorem Lexes.single (h : Lexes cs ls) {c : Char} {kind : TokenKind} (hb : Text.isBlank c = false)
    (hc : c ≠ ';') (hk : singleKind? c = some kind) : Lexes (c :: cs) ((kind, c.toString) :: ls) := by
  refine lexes_of_map h fun offset => ⟨offset + 1, ⟨kind, c.toString, offset⟩, rfl, ?_⟩
  rw [scanFrom, hb, if_neg Bool.false_ne_true, if_neg hc, hk]

theorem takeWhile_append_stop {α : Type} {p : α → Bool} {xs ys : List α} (hx : ∀ x ∈ xs, p x = true)
    (hy : ∀ y ∈ ys.head?, p y = false) : (xs ++ ys).takeWhile p = xs ∧ (xs ++ ys).dropWhile p = ys := by
  rw [List.takeWhile_append_of_pos hx, List.dropWhile_append_of_pos hx]
  cases ys with
  | nil => simp
  | cons y ys => simp [hy y rfl]

/-- What is left of a text does not go on with characters of this kind. -/
theorem head?_dropWhile_eq_false (p : Char → Bool) (cs : List Char) : ∀ c ∈ (cs.dropWhile p).head?, p c = false := by
  intro c hc
  have hnot := List.head?_dropWhile_not p cs
  rw [Option.mem_def.mp hc] at hnot
  exact Bool.eq_false_iff.mpr (by simpa using hnot)

theorem not_blank_of_start {c : Char} (h : isIdentifierStart c = true) : Text.isBlank c = false := by
  have hle : ∀ a b : Char, a ≤ b ↔ a.toNat ≤ b.toNat := fun _ _ => Iff.rfl
  have hn : (65 ≤ c.toNat ∧ c.toNat ≤ 90) ∨ (97 ≤ c.toNat ∧ c.toNat ≤ 122) ∨ c.toNat = 95 := by
    simp only [isIdentifierStart, isLetter, Bool.or_eq_true, Bool.and_eq_true, decide_eq_true_eq, hle] at h
    rcases h with (h | h) | rfl
    · exact .inr (.inl h)
    · exact .inl h
    · exact .inr (.inr rfl)
  unfold Text.isBlank Text.isBlankCode
  simp
  omega

theorem not_special_of_start {c : Char} (h : isIdentifierStart c = true) :
    c ≠ ';' ∧ singleKind? c = none ∧ c ≠ '"' ∧ c ≠ '@' ∧ c ≠ '#' := by
  have hne : ∀ d, isIdentifierStart d = false → c ≠ d := by
    rintro d hd rfl
    rw [hd] at h
    cases h
  refine ⟨hne _ (by decide), ?_, hne _ (by decide), hne _ (by decide), hne _ (by decide)⟩
  unfold singleKind?
  split
  all_goals first | rfl | exact absurd h (by decide)

theorem Lexes.identifier (h : Lexes cs ls) {s : String} (hs : IsIdentifier s)
    (hstop : ∀ c ∈ cs.head?, isIdentifierPart c = false) : Lexes (s.toList ++ cs) ((.identifier, s) :: ls) := by
  obtain ⟨c, tail, he, hc, htail⟩ := hs
  obtain ⟨hsemi, hk, hq, hat, hhash⟩ := not_special_of_start hc
  obtain ⟨htake, hdrop⟩ := takeWhile_append_stop htail hstop
  refine lexes_of_map h fun offset =>
    ⟨offset + 1 + tail.length, ⟨.identifier, String.ofList (c :: tail), offset⟩, ?_, ?_⟩
  · rw [← he, String.ofList_toList]
    rfl
  · rw [he, List.cons_append, scanFrom, not_blank_of_start hc, if_neg Bool.false_ne_true, if_neg hsemi, hk]
    dsimp only
    rw [if_neg hq, if_neg hat, if_neg hhash, if_pos hc, htake, hdrop]

theorem Lexes.capture (h : Lexes cs ls) {s : String} (hs : IsCaptureName s)
    (hstop : ∀ c ∈ cs.head?, isCapturePart c = false) :
    Lexes ('@' :: (s.toList ++ cs)) ((.capture, s) :: ls) := by
  obtain ⟨hne, hpart⟩ := hs
  obtain ⟨htake, hdrop⟩ := takeWhile_append_stop hpart hstop
  have hfull : ¬s.toList.isEmpty = true := by simpa using hne
  refine lexes_of_map h fun offset =>
    ⟨offset + 1 + s.toList.length, ⟨.capture, String.ofList s.toList, offset⟩, ?_, ?_⟩
  · rw [String.ofList_toList]
    rfl
  · rw [scanFrom, if_neg (by decide), if_neg (by decide), show singleKind? '@' = none from rfl]
    dsimp only
    rw [if_neg (by decide), if_pos rfl, htake, hdrop, if_neg hfull]

private theorem readQuoted_escaped (start : Nat) (text rest : List Char) (offset : Nat) (acc : List Char) :
    ∃ next, readQuoted start (escaped text ++ '"' :: rest) offset acc = .ok (text.reverse ++ acc, rest, next) := by
  induction text generalizing offset acc with
  | nil => exact ⟨offset + 1, rfl⟩
  | cons c text ih =>
    rw [escaped]
    split
    · next hc =>
      obtain ⟨next, h⟩ := ih (offset + 2) (c :: acc)
      refine ⟨next, ?_⟩
      rcases hc with rfl | rfl
      · simpa [readQuoted, unescape?] using h
      · simpa [readQuoted, unescape?] using h
    · next hc =>
      obtain ⟨hq, hb⟩ := not_or.mp hc
      obtain ⟨next, h⟩ := ih (offset + Units.width c) (c :: acc)
      refine ⟨next, ?_⟩
      rw [List.cons_append, readQuoted]
      · simpa using h
      · exact hq
      · exact fun hc _ => hb hc
      · exact fun _ _ hc _ => hb hc

theorem Lexes.quoted (h : Lexes cs ls) (s : String) : Lexes (quoted s ++ cs) ((.string, s) :: ls) := by
  refine lexes_of_map h fun offset => ?_
  obtain ⟨next, hr⟩ := readQuoted_escaped offset s.toList cs (offset + 1) []
  refine ⟨next, ⟨.string, s, offset⟩, rfl, ?_⟩
  rw [Query.quoted, List.cons_append, List.cons_append, List.append_assoc, List.singleton_append, scanFrom,
    if_neg (by decide), if_neg (by decide), show singleKind? '"' = none from rfl]
  dsimp only
  rw [if_pos rfl]
  split
  · next e he =>
    rw [hr] at he
    cases he
  · next value after place he =>
    rw [hr] at he
    cases he
    simp

theorem Lexes.predicate (h : Lexes cs ls) (relation : Relation) (negated : Bool) :
    Lexes ('#' :: ((Predicate.nameOf relation negated).toList ++ cs))
      ((.predicate, Predicate.nameOf relation negated) :: ls) := by
  have hsplit : splitPredicate ((Predicate.nameOf relation negated).toList ++ cs) =
      ((Predicate.nameOf relation negated).toList, cs) := by
    cases relation <;> cases negated <;> rfl
  have hfull : ¬(Predicate.nameOf relation negated).toList.isEmpty = true := by
    cases relation <;> cases negated <;> decide
  refine lexes_of_map h fun offset =>
    ⟨offset + 1 + (Predicate.nameOf relation negated).toList.length,
      ⟨.predicate, String.ofList (Predicate.nameOf relation negated).toList, offset⟩, ?_, ?_⟩
  · rw [String.ofList_toList]
    rfl
  · rw [scanFrom, if_neg (by decide), if_neg (by decide), show singleKind? '#' = none from rfl]
    dsimp only
    rw [if_neg (by decide), if_neg (by decide), if_pos rfl, hsplit, if_neg hfull]

/-- The characters end, or go on with a blank or a closing bracket. -/
def Closes (cs : List Char) : Prop := ∀ c ∈ cs.head?, c = ' ' ∨ c = ')' ∨ c = ']'

theorem closes_blank (cs : List Char) : Closes (' ' :: cs) := fun _ h => .inl (Option.some.inj h).symm

theorem closes_rparen (cs : List Char) : Closes (')' :: cs) := fun _ h => .inr (.inl (Option.some.inj h).symm)

theorem closes_rbracket (cs : List Char) : Closes (']' :: cs) := fun _ h => .inr (.inr (Option.some.inj h).symm)

theorem Closes.not_part {p : Char → Bool} (h : Closes cs) (hp : p ' ' = false ∧ p ')' = false ∧ p ']' = false) :
    ∀ c ∈ cs.head?, p c = false := by
  intro c hc
  rcases h c hc with rfl | rfl | rfl
  · exact hp.1
  · exact hp.2.1
  · exact hp.2.2

theorem closes_printCaptures (names : List String) (hrest : Closes cs) : Closes (printCaptures names ++ cs) := by
  cases names with
  | nil => exact hrest
  | cons name names => exact closes_blank _

theorem Lexes.captures (h : Lexes cs ls) (hrest : Closes cs) {names : List String}
    (hn : ∀ c ∈ names, IsCaptureName c) : Lexes (printCaptures names ++ cs) (captureLexemes names ++ ls) := by
  induction names with
  | nil => exact h
  | cons name names ih =>
    obtain ⟨hname, hnames⟩ := List.forall_mem_cons.mp hn
    have hstop := (closes_printCaptures names hrest).not_part (p := isCapturePart) (by decide)
    have := ((ih hnames).capture hname hstop).blank
    simpa [printCaptures, captureLexemes] using this

theorem Lexes.suffix (h : Lexes cs ls) (hrest : Closes cs) (q : Quantifier) {names : List String}
    (hn : ∀ c ∈ names, IsCaptureName c) : Lexes (printSuffix q names ++ cs) (suffixLexemes q names ++ ls) := by
  have hc := h.captures hrest hn
  rw [printSuffix, suffixLexemes, List.append_assoc, List.append_assoc]
  cases q with
  | one => exact hc
  | optional => exact hc.single (by decide) (by decide) rfl
  | zeroOrMore => exact hc.single (by decide) (by decide) rfl
  | oneOrMore => exact hc.single (by decide) (by decide) rfl

private theorem suffix_not_part (hrest : Closes cs) (q : Quantifier) (names : List String) :
    ∀ c ∈ (printSuffix q names ++ cs).head?, isIdentifierPart c = false := by
  have hc := (closes_printCaptures names hrest).not_part (p := isIdentifierPart) (by decide)
  rw [printSuffix, List.append_assoc]
  cases q with
  | one => exact hc
  | optional => exact fun c h => Option.some.inj h ▸ rfl
  | zeroOrMore => exact fun c h => Option.some.inj h ▸ rfl
  | oneOrMore => exact fun c h => Option.some.inj h ▸ rfl

private theorem closes_printAbsent (fields : List String) (hrest : Closes cs) :
    Closes (printAbsent fields ++ cs) := by
  cases fields with
  | nil => exact hrest
  | cons f fields => exact closes_blank _

private theorem closes_printElements (es : List Element) (hrest : Closes cs) :
    Closes (printElements es ++ cs) := by
  rcases es with _ | ⟨⟨field, p⟩, es⟩
  · rw [printElements]
    exact hrest
  · rw [printElements]
    exact closes_blank _

theorem Lexes.absent (h : Lexes cs ls) (hrest : Closes cs) {fields : List String}
    (hf : ∀ f ∈ fields, IsIdentifier f) : Lexes (printAbsent fields ++ cs) (absentLexemes fields ++ ls) := by
  induction fields with
  | nil => exact h
  | cons f fields ih =>
    obtain ⟨hfield, hfields⟩ := List.forall_mem_cons.mp hf
    have hstop := (closes_printAbsent fields hrest).not_part (p := isIdentifierPart) (by decide)
    have := (((ih hfields).identifier hfield hstop).single (c := '!') (by decide) (by decide) rfl).blank
    simpa [printAbsent, absentLexemes] using this

theorem Lexes.field (h : Lexes cs ls) {field : Option String} (hf : ∀ f ∈ field, IsIdentifier f) :
    Lexes (printField field ++ cs) (fieldLexemes field ++ ls) := by
  cases field with
  | none => exact h
  | some f =>
    have hcolon := h.blank.single (c := ':') (by decide) (by decide) rfl
    have := hcolon.identifier (hf f rfl) (fun c hc => Option.some.inj hc ▸ rfl)
    simpa [printField, fieldLexemes] using this

end Scanning

theorem isIdentifier_wildcard : IsIdentifier "_" := ⟨'_', [], rfl, rfl, nofun⟩

mutual

/-- Scanning the text of a pattern gives its tokens, whatever closes it. -/
theorem lexes_pattern : ∀ (p : Pattern), p.WellFormed → ∀ {cs : List Char} {ls : List Lexeme},
    Lexes cs ls → Closes cs → Lexes (p.print ++ cs) (p.lexemes ++ ls)
  | .wildcard q names, hp, cs, ls, h, hrest => by
    rw [Pattern.WellFormed] at hp
    rw [Pattern.print, Pattern.lexemes]
    exact (h.suffix hrest q hp).identifier isIdentifier_wildcard (suffix_not_part hrest q names)
  | .literal v q names, hp, cs, ls, h, hrest => by
    rw [Pattern.WellFormed] at hp
    rw [Pattern.print, Pattern.lexemes, List.append_assoc]
    exact (h.suffix hrest q hp).quoted v
  | .alternation as q names, hp, cs, ls, h, hrest => by
    rw [Pattern.WellFormed] at hp
    obtain ⟨-, has, hn⟩ := hp
    have hclose := (h.suffix hrest q hn).single (c := ']') (by decide) (by decide) rfl
    have := (lexes_alternatives as has hclose (closes_rbracket _)).single (c := '[') (by decide) (by decide) rfl
    rw [Pattern.print, Pattern.lexemes]
    simpa using this
  | .node kind es absent q names, hp, cs, ls, h, hrest => by
    rw [Pattern.WellFormed] at hp
    obtain ⟨hk, hes, ha, hn⟩ := hp
    have hkind : IsIdentifier (kind.getD "_") := by
      cases kind with
      | none => exact isIdentifier_wildcard
      | some k => exact (hk k rfl).1
    have hclose := (h.suffix hrest q hn).single (c := ')') (by decide) (by decide) rfl
    have hclosed := closes_rparen (printSuffix q names ++ cs)
    have habsent := hclose.absent hclosed ha
    have helements := lexes_elements es hes habsent (closes_printAbsent absent hclosed)
    have hstop := (closes_printElements es (closes_printAbsent absent hclosed)).not_part
      (p := isIdentifierPart) (by decide)
    have := (helements.identifier hkind hstop).single (c := '(') (by decide) (by decide) rfl
    rw [Pattern.print, Pattern.lexemes]
    simpa using this

theorem lexes_alternatives : ∀ (ps : List Pattern), AllWellFormed ps → ∀ {cs : List Char} {ls : List Lexeme},
    Lexes cs ls → Closes cs → Lexes (printAlternatives ps ++ cs) (alternativeLexemes ps ++ ls)
  | [], hp, cs, ls, h, hrest => by
    rw [printAlternatives, alternativeLexemes]
    exact h
  | [p], hp, cs, ls, h, hrest => by
    rw [AllWellFormed] at hp
    rw [printAlternatives, alternativeLexemes, alternativeLexemes, List.append_nil]
    exact lexes_pattern p hp.1 h hrest
  | p :: p' :: ps, hp, cs, ls, h, hrest => by
    rw [AllWellFormed] at hp
    have := lexes_pattern p hp.1 (lexes_alternatives (p' :: ps) hp.2 h hrest).blank (closes_blank _)
    rw [printAlternatives, alternativeLexemes]
    · simpa using this
    · exact nofun

theorem lexes_elements : ∀ (es : List Element), ElementsWellFormed es → ∀ {cs : List Char} {ls : List Lexeme},
    Lexes cs ls → Closes cs → Lexes (printElements es ++ cs) (elementLexemes es ++ ls)
  | [], he, cs, ls, h, hrest => by
    rw [printElements, elementLexemes]
    exact h
  | (field, p) :: es, he, cs, ls, h, hrest => by
    rw [ElementsWellFormed] at he
    obtain ⟨hf, hp, hes⟩ := he
    have := ((lexes_pattern p hp (lexes_elements es hes h hrest) (closes_printElements es hrest)).field hf).blank
    rw [printElements, elementLexemes]
    simpa using this

end

/-- The captures among some arguments can be written. -/
def ArgumentsNamed (as : List Argument) : Prop := ∀ name, .capture name ∈ as → IsCaptureName name

private theorem closes_printArguments (as : List Argument) {cs : List Char} (hrest : Closes cs) :
    Closes (printArguments as ++ cs) := by
  cases as with
  | nil => exact hrest
  | cons a as => exact closes_blank _

theorem lexes_arguments {as : List Argument} (ha : ArgumentsNamed as) {cs : List Char} {ls : List Lexeme}
    (h : Lexes cs ls) (hrest : Closes cs) : Lexes (printArguments as ++ cs) (argumentLexemes as ++ ls) := by
  induction as with
  | nil => exact h
  | cons a as ih =>
    have has := ih fun name hm => ha name (List.mem_cons_of_mem _ hm)
    cases a with
    | capture name =>
      have hstop := (closes_printArguments as hrest).not_part (p := isCapturePart) (by decide)
      have := (has.capture (ha name List.mem_cons_self) hstop).blank
      simpa [printArguments, printArgument, argumentLexemes] using this
    | string value =>
      have := (has.quoted value).blank
      simpa [printArguments, printArgument, argumentLexemes] using this

theorem lexes_predicates {ps : List Predicate} (hp : ∀ p ∈ ps, ArgumentsNamed p.args) :
    Lexes (printPredicates ps) (ps.flatMap Predicate.lexemes) := by
  induction ps with
  | nil => exact lexes_nil
  | cons p ps ih =>
    obtain ⟨hargs, hps⟩ := List.forall_mem_cons.mp hp
    have hclose := (ih hps).single (c := ')') (by decide) (by decide) rfl
    have hname := (lexes_arguments hargs hclose (closes_rparen _)).predicate p.relation p.negated
    have := (hname.single (c := '(') (by decide) (by decide) rfl).blank
    simpa [printPredicates, Predicate.print, Predicate.lexemes, Predicate.name] using this

/-- Scanning the text of a query gives the tokens of its pattern and then those of its predicates. -/
theorem scan_print {pattern : Pattern} {predicates : List Predicate} (hp : pattern.WellFormed)
    (hps : ∀ p ∈ predicates, ArgumentsNamed p.args) :
    ∃ ts, scan (print pattern predicates) = .ok ts ∧
      ts.map Token.lexeme = pattern.lexemes ++ predicates.flatMap Predicate.lexemes := by
  have hclose : Closes (printPredicates predicates) := by
    cases predicates with
    | nil => exact nofun
    | cons p ps => exact closes_blank _
  have h := lexes_pattern pattern hp (lexes_predicates hps) hclose
  rw [scan, print, String.toList_ofList]
  exact h 0

end RuleScan.Query
