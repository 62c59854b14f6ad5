import RuleScan.Proofs.Query.Parsing

/-! Reading a query back from its canonical text. Main statement: parsing the text of a well-formed query
gives its pattern, its predicates and the names that it captures. -/
namespace RuleScan.Query

/-- The next token neither belongs to the suffix of a pattern nor marks the token before it as a field. -/
def Stops (ls : List Lexeme) : Prop := ∀ l ∈ ls.head?, l.1 ≠ .quantifier ∧ l.1 ≠ .capture ∧ l.1 ≠ .colon

theorem stops_nil : Stops [] := nofun

theorem stops_cons {kind : TokenKind} {value : String} {ls : List Lexeme} (hq : kind ≠ .quantifier)
    (hc : kind ≠ .capture) (hf : kind ≠ .colon) : Stops ((kind, value) :: ls) := by
  intro l hl
  obtain rfl := Option.some.inj hl
  exact ⟨hq, hc, hf⟩

section Reader

variable (t : Token) (ts : List Token) (stop : Nat) (ps : List Predicate) (names : List String)

@[simp] theorem Reader.peek_cons : (⟨t :: ts, stop, ps, names⟩ : Reader).peek = t := rfl

@[simp] theorem Reader.ahead_one_cons :
    (⟨t :: ts, stop, ps, names⟩ : Reader).ahead 1 = (⟨ts, stop, ps, names⟩ : Reader).peek := rfl

@[simp] theorem Reader.advance_cons : (⟨t :: ts, stop, ps, names⟩ : Reader).advance = ⟨ts, stop, ps, names⟩ := rfl

end Reader

section Tokens

variable {ts rest : List Token} {ls : List Lexeme} {kind : TokenKind} {value : String}

theorem exists_of_map_lexeme_cons (h : ts.map Token.lexeme = (kind, value) :: ls) :
    ∃ offset ts', ts = ⟨kind, value, offset⟩ :: ts' ∧ ts'.map Token.lexeme = ls := by
  obtain ⟨⟨k, v, offset⟩, ts', rfl, ht, hl⟩ := List.map_eq_cons_iff.mp h
  obtain ⟨rfl, rfl⟩ := Prod.mk.inj ht
  exact ⟨offset, ts', rfl, hl⟩

theorem kind_of_captureLexemes {cs : List String} (h : ts.map Token.lexeme = captureLexemes cs) :
    (∀ t ∈ ts, t.kind = .capture) ∧ ts.map (·.value) = cs := by
  constructor
  · intro t ht
    have hm : t.lexeme ∈ captureLexemes cs := h ▸ List.mem_map_of_mem ht
    obtain ⟨c, -, he⟩ := List.mem_map.mp hm
    exact (Prod.mk.inj he).1.symm
  · have hs := congrArg (List.map Prod.snd) h
    simpa [captureLexemes, Function.comp_def, Token.lexeme] using hs

end Tokens

section Suffix

variable {ts rest : List Token} {stop : Nat} {ps : List Predicate} {names cs : List String} {p : Pattern}

private theorem kind_of_stops (hrest : Stops (rest.map Token.lexeme)) :
    ∀ t ∈ rest.head?, t.kind ≠ .quantifier ∧ t.kind ≠ .capture ∧ t.kind ≠ .colon := by
  intro t ht
  have hl : t.lexeme ∈ (rest.map Token.lexeme).head? := by
    rw [List.head?_map]
    exact Option.mem_map_of_mem _ ht
  exact hrest t.lexeme hl

private theorem span_captures (h : ts.map Token.lexeme = captureLexemes cs)
    (hrest : Stops (rest.map Token.lexeme)) :
    ((ts ++ rest).takeWhile (·.kind = .capture)).map (·.value) = cs ∧
      (ts ++ rest).dropWhile (·.kind = .capture) = rest := by
  obtain ⟨hk, hv⟩ := kind_of_captureLexemes h
  obtain ⟨htake, hdrop⟩ := takeWhile_append_stop (p := fun t : Token => decide (t.kind = .capture))
    (fun t ht => decide_eq_true (hk t ht))
    (fun t ht => decide_eq_false (kind_of_stops hrest t ht).2.1)
  exact ⟨by rw [htake, hv], hdrop⟩

private theorem readSuffix_captures (h : ts.map Token.lexeme = captureLexemes cs)
    (hrest : Stops (rest.map Token.lexeme)) :
    readSuffix p ⟨ts ++ rest, stop, ps, names⟩ = (p.capturing cs, ⟨rest, stop, ps, cs.foldl addName names⟩) := by
  have hpeek : (⟨ts ++ rest, stop, ps, names⟩ : Reader).peek.kind ≠ .quantifier := by
    rcases ts with _ | ⟨t, ts⟩
    · rcases rest with _ | ⟨t, rest⟩
      · exact nofun
      · exact (kind_of_stops hrest t rfl).1
    · have hc : t.kind = .capture := (kind_of_captureLexemes h).1 t List.mem_cons_self
      intro hq
      exact absurd (hc.symm.trans hq) (by decide)
  obtain ⟨htake, hdrop⟩ := span_captures h hrest
  unfold readSuffix
  rw [if_neg hpeek]
  dsimp only
  rw [htake, hdrop]

private theorem readSuffix_quantifier {value : String} {offset : Nat} (h : ts.map Token.lexeme = captureLexemes cs)
    (hrest : Stops (rest.map Token.lexeme)) :
    readSuffix p ⟨⟨.quantifier, value, offset⟩ :: (ts ++ rest), stop, ps, names⟩ =
      ((p.quantified (quantifierOf value)).capturing cs, ⟨rest, stop, ps, cs.foldl addName names⟩) := by
  obtain ⟨htake, hdrop⟩ := span_captures h hrest
  unfold readSuffix
  rw [Reader.peek_cons, if_pos rfl, Reader.advance_cons]
  dsimp only
  rw [htake, hdrop]

theorem readSuffix_lexemes {q : Quantifier} (hp : p.quantified .one = p)
    (h : ts.map Token.lexeme = suffixLexemes q cs) (hrest : Stops (rest.map Token.lexeme)) :
    readSuffix p ⟨ts ++ rest, stop, ps, names⟩ =
      ((p.quantified q).capturing cs, ⟨rest, stop, ps, cs.foldl addName names⟩) := by
  cases q with
  | one =>
    rw [hp]
    exact readSuffix_captures h hrest
  | optional =>
    obtain ⟨offset, ts, rfl, hc⟩ := exists_of_map_lexeme_cons h
    exact readSuffix_quantifier hc hrest
  | zeroOrMore =>
    obtain ⟨offset, ts, rfl, hc⟩ := exists_of_map_lexeme_cons h
    exact readSuffix_quantifier hc hrest
  | oneOrMore =>
    obtain ⟨offset, ts, rfl, hc⟩ := exists_of_map_lexeme_cons h
    exact readSuffix_quantifier hc hrest

/-- No colon follows the suffix of a pattern. -/
theorem peek_suffix_ne_colon {q : Quantifier} (h : ts.map Token.lexeme = suffixLexemes q cs)
    (hrest : Stops (rest.map Token.lexeme)) (stop : Nat) (ps : List Predicate) (names : List String) :
    (⟨ts ++ rest, stop, ps, names⟩ : Reader).peek.kind ≠ .colon := by
  rcases ts with _ | ⟨t, ts⟩
  · rcases rest with _ | ⟨t, rest⟩
    · exact nofun
    · exact (kind_of_stops hrest t rfl).2.2
  · have hm : t.lexeme ∈ suffixLexemes q cs := h ▸ List.mem_cons_self
    rcases List.mem_append.mp hm with hq | hc
    · intro hk
      cases q <;> simp_all [Quantifier.lexemes, Token.lexeme]
    · obtain ⟨c, -, he⟩ := List.mem_map.mp hc
      intro hk
      exact absurd ((Prod.mk.inj he).1.trans hk) (by decide)

end Suffix

/-- Every pattern starts with a token, of one of four kinds. -/
theorem exists_lexemes_eq (p : Pattern) : ∃ kind value ls, p.lexemes = (kind, value) :: ls ∧
    (kind = .identifier ∨ kind = .string ∨ kind = .lbracket ∨ kind = .lparen) := by
  cases p with
  | wildcard q cs => exact ⟨_, _, _, by rw [Pattern.lexemes], .inl rfl⟩
  | literal v q cs => exact ⟨_, _, _, by rw [Pattern.lexemes], .inr (.inl rfl)⟩
  | alternation as q cs => exact ⟨_, _, _, by rw [Pattern.lexemes, List.cons_append], .inr (.inr (.inl rfl))⟩
  | node kind es absent q cs =>
    exact ⟨_, _, _, by rw [Pattern.lexemes, List.cons_append, List.cons_append], .inr (.inr (.inr rfl))⟩

theorem stops_lexemes (p : Pattern) (ls : List Lexeme) : Stops (p.lexemes ++ ls) := by
  obtain ⟨kind, value, ls', he, hk⟩ := exists_lexemes_eq p
  rw [he]
  rcases hk with rfl | rfl | rfl | rfl
  all_goals exact stops_cons nofun nofun nofun

theorem stops_alternatives (as : List Pattern) (value : String) (ls : List Lexeme) :
    Stops (alternativeLexemes as ++ (.rbracket, value) :: ls) := by
  cases as with
  | nil => exact stops_cons nofun nofun nofun
  | cons p as =>
    rw [alternativeLexemes, List.append_assoc]
    exact stops_lexemes p _

theorem stops_elements (es : List Element) (absent : List String) (value : String) (ls : List Lexeme) :
    Stops (elementLexemes es ++ absentLexemes absent ++ (.rparen, value) :: ls) := by
  rcases es with _ | ⟨⟨_ | field, p⟩, es⟩
  · cases absent with
    | nil => exact stops_cons (by decide) (by decide) (by decide)
    | cons f absent => exact stops_cons (by decide) (by decide) (by decide)
  · rw [elementLexemes, fieldLexemes, List.nil_append, List.append_assoc, List.append_assoc]
    exact stops_lexemes p _
  · exact stops_cons (by decide) (by decide) (by decide)

section Elements

variable {ts rest : List Token} {fuel start stop : Nat} {ps : List Predicate} {names : List String}

/-- A pattern without a field is not taken for an absent field, a predicate or a fielded element. -/
theorem element_start {p : Pattern} (h : ts.map Token.lexeme = p.lexemes) (hrest : Stops (rest.map Token.lexeme))
    (stop : Nat) (ps : List Predicate) (names : List String) :
    let r : Reader := ⟨ts ++ rest, stop, ps, names⟩
    r.peek.kind ≠ .rparen ∧ r.peek.kind ≠ .rbracket ∧ r.peek.kind ≠ .eof ∧ r.peek.kind ≠ .bang ∧
      r.atPredicate = false ∧ (decide (r.peek.kind = .identifier) && decide ((r.ahead 1).kind = .colon)) = false := by
  intro r
  cases p with
  | wildcard q cs =>
    rw [Pattern.lexemes] at h
    obtain ⟨offset, ts, rfl, hs⟩ := exists_of_map_lexeme_cons h
    have hc := peek_suffix_ne_colon hs hrest stop ps names
    simp [r, Reader.atPredicate, hc]
  | literal v q cs =>
    rw [Pattern.lexemes] at h
    obtain ⟨offset, ts, rfl, hs⟩ := exists_of_map_lexeme_cons h
    simp [r, Reader.atPredicate]
  | alternation as q cs =>
    rw [Pattern.lexemes] at h
    obtain ⟨offset, ts, rfl, hs⟩ := exists_of_map_lexeme_cons h
    simp [r, Reader.atPredicate]
  | node kind es absent q cs =>
    rw [Pattern.lexemes] at h
    obtain ⟨offset, ts, rfl, hs⟩ := exists_of_map_lexeme_cons h
    obtain ⟨place, ts, rfl, ht⟩ := exists_of_map_lexeme_cons hs
    simp [r, Reader.atPredicate]

theorem readElements_absent {absent : List String} {elements : List Element} {found : List String}
    (h : ts.map Token.lexeme = absentLexemes absent ++ [(.rparen, ")")]) (hf : ts.length ≤ fuel) :
    readElements fuel start ⟨ts ++ rest, stop, ps, names⟩ elements found =
      .ok (elements.reverse, found.reverse ++ absent, ⟨rest, stop, ps, names⟩) := by
  induction absent generalizing ts fuel found with
  | nil =>
    obtain ⟨offset, ts, rfl, hn⟩ := exists_of_map_lexeme_cons h
    obtain rfl := List.map_eq_nil_iff.mp hn
    obtain ⟨fuel, rfl⟩ := Nat.exists_eq_add_of_lt hf
    rw [readElements]
    simp
  | cons f absent ih =>
    obtain ⟨offset, ts, rfl, hn⟩ := exists_of_map_lexeme_cons h
    obtain ⟨place, ts, rfl, ha⟩ := exists_of_map_lexeme_cons hn
    obtain ⟨fuel, rfl⟩ : ∃ n, fuel = n + 1 := ⟨fuel - 1, by simp at hf; omega⟩
    rw [readElements]
    have hnext : readElements fuel start ⟨ts ++ rest, stop, ps, names⟩ elements (f :: found) =
        .ok (elements.reverse, (f :: found).reverse ++ absent, ⟨rest, stop, ps, names⟩) :=
      ih ha (by simp at hf; omega)
    simpa [Reader.atPredicate, Reader.expect, Bind.bind, Except.bind] using hnext

end Elements

private theorem exists_fuel {α : Type} {x : α} {xs : List α} {fuel : Nat} (h : (x :: xs).length ≤ fuel) :
    ∃ n, fuel = n + 1 := ⟨fuel - 1, by rw [List.length_cons] at h; omega⟩

private theorem lexemes_alternation (as : List Pattern) (q : Quantifier) (cs : List String) :
    (Pattern.alternation as q cs).lexemes =
      (.lbracket, "[") :: ((alternativeLexemes as ++ [(.rbracket, "]")]) ++ suffixLexemes q cs) := by
  rw [Pattern.lexemes, List.cons_append, List.append_cons]

private theorem lexemes_node (kind : Option String) (es : List Element) (absent : List String) (q : Quantifier)
    (cs : List String) : (Pattern.node kind es absent q cs).lexemes =
      (.lparen, "(") :: (.identifier, kind.getD "_") ::
        ((elementLexemes es ++ absentLexemes absent ++ [(.rparen, ")")]) ++ suffixLexemes q cs) := by
  rw [Pattern.lexemes, List.append_cons]
  simp only [List.cons_append]

private theorem exists_cons_of_lexemes {p : Pattern} {ts : List Token} (h : ts.map Token.lexeme = p.lexemes) :
    ∃ t ts', ts = t :: ts' := by
  obtain ⟨kind, value, ls, he, -⟩ := exists_lexemes_eq p
  rw [he] at h
  obtain ⟨offset, ts', hts, -⟩ := exists_of_map_lexeme_cons h
  exact ⟨_, ts', hts⟩

private theorem lexemes_elements_cons (field : Option String) (p : Pattern) (es : List Element) (ls : List Lexeme)
    (l : Lexeme) : elementLexemes ((field, p) :: es) ++ ls ++ [l] =
      fieldLexemes field ++ (p.lexemes ++ (elementLexemes es ++ ls ++ [l])) := by
  rw [elementLexemes]
  simp only [List.append_assoc]

/-- Fuel for the tokens of a pattern and of what follows it is enough for each. -/
private theorem fuel_split {t : Token} {ts us : List Token} {fuel : Nat} {l : Lexeme} {ls : List Lexeme}
    (hf : (t :: ts ++ us).length ≤ fuel + 1) (hu : us.map Token.lexeme = ls ++ [l]) :
    (t :: ts).length ≤ fuel ∧ us.length ≤ fuel := by
  have hone : us.length = ls.length + 1 := by simpa using congrArg List.length hu
  rw [List.length_append, List.length_cons] at hf
  constructor
  · rw [List.length_cons]
    omega
  · omega

mutual

/-- Reading the tokens of a pattern gives the pattern, whatever stops it, and gathers its captures. -/
theorem readPattern_lexemes : ∀ (p : Pattern), p.WellFormed → ∀ {ts rest : List Token} {fuel : Nat} (stop : Nat)
    (ps : List Predicate) (names : List String), ts.map Token.lexeme = p.lexemes →
    Stops (rest.map Token.lexeme) → ts.length ≤ fuel →
    readPattern fuel ⟨ts ++ rest, stop, ps, names⟩ =
      .ok (p, ⟨rest, stop, ps, p.allCaptures.foldl addName names⟩)
  | .wildcard q cs, hp, ts, rest, fuel, stop, ps, names, h, hrest, hf => by
    rw [Pattern.lexemes] at h
    obtain ⟨offset, ts, rfl, hs⟩ := exists_of_map_lexeme_cons h
    obtain ⟨fuel, rfl⟩ := exists_fuel hf
    rw [readPattern, Pattern.allCaptures]
    exact congrArg Except.ok (readSuffix_lexemes rfl hs hrest)
  | .literal v q cs, hp, ts, rest, fuel, stop, ps, names, h, hrest, hf => by
    rw [Pattern.lexemes] at h
    obtain ⟨offset, ts, rfl, hs⟩ := exists_of_map_lexeme_cons h
    obtain ⟨fuel, rfl⟩ := exists_fuel hf
    rw [readPattern, Pattern.allCaptures]
    exact congrArg Except.ok (readSuffix_lexemes rfl hs hrest)
  | .alternation as q cs, hp, ts, rest, fuel, stop, ps, names, h, hrest, hf => by
    rw [Pattern.WellFormed] at hp
    obtain ⟨hne, has, -⟩ := hp
    rw [lexemes_alternation] at h
    obtain ⟨offset, ts, rfl, hs⟩ := exists_of_map_lexeme_cons h
    obtain ⟨ts, us, rfl, ha, hu⟩ := List.map_eq_append_iff.mp hs
    obtain ⟨fuel, rfl⟩ := exists_fuel hf
    have hle : ts.length ≤ fuel := by simp at hf; omega
    have hr := readAlternatives_lexemes as has offset stop ps names [] (us ++ rest) ha hle
    have hfull : as.isEmpty = false := by simpa using hne
    rw [readPattern, Pattern.allCaptures, List.foldl_append, List.cons_append, List.append_assoc]
    simp only [Reader.peek_cons, Reader.advance_cons]
    rw [hr]
    dsimp only [Bind.bind, Except.bind, List.reverse_nil, List.nil_append]
    rw [hfull, if_neg Bool.false_ne_true]
    exact congrArg Except.ok (readSuffix_lexemes rfl hu hrest)
  | .node kind es absent q cs, hp, ts, rest, fuel, stop, ps, names, h, hrest, hf => by
    rw [Pattern.WellFormed] at hp
    obtain ⟨hk, hes, -, -⟩ := hp
    rw [lexemes_node] at h
    obtain ⟨offset, ts, rfl, hs⟩ := exists_of_map_lexeme_cons h
    obtain ⟨place, ts, rfl, ht⟩ := exists_of_map_lexeme_cons hs
    obtain ⟨ts, us, rfl, he, hu⟩ := List.map_eq_append_iff.mp ht
    obtain ⟨fuel, rfl⟩ := exists_fuel hf
    obtain ⟨fuel, rfl⟩ := exists_fuel (Nat.le_of_succ_le_succ hf)
    have hle : ts.length ≤ fuel := by simp at hf; omega
    have hr := readElements_lexemes es hes offset stop ps names [] absent (us ++ rest) he hle
    have hkind : (if kind.getD "_" = "_" then none else some (kind.getD "_")) = kind := by
      cases kind with
      | none => rfl
      | some k => exact if_neg (hk k rfl).2
    have hnode : readParenthesized (fuel + 1) offset
        ⟨⟨.identifier, kind.getD "_", place⟩ :: (ts ++ (us ++ rest)), stop, ps, names⟩ =
        .ok (.node kind es absent .one [], ⟨us ++ rest, stop, ps, (capturesOfElements es).foldl addName names⟩) := by
      rw [readParenthesized]
      simp only [Reader.peek_cons, Reader.advance_cons]
      rw [hr]
      exact congrArg (fun k => Except.ok (Pattern.node k es absent .one [], _)) hkind
    rw [readPattern, Pattern.allCaptures, List.foldl_append, List.cons_append, List.cons_append, List.append_assoc]
    simp only [Reader.peek_cons, Reader.advance_cons]
    rw [hnode]
    exact congrArg Except.ok (readSuffix_lexemes rfl hu hrest)

theorem readAlternatives_lexemes : ∀ (as : List Pattern), AllWellFormed as → ∀ {ts : List Token}
    {fuel : Nat} (start stop : Nat) (ps : List Predicate) (names : List String) (found : List Pattern)
    (rest : List Token),
    ts.map Token.lexeme = alternativeLexemes as ++ [(.rbracket, "]")] → ts.length ≤ fuel →
    readAlternatives fuel start ⟨ts ++ rest, stop, ps, names⟩ found =
      .ok (found.reverse ++ as, ⟨rest, stop, ps, (capturesOfAll as).foldl addName names⟩)
  | [], hp, ts, fuel, start, stop, ps, names, found, rest, h, hf => by
    rw [alternativeLexemes] at h
    obtain ⟨offset, ts, rfl, hn⟩ := exists_of_map_lexeme_cons h
    obtain rfl := List.map_eq_nil_iff.mp hn
    obtain ⟨fuel, rfl⟩ := Nat.exists_eq_add_of_lt hf
    rw [readAlternatives]
    simp [capturesOfAll]
  | p :: as, hp, ts, fuel, start, stop, ps, names, found, rest, h, hf => by
    rw [AllWellFormed] at hp
    rw [alternativeLexemes, List.append_assoc] at h
    obtain ⟨ts, us, rfl, hl, hu⟩ := List.map_eq_append_iff.mp h
    obtain ⟨t, ts, rfl⟩ := exists_cons_of_lexemes hl
    obtain ⟨fuel, rfl⟩ := exists_fuel hf
    have hstop : Stops ((us ++ rest).map Token.lexeme) := by
      rw [List.map_append, hu, List.append_assoc]
      exact stops_alternatives as _ _
    obtain ⟨-, hclose, heof, -⟩ := element_start hl hstop stop ps names
    obtain ⟨hlt, hlu⟩ := fuel_split hf hu
    rw [readAlternatives, List.append_assoc]
    dsimp only
    rw [if_neg hclose, if_neg heof, readPattern_lexemes p hp.1 stop ps names hl hstop hlt]
    dsimp only [Bind.bind, Except.bind]
    rw [readAlternatives_lexemes as hp.2 start stop ps _ (p :: found) rest hu hlu, capturesOfAll, List.foldl_append,
      List.reverse_cons, List.append_assoc, List.singleton_append]

theorem readElements_lexemes : ∀ (es : List Element), ElementsWellFormed es → ∀ {ts : List Token}
    {fuel : Nat} (start stop : Nat) (ps : List Predicate) (names : List String) (found : List Element)
    (absent : List String) (rest : List Token),
    ts.map Token.lexeme = elementLexemes es ++ absentLexemes absent ++ [(.rparen, ")")] → ts.length ≤ fuel →
    readElements fuel start ⟨ts ++ rest, stop, ps, names⟩ found [] =
      .ok (found.reverse ++ es, absent, ⟨rest, stop, ps, (capturesOfElements es).foldl addName names⟩)
  | [], hp, ts, fuel, start, stop, ps, names, found, absent, rest, h, hf => by
    rw [elementLexemes] at h
    rw [readElements_absent h hf, capturesOfElements]
    simp
  | (none, p) :: es, hp, ts, fuel, start, stop, ps, names, found, absent, rest, h, hf => by
    rw [ElementsWellFormed] at hp
    obtain ⟨-, hp, hes⟩ := hp
    rw [lexemes_elements_cons, fieldLexemes, List.nil_append] at h
    obtain ⟨ts, us, rfl, hl, hu⟩ := List.map_eq_append_iff.mp h
    obtain ⟨t, ts, rfl⟩ := exists_cons_of_lexemes hl
    obtain ⟨fuel, rfl⟩ := exists_fuel hf
    obtain ⟨hlt, hlu⟩ := fuel_split hf hu
    have hstop : Stops ((us ++ rest).map Token.lexeme) := by
      rw [List.map_append, hu, List.append_assoc]
      exact stops_elements es absent _ _
    obtain ⟨hclose, -, heof, hbang, hpred, hfield⟩ := element_start hl hstop stop ps names
    rw [readElements, List.append_assoc]
    dsimp only
    rw [if_neg hclose, if_neg heof, hpred, if_neg Bool.false_ne_true, if_neg hbang, hfield,
      if_neg Bool.false_ne_true, readPattern_lexemes p hp stop ps names hl hstop hlt]
    dsimp only [Bind.bind, Except.bind]
    rw [readElements_lexemes es hes start stop ps _ ((none, p) :: found) absent rest hu hlu, capturesOfElements,
      List.foldl_append, List.reverse_cons, List.append_assoc, List.singleton_append]
  | (some field, p) :: es, hp, ts, fuel, start, stop, ps, names, found, absent, rest, h, hf => by
    rw [ElementsWellFormed] at hp
    obtain ⟨-, hp, hes⟩ := hp
    rw [lexemes_elements_cons, fieldLexemes, List.cons_append, List.cons_append, List.nil_append] at h
    obtain ⟨offset, ts, rfl, hs⟩ := exists_of_map_lexeme_cons h
    obtain ⟨place, ts, rfl, ht⟩ := exists_of_map_lexeme_cons hs
    obtain ⟨ts, us, rfl, hl, hu⟩ := List.map_eq_append_iff.mp ht
    obtain ⟨fuel, rfl⟩ := exists_fuel hf
    have hstop : Stops ((us ++ rest).map Token.lexeme) := by
      rw [List.map_append, hu, List.append_assoc]
      exact stops_elements es absent _ _
    have hlt : ts.length ≤ fuel := by simp at hf; omega
    have hlu : us.length ≤ fuel := by simp at hf; omega
    rw [readElements]
    simp only [List.cons_append, List.append_assoc, Reader.peek_cons, Reader.advance_cons, Reader.ahead_one_cons,
      Reader.atPredicate]
    simp only [reduceCtorEq, if_false, decide_false, Bool.false_and, decide_true, Bool.true_and, if_true, Bool.false_eq_true]
    rw [readPattern_lexemes p hp stop ps names hl hstop hlt]
    dsimp only [Bind.bind, Except.bind]
    rw [readElements_lexemes es hes start stop ps _ ((some field, p) :: found) absent rest hu hlu, capturesOfElements,
      List.foldl_append, List.reverse_cons, List.append_assoc, List.singleton_append]

end

inductive Fits : Relation → List Argument → Prop
  | eq (name : String) (other : Argument) : Fits .eq [.capture name, other]
  | isMatch (name source : String) {program : Regex.Program} (h : Regex.compile source "" = .ok program) :
    Fits .isMatch [.capture name, .string source]
  | anyOf (name value : String) (values : List String) :
    Fits .anyOf (.capture name :: .string value :: values.map .string)
  | empty (name : String) : Fits .empty [.capture name]

theorem Fits.argumentProblem?_eq_none {relation : Relation} {args : List Argument} (h : Fits relation args) :
    argumentProblem? relation args = none := by
  cases h with
  | eq name other => rfl
  | isMatch name source h => simp [argumentProblem?, h]
  | anyOf name value values => simp [argumentProblem?]
  | empty name => rfl

/-- What a predicate asks, without its place. -/
def Predicate.content (p : Predicate) : Relation × Bool × List Argument := (p.relation, p.negated, p.args)

section Predicates

variable {ts rest : List Token} {stop : Nat} {ps : List Predicate} {names : List String}

theorem form?_nameOf (relation : Relation) (negated : Bool) :
    Predicate.form? (Predicate.nameOf relation negated) = some (relation, negated) := by
  cases relation <;> cases negated <;> decide

theorem readArguments_lexemes {args found : List Argument}
    (h : ts.map Token.lexeme = argumentLexemes args ++ [(.rparen, ")")]) :
    readArguments stop (ts ++ rest) found = .ok (found.reverse ++ args, rest) := by
  induction args generalizing ts found with
  | nil =>
    obtain ⟨offset, ts, rfl, hn⟩ := exists_of_map_lexeme_cons h
    obtain rfl := List.map_eq_nil_iff.mp hn
    simp [readArguments]
  | cons a args ih =>
    cases a with
    | capture name =>
      obtain ⟨offset, ts, rfl, ht⟩ := exists_of_map_lexeme_cons h
      have hnext : readArguments stop (ts ++ rest) (.capture name :: found) = _ := ih ht
      simpa [readArguments] using hnext
    | string value =>
      obtain ⟨offset, ts, rfl, ht⟩ := exists_of_map_lexeme_cons h
      have hnext : readArguments stop (ts ++ rest) (.string value :: found) = _ := ih ht
      simpa [readArguments] using hnext

theorem readPredicate_lexemes {p : Predicate} (hp : Fits p.relation p.args) (h : ts.map Token.lexeme = p.lexemes)
    (rest : List Token) (stop : Nat) (ps : List Predicate) (names : List String) :
    ∃ offset, readPredicate ⟨ts ++ rest, stop, ps, names⟩ =
      .ok ⟨rest, stop, ps ++ [{ p with offset }], names⟩ := by
  obtain ⟨start, ts, rfl, hs⟩ := exists_of_map_lexeme_cons h
  obtain ⟨offset, ts, rfl, ha⟩ := exists_of_map_lexeme_cons hs
  refine ⟨offset, ?_⟩
  unfold readPredicate
  simp [Reader.expect, Bind.bind, Except.bind, Predicate.name, form?_nameOf, readArguments_lexemes ha,
    hp.argumentProblem?_eq_none]

theorem readPredicates_lexemes {predicates : List Predicate} (hp : ∀ p ∈ predicates, Fits p.relation p.args)
    (stop : Nat) (ps : List Predicate) (names : List String) {fuel : Nat}
    (h : ts.map Token.lexeme = predicates.flatMap Predicate.lexemes) (hf : ts.length ≤ fuel) :
    ∃ found, found.map Predicate.content = predicates.map Predicate.content ∧
      readPredicates fuel ⟨ts, stop, ps, names⟩ = .ok ⟨[], stop, ps ++ found, names⟩ := by
  induction predicates generalizing ts fuel ps with
  | nil =>
    obtain rfl := List.map_eq_nil_iff.mp h
    refine ⟨[], rfl, ?_⟩
    rw [List.append_nil]
    cases fuel with
    | zero => rfl
    | succ fuel => rfl
  | cons p predicates ih =>
    obtain ⟨hfit, hfits⟩ := List.forall_mem_cons.mp hp
    rw [List.flatMap_cons] at h
    obtain ⟨ts, us, rfl, hl, hu⟩ := List.map_eq_append_iff.mp h
    obtain ⟨offset, hread⟩ := readPredicate_lexemes hfit hl us stop ps names
    have hstart : (⟨ts ++ us, stop, ps, names⟩ : Reader).atPredicate = true := by
      obtain ⟨start, ts, rfl, hs⟩ := exists_of_map_lexeme_cons hl
      obtain ⟨place, ts, rfl, -⟩ := exists_of_map_lexeme_cons hs
      rfl
    obtain ⟨t, ts, rfl⟩ : ∃ t ts', ts = t :: ts' := by
      obtain ⟨start, ts, rfl, -⟩ := exists_of_map_lexeme_cons hl
      exact ⟨_, ts, rfl⟩
    obtain ⟨fuel, rfl⟩ := exists_fuel hf
    have hle : us.length ≤ fuel := by
      rw [List.cons_append, List.length_cons, List.length_append] at hf
      omega
    obtain ⟨found, hc, hnext⟩ := ih hfits (ps ++ [{ p with offset }]) hu hle
    refine ⟨{ p with offset } :: found, by rw [List.map_cons, List.map_cons, hc]; rfl, ?_⟩
    rw [readPredicates, if_pos hstart, hread]
    dsimp only
    rw [hnext, List.append_assoc, List.singleton_append]

/-- Predicates with the same contents as ones over declared captures are over declared captures. -/
theorem undeclared?_eq_none {predicates found : List Predicate}
    (hc : found.map Predicate.content = predicates.map Predicate.content)
    (hd : ∀ p ∈ predicates, ∀ name, .capture name ∈ p.args → name ∈ names) : undeclared? names found = none := by
  refine List.findSome?_eq_none_iff.mpr fun p' hp' => List.findSome?_eq_none_iff.mpr fun a ha => ?_
  have hm : p'.content ∈ predicates.map Predicate.content := hc ▸ List.mem_map_of_mem hp'
  obtain ⟨p, hp, he⟩ := List.mem_map.mp hm
  have hargs : p.args = p'.args := (Prod.mk.inj (Prod.mk.inj he).2).2
  cases a with
  | capture name => simpa using hd p hp name (hargs ▸ ha)
  | string value => rfl

end Predicates

/-- A query that can be written: its pattern is well formed and occurs once, and each predicate has the
arguments that it takes and names only captures of the pattern. -/
structure WellFormed (pattern : Pattern) (predicates : List Predicate) : Prop where
  tree : pattern.WellFormed
  once : pattern.quantifier = .one
  fits : ∀ p ∈ predicates, Fits p.relation p.args
  declared : ∀ p ∈ predicates, ∀ name, .capture name ∈ p.args → name ∈ pattern.allCaptures

/-- Reading the tokens of a well-formed query gives the query, with its predicates at some places. -/
theorem exists_ofTokens_eq {pattern : Pattern} {predicates : List Predicate} (h : WellFormed pattern predicates)
    {tokens : List Token} (hl : tokens.map Token.lexeme = pattern.lexemes ++ predicates.flatMap Predicate.lexemes)
    (source : String) : ∃ found, found.map Predicate.content = predicates.map Predicate.content ∧
      ofTokens source tokens = .ok ⟨source, pattern, found, pattern.allCaptures.eraseDups⟩ := by
  obtain ⟨ts, us, rfl, ht, hu⟩ := List.map_eq_append_iff.mp hl
  have hstop : Stops (us.map Token.lexeme) := by
    rw [hu]
    cases predicates with
    | nil => exact stops_nil
    | cons p predicates => exact stops_cons nofun nofun nofun
  have hsome : ts ++ us ≠ [] := by
    obtain ⟨t, ts, rfl⟩ := exists_cons_of_lexemes ht
    exact List.cons_ne_nil _ _
  have hfuel : ts.length ≤ 4 * (ts ++ us).length + 4 := by
    rw [List.length_append]
    omega
  have hpattern := readPattern_lexemes pattern h.tree (Text.length source) [] [] ht hstop hfuel
  rw [foldl_addName_eq_eraseDups] at hpattern
  obtain ⟨found, hc, hpredicates⟩ := readPredicates_lexemes h.fits (Text.length source) []
    pattern.allCaptures.eraseDups hu (Nat.le_refl _)
  have hdeclared : undeclared? pattern.allCaptures.eraseDups found = none :=
    undeclared?_eq_none hc fun p hp name hm => List.mem_eraseDups.mpr (h.declared p hp name hm)
  exact ⟨found, hc, ofTokens_eq_ok_iff.mpr ⟨hsome, pattern, _, _, hpattern, hpredicates, rfl, h.once, hdeclared, rfl⟩⟩

/-- The text of a well-formed query is read as the query, with its predicates at some places. -/
theorem exists_parse_print_eq {pattern : Pattern} {predicates : List Predicate} (h : WellFormed pattern predicates) :
    ∃ found, found.map Predicate.content = predicates.map Predicate.content ∧
      parse (print pattern predicates) =
        .ok ⟨print pattern predicates, pattern, found, pattern.allCaptures.eraseDups⟩ := by
  have hnamed : ∀ p ∈ predicates, ArgumentsNamed p.args := fun p hp name hm =>
    isCaptureName_of_mem_allCaptures pattern h.tree name (h.declared p hp name hm)
  obtain ⟨tokens, hscan, hl⟩ := scan_print h.tree hnamed
  obtain ⟨found, hc, hread⟩ := exists_ofTokens_eq h hl (print pattern predicates)
  refine ⟨found, hc, ?_⟩
  rw [parse, hscan]
  exact hread

/-- Parsing undoes printing: the text of a well-formed query is read as its pattern, its predicates and,
in the order in which they are first written, the names that it captures. -/
theorem parse_print {pattern : Pattern} {predicates : List Predicate} (h : WellFormed pattern predicates) :
    ∃ query, parse (print pattern predicates) = .ok query ∧ query.pattern = pattern ∧
      query.predicates.map Predicate.content = predicates.map Predicate.content ∧
      query.captureNames = pattern.allCaptures.eraseDups := by
  obtain ⟨found, hc, hp⟩ := exists_parse_print_eq h
  exact ⟨_, hp, rfl, hc, rfl⟩

theorem parse_print_pattern {pattern : Pattern} (h : pattern.WellFormed) (hone : pattern.quantifier = .one) :
    parse (print pattern []) = .ok ⟨print pattern [], pattern, [], pattern.allCaptures.eraseDups⟩ := by
  have hquery : WellFormed pattern [] := ⟨h, hone, nofun, nofun⟩
  obtain ⟨found, hc, hp⟩ := exists_parse_print_eq hquery
  obtain rfl := List.map_eq_nil_iff.mp hc
  exact hp

/-- `(call function: (name) @f [_ "a\"b"]* @x !type) @c (#match? @f "^a") (#not-any-of? @x "\\" "p")` is read
back. -/
theorem parse_print_call :
    let pattern : Pattern := .node "call"
      [(some "function", .node "name" [] [] .one ["f"]),
        (none, .alternation [.wildcard .one [], .literal "a\"b" .one []] .zeroOrMore ["x"])] ["type"] .one ["c"]
    let predicates : List Predicate :=
      [⟨.isMatch, false, [.capture "f", .string "^a"], 0⟩, ⟨.anyOf, true, [.capture "x", .string "\\", .string "p"], 0⟩]
    ∃ query, parse (print pattern predicates) = .ok query ∧ query.pattern = pattern ∧
      query.predicates.map Predicate.content = predicates.map Predicate.content ∧
      query.captureNames = ["f", "x", "c"] := by
  intro pattern predicates
  have htree : pattern.WellFormed := by
    simp only [pattern, Pattern.WellFormed, AllWellFormed, ElementsWellFormed]
    decide
  have hfits : ∀ p ∈ predicates, Fits p.relation p.args :=
    List.forall_mem_cons.mpr ⟨.isMatch "f" "^a" rfl,
      List.forall_mem_cons.mpr ⟨.anyOf "x" "\\" ["p"], nofun⟩⟩
  have hdeclared : ∀ p ∈ predicates, ∀ name, .capture name ∈ p.args → name ∈ pattern.allCaptures := by
    simp [predicates, pattern, Pattern.allCaptures, capturesOfElements, capturesOfAll]
  obtain ⟨query, hparse, hpattern, hpredicates, hnames⟩ := parse_print ⟨htree, rfl, hfits, hdeclared⟩
  refine ⟨query, hparse, hpattern, hpredicates, hnames.trans ?_⟩
  simp only [pattern, Pattern.allCaptures, capturesOfElements, capturesOfAll]
  decide

end RuleScan.Query
