import RuleScan.Proofs.Query.Captures
import RuleScan.Proofs.Query.Printing

/-! The grammar of queries, as a relation between what is written and its tokens. Main statement: what is read was
written. The tokens that are passed while a pattern is read are those of the pattern, with the groups around it and
the predicates in it. -/
namespace RuleScan.Query

theorem bind_eq_ok {ε α β : Type} {x : Except ε α} {f : α → Except ε β} {b : β} :
    x >>= f = .ok b ↔ ∃ a, x = .ok a ∧ f a = .ok b := by
  constructor
  · intro h
    cases x with
    | error e => cases h
    | ok a => exact ⟨a, rfl, h⟩
  · rintro ⟨a, rfl, h⟩
    exact h

theorem map_eq_ok {ε α β : Type} {x : Except ε α} {f : α → β} {b : β} :
    x.map f = .ok b ↔ ∃ a, x = .ok a ∧ f a = b := by
  cases x with
  | error e => exact ⟨nofun, fun ⟨_, h, _⟩ => nomatch h⟩
  | ok a => simp [Except.map]

/-- What a token of its kind can hold. -/
def Genuine : Lexeme → Prop
  | (.lparen, value) => value = "("
  | (.rparen, value) => value = ")"
  | (.lbracket, value) => value = "["
  | (.rbracket, value) => value = "]"
  | (.colon, value) => value = ":"
  | (.bang, value) => value = "!"
  | (.quantifier, value) => value = "?" ∨ value = "*" ∨ value = "+"
  | (.capture, value) => IsCaptureName value
  | (.identifier, value) => IsIdentifier value
  | (.predicate, _) => True
  | (.string, _) => True
  | (.eof, _) => False

theorem genuine_of_singleKind? {c : Char} {kind : TokenKind} (h : singleKind? c = some kind) :
    Genuine (kind, c.toString) := by
  unfold singleKind? at h
  split at h
  case h_7 | h_8 | h_9 =>
    cases h
    simp only [Genuine]
    decide
  case h_10 => cases h
  all_goals
    cases h
    rfl

/-- Scanned tokens hold what their kinds can hold. -/
theorem genuine_of_scanFrom {offset : Nat} {cs : List Char} {ts : List Token} (h : scanFrom offset cs = .ok ts) :
    ∀ t ∈ ts, Genuine t.lexeme := by
  fun_induction scanFrom offset cs generalizing ts with
  | case1 =>
    cases h
    exact nofun
  | case2 _ _ _ _ ih => exact ih h
  | case3 _ _ _ ih => exact ih h
  | case4 offset c rest _ _ kind hkind ih =>
    obtain ⟨ts, hts, rfl⟩ := map_eq_ok.mp h
    exact List.forall_mem_cons.mpr ⟨genuine_of_singleKind? hkind, ih hts⟩
  | case6 _ _ _ _ _ _ _ _ _ ih =>
    obtain ⟨ts, hts, rfl⟩ := map_eq_ok.mp h
    exact List.forall_mem_cons.mpr ⟨trivial, ih hts⟩
  | case8 =>
    rename_i rest name hname _ _ _ _ ih
    obtain ⟨ts, hts, rfl⟩ := map_eq_ok.mp h
    refine List.forall_mem_cons.mpr ⟨?_, ih hts⟩
    change IsCaptureName (String.ofList name)
    rw [IsCaptureName, String.toList_ofList]
    exact ⟨by simpa using hname, List.all_eq_true.mp List.all_takeWhile⟩
  | case10 =>
    rename_i ih
    obtain ⟨ts, hts, rfl⟩ := map_eq_ok.mp h
    exact List.forall_mem_cons.mpr ⟨trivial, ih hts⟩
  | case11 offset c cs hblank hcomment hkind hquote hcapture hpredicate hstart tail =>
    rename_i ih
    obtain ⟨ts, hts, rfl⟩ := map_eq_ok.mp h
    refine List.forall_mem_cons.mpr ⟨⟨c, _, String.toList_ofList, hstart, ?_⟩, ih hts⟩
    exact List.all_eq_true.mp List.all_takeWhile
  | case5 | case7 | case9 | case12 => cases h

/-- What may stand between the brackets of a pattern. -/
inductive Item where
  | element (field : Option String) (p : Pattern)
  | absent (field : String)
  | predicate (p : Predicate)

namespace Item

def element? : Item → Option Element
  | .element field p => some (field, p)
  | _ => none

def absent? : Item → Option String
  | .absent field => some field
  | _ => none

end Item

def elementsOf (items : List Item) : List Element := items.filterMap Item.element?

def absentOf (items : List Item) : List String := items.filterMap Item.absent?

section Items

variable (items items' : List Item) (field : String) (p : Pattern)

@[simp] theorem elementsOf_nil : elementsOf [] = [] := rfl

@[simp] theorem absentOf_nil : absentOf [] = [] := rfl

@[simp] theorem elementsOf_append : elementsOf (items ++ items') = elementsOf items ++ elementsOf items' :=
  List.filterMap_append

@[simp] theorem absentOf_append : absentOf (items ++ items') = absentOf items ++ absentOf items' :=
  List.filterMap_append

@[simp] theorem elementsOf_element (field : Option String) : elementsOf [.element field p] = [(field, p)] := rfl

@[simp] theorem absentOf_element (field : Option String) : absentOf [.element field p] = [] := rfl

@[simp] theorem elementsOf_absent : elementsOf [.absent field] = [] := rfl

@[simp] theorem absentOf_absent : absentOf [.absent field] = [field] := rfl

@[simp] theorem elementsOf_predicate (p : Predicate) : elementsOf [.predicate p] = [] := rfl

@[simp] theorem absentOf_predicate (p : Predicate) : absentOf [.predicate p] = [] := rfl

@[simp] theorem elementsOf_alternatives (as : List Pattern) :
    elementsOf (as.map (.element none)) = as.map fun p => (none, p) := by
  induction as with
  | nil => rfl
  | cons p as ih => exact congrArg ((none, p) :: ·) ih

@[simp] theorem absentOf_alternatives (as : List Pattern) : absentOf (as.map (.element none)) = [] := by
  induction as with
  | nil => rfl
  | cons p as ih => exact ih

end Items

def Pattern.requantified (q : Quantifier) (p : Pattern) : Pattern := if q = .one then p else p.quantified q

theorem Pattern.requantified_of_one {p : Pattern} (h : p.quantifier = .one) (q : Quantifier) :
    p.requantified q = p.quantified q := by
  unfold requantified
  split
  · next hq =>
    subst hq
    cases p <;> cases h <;> rfl
  · rfl

/-- How items are written, and the predicates in them. Unless `restating`, a group has a quantifier of its own only
around a pattern that has none. -/
inductive Written (restating : Bool) : List Item → List Lexeme → List Predicate → Prop where
  | nil : Written restating [] [] []
  | append {items items' : List Item} {ls ls' : List Lexeme} {ps ps' : List Predicate} :
    Written restating items ls ps → Written restating items' ls' ps' →
    Written restating (items ++ items') (ls ++ ls') (ps ++ ps')
  | absent (field : String) : Written restating [.absent field] [(.bang, "!"), (.identifier, field)] []
  | predicate (p : Predicate) : Written restating [.predicate p] p.lexemes [p]
  | field (field : String) {p : Pattern} {ls : List Lexeme} {ps : List Predicate} :
    Written restating [.element none p] ls ps →
    Written restating [.element (some field) p] ((.identifier, field) :: (.colon, ":") :: ls) ps
  | wildcard (q : Quantifier) (cs : List String) :
    Written restating [.element none (.wildcard q cs)] ((.identifier, "_") :: suffixLexemes q cs) []
  | literal (value : String) (q : Quantifier) (cs : List String) :
    Written restating [.element none (.literal value q cs)] ((.string, value) :: suffixLexemes q cs) []
  | alternation {as : List Pattern} {ls : List Lexeme} {ps : List Predicate} (q : Quantifier) (cs : List String) :
    as ≠ [] → Written restating (as.map (.element none)) ls ps →
    Written restating [.element none (.alternation as q cs)]
      ((.lbracket, "[") :: ls ++ (.rbracket, "]") :: suffixLexemes q cs) ps
  | node (kind : String) {items : List Item} {ls : List Lexeme} {ps : List Predicate} (q : Quantifier)
    (cs : List String) : Written restating items ls ps →
    Written restating
      [.element none (.node (if kind = "_" then none else some kind) (elementsOf items) (absentOf items) q cs)]
      ((.lparen, "(") :: (.identifier, kind) :: ls ++ (.rparen, ")") :: suffixLexemes q cs) ps
  | group {p : Pattern} {ls : List Lexeme} {ps : List Predicate} (more : List Predicate) (q : Quantifier)
    (cs : List String) : restating = true ∨ q = .one ∨ p.quantifier = .one → Written restating [.element none p] ls ps →
    Written restating [.element none ((p.requantified q).capturing cs)]
      ((.lparen, "(") :: ls ++ (more.flatMap Predicate.lexemes ++ (.rparen, ")") :: suffixLexemes q cs)) (ps ++ more)

namespace Reader

/-- All tokens that are left hold what their kinds can hold. -/
def Genuine (r : Reader) : Prop := ∀ t ∈ r.tokens, Query.Genuine t.lexeme

theorem tokens_eq {r : Reader} (h : r.peek.kind ≠ .eof) : r.tokens = r.peek :: r.advance.tokens := by
  cases ht : r.tokens with
  | nil => simp [peek, ahead, ht] at h
  | cons t ts => simp [peek, ahead, advance, ht]

theorem ahead_one (r : Reader) : r.ahead 1 = r.advance.peek := by
  simp [peek, ahead, advance, List.getD_eq_getElem?_getD]

end Reader

/-- Reading from `r` to `r'` passed these tokens and gathered these predicates and captures. -/
structure Reads (r : Reader) (ls : List Lexeme) (ps : List Predicate) (names : List String) (r' : Reader) : Prop where
  tokens : ∃ ts, r.tokens = ts ++ r'.tokens ∧ ts.map Token.lexeme = ls ∧
    (ts.filter (·.kind = .predicate)).map (·.offset) = ps.map (·.offset)
  stop : r'.stop = r.stop
  predicates : r'.predicates = r.predicates ++ ps
  captures : r'.captureNames = names.foldl addName r.captureNames
  fits : ∀ p ∈ ps, argumentProblem? p.relation p.args = none

namespace Reads

variable {r r' r'' : Reader} {ls ls' : List Lexeme} {ps ps' : List Predicate} {names names' : List String}

theorem refl (r : Reader) : Reads r [] [] [] r where
  tokens := ⟨[], rfl, rfl, rfl⟩
  stop := rfl
  predicates := (List.append_nil _).symm
  captures := rfl
  fits := nofun

theorem trans (h : Reads r ls ps names r') (h' : Reads r' ls' ps' names' r'') :
    Reads r (ls ++ ls') (ps ++ ps') (names ++ names') r'' where
  tokens := by
    obtain ⟨ts, ht, hl, hp⟩ := h.tokens
    obtain ⟨ts', ht', hl', hp'⟩ := h'.tokens
    refine ⟨ts ++ ts', ?_, ?_, ?_⟩
    · rw [ht, ht', List.append_assoc]
    · rw [List.map_append, hl, hl']
    · rw [List.filter_append, List.map_append, List.map_append, hp, hp']
  stop := h'.stop.trans h.stop
  predicates := by rw [h'.predicates, h.predicates, List.append_assoc]
  captures := by rw [h'.captures, h.captures, List.foldl_append]
  fits p hp := (List.mem_append.mp hp).elim (h.fits p) (h'.fits p)

theorem genuine (h : Reads r ls ps names r') (hr : r.Genuine) : r'.Genuine := by
  obtain ⟨ts, ht, -⟩ := h.tokens
  intro t hm
  exact hr t (ht ▸ List.mem_append_right ts hm)

theorem advance (heof : r.peek.kind ≠ .eof) (hpredicate : r.peek.kind ≠ .predicate) :
    Reads r [r.peek.lexeme] [] [] r.advance := by
  refine ⟨⟨[r.peek], Reader.tokens_eq heof, rfl, ?_⟩, rfl, (List.append_nil _).symm, rfl, nofun⟩
  simp [hpredicate]

/-- Passing a token of a kind that can hold one value only. -/
theorem sign (hr : r.Genuine) {kind : TokenKind} {value : String} (hpeek : r.peek.kind = kind)
    (heof : kind ≠ .eof) (hpredicate : kind ≠ .predicate) (hvalue : ∀ v, Query.Genuine (kind, v) → v = value) :
    Reads r [(kind, value)] [] [] r.advance := by
  have hmem : r.peek ∈ r.tokens := Reader.tokens_eq (hpeek ▸ heof) ▸ List.mem_cons_self
  have hlexeme : r.peek.lexeme = (kind, value) := by
    have hgenuine := hr r.peek hmem
    rw [Token.lexeme, hpeek] at hgenuine ⊢
    rw [hvalue _ hgenuine]
  rw [← hlexeme]
  exact advance (hpeek ▸ heof) (hpeek ▸ hpredicate)

theorem expect {kind : TokenKind} {t : Token} (h : r.expect kind = .ok (t, r')) :
    r.peek = t ∧ t.kind = kind ∧ r' = r.advance := by
  unfold Reader.expect at h
  dsimp only at h
  split at h
  · next hkind =>
    cases h
    exact ⟨rfl, hkind, rfl⟩
  · cases h

end Reads

section Reading

variable {r r' : Reader}

/-- The tokens of arguments up to the closing parenthesis, none of which starts a predicate. -/
theorem exists_of_readArguments {stop : Nat} {ts rest : List Token} {acc args : List Argument}
    (hts : ∀ t ∈ ts, Genuine t.lexeme) (h : readArguments stop ts acc = .ok (args, rest)) :
    ∃ more used, args = acc.reverse ++ more ∧ ts = used ++ rest ∧
      used.map Token.lexeme = argumentLexemes more ++ [(.rparen, ")")] := by
  fun_induction readArguments stop ts acc with
  | case1 | case5 => cases h
  | case2 t ts acc hkind =>
    cases h
    have hvalue : t.lexeme = (.rparen, ")") := by
      have hgenuine := hts t List.mem_cons_self
      rw [Token.lexeme, hkind] at hgenuine ⊢
      rw [hgenuine]
    exact ⟨[], [t], (List.append_nil _).symm, rfl, by rw [List.map_singleton, hvalue]; rfl⟩
  | case3 t ts acc hkind ih =>
    obtain ⟨more, used, rfl, rfl, hl⟩ := ih (fun t ht => hts t (List.mem_cons_of_mem _ ht)) h
    refine ⟨.capture t.value :: more, t :: used, by simp, rfl, ?_⟩
    rw [List.map_cons, hl, Token.lexeme, hkind]
    rfl
  | case4 t ts acc hkind ih =>
    obtain ⟨more, used, rfl, rfl, hl⟩ := ih (fun t ht => hts t (List.mem_cons_of_mem _ ht)) h
    refine ⟨.string t.value :: more, t :: used, by simp, rfl, ?_⟩
    rw [List.map_cons, hl, Token.lexeme, hkind]
    rfl

theorem filter_predicate_argumentLexemes {used : List Token} {args : List Argument}
    (h : used.map Token.lexeme = argumentLexemes args ++ [(.rparen, ")")]) :
    used.filter (·.kind = .predicate) = [] := by
  refine List.filter_eq_nil_iff.mpr fun t ht => ?_
  have hm : t.lexeme ∈ argumentLexemes args ++ [(.rparen, ")")] := h ▸ List.mem_map_of_mem ht
  rw [decide_eq_true_eq]
  intro hkind
  rcases List.mem_append.mp hm with hm | hm
  · obtain ⟨a, -, he⟩ := List.mem_map.mp hm
    cases a <;> exact absurd ((Prod.mk.inj he).1.trans hkind) nofun
  · obtain he := List.mem_singleton.mp hm
    exact absurd ((Prod.mk.inj he).1.symm.trans hkind) nofun

theorem nameOf_of_form? {name : String} {relation : Relation} {negated : Bool}
    (h : Predicate.form? name = some (relation, negated)) : Predicate.nameOf relation negated = name := by
  simpa using List.find?_some h

theorem exists_reads_of_readPredicate (hr : r.Genuine) (h : readPredicate r = .ok r') :
    ∃ p, Reads r p.lexemes [p] [] r' := by
  unfold readPredicate at h
  obtain ⟨⟨t, r₁⟩, h₁, h⟩ := bind_eq_ok.mp h
  obtain ⟨⟨name, r₂⟩, h₂, h⟩ := bind_eq_ok.mp h
  dsimp only at h
  split at h
  · cases h
  next relation negated hform =>
  obtain ⟨⟨args, rest⟩, hargs, h⟩ := bind_eq_ok.mp h
  dsimp only at h
  split at h
  · cases h
  next hfit =>
  cases h
  obtain ⟨rfl, hopen, rfl⟩ := Reads.expect h₁
  obtain ⟨rfl, hname, rfl⟩ := Reads.expect h₂
  have hparen : Reads r [(.lparen, "(")] [] [] r.advance := Reads.sign hr hopen nofun nofun fun _ hv => hv
  have heof : r.advance.peek.kind ≠ .eof := by simp [hname]
  have htokens := Reader.tokens_eq heof
  have hgenuine : ∀ t ∈ r.advance.advance.tokens, Genuine t.lexeme := fun t ht =>
    hparen.genuine hr t (htokens ▸ List.mem_cons_of_mem _ ht)
  obtain ⟨more, used, hmore, hused, hl⟩ := exists_of_readArguments hgenuine hargs
  obtain rfl : args = more := by simpa using hmore
  refine ⟨⟨relation, negated, args, r.advance.peek.offset⟩, ?_⟩
  refine hparen.trans ⟨⟨r.advance.peek :: used, ?_, ?_, ?_⟩, rfl, rfl, rfl, ?_⟩
  · rw [htokens, hused, List.cons_append]
  · rw [List.map_cons, hl, Token.lexeme, hname, ← nameOf_of_form? hform]
    rfl
  · rw [List.filter_cons_of_pos (by simp [hname]), filter_predicate_argumentLexemes hl]
    rfl
  · intro p hp
    obtain rfl := List.mem_singleton.mp hp
    exact hfit

theorem exists_reads_of_readPredicates {fuel : Nat} (hr : r.Genuine) (h : readPredicates fuel r = .ok r') :
    ∃ ps, Reads r (ps.flatMap Predicate.lexemes) ps [] r' := by
  induction fuel generalizing r with
  | zero =>
    cases h
    exact ⟨[], .refl _⟩
  | succ fuel ih =>
    rw [readPredicates] at h
    split at h
    · split at h
      · next hone =>
        obtain ⟨p, hp⟩ := exists_reads_of_readPredicate hr hone
        obtain ⟨ps, hps⟩ := ih (hp.genuine hr) h
        exact ⟨p :: ps, hp.trans hps⟩
      · cases h
    · cases h
      exact ⟨[], .refl _⟩

theorem lexemes_quantifierOf {value : String} (h : Genuine (.quantifier, value)) :
    (quantifierOf value).lexemes = [(.quantifier, value)] := by
  rcases h with rfl | rfl | rfl <;> rfl

/-- The captures after a pattern. -/
theorem reads_captures (r : Reader) :
    let names := (r.tokens.takeWhile (·.kind = .capture)).map (·.value)
    Reads r (captureLexemes names) [] names
      { r with
        tokens := r.tokens.dropWhile (·.kind = .capture)
        captureNames := names.foldl addName r.captureNames } := by
  intro names
  have hkind : ∀ t ∈ r.tokens.takeWhile (·.kind = .capture), t.kind = .capture := by
    intro t ht
    simpa using List.all_eq_true.mp List.all_takeWhile t ht
  refine ⟨⟨r.tokens.takeWhile (·.kind = .capture), List.takeWhile_append_dropWhile.symm, ?_, ?_⟩, rfl,
    (List.append_nil _).symm, rfl, nofun⟩
  · rw [captureLexemes, List.map_map]
    exact List.map_congr_left fun t ht => by rw [Token.lexeme, hkind t ht]; rfl
  · rw [List.filter_eq_nil_iff.mpr fun t ht => by simp [hkind t ht]]
    rfl

theorem exists_of_readSuffix (hr : r.Genuine) (p : Pattern) : ∃ q cs,
    (readSuffix p r).1 = (p.requantified q).capturing cs ∧ Reads r (suffixLexemes q cs) [] cs (readSuffix p r).2 := by
  unfold readSuffix
  by_cases hq : r.peek.kind = .quantifier
  · have heof : r.peek.kind ≠ .eof := by simp [hq]
    have hlexemes : (quantifierOf r.peek.value).lexemes = [r.peek.lexeme] := by
      have hgenuine := hr r.peek (Reader.tokens_eq heof ▸ List.mem_cons_self)
      rw [Token.lexeme, hq] at hgenuine ⊢
      exact lexemes_quantifierOf hgenuine
    have hsome : quantifierOf r.peek.value ≠ .one := by
      intro hone
      rw [hone] at hlexemes
      cases hlexemes
    rw [if_pos hq]
    refine ⟨quantifierOf r.peek.value, _, by rw [Pattern.requantified, if_neg hsome], ?_⟩
    rw [suffixLexemes, hlexemes]
    exact (Reads.advance heof (by simp [hq])).trans (reads_captures r.advance)
  · rw [if_neg hq]
    exact ⟨.one, _, rfl, reads_captures r⟩

theorem allCaptures_quantified (q : Quantifier) (p : Pattern) : (p.quantified q).allCaptures = p.allCaptures := by
  cases p <;> simp only [Pattern.quantified, Pattern.allCaptures]

theorem allCaptures_requantified (q : Quantifier) (p : Pattern) :
    (p.requantified q).allCaptures = p.allCaptures := by
  unfold Pattern.requantified
  split
  · rfl
  · exact allCaptures_quantified q p

theorem allCaptures_capturing (names : List String) (p : Pattern) :
    (p.capturing names).allCaptures = p.allCaptures ++ names := by
  cases p <;> simp only [Pattern.capturing, Pattern.allCaptures, List.append_assoc]

theorem capturesOfElements_append (es es' : List Element) :
    capturesOfElements (es ++ es') = capturesOfElements es ++ capturesOfElements es' := by
  induction es with
  | nil => rw [capturesOfElements, List.nil_append, List.nil_append]
  | cons e es ih => rw [List.cons_append, capturesOfElements, capturesOfElements, ih, List.append_assoc]

theorem exists_written_of_readSuffix {r₀ : Reader} {p : Pattern} {ls : List Lexeme} {ps : List Predicate}
    (hr : r₀.Genuine) (h : Reads r₀ ls ps p.allCaptures r)
    (hw : ∀ q cs, Written true [.element none ((p.requantified q).capturing cs)] (ls ++ suffixLexemes q cs) ps) :
    ∃ ls ps, Reads r₀ ls ps (readSuffix p r).1.allCaptures (readSuffix p r).2 ∧
      Written true [.element none (readSuffix p r).1] ls ps := by
  obtain ⟨q, cs, hp, hsuffix⟩ := exists_of_readSuffix (h.genuine hr) p
  have hall := h.trans hsuffix
  rw [List.append_nil] at hall
  rw [hp, allCaptures_capturing, allCaptures_requantified]
  exact ⟨_, ps, hall, hw q cs⟩

end Reading

/-- With this fuel, what each of the four readers reads was written. -/
structure ReadsWritten (fuel : Nat) : Prop where
  pattern : ∀ {r r' p}, r.Genuine → readPattern fuel r = .ok (p, r') → ∃ ls ps, Reads r ls ps p.allCaptures r' ∧
    Written true [.element none p] ls ps
  parenthesized : ∀ {start r r' p}, r.Genuine → readParenthesized fuel start r = .ok (p, r') →
    ∃ ls ps, Reads r ls ps p.allCaptures r' ∧
      ∀ q cs, Written true [.element none ((p.requantified q).capturing cs)]
        ((.lparen, "(") :: ls ++ suffixLexemes q cs) ps
  elements : ∀ {start r r' found absent es fields}, r.Genuine →
    readElements fuel start r found absent = .ok (es, fields, r') →
    ∃ items ls ps, es = found.reverse ++ elementsOf items ∧ fields = absent.reverse ++ absentOf items ∧
      Reads r (ls ++ [(.rparen, ")")]) ps (capturesOfElements (elementsOf items)) r' ∧ Written true items ls ps
  alternatives : ∀ {start r r' found as}, r.Genuine → readAlternatives fuel start r found = .ok (as, r') →
    ∃ more ls ps, as = found.reverse ++ more ∧ Reads r (ls ++ [(.rbracket, "]")]) ps (capturesOfAll more) r' ∧
      Written true (more.map (.element none)) ls ps

namespace ReadsWritten

theorem zero : ReadsWritten 0 where
  pattern _ h := by
    rw [readPattern] at h
    cases h
  parenthesized _ h := by
    rw [readParenthesized] at h
    cases h
  elements _ h := by
    rw [readElements] at h
    cases h
  alternatives _ h := by
    rw [readAlternatives] at h
    cases h

section Step

variable {fuel : Nat} (ih : ReadsWritten fuel) {start : Nat} {r r' : Reader} (hr : r.Genuine)

include ih hr

theorem pattern_succ {p : Pattern} (h : readPattern (fuel + 1) r = .ok (p, r')) :
    ∃ ls ps, Reads r ls ps p.allCaptures r' ∧ Written true [.element none p] ls ps := by
  rw [readPattern] at h
  dsimp only at h
  split at h
  · next hkind =>
    obtain ⟨⟨q, r₁⟩, hq, h⟩ := bind_eq_ok.mp h
    cases h
    have hopen : Reads r [(.lparen, "(")] [] [] r.advance := Reads.sign hr hkind nofun nofun fun _ hv => hv
    obtain ⟨ls, ps, hreads, hw⟩ := ih.parenthesized (hopen.genuine hr) hq
    exact exists_written_of_readSuffix hr (hopen.trans hreads) hw
  · next hkind =>
    obtain ⟨⟨as, r₁⟩, ha, h⟩ := bind_eq_ok.mp h
    dsimp only at h
    split at h
    · cases h
    next hsome =>
    cases h
    have hopen : Reads r [(.lbracket, "[")] [] [] r.advance := Reads.sign hr hkind nofun nofun fun _ hv => hv
    obtain ⟨_, ls, ps, rfl, hreads, hw⟩ := ih.alternatives (hopen.genuine hr) ha
    have hall : Reads r ((.lbracket, "[") :: (ls ++ [(.rbracket, "]")])) ps
        (Pattern.allCaptures (.alternation as .one [])) r₁ := by
      rw [Pattern.allCaptures, List.append_nil]
      exact hopen.trans hreads
    refine exists_written_of_readSuffix hr hall fun q cs => ?_
    rw [Pattern.requantified_of_one rfl]
    simpa [Pattern.quantified, Pattern.capturing] using Written.alternation q cs (by simpa using hsome) hw
  · next hkind =>
    cases h
    have htoken : Reads r [r.peek.lexeme] [] [] r.advance := Reads.advance (by simp [hkind]) (by simp [hkind])
    rw [Token.lexeme, hkind] at htoken
    refine exists_written_of_readSuffix hr (p := .literal r.peek.value .one []) (by simpa [Pattern.allCaptures]) ?_
    intro q cs
    rw [Pattern.requantified_of_one rfl]
    exact .literal r.peek.value q cs
  · next hkind =>
    split at h
    · next hvalue =>
      cases h
      have htoken : Reads r [r.peek.lexeme] [] [] r.advance := Reads.advance (by simp [hkind]) (by simp [hkind])
      rw [Token.lexeme, hkind, hvalue] at htoken
      refine exists_written_of_readSuffix hr (p := .wildcard .one []) (by simpa [Pattern.allCaptures]) ?_
      intro q cs
      rw [Pattern.requantified_of_one rfl]
      exact .wildcard q cs
    · cases h
  · cases h

theorem group_succ {p : Pattern}
    (h : (do
      let (inner, r) ← readPattern fuel r
      let r ← readPredicates r.tokens.length r
      if r.peek.kind = .rparen then .ok (inner, r.advance)
      else .error ⟨.groupSize, r.peek.offset⟩ : Except SyntaxFault (Pattern × Reader)) = .ok (p, r')) :
    ∃ ls ps, Reads r ls ps p.allCaptures r' ∧
      ∀ q cs, Written true [.element none ((p.requantified q).capturing cs)]
        ((.lparen, "(") :: ls ++ suffixLexemes q cs) ps := by
  obtain ⟨⟨inner, r₁⟩, hp, h⟩ := bind_eq_ok.mp h
  obtain ⟨r₂, hs, h⟩ := bind_eq_ok.mp h
  split at h
  · next hkind =>
    cases h
    obtain ⟨ls, ps, hreads, hw⟩ := ih.pattern hr hp
    obtain ⟨more, hmore⟩ := exists_reads_of_readPredicates (hreads.genuine hr) hs
    have hall := hreads.trans hmore
    have hclose : Reads r₂ [(.rparen, ")")] [] [] r₂.advance :=
      Reads.sign (hall.genuine hr) hkind nofun nofun fun _ hv => hv
    refine ⟨ls ++ (more.flatMap Predicate.lexemes ++ [(.rparen, ")")]), ps ++ more, ?_, fun q cs => ?_⟩
    · simpa using hall.trans hclose
    · simpa using Written.group more q cs (.inl rfl) hw
  · cases h

theorem parenthesized_succ {p : Pattern} (h : readParenthesized (fuel + 1) start r = .ok (p, r')) :
    ∃ ls ps, Reads r ls ps p.allCaptures r' ∧
      ∀ q cs, Written true [.element none ((p.requantified q).capturing cs)]
        ((.lparen, "(") :: ls ++ suffixLexemes q cs) ps := by
  rw [readParenthesized.eq_def] at h
  dsimp only at h
  split at h
  · exact ih.group_succ hr h
  · exact ih.group_succ hr h
  · exact ih.group_succ hr h
  · next hkind =>
    obtain ⟨⟨es, fields, r₁⟩, he, h⟩ := bind_eq_ok.mp h
    cases h
    have htoken : Reads r [r.peek.lexeme] [] [] r.advance := Reads.advance (by simp [hkind]) (by simp [hkind])
    rw [Token.lexeme, hkind] at htoken
    obtain ⟨items, ls, ps, rfl, rfl, hreads, hw⟩ := ih.elements (htoken.genuine hr) he
    refine ⟨(.identifier, r.peek.value) :: (ls ++ [(.rparen, ")")]), ps, ?_, fun q cs => ?_⟩
    · rw [Pattern.allCaptures, List.append_nil]
      exact htoken.trans hreads
    · rw [Pattern.requantified_of_one rfl]
      simpa [Pattern.quantified, Pattern.capturing] using Written.node r.peek.value q cs hw
  · cases h

/-- Items that are read stand in front of those that follow them. -/
theorem items_succ {r₁ : Reader} {items : List Item} {ls : List Lexeme} {ps : List Predicate}
    {found found' es : List Element} {absent absent' fields : List String}
    (hreads : Reads r ls ps (capturesOfElements (elementsOf items)) r₁) (hw : Written true items ls ps)
    (hfound : found'.reverse = found.reverse ++ elementsOf items)
    (habsent : absent'.reverse = absent.reverse ++ absentOf items)
    (h : readElements fuel start r₁ found' absent' = .ok (es, fields, r')) :
    ∃ items ls ps, es = found.reverse ++ elementsOf items ∧ fields = absent.reverse ++ absentOf items ∧
      Reads r (ls ++ [(.rparen, ")")]) ps (capturesOfElements (elementsOf items)) r' ∧ Written true items ls ps := by
  obtain ⟨items', ls', ps', rfl, rfl, hreads', hw'⟩ := ih.elements (hreads.genuine hr) h
  refine ⟨items ++ items', ls ++ ls', ps ++ ps', ?_, ?_, ?_, hw.append hw'⟩
  · rw [hfound, elementsOf_append, List.append_assoc]
  · rw [habsent, absentOf_append, List.append_assoc]
  · rw [elementsOf_append, capturesOfElements_append, List.append_assoc]
    exact hreads.trans hreads'

/-- A field, if one was read, and its pattern stand in front of the items that follow them. -/
theorem element_succ {r₁ r₂ : Reader} {field : Option String} {ls : List Lexeme} {p : Pattern}
    {found es : List Element} {absent fields : List String} (hreads : Reads r ls [] [] r₁)
    (hfield : ∀ ls' ps, Written true [.element none p] ls' ps → Written true [.element field p] (ls ++ ls') ps)
    (hp : readPattern fuel r₁ = .ok (p, r₂))
    (h : readElements fuel start r₂ ((field, p) :: found) absent = .ok (es, fields, r')) :
    ∃ items ls ps, es = found.reverse ++ elementsOf items ∧ fields = absent.reverse ++ absentOf items ∧
      Reads r (ls ++ [(.rparen, ")")]) ps (capturesOfElements (elementsOf items)) r' ∧ Written true items ls ps := by
  obtain ⟨ls', ps, hpattern, hw⟩ := ih.pattern (hreads.genuine hr) hp
  have hall : Reads r (ls ++ ls') ps (capturesOfElements (elementsOf [.element field p])) r₂ := by
    rw [elementsOf_element, capturesOfElements, capturesOfElements, List.append_nil]
    exact hreads.trans hpattern
  refine ih.items_succ hr hall (hfield ls' ps hw) ?_ (List.append_nil _).symm h
  rw [List.reverse_cons]
  rfl

theorem elements_succ {found es : List Element} {absent fields : List String}
    (h : readElements (fuel + 1) start r found absent = .ok (es, fields, r')) :
    ∃ items ls ps, es = found.reverse ++ elementsOf items ∧ fields = absent.reverse ++ absentOf items ∧
      Reads r (ls ++ [(.rparen, ")")]) ps (capturesOfElements (elementsOf items)) r' ∧ Written true items ls ps := by
  rw [readElements] at h
  dsimp only at h
  split at h
  · next hkind =>
    cases h
    refine ⟨[], [], [], (List.append_nil _).symm, (List.append_nil _).symm, ?_, .nil⟩
    exact Reads.sign hr hkind nofun nofun fun _ hv => hv
  split at h
  · cases h
  next heof =>
  split at h
  · obtain ⟨r₁, hp, h⟩ := bind_eq_ok.mp h
    obtain ⟨p, hreads⟩ := exists_reads_of_readPredicate hr hp
    exact ih.items_succ hr hreads (.predicate p) (List.append_nil _).symm (List.append_nil _).symm h
  split at h
  · next hbang =>
    obtain ⟨⟨name, r₁⟩, hn, h⟩ := bind_eq_ok.mp h
    obtain ⟨rfl, hname, rfl⟩ := Reads.expect hn
    have hopen : Reads r [(.bang, "!")] [] [] r.advance := Reads.sign hr hbang nofun nofun fun _ hv => hv
    have htoken : Reads r.advance [r.advance.peek.lexeme] [] [] r.advance.advance :=
      Reads.advance (by simp [hname]) (by simp [hname])
    rw [Token.lexeme, hname] at htoken
    refine ih.items_succ hr (hopen.trans htoken) (.absent r.advance.peek.value) (List.append_nil _).symm ?_ h
    rw [List.reverse_cons]
    rfl
  split at h
  · next hfield =>
    obtain ⟨hname, hcolon⟩ : r.peek.kind = .identifier ∧ r.advance.peek.kind = .colon := by
      simpa [Reader.ahead_one] using hfield
    obtain ⟨⟨p, r₁⟩, hp, h⟩ := bind_eq_ok.mp h
    have htoken : Reads r [r.peek.lexeme] [] [] r.advance := Reads.advance (by simp [hname]) (by simp [hname])
    rw [Token.lexeme, hname] at htoken
    have hsign : Reads r.advance [(.colon, ":")] [] [] r.advance.advance :=
      Reads.sign (htoken.genuine hr) hcolon nofun nofun fun _ hv => hv
    exact ih.element_succ hr (htoken.trans hsign) (fun _ _ hw => .field r.peek.value hw) hp h
  · obtain ⟨⟨p, r₁⟩, hp, h⟩ := bind_eq_ok.mp h
    exact ih.element_succ hr (.refl r) (fun _ _ hw => hw) hp h

theorem alternatives_succ {found as : List Pattern}
    (h : readAlternatives (fuel + 1) start r found = .ok (as, r')) :
    ∃ more ls ps, as = found.reverse ++ more ∧ Reads r (ls ++ [(.rbracket, "]")]) ps (capturesOfAll more) r' ∧
      Written true (more.map (.element none)) ls ps := by
  rw [readAlternatives] at h
  dsimp only at h
  split at h
  · next hkind =>
    cases h
    refine ⟨[], [], [], (List.append_nil _).symm, ?_, .nil⟩
    rw [capturesOfAll]
    exact Reads.sign hr hkind nofun nofun fun _ hv => hv
  split at h
  · cases h
  obtain ⟨⟨p, r₁⟩, hp, h⟩ := bind_eq_ok.mp h
  obtain ⟨ls, ps, hreads, hw⟩ := ih.pattern hr hp
  obtain ⟨more, ls', ps', rfl, hreads', hw'⟩ := ih.alternatives (hreads.genuine hr) h
  refine ⟨p :: more, ls ++ ls', ps ++ ps', by simp, ?_, hw.append hw'⟩
  rw [capturesOfAll, List.append_assoc]
  exact hreads.trans hreads'

end Step

theorem of_fuel (fuel : Nat) : ReadsWritten fuel := by
  induction fuel with
  | zero => exact zero
  | succ fuel ih =>
    exact ⟨fun hr h => ih.pattern_succ hr h, fun hr h => ih.parenthesized_succ hr h, fun hr h => ih.elements_succ hr h,
      fun hr h => ih.alternatives_succ hr h⟩

end ReadsWritten

end RuleScan.Query
