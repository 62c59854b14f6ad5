import RuleScan.Proofs.Query.RoundTrip

/-! Predicates written on a new line after the text of a query. Main statement: the longer text is read as the same
query with these predicates at its end. -/
namespace RuleScan.Query

/-- A run that stops where more is appended does not grow. -/
theorem takeWhile_append_of_head {α : Type} {p : α → Bool} {ys : List α} (hy : ∀ y ∈ ys.head?, p y = false)
    (xs : List α) : (xs ++ ys).takeWhile p = xs.takeWhile p ∧ (xs ++ ys).dropWhile p = xs.dropWhile p ++ ys := by
  induction xs with
  | nil => exact takeWhile_append_stop nofun hy
  | cons x xs ih =>
    rw [List.cons_append, List.takeWhile_cons, List.takeWhile_cons, List.dropWhile_cons, List.dropWhile_cons]
    split
    · exact ⟨by rw [ih.1], ih.2⟩
    · exact ⟨rfl, rfl⟩

section Scanning

theorem takeWhile_append_newline {p : Char → Bool} (hp : p '\n' = false) (cs rest : List Char) :
    (cs ++ '\n' :: rest).takeWhile p = cs.takeWhile p ∧
      (cs ++ '\n' :: rest).dropWhile p = cs.dropWhile p ++ '\n' :: rest :=
  takeWhile_append_of_head (fun _ hy => Option.some.inj hy ▸ hp) cs

theorem splitPredicate_append_newline (cs rest : List Char) :
    splitPredicate (cs ++ '\n' :: rest) = ((splitPredicate cs).1, (splitPredicate cs).2 ++ '\n' :: rest) := by
  obtain ⟨htake, hdrop⟩ := takeWhile_append_newline (p := isPredicatePart) (by decide) cs rest
  unfold splitPredicate
  dsimp only
  rw [htake, hdrop]
  rcases cs.dropWhile isPredicatePart with _ | ⟨c, after⟩
  · rfl
  · by_cases hc : c = '?'
    · subst hc
      rfl
    · simp [hc]

theorem readQuoted_append {start offset next : Nat} {cs acc value after : List Char}
    (h : readQuoted start cs offset acc = .ok (value, after, next)) (more : List Char) :
    readQuoted start (cs ++ more) offset acc = .ok (value, after ++ more, next) := by
  fun_induction readQuoted start cs offset acc with
  | case1 | case3 | case5 => cases h
  | case2 offset acc rest =>
    cases h
    rfl
  | case4 c rest offset acc e he ih =>
    rw [List.cons_append, List.cons_append, readQuoted, he]
    exact ih h
  | case6 c rest offset acc hquote hlast hescape ih =>
    rw [List.cons_append, readQuoted]
    · exact ih h
    · exact hquote
    · exact fun hc he => hlast hc (List.append_eq_nil_iff.mp he).1
    · intro d tail hc he
      cases rest with
      | nil => exact hlast hc rfl
      | cons d' tail' => exact hescape d' tail' hc rfl

private theorem map_append_cons (t : Token) (ts : List Token) (x : Except SyntaxFault (List Token)) :
    (x.map (ts ++ ·)).map (t :: ·) = x.map (t :: ts ++ ·) := by
  cases x <;> rfl

/-- What is scanned up to the end of a line does not depend on the lines that follow. -/
theorem scanFrom_append_newline {offset : Nat} {cs : List Char} {ts : List Token}
    (h : scanFrom offset cs = .ok ts) :
    ∃ next, ∀ rest, scanFrom offset (cs ++ '\n' :: rest) = (scanFrom next ('\n' :: rest)).map (ts ++ ·) := by
  fun_induction scanFrom offset cs generalizing ts with
  | case1 offset =>
    cases h
    refine ⟨offset, fun rest => ?_⟩
    rw [List.nil_append]
    cases scanFrom offset ('\n' :: rest) <;> rfl
  | case2 offset c cs hblank ih =>
    obtain ⟨next, hnext⟩ := ih h
    refine ⟨next, fun rest => ?_⟩
    rw [List.cons_append, scanFrom, if_pos hblank]
    exact hnext rest
  | case3 offset cs hblank ih =>
    obtain ⟨next, hnext⟩ := ih h
    refine ⟨next, fun rest => ?_⟩
    obtain ⟨htake, hdrop⟩ := takeWhile_append_newline (p := (· != '\n')) (by decide) cs rest
    rw [List.cons_append, scanFrom, if_neg hblank, if_pos rfl, htake, hdrop]
    exact hnext rest
  | case4 offset c cs hblank hcomment kind hkind ih =>
    obtain ⟨ts, hts, rfl⟩ := map_eq_ok.mp h
    obtain ⟨next, hnext⟩ := ih hts
    refine ⟨next, fun rest => ?_⟩
    rw [List.cons_append, scanFrom, if_neg hblank, if_neg hcomment, hkind]
    dsimp only
    rw [hnext rest, map_append_cons]
  | case6 offset cs value after place hquoted hblank hcomment hkind ih =>
    obtain ⟨ts, hts, rfl⟩ := map_eq_ok.mp h
    obtain ⟨next, hnext⟩ := ih hts
    refine ⟨next, fun rest => ?_⟩
    have hlonger := readQuoted_append hquoted ('\n' :: rest)
    rw [List.cons_append, scanFrom, if_neg hblank, if_neg hcomment, hkind]
    dsimp only
    rw [if_pos rfl]
    split
    · next e he =>
      rw [hlonger] at he
      cases he
    · next he =>
      rw [hlonger] at he
      cases he
      rw [hnext rest, map_append_cons]
  | case8 offset cs name hname hblank hcomment hkind hquote =>
    rename_i ih
    obtain ⟨ts, hts, rfl⟩ := map_eq_ok.mp h
    obtain ⟨next, hnext⟩ := ih hts
    refine ⟨next, fun rest => ?_⟩
    obtain ⟨htake, hdrop⟩ := takeWhile_append_newline (p := isCapturePart) (by decide) cs rest
    rw [List.cons_append, scanFrom, if_neg hblank, if_neg hcomment, hkind]
    dsimp only
    rw [if_neg hquote, if_pos rfl, htake, hdrop, if_neg hname, hnext rest, map_append_cons]
  | case10 offset cs name hname hblank hcomment hkind hquote hcapture =>
    rename_i ih
    obtain ⟨ts, hts, rfl⟩ := map_eq_ok.mp h
    obtain ⟨next, hnext⟩ := ih hts
    refine ⟨next, fun rest => ?_⟩
    rw [List.cons_append, scanFrom, if_neg hblank, if_neg hcomment, hkind]
    dsimp only
    rw [if_neg hquote, if_neg hcapture, if_pos rfl, splitPredicate_append_newline, if_neg hname, hnext rest,
      map_append_cons]
  | case11 offset c cs hblank hcomment hkind hquote hcapture hpredicate hstart tail =>
    rename_i ih
    obtain ⟨ts, hts, rfl⟩ := map_eq_ok.mp h
    obtain ⟨next, hnext⟩ := ih hts
    refine ⟨next, fun rest => ?_⟩
    obtain ⟨htake, hdrop⟩ := takeWhile_append_newline (p := isIdentifierPart) (by decide) cs rest
    rw [List.cons_append, scanFrom, if_neg hblank, if_neg hcomment, hkind]
    dsimp only
    rw [if_neg hquote, if_neg hcapture, if_neg hpredicate, if_pos hstart, htake, hdrop, hnext rest, map_append_cons]
  | case5 | case7 | case9 | case12 => cases h

end Scanning

/-- The reader of a longer text, which ends at `stop` and has more tokens after those that are left. -/
def Reader.followedBy (us : List Token) (stop : Nat) (r : Reader) : Reader := { r with tokens := r.tokens ++ us, stop }

section Reading

variable {us : List Token} {stop : Nat} {r r' : Reader}

namespace Reader

@[simp] theorem followedBy_predicates : (r.followedBy us stop).predicates = r.predicates := rfl

@[simp] theorem followedBy_captureNames : (r.followedBy us stop).captureNames = r.captureNames := rfl

theorem exists_tokens_of_peek (h : r.peek.kind ≠ .eof) : ∃ t ts, r.tokens = t :: ts := by
  cases ht : r.tokens with
  | nil => simp [peek, ahead, ht] at h
  | cons t ts => exact ⟨t, ts, rfl⟩

theorem peek_followedBy (h : r.peek.kind ≠ .eof) : (r.followedBy us stop).peek = r.peek := by
  obtain ⟨t, ts, ht⟩ := exists_tokens_of_peek h
  simp [peek, ahead, followedBy, ht]

theorem advance_followedBy (h : r.peek.kind ≠ .eof) :
    (r.followedBy us stop).advance = r.advance.followedBy us stop := by
  obtain ⟨t, ts, ht⟩ := exists_tokens_of_peek h
  simp [advance, followedBy, ht]

theorem expect_followedBy {kind : TokenKind} {t : Token} (hkind : kind ≠ .eof) (h : r.expect kind = .ok (t, r')) :
    (r.followedBy us stop).expect kind = .ok (t, r'.followedBy us stop) := by
  unfold expect at h
  dsimp only at h
  split at h
  · next hpeek =>
    cases h
    have heof : r.peek.kind ≠ .eof := hpeek ▸ hkind
    unfold expect
    rw [peek_followedBy heof, advance_followedBy heof]
    exact if_pos hpeek
  · cases h

section

variable (hus : ∀ t ∈ us.head?, t.kind = .lparen)

include hus

/-- Only an opening parenthesis can be met where there was none. -/
theorem peek_followedBy_kind {kind : TokenKind} (hparen : kind ≠ .lparen) (heof : kind ≠ .eof) :
    (r.followedBy us stop).peek.kind = kind ↔ r.peek.kind = kind := by
  cases ht : r.tokens with
  | cons t ts => simp [peek, ahead, followedBy, ht]
  | nil =>
    rcases us with _ | ⟨u, us⟩
    · simp [peek, ahead, followedBy, ht]
    · simp [peek, ahead, followedBy, ht, hus u rfl, hparen.symm, heof.symm]

theorem atPredicate_followedBy (h : r.peek.kind ≠ .eof) : (r.followedBy us stop).atPredicate = r.atPredicate := by
  have hnext : (r.advance.followedBy us stop).peek.kind = .predicate ↔ r.advance.peek.kind = .predicate :=
    peek_followedBy_kind hus nofun nofun
  simp only [atPredicate, ahead_one, peek_followedBy h, advance_followedBy h, hnext]

end

end Reader

theorem readArguments_append {start : Nat} {ts rest : List Token} {acc args : List Argument}
    (h : readArguments start ts acc = .ok (args, rest)) :
    readArguments stop (ts ++ us) acc = .ok (args, rest ++ us) := by
  fun_induction readArguments start ts acc with
  | case1 | case5 => cases h
  | case2 t ts acc hkind =>
    cases h
    rw [List.cons_append, readArguments, hkind]
  | case3 t ts acc hkind ih =>
    rw [List.cons_append, readArguments, hkind]
    exact ih h
  | case4 t ts acc hkind ih =>
    rw [List.cons_append, readArguments, hkind]
    exact ih h

theorem readPredicate_followedBy (h : readPredicate r = .ok r') :
    readPredicate (r.followedBy us stop) = .ok (r'.followedBy us stop) := by
  unfold readPredicate at h
  obtain ⟨⟨t, r₁⟩, h₁, h⟩ := bind_eq_ok.mp h
  obtain ⟨⟨name, r₂⟩, h₂, h⟩ := bind_eq_ok.mp h
  dsimp only at h
  split at h
  · cases h
  next relation negated hform =>
  obtain ⟨⟨args, rest⟩, hargs, h⟩ := bind_eq_ok.mp h
  dsimp only at h
  split at h
  · cases h
  next hfit =>
  cases h
  have hopen : (r.followedBy us stop).expect .lparen = .ok (t, r₁.followedBy us stop) :=
    Reader.expect_followedBy (by decide) h₁
  have hname : (r₁.followedBy us stop).expect .predicate = .ok (name, r₂.followedBy us stop) :=
    Reader.expect_followedBy (by decide) h₂
  have hread : readArguments stop (r₂.tokens ++ us) [] = .ok (args, rest ++ us) := readArguments_append hargs
  unfold readPredicate
  simp only [hopen, hname, Bind.bind, Except.bind, hform]
  simp [Reader.followedBy, hread, hfit]

/-- The predicates that a reader reads are read by the one of the longer text too, which then reads on. -/
theorem readPredicates_followedBy (hus : ∀ t ∈ us.head?, t.kind = .lparen) {fuel fuel' : Nat} (hfuel : fuel ≤ fuel')
    (h : readPredicates fuel r = .ok r') : ∃ left, fuel' - fuel ≤ left ∧
      readPredicates fuel' (r.followedBy us stop) = readPredicates left (r'.followedBy us stop) := by
  induction fuel generalizing r fuel' with
  | zero =>
    -- The shorter text is not read any further, but a predicate may follow in the longer one.
    cases h
    exact ⟨fuel', Nat.le_refl _, rfl⟩
  | succ fuel ih =>
    obtain ⟨fuel', rfl⟩ : ∃ n, fuel' = n + 1 := ⟨fuel' - 1, by omega⟩
    rw [readPredicates] at h
    split at h
    · next hat =>
      have heof : r.peek.kind ≠ .eof := by
        intro he
        simp [Reader.atPredicate, he] at hat
      split at h
      · next hr =>
        obtain ⟨left, hle, hrest⟩ := ih (Nat.le_of_succ_le_succ hfuel) h
        refine ⟨left, by omega, ?_⟩
        rw [readPredicates, Reader.atPredicate_followedBy hus heof, if_pos hat, readPredicate_followedBy hr]
        exact hrest
      · cases h
    · cases h
      exact ⟨fuel' + 1, by omega, rfl⟩

theorem readPredicates_of_rparen {fuel : Nat} (h : r.peek.kind = .rparen) : readPredicates fuel r = .ok r := by
  have hat : r.atPredicate = false := by simp [Reader.atPredicate, h]
  cases fuel with
  | zero => rfl
  | succ fuel => rw [readPredicates, hat, if_neg Bool.false_ne_true]

theorem readSuffix_followedBy (hus : ∀ t ∈ us.head?, t.kind = .lparen) (p : Pattern) (r : Reader) :
    readSuffix p (r.followedBy us stop) = ((readSuffix p r).1, (readSuffix p r).2.followedBy us stop) := by
  have hcaptures : ∀ r : Reader,
      (r.followedBy us stop).tokens.takeWhile (·.kind = .capture) = r.tokens.takeWhile (·.kind = .capture) ∧
      (r.followedBy us stop).tokens.dropWhile (·.kind = .capture) =
        r.tokens.dropWhile (·.kind = .capture) ++ us := fun r =>
    takeWhile_append_of_head (fun t ht => by simp [hus t ht]) r.tokens
  have hquantifier : (r.followedBy us stop).peek.kind = .quantifier ↔ r.peek.kind = .quantifier :=
    Reader.peek_followedBy_kind hus nofun nofun
  unfold readSuffix
  by_cases hq : r.peek.kind = .quantifier
  · have heof : r.peek.kind ≠ .eof := hq ▸ nofun
    rw [if_pos hq, if_pos (hquantifier.mpr hq), Reader.peek_followedBy heof, Reader.advance_followedBy heof]
    dsimp only
    rw [(hcaptures r.advance).1, (hcaptures r.advance).2]
    rfl
  · rw [if_neg hq, if_neg (mt hquantifier.mp hq)]
    dsimp only
    rw [(hcaptures r).1, (hcaptures r).2]
    rfl

/-- With this fuel, and `more` for the longer text, each of the four readers reads from the longer text what it reads
from the shorter one. -/
structure ReadsOn (us : List Token) (stop more fuel : Nat) : Prop where
  pattern : ∀ {r r' p}, readPattern fuel r = .ok (p, r') →
    readPattern (fuel + more) (r.followedBy us stop) = .ok (p, r'.followedBy us stop)
  parenthesized : ∀ {start r r' p}, readParenthesized fuel start r = .ok (p, r') →
    readParenthesized (fuel + more) start (r.followedBy us stop) = .ok (p, r'.followedBy us stop)
  elements : ∀ {start r r' found absent es fields}, readElements fuel start r found absent = .ok (es, fields, r') →
    readElements (fuel + more) start (r.followedBy us stop) found absent = .ok (es, fields, r'.followedBy us stop)
  alternatives : ∀ {start r r' found as}, readAlternatives fuel start r found = .ok (as, r') →
    readAlternatives (fuel + more) start (r.followedBy us stop) found = .ok (as, r'.followedBy us stop)

namespace ReadsOn

variable {more fuel start : Nat}

theorem zero : ReadsOn us stop more 0 where
  pattern h := by
    rw [readPattern] at h
    cases h
  parenthesized h := by
    rw [readParenthesized] at h
    cases h
  elements h := by
    rw [readElements] at h
    cases h
  alternatives h := by
    rw [readAlternatives] at h
    cases h

section Step

variable (ih : ReadsOn us stop more fuel)

include ih

theorem alternatives_succ {found as : List Pattern}
    (h : readAlternatives (fuel + 1) start r found = .ok (as, r')) :
    readAlternatives (fuel + 1 + more) start (r.followedBy us stop) found = .ok (as, r'.followedBy us stop) := by
  have heof : r.peek.kind ≠ .eof := by
    intro he
    rw [readAlternatives] at h
    simp [he] at h
  rw [readAlternatives] at h
  rw [Nat.succ_add, readAlternatives, Reader.peek_followedBy heof, Reader.advance_followedBy heof]
  dsimp only at h ⊢
  rw [if_neg heof] at h ⊢
  by_cases hclose : r.peek.kind = .rbracket
  · rw [if_pos hclose] at h ⊢
    cases h
    rfl
  · rw [if_neg hclose] at h ⊢
    obtain ⟨⟨p, r₁⟩, hp, h⟩ := bind_eq_ok.mp h
    rw [ih.pattern hp]
    exact ih.alternatives h

variable (hus : ∀ t ∈ us.head?, t.kind = .lparen)

include hus

theorem pattern_succ {p : Pattern} (h : readPattern (fuel + 1) r = .ok (p, r')) :
    readPattern (fuel + 1 + more) (r.followedBy us stop) = .ok (p, r'.followedBy us stop) := by
  have heof : r.peek.kind ≠ .eof := by
    intro he
    rw [readPattern] at h
    simp [he] at h
  rw [readPattern] at h
  rw [Nat.succ_add, readPattern, Reader.peek_followedBy heof, Reader.advance_followedBy heof]
  dsimp only at h ⊢
  split at h
  · obtain ⟨⟨q, r₁⟩, hq, h⟩ := bind_eq_ok.mp h
    simp only [ih.parenthesized hq, Bind.bind, Except.bind, readSuffix_followedBy hus]
    cases h
    rfl
  · obtain ⟨⟨as, r₁⟩, ha, h⟩ := bind_eq_ok.mp h
    simp only [ih.alternatives ha, Bind.bind, Except.bind, readSuffix_followedBy hus]
    dsimp only at h
    split at h
    · cases h
    · next hne =>
      cases h
      exact if_neg hne
  · simp only [readSuffix_followedBy hus]
    cases h
    rfl
  · simp only [readSuffix_followedBy hus]
    split at h
    · next hany =>
      cases h
      exact if_pos hany
    · cases h
  · cases h

theorem group_succ {p : Pattern}
    (h : (do
      let (inner, r) ← readPattern fuel r
      let r ← readPredicates r.tokens.length r
      if r.peek.kind = .rparen then .ok (inner, r.advance)
      else .error ⟨.groupSize, r.peek.offset⟩ : Except SyntaxFault (Pattern × Reader)) = .ok (p, r')) :
    (do
      let (inner, r) ← readPattern (fuel + more) (r.followedBy us stop)
      let r ← readPredicates r.tokens.length r
      if r.peek.kind = .rparen then .ok (inner, r.advance)
      else .error ⟨.groupSize, r.peek.offset⟩ : Except SyntaxFault (Pattern × Reader)) =
        .ok (p, r'.followedBy us stop) := by
  obtain ⟨⟨inner, r₁⟩, hp, h⟩ := bind_eq_ok.mp h
  obtain ⟨r₂, hs, h⟩ := bind_eq_ok.mp h
  split at h
  · next hclose =>
    cases h
    have heof : r₂.peek.kind ≠ .eof := hclose ▸ nofun
    have hlength : r₁.tokens.length ≤ (r₁.followedBy us stop).tokens.length := by
      simp [Reader.followedBy]
    obtain ⟨left, -, hread⟩ := readPredicates_followedBy hus hlength hs
    -- What follows in the longer text is out of reach: the parenthesis that closes the group comes first.
    have hend : (r₂.followedBy us stop).peek.kind = .rparen := by rw [Reader.peek_followedBy heof, hclose]
    rw [readPredicates_of_rparen hend] at hread
    simp only [ih.pattern hp, hread, Bind.bind, Except.bind, hend, if_true, Reader.advance_followedBy heof]
  · cases h

theorem parenthesized_succ {p : Pattern} (h : readParenthesized (fuel + 1) start r = .ok (p, r')) :
    readParenthesized (fuel + 1 + more) start (r.followedBy us stop) = .ok (p, r'.followedBy us stop) := by
  have heof : r.peek.kind ≠ .eof := by
    intro he
    rw [readParenthesized.eq_def] at h
    simp [he] at h
  rw [readParenthesized.eq_def] at h
  rw [Nat.succ_add, readParenthesized.eq_def]
  dsimp only at h ⊢
  rw [Reader.peek_followedBy heof, Reader.advance_followedBy heof]
  split at h
  · exact ih.group_succ hus h
  · exact ih.group_succ hus h
  · exact ih.group_succ hus h
  · obtain ⟨⟨es, fields, r₁⟩, he, h⟩ := bind_eq_ok.mp h
    simp only [ih.elements he, Bind.bind, Except.bind]
    cases h
    rfl
  · cases h

theorem elements_succ {found es : List Element} {absent fields : List String}
    (h : readElements (fuel + 1) start r found absent = .ok (es, fields, r')) :
    readElements (fuel + 1 + more) start (r.followedBy us stop) found absent =
      .ok (es, fields, r'.followedBy us stop) := by
  have heof : r.peek.kind ≠ .eof := by
    intro he
    rw [readElements] at h
    simp [he] at h
  rw [readElements] at h
  rw [Nat.succ_add, readElements, Reader.peek_followedBy heof, Reader.advance_followedBy heof,
    Reader.atPredicate_followedBy hus heof]
  simp only [Reader.ahead_one, Reader.advance_followedBy heof] at h ⊢
  rw [if_neg heof] at h ⊢
  by_cases hclose : r.peek.kind = .rparen
  · rw [if_pos hclose] at h ⊢
    cases h
    rfl
  rw [if_neg hclose] at h ⊢
  by_cases hpredicate : r.atPredicate = true
  · rw [if_pos hpredicate] at h ⊢
    obtain ⟨r₁, hp, h⟩ := bind_eq_ok.mp h
    rw [readPredicate_followedBy hp]
    exact ih.elements h
  rw [if_neg hpredicate] at h ⊢
  by_cases habsent : r.peek.kind = .bang
  · rw [if_pos habsent] at h ⊢
    obtain ⟨⟨name, r₁⟩, hn, h⟩ := bind_eq_ok.mp h
    rw [Reader.expect_followedBy (by decide) hn]
    exact ih.elements h
  rw [if_neg habsent] at h ⊢
  have hcolon : (r.advance.followedBy us stop).peek.kind = .colon ↔ r.advance.peek.kind = .colon :=
    Reader.peek_followedBy_kind hus nofun nofun
  rw [decide_eq_decide.mpr hcolon]
  split at h
  · next hfield =>
    obtain ⟨⟨p, r₁⟩, hp, h⟩ := bind_eq_ok.mp h
    have hnext : r.advance.peek.kind ≠ .eof := by
      rw [Bool.and_eq_true, decide_eq_true_eq, decide_eq_true_eq] at hfield
      exact hfield.2 ▸ nofun
    rw [if_pos hfield, Reader.advance_followedBy hnext, ih.pattern hp]
    exact ih.elements h
  · next hfield =>
    obtain ⟨⟨p, r₁⟩, hp, h⟩ := bind_eq_ok.mp h
    rw [if_neg hfield, ih.pattern hp]
    exact ih.elements h

end Step

theorem of_fuel (hus : ∀ t ∈ us.head?, t.kind = .lparen) (fuel : Nat) : ReadsOn us stop more fuel := by
  induction fuel with
  | zero => exact zero
  | succ fuel ih =>
    exact ⟨ih.pattern_succ hus, ih.parenthesized_succ hus, ih.elements_succ hus, ih.alternatives_succ⟩

end ReadsOn

end Reading

/-- The text of a query with predicates on a new line after it. -/
def appended (source : String) (predicates : List Predicate) : String :=
  source ++ "\n" ++ String.ofList (printPredicates predicates)

theorem scan_appended {source : String} {ts : List Token} (h : scan source = .ok ts) {predicates : List Predicate}
    (hnamed : ∀ p ∈ predicates, ArgumentsNamed p.args) :
    ∃ us, us.map Token.lexeme = predicates.flatMap Predicate.lexemes ∧
      scan (appended source predicates) = .ok (ts ++ us) := by
  obtain ⟨next, hnext⟩ := scanFrom_append_newline h
  obtain ⟨us, hus, hl⟩ := lexes_predicates hnamed (next + Units.width '\n')
  have hline : scanFrom next ('\n' :: printPredicates predicates) = .ok us := by
    rw [scanFrom, if_pos (by decide)]
    exact hus
  have htext : (appended source predicates).toList = source.toList ++ '\n' :: printPredicates predicates := by
    simp [appended]
  refine ⟨us, hl, ?_⟩
  rw [scan, htext, hnext, hline]
  rfl

/-- The text of a query with predicates after it, which fit and are about its captures, is read as the query with these
predicates after its own. -/
theorem parse_appended {source : String} {q : Query} (h : parse source = .ok q) {predicates : List Predicate}
    (hfits : ∀ p ∈ predicates, Fits p.relation p.args)
    (hdeclared : ∀ p ∈ predicates, ∀ name, .capture name ∈ p.args → name ∈ q.captureNames) :
    ∃ found, found.map Predicate.content = predicates.map Predicate.content ∧
      parse (appended source predicates) =
        .ok ⟨appended source predicates, q.pattern, q.predicates ++ found, q.captureNames⟩ := by
  have hnamed : ∀ p ∈ predicates, ArgumentsNamed p.args := fun p hp name hm =>
    isCaptureName_of_parse h name (hdeclared p hp name hm)
  obtain ⟨ts, hscan, htokens⟩ := bind_eq_ok.mp h
  obtain ⟨us, hl, hlonger⟩ := scan_appended hscan hnamed
  have hus : ∀ t ∈ us.head?, t.kind = .lparen := by
    cases predicates with
    | nil =>
      obtain rfl := List.map_eq_nil_iff.mp hl
      exact nofun
    | cons p predicates =>
      obtain ⟨offset, us, rfl, -⟩ := exists_of_map_lexeme_cons hl
      exact fun t ht => Option.some.inj ht ▸ rfl
  obtain ⟨hsome, pattern, r₁, r₂, hpattern, hpredicates, hend, hone, hown, rfl⟩ := ofTokens_eq_ok_iff.mp htokens
  let stop := Text.length (appended source predicates)
  have hreads : ReadsOn us stop (4 * us.length) (4 * ts.length + 4) := .of_fuel hus _
  have hlonger_pattern : readPattern (4 * (ts ++ us).length + 4) { tokens := ts ++ us, stop } =
      .ok (pattern, r₁.followedBy us stop) := by
    have hfuel : 4 * (ts ++ us).length + 4 = 4 * ts.length + 4 + 4 * us.length := by
      rw [List.length_append]
      omega
    rw [hfuel]
    exact hreads.pattern hpattern
  have hlength : (r₁.followedBy us stop).tokens.length = r₁.tokens.length + us.length := List.length_append
  -- The query's own predicates are read first; the fuel that is left is enough for those that were appended.
  obtain ⟨left, hleft, hlonger_predicates⟩ :
      ∃ left, (r₁.followedBy us stop).tokens.length - r₁.tokens.length ≤ left ∧
        readPredicates (r₁.followedBy us stop).tokens.length (r₁.followedBy us stop) =
          readPredicates left (r₂.followedBy us stop) :=
    readPredicates_followedBy hus (hlength ▸ Nat.le_add_right _ _) hpredicates
  have hrest : r₂.followedBy us stop = ⟨us, stop, r₂.predicates, r₂.captureNames⟩ := by
    simp [Reader.followedBy, hend]
  have henough : us.length ≤ left := by omega
  obtain ⟨found, hc, hread⟩ := readPredicates_lexemes hfits stop r₂.predicates r₂.captureNames hl henough
  rw [hrest, hread] at hlonger_predicates
  have hundeclared : undeclared? r₂.captureNames (r₂.predicates ++ found) = none := by
    have hfound : undeclared? r₂.captureNames found = none := undeclared?_eq_none hc hdeclared
    unfold undeclared? at hown hfound ⊢
    rw [List.findSome?_append, hown, hfound]
    rfl
  refine ⟨found, hc, ?_⟩
  rw [parse, hlonger]
  exact ofTokens_eq_ok_iff.mpr ⟨List.append_ne_nil_of_left_ne_nil hsome us, pattern, _, _, hlonger_pattern,
    hlonger_predicates, rfl, hone, hundeclared, rfl⟩

end RuleScan.Query
