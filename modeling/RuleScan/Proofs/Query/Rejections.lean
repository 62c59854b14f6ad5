import RuleScan.Proofs.Query.RoundTrip

/-! Texts that are no queries, and those that are. Main statement: every text is read as a well-formed query, which
compiles, or is rejected at a place in it. -/
namespace RuleScan.Query

/-- The outcome of reading a text that ends at `stop`: a fault at a place in the text, or a result with a property.
That the text ended unexpectedly is never said, because reading runs out of tokens before it runs out of fuel. -/
def FaultsWithin {α : Type} (stop : Nat) (P : α → Prop) : Except SyntaxFault α → Prop
  | .ok a => P a
  | .error e => e.offset ≤ stop ∧ e.flaw ≠ .unexpectedEnd

namespace FaultsWithin

variable {α β : Type} {stop : Nat} {P Q : α → Prop} {R : β → Prop} {x : Except SyntaxFault α}

theorem bind {f : α → Except SyntaxFault β} (hx : FaultsWithin stop P x) (hf : ∀ a, P a → FaultsWithin stop R (f a)) :
    FaultsWithin stop R (x >>= f) := by
  cases x with
  | error e => exact hx
  | ok a => exact hf a hx

theorem map {f : α → β} (hx : FaultsWithin stop P x) (hf : ∀ a, P a → R (f a)) : FaultsWithin stop R (x.map f) := by
  cases x with
  | error e => exact hx
  | ok a => exact hf a hx

theorem mono (hx : FaultsWithin stop P x) (h : ∀ a, P a → Q a) : FaultsWithin stop Q x := by
  cases x with
  | error e => exact hx
  | ok a => exact h a hx

end FaultsWithin

section Width

theorem foldl_width (cs : List Char) (n : Nat) :
    cs.foldl (fun n c => n + Units.width c) n = n + widthOf cs := by
  unfold widthOf
  induction cs generalizing n with
  | nil => rfl
  | cons c cs ih => rw [List.foldl_cons, List.foldl_cons, ih, ih (0 + Units.width c), Nat.zero_add, Nat.add_assoc]

theorem widthOf_append (cs cs' : List Char) : widthOf (cs ++ cs') = widthOf cs + widthOf cs' := by
  rw [widthOf, List.foldl_append, foldl_width cs']
  rfl

theorem widthOf_cons (c : Char) (cs : List Char) : widthOf (c :: cs) = Units.width c + widthOf cs := by
  rw [← List.singleton_append, widthOf_append]
  simp [widthOf]

theorem width_pos (c : Char) : 0 < Units.width c := by
  unfold Units.width
  split <;> decide

theorem length_le_widthOf (cs : List Char) : cs.length ≤ widthOf cs := by
  induction cs with
  | nil => exact Nat.zero_le _
  | cons c cs ih =>
    rw [widthOf_cons, List.length_cons]
    have := width_pos c
    omega

theorem widthOf_takeWhile (p : Char → Bool) (cs : List Char) :
    widthOf (cs.takeWhile p) + widthOf (cs.dropWhile p) = widthOf cs := by
  rw [← widthOf_append, List.takeWhile_append_dropWhile]

theorem length_add_widthOf_dropWhile_le (p : Char → Bool) (cs : List Char) :
    (cs.takeWhile p).length + widthOf (cs.dropWhile p) ≤ widthOf cs := by
  have := widthOf_takeWhile p cs
  have := length_le_widthOf (cs.takeWhile p)
  omega

theorem length_add_widthOf_splitPredicate_le (cs : List Char) :
    (splitPredicate cs).1.length + widthOf (splitPredicate cs).2 ≤ widthOf cs := by
  have h := length_add_widthOf_dropWhile_le isPredicatePart cs
  unfold splitPredicate
  split
  · next rest hrest =>
    rw [hrest, widthOf_cons] at h
    have := width_pos '?'
    rw [List.length_append, List.length_singleton]
    dsimp only
    omega
  · exact h

end Width

section Scanning

/-- A string ends in the text, and so does what is wrong with it. -/
theorem faultsWithin_readQuoted (start : Nat) (cs : List Char) (offset : Nat) (acc : List Char) {stop : Nat}
    (hstart : start ≤ stop) (hstop : offset + widthOf cs ≤ stop) :
    FaultsWithin stop (fun x => x.2.2 + widthOf x.2.1 ≤ stop) (readQuoted start cs offset acc) := by
  fun_induction readQuoted start cs offset acc with
  | case1 => exact ⟨hstart, by simp⟩
  | case2 rest offset acc =>
    rw [widthOf_cons] at hstop
    have := width_pos '"'
    exact show offset + 1 + widthOf rest ≤ stop by omega
  | case3 offset => exact ⟨by dsimp only; omega, by simp⟩
  | case4 c rest offset acc e _ ih =>
    rw [widthOf_cons, widthOf_cons] at hstop
    have := width_pos '\\'
    have := width_pos c
    exact ih (by omega)
  | case5 offset => exact ⟨by dsimp only; omega, by simp⟩
  | case6 c rest offset acc _ _ _ ih =>
    rw [widthOf_cons] at hstop
    exact ih (by omega)

theorem FaultsWithin.cons {t : Token} {x : Except SyntaxFault (List Token)} {stop : Nat} (ht : t.offset ≤ stop)
    (hx : FaultsWithin stop (fun ts => ∀ t ∈ ts, t.offset ≤ stop) x) :
    FaultsWithin stop (fun ts => ∀ t ∈ ts, t.offset ≤ stop) (x.map (t :: ·)) :=
  hx.map fun _ hts => List.forall_mem_cons.mpr ⟨ht, hts⟩

/-- Tokens and what is wrong with them start in the text. -/
theorem faultsWithin_scanFrom (offset : Nat) (cs : List Char) {stop : Nat} (hstop : offset + widthOf cs ≤ stop) :
    FaultsWithin stop (fun ts => ∀ t ∈ ts, t.offset ≤ stop) (scanFrom offset cs) := by
  have hoffset : offset ≤ stop := by omega
  fun_induction scanFrom offset cs with
  | case1 => exact List.forall_mem_nil _
  | case2 offset c rest _ ih =>
    rw [widthOf_cons] at hstop
    exact ih (by omega) (by omega)
  | case3 offset rest _ ih =>
    rw [widthOf_cons] at hstop
    have := width_pos ';'
    have := widthOf_takeWhile (· != '\n') rest
    exact ih (by omega) (by omega)
  | case4 offset c rest _ _ _ _ ih =>
    rw [widthOf_cons] at hstop
    have := width_pos c
    exact (ih (by omega) (by omega)).cons hoffset
  | case5 offset rest e hread =>
    rw [widthOf_cons] at hstop
    have := width_pos '"'
    have hquoted := faultsWithin_readQuoted offset rest (offset + 1) [] hoffset (by omega)
    rwa [hread] at hquoted
  | case6 offset rest value after next hread _ _ _ ih =>
    rw [widthOf_cons] at hstop
    have := width_pos '"'
    have hquoted := faultsWithin_readQuoted offset rest (offset + 1) [] hoffset (by omega)
    rw [hread] at hquoted
    have hafter : next + widthOf after ≤ stop := hquoted
    exact (ih hafter (by omega)).cons hoffset
  | case8 offset rest name _ _ _ _ _ ih =>
    rw [widthOf_cons] at hstop
    have := width_pos '@'
    have : name.length + _ ≤ _ := length_add_widthOf_dropWhile_le isCapturePart rest
    exact (ih (by omega) (by omega)).cons hoffset
  | case10 offset rest name _ _ _ _ _ _ ih =>
    rw [widthOf_cons] at hstop
    have := width_pos '#'
    have : name.length + _ ≤ _ := length_add_widthOf_splitPredicate_le rest
    exact (ih (by omega) (by omega)).cons hoffset
  | case11 offset c rest _ _ _ _ _ _ _ tail ih =>
    rw [widthOf_cons] at hstop
    have := width_pos c
    have : tail.length + _ ≤ _ := length_add_widthOf_dropWhile_le isIdentifierPart rest
    exact (ih (by omega) (by omega)).cons hoffset
  | case7 | case9 | case12 => exact ⟨hoffset, by simp⟩

end Scanning

/-- Fewer than `n` tokens are left, and they and the predicates that were gathered start in the text. -/
structure Reader.Within (stop n : Nat) (r : Reader) : Prop where
  stop_eq : r.stop = stop
  length : r.tokens.length < n
  tokens : ∀ t ∈ r.tokens, t.offset ≤ stop
  predicates : ∀ p ∈ r.predicates, p.offset ≤ stop

namespace Reader.Within

variable {stop n m : Nat} {r : Reader}

theorem mono (h : r.Within stop n) (hle : n ≤ m) : r.Within stop m :=
  ⟨h.stop_eq, Nat.lt_of_lt_of_le h.length hle, h.tokens, h.predicates⟩

theorem offset_peek (h : r.Within stop n) : r.peek.offset ≤ stop := by
  by_cases heof : r.tokens = []
  · simp [peek, ahead, heof, h.stop_eq]
  · obtain ⟨t, ts, ht⟩ := List.exists_cons_of_ne_nil heof
    have hpeek : r.peek = t := by simp [peek, ahead, ht]
    rw [hpeek]
    exact h.tokens t (ht ▸ List.mem_cons_self)

theorem advance (h : r.Within stop n) : r.advance.Within stop n where
  stop_eq := h.stop_eq
  length := Nat.lt_of_le_of_lt (List.drop_sublist 1 r.tokens).length_le h.length
  tokens t ht := h.tokens t (List.mem_of_mem_drop ht)
  predicates := h.predicates

/-- Passing a token leaves fewer. -/
theorem advance_succ (h : r.Within stop (n + 1)) (heof : r.peek.kind ≠ .eof) : r.advance.Within stop n := by
  have hlength : r.advance.tokens.length + 1 = r.tokens.length := by rw [r.tokens_eq heof, List.length_cons]
  exact ⟨h.stop_eq, by have := h.length; omega, h.advance.tokens, h.predicates⟩

end Reader.Within

section Reading

variable {stop n : Nat} {r : Reader}

theorem faultsWithin_expect (kind : TokenKind) (heof : kind ≠ .eof) (hr : r.Within stop (n + 1)) :
    FaultsWithin stop (fun x => x.1.offset ≤ stop ∧ x.2.Within stop n) (r.expect kind) := by
  unfold Reader.expect
  dsimp only
  split
  · next hkind => exact ⟨hr.offset_peek, hr.advance_succ (hkind ▸ heof)⟩
  · exact ⟨hr.offset_peek, by simp⟩

theorem faultsWithin_readArguments (ts : List Token) (acc : List Argument) (hts : ∀ t ∈ ts, t.offset ≤ stop) :
    FaultsWithin stop (fun x => x.2.Sublist ts) (readArguments stop ts acc) := by
  fun_induction readArguments stop ts acc with
  | case1 => exact ⟨Nat.le_refl _, by simp⟩
  | case2 t ts => exact List.sublist_cons_self t ts
  | case3 t ts _ _ ih => exact (ih (List.forall_mem_cons.mp hts).2).mono fun _ h => h.cons t
  | case4 t ts _ _ ih => exact (ih (List.forall_mem_cons.mp hts).2).mono fun _ h => h.cons t
  | case5 t ts => exact ⟨(List.forall_mem_cons.mp hts).1, by simp⟩

theorem faultsWithin_readPredicate (hr : r.Within stop (n + 1)) :
    FaultsWithin stop (·.Within stop n) (readPredicate r) := by
  unfold readPredicate
  refine (faultsWithin_expect .lparen (by simp) hr).bind ?_
  rintro ⟨_, r₁⟩ ⟨_, h₁⟩
  refine (faultsWithin_expect .predicate (by simp) (h₁.mono (Nat.le_succ n))).bind ?_
  rintro ⟨name, r₂⟩ ⟨hname, h₂⟩
  dsimp only at hname h₂ ⊢
  split
  · exact ⟨hname, by simp⟩
  · rw [h₂.stop_eq]
    refine (faultsWithin_readArguments r₂.tokens [] h₂.tokens).bind ?_
    rintro ⟨args, rest⟩ hrest
    dsimp only at hrest ⊢
    split
    · exact ⟨hname, by simp⟩
    · refine ⟨rfl, Nat.lt_of_le_of_lt hrest.length_le h₂.length, fun t ht => h₂.tokens t (hrest.subset ht), ?_⟩
      exact List.forall_mem_append.mpr ⟨h₂.predicates, List.forall_mem_singleton.mpr hname⟩

theorem faultsWithin_readPredicates {fuel : Nat} (hr : r.Within stop n) :
    FaultsWithin stop (·.Within stop n) (readPredicates fuel r) := by
  induction fuel generalizing r with
  | zero => exact hr
  | succ fuel ih =>
    rw [readPredicates]
    split
    · have hone := faultsWithin_readPredicate (hr.mono (Nat.le_succ n))
      split
      · next r' hread =>
        rw [hread] at hone
        exact ih hone
      · next e hread => rwa [hread] at hone
    · exact hr

theorem within_readSuffix (p : Pattern) (hr : r.Within stop n) : (readSuffix p r).2.Within stop n := by
  have hcaptures (r : Reader) (hr : r.Within stop n) (names : List String) :
      Reader.Within stop n { r with tokens := r.tokens.dropWhile (·.kind = .capture), captureNames := names } :=
    have hsub := List.dropWhile_sublist (l := r.tokens) fun t : Token => decide (t.kind = .capture)
    ⟨hr.stop_eq, Nat.lt_of_le_of_lt hsub.length_le hr.length, fun t ht => hr.tokens t (hsub.subset ht), hr.predicates⟩
  unfold readSuffix
  by_cases hq : r.peek.kind = .quantifier
  · rw [if_pos hq]
    exact hcaptures r.advance hr.advance _
  · rw [if_neg hq]
    exact hcaptures r hr _

end Reading

/-- With this fuel, two units for each token, each of the four readers passes tokens or says what is wrong with one of
them. A pattern passes at least one token. -/
structure PatternsFaultWithin (stop fuel : Nat) : Prop where
  pattern : ∀ {r n}, 2 * n < fuel → r.Within stop (n + 1) → FaultsWithin stop (·.2.Within stop n) (readPattern fuel r)
  parenthesized : ∀ {start r n}, start ≤ stop → 2 * n ≤ fuel → r.Within stop n →
    FaultsWithin stop (·.2.Within stop n) (readParenthesized fuel start r)
  elements : ∀ {start r n found absent}, start ≤ stop → 2 * n ≤ fuel → r.Within stop n →
    FaultsWithin stop (·.2.2.Within stop n) (readElements fuel start r found absent)
  alternatives : ∀ {start r n found}, start ≤ stop → 2 * n ≤ fuel → r.Within stop n →
    FaultsWithin stop (·.2.Within stop n) (readAlternatives fuel start r found)

namespace PatternsFaultWithin

variable {stop : Nat}

theorem zero : PatternsFaultWithin stop 0 where
  pattern hfuel := absurd hfuel (Nat.not_lt_zero _)
  parenthesized _ hfuel hr := absurd hr.length (by omega)
  elements _ hfuel hr := absurd hr.length (by omega)
  alternatives _ hfuel hr := absurd hr.length (by omega)

section Step

variable {fuel : Nat} (ih : PatternsFaultWithin stop fuel) {start n : Nat} {r : Reader}

include ih

theorem pattern_succ (hfuel : 2 * n ≤ fuel) (hr : r.Within stop (n + 1)) :
    FaultsWithin stop (·.2.Within stop n) (readPattern (fuel + 1) r) := by
  have hnext : r.peek.kind ≠ .eof → r.advance.Within stop n := hr.advance_succ
  rw [readPattern]
  dsimp only
  split
  · next hkind =>
    refine (ih.parenthesized hr.offset_peek hfuel (hnext (by simp [hkind]))).bind ?_
    rintro ⟨p, r₁⟩ h₁
    exact within_readSuffix p h₁
  · next hkind =>
    refine (ih.alternatives hr.offset_peek hfuel (hnext (by simp [hkind]))).bind ?_
    rintro ⟨as, r₁⟩ h₁
    dsimp only
    split
    · exact ⟨hr.offset_peek, by simp⟩
    · exact within_readSuffix _ h₁
  · next hkind => exact within_readSuffix _ (hnext (by simp [hkind]))
  · next hkind =>
    split
    · exact within_readSuffix _ (hnext (by simp [hkind]))
    · exact ⟨hr.offset_peek, by simp⟩
  · exact ⟨hr.offset_peek, by simp⟩

theorem group_succ (hfuel : 2 * n < fuel) (hr : r.Within stop (n + 1)) :
    FaultsWithin stop (·.2.Within stop (n + 1)) (do
      let (inner, r) ← readPattern fuel r
      let r ← readPredicates r.tokens.length r
      if r.peek.kind = .rparen then .ok (inner, r.advance)
      else .error ⟨.groupSize, r.peek.offset⟩ : Except SyntaxFault (Pattern × Reader)) := by
  refine (ih.pattern hfuel hr).bind ?_
  rintro ⟨inner, r₁⟩ h₁
  refine (faultsWithin_readPredicates h₁).bind fun r₂ h₂ => ?_
  split
  · exact h₂.advance.mono (Nat.le_succ n)
  · exact ⟨h₂.offset_peek, by simp⟩

theorem parenthesized_succ (hstart : start ≤ stop) (hfuel : 2 * n ≤ fuel + 1) (hr : r.Within stop n) :
    FaultsWithin stop (·.2.Within stop n) (readParenthesized (fuel + 1) start r) := by
  obtain ⟨n, rfl⟩ : ∃ m, n = m + 1 := Nat.exists_eq_succ_of_ne_zero (Nat.ne_zero_of_lt hr.length)
  rw [readParenthesized.eq_def]
  dsimp only
  split
  · exact ih.group_succ (by omega) hr
  · exact ih.group_succ (by omega) hr
  · exact ih.group_succ (by omega) hr
  · next hkind =>
    have hnext : r.advance.Within stop n := hr.advance_succ (by simp [hkind])
    refine (ih.elements hstart (by omega) hnext).bind ?_
    rintro ⟨es, fields, r₁⟩ h₁
    exact h₁.mono (Nat.le_succ n)
  · exact ⟨hr.offset_peek, by simp⟩

theorem elements_succ {found : List Element} {absent : List String} (hstart : start ≤ stop)
    (hfuel : 2 * n ≤ fuel + 1) (hr : r.Within stop n) :
    FaultsWithin stop (·.2.2.Within stop n) (readElements (fuel + 1) start r found absent) := by
  obtain ⟨n, rfl⟩ : ∃ m, n = m + 1 := Nat.exists_eq_succ_of_ne_zero (Nat.ne_zero_of_lt hr.length)
  -- each item passes a token, so what follows it has the fuel that it needs
  have hrest (r₁ : Reader) (found : List Element) (absent : List String) (h₁ : r₁.Within stop n) :
      FaultsWithin stop (·.2.2.Within stop (n + 1)) (readElements fuel start r₁ found absent) :=
    (ih.elements hstart (by omega) h₁).mono fun _ h => h.mono (Nat.le_succ n)
  rw [readElements]
  dsimp only
  split
  · exact hr.advance
  split
  · exact ⟨hstart, by simp⟩
  next heof =>
  split
  · exact (faultsWithin_readPredicate hr).bind fun r₁ h₁ => hrest r₁ _ _ h₁
  split
  · refine (faultsWithin_expect .identifier (by simp) hr.advance).bind ?_
    rintro ⟨name, r₁⟩ ⟨_, h₁⟩
    exact hrest r₁ _ _ h₁
  split
  · refine (ih.pattern (by omega) hr.advance.advance).bind ?_
    rintro ⟨p, r₁⟩ h₁
    exact hrest r₁ _ _ h₁
  · refine (ih.pattern (by omega) hr).bind ?_
    rintro ⟨p, r₁⟩ h₁
    exact hrest r₁ _ _ h₁

theorem alternatives_succ {found : List Pattern} (hstart : start ≤ stop) (hfuel : 2 * n ≤ fuel + 1)
    (hr : r.Within stop n) : FaultsWithin stop (·.2.Within stop n) (readAlternatives (fuel + 1) start r found) := by
  obtain ⟨n, rfl⟩ : ∃ m, n = m + 1 := Nat.exists_eq_succ_of_ne_zero (Nat.ne_zero_of_lt hr.length)
  rw [readAlternatives]
  dsimp only
  split
  · exact hr.advance
  split
  · exact ⟨hstart, by simp⟩
  refine (ih.pattern (by omega) hr).bind ?_
  rintro ⟨p, r₁⟩ h₁
  exact (ih.alternatives hstart (by omega) h₁).mono fun _ h => h.mono (Nat.le_succ n)

end Step

theorem of_fuel (fuel : Nat) : PatternsFaultWithin stop fuel := by
  induction fuel with
  | zero => exact zero
  | succ fuel ih =>
    exact ⟨fun hfuel hr => ih.pattern_succ (Nat.lt_succ_iff.mp hfuel) hr, ih.parenthesized_succ, ih.elements_succ,
      ih.alternatives_succ⟩

end PatternsFaultWithin

theorem exists_of_undeclared? {names : List String} {predicates : List Predicate} {e : SyntaxFault}
    (h : undeclared? names predicates = some e) :
    ∃ p ∈ predicates, ∃ name, e = ⟨.undeclaredCapture name, p.offset⟩ := by
  obtain ⟨p, hp, h⟩ := List.exists_of_findSome?_eq_some h
  obtain ⟨a, -, h⟩ := List.exists_of_findSome?_eq_some h
  refine ⟨p, hp, ?_⟩
  cases a with
  | capture name =>
    dsimp only at h
    split at h
    · cases h
    · exact ⟨name, (Option.some.inj h).symm⟩
  | string value => cases h

theorem mem_of_undeclared? {names : List String} {predicates : List Predicate}
    (h : undeclared? names predicates = none) :
    ∀ p ∈ predicates, ∀ name, .capture name ∈ p.args → name ∈ names := by
  intro p hp name hm
  simpa using List.findSome?_eq_none_iff.mp (List.findSome?_eq_none_iff.mp h p hp) _ hm

/-- A text is read as a query or is rejected at a place in it. -/
theorem faultsWithin_parse (source : String) : FaultsWithin (Text.length source) (fun _ => True) (parse source) := by
  have hscan : FaultsWithin (Text.length source) (fun ts => ∀ t ∈ ts, t.offset ≤ Text.length source) (scan source) :=
    faultsWithin_scanFrom 0 source.toList (Nat.le_of_eq (Nat.zero_add _))
  unfold parse
  refine hscan.bind fun tokens htokens => ?_
  unfold ofTokens
  dsimp only
  split
  · exact ⟨Nat.zero_le _, by simp⟩
  have hstart : Reader.Within (Text.length source) (tokens.length + 1) { tokens, stop := Text.length source } :=
    ⟨rfl, Nat.lt_succ_self _, htokens, by simp⟩
  refine ((PatternsFaultWithin.of_fuel _).pattern (by omega) hstart).bind ?_
  rintro ⟨pattern, r₁⟩ h₁
  refine (faultsWithin_readPredicates h₁).bind fun r₂ h₂ => ?_
  split
  · exact ⟨h₂.offset_peek, by simp⟩
  split
  · exact ⟨Nat.zero_le _, by simp⟩
  split
  · next e hundeclared =>
    obtain ⟨p, hp, name, rfl⟩ := exists_of_undeclared? hundeclared
    exact ⟨h₂.predicates p hp, by simp⟩
  · trivial

theorem exists_map_string {args : List Argument} (h : ∀ name, .capture name ∉ args) :
    ∃ values : List String, args = values.map .string := by
  induction args with
  | nil => exact ⟨[], rfl⟩
  | cons a args ih =>
    obtain ⟨values, rfl⟩ := ih fun name hm => h name (List.mem_cons_of_mem a hm)
    cases a with
    | capture name => exact absurd List.mem_cons_self (h name)
    | string value => exact ⟨value :: values, rfl⟩

/-- Arguments without a problem are those that the relation takes. -/
theorem fits_of_argumentProblem? {relation : Relation} {args : List Argument}
    (h : argumentProblem? relation args = none) : Fits relation args := by
  unfold argumentProblem? at h
  split at h
  · next name rest =>
    split at h
    · next other => exact .eq name other
    · cases h
    · next source =>
      split at h
      · next program hprogram => exact .isMatch name source hprogram
      · cases h
    · cases h
    · split at h
      · cases h
      next hstrings =>
      rw [Bool.or_eq_true, not_or] at hstrings
      obtain ⟨values, rfl⟩ : ∃ values : List String, rest = values.map .string :=
        exists_map_string fun other hm => hstrings.2 (List.any_eq_true.mpr ⟨.capture other, hm, rfl⟩)
      cases values with
      | nil => exact absurd rfl hstrings.1
      | cons value values => exact .anyOf name value values
    · exact .empty name
    · cases h
  · cases h

theorem wellFormed_of_parse {source : String} {q : Query} (h : parse source = .ok q) :
    WellFormed q.pattern q.predicates := by
  obtain ⟨d⟩ := exists_derivation h
  refine ⟨pattern_wellFormed_of_parse h, d.once, fun p hp => fits_of_argumentProblem? (d.fits p hp), ?_⟩
  intro p hp name hm
  have hnames := mem_of_undeclared? d.declared p hp name hm
  rwa [d.captureNames_eq, List.mem_eraseDups] at hnames

theorem nodup_foldl_addName (names : List String) {acc : List String} (h : acc.Nodup) :
    (names.foldl addName acc).Nodup := by
  induction names generalizing acc with
  | nil => exact h
  | cons name names ih =>
    refine ih ?_
    unfold addName
    split
    · exact h
    · next hnew =>
      refine List.nodup_append.mpr ⟨h, List.nodup_cons.mpr ⟨List.not_mem_nil, List.nodup_nil⟩, ?_⟩
      rintro other hother _ hname rfl
      obtain rfl := List.mem_singleton.mp hname
      exact hnew (by simpa using hother)

/-- A check has its predicate, and the program of its expression if the predicate matches one. -/
structure Check.Checks (p : Predicate) (check : Check) : Prop where
  predicate : check.predicate = p
  program : p.relation = .isMatch → ∃ name source program, p.args = [.capture name, .string source] ∧
    Regex.compile source "" = .ok program ∧ check.program = some program

theorem Check.checks_of_ofPredicate {p : Predicate} {check : Check} (hfits : Fits p.relation p.args)
    (h : Check.ofPredicate p = .ok check) : check.Checks p := by
  obtain ⟨relation, negated, args, offset⟩ := p
  cases hfits with
  | isMatch name source hprogram =>
    obtain ⟨program, hcompile, rfl⟩ := map_eq_ok.mp h
    exact ⟨rfl, fun _ => ⟨name, source, program, rfl, hcompile, rfl⟩⟩
  | eq name other | anyOf name value values | empty name =>
    cases h
    exact ⟨rfl, by simp⟩

theorem exists_compile_eq_ok {source : String} {q : Query} (h : parse source = .ok q) :
    ∃ c, compile q = .ok c ∧ c.pattern = q.pattern ∧ List.Forall₂ Check.Checks q.predicates c.checks := by
  obtain ⟨c, hc, hpattern⟩ := compile_of_parse h
  refine ⟨c, hc, hpattern, ?_⟩
  obtain ⟨checks, hchecks, hc⟩ := bind_eq_ok.mp hc
  cases hc
  have hfits : ∀ p ∈ q.predicates, Fits p.relation p.args := (wellFormed_of_parse h).fits
  refine (List.forall₂_and_left _ _ |>.mpr ⟨hfits, forall₂_of_mapM hchecks⟩).imp fun p check hp => ?_
  exact Check.checks_of_ofPredicate hp.1 hp.2

/-- Every text is rejected at a place in it or is read as a query. The names of the query are the captures of its
pattern, each once; each predicate has a known name; the query is well formed and compiles, and every predicate that
matches an expression gets the program of its expression. -/
theorem parse_located_or_wellFormed (source : String) :
    (∃ e, parse source = .error e ∧ e.offset ≤ Text.length source ∧ e.flaw ≠ .unexpectedEnd) ∨
      ∃ q c, parse source = .ok q ∧ q.captureNames.Nodup ∧
        (∀ name, name ∈ q.captureNames ↔ name ∈ q.pattern.allCaptures) ∧
        (∀ p ∈ q.predicates, Predicate.form? p.name = some (p.relation, p.negated)) ∧
        WellFormed q.pattern q.predicates ∧ compile q = .ok c ∧ c.pattern = q.pattern ∧
        List.Forall₂ Check.Checks q.predicates c.checks := by
  have hwithin := faultsWithin_parse source
  cases hparse : parse source with
  | error e =>
    rw [hparse] at hwithin
    exact .inl ⟨e, rfl, hwithin⟩
  | ok q =>
    obtain ⟨hnames, -⟩ := of_parse hparse
    obtain ⟨c, hc, hpattern, hchecks⟩ := exists_compile_eq_ok hparse
    refine .inr ⟨q, c, rfl, ?_, fun name => ?_, fun p _ => form?_nameOf p.relation p.negated,
      wellFormed_of_parse hparse, hc, hpattern, hchecks⟩
    · rw [hnames, ← foldl_addName_eq_eraseDups]
      exact nodup_foldl_addName _ List.nodup_nil
    · rw [hnames, List.mem_eraseDups]

end RuleScan.Query
