import Mathlib.Data.List.TakeWhile
import RuleScan.Proofs.Query.Rejections

/-! How the tokens of a text cover it. A token has spellings, and between those of two tokens there is nothing but
blanks and comments. Main statements: the tokens of a text are those that cover it, each with as many characters as
any token can have there, and they are read again from any of their spellings with blanks between them. -/
namespace RuleScan.Query

/-- The characters between the quotes of a string, and the text that they stand for. -/
inductive Unescapes : List Char → List Char → Prop
  | nil : Unescapes [] []
  | plain {c : Char} {body text : List Char} (quote : c ≠ '"') (backslash : c ≠ '\\') (rest : Unescapes body text) :
      Unescapes (c :: body) (c :: text)
  | escape {c e : Char} {body text : List Char} (stands : unescape? c = some e) (rest : Unescapes body text) :
      Unescapes ('\\' :: c :: body) (e :: text)

/-- Small letters and hyphens, with a question mark after them or without, and not nothing. -/
def IsPredicateName (cs : List Char) : Prop :=
  cs ≠ [] ∧ ∃ name mark, cs = name ++ mark ∧ (∀ d ∈ name, isPredicatePart d = true) ∧ (mark = [] ∨ mark = ['?'])

/-- What is written for a token of this kind with this value: the value, behind the sign of a capture or a predicate
and with escapes between the quotes of a string. -/
inductive Spells : TokenKind → String → List Char → Prop
  | sign {c : Char} {kind : TokenKind} (sign : singleKind? c = some kind) : Spells kind c.toString [c]
  | string {body text : List Char} (stands : Unescapes body text) :
      Spells .string (String.ofList text) ('"' :: (body ++ ['"']))
  | capture {s : String} (name : IsCaptureName s) : Spells .capture s ('@' :: s.toList)
  | predicate {s : String} (name : IsPredicateName s.toList) : Spells .predicate s ('#' :: s.toList)
  | identifier {s : String} (name : IsIdentifier s) : Spells .identifier s s.toList

/-- Blanks, and comments up to the ends of their lines. -/
inductive IsGap : List Char → Prop
  | nil : IsGap []
  | blank {c : Char} {cs : List Char} (blank : Text.isBlank c = true) (rest : IsGap cs) : IsGap (c :: cs)
  | comment {text cs : List Char} (line : '\n' ∉ text) (rest : IsGap ('\n' :: cs)) :
      IsGap (';' :: (text ++ '\n' :: cs))

/-- What is left after the last token: the last comment need not end. -/
def IsTail (cs : List Char) : Prop :=
  IsGap cs ∨ ∃ gap text, cs = gap ++ ';' :: text ∧ IsGap gap ∧ '\n' ∉ text

/-- With more of the characters that follow, the spelling is not that of a token. -/
def Longest (spelling rest : List Char) : Prop :=
  ∀ more, more ≠ [] → more <+: rest → ∀ kind value, ¬Spells kind value (spelling ++ more)

/-- From an offset on, some characters are the spellings of tokens, with gaps before them and a tail after them. -/
inductive Tiles : Nat → List Char → List Token → Prop
  | last {offset : Nat} {cs : List Char} (tail : IsTail cs) : Tiles offset cs []
  | token {offset : Nat} {gap spelling rest : List Char} {t : Token} {ts : List Token} (apart : IsGap gap)
      (place : t.offset = offset + widthOf gap) (spells : Spells t.kind t.value spelling)
      (longest : Longest spelling rest) (others : Tiles (t.offset + widthOf spelling) rest ts) :
      Tiles offset (gap ++ (spelling ++ rest)) (t :: ts)

section Spelling

variable {kind : TokenKind} {value : String} {spelling rest : List Char}

theorem of_singleKind? {c : Char} (h : singleKind? c = some kind) :
    Text.isBlank c = false ∧ c ≠ ';' ∧ Units.width c = 1 := by
  unfold singleKind? at h
  split at h
  case h_10 => cases h
  all_goals decide

/-- The characters that names are made of take one code unit each. -/
theorem width_of_part {c : Char} (h : isIdentifierPart c = true ∨ isCapturePart c = true ∨ isPredicatePart c = true) :
    Units.width c = 1 := by
  have hle : ∀ a b : Char, a ≤ b ↔ a.toNat ≤ b.toNat := fun _ _ => Iff.rfl
  have heq : ∀ a b : Char, a = b ↔ a.toNat = b.toNat := fun _ _ => Char.toNat_inj.symm
  have hlt : c.toNat < 128 := by
    simp only [isIdentifierPart, isCapturePart, isPredicatePart, isLetter, isNumeral, Bool.or_eq_true,
      Bool.and_eq_true, decide_eq_true_eq, hle, heq, Char.reduceToNat] at h
    omega
  exact if_pos (by omega)

theorem widthOf_eq_length {cs : List Char} (h : ∀ c ∈ cs, Units.width c = 1) : widthOf cs = cs.length := by
  induction cs with
  | nil => rfl
  | cons c cs ih =>
    obtain ⟨hc, hcs⟩ := List.forall_mem_cons.mp h
    rw [widthOf_cons, hc, ih hcs, List.length_cons, Nat.add_comm]

theorem isIdentifierPart_of_start {c : Char} (h : isIdentifierStart c = true) : isIdentifierPart c = true := by
  simp only [isIdentifierStart, isIdentifierPart, Bool.or_eq_true] at h ⊢
  tauto

theorem widthOf_capture {cs : List Char} (h : ∀ d ∈ cs, isCapturePart d = true) :
    widthOf ('@' :: cs) = 1 + cs.length := by
  rw [widthOf_cons, widthOf_eq_length fun c hc => width_of_part (.inr (.inl (h c hc)))]
  rfl

theorem widthOf_predicate {cs : List Char} (h : IsPredicateName cs) : widthOf ('#' :: cs) = 1 + cs.length := by
  obtain ⟨-, name, mark, rfl, hparts, hmark⟩ := h
  have hwidth : ∀ c ∈ name ++ mark, Units.width c = 1 := by
    refine List.forall_mem_append.mpr ⟨fun c hc => width_of_part (.inr (.inr (hparts c hc))), ?_⟩
    rcases hmark with rfl | rfl
    · exact List.forall_mem_nil _
    · exact List.forall_mem_singleton.mpr (by decide)
  rw [widthOf_cons, widthOf_eq_length hwidth]
  rfl

theorem widthOf_identifier {c : Char} {cs : List Char} (hc : isIdentifierStart c = true)
    (h : ∀ d ∈ cs, isIdentifierPart d = true) : widthOf (c :: cs) = 1 + cs.length := by
  rw [widthOf_cons, width_of_part (.inl (isIdentifierPart_of_start hc)),
    widthOf_eq_length fun d hd => width_of_part (.inl (h d hd))]

theorem widthOf_quotes (offset : Nat) (body : List Char) :
    offset + 1 + widthOf body + 1 = offset + widthOf ('"' :: (body ++ ['"'])) := by
  have : Units.width '"' = 1 := by decide
  have : widthOf ['"'] = 1 := by decide
  rw [widthOf_cons, widthOf_append]
  omega

/-- The characters that may follow the first one of a token. -/
def Continues (c : Char) (cs : List Char) : Prop :=
  if (singleKind? c).isSome then cs = []
  else if c = '"' then ∃ body text, cs = body ++ ['"'] ∧ Unescapes body text
  else if c = '@' then ∀ d ∈ cs, isCapturePart d = true
  else if c = '#' then IsPredicateName cs
  else ∀ d ∈ cs, isIdentifierPart d = true

/-- A token begins with a character that is no blank and begins no comment, and goes on as this one says. -/
theorem Spells.exists_cons (h : Spells kind value spelling) :
    ∃ c cs, spelling = c :: cs ∧ Text.isBlank c = false ∧ c ≠ ';' ∧ Continues c cs := by
  cases h with
  | @sign c _ hk =>
    obtain ⟨hblank, hcomment, -⟩ := of_singleKind? hk
    refine ⟨c, [], rfl, hblank, hcomment, ?_⟩
    rw [Continues, hk]
    rfl
  | string hstands => exact ⟨'"', _, rfl, by decide, by decide, _, _, rfl, hstands⟩
  | capture hname => exact ⟨'@', _, rfl, by decide, by decide, hname.2⟩
  | predicate hname => exact ⟨'#', _, rfl, by decide, by decide, hname⟩
  | identifier hname =>
    obtain ⟨c, cs, hvalue, hstart, hparts⟩ := hname
    obtain ⟨hcomment, hk, hquote, hat, hhash⟩ := not_special_of_start hstart
    refine ⟨c, cs, hvalue, not_blank_of_start hstart, hcomment, ?_⟩
    rw [Continues, hk, if_neg (by decide), if_neg hquote, if_neg hat, if_neg hhash]
    exact hparts

def EndsBefore : TokenKind → String → List Char → Prop
  | .capture, _, rest => ∀ c ∈ rest.head?, isCapturePart c = false
  | .identifier, _, rest => ∀ c ∈ rest.head?, isIdentifierPart c = false
  | .predicate, value, rest =>
    value.toList.getLast? = some '?' ∨ ∀ c ∈ rest.head?, isPredicatePart c = false ∧ c ≠ '?'
  | _, _, _ => True

theorem width_of_unescape? {c e : Char} (h : unescape? c = some e) : Units.width c = 1 := by
  unfold unescape? at h
  split at h
  case h_6 => cases h
  all_goals decide

theorem endsBefore_of_singleKind? {c : Char} (h : singleKind? c = some kind) (value : String) (rest : List Char) :
    EndsBefore kind value rest := by
  unfold singleKind? at h
  split at h
  case h_10 => cases h
  all_goals
    cases h
    trivial

/-- A predicate name that does not end in a question mark goes on with letters, hyphens and one question mark. -/
theorem IsPredicateName.concat {cs : List Char} (h : IsPredicateName cs) (hlast : cs.getLast? ≠ some '?') {c : Char}
    (hc : isPredicatePart c = true ∨ c = '?') : IsPredicateName (cs ++ [c]) := by
  obtain ⟨hne, name, mark, rfl, hparts, rfl | rfl⟩ := h
  · refine ⟨List.append_ne_nil_of_left_ne_nil hne _, ?_⟩
    rcases hc with hc | rfl
    · refine ⟨name ++ [c], [], by simp, ?_, .inl rfl⟩
      exact List.forall_mem_append.mpr ⟨hparts, List.forall_mem_singleton.mpr hc⟩
    · exact ⟨name, ['?'], by simp, hparts, .inr rfl⟩
  · exact absurd List.getLast?_concat hlast

theorem spells_capture {cs : List Char} (hne : cs ≠ []) (h : ∀ d ∈ cs, isCapturePart d = true) :
    Spells .capture (String.ofList cs) ('@' :: cs) := by
  have hspells := Spells.capture (s := String.ofList cs)
  rw [IsCaptureName, String.toList_ofList] at hspells
  exact hspells ⟨hne, h⟩

theorem spells_predicate {cs : List Char} (h : IsPredicateName cs) :
    Spells .predicate (String.ofList cs) ('#' :: cs) := by
  have hspells := Spells.predicate (s := String.ofList cs)
  rw [String.toList_ofList] at hspells
  exact hspells h

theorem spells_identifier {c : Char} {cs : List Char} (hc : isIdentifierStart c = true)
    (h : ∀ d ∈ cs, isIdentifierPart d = true) : Spells .identifier (String.ofList (c :: cs)) (c :: cs) := by
  have hspells := Spells.identifier (s := String.ofList (c :: cs))
  rw [String.toList_ofList] at hspells
  exact hspells ⟨c, cs, String.toList_ofList, hc, h⟩

theorem splitPredicate_append {cs : List Char} (h : IsPredicateName cs)
    (hends : cs.getLast? = some '?' ∨ ∀ c ∈ rest.head?, isPredicatePart c = false ∧ c ≠ '?') :
    splitPredicate (cs ++ rest) = (cs, rest) := by
  obtain ⟨-, name, mark, rfl, hparts, rfl | rfl⟩ := h
  · rw [List.append_nil] at hends ⊢
    have hstop : ∀ c ∈ rest.head?, isPredicatePart c = false ∧ c ≠ '?' := by
      apply hends.resolve_left
      intro hlast
      exact absurd (hparts '?' (List.mem_of_getLast? hlast)) (by decide)
    obtain ⟨htake, hdrop⟩ := takeWhile_append_stop hparts fun c hc => (hstop c hc).1
    unfold splitPredicate
    rw [htake, hdrop]
    split
    · next tail => exact absurd rfl (hstop '?' rfl).2
    · rfl
  · have hstop : ∀ c ∈ ('?' :: rest).head?, isPredicatePart c = false := fun c hc => Option.some.inj hc ▸ by decide
    obtain ⟨htake, hdrop⟩ := takeWhile_append_stop hparts hstop
    unfold splitPredicate
    rw [List.append_assoc, List.singleton_append, htake, hdrop]
    rfl

theorem splitPredicate_spec (cs : List Char) :
    (splitPredicate cs).1 ++ (splitPredicate cs).2 = cs ∧
      ((splitPredicate cs).1 ≠ [] → IsPredicateName (splitPredicate cs).1) ∧
      ((splitPredicate cs).1.getLast? = some '?' ∨
        ∀ c ∈ (splitPredicate cs).2.head?, isPredicatePart c = false ∧ c ≠ '?') := by
  have hparts : ∀ c ∈ cs.takeWhile isPredicatePart, isPredicatePart c = true := fun _ => List.mem_takeWhile_imp
  have hstop := head?_dropWhile_eq_false isPredicatePart cs
  have hcut := List.takeWhile_append_dropWhile (p := isPredicatePart) (l := cs)
  unfold splitPredicate
  split
  · next rest hrest =>
    rw [hrest] at hcut
    exact ⟨by simpa using hcut, fun hne => ⟨hne, _, ['?'], rfl, hparts, .inr rfl⟩, .inl List.getLast?_concat⟩
  · next hmark =>
    refine ⟨hcut, fun hne => ⟨hne, _, [], (List.append_nil _).symm, hparts, .inl rfl⟩,
      .inr fun c hc => ⟨hstop c hc, ?_⟩⟩
    rintro rfl
    obtain ⟨rest, hrest⟩ := List.head?_eq_some_iff.mp hc
    exact hmark rest hrest

/-- Reading a string gives the text that its characters stand for. -/
theorem readQuoted_unescapes {body text : List Char} (h : Unescapes body text) (start offset : Nat)
    (acc rest : List Char) : readQuoted start (body ++ '"' :: rest) offset acc =
      .ok (text.reverse ++ acc, rest, offset + widthOf body + 1) := by
  induction h generalizing offset acc with
  | nil => rfl
  | @plain c body text hquote hbackslash _ ih =>
    rw [List.cons_append, readQuoted, ih, widthOf_cons, List.reverse_cons, List.append_assoc, ← Nat.add_assoc]
    · rfl
    · exact hquote
    · exact fun hc _ => hbackslash hc
    · exact fun _ _ hc _ => hbackslash hc
  | @escape c e body text hstands _ ih =>
    have hoffset : offset + 2 + widthOf body = offset + (Units.width '\\' + (Units.width c + widthOf body)) := by
      have : Units.width '\\' = 1 := by decide
      have := width_of_unescape? hstands
      omega
    rw [List.cons_append, List.cons_append, readQuoted, hstands]
    dsimp only
    rw [ih, widthOf_cons, widthOf_cons, hoffset, List.reverse_cons, List.append_assoc]
    rfl

theorem exists_of_readQuoted {start : Nat} {cs : List Char} {offset : Nat} {acc value rest : List Char} {next : Nat}
    (h : readQuoted start cs offset acc = .ok (value, rest, next)) :
    ∃ body text, cs = body ++ '"' :: rest ∧ Unescapes body text ∧ value = text.reverse ++ acc ∧
      next = offset + widthOf body + 1 := by
  fun_induction readQuoted start cs offset acc with
  | case1 | case3 | case5 => cases h
  | case2 rest offset acc =>
    cases h
    exact ⟨[], [], rfl, .nil, rfl, rfl⟩
  | case4 c tail offset acc e hstands ih =>
    obtain ⟨body, text, rfl, hbody, rfl, rfl⟩ := ih h
    refine ⟨'\\' :: c :: body, e :: text, rfl, .escape hstands hbody, ?_, ?_⟩
    · rw [List.reverse_cons, List.append_assoc]
      rfl
    · have : Units.width '\\' = 1 := by decide
      have := width_of_unescape? hstands
      rw [widthOf_cons, widthOf_cons]
      omega
  | case6 c tail offset acc hquote hend hbackslash ih =>
    obtain ⟨body, text, rfl, hbody, rfl, rfl⟩ := ih h
    have hplain : c ≠ '\\' := by
      rintro rfl
      obtain ⟨x, xs, hcons⟩ := List.exists_cons_of_ne_nil (hend rfl)
      exact hbackslash x xs rfl hcons
    refine ⟨c :: body, c :: text, rfl, .plain hquote hplain hbody, ?_, ?_⟩
    · rw [List.reverse_cons, List.append_assoc]
      rfl
    · rw [widthOf_cons]
      omega

/-- A token that is scanned. -/
theorem scanFrom_append (h : Spells kind value spelling) (hends : EndsBefore kind value rest) (offset : Nat) :
    scanFrom offset (spelling ++ rest) =
      (scanFrom (offset + widthOf spelling) rest).map (⟨kind, value, offset⟩ :: ·) := by
  cases h with
  | @sign c _ hk =>
    obtain ⟨hblank, hcomment, hwidth⟩ := of_singleKind? hk
    rw [List.singleton_append, scanFrom, hblank, if_neg Bool.false_ne_true, if_neg hcomment, hk, widthOf_cons, hwidth]
    rfl
  | @string body text hstands =>
    have hread := readQuoted_unescapes hstands offset (offset + 1) [] rest
    have hoffset := widthOf_quotes offset body
    rw [List.cons_append, List.append_assoc, List.singleton_append, scanFrom, if_neg (by decide), if_neg (by decide),
      show singleKind? '"' = none from rfl]
    dsimp only
    rw [if_pos rfl, ← hoffset]
    split
    · next e he =>
      rw [hread] at he
      cases he
    · next value after next he =>
      rw [hread] at he
      cases he
      simp
  | capture hname =>
    obtain ⟨hne, hparts⟩ := hname
    obtain ⟨htake, hdrop⟩ := takeWhile_append_stop hparts hends
    have hfull : ¬value.toList.isEmpty = true := by simpa using hne
    rw [List.cons_append, scanFrom, if_neg (by decide), if_neg (by decide), show singleKind? '@' = none from rfl]
    dsimp only
    rw [if_neg (by decide), if_pos rfl, htake, hdrop, if_neg hfull, String.ofList_toList, widthOf_capture hparts,
      Nat.add_assoc]
  | predicate hname =>
    have hsplit := splitPredicate_append hname hends
    have hfull : ¬value.toList.isEmpty = true := by simpa using hname.1
    rw [List.cons_append, scanFrom, if_neg (by decide), if_neg (by decide), show singleKind? '#' = none from rfl]
    dsimp only
    rw [if_neg (by decide), if_neg (by decide), if_pos rfl, hsplit, if_neg hfull, String.ofList_toList,
      widthOf_predicate hname, Nat.add_assoc]
  | identifier hname =>
    obtain ⟨c, tail, hvalue, hstart, hparts⟩ := hname
    obtain ⟨hcomment, hk, hquote, hat, hhash⟩ := not_special_of_start hstart
    obtain ⟨htake, hdrop⟩ := takeWhile_append_stop hparts hends
    have hwidth : widthOf value.toList = 1 + tail.length := hvalue ▸ widthOf_identifier hstart hparts
    rw [hwidth, ← Nat.add_assoc, hvalue, List.cons_append, scanFrom, not_blank_of_start hstart,
      if_neg Bool.false_ne_true, if_neg hcomment, hk]
    dsimp only
    rw [if_neg hquote, if_neg hat, if_neg hhash, if_pos hstart, htake, hdrop, ← hvalue, String.ofList_toList]

theorem Longest.not_spells {c : Char} (h : Longest spelling rest) (hc : c ∈ rest.head?) (kind : TokenKind)
    (value : String) : ¬Spells kind value (spelling ++ [c]) := by
  obtain ⟨tail, rfl⟩ : ∃ tail, rest = c :: tail := List.head?_eq_some_iff.mp hc
  exact h [c] (List.cons_ne_nil c []) ⟨tail, rfl⟩ kind value

/-- What follows the longest spelling of a token is no part of the token. -/
theorem Longest.endsBefore (hlongest : Longest spelling rest) (h : Spells kind value spelling) :
    EndsBefore kind value rest := by
  cases h with
  | sign hk => exact endsBefore_of_singleKind? hk _ _
  | string hstands => trivial
  | capture hname =>
    intro c hc
    by_contra hpart
    apply hlongest.not_spells hc
    apply spells_capture (List.append_ne_nil_of_left_ne_nil hname.1 [c])
    exact List.forall_mem_append.mpr ⟨hname.2, List.forall_mem_singleton.mpr (Bool.not_eq_false _ ▸ hpart)⟩
  | predicate hname =>
    by_cases hlast : value.toList.getLast? = some '?'
    · exact .inl hlast
    refine .inr fun c hc => ?_
    by_contra hpart
    apply hlongest.not_spells hc
    have hmore : isPredicatePart c = true ∨ c = '?' :=
      (not_and_or.mp hpart).imp (Bool.not_eq_false _).mp not_not.mp
    exact spells_predicate (hname.concat hlast hmore)
  | identifier hname =>
    intro c hc
    by_contra hpart
    obtain ⟨first, tail, hvalue, hstart, hparts⟩ := hname
    apply hlongest.not_spells hc
    rw [hvalue]
    apply spells_identifier hstart
    exact List.forall_mem_append.mpr ⟨hparts, List.forall_mem_singleton.mpr (Bool.not_eq_false _ ▸ hpart)⟩

/-- The spelling of a token is the longest where what follows is no part of the token. -/
theorem EndsBefore.longest (hends : EndsBefore kind value rest) (h : Spells kind value spelling) :
    Longest spelling rest := by
  rintro more hne ⟨others, rfl⟩ kind' value' hspells
  obtain ⟨c', cs', hcons, -, -, hcontinues⟩ := hspells.exists_cons
  cases h with
  | sign hk =>
    cases hcons
    rw [Continues, hk] at hcontinues
    exact hne hcontinues
  | @string body text hstands =>
    cases hcons
    obtain ⟨body', text', hbody, hstands'⟩ : ∃ body' text', body ++ ['"'] ++ more = body' ++ ['"'] ∧
      Unescapes body' text' := hcontinues
    have hread := readQuoted_unescapes hstands 0 0 [] more
    have hread' := readQuoted_unescapes hstands' 0 0 [] []
    rw [← hbody, List.append_assoc, List.singleton_append, hread] at hread'
    exact hne (Prod.mk.inj (Prod.mk.inj (Except.ok.inj hread')).2).1
  | capture hname =>
    cases hcons
    have hparts : ∀ d ∈ value.toList ++ more, isCapturePart d = true := hcontinues
    cases more with
    | nil => exact hne rfl
    | cons c more =>
      have hpart := hparts c (List.mem_append_right _ List.mem_cons_self)
      exact Bool.false_ne_true ((hends c rfl).symm.trans hpart)
  | predicate hname =>
    cases hcons
    have hname' : IsPredicateName (value.toList ++ more) := hcontinues
    have hsplit : splitPredicate (value.toList ++ more) = (value.toList, more) := by
      apply splitPredicate_append hname
      cases more with
      | nil => exact absurd rfl hne
      | cons c more => exact hends
    have hsplit' : splitPredicate (value.toList ++ more ++ []) = (value.toList ++ more, []) :=
      splitPredicate_append hname' (.inr nofun)
    rw [List.append_nil, hsplit] at hsplit'
    exact hne (Prod.mk.inj hsplit').2
  | identifier hname =>
    obtain ⟨first, tail, hvalue, hstart, -⟩ := hname
    obtain ⟨-, hk, hquote, hat, hhash⟩ := not_special_of_start hstart
    rw [hvalue] at hcons
    cases hcons
    rw [Continues, hk, if_neg (by decide), if_neg hquote, if_neg hat, if_neg hhash] at hcontinues
    cases more with
    | nil => exact hne rfl
    | cons c more =>
      have hpart := hcontinues c (List.mem_append_right _ List.mem_cons_self)
      exact Bool.false_ne_true ((hends c rfl).symm.trans hpart)

end Spelling

section Covering

variable {offset : Nat} {cs gap spelling rest : List Char} {ts : List Token}

theorem scanFrom_gap (h : IsGap gap) (offset : Nat) (cs : List Char) :
    scanFrom offset (gap ++ cs) = scanFrom (offset + widthOf gap) cs := by
  induction h generalizing offset with
  | nil => rfl
  | blank hblank _ ih => rw [List.cons_append, scanFrom, if_pos hblank, ih, widthOf_cons, Nat.add_assoc]
  | @comment text others hline _ ih =>
    have hplain : ∀ c ∈ text, (c != '\n') = true := fun c hc => bne_iff_ne.mpr fun he => hline (he ▸ hc)
    have hstop : ∀ c ∈ ('\n' :: others ++ cs).head?, (c != '\n') = false := fun c hc =>
      Option.some.inj hc ▸ by decide
    obtain ⟨htake, hdrop⟩ := takeWhile_append_stop hplain hstop
    have hoffset : offset + 1 + widthOf text + widthOf ('\n' :: others) =
        offset + widthOf (';' :: (text ++ '\n' :: others)) := by
      have : Units.width ';' = 1 := by decide
      rw [widthOf_cons ';', widthOf_append]
      omega
    rw [List.cons_append, List.append_assoc, scanFrom, if_neg (by decide), if_pos rfl, htake, hdrop, ih, hoffset]

theorem scanFrom_tail (h : IsTail cs) (offset : Nat) : scanFrom offset cs = .ok [] := by
  rcases h with h | ⟨gap, text, rfl, h, hline⟩
  · have hgap := scanFrom_gap h offset []
    rw [List.append_nil] at hgap
    rw [hgap, scanFrom]
  · have hplain : ∀ c ∈ text, (c != '\n') = true := fun c hc => bne_iff_ne.mpr fun he => hline (he ▸ hc)
    have hdrop : text.dropWhile (· != '\n') = [] := List.dropWhile_eq_nil_iff.mpr hplain
    rw [scanFrom_gap h, scanFrom, if_neg (by decide), if_pos rfl, hdrop, scanFrom]

/-- What tokens cover is scanned as these tokens. -/
theorem Tiles.scanFrom_eq (h : Tiles offset cs ts) : scanFrom offset cs = .ok ts := by
  induction h with
  | last htail => exact scanFrom_tail htail _
  | token hgap hplace hspells hlongest _ ih =>
    rw [scanFrom_gap hgap, scanFrom_append hspells (hlongest.endsBefore hspells), ← hplace, ih]
    rfl

theorem Tiles.cons {kind : TokenKind} {value : String} (hspells : Spells kind value spelling)
    (hends : EndsBefore kind value rest) {next : Nat} (hnext : next = offset + widthOf spelling)
    (h : Tiles next rest ts) : Tiles offset (spelling ++ rest) (⟨kind, value, offset⟩ :: ts) := by
  subst hnext
  exact Tiles.token .nil rfl hspells (hends.longest hspells) h

theorem Tiles.blank {c : Char} (hc : Text.isBlank c = true) (h : Tiles (offset + Units.width c) cs ts) :
    Tiles offset (c :: cs) ts := by
  cases h with
  | last htail =>
    apply Tiles.last
    rcases htail with hgap | ⟨gap, text, rfl, hgap, hline⟩
    · exact .inl (.blank hc hgap)
    · exact .inr ⟨c :: gap, text, rfl, .blank hc hgap, hline⟩
  | @token _ gap spelling rest t ts hgap hplace hspells hlongest hothers =>
    have hplace' : t.offset = offset + widthOf (c :: gap) := by rw [hplace, widthOf_cons, Nat.add_assoc]
    exact Tiles.token (.blank hc hgap) hplace' hspells hlongest hothers

/-- A comment is skipped up to the end of its line. -/
theorem Tiles.comment {text : List Char} (hline : '\n' ∉ text) (hstop : ∀ c ∈ cs.head?, c = '\n')
    (h : Tiles (offset + 1 + widthOf text) cs ts) : Tiles offset (';' :: (text ++ cs)) ts := by
  cases h with
  | last htail =>
    apply Tiles.last
    rcases htail with hgap | ⟨gap, text', rfl, hgap, hline'⟩
    · cases cs with
      | nil => exact .inr ⟨[], text, by simp, .nil, hline⟩
      | cons c cs =>
        obtain rfl := hstop c rfl
        exact .inl (.comment hline hgap)
    · cases gap with
      | nil => exact absurd (hstop ';' rfl) (by decide)
      | cons c gap =>
        obtain rfl := hstop c rfl
        exact .inr ⟨';' :: (text ++ '\n' :: gap), text', by simp, .comment hline hgap, hline'⟩
  | @token _ gap spelling rest t ts hgap hplace hspells hlongest hothers =>
    cases gap with
    | nil =>
      obtain ⟨c, tail, rfl, hblank, -, -⟩ := hspells.exists_cons
      obtain rfl := hstop c rfl
      exact absurd hblank (by decide)
    | cons c gap =>
      obtain rfl := hstop c rfl
      have hplace' : t.offset = offset + widthOf (';' :: (text ++ '\n' :: gap)) := by
        have : Units.width ';' = 1 := by decide
        rw [hplace, widthOf_cons ';', widthOf_append]
        omega
      have htiles := Tiles.token (.comment hline hgap) hplace' hspells hlongest hothers
      rwa [List.cons_append, List.append_assoc] at htiles

/-- Scanned tokens cover the text, by the steps of the scanner. -/
theorem tiles_of_scanFrom (h : scanFrom offset cs = .ok ts) : Tiles offset cs ts := by
  fun_induction scanFrom offset cs generalizing ts with
  | case1 =>
    cases h
    exact .last (.inl .nil)
  | case2 offset c rest hblank ih => exact (ih h).blank hblank
  | case3 offset rest _ ih =>
    have hline : '\n' ∉ rest.takeWhile (· != '\n') := fun hmem =>
      bne_iff_ne.mp (List.mem_takeWhile_imp (p := (· != '\n')) hmem) rfl
    have hcovered := (ih h).comment hline fun c hc =>
      bne_eq_false_iff_eq.mp (head?_dropWhile_eq_false (· != '\n') rest c hc)
    rwa [List.takeWhile_append_dropWhile] at hcovered
  | case4 offset c rest _ _ kind hk ih =>
    obtain ⟨others, hothers, rfl⟩ := map_eq_ok.mp h
    have hnext : offset + 1 = offset + widthOf [c] := by
      rw [widthOf_cons, (of_singleKind? hk).2.2]
      rfl
    exact (ih hothers).cons (.sign hk) (endsBefore_of_singleKind? hk _ _) hnext
  | case6 offset rest value after next hread _ _ _ ih =>
    obtain ⟨others, hothers, rfl⟩ := map_eq_ok.mp h
    obtain ⟨body, text, rfl, hstands, rfl, rfl⟩ := exists_of_readQuoted hread
    have hcovered := (ih hothers).cons (.string hstands) trivial (widthOf_quotes offset body)
    rw [List.append_nil, List.reverse_reverse]
    rwa [List.cons_append, List.append_assoc, List.singleton_append] at hcovered
  | case8 offset rest name hname =>
    rename_i ih
    obtain ⟨others, hothers, rfl⟩ := map_eq_ok.mp h
    have hparts : ∀ c ∈ name, isCapturePart c = true := fun _ => List.mem_takeWhile_imp
    have hstop := head?_dropWhile_eq_false isCapturePart rest
    have hne : name ≠ [] := fun hnil => hname (List.isEmpty_iff.mpr hnil)
    have hnext : offset + 1 + name.length = offset + widthOf ('@' :: name) := by
      rw [widthOf_capture hparts, Nat.add_assoc]
    have hcovered := (ih hothers).cons (spells_capture hne hparts) hstop hnext
    rwa [List.cons_append, List.takeWhile_append_dropWhile] at hcovered
  | case10 offset rest name hname =>
    rename_i ih
    obtain ⟨others, hothers, rfl⟩ := map_eq_ok.mp h
    have hne : name ≠ [] := fun hnil => hname (List.isEmpty_iff.mpr hnil)
    obtain ⟨hcut, hname, hstop⟩ := splitPredicate_spec rest
    have hpredicate : IsPredicateName name := hname hne
    have hnext : offset + 1 + name.length = offset + widthOf ('#' :: name) := by
      rw [widthOf_predicate hpredicate, Nat.add_assoc]
    have hends : EndsBefore .predicate (String.ofList name) (splitPredicate rest).2 := by
      rw [EndsBefore, String.toList_ofList]
      exact hstop
    have hcovered := (ih hothers).cons (spells_predicate hpredicate) hends hnext
    rwa [List.cons_append, hcut] at hcovered
  | case11 offset c rest _ _ _ _ _ _ hstart tail =>
    rename_i ih
    obtain ⟨others, hothers, rfl⟩ := map_eq_ok.mp h
    have hparts : ∀ c ∈ tail, isIdentifierPart c = true := fun _ => List.mem_takeWhile_imp
    have hstop := head?_dropWhile_eq_false isIdentifierPart rest
    have hnext : offset + 1 + tail.length = offset + widthOf (c :: tail) := by
      rw [widthOf_identifier hstart hparts, Nat.add_assoc]
    have hcovered := (ih hothers).cons (spells_identifier hstart hparts) hstop hnext
    rwa [List.cons_append, List.takeWhile_append_dropWhile] at hcovered
  | case5 | case7 | case9 | case12 => cases h

theorem scanFrom_eq_ok_iff : scanFrom offset cs = .ok ts ↔ Tiles offset cs ts :=
  ⟨tiles_of_scanFrom, Tiles.scanFrom_eq⟩

theorem Spells.width_pos {kind : TokenKind} {value : String} (h : Spells kind value spelling) :
    0 < widthOf spelling := by
  obtain ⟨c, cs, rfl, -⟩ := h.exists_cons
  have := Query.width_pos c
  rw [widthOf_cons]
  omega

theorem Tiles.exists_spelling (h : Tiles offset cs ts) : ∀ t ∈ ts, ∃ before spelling after,
    cs = before ++ (spelling ++ after) ∧ t.offset = offset + widthOf before ∧ Spells t.kind t.value spelling := by
  induction h with
  | last => exact List.forall_mem_nil _
  | @token offset gap spelling rest t ts hgap hplace hspells _ _ ih =>
    refine List.forall_mem_cons.mpr ⟨⟨gap, spelling, rest, rfl, hplace, hspells⟩, fun t' ht' => ?_⟩
    obtain ⟨before, spelling', after, rfl, hplace', hspells'⟩ := ih t' ht'
    refine ⟨gap ++ (spelling ++ before), spelling', after, by simp, ?_, hspells'⟩
    rw [hplace', hplace, widthOf_append, widthOf_append]
    omega

theorem Tiles.offset_bounds (h : Tiles offset cs ts) :
    ∀ t ∈ ts, offset ≤ t.offset ∧ t.offset < offset + widthOf cs := by
  intro t ht
  obtain ⟨before, spelling, after, rfl, hplace, hspells⟩ := h.exists_spelling t ht
  have := hspells.width_pos
  rw [widthOf_append, widthOf_append]
  omega

theorem Tiles.pairwise_offset (h : Tiles offset cs ts) : ts.Pairwise (·.offset < ·.offset) := by
  induction h with
  | last => exact List.Pairwise.nil
  | token _ _ hspells _ hothers ih =>
    refine List.pairwise_cons.mpr ⟨fun t ht => ?_, ih⟩
    have := hspells.width_pos
    have := (hothers.offset_bounds t ht).1
    omega

end Covering

section Respacing

/-- A token as it is written again. -/
def rewritten (kind : TokenKind) (value : String) : List Char :=
  match kind with
  | .string => quoted value
  | .capture => '@' :: value.toList
  | .predicate => '#' :: value.toList
  | _ => value.toList

theorem unescapes_escaped (text : List Char) : Unescapes (escaped text) text := by
  induction text with
  | nil => exact .nil
  | cons c text ih =>
    rw [escaped]
    split
    · next hc =>
      rcases hc with rfl | rfl
      · exact .escape rfl ih
      · exact .escape rfl ih
    · next hc =>
      obtain ⟨hquote, hbackslash⟩ := not_or.mp hc
      exact .plain hquote hbackslash ih

variable {kind : TokenKind} {value : String} {spelling rest : List Char} {ls : List Lexeme}

/-- What is written again for a token is a spelling of it. -/
theorem Spells.rewritten (h : Spells kind value spelling) : Spells kind value (rewritten kind value) := by
  cases h with
  | @sign c _ hk =>
    have hwritten : Query.rewritten kind c.toString = [c] := by
      unfold singleKind? at hk
      split at hk
      case h_10 => cases hk
      all_goals
        cases hk
        simp [Query.rewritten]
    rw [hwritten]
    exact .sign hk
  | @string body text hstands =>
    have hspells := Spells.string (unescapes_escaped text)
    rwa [Query.rewritten, quoted, String.toList_ofList, List.cons_append]
  | capture hname => exact .capture hname
  | predicate hname => exact .predicate hname
  | identifier hname => exact .identifier hname

theorem Lexes.spelled (h : Lexes rest ls) (hspells : Spells kind value spelling)
    (hends : EndsBefore kind value rest) : Lexes (spelling ++ rest) ((kind, value) :: ls) := by
  intro offset
  obtain ⟨ts, hscan, hlexemes⟩ := h (offset + widthOf spelling)
  refine ⟨⟨kind, value, offset⟩ :: ts, ?_, by rw [List.map_cons, hlexemes]; rfl⟩
  rw [scanFrom_append hspells hends, hscan]
  rfl

theorem endsBefore_blank (kind : TokenKind) (value : String) (rest : List Char) :
    EndsBefore kind value (' ' :: rest) := by
  cases kind with
  | capture | identifier => exact fun c hc => Option.some.inj hc ▸ by decide
  | predicate => exact .inr fun c hc => Option.some.inj hc ▸ by decide
  | _ => trivial

theorem endsBefore_nil (kind : TokenKind) (value : String) : EndsBefore kind value [] := by
  cases kind with
  | capture | identifier => exact nofun
  | predicate => exact .inr nofun
  | _ => trivial

/-- With blanks between them the spellings of tokens are scanned as these tokens. -/
theorem lexes_intercalate {ts : List Token} {spellings : List (List Char)}
    (h : List.Forall₂ (fun t w => Spells t.kind t.value w) ts spellings) :
    Lexes ([' '].intercalate spellings) (ts.map Token.lexeme) := by
  induction h with
  | nil => exact lexes_nil
  | @cons t w ts ws hspells hrest ih =>
    cases hrest with
    | nil =>
      have hlexes := lexes_nil.spelled hspells (endsBefore_nil t.kind t.value)
      rw [List.append_nil] at hlexes
      simpa [List.intercalate, Token.lexeme] using hlexes
    | @cons t' w' ts ws hspells' hrest =>
      have hlexes := ih.blank.spelled hspells (endsBefore_blank t.kind t.value _)
      simpa [List.intercalate, Token.lexeme] using hlexes

end Respacing

/-- The tokens of a text are those that cover it, and the one for its end. -/
theorem tokenize_eq_ok_iff {source : String} {tokens : List Token} : tokenize source = .ok tokens ↔
    ∃ ts, tokens = ts ++ [⟨.eof, "", Text.length source⟩] ∧ Tiles 0 source.toList ts := by
  rw [tokenize, map_eq_ok]
  constructor
  · rintro ⟨ts, hscan, rfl⟩
    exact ⟨ts, rfl, scanFrom_eq_ok_iff.mp hscan⟩
  · rintro ⟨ts, rfl, htiles⟩
    exact ⟨ts, scanFrom_eq_ok_iff.mpr htiles, rfl⟩

/-- The tokens of a text cover it: each one is spelled at its offset, as long as any token can be there, and there is
nothing but blanks and comments before it and after the last. Their offsets increase up to the length of the text,
where it ends. The tokens that are read from spellings of them with blanks between, such as from those that are
written again, are the same but for their offsets. -/
theorem tokenize_tiles {source : String} {tokens : List Token} (h : tokenize source = .ok tokens) :
    ∃ ts, tokens = ts ++ [⟨.eof, "", Text.length source⟩] ∧ Tiles 0 source.toList ts ∧
      tokens.Pairwise (·.offset < ·.offset) ∧
      (∀ t ∈ ts, ∃ before spelling after, source.toList = before ++ (spelling ++ after) ∧
        t.offset = widthOf before ∧ Spells t.kind t.value spelling) ∧
      List.Forall₂ (fun t w => Spells t.kind t.value w) ts (ts.map fun t => rewritten t.kind t.value) ∧
      ∀ spellings, List.Forall₂ (fun t w => Spells t.kind t.value w) ts spellings →
        ∃ again, tokenize (String.ofList ([' '].intercalate spellings)) = .ok again ∧
          again.map Token.lexeme = tokens.map Token.lexeme := by
  obtain ⟨ts, rfl, htiles⟩ := tokenize_eq_ok_iff.mp h
  refine ⟨ts, rfl, htiles, ?_, ?_, ?_, fun spellings hspellings => ?_⟩
  · refine List.pairwise_append.mpr ⟨htiles.pairwise_offset, List.pairwise_singleton _ _, fun t ht t' ht' => ?_⟩
    obtain rfl := List.mem_singleton.mp ht'
    have hlt : t.offset < 0 + Text.length source := (htiles.offset_bounds t ht).2
    rwa [Nat.zero_add] at hlt
  · intro t ht
    obtain ⟨before, spelling, after, hcut, hplace, hspells⟩ := htiles.exists_spelling t ht
    exact ⟨before, spelling, after, hcut, by rw [hplace, Nat.zero_add], hspells⟩
  · rw [List.forall₂_map_right_iff, List.forall₂_same]
    intro t ht
    obtain ⟨-, spelling, -, -, -, hspells⟩ := htiles.exists_spelling t ht
    exact hspells.rewritten
  · obtain ⟨again, hscan, hlexemes⟩ := lexes_intercalate hspellings 0
    refine ⟨again ++ [endToken (String.ofList ([' '].intercalate spellings))], ?_, ?_⟩
    · rw [tokenize, scan, String.toList_ofList, hscan]
      rfl
    · rw [List.map_append, List.map_append, hlexemes]
      rfl

/-- A comment and a string with an escape. -/
theorem tokenize_tiles_comment :
    Tiles 0 "(A)@b ;(\n \"c\\\"\"".toList
      [⟨.lparen, "(", 0⟩, ⟨.identifier, "A", 1⟩, ⟨.rparen, ")", 2⟩, ⟨.capture, "b", 3⟩, ⟨.string, "c\"", 10⟩] := by
  have hscan : tokenize "(A)@b ;(\n \"c\\\"\"" =
      .ok [⟨.lparen, "(", 0⟩, ⟨.identifier, "A", 1⟩, ⟨.rparen, ")", 2⟩, ⟨.capture, "b", 3⟩, ⟨.string, "c\"", 10⟩,
        ⟨.eof, "", 15⟩] := by cbv
  obtain ⟨ts, htokens, htiles, -⟩ := tokenize_tiles hscan
  have hts := congrArg List.dropLast htokens
  rw [List.dropLast_concat] at hts
  subst hts
  exact htiles

end RuleScan.Query
