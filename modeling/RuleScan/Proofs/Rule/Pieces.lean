import Mathlib.Data.Nat.Init
import RuleScan.Proofs.Query.Appending
import RuleScan.Rule.Template

/-! Placeholders as they are written, and the pieces of a template. A placeholder in double braces has a grammar of its
own, which the reader follows. A template is split from left to right, and a placeholder in it is found whatever stands
around it. -/
namespace RuleScan

namespace Template

/-- The pieces of a text, from left to right. -/
def split (cs : List Char) : List Piece := piecesFrom cs.length cs []

/-- A text in double braces. -/
def braced (inner : List Char) : List Char := '\x7b' :: '\x7b' :: (inner ++ ['\x7d', '\x7d'])

/-- A name as placeholders hold it: a dollar sign or none, then a letter or the low line, then letters, digits, low
lines, points and hyphens. -/
inductive IsName : List Char → Prop
  | plain {first : Char} {rest : List Char} (hfirst : isNameStart first = true)
      (hrest : ∀ c ∈ rest, isNamePart c = true) : IsName (first :: rest)
  | special {first : Char} {rest : List Char} (hfirst : isNameStart first = true)
      (hrest : ∀ c ∈ rest, isNamePart c = true) : IsName ('$' :: first :: rest)

/-- A placeholder as it is written: the name in double braces, with blanks around it or not. -/
inductive Written (name : String) : List Char → Prop
  | mk {before after : List Char} (hbefore : ∀ c ∈ before, Text.isBlank c = true)
      (hafter : ∀ c ∈ after, Text.isBlank c = true) (hname : IsName name.toList) :
      Written name (braced (before ++ name.toList ++ after))

section Reading

variable {c : Char} {rest before after name : List Char}

/-- A run that stops at a brace does not grow where one is appended. -/
theorem takeWhile_append_brace {p : Char → Bool} (hp : p '\x7b' = false) (cs rest : List Char) :
    (cs ++ '\x7b' :: rest).takeWhile p = cs.takeWhile p ∧
      (cs ++ '\x7b' :: rest).dropWhile p = cs.dropWhile p ++ '\x7b' :: rest :=
  Query.takeWhile_append_of_head (fun _ hy => Option.some.inj hy ▸ hp) cs

theorem readName_cons (hc : c ≠ '$') (rest : List Char) :
    readName (c :: rest) =
      if isNameStart c then some (c :: rest.takeWhile isNamePart, rest.dropWhile isNamePart) else none := by
  unfold readName
  split
  · next heq =>
    cases heq
    exact absurd rfl hc
  · next heq =>
    cases heq
    rfl
  · next heq => cases heq

theorem readName_dollar (c : Char) (rest : List Char) :
    readName ('$' :: c :: rest) =
      if isNameStart c then some ('$' :: c :: rest.takeWhile isNamePart, rest.dropWhile isNamePart) else none := rfl

/-- Reading a name is not disturbed by a brace further on. -/
theorem readName_append_brace (cs rest : List Char) :
    readName (cs ++ '\x7b' :: rest) = (readName cs).map fun x => (x.1, x.2 ++ '\x7b' :: rest) := by
  have hrun (xs : List Char) := takeWhile_append_brace (p := isNamePart) rfl xs rest
  cases cs with
  | nil => rfl
  | cons c tail =>
    by_cases hc : c = '$'
    · subst hc
      cases tail with
      | nil => rfl
      | cons d tail =>
        obtain ⟨htake, hdrop⟩ := hrun tail
        rw [List.cons_append, List.cons_append, readName_dollar, readName_dollar, htake, hdrop]
        split_ifs <;> rfl
    · obtain ⟨htake, hdrop⟩ := hrun tail
      rw [List.cons_append, readName_cons hc, readName_cons hc, htake, hdrop]
      split_ifs <;> rfl

theorem readPlaceholder_of_ne (h : c ≠ '\x7b') (rest : List Char) : readPlaceholder (c :: rest) = none := by
  unfold readPlaceholder
  split
  · next heq =>
    cases heq
    exact absurd rfl h
  · rfl

theorem readPlaceholder_of_single (h : ∀ d ∈ rest.head?, d ≠ '\x7b') : readPlaceholder (c :: rest) = none := by
  unfold readPlaceholder
  split
  · next heq =>
    cases heq
    exact absurd rfl (h _ rfl)
  · rfl

theorem readPlaceholder_eq (rest : List Char) :
    readPlaceholder ('\x7b' :: '\x7b' :: rest) =
      match readName (rest.dropWhile Text.isBlank) with
      | some (name, after) =>
        match after.dropWhile Text.isBlank with
        | '\x7d' :: '\x7d' :: done => some (String.ofList name, done)
        | _ => none
      | none => none := rfl

/-- A placeholder that starts before two opening braces ends before them. -/
theorem readPlaceholder_append_braces {cs : List Char} (hcs : cs ≠ []) (rest : List Char) :
    readPlaceholder (cs ++ '\x7b' :: '\x7b' :: rest) =
      (readPlaceholder cs).map fun x => (x.1, x.2 ++ '\x7b' :: '\x7b' :: rest) := by
  have hblanks (xs : List Char) := (takeWhile_append_brace (p := Text.isBlank) rfl xs ('\x7b' :: rest)).2
  match cs, hcs with
  | [c], _ =>
    by_cases hc : c = '\x7b'
    · subst hc
      rfl
    · rw [List.cons_append, readPlaceholder_of_ne hc, readPlaceholder_of_ne hc]
      rfl
  | c :: d :: tail, _ =>
    by_cases hc : c = '\x7b'
    · by_cases hd : d = '\x7b'
      · subst hc hd
        rw [List.cons_append, List.cons_append, readPlaceholder_eq, readPlaceholder_eq, hblanks,
          readName_append_brace]
        cases readName (tail.dropWhile Text.isBlank) with
        | none => rfl
        | some x =>
          obtain ⟨name, after⟩ := x
          dsimp only [Option.map_some]
          rw [hblanks]
          -- What closes the placeholder stands before the braces as well.
          match after.dropWhile Text.isBlank with
          | [] => rfl
          | [e] =>
            by_cases he : e = '\x7d'
            · subst he
              rfl
            · simp [he]
          | e :: f :: done =>
            by_cases he : e = '\x7d'
            · by_cases hf : f = '\x7d'
              · subst he hf
                rfl
              · simp [hf]
            · simp [he]
      · have hsingle : ∀ x ∈ (d :: tail).head?, x ≠ '\x7b' := fun x hx => Option.some.inj hx ▸ hd
        have hsingle' : ∀ x ∈ (d :: tail ++ '\x7b' :: '\x7b' :: rest).head?, x ≠ '\x7b' :=
          fun x hx => Option.some.inj hx ▸ hd
        rw [List.cons_append, readPlaceholder_of_single hsingle, readPlaceholder_of_single hsingle']
        rfl
    · rw [List.cons_append, readPlaceholder_of_ne hc, readPlaceholder_of_ne hc]
      rfl

/-- What is left after a placeholder is shorter. -/
theorem length_readPlaceholder {cs : List Char} {found : String} {done : List Char}
    (h : readPlaceholder cs = some (found, done)) : done.length < cs.length := by
  unfold readPlaceholder at h
  split at h
  · next rest =>
    split at h
    · next name after hname =>
      split at h
      · next hclose =>
        cases h
        have hblanks := (List.dropWhile_sublist (l := rest) Text.isBlank).length_le
        have hafter := (List.dropWhile_sublist (l := after) Text.isBlank).length_le
        rw [hclose] at hafter
        have hread : after.length ≤ (rest.dropWhile Text.isBlank).length := by
          unfold readName at hname
          split at hname
          · next d tail heq =>
            split_ifs at hname
            cases hname
            have hrun := (List.dropWhile_sublist (l := tail) isNamePart).length_le
            rw [heq]
            simp only [List.length_cons]
            omega
          · next d tail _ heq =>
            split_ifs at hname
            cases hname
            have hrun := (List.dropWhile_sublist (l := tail) isNamePart).length_le
            rw [heq]
            simp only [List.length_cons]
            omega
          · cases hname
        simp only [List.length_cons] at hafter ⊢
        omega
      · cases h
    · cases h
  · cases h

end Reading

section Forms

variable {cs name after : List Char}

/-- After their first character, names in placeholders are made like those of captures. -/
theorem isNamePart_iff {c : Char} : isNamePart c = true ↔ Query.isCapturePart c = true := by
  unfold isNamePart isNameStart Query.isCapturePart Query.isLetter Query.isNumeral
  simp only [Bool.or_eq_true]
  tauto

/-- The characters of names and the blanks are no braces. -/
theorem ne_brace_of_isCapturePart {c : Char} (h : Query.isCapturePart c = true) :
    c ≠ '\x7b' ∧ Text.isBlank c = false := by
  have hle : ∀ a b : Char, a ≤ b ↔ a.toNat ≤ b.toNat := fun _ _ => Iff.rfl
  have hcode : (65 ≤ c.toNat ∧ c.toNat ≤ 90) ∨ (97 ≤ c.toNat ∧ c.toNat ≤ 122) ∨ (48 ≤ c.toNat ∧ c.toNat ≤ 57) ∨
      c.toNat = 95 ∨ c.toNat = 46 ∨ c.toNat = 45 := by
    simp only [Query.isCapturePart, Query.isLetter, Query.isNumeral, Bool.or_eq_true, Bool.and_eq_true,
      decide_eq_true_eq, hle] at h
    rcases h with ((((h | h) | h) | rfl) | rfl) | rfl
    · exact .inr (.inl h)
    · exact .inl h
    · exact .inr (.inr (.inl h))
    · exact .inr (.inr (.inr (.inl rfl)))
    · exact .inr (.inr (.inr (.inr (.inl rfl))))
    · exact .inr (.inr (.inr (.inr (.inr rfl))))
  constructor
  · rintro rfl
    have hbrace : '\x7b'.toNat = 123 := rfl
    omega
  · unfold Text.isBlank Text.isBlankCode
    simp
    omega

theorem ne_dollar_of_isNameStart {c : Char} (h : isNameStart c = true) : c ≠ '$' := by
  rintro rfl
  cases h

theorem isNamePart_of_isNameStart {c : Char} (h : isNameStart c = true) : isNamePart c = true := by
  simp [isNamePart, h]

theorem isBlank_of_isNamePart {c : Char} (h : isNamePart c = true) : Text.isBlank c = false :=
  (ne_brace_of_isCapturePart (isNamePart_iff.mp h)).2

theorem IsName.head?_not_blank (h : IsName name) (rest : List Char) :
    ∀ c ∈ (name ++ rest).head?, Text.isBlank c = false := by
  intro c hc
  cases h with
  | plain hfirst _ => exact Option.some.inj hc ▸ isBlank_of_isNamePart (isNamePart_of_isNameStart hfirst)
  | special => exact Option.some.inj hc ▸ rfl

/-- The reader of names takes a name that does not go on. -/
theorem readName_eq_some_iff :
    readName cs = some (name, after) ↔
      IsName name ∧ (∀ c ∈ after.head?, isNamePart c = false) ∧ cs = name ++ after := by
  constructor
  · intro h
    have hrest (rest : List Char) : ∀ c ∈ rest.takeWhile isNamePart, isNamePart c = true :=
      fun c hc => List.all_eq_true.mp List.all_takeWhile c hc
    cases cs with
    | nil => cases h
    | cons c rest =>
      by_cases hc : c = '$'
      · subst hc
        cases rest with
        | nil => cases h
        | cons d rest =>
          rw [readName_dollar] at h
          split_ifs at h with hd
          cases h
          exact ⟨.special hd (hrest rest), Query.head?_dropWhile_eq_false _ _, by simp⟩
      · rw [readName_cons hc] at h
        split_ifs at h with hstart
        cases h
        exact ⟨.plain hstart (hrest rest), Query.head?_dropWhile_eq_false _ _, by simp⟩
  · rintro ⟨hname, hstop, rfl⟩
    cases hname with
    | plain hfirst hrest =>
      obtain ⟨htake, hdrop⟩ := Query.takeWhile_append_stop hrest hstop
      rw [List.cons_append, readName_cons (ne_dollar_of_isNameStart hfirst), if_pos hfirst, htake, hdrop]
    | special hfirst hrest =>
      obtain ⟨htake, hdrop⟩ := Query.takeWhile_append_stop hrest hstop
      rw [List.cons_append, List.cons_append, readName_dollar, if_pos hfirst, htake, hdrop]

/-- The reader of placeholders takes exactly what is written as one. -/
theorem readPlaceholder_eq_some_iff {name : String} {rest : List Char} :
    readPlaceholder cs = some (name, rest) ↔ ∃ written, Written name written ∧ cs = written ++ rest := by
  constructor
  · intro h
    have hblank (xs : List Char) : ∀ c ∈ xs.takeWhile Text.isBlank, Text.isBlank c = true :=
      fun c hc => List.all_eq_true.mp List.all_takeWhile c hc
    unfold readPlaceholder at h
    split at h
    · next inner =>
      split at h
      · next found after hread =>
        split at h
        · next done hclose =>
          cases h
          obtain ⟨hname, -, hinner⟩ := readName_eq_some_iff.mp hread
          refine ⟨_, .mk (hblank inner) (hblank after) (by rwa [String.toList_ofList]), ?_⟩
          have hsplit : inner.takeWhile Text.isBlank ++ (found ++ (after.takeWhile Text.isBlank ++
              '\x7d' :: '\x7d' :: rest)) = inner := by
            rw [← hclose, List.takeWhile_append_dropWhile, ← hinner, List.takeWhile_append_dropWhile]
          rw [← congrArg (fun cs => '\x7b' :: '\x7b' :: cs) hsplit]
          simp [braced]
        · cases h
      · cases h
    · cases h
  · rintro ⟨_, ⟨hbefore, hafter, hname⟩, rfl⟩
    next before after =>
    have hinner : braced (before ++ name.toList ++ after) ++ rest =
        '\x7b' :: '\x7b' :: (before ++ (name.toList ++ (after ++ '\x7d' :: '\x7d' :: rest))) := by
      simp [braced]
    have hclose : (after ++ '\x7d' :: '\x7d' :: rest).dropWhile Text.isBlank = '\x7d' :: '\x7d' :: rest := by
      refine (Query.takeWhile_append_stop hafter ?_).2
      intro c hc
      exact Option.some.inj hc ▸ rfl
    have hstop : ∀ c ∈ (after ++ '\x7d' :: '\x7d' :: rest).head?, isNamePart c = false := by
      intro c hc
      cases after with
      | nil => exact Option.some.inj hc ▸ rfl
      | cons d after =>
        have hblank := hafter d List.mem_cons_self
        rw [Option.some.inj hc] at hblank
        by_contra hpart
        rw [isBlank_of_isNamePart (Bool.not_eq_false _ ▸ hpart)] at hblank
        cases hblank
    have hread := readName_eq_some_iff.mpr ⟨hname, hstop, rfl⟩
    rw [hinner, readPlaceholder_eq, (Query.takeWhile_append_stop hbefore (hname.head?_not_blank _)).2, hread]
    dsimp only
    rw [hclose, String.ofList_toList]
    rfl

end Forms

section Splitting

variable {cs left right inner : List Char} {name : String}

/-- The bound of the reader is never reached, and what has been read is put in front. -/
private theorem piecesFrom_eq {n : Nat} (cs : List Char) (fuel fuel' : Nat) (acc : List Piece) (hn : cs.length ≤ n)
    (hfuel : cs.length ≤ fuel) (hfuel' : cs.length ≤ fuel') :
    piecesFrom fuel cs acc = acc.reverse ++ piecesFrom fuel' cs [] := by
  induction n generalizing cs fuel fuel' acc with
  | zero =>
    have hcs : cs = [] := List.length_eq_zero_iff.mp (Nat.le_zero.mp hn)
    subst hcs
    cases fuel <;> cases fuel' <;> simp [piecesFrom]
  | succ n ih =>
    cases cs with
    | nil => cases fuel <;> cases fuel' <;> simp [piecesFrom]
    | cons c rest =>
      rw [List.length_cons] at hn hfuel hfuel'
      obtain ⟨fuel, rfl⟩ := Nat.exists_eq_add_one_of_ne_zero (n := fuel) (by omega)
      obtain ⟨fuel', rfl⟩ := Nat.exists_eq_add_one_of_ne_zero (n := fuel') (by omega)
      rw [piecesFrom, piecesFrom]
      cases hread : readPlaceholder (c :: rest) with
      | none =>
        have hone := ih rest fuel' fuel' [.char c] (by omega) (by omega) (by omega)
        dsimp only
        rw [ih rest fuel fuel' _ (by omega) (by omega) (by omega), hone]
        simp
      | some x =>
        obtain ⟨found, done⟩ := x
        have hshorter := length_readPlaceholder hread
        rw [List.length_cons] at hshorter
        have hone := ih done fuel' fuel' [.placeholder found] (by omega) (by omega) (by omega)
        dsimp only
        rw [ih done fuel fuel' _ (by omega) (by omega) (by omega), hone]
        simp

theorem split_cons (c : Char) (rest : List Char) :
    split (c :: rest) =
      match readPlaceholder (c :: rest) with
      | some (name, done) => .placeholder name :: split done
      | none => .char c :: split rest := by
  unfold split
  rw [List.length_cons, piecesFrom]
  cases hread : readPlaceholder (c :: rest) with
  | none => exact piecesFrom_eq rest _ _ _ (Nat.le_refl _) (Nat.le_refl _) (Nat.le_refl _)
  | some x =>
    have hshorter := length_readPlaceholder hread
    rw [List.length_cons] at hshorter
    exact piecesFrom_eq x.2 _ _ _ (Nat.le_refl _) (by omega) (Nat.le_refl _)

/-- A text is split into two where two braces open. -/
theorem split_append_braces (left rest : List Char) :
    split (left ++ '\x7b' :: '\x7b' :: rest) = split left ++ split ('\x7b' :: '\x7b' :: rest) := by
  induction hn : left.length using Nat.strong_induction_on generalizing left with
  | _ n ih =>
    cases left with
    | nil => rfl
    | cons c tail =>
      have happend := readPlaceholder_append_braces (List.cons_ne_nil c tail) rest
      rw [List.cons_append] at happend ⊢
      rw [split_cons, split_cons, happend]
      cases hread : readPlaceholder (c :: tail) with
      | none =>
        have htail : tail.length < n := by
          rw [← hn, List.length_cons]
          omega
        dsimp only [Option.map_none]
        rw [ih _ htail _ rfl]
        rfl
      | some x =>
        have hshorter := length_readPlaceholder hread
        dsimp only [Option.map_some]
        rw [ih _ (hn ▸ hshorter) _ rfl]
        rfl

theorem split_of_no_brace (h : ∀ c ∈ cs, c ≠ '\x7b') : split cs = cs.map .char := by
  induction cs with
  | nil => rfl
  | cons c rest ih =>
    obtain ⟨hc, hrest⟩ := List.forall_mem_cons.mp h
    rw [split_cons, readPlaceholder_of_ne hc, ih hrest]
    rfl

/-- Where no name can be read after two braces, they and all that follows up to the next are plain text. -/
theorem split_braces_of_no_name (hinner : ∀ c ∈ inner, c ≠ '\x7b')
    (hname : readName (inner.dropWhile Text.isBlank) = none) :
    split ('\x7b' :: '\x7b' :: inner) = ('\x7b' :: '\x7b' :: inner).map .char := by
  have hfirst : readPlaceholder ('\x7b' :: '\x7b' :: inner) = none := by
    rw [readPlaceholder_eq, hname]
  have hsecond : readPlaceholder ('\x7b' :: inner) = none :=
    readPlaceholder_of_single fun c hc => hinner c (List.mem_of_mem_head? hc)
  rw [split_cons, hfirst, split_cons, hsecond, split_of_no_brace hinner]
  rfl

end Splitting

end Template

end RuleScan
