import RuleScan.Proofs.Regex.GroupNames

/-! What is passed over on the way from one group to the next. A look over the text finds the signs of named groups, if
it passes over escapes and classes. What is read as an escape, a name or a number holds none of the codes that such a
look depends on. -/
namespace RuleScan

namespace Regex

/-- The text after the sign `(?<`, where one stands. -/
def afterSign? : List Nat → Option (List Nat)
  | c :: q :: l :: after =>
    if c = code '(' ∧ q = code '?' ∧ l = code '<' then some after else none
  | _ => none

def isNaming (after : List Nat) : Bool := after.head? != some (code '=') && after.head? != some (code '!')

/-- The texts after the signs of named groups, from left to right; escapes and classes are passed over. -/
def openings : List Nat → List (List Nat)
  | [] => []
  | c :: rest =>
    if c = code '\\' then openings (rest.drop 1)
    else if c = code '[' then openings (skipClass rest)
    else ((afterSign? (c :: rest)).filter isNaming).toList ++ openings rest
termination_by cs => cs.length
decreasing_by all_goals grind [length_skipClass_le]

/-- The code is not among those that decide where escapes, classes and groups are. -/
def Ordinary (c : Nat) : Prop := c ≠ code '\\' ∧ c ≠ code '[' ∧ c ≠ code ']' ∧ c ≠ code '('

instance : DecidablePred Ordinary := fun _ => inferInstanceAs (Decidable (_ ∧ _ ∧ _ ∧ _))

/-- Between two places of a text no group opens and no class ends. -/
structure Passes (rest done : List Nat) : Prop where
  openings_eq : openings rest = openings done
  skipClass_eq : skipClass rest = skipClass done

section Passing

variable {c : Nat} {rest mid done after : List Nat}

theorem openings_escape (c : Nat) (rest : List Nat) : openings (code '\\' :: c :: rest) = openings rest := by
  rw [openings, if_pos rfl, List.drop_one, List.tail_cons]

theorem openings_class (rest : List Nat) : openings (code '[' :: rest) = openings (skipClass rest) := by
  rw [openings, if_neg (by decide), if_pos rfl]

theorem openings_cons (hescape : c ≠ code '\\') (hclass : c ≠ code '[') :
    openings (c :: rest) = ((afterSign? (c :: rest)).filter isNaming).toList ++ openings rest := by
  rw [openings, if_neg hescape, if_neg hclass]

theorem afterSign?_of_ne (h : c ≠ code '(') (rest : List Nat) : afterSign? (c :: rest) = none := by
  unfold afterSign?
  split
  · next heq =>
    cases heq
    rw [if_neg fun hsign => h hsign.1]
  · rfl

theorem openings_of_ne (hescape : c ≠ code '\\') (hclass : c ≠ code '[') (hgroup : c ≠ code '(') :
    openings (c :: rest) = openings rest := by
  rw [openings_cons hescape hclass, afterSign?_of_ne hgroup]
  rfl

theorem skipClass_of_ne (hescape : c ≠ code '\\') (hend : c ≠ code ']') : skipClass (c :: rest) = skipClass rest := by
  rw [skipClass.eq_def]
  dsimp only
  rw [if_neg hescape, if_neg hend]

namespace Passes

theorem refl (rest : List Nat) : Passes rest rest := ⟨rfl, rfl⟩

theorem symm (h : Passes rest done) : Passes done rest := ⟨h.openings_eq.symm, h.skipClass_eq.symm⟩

theorem trans (h : Passes rest mid) (h' : Passes mid done) : Passes rest done :=
  ⟨h.openings_eq.trans h'.openings_eq, h.skipClass_eq.trans h'.skipClass_eq⟩

theorem cons (h : Ordinary c) (rest : List Nat) : Passes (c :: rest) rest := by
  obtain ⟨hescape, hclass, hend, hgroup⟩ := h
  exact ⟨openings_of_ne hescape hclass hgroup, skipClass_of_ne hescape hend⟩

theorem sign {s : Char} (hc : c = code s) (hs : Ordinary (code s)) (rest : List Nat) : Passes (c :: rest) rest := by
  rw [hc]
  exact cons hs rest

theorem escape (c : Nat) (rest : List Nat) : Passes (code '\\' :: c :: rest) rest := by
  refine ⟨openings_escape c rest, ?_⟩
  rw [skipClass.eq_def]
  dsimp only
  rw [if_pos rfl]

theorem dropWhile {p : Nat → Bool} (hp : ∀ c, p c = true → Ordinary c) (rest : List Nat) :
    Passes rest (rest.dropWhile p) := by
  induction rest with
  | nil => exact refl []
  | cons c rest ih =>
    by_cases hc : p c = true
    · rw [List.dropWhile_cons_of_pos hc]
      exact (cons (hp c hc) rest).trans ih
    · rw [List.dropWhile_cons_of_neg hc]
      exact refl _

end Passes

theorem ordinary_iff : Ordinary c ↔ c ≠ 92 ∧ c ≠ 91 ∧ c ≠ 93 ∧ c ≠ 40 := Iff.rfl

theorem ordinary_of_isDigitCode (h : isDigitCode c = true) : Ordinary c := by
  simp only [isDigitCode, Bool.and_eq_true, decide_eq_true_eq] at h
  rw [ordinary_iff]
  omega

theorem isDigitCode_of_isOctalCode (h : isOctalCode c = true) : isDigitCode c = true := by
  simp only [isOctalCode, isDigitCode, Bool.and_eq_true, decide_eq_true_eq] at h ⊢
  omega

theorem ordinary_of_hexValue? {d : Nat} (h : hexValue? c = some d) : Ordinary c := by
  rw [ordinary_iff]
  unfold hexValue? at h
  simp only [Bool.and_eq_true, decide_eq_true_eq] at h
  split_ifs at h <;> omega

/-- A test that none of those codes passes shows that a code is ordinary. -/
theorem ordinary_of_test {p : Nat → Bool} (hnone : ∀ d ∈ [code '\\', code '[', code ']', code '('], p d = false)
    (h : p c = true) : Ordinary c := by
  have hne (d : Nat) (hd : d ∈ [code '\\', code '[', code ']', code '(']) : c ≠ d := by
    intro he
    rw [he, hnone d hd] at h
    cases h
  exact ⟨hne _ (by simp), hne _ (by simp), hne _ (by simp), hne _ (by simp)⟩

theorem ordinary_of_isIdPart (h : Text.isIdPart c = true) : Ordinary c := ordinary_of_test (by decide +kernel) h

theorem passes_readHex {n value found : Nat} (h : readHex n value rest = some (found, done)) : Passes rest done := by
  induction n generalizing value rest with
  | zero =>
    cases h
    exact .refl _
  | succ n ih =>
    cases rest with
    | nil => cases h
    | cons c rest =>
      unfold readHex at h
      split at h
      · next hc => exact (Passes.cons (ordinary_of_hexValue? hc) rest).trans (ih h)
      · cases h

theorem passes_readBraced {value found : Nat} {started : Bool} (h : readBraced value started rest = some (found, done)) :
    Passes rest done := by
  induction rest generalizing value started with
  | nil => cases h
  | cons c rest ih =>
    unfold readBraced at h
    split at h
    · next hc =>
      split at h
      · cases h
        exact .sign hc (by decide) _
      · cases h
    · split at h
      · next hc =>
        dsimp only at h
        split at h
        · cases h
        · exact (Passes.cons (ordinary_of_hexValue? hc) rest).trans (ih h)
      · cases h

theorem passes_readUnicodeEscape {unicode : Bool} {found : Nat}
    (h : readUnicodeEscape unicode rest = some (found, done)) : Passes rest done := by
  unfold readUnicodeEscape at h
  split at h
  · next hbrace =>
    simp only [Bool.and_eq_true, beq_iff_eq] at hbrace
    obtain ⟨-, hhead⟩ := hbrace
    obtain ⟨tail, rfl⟩ := List.head?_eq_some_iff.mp hhead
    exact (Passes.cons (by decide) tail).trans (passes_readBraced h)
  · split at h
    · cases h
    · next v after hfirst =>
      have hpassed := passes_readHex hfirst
      split at h
      · split at h
        · next b u more =>
          split at h
          · next hescape =>
            simp only [Bool.and_eq_true, decide_eq_true_eq] at hescape
            obtain ⟨rfl, rfl⟩ := hescape
            split at h
            · next lo done' hsecond =>
              split at h
              · obtain ⟨-, rfl⟩ := Prod.mk.inj (Option.some.inj h)
                exact (hpassed.trans (.escape _ _)).trans (passes_readHex hsecond)
              · cases h
                exact hpassed
            · cases h
              exact hpassed
          · cases h
            exact hpassed
        · cases h
          exact hpassed
      · cases h
        exact hpassed

/-- The next code point is the next code, or a pair of codes that are beyond those of all signs. -/
theorem nextPoint?_cases (h : nextPoint? rest = some (c, after)) :
    rest = c :: after ∨ 0x10000 ≤ c ∧ Passes rest after := by
  unfold nextPoint? at h
  split at h
  · cases h
  · cases h
    exact .inl rfl
  · next hi lo tail =>
    split at h
    · next hpair =>
      obtain ⟨rfl, rfl⟩ := Prod.mk.inj (Option.some.inj h)
      simp only [isHighCode, isLowCode, Bool.and_eq_true, decide_eq_true_eq] at hpair
      have hordinary : Ordinary hi ∧ Ordinary lo := by
        rw [ordinary_iff, ordinary_iff]
        omega
      refine .inr ⟨?_, (Passes.cons hordinary.1 _).trans (.cons hordinary.2 _)⟩
      unfold joinCodes
      omega
    · cases h
      exact .inl rfl

theorem passes_readName {fuel : Nat} {acc : List Char} {name : String}
    (h : readName fuel acc rest = .ok (name, done)) : Passes rest done := by
  induction fuel generalizing acc rest with
  | zero => cases h
  | succ fuel ih =>
    unfold readName at h
    split at h
    · cases h
    next c after hnext =>
    have hcases := nextPoint?_cases hnext
    have hsmall {d : Char} (hd : c = code d) (hcode : code d < 0x10000) : rest = c :: after := by
      obtain hone | ⟨hlarge, -⟩ := hcases
      · exact hone
      · omega
    split at h
    · next hclose =>
      cases h
      rw [Bool.and_eq_true, decide_eq_true_eq] at hclose
      obtain ⟨hclose, -⟩ := hclose
      rw [hsmall hclose (by decide), hclose]
      exact .cons (by decide) done
    split at h
    · next hescape =>
      rw [hsmall hescape (by decide), hescape]
      split at h
      · next u more =>
        split at h
        · split at h
          · cases h
          · next v done' hunicode =>
            have hpassed := (Passes.escape u more).trans (passes_readUnicodeEscape hunicode)
            by_cases hv : (if acc.isEmpty then Text.isIdStart v else Text.isIdPart v) = true
            · rw [if_pos hv] at h
              exact hpassed.trans (ih h)
            · rw [if_neg hv] at h
              cases h
        · cases h
      · cases h
    by_cases hc : (if acc.isEmpty then Text.isIdStart c else Text.isIdPart c) = true
    · rw [if_pos hc] at h
      have hpassed : Passes rest after := by
        obtain hone | ⟨-, hpassed⟩ := hcases
        · rw [hone]
          exact .cons (ordinary_of_isIdPart (isIdPart_of_first hc)) after
        · exact hpassed
      exact hpassed.trans (ih h)
    · rw [if_neg hc] at h
      cases h

theorem passes_readOctal (h : ∀ d ∈ rest.head?, isDigitCode d = true) : Passes rest (readOctal rest).2 := by
  have hcons {d : Nat} (hd : isOctalCode d = true) (tail : List Nat) : Passes (d :: tail) tail :=
    .cons (ordinary_of_isDigitCode (isDigitCode_of_isOctalCode hd)) tail
  have hfirst {d : Nat} {tail : List Nat} (hrest : rest = d :: tail) : Passes rest tail := by
    rw [hrest]
    exact .cons (ordinary_of_isDigitCode (h d (by rw [hrest]; rfl))) tail
  unfold readOctal
  split
  · next b c tail =>
    dsimp only
    split
    · next hb =>
      split
      · next hc =>
        rw [Bool.and_eq_true] at hc
        exact ((hfirst rfl).trans (hcons hb _)).trans (hcons hc.2 _)
      · exact (hfirst rfl).trans (hcons hb _)
    · exact hfirst rfl
  · next b =>
    split
    · next hb => exact (hfirst rfl).trans (hcons hb _)
    · exact hfirst rfl
  · exact hfirst rfl
  · exact .refl []

theorem passes_readOctal_cons (h : isDigitCode c = true) (after : List Nat) :
    Passes after (readOctal (c :: after)).2 := by
  have hread : Passes (c :: after) (readOctal (c :: after)).2 := passes_readOctal fun d hd => Option.some.inj hd ▸ h
  exact (Passes.cons (ordinary_of_isDigitCode h) after).symm.trans hread

/-- An escape takes its first code and passes over no sign. -/
theorem passes_readCharEscape {mode : Mode} {inClass : Bool} {found : Nat}
    (h : readCharEscape mode inClass rest = .ok (found, done)) : ∃ c after, rest = c :: after ∧ Passes after done := by
  cases rest with
  | nil => cases h
  | cons c after =>
    refine ⟨c, after, rfl, ?_⟩
    have hsimple {n : Nat} (he : (Except.ok (n, after) : Except Flaw (Rest Nat)) = .ok (found, done)) :
        Passes after done := by
      cases he
      exact .refl _
    unfold readCharEscape at h
    dsimp only at h
    obtain ⟨-, h⟩ | ⟨-, h⟩ := ite_eq_iff.mp h
    · exact hsimple h
    obtain ⟨-, h⟩ | ⟨-, h⟩ := ite_eq_iff.mp h
    · exact hsimple h
    obtain ⟨-, h⟩ | ⟨-, h⟩ := ite_eq_iff.mp h
    · exact hsimple h
    obtain ⟨-, h⟩ | ⟨-, h⟩ := ite_eq_iff.mp h
    · exact hsimple h
    obtain ⟨-, h⟩ | ⟨-, h⟩ := ite_eq_iff.mp h
    · exact hsimple h
    obtain ⟨hc, h⟩ | ⟨-, h⟩ := ite_eq_iff.mp h
    · -- a control letter; without one the backslash stands for itself and the letter is read again
      have hback : Passes after (c :: after) := (Passes.sign hc (by decide) after).symm
      split at h
      · next l more =>
        split at h
        · next hletter =>
          cases h
          simp only [Bool.or_eq_true, Bool.and_eq_true, decide_eq_true_eq] at hletter
          refine .cons ?_ _
          rw [ordinary_iff]
          omega
        · split at h
          · cases h
          split at h
          · next hclass =>
            cases h
            simp only [Bool.or_eq_true, Bool.and_eq_true, decide_eq_true_eq] at hclass
            obtain ⟨-, hdigit | rfl⟩ := hclass
            · exact .cons (ordinary_of_isDigitCode hdigit) _
            · exact .cons (by decide) _
          · cases h
            exact hback
      · split at h
        · cases h
        · cases h
          exact hback
    obtain ⟨-, h⟩ | ⟨-, h⟩ := ite_eq_iff.mp h
    · exact hsimple h
    obtain ⟨hoctal, h⟩ | ⟨-, h⟩ := ite_eq_iff.mp h
    · obtain ⟨-, h⟩ | ⟨-, h⟩ := ite_eq_iff.mp h
      · cases h
      · have hread := passes_readOctal_cons (isDigitCode_of_isOctalCode hoctal) after
        rw [Except.ok.inj h] at hread
        exact hread
    obtain ⟨-, h⟩ | ⟨-, h⟩ := ite_eq_iff.mp h
    · split at h
      · next hread =>
        cases h
        exact passes_readHex hread
      · obtain ⟨-, h⟩ | ⟨-, h⟩ := ite_eq_iff.mp h
        · cases h
        · exact hsimple h
    obtain ⟨-, h⟩ | ⟨-, h⟩ := ite_eq_iff.mp h
    · split at h
      · next hread =>
        cases h
        exact passes_readUnicodeEscape hread
      · obtain ⟨-, h⟩ | ⟨-, h⟩ := ite_eq_iff.mp h
        · cases h
        · exact hsimple h
    obtain ⟨-, h⟩ | ⟨-, h⟩ := ite_eq_iff.mp h
    · obtain ⟨-, h⟩ | ⟨-, h⟩ := ite_eq_iff.mp h
      · exact hsimple h
      · cases h
    obtain ⟨-, h⟩ | ⟨-, h⟩ := ite_eq_iff.mp h
    · cases h
    · exact hsimple h

theorem passes_readPropertyName? {name : String × Option String} (h : readPropertyName? rest = some (name, done)) :
    Passes rest done := by
  have hword (rest : List Nat) : Passes rest (rest.dropWhile isPropertyCode) :=
    .dropWhile (fun _ => ordinary_of_test (by decide)) rest
  unfold readPropertyName? at h
  split at h
  · next b tail =>
    obtain ⟨hb, h⟩ | ⟨-, h⟩ := ite_eq_iff.mp h
    · have hname := (Passes.sign hb (by decide) tail).trans (hword tail)
      dsimp only at h
      split at h
      · next e after heq =>
        rw [heq] at hname
        obtain ⟨he, h⟩ | ⟨-, h⟩ := ite_eq_iff.mp h
        · cases h
          exact hname.trans (.sign he (by decide) _)
        obtain ⟨he, h⟩ | ⟨-, h⟩ := ite_eq_iff.mp h
        · have hvalue := (hname.trans (.sign he (by decide) after)).trans (hword after)
          split at h
          · next d more heq =>
            rw [heq] at hvalue
            obtain ⟨hd, h⟩ | ⟨-, h⟩ := ite_eq_iff.mp h
            · cases h
              exact hvalue.trans (.sign hd (by decide) _)
            · cases h
          · cases h
        · cases h
      · cases h
    · cases h
  · cases h

theorem passes_readProperty? {mode : Mode} {negated : Bool} {s : Text.StringSet}
    (h : readProperty? mode negated rest = some (s, done)) : Passes rest done := by
  unfold readProperty? at h
  split at h
  · cases h
  next name value after hname =>
  have hpassed := passes_readPropertyName? hname
  split at h
  · cases h
    exact hpassed
  obtain ⟨-, h⟩ | ⟨-, h⟩ := ite_eq_iff.mp h
  · obtain ⟨_, -, he⟩ := Option.map_eq_some_iff.mp h
    cases he
    exact hpassed
  · cases h

end Passing

end Regex

end RuleScan
