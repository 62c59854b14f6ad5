import RuleScan.Proofs.Regex.Passing

/-! The classes of an expression. A look over the text takes a class to end at the first closing bracket that is not
escaped. The members of a plain class are read up to there. A class in set notation may hold others, and is read further;
what it holds has no sign of a group outside escapes and classes, so that the look finds none too many. -/
namespace RuleScan

namespace Regex

section Classes

variable {c : Nat} {rest mid done : List Nat}

/-- A member of a class does not end it, unless it is a closing bracket. -/
theorem skipClass_readClassAtom {mode : Mode} {atom : ClassAtom} (hend : rest.head? ≠ some (code ']'))
    (h : readClassAtom mode rest = .ok (atom, done)) : skipClass rest = skipClass done := by
  unfold readClassAtom at h
  split at h
  · cases h
  next c rest =>
  split at h
  · next hescape =>
    rw [hescape]
    split at h
    · cases h
    next e after =>
    have hpassed := (Passes.escape e after).skipClass_eq
    split at h
    · cases h
      exact hpassed
    split at h
    · cases h
      exact hpassed
    split at h
    · split at h
      · next hproperty =>
        cases h
        exact hpassed.trans (passes_readProperty? hproperty).skipClass_eq
      · cases h
    split at h
    · cases h
      exact hpassed
    · obtain ⟨⟨v, r⟩, hread, he⟩ := Query.map_eq_ok.mp h
      cases he
      obtain ⟨d, tail, he, hrest⟩ := passes_readCharEscape hread
      cases he
      exact hpassed.trans hrest.skipClass_eq
  · next hescape =>
    cases h
    refine skipClass_of_ne hescape ?_
    intro he
    exact hend (by rw [he]; rfl)

/-- The members of a class are read up to the bracket that ends it. -/
theorem skipClass_readClass {mode : Mode} {fuel : Nat} {acc items : List ClassItem}
    (h : readClass mode fuel acc rest = .ok (items, done)) : skipClass rest = done := by
  induction fuel generalizing acc rest with
  | zero => cases h
  | succ fuel ih =>
    unfold readClass at h
    split at h
    · cases h
    next c tail =>
    split at h
    · next hend =>
      cases h
      rw [hend, skipClass.eq_def]
      rfl
    next hend =>
    obtain ⟨⟨first, after⟩, hfirst, h⟩ := Query.bind_eq_ok.mp h
    have hopen : (c :: tail).head? ≠ some (code ']') := fun he => hend (Option.some.inj he)
    rw [skipClass_readClassAtom hopen hfirst]
    dsimp only at h
    split at h
    · next d next =>
      split at h
      · exact ih h
      next hdash =>
      have hdash : d = code '-' := by simpa using hdash
      rw [hdash, skipClass_of_ne (by decide) (by decide)]
      split at h
      · cases h
      split at h
      · next hlast =>
        cases h
        obtain ⟨more, rfl⟩ := List.head?_eq_some_iff.mp hlast
        rw [skipClass.eq_def]
        rfl
      · next hlast =>
        obtain ⟨⟨second, done'⟩, hsecond, h⟩ := Query.bind_eq_ok.mp h
        rw [skipClass_readClassAtom hlast hsecond]
        dsimp only at h
        split at h
        · split at h
          · cases h
          · exact ih h
        · split at h
          · cases h
          · exact ih h
    · cases h

/-- The look finds the groups of `done`, whether it starts outside classes or in one that ends at the next closing
bracket. -/
structure Hidden (rest done : List Nat) : Prop where
  openings_eq : openings rest = openings done
  openings_skipClass_eq : openings (skipClass rest) = openings done

namespace Hidden

theorem of_passes (h : Passes rest mid) (h' : Hidden mid done) : Hidden rest done := by
  refine ⟨h.openings_eq.trans h'.openings_eq, ?_⟩
  rw [h.skipClass_eq]
  exact h'.openings_skipClass_eq

theorem sign {s : Char} (hc : c = code s) (hs : Ordinary (code s)) (h : Hidden rest done) : Hidden (c :: rest) done :=
  of_passes (.sign hc hs rest) h

theorem bracket (rest : List Nat) : Hidden (code ']' :: rest) rest := by
  refine ⟨openings_of_ne (by decide) (by decide) (by decide), ?_⟩
  rw [skipClass.eq_def]
  rfl

/-- A class within the class is left where the outer one goes on. -/
theorem nested (h : Hidden rest mid) (h' : Hidden mid done) : Hidden (code '[' :: rest) done := by
  constructor
  · rw [openings_class, h.openings_skipClass_eq]
    exact h'.openings_eq
  · rw [skipClass_of_ne (by decide) (by decide), h.openings_skipClass_eq]
    exact h'.openings_eq

end Hidden

theorem passes_readSetChar {mode : Mode} {found : Nat} (h : readSetChar mode rest = .ok (found, done)) :
    Passes rest done := by
  unfold readSetChar at h
  split at h
  · cases h
  next c tail =>
  split at h
  · next hc =>
    rw [hc]
    split at h
    · cases h
    next e after =>
    split at h
    · cases h
      exact .escape _ _
    split at h
    · cases h
      exact .escape _ _
    · obtain ⟨_, _, he, hpassed⟩ := passes_readCharEscape h
      cases he
      exact (Passes.escape e after).trans hpassed
  obtain ⟨-, h⟩ | ⟨hmark, h⟩ := ite_eq_iff.mp h
  · cases h
  obtain ⟨-, h⟩ | ⟨-, h⟩ := ite_eq_iff.mp h
  · cases h
  · cases h
    refine .cons (ordinary_of_test (p := fun c => !isSetSyntaxCode c) (by decide) ?_) _
    rw [Bool.not_eq_true', ← Bool.not_eq_true]
    exact hmark

theorem passes_readSetStrings {mode : Mode} {fuel : Nat} {read strings : List (List Nat)} {current : List Nat}
    (h : readSetStrings mode fuel read current rest = .ok (strings, done)) : Passes rest done := by
  induction fuel generalizing read current rest with
  | zero => cases h
  | succ fuel ih =>
    unfold readSetStrings at h
    split at h
    · cases h
    next c tail =>
    obtain ⟨hc, h⟩ | ⟨-, h⟩ := ite_eq_iff.mp h
    · cases h
      exact .sign hc (by decide) _
    obtain ⟨hc, h⟩ | ⟨-, h⟩ := ite_eq_iff.mp h
    · exact (Passes.sign hc (by decide) tail).trans (ih h)
    · obtain ⟨⟨v, after⟩, hread, h⟩ := Query.bind_eq_ok.mp h
      exact (passes_readSetChar hread).trans (ih h)

/-- What the readers of set notation leave hidden, for one amount of fuel. An operand ends within the class that it stands
in, the others end behind it. -/
structure HidesSets (mode : Mode) (fuel : Nat) : Prop where
  operand : ∀ {rest mid done : List Nat} {operand : SetOperand},
    readSetOperand mode fuel rest = .ok (operand, mid) → Hidden mid done → Hidden rest done
  nested : ∀ {rest done : List Nat} {body : ClassSet}, readSetClass mode fuel rest = .ok (body, done) → Hidden rest done
  body : ∀ {negated : Bool} {rest done : List Nat} {body : ClassSet},
    readSetBody mode fuel negated rest = .ok (body, done) → Hidden rest done
  union : ∀ {read body : ClassSet} {last : Option SetOperand} {rest done : List Nat},
    readSetUnion mode fuel read last rest = .ok (body, done) → Hidden rest done
  operations : ∀ {sign : Nat} {read body : ClassSet} {rest done : List Nat},
    sign = code '-' ∨ sign = code '&' → readSetOperations mode fuel sign read rest = .ok (body, done) → Hidden rest done

section Steps

variable {mode : Mode} {fuel : Nat} {body read : ClassSet}

theorem hidden_readSetOperand_succ {operand : SetOperand} (ih : HidesSets mode fuel)
    (h : readSetOperand mode (fuel + 1) rest = .ok (operand, mid)) (hmid : Hidden mid done) : Hidden rest done := by
  have hchar {read : Except Flaw (Rest Nat)} (hread : readSetChar mode rest = read)
      (he : (read.map fun x => (SetOperand.char x.1, x.2)) = .ok (operand, mid)) : Hidden rest done := by
    subst hread
    obtain ⟨⟨v, after⟩, hread, he⟩ := Query.map_eq_ok.mp he
    cases he
    exact .of_passes (passes_readSetChar hread) hmid
  cases rest with
  | nil => cases h
  | cons c tail =>
  rw [readSetOperand.eq_def] at h
  dsimp only at h
  split at h
  · next hc =>
    rw [hc]
    obtain ⟨⟨s, after⟩, hread, he⟩ := Query.map_eq_ok.mp h
    cases he
    exact .nested (ih.nested hread) hmid
  split at h
  · next hc =>
    split at h
    · cases h
    next e after =>
    have hescape {rest : List Nat} (hpassed : Passes after rest) (hrest : Hidden rest done) :
        Hidden (c :: e :: after) done := by
      rw [hc]
      exact .of_passes ((Passes.escape e after).trans hpassed) hrest
    split at h
    · split at h
      · next b strings =>
        obtain ⟨hb, h⟩ | ⟨-, h⟩ := ite_eq_iff.mp h
        · obtain ⟨⟨s, more⟩, hread, he⟩ := Query.map_eq_ok.mp h
          cases he
          exact hescape ((Passes.sign hb (by decide) strings).trans (passes_readSetStrings hread)) hmid
        · cases h
      · cases h
    split at h
    · split at h
      · next hread =>
        cases h
        exact hescape (passes_readProperty? hread) hmid
      · cases h
    split at h
    · cases h
      exact hescape (.refl _) hmid
    · exact hchar rfl h
  · exact hchar rfl h

theorem hidden_readSetClass_succ (ih : HidesSets mode fuel)
    (h : readSetClass mode (fuel + 1) rest = .ok (body, done)) : Hidden rest done := by
  unfold readSetClass at h
  dsimp only at h
  obtain ⟨⟨inner, after⟩, hread, h⟩ := Query.bind_eq_ok.mp h
  have hafter : after = done := by
    dsimp only at h
    obtain ⟨-, h⟩ | ⟨-, h⟩ := ite_eq_iff.mp h
    · cases h
      rfl
    obtain ⟨-, h⟩ | ⟨-, h⟩ := ite_eq_iff.mp h
    · cases h
    · cases h
      rfl
  rw [hafter] at hread
  have hinner := ih.body hread
  by_cases hnegated : rest.head? = some (code '^')
  · obtain ⟨tail, rfl⟩ := List.head?_eq_some_iff.mp hnegated
    exact .sign rfl (by decide) hinner
  · simpa only [hnegated, decide_false, Bool.false_eq_true, if_false] using hinner

theorem hidden_readSetBody_succ {negated : Bool} (ih : HidesSets mode fuel)
    (h : readSetBody mode (fuel + 1) negated rest = .ok (body, done)) : Hidden rest done := by
  unfold readSetBody at h
  obtain ⟨hend, h⟩ | ⟨-, h⟩ := ite_eq_iff.mp h
  · obtain ⟨tail, rfl⟩ := List.head?_eq_some_iff.mp hend
    cases h
    exact .bracket tail
  obtain ⟨⟨first, after⟩, hfirst, h⟩ := Query.bind_eq_ok.mp h
  refine ih.operand hfirst ?_
  dsimp only at h
  split at h
  · obtain ⟨hsign, h⟩ | ⟨-, h⟩ := ite_eq_iff.mp h
    · obtain ⟨-, h⟩ | ⟨-, h⟩ := ite_eq_iff.mp h
      · cases h
      · simp only [Bool.and_eq_true, Bool.or_eq_true, decide_eq_true_eq] at hsign
        exact ih.operations hsign.2 h
    · exact ih.union h
  · exact ih.union h

theorem hidden_readSetUnion_succ {last : Option SetOperand} (ih : HidesSets mode fuel)
    (h : readSetUnion mode (fuel + 1) read last rest = .ok (body, done)) : Hidden rest done := by
  cases rest with
  | nil => cases h
  | cons c tail =>
  rw [readSetUnion.eq_def] at h
  dsimp only at h
  obtain ⟨hc, h⟩ | ⟨-, h⟩ := ite_eq_iff.mp h
  · cases h
    rw [hc]
    exact .bracket _
  obtain ⟨hdash, h⟩ | ⟨-, h⟩ := ite_eq_iff.mp h
  · obtain ⟨-, h⟩ | ⟨-, h⟩ := ite_eq_iff.mp h
    · cases h
    obtain ⟨-, h⟩ | ⟨-, h⟩ := ite_eq_iff.mp h
    · cases h
    split at h
    · obtain ⟨⟨second, after⟩, hsecond, h⟩ := Query.bind_eq_ok.mp h
      refine .sign hdash (by decide) (ih.operand hsecond ?_)
      dsimp only at h
      split at h
      · obtain ⟨-, h⟩ | ⟨-, h⟩ := ite_eq_iff.mp h
        · cases h
        · exact ih.union h
      · cases h
    · cases h
  · obtain ⟨⟨next, after⟩, hnext, h⟩ := Query.bind_eq_ok.mp h
    exact ih.operand hnext (ih.union h)

theorem hidden_readSetOperations_succ {sign : Nat} (hsign : sign = code '-' ∨ sign = code '&')
    (ih : HidesSets mode fuel) (h : readSetOperations mode (fuel + 1) sign read rest = .ok (body, done)) :
    Hidden rest done := by
  have hordinary : Ordinary sign := by
    obtain rfl | rfl := hsign
    · decide
    · decide
  cases rest with
  | nil => cases h
  | cons c tail =>
  rw [readSetOperations.eq_def] at h
  dsimp only at h
  obtain ⟨hc, h⟩ | ⟨-, h⟩ := ite_eq_iff.mp h
  · cases h
    rw [hc]
    exact .bracket _
  obtain ⟨htwice, h⟩ | ⟨-, h⟩ := ite_eq_iff.mp h
  · obtain ⟨-, h⟩ | ⟨-, h⟩ := ite_eq_iff.mp h
    · cases h
    · simp only [Bool.and_eq_true, decide_eq_true_eq] at htwice
      obtain ⟨hc, htail⟩ := htwice
      obtain ⟨more, rfl⟩ := List.head?_eq_some_iff.mp htail
      obtain ⟨⟨operand, after⟩, hoperand, h⟩ := Query.bind_eq_ok.mp h
      rw [hc]
      exact .of_passes ((Passes.cons hordinary _).trans (.cons hordinary more))
        (ih.operand hoperand (ih.operations hsign h))
  · cases h

end Steps

/-- Classes in set notation hide what they hold, by the length of the text. -/
theorem hidesSets (mode : Mode) (fuel : Nat) : HidesSets mode fuel := by
  induction fuel with
  | zero => exact ⟨nofun, nofun, nofun, nofun, fun _ => nofun⟩
  | succ fuel ih =>
    exact ⟨hidden_readSetOperand_succ ih, hidden_readSetClass_succ ih, hidden_readSetBody_succ ih,
      hidden_readSetUnion_succ ih, fun hsign => hidden_readSetOperations_succ hsign ih⟩

end Classes

end Regex

end RuleScan
