import RuleScan.Proofs.Regex.Classes

/-! Terms of expressions and the quantifiers after them: a term that is neither a group nor an assertion is passed over
without meeting the sign of a group. -/
namespace RuleScan

namespace Regex

section Terms

variable {c : Nat} {rest done after : List Nat}

theorem passes_digits (rest : List Nat) : Passes rest (rest.dropWhile isDigitCode) :=
  .dropWhile (fun _ => ordinary_of_isDigitCode) rest

theorem passes_readInterval? {counts : Nat × Option Nat} (h : readInterval? rest = some (counts, done)) :
    Passes rest done := by
  have hlow := passes_digits rest
  unfold readInterval? at h
  dsimp only at h
  split at h
  · cases h
  split at h
  · next c after heq =>
    rw [heq] at hlow
    split at h
    · next hc =>
      cases h
      exact hlow.trans (.sign hc (by decide) _)
    split at h
    · next hc =>
      have hhigh := passes_digits after
      split at h
      · next d more heq =>
        rw [heq] at hhigh
        split at h
        · next hd =>
          cases h
          exact (hlow.trans (.sign hc (by decide) _)).trans (hhigh.trans (.sign hd (by decide) _))
        · cases h
      · cases h
    · cases h
  · cases h

theorem passes_quantify {mode : Mode} {kind : TermKind} {low high : Nat} {term term' : Regex}
    (h : quantify mode kind low high term rest = .ok (term', done)) : Passes rest done := by
  have hlazy (after : List Nat) :
      Passes after (if after.head? = some (code '?') then (false, after.drop 1) else (true, after)).2 := by
    by_cases hhead : after.head? = some (code '?')
    · obtain ⟨tail, rfl⟩ := List.head?_eq_some_iff.mp hhead
      exact .cons (by decide) tail
    · rw [if_neg hhead]
      exact .refl _
  have hfinish {after : List Nat} {repeated : Regex}
      (he : (if kind = TermKind.behind || (kind = TermKind.ahead && mode.unicode) then
          Except.error Flaw.invalidQuantifier
        else .ok (repeated, (if after.head? = some (code '?') then (false, after.drop 1) else (true, after)).2)) =
        .ok (term', done)) : Passes after done := by
    obtain ⟨-, he⟩ | ⟨-, he⟩ := ite_eq_iff.mp he
    · cases he
    · cases he
      exact hlazy after
  cases rest with
  | nil =>
    cases h
    exact .refl []
  | cons c after =>
    unfold quantify at h
    dsimp only at h
    obtain ⟨hc, h⟩ | ⟨-, h⟩ := ite_eq_iff.mp h
    · exact (Passes.sign hc (by decide) after).trans (hfinish h)
    obtain ⟨hc, h⟩ | ⟨-, h⟩ := ite_eq_iff.mp h
    · exact (Passes.sign hc (by decide) after).trans (hfinish h)
    obtain ⟨hc, h⟩ | ⟨-, h⟩ := ite_eq_iff.mp h
    · exact (Passes.sign hc (by decide) after).trans (hfinish h)
    obtain ⟨hc, h⟩ | ⟨-, h⟩ := ite_eq_iff.mp h
    · split at h
      · next min max done' hread =>
        obtain ⟨-, h⟩ | ⟨-, h⟩ := ite_eq_iff.mp h
        · cases h
        · exact (Passes.sign hc (by decide) after).trans ((passes_readInterval? hread).trans (hfinish h))
      · obtain ⟨-, h⟩ | ⟨-, h⟩ := ite_eq_iff.mp h
        · cases h
        · cases h
          exact .refl _
    · cases h
      exact .refl _

/-- The term of an escape takes the first code, passes over no sign and opens no group. -/
theorem passes_readEscape {mode : Mode} {st st' : Progress} {term : Regex}
    (h : readEscape mode st rest = .ok ((term, st'), done)) :
    (∃ c after, rest = c :: after ∧ Passes after done) ∧ st'.groups = st.groups := by
  cases rest with
  | nil => cases h
  | cons c after =>
    have hchar {read : Except Flaw (Rest Nat)} (hread : readCharEscape mode false (c :: after) = read)
        (he : (read.map fun x => ((Regex.char x.1, st), x.2)) = .ok ((term, st'), done)) :
        (∃ d tail, c :: after = d :: tail ∧ Passes tail done) ∧ st'.groups = st.groups := by
      subst hread
      obtain ⟨⟨v, r⟩, hread, he⟩ := Query.map_eq_ok.mp he
      cases he
      exact ⟨passes_readCharEscape hread, rfl⟩
    unfold readEscape at h
    dsimp only at h
    obtain ⟨hc, h⟩ | ⟨-, h⟩ := ite_eq_iff.mp h
    · have hdigit : isDigitCode c = true := by
        simp only [isDigitCode, Bool.and_eq_true, decide_eq_true_eq] at hc ⊢
        omega
      split at h
      · next n done' hread =>
        cases h
        unfold readBackref? at hread
        dsimp only at hread
        obtain ⟨-, hread⟩ | ⟨-, hread⟩ := ite_eq_iff.mp hread
        · cases hread
          exact ⟨⟨c, after, rfl, (Passes.cons (ordinary_of_isDigitCode hdigit) after).symm.trans (passes_digits _)⟩, rfl⟩
        · cases hread
      · obtain ⟨-, h⟩ | ⟨-, h⟩ := ite_eq_iff.mp h
        · cases h
        obtain ⟨-, h⟩ | ⟨-, h⟩ := ite_eq_iff.mp h
        · cases h
          exact ⟨⟨c, _, rfl, .refl _⟩, rfl⟩
        · cases h
          exact ⟨⟨c, after, rfl, passes_readOctal_cons hdigit after⟩, rfl⟩
    obtain ⟨hc, h⟩ | ⟨-, h⟩ := ite_eq_iff.mp h
    · obtain ⟨-, h⟩ | ⟨-, h⟩ := ite_eq_iff.mp h
      · cases h
      · cases h
        exact ⟨⟨c, after, rfl, passes_readOctal_cons (by rw [hc]; decide) after⟩, rfl⟩
    obtain ⟨-, h⟩ | ⟨-, h⟩ := ite_eq_iff.mp h
    · split at h
      · next hread =>
        cases h
        exact ⟨⟨c, after, rfl, passes_readProperty? hread⟩, rfl⟩
      · cases h
    obtain ⟨-, h⟩ | ⟨-, h⟩ := ite_eq_iff.mp h
    · cases after with
      | nil => cases h
      | cons l more =>
        obtain ⟨hl, h⟩ | ⟨-, h⟩ := ite_eq_iff.mp h
        · obtain ⟨⟨name, done'⟩, hread, h⟩ := Query.bind_eq_ok.mp h
          cases h
          exact ⟨⟨c, _, rfl, (Passes.sign hl (by decide) more).trans (passes_readName hread)⟩, rfl⟩
        · cases h
    split at h
    · cases h
      exact ⟨⟨c, _, rfl, .refl _⟩, rfl⟩
    · exact hchar rfl h

theorem openings_assertion? {term : Regex} (h : assertion? rest = some (term, done)) :
    openings rest = openings done := by
  unfold assertion? at h
  split at h
  · next c tail =>
    obtain ⟨hc, h⟩ | ⟨-, h⟩ := ite_eq_iff.mp h
    · cases h
      exact (Passes.sign hc (by decide) _).openings_eq
    obtain ⟨hc, h⟩ | ⟨-, h⟩ := ite_eq_iff.mp h
    · cases h
      exact (Passes.sign hc (by decide) _).openings_eq
    obtain ⟨hc, h⟩ | ⟨-, h⟩ := ite_eq_iff.mp h
    · rw [hc]
      split at h
      · obtain ⟨-, h⟩ | ⟨-, h⟩ := ite_eq_iff.mp h
        · cases h
          exact openings_escape _ _
        obtain ⟨-, h⟩ | ⟨-, h⟩ := ite_eq_iff.mp h
        · cases h
          exact openings_escape _ _
        · cases h
      · cases h
    · cases h
  · cases h

/-- A term that is neither a group nor an assertion passes over no opening, and opens no group. -/
theorem openings_readAtom {mode : Mode} {st st' : Progress} {tail : List Nat} {term : Regex} (hgroup : c ≠ code '(')
    (h : readAtom mode st c tail = .ok ((term, st'), done)) :
    openings (c :: tail) = openings done ∧ st'.groups = st.groups := by
  unfold readAtom at h
  dsimp only at h
  obtain ⟨-, h⟩ | ⟨-, h⟩ := ite_eq_iff.mp h
  · cases h
  obtain ⟨hc, h⟩ | ⟨-, h⟩ := ite_eq_iff.mp h
  · cases h
    exact ⟨(Passes.sign hc (by decide) _).openings_eq, rfl⟩
  obtain ⟨hsets, h⟩ | ⟨-, h⟩ := ite_eq_iff.mp h
  · obtain ⟨⟨body, r⟩, hread, he⟩ := Query.map_eq_ok.mp h
    cases he
    rw [Bool.and_eq_true, decide_eq_true_eq] at hsets
    rw [hsets.1, openings_class]
    exact ⟨((hidesSets mode _).nested hread).openings_skipClass_eq, rfl⟩
  obtain ⟨hclass, h⟩ | ⟨hclass, h⟩ := ite_eq_iff.mp h
  · obtain ⟨⟨items, r⟩, hread, he⟩ := Query.map_eq_ok.mp h
    cases he
    refine ⟨?_, rfl⟩
    rw [hclass, openings_class, ← skipClass_readClass hread]
    by_cases hnegated : tail.head? = some (code '^')
    · obtain ⟨body, rfl⟩ := List.head?_eq_some_iff.mp hnegated
      rw [if_pos hnegated, skipClass_of_ne (by decide) (by decide)]
      rfl
    · rw [if_neg hnegated]
  obtain ⟨hescape, h⟩ | ⟨hescape, h⟩ := ite_eq_iff.mp h
  · obtain ⟨⟨e, after, rfl, hpassed⟩, hgroups⟩ := passes_readEscape h
    rw [hescape, openings_escape]
    exact ⟨hpassed.openings_eq, hgroups⟩
  obtain ⟨-, h⟩ | ⟨-, h⟩ := ite_eq_iff.mp h
  · cases h
  obtain ⟨-, h⟩ | ⟨-, h⟩ := ite_eq_iff.mp h
  · cases h
  · cases h
    exact ⟨openings_of_ne hescape hclass hgroup, rfl⟩

end Terms

end Regex

end RuleScan
