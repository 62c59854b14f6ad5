import RuleScan.Proofs.Query.Parsing
import RuleScan.Regex.Parser

/-! Names of groups. What is read between the angle brackets of a group is a name made of characters of
identifiers, and an expression that names two groups alike is refused. -/
namespace RuleScan

namespace Regex

/-- One or more characters that may stand in an identifier. -/
def IsGroupName (s : String) : Prop := s.toList ≠ [] ∧ ∀ c ∈ s.toList, Text.isIdPart c.toNat = true

/-- The groups read so far have names, each its own. -/
structure Progress.Named (st : Progress) : Prop where
  nodup : (st.names.map (·.1)).Nodup
  isGroupName : ∀ x ∈ st.names, IsGroupName x.1

/-- The tables of identifiers hold no surrogates and nothing beyond the last character. -/
private theorem isValidChar_of_isIdPart {n : Nat} (h : Text.isIdPart n = true) : n.isValidChar := by
  have htables : ∀ r ∈ Text.idStartRanges ++ Text.idOnlyContinueRanges,
      r.2 < 0xD800 ∨ 0xDFFF < r.1 ∧ r.2 < 0x110000 := by decide +kernel
  have hranges (ranges : List (Nat × Nat)) (hsub : ranges ⊆ Text.idStartRanges ++ Text.idOnlyContinueRanges)
      (hn : Text.inRanges ranges n = true) : n.isValidChar := by
    obtain ⟨r, hr, hwithin⟩ := List.any_eq_true.mp hn
    have hbounds := htables r (hsub hr)
    simp only [Bool.and_eq_true, decide_eq_true_eq] at hwithin
    unfold Nat.isValidChar
    omega
  unfold Text.isIdPart Text.isIdStart at h
  simp only [Bool.or_eq_true, beq_iff_eq] at h
  rcases h with ((((h | h) | h) | h) | h) | h
  · exact .inl (by omega)
  · exact .inl (by omega)
  · exact hranges _ (List.subset_append_left _ _) h
  · exact hranges _ (List.subset_append_right _ _) h
  · exact .inl (by omega)
  · exact .inl (by omega)

/-- The first code of a name may also stand further on in it. -/
theorem isIdPart_of_first {first : Bool} {n : Nat} (h : (if first then Text.isIdStart n else Text.isIdPart n) = true) :
    Text.isIdPart n = true := by
  cases first with
  | true =>
    have hstart : Text.isIdStart n = true := h
    unfold Text.isIdPart
    simp only [hstart, Bool.true_or]
  | false => exact h

/-- A code that passes the test of a name stays one that does when it is made a character. -/
private theorem isIdPart_ofNat {n : Nat} (hpart : Text.isIdPart n = true) :
    Text.isIdPart (Char.ofNat n).toNat = true := by
  have hchar : (Char.ofNat n).toNat = n := by
    rw [Char.ofNat, dif_pos (isValidChar_of_isIdPart hpart)]
    rfl
  rw [hchar]
  exact hpart

/-- What is read as the name of a group is one, whatever has been read of it before. -/
theorem isGroupName_of_readName {fuel : Nat} {acc : List Char} {rest done : List Nat} {name : String}
    (hacc : ∀ c ∈ acc, Text.isIdPart c.toNat = true) (h : readName fuel acc rest = .ok (name, done)) :
    IsGroupName name := by
  induction fuel generalizing acc rest with
  | zero => cases h
  | succ fuel ih =>
    have hnext {n : Nat} (hn : (if acc.isEmpty then Text.isIdStart n else Text.isIdPart n) = true) :
        ∀ c ∈ Char.ofNat n :: acc, Text.isIdPart c.toNat = true :=
      List.forall_mem_cons.mpr ⟨isIdPart_ofNat (isIdPart_of_first hn), hacc⟩
    unfold readName at h
    split at h
    · cases h
    next c after _ =>
    split at h
    · next hclose =>
      cases h
      simp only [Bool.and_eq_true, Bool.not_eq_true', List.isEmpty_eq_false_iff] at hclose
      unfold IsGroupName
      rw [String.toList_ofList]
      refine ⟨fun he => hclose.2 (List.reverse_eq_nil_iff.mp he), ?_⟩
      intro d hd
      exact hacc d (List.mem_reverse.mp hd)
    split at h
    · split at h
      · split at h
        · split at h
          · cases h
          · next v _ _ =>
            by_cases hn : (if acc.isEmpty then Text.isIdStart v else Text.isIdPart v) = true
            · rw [if_pos hn] at h
              exact ih (hnext hn) h
            · rw [if_neg hn] at h
              cases h
        · cases h
      · cases h
    by_cases hn : (if acc.isEmpty then Text.isIdStart c else Text.isIdPart c) = true
    · rw [if_pos hn] at h
      exact ih (hnext hn) h
    · rw [if_neg hn] at h
      cases h

theorem isGroupName_of_readOpening {rest done : List Nat} {name : String}
    (h : readOpening rest = .ok (.capture (some name), done)) : IsGroupName name := by
  unfold readOpening at h
  repeat' first
    | cases h
    | split at h
  obtain ⟨⟨name', after⟩, hread, he⟩ := Query.map_eq_ok.mp h
  cases he
  exact isGroupName_of_readName (List.forall_mem_nil _) hread

theorem names_of_readEscape {mode : Mode} {st st' : Progress} {rest done : List Nat} {term : Regex}
    (h : readEscape mode st rest = .ok ((term, st'), done)) : st'.names = st.names := by
  unfold readEscape at h
  dsimp only at h
  repeat' first
    | rfl
    | cases h
    | split at h
    | (obtain ⟨x, hx, he⟩ := Query.map_eq_ok.mp h; cases he)

/-- Nor does any other term that is neither a group nor an assertion. -/
theorem names_of_readAtom {mode : Mode} {st st' : Progress} {c : Nat} {tail done : List Nat} {term : Regex}
    (h : readAtom mode st c tail = .ok ((term, st'), done)) : st'.names = st.names := by
  unfold readAtom at h
  dsimp only at h
  split at h
  · cases h
  split at h
  · cases h
    rfl
  split at h
  · obtain ⟨x, -, he⟩ := Query.map_eq_ok.mp h
    cases he
    rfl
  split at h
  · obtain ⟨x, -, he⟩ := Query.map_eq_ok.mp h
    cases he
    rfl
  split at h
  · exact names_of_readEscape h
  split at h
  · cases h
  split at h
  · cases h
  · cases h
    rfl

theorem Progress.Named.of_closeGroup {opening : Opening} {index : Nat} {st st' : Progress} {body term : Regex}
    {kind : TermKind} (hs : st.Named) (hopening : ∀ name, opening = .capture (some name) → IsGroupName name)
    (h : closeGroup opening index st body = .ok (term, kind, st')) : st'.Named := by
  unfold closeGroup at h
  split at h
  · cases h
    exact hs
  · cases h
    exact hs
  · cases h
    exact hs
  · split at h
    · cases h
    · next name hfresh =>
      cases h
      refine ⟨List.nodup_cons.mpr ⟨?_, hs.nodup⟩, List.forall_mem_cons.mpr ⟨hopening name rfl, hs.isGroupName⟩⟩
      intro hmem
      obtain ⟨x, hx, he⟩ := List.mem_map.mp hmem
      exact hfresh (List.any_eq_true.mpr ⟨x, hx, by simpa using he⟩)

/-- Reading alternatives keeps the names so, by the length of the text. -/
theorem Progress.Named.of_readAlternatives {mode : Mode} {inside : Bool} {fuel : Nat} {st st' : Progress}
    {acc : List Regex} {rest done : List Nat} {term : Regex} (hs : st.Named)
    (h : readAlternatives mode inside fuel st acc rest = .ok ((term, st'), done)) : st'.Named := by
  induction fuel generalizing inside st acc rest st' done term with
  | zero => cases h
  | succ fuel ih =>
    rw [readAlternatives.eq_def] at h
    dsimp only at h
    split at h
    · split at h
      · cases h
      · cases h
        exact hs
    split at h
    · split at h
      · cases h
        exact hs
      · cases h
    split at h
    · obtain ⟨⟨⟨right, st₁⟩, done₁⟩, hright, h⟩ := Query.bind_eq_ok.mp h
      cases h
      exact ih hs hright
    split at h
    · obtain ⟨⟨opening, body⟩, hopening, h⟩ := Query.bind_eq_ok.mp h
      obtain ⟨⟨⟨inner, st₁⟩, after⟩, hinner, h⟩ := Query.bind_eq_ok.mp h
      obtain ⟨⟨term₁, kind, st₂⟩, hclose, h⟩ := Query.bind_eq_ok.mp h
      obtain ⟨⟨term₂, done₁⟩, -, h⟩ := Query.bind_eq_ok.mp h
      have hname (name : String) (he : opening = .capture (some name)) : IsGroupName name :=
        isGroupName_of_readOpening (he ▸ hopening)
      refine ih ((ih ?_ hinner).of_closeGroup hname hclose) h
      -- a capturing group is counted before it is read
      cases opening <;> exact ⟨hs.nodup, hs.isGroupName⟩
    split at h
    · exact ih hs h
    · obtain ⟨⟨⟨term₁, st₁⟩, after⟩, hatom, h⟩ := Query.bind_eq_ok.mp h
      obtain ⟨⟨term₂, done₁⟩, -, h⟩ := Query.bind_eq_ok.mp h
      have hs₁ : st₁.Named := by
        have hnames := names_of_readAtom hatom
        exact ⟨by rw [hnames]; exact hs.nodup, by rw [hnames]; exact hs.isGroupName⟩
      exact ih hs₁ h

theorem named_of_compile {source flags : String} {p : Program} (h : compile source flags = .ok p) :
    (p.names.map (·.1)).Nodup ∧ ∀ x ∈ p.names, IsGroupName x.1 := by
  unfold compile at h
  split at h
  · cases h
  split at h
  · next parsed hparse =>
    cases h
    obtain ⟨⟨⟨body, st⟩, rest⟩, hread, h⟩ := Query.bind_eq_ok.mp hparse
    have hstart : Progress.Named {} := ⟨List.nodup_nil, List.forall_mem_nil _⟩
    have hnamed := hstart.of_readAlternatives hread
    have hperm := List.mergeSort_perm st.names fun a b => a.2 ≤ b.2
    dsimp only at h
    split at h
    · cases h
      exact ⟨(hperm.map _).nodup_iff.mpr hnamed.nodup, fun x hx => hnamed.isGroupName x (hperm.mem_iff.mp hx)⟩
    · cases h
  · cases h

end Regex

end RuleScan
