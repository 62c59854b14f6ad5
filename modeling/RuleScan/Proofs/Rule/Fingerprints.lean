import Mathlib.Data.Set.Function
import RuleScan.Proofs.Source.Positions
import RuleScan.Rule.Violation

/-! What a fingerprint tells about a violation. It is the digest of rule, file, place and the digest of the
matched text, with NULs between them. Place and digest hold no NUL, so they can be read off the end; what
stands before them names rule and file together. -/
namespace RuleScan

namespace Sha256

/-- No two of the texts have the same digest. -/
def CollisionFree (texts : Set String) : Prop := Set.InjOn hex texts

theorem exists_digitChar_of_mem_hex {s : String} {c : Char} (h : c ∈ (hex s).toList) :
    ∃ i < 16, c = Nat.digitChar i := by
  rw [hex, String.toList_ofList] at h
  obtain ⟨w, -, hw⟩ := List.mem_flatMap.mp h
  obtain ⟨i, -, hi⟩ := List.mem_map.mp hw
  exact ⟨_, Nat.mod_lt _ (by decide), hi.symm⟩

theorem nul_notMem_hex (s : String) : '\x00' ∉ (hex s).toList := by
  intro hmem
  obtain ⟨i, -, hi⟩ := exists_digitChar_of_mem_hex hmem
  exact Nat.digitChar_ne '\x00' (by decide) hi.symm

/-- Digests are in lower case. -/
theorem toLower_hex (s : String) : (hex s).toLower = hex s := by
  have hdigit : ∀ i < 16, (Nat.digitChar i).toLower = Nat.digitChar i := by decide
  apply String.toList_injective
  change ((hex s).map Char.toLower).toList = _
  rw [String.toList_map]
  refine (List.map_congr_left fun c hc => ?_).trans (List.map_id _)
  obtain ⟨i, hi, rfl⟩ := exists_digitChar_of_mem_hex hc
  exact hdigit i hi

end Sha256

/-- Text up to the first separator can be read off the front. -/
theorem append_cons_inj_left {α : Type} {sep : α} {xs xs' ys ys' : List α} (h : sep ∉ xs) (h' : sep ∉ xs')
    (he : xs ++ sep :: ys = xs' ++ sep :: ys') : xs = xs' ∧ ys = ys' := by
  induction xs generalizing xs' with
  | nil =>
    cases xs' with
    | nil => exact ⟨rfl, List.tail_eq_of_cons_eq he⟩
    | cons x' xs' => exact absurd (List.head_eq_of_cons_eq he ▸ List.mem_cons_self) h'
  | cons x xs ih =>
    cases xs' with
    | nil => exact absurd (List.head_eq_of_cons_eq he ▸ List.mem_cons_self) h
    | cons x' xs' =>
      obtain ⟨rfl, htail⟩ := List.cons.inj he
      obtain ⟨rfl, hys⟩ := ih (List.not_mem_of_not_mem_cons h) (List.not_mem_of_not_mem_cons h') htail
      exact ⟨rfl, hys⟩

/-- Text after the last separator can be read off the end. -/
theorem append_cons_inj_right {α : Type} {sep : α} {xs xs' ys ys' : List α} (h : sep ∉ ys) (h' : sep ∉ ys')
    (he : xs ++ sep :: ys = xs' ++ sep :: ys') : xs = xs' ∧ ys = ys' := by
  have hreverse := congrArg List.reverse he
  simp only [List.reverse_append, List.reverse_cons, List.append_assoc, List.singleton_append] at hreverse
  have hparts := append_cons_inj_left (by simpa using h) (by simpa using h') hreverse
  simpa [and_comm] using hparts

namespace Location

theorem toList_render (l : Location) :
    l.render.toList = Nat.toDigits 10 l.line ++ ':' :: (Nat.toDigits 10 l.column ++ '-' ::
      (Nat.toDigits 10 l.endLine ++ ':' :: Nat.toDigits 10 l.endColumn)) := by
  simp [render]

theorem notMem_toDigits {c : Char} (h : c.isDigit = false) (n : Nat) : c ∉ Nat.toDigits 10 n := by
  intro hmem
  have hdigit := Nat.isDigit_of_mem_toDigits (by decide) (by decide) hmem
  rw [h] at hdigit
  cases hdigit

theorem nul_notMem_render (l : Location) : '\x00' ∉ l.render.toList := by
  have hnul := notMem_toDigits (c := '\x00') rfl
  simp [toList_render, hnul]

theorem toDigits_injective {m n : Nat} (h : Nat.toDigits 10 m = Nat.toDigits 10 n) : m = n := by
  rw [← Nat.ofDigitChars_ten_toDigits (n := m), h, Nat.ofDigitChars_ten_toDigits]

theorem render_inj {l l' : Location} (h : l.render = l'.render) :
    l.line = l'.line ∧ l.column = l'.column ∧ l.endLine = l'.endLine ∧ l.endColumn = l'.endColumn := by
  have hchars := congrArg String.toList h
  rw [toList_render, toList_render] at hchars
  have hcolon := notMem_toDigits (c := ':') rfl
  have hdash := notMem_toDigits (c := '-') rfl
  obtain ⟨hline, hchars⟩ := append_cons_inj_left (hcolon _) (hcolon _) hchars
  obtain ⟨hcolumn, hchars⟩ := append_cons_inj_left (hdash _) (hdash _) hchars
  obtain ⟨hendLine, hendColumn⟩ := append_cons_inj_left (hcolon _) (hcolon _) hchars
  exact ⟨toDigits_injective hline, toDigits_injective hcolumn, toDigits_injective hendLine,
    toDigits_injective hendColumn⟩

/-- Over the same lines, the short form of a place tells its offsets. -/
theorem render_ofSpan_eq_iff {lines : LineIndex} {s t : Span} (hs : s.Over lines) (ht : t.Over lines) :
    (ofSpan s).render = (ofSpan t).render ↔ s.start = t.start ∧ s.stop = t.stop := by
  rw [← hs.positions_eq_iff ht]
  constructor
  · intro h
    obtain ⟨hline, hcolumn, hendLine, hendColumn⟩ := render_inj h
    simp only [ofSpan] at hline hcolumn hendLine hendColumn
    exact ⟨Position.ext (by omega) (by omega), Position.ext (by omega) (by omega)⟩
  · rintro ⟨hstart, hstop⟩
    simp only [render, ofSpan, hstart, hstop]

end Location

namespace Violation

def label (ruleId file : String) : String := ruleId ++ "\x00" ++ file

def identity (ruleId file : String) (location : Location) (text : String) : String :=
  "\x00".intercalate [ruleId, file, location.render, Sha256.hex text]

theorem toList_identity (ruleId file : String) (location : Location) (text : String) :
    (identity ruleId file location text).toList =
      ((label ruleId file).toList ++ '\x00' :: location.render.toList) ++ '\x00' :: (Sha256.hex text).toList := by
  simp [identity, label]

variable {ruleId ruleId' file file' text text' : String} {location location' : Location}

/-- The hashed text tells rule and file together, the place, and the digest of the matched text. -/
theorem identity_inj (h : identity ruleId file location text = identity ruleId' file' location' text') :
    label ruleId file = label ruleId' file' ∧ location.render = location'.render ∧
      Sha256.hex text = Sha256.hex text' := by
  have hchars := congrArg String.toList h
  rw [toList_identity, toList_identity] at hchars
  obtain ⟨hfront, hdigest⟩ :=
    append_cons_inj_right (Sha256.nul_notMem_hex _) (Sha256.nul_notMem_hex _) hchars
  obtain ⟨hlabel, hplace⟩ :=
    append_cons_inj_right location.nul_notMem_render location'.nul_notMem_render hfront
  exact ⟨String.toList_injective hlabel, String.toList_injective hplace, String.toList_injective hdigest⟩

/-- In one file the label tells the rule, whatever its id is made of. -/
theorem label_inj_left (h : label ruleId file = label ruleId' file) : ruleId = ruleId' := by
  have hchars := congrArg String.toList h
  simp only [label, String.toList_append] at hchars
  exact String.toList_injective (List.append_cancel_right (List.append_cancel_right hchars))

end Violation

end RuleScan
