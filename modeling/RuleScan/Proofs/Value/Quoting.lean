import Mathlib.Data.List.Basic
import RuleScan.Value.Parser
import RuleScan.Value.Printer

/-! Reading back what is written: every string, and lists of strings over several lines. -/
namespace RuleScan

namespace Units

theorem decodeList_append_singleton (u : UInt16) {pending : List UInt16} (acc : String)
    (h : ∀ v ∈ pending, isHigh v = false) :
    decodeList (pending ++ [u]) acc = (decodeList pending acc).push (charOf u) := by
  fun_induction decodeList pending acc with
  | case1 acc => rfl
  | case2 v acc =>
    have hv : isHigh v = false := h v (by simp)
    simp [decodeList, hv]
  | case3 v w rest acc hpair ih =>
    have hv : isHigh v = false := h v (by simp)
    simp [hv] at hpair
  | case4 v w rest acc hpair ih =>
    rw [List.cons_append, List.cons_append, decodeList, if_neg hpair, ← List.cons_append]
    exact ih fun x hx => h x (List.mem_cons_of_mem v hx)

end Units

namespace Value

/-- The code units of control characters, none of which is part of a pair. -/
def Controls (pending : List UInt16) : Prop := ∀ u ∈ pending, u.toNat < 32

theorem controls_nil : Controls [] := fun _ hu => absurd hu List.not_mem_nil

theorem flush_cons {u : UInt16} {pending : List UInt16} (acc : String) (hu : u.toNat < 32)
    (h : Controls pending) : flush (u :: pending) acc = (flush pending acc).push (Char.ofNat u.toNat) := by
  have hsingle : ∀ v : UInt16, v.toNat < 32 → Units.isHigh v = false ∧ Units.isLow v = false := by
    intro v hv
    simp only [Units.isHigh, Units.isLow, UInt16.le_iff_toNat_le]
    constructor <;> simp <;> omega
  have hempty : flush pending acc = Units.decodeList pending.reverse acc := by
    cases pending <;> rfl
  have hchar : Units.charOf u = Char.ofNat u.toNat := by
    simp [Units.charOf, hsingle u hu]
  rw [hempty, ← hchar, flush, if_neg (by simp), List.reverse_cons]
  exact Units.decodeList_append_singleton u acc fun v hv => (hsingle v (h v (List.mem_reverse.1 hv))).1

theorem hex4?_hexPair (n : Nat) (h : n < 32) :
    hex4? '0' '0' (Nat.digitChar (n / 16)) (Nat.digitChar (n % 16)) = some n.toUInt16 := by
  revert n
  decide

theorem readString_escape {c e : Char} (rest : List Char) (pending : List UInt16) (acc : String) (hu : e ≠ 'u')
    (h : escape? e = some c) :
    readString ('\\' :: e :: rest) pending acc = readString rest [] ((flush pending acc).push c) := by
  rw [readString, h]
  intro a b c d rest' heq
  cases heq
  contradiction

theorem readString_plain {c : Char} (rest : List Char) (pending : List UInt16) (acc : String) (hq : c ≠ '"')
    (hb : c ≠ '\\') (hc : 32 ≤ c.toNat) :
    readString (c :: rest) pending acc = readString rest [] ((flush pending acc).push c) := by
  have hplain : ¬(decide (c = '\\') || decide (c.toNat < 32)) = true := by
    simp only [hb, decide_false, Bool.false_or, decide_eq_true_eq]
    omega
  rw [readString, if_neg hplain]
  · exact hq
  · intro a b c' d rest' heq
    exact absurd heq hb
  · intro c' rest' heq
    exact absurd heq hb

/-- What is written for a character adds that character, at once or when the text goes on. -/
theorem readString_escapeChar (c : Char) (rest : List Char) {pending : List UInt16} (acc : String)
    (h : Controls pending) :
    ∃ pending' acc', Controls pending' ∧ flush pending' acc' = (flush pending acc).push c ∧
      readString (escapeChar c ++ rest) pending acc = readString rest pending' acc' := by
  have hletter : ∀ {e : Char}, e ≠ 'u' → escape? e = some c → ∃ pending' acc', Controls pending' ∧
      flush pending' acc' = (flush pending acc).push c ∧
        readString ('\\' :: e :: rest) pending acc = readString rest pending' acc' :=
    fun hu he => ⟨[], _, controls_nil, rfl, readString_escape rest pending acc hu he⟩
  unfold escapeChar
  split_ifs with hq hb hn hr ht h8 h12 hlow
  · exact hletter (by decide) (by rw [hq]; rfl)
  · exact hletter (by decide) (by rw [hb]; rfl)
  · exact hletter (by decide) (by rw [hn]; rfl)
  · exact hletter (by decide) (by rw [hr]; rfl)
  · exact hletter (by decide) (by rw [ht]; rfl)
  · exact hletter (by decide) (by rw [← c.ofNat_toNat, h8]; rfl)
  · exact hletter (by decide) (by rw [← c.ofNat_toNat, h12]; rfl)
  · have hu : (c.toNat.toUInt16).toNat = c.toNat := by
      rw [Nat.toUInt16, UInt16.toNat_ofNat', Nat.mod_eq_of_lt (by omega)]
    refine ⟨c.toNat.toUInt16 :: pending, acc, ?_, ?_, ?_⟩
    · exact List.forall_mem_cons.2 ⟨by omega, h⟩
    · rw [flush_cons acc (by omega) h, hu, c.ofNat_toNat]
    · simp only [hexPair, List.cons_append, List.nil_append, readString, hex4?_hexPair c.toNat hlow]
  · exact ⟨[], _, controls_nil, rfl, readString_plain rest pending acc hq hb (by omega)⟩

theorem readString_escaped (cs rest : List Char) {pending : List UInt16} (acc : String) (h : Controls pending) :
    readString (cs.flatMap escapeChar ++ '"' :: rest) pending acc =
      some (flush pending acc ++ String.ofList cs, rest) := by
  induction cs generalizing pending acc with
  | nil => simp [readString]
  | cons c cs ih =>
    rw [List.flatMap_cons, List.append_assoc]
    obtain ⟨pending', acc', hcontrols, hflush, hread⟩ :=
      readString_escapeChar c (cs.flatMap escapeChar ++ '"' :: rest) acc h
    rw [hread, ih acc' hcontrols, hflush, String.ofList_cons, ← String.append_assoc]
    simp [String.push]


theorem toList_quote (s : String) : (quote s).toList = '"' :: (s.toList.flatMap escapeChar ++ ['"']) := by
  simp [quote]

theorem skipBlanks_blanks {blanks : List Char} (h : ∀ c ∈ blanks, isJsonBlank c = true) (cs : List Char) :
    skipBlanks (blanks ++ cs) = skipBlanks cs :=
  List.dropWhile_append_of_pos h

theorem skipBlanks_cons {c : Char} (h : isJsonBlank c = false) (rest : List Char) :
    skipBlanks (c :: rest) = c :: rest :=
  List.dropWhile_cons_of_neg (by simp [h])

theorem readString_quoted (s : String) (rest : List Char) :
    readString (s.toList.flatMap escapeChar ++ '"' :: rest) [] "" = some (s, rest) := by
  rw [readString_escaped s.toList rest "" controls_nil, flush, if_pos (by rfl), String.ofList_toList,
    String.empty_append]

theorem readValue_blanks (fuel : Nat) {blanks : List Char} (h : ∀ c ∈ blanks, isJsonBlank c = true) (cs : List Char) :
    readValue fuel (blanks ++ cs) = readValue fuel cs := by
  cases fuel with
  | zero => rw [readValue, readValue]
  | succ fuel => rw [readValue, readValue, skipBlanks_blanks h]

theorem readItems_blanks (fuel : Nat) {blanks : List Char} (h : ∀ c ∈ blanks, isJsonBlank c = true) (cs : List Char)
    (acc : List Value) : readItems fuel (blanks ++ cs) acc = readItems fuel cs acc := by
  cases fuel with
  | zero => rw [readItems, readItems]
  | succ fuel => rw [readItems, readItems, readValue_blanks fuel h]

theorem readMembers_blanks (fuel : Nat) {blanks : List Char} (h : ∀ c ∈ blanks, isJsonBlank c = true)
    (cs : List Char) (acc : List (String × Value)) : readMembers fuel (blanks ++ cs) acc = readMembers fuel cs acc := by
  cases fuel with
  | zero => rw [readMembers, readMembers]
  | succ fuel => rw [readMembers, readMembers, skipBlanks_blanks h]

/-- A string is read back wherever it stands. -/
theorem readValue_quote (fuel : Nat) (s : String) (rest : List Char) :
    readValue (fuel + 1) ((quote s).toList ++ rest) = some (.str s, rest) := by
  rw [toList_quote, List.cons_append, readValue, skipBlanks_cons (by decide), List.append_assoc]
  simp only [List.singleton_append, readString_quoted, Option.map_some]

theorem readItems_last {fuel : Nat} {cs rest r : List Char} {v : Value} (acc : List Value)
    (h : readValue fuel cs = some (v, rest)) (hclose : skipBlanks rest = ']' :: r) :
    readItems (fuel + 1) cs acc = some (.arr (acc.reverse ++ [v]), r) := by
  simp [readItems, h, hclose]

theorem readItems_more {fuel : Nat} {cs rest r : List Char} {v : Value} (acc : List Value)
    (h : readValue fuel cs = some (v, rest)) (hcomma : skipBlanks rest = ',' :: r) :
    readItems (fuel + 1) cs acc = readItems fuel r (v :: acc) := by
  simp [readItems, h, hcomma]

section Lines

variable {pad : String} {close : List Char}

/-- Strings on lines of their own are read back one after the other. -/
theorem readItems_strings (hpad : ∀ c ∈ pad.toList, isJsonBlank c = true)
    (hclose : ∀ c ∈ close, isJsonBlank c = true) (rest : List Char) (x : String) (xs : List String) (acc : List Value)
    {fuel : Nat} (hfuel : xs.length + 2 ≤ fuel) :
    readItems fuel ((",\n".intercalate ((x :: xs).map (pad ++ quote ·))).toList ++ (close ++ ']' :: rest)) acc =
      some (.arr (acc.reverse ++ (x :: xs).map .str), rest) := by
  induction xs generalizing x acc fuel with
  | nil =>
    obtain ⟨fuel, rfl⟩ : ∃ n, fuel = n + 1 + 1 := ⟨fuel - 2, by simp at hfuel; omega⟩
    have hend : skipBlanks (close ++ ']' :: rest) = ']' :: rest := by
      rw [skipBlanks_blanks hclose, skipBlanks_cons (by decide)]
    rw [List.map_singleton, String.intercalate_singleton, String.toList_append, List.append_assoc,
      readItems_blanks _ hpad]
    exact readItems_last acc (readValue_quote fuel x _) hend
  | cons y ys ih =>
    obtain ⟨fuel, rfl⟩ : ∃ n, fuel = n + 1 + 1 := ⟨fuel - 2, by simp at hfuel; omega⟩
    have hlist : (",\n".intercalate ((x :: y :: ys).map (pad ++ quote ·))).toList ++ (close ++ ']' :: rest) =
        pad.toList ++ ((quote x).toList ++ (',' :: (['\n'] ++
          ((",\n".intercalate ((y :: ys).map (pad ++ quote ·))).toList ++ (close ++ ']' :: rest))))) := by
      simp [String.intercalate_cons_cons]
    rw [hlist, readItems_blanks _ hpad,
      readItems_more acc (readValue_quote fuel x _) (skipBlanks_cons (by decide) _),
      readItems_blanks _ (List.all_eq_true.mp (by decide)), ih y _ (by simp at hfuel ⊢; omega)]
    simp

end Lines

end Value

end RuleScan
