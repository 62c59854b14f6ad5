import RuleScan.Proofs.Evaluation.Merging
import RuleScan.Proofs.Regex.Openings
import RuleScan.Proofs.Text.Order

/-! The groups that textual clauses declare. They are found by a plain search for `(?<name>` in the text of the
expression, which knows neither escapes nor classes, and no names but those of letters from A to Z and a to z, numerals,
the low line and the dollar sign. Main statement: the clause declares the groups of its expression exactly if each name
that is found is that of a group which opens, and the name of each group which opens is found. -/
namespace RuleScan

namespace Regex

/-- The texts after the signs of named groups, wherever they stand. -/
def places : List Nat → List (List Nat)
  | [] => []
  | c :: rest => (afterSign? (c :: rest)).toList ++ places rest

def isPlain (n : Nat) : Bool := Textual.isNamePart (Char.ofNat n)

/-- The plain name between the sign of a named group and a closing bracket. -/
def plainName? : List Nat → Option String
  | [] => none
  | c :: rest =>
    if Textual.isNameStart (Char.ofNat c) ∧ (rest.dropWhile isPlain).head? = some (code '>') then
      some (String.ofList ((c :: rest.takeWhile isPlain).map Char.ofNat))
    else none

/-- The signs of named groups that plain names follow are those of the groups that open. -/
def PlainlyNamed (codes : List Nat) : Prop :=
  ∀ after ∈ places codes, after ∈ openings codes ↔ (plainName? after).isSome

instance : DecidablePred PlainlyNamed := fun _ => inferInstanceAs (Decidable (∀ _ ∈ _, _ ↔ _))

/-- The plain names after signs are those of the groups that open. -/
structure Matched (codes : List Nat) : Prop where
  opened : ∀ after ∈ places codes, ∀ name, plainName? after = some name →
    ∃ opening ∈ openings codes, nameAt? opening = some name
  plain : ∀ opening ∈ openings codes, ∃ after ∈ places codes, plainName? after = nameAt? opening

section Places

variable {c : Nat} {rest codes after : List Nat}

theorem afterSign?_eq_some (h : afterSign? codes = some after) :
    codes = code '(' :: code '?' :: code '<' :: after := by
  unfold afterSign? at h
  split at h
  · split at h
    · next hsign =>
      obtain ⟨rfl, rfl, rfl⟩ := hsign
      cases h
      rfl
    · cases h
  · cases h

theorem places_of_suffix {s t : List Nat} (h : s <:+ t) : (places s).Sublist (places t) := by
  induction t with
  | nil =>
    rw [List.suffix_nil.mp h]
  | cons c t ih =>
    obtain rfl | h := List.suffix_cons_iff.mp h
    · exact .refl _
    · exact (ih h).trans (List.sublist_append_right _ _)

theorem skipClass_suffix (cs : List Nat) : skipClass cs <:+ cs := by
  fun_induction skipClass cs with
  | case1 => exact List.suffix_refl _
  | case2 d rest ih => exact ih.trans ⟨[code '\\', d], rfl⟩
  | case3 => exact List.nil_suffix
  | case4 rest => exact List.suffix_cons _ _
  | case5 c rest hescape hend ih => exact ih.trans (List.suffix_cons _ _)

/-- Groups open at signs only. -/
theorem openings_sublist_places (codes : List Nat) : (openings codes).Sublist (places codes) := by
  fun_induction openings codes with
  | case1 => exact .refl []
  | case2 rest ih =>
    apply ih.trans
    exact places_of_suffix ((List.drop_suffix 1 rest).trans (List.suffix_cons _ _))
  | case3 rest hescape ih =>
    apply ih.trans
    exact places_of_suffix ((skipClass_suffix rest).trans (List.suffix_cons _ _))
  | case4 c rest hescape hclass ih =>
    apply List.Sublist.append ?_ ih
    cases afterSign? (c :: rest) with
    | none => exact .refl []
    | some after =>
      cases hnaming : isNaming after with
      | true => rw [Option.filter_some_pos hnaming]
      | false =>
        rw [Option.filter_some_neg hnaming]
        exact List.nil_sublist _

theorem length_of_mem_places (h : after ∈ places codes) : after.length + 3 ≤ codes.length := by
  induction codes with
  | nil => cases h
  | cons c rest ih =>
    obtain h | h := List.mem_append.mp h
    · rw [afterSign?_eq_some (Option.mem_toList.mp h)]
      exact Nat.le_refl _
    · exact Nat.le_succ_of_le (ih h)

/-- The texts get shorter from left to right. -/
theorem places_decreasing (codes : List Nat) : (places codes).Pairwise fun a b => b.length < a.length := by
  induction codes with
  | nil => exact .nil
  | cons c rest ih =>
    refine List.pairwise_append.mpr ⟨?_, ih, ?_⟩
    · cases afterSign? (c :: rest) with
      | none => exact .nil
      | some after => exact List.pairwise_singleton _ _
    · intro a ha b hb
      have hsign := congrArg List.length (afterSign?_eq_some (Option.mem_toList.mp ha))
      have hlater := length_of_mem_places hb
      simp only [List.length_cons] at hsign
      omega

/-- Where the signs of plain names are those of the groups that open, the plain names are the names of these. -/
theorem filterMap_plainName?_eq (h : PlainlyNamed codes) :
    (places codes).filterMap plainName? = (openings codes).filterMap plainName? := by
  have hopened : openings codes = (places codes).filter fun after => (plainName? after).isSome := by
    have hsublist := openings_sublist_places codes
    have hdecreasing := places_decreasing codes
    have hnodup : (places codes).Nodup := hdecreasing.imp fun hlt he => by
      rw [he] at hlt
      exact absurd hlt (Nat.lt_irrefl _)
    have hperm : (openings codes).Perm ((places codes).filter fun after => (plainName? after).isSome) := by
      refine (List.perm_ext_iff_of_nodup (hsublist.nodup hnodup) (hnodup.filter _)).mpr ?_
      intro after
      rw [List.mem_filter]
      constructor
      · intro hafter
        have hplace := hsublist.subset hafter
        exact ⟨hplace, (h after hplace).mp hafter⟩
      · rintro ⟨hplace, hplain⟩
        exact (h after hplace).mpr hplain
    refine hperm.eq_of_pairwise ?_ (hdecreasing.sublist hsublist) (hdecreasing.filter _)
    intro a b _ _ hab hba
    exact absurd hab (Nat.lt_asymm hba)
  rw [hopened, List.filterMap_filter]
  apply List.filterMap_congr
  intro after _
  cases plainName? after <;> rfl

end Places

section Plain

variable {n : Nat} {rest codes after : List Nat} {name : String}

theorem toNat_lt_of_isNamePart {c : Char} (h : Textual.isNamePart c = true) : c.toNat < 128 := by
  have hle : ∀ a b : Char, a ≤ b ↔ a.toNat ≤ b.toNat := fun _ _ => Iff.rfl
  simp only [Textual.isNamePart, Textual.isNameStart, Bool.or_eq_true, Bool.and_eq_true, decide_eq_true_eq, hle] at h
  rcases h with (((h | h) | rfl) | rfl) | h
  · exact Nat.lt_of_le_of_lt h.2 (by decide)
  · exact Nat.lt_of_le_of_lt h.2 (by decide)
  · decide
  · decide
  · exact Nat.lt_of_le_of_lt h.2 (by decide)

theorem lt_of_isPlain (h : isPlain n = true) : n < 128 := by
  have hsmall := toNat_lt_of_isNamePart h
  by_cases hvalid : n.isValidChar
  · have hchar : (Char.ofNat n).toNat = n := by
      rw [Char.ofNat, dif_pos hvalid]
      rfl
    rwa [hchar] at hsmall
  · have hzero : Char.ofNat n = '\x00' := by
      rw [Char.ofNat, dif_neg hvalid]
      rfl
    unfold isPlain at h
    rw [hzero] at h
    cases h

/-- Plain names are made of what groups can be named with. -/
theorem isIdPart_of_isPlain (h : isPlain n = true) : Text.isIdPart n = true := by
  have hall : ∀ m < 128, isPlain m = true → Text.isIdPart m = true := by decide +kernel
  exact hall n (lt_of_isPlain h) h

theorem isIdStart_of_isPlain (hplain : isPlain n = true) (h : Textual.isNameStart (Char.ofNat n) = true) :
    Text.isIdStart n = true := by
  have hall : ∀ m < 128, Textual.isNameStart (Char.ofNat m) = true → Text.isIdStart m = true := by decide
  exact hall n (lt_of_isPlain hplain) h

theorem nextPoint?_of_lt (h : n < 128) (rest : List Nat) : nextPoint? (n :: rest) = some (n, rest) := by
  have hhigh : isHighCode n = false := by
    simp only [isHighCode, Bool.and_eq_false_iff, decide_eq_false_iff_not]
    omega
  cases rest with
  | nil => rfl
  | cons d rest =>
    unfold nextPoint?
    dsimp only
    rw [hhigh]
    rfl

/-- A plain name is read up to the bracket that closes it. -/
theorem readName_plain {run : List Nat} {acc : List Char} {fuel : Nat} (hfuel : run.length < fuel)
    (hrun : ∀ m ∈ run, isPlain m = true) (hstart : acc = [] → ∃ m ∈ run.head?, Textual.isNameStart (Char.ofNat m) = true)
    (rest : List Nat) :
    readName fuel acc (run ++ code '>' :: rest) = .ok (String.ofList (acc.reverse ++ run.map Char.ofNat), rest) := by
  induction run generalizing acc fuel with
  | nil =>
    obtain ⟨fuel, rfl⟩ := Nat.exists_eq_add_one_of_ne_zero (Nat.ne_of_gt hfuel)
    have hacc : acc ≠ [] := fun he => by
      obtain ⟨m, hm, -⟩ := hstart he
      cases hm
    unfold readName
    rw [List.nil_append, nextPoint?_of_lt (by decide)]
    dsimp only
    rw [if_pos (by simpa using hacc), List.map_nil, List.append_nil]
  | cons n run ih =>
    obtain ⟨fuel, rfl⟩ := Nat.exists_eq_add_one_of_ne_zero (Nat.ne_zero_of_lt hfuel)
    obtain ⟨hn, hrun⟩ := List.forall_mem_cons.mp hrun
    have hordinary := ordinary_of_isIdPart (isIdPart_of_isPlain hn)
    have hclose : n ≠ code '>' := by
      rintro rfl
      cases hn
    have hfirst : (if acc.isEmpty then Text.isIdStart n else Text.isIdPart n) = true := by
      cases acc with
      | nil =>
        obtain ⟨m, hm, hname⟩ := hstart rfl
        cases hm
        exact isIdStart_of_isPlain hn hname
      | cons => exact isIdPart_of_isPlain hn
    unfold readName
    rw [List.cons_append, nextPoint?_of_lt (lt_of_isPlain hn)]
    dsimp only
    rw [if_neg (by simp [hclose]), if_neg hordinary.1, if_pos hfirst,
      ih (Nat.lt_of_succ_lt_succ hfuel) hrun (fun he => absurd he (List.cons_ne_nil _ _))]
    simp

/-- A plain name after a sign is the name that is read there. -/
theorem nameAt?_of_plainName? (h : plainName? after = some name) : nameAt? after = some name := by
  cases after with
  | nil => cases h
  | cons c rest =>
    obtain ⟨⟨hstart, hclose⟩, h⟩ | ⟨-, h⟩ := ite_eq_iff.mp h
    · obtain ⟨more, hmore⟩ := List.head?_eq_some_iff.mp hclose
      have hrest : c :: rest = c :: rest.takeWhile isPlain ++ code '>' :: more := by
        rw [List.cons_append, ← hmore, List.takeWhile_append_dropWhile]
      have hplain : ∀ m ∈ c :: rest.takeWhile isPlain, isPlain m = true := by
        refine List.forall_mem_cons.mpr ⟨?_, ?_⟩
        · unfold isPlain Textual.isNamePart
          rw [hstart]
          rfl
        · exact List.all_eq_true.mp List.all_takeWhile
      have hlength : (c :: rest.takeWhile isPlain).length < (c :: rest).length + 1 := by
        have hrun := (List.takeWhile_sublist (l := rest) isPlain).length_le
        simp only [List.length_cons]
        omega
      have hread : readName ((c :: rest).length + 1) [] (c :: rest.takeWhile isPlain ++ code '>' :: more) =
          .ok (String.ofList ((c :: rest.takeWhile isPlain).map Char.ofNat), more) :=
        readName_plain hlength hplain (fun _ => ⟨c, rfl, hstart⟩) more
      rw [← hrest] at hread
      rw [nameAt?, hread]
      exact h
    · cases h

end Plain

def charCodes (unicode : Bool) (c : Char) : List Nat :=
  if unicode then [c.toNat] else (Units.ofScalar c.toNat).map (·.toNat)

def codesOf (unicode : Bool) (cs : List Char) : List Nat := cs.flatMap (charCodes unicode)

section Characters

variable {unicode : Bool} {c d : Char} {cs rest name after : List Char} {codes : List Nat}

theorem sourceCodes_eq (unicode : Bool) (source : String) :
    sourceCodes unicode source = codesOf unicode source.toList := by
  cases unicode with
  | true =>
    show source.toList.map (·.toNat) = source.toList.flatMap fun c => [c.toNat]
    rw [List.map_eq_flatMap]
  | false =>
    have hunits := congrArg (List.map UInt16.toNat) (Units.toList_ofString source)
    rw [List.map_flatMap] at hunits
    exact hunits

theorem codesOf_cons (unicode : Bool) (c : Char) (rest : List Char) :
    codesOf unicode (c :: rest) = charCodes unicode c ++ codesOf unicode rest := List.flatMap_cons

/-- A character is one code, its own, or two beyond those of all signs. -/
theorem charCodes_cases (unicode : Bool) (c : Char) :
    charCodes unicode c = [c.toNat] ∨
      128 ≤ c.toNat ∧ ∃ hi lo, charCodes unicode c = [hi, lo] ∧ 128 ≤ hi ∧ 128 ≤ lo := by
  cases unicode with
  | true => exact .inl rfl
  | false =>
    have hvalid : c.toNat < 0x110000 := by
      have hc := c.valid
      unfold UInt32.isValidChar Nat.isValidChar at hc
      change c.val.toNat < 0x110000
      omega
    show (Units.ofScalar c.toNat).map (·.toNat) = _ ∨ _ ∧ ∃ hi lo, (Units.ofScalar c.toNat).map (·.toNat) = _ ∧ _
    unfold Units.ofScalar
    split
    · next hone =>
      left
      simp only [List.map_cons, List.map_nil, Nat.toUInt16, UInt16.toNat_ofNat']
      rw [Nat.mod_eq_of_lt hone]
    · next htwo =>
      right
      refine ⟨by omega, _, _, rfl, ?_, ?_⟩ <;>
        simp only [Nat.toUInt16, UInt16.toNat_ofNat'] <;> rw [Nat.mod_eq_of_lt (by omega)] <;> omega

theorem isPlain_toNat (c : Char) : isPlain c.toNat = Textual.isNamePart c := by
  rw [isPlain, Char.ofNat_toNat]

theorem isPlain_of_le {n : Nat} (h : 128 ≤ n) : isPlain n = false := by
  by_contra hplain
  have hsmall := lt_of_isPlain (Bool.not_eq_false _ ▸ hplain)
  omega

theorem isNamePart_of_le (h : 128 ≤ c.toNat) : Textual.isNamePart c = false := by
  rw [← isPlain_toNat]
  exact isPlain_of_le h

/-- The codes of a text start with that of a sign exactly if the text starts with it. -/
theorem codesOf_eq_cons (h : codesOf unicode cs = code d :: codes) (hd : code d < 128) :
    ∃ rest, cs = d :: rest ∧ codes = codesOf unicode rest := by
  cases cs with
  | nil => cases h
  | cons c rest =>
    rw [codesOf_cons] at h
    obtain hone | ⟨-, hi, lo, htwo, hhi, -⟩ := charCodes_cases unicode c
    · rw [hone] at h
      obtain ⟨hcode, hrest⟩ := List.cons.inj h
      have hc : c = d := Char.toNat_inj.mp hcode
      exact ⟨rest, by rw [hc], hrest.symm⟩
    · rw [htwo] at h
      have hcode := (List.cons.inj h).1
      omega

theorem takeWhile_codesOf (unicode : Bool) (cs : List Char) :
    ((codesOf unicode cs).takeWhile isPlain).map Char.ofNat = cs.takeWhile Textual.isNamePart ∧
      (codesOf unicode cs).dropWhile isPlain = codesOf unicode (cs.dropWhile Textual.isNamePart) := by
  induction cs with
  | nil => exact ⟨rfl, rfl⟩
  | cons c rest ih =>
    rw [codesOf_cons]
    obtain hone | ⟨hc, hi, lo, htwo, hhi, -⟩ := charCodes_cases unicode c
    · rw [hone, List.singleton_append, List.takeWhile_cons, List.dropWhile_cons, List.takeWhile_cons,
        List.dropWhile_cons, isPlain_toNat]
      split_ifs
      · rw [List.map_cons, ih.1, ih.2, Char.ofNat_toNat]
        exact ⟨rfl, rfl⟩
      · rw [codesOf_cons, hone]
        exact ⟨rfl, rfl⟩
    · have hplain := isPlain_of_le hhi
      have hpart := isNamePart_of_le hc
      have hstop : ¬Textual.isNamePart c = true := by simp [hpart]
      rw [List.takeWhile_cons_of_neg hstop, List.dropWhile_cons_of_neg hstop, codesOf_cons, htwo, List.cons_append,
        List.takeWhile_cons_of_neg (by simp [hplain]), List.dropWhile_cons_of_neg (by simp [hplain])]
      exact ⟨rfl, rfl⟩

theorem head?_codesOf_iff (hd : code d < 128) : (codesOf unicode cs).head? = some (code d) ↔ cs.head? = some d := by
  constructor
  · intro h
    obtain ⟨codes, hcodes⟩ := List.head?_eq_some_iff.mp h
    obtain ⟨rest, rfl, -⟩ := codesOf_eq_cons hcodes hd
    rfl
  · intro h
    obtain ⟨rest, rfl⟩ := List.head?_eq_some_iff.mp h
    rw [codesOf_cons]
    obtain hone | ⟨hlarge, -⟩ := charCodes_cases unicode d
    · rw [hone]
      rfl
    · exact absurd hd (Nat.not_lt.mpr hlarge)

theorem map_groupName?_sign (c : Char) (rest : List Char) :
    (Textual.groupName? ('(' :: '?' :: '<' :: c :: rest)).map (·.1) =
      if Textual.isNameStart c ∧ (rest.dropWhile Textual.isNamePart).head? = some '>' then
        some (c :: rest.takeWhile Textual.isNamePart)
      else none := by
  rw [Textual.groupName?]
  by_cases hstart : Textual.isNameStart c = true
  · rw [if_pos hstart]
    split
    · next after hclose =>
      rw [if_pos ⟨hstart, by rw [hclose]; rfl⟩]
      rfl
    · next hother =>
      rw [if_neg]
      · rfl
      · rintro ⟨-, hclose⟩
        obtain ⟨after, hafter⟩ := List.head?_eq_some_iff.mp hclose
        exact hother after hafter
  · rw [if_neg hstart, if_neg fun h => hstart h.1]
    rfl

/-- Searching the characters after a sign for a plain name is searching their codes. -/
theorem plainName?_codesOf (unicode : Bool) (cs : List Char) :
    plainName? (codesOf unicode cs) =
      ((Textual.groupName? ('(' :: '?' :: '<' :: cs)).map (·.1)).map String.ofList := by
  cases cs with
  | nil => rfl
  | cons c rest =>
    obtain ⟨htake, hdrop⟩ := takeWhile_codesOf unicode rest
    rw [map_groupName?_sign, codesOf_cons]
    obtain hone | ⟨hc, hi, lo, htwo, hhi, -⟩ := charCodes_cases unicode c
    · have hclose : (codesOf unicode (rest.dropWhile Textual.isNamePart)).head? = some (code '>') ↔
          (rest.dropWhile Textual.isNamePart).head? = some '>' := head?_codesOf_iff (by decide)
      rw [hone, List.singleton_append, plainName?, List.map_cons, htake, hdrop, Char.ofNat_toNat,
        apply_ite (Option.map String.ofList)]
      simp only [hclose, Option.map_some, Option.map_none]
    · have hstart : ¬Textual.isNameStart c = true := by
        intro h
        have hpart := isNamePart_of_le hc
        rw [Textual.isNamePart, h] at hpart
        cases hpart
      have hother : ¬Textual.isNameStart (Char.ofNat hi) = true := by
        intro h
        have hpart := isPlain_of_le hhi
        rw [isPlain, Textual.isNamePart, h] at hpart
        cases hpart
      rw [htwo, List.cons_append, plainName?, if_neg fun h => hother h.1, if_neg fun h => hstart h.1]
      rfl

theorem afterSign?_codesOf (unicode : Bool) (cs : List Char) :
    afterSign? (codesOf unicode ('(' :: '?' :: '<' :: cs)) = some (codesOf unicode cs) := by
  cases unicode <;> rfl

theorem groupName?_eq_some (h : Textual.groupName? cs = some (name, after)) :
    cs = '(' :: '?' :: '<' :: (name ++ '>' :: after) ∧ ∀ d ∈ name, Textual.isNamePart d = true := by
  unfold Textual.groupName? at h
  split at h
  · next c rest =>
    split at h
    · next hstart =>
      split at h
      · next after' hclose =>
        cases h
        refine ⟨?_, List.forall_mem_cons.mpr ⟨?_, List.all_eq_true.mp List.all_takeWhile⟩⟩
        · rw [List.cons_append, ← hclose, List.takeWhile_append_dropWhile]
        · unfold Textual.isNamePart
          rw [hstart]
          rfl
      · cases h
    · cases h
  · cases h

/-- A sign with a plain name stands in a text where it stands in its codes. -/
theorem bind_plainName?_codesOf (unicode : Bool) (cs : List Char) :
    (afterSign? (codesOf unicode cs)).bind plainName? =
      ((Textual.groupName? cs).map (·.1)).map String.ofList := by
  cases hsign : afterSign? (codesOf unicode cs) with
  | some after =>
    obtain ⟨_, rfl, h₁⟩ := codesOf_eq_cons (afterSign?_eq_some hsign) (by decide)
    obtain ⟨_, rfl, h₂⟩ := codesOf_eq_cons h₁.symm (by decide)
    obtain ⟨rest, rfl, rfl⟩ := codesOf_eq_cons h₂.symm (by decide)
    exact plainName?_codesOf unicode rest
  | none =>
    cases hname : Textual.groupName? cs with
    | none => rfl
    | some x =>
      obtain ⟨rfl, -⟩ := groupName?_eq_some hname
      rw [afterSign?_codesOf] at hsign
      cases hsign

/-- The names found from a character on are the one that starts there and those found after it. -/
theorem filterMap_places_cons (unicode : Bool) (c : Char) (rest : List Char) :
    (places (codesOf unicode (c :: rest))).filterMap plainName? =
      (((Textual.groupName? (c :: rest)).map (·.1)).map String.ofList).toList ++
        (places (codesOf unicode rest)).filterMap plainName? := by
  have hhead (sign : Option (List Nat)) : sign.toList.filterMap plainName? = (sign.bind plainName?).toList := by
    cases sign with
    | none => rfl
    | some after =>
      rw [Option.toList_some, List.filterMap_cons, Option.bind_some]
      cases plainName? after <;> rfl
  rw [← bind_plainName?_codesOf unicode, codesOf_cons, ← hhead]
  obtain hone | ⟨hc, hi, lo, htwo, hhi, hlo⟩ := charCodes_cases unicode c
  · rw [hone, List.singleton_append, places, List.filterMap_append]
  · have hne {n : Nat} (hn : 128 ≤ n) : n ≠ code '(' := by
      rintro rfl
      exact absurd hn (by decide)
    rw [htwo, List.cons_append, List.cons_append, List.nil_append, places, places, afterSign?_of_ne (hne hhi),
      afterSign?_of_ne (hne hlo)]
    rfl

/-- No name is found within a stretch without parentheses. -/
theorem filterMap_places_append (unicode : Bool) {run : List Char} (h : ∀ d ∈ run, d ≠ '(') (after : List Char) :
    (places (codesOf unicode (run ++ after))).filterMap plainName? =
      (places (codesOf unicode after)).filterMap plainName? := by
  induction run with
  | nil => rfl
  | cons d run ih =>
    obtain ⟨hd, hrun⟩ := List.forall_mem_cons.mp h
    rw [List.cons_append, filterMap_places_cons, ih hrun]
    cases hname : Textual.groupName? (d :: (run ++ after)) with
    | none => rfl
    | some x => exact absurd (List.cons.inj (groupName?_eq_some hname).1).1 hd

/-- The names that a clause declares are the plain names after signs, wherever they stand. -/
theorem groupNames_eq (unicode : Bool) (source : String) :
    Textual.groupNames source = (places (sourceCodes unicode source)).filterMap plainName? := by
  have hfrom : ∀ (fuel : Nat) (cs : List Char), cs.length ≤ fuel →
      Textual.groupNamesFrom fuel cs = (places (codesOf unicode cs)).filterMap plainName? := by
    intro fuel
    induction fuel with
    | zero =>
      intro cs hfuel
      rw [List.length_eq_zero_iff.mp (Nat.le_zero.mp hfuel)]
      rfl
    | succ fuel ih =>
      intro cs hfuel
      cases cs with
      | nil => rfl
      | cons c rest =>
        have hrest : rest.length ≤ fuel := Nat.le_of_succ_le_succ hfuel
        rw [Textual.groupNamesFrom, filterMap_places_cons]
        cases hname : Textual.groupName? (c :: rest) with
        | none => exact ih rest hrest
        | some x =>
          obtain ⟨name, after⟩ := x
          -- The search goes on behind the name, in which no other can start.
          obtain ⟨hsign, hparts⟩ := groupName?_eq_some hname
          obtain ⟨-, rfl⟩ := List.cons.inj hsign
          have hrun : ∀ d ∈ '?' :: '<' :: (name ++ ['>']), d ≠ '(' := by
            simp only [List.mem_cons, List.mem_append, List.not_mem_nil, or_false]
            rintro d (rfl | rfl | hd | rfl)
            · decide
            · decide
            · rintro rfl
              cases hparts '(' hd
            · decide
          have hskip := filterMap_places_append unicode hrun after
          simp only [List.cons_append, List.append_assoc, List.nil_append] at hskip
          simp only [List.length_cons, List.length_append] at hrest
          rw [hskip, ← ih after (by omega)]
          rfl
  rw [sourceCodes_eq]
  exact hfrom _ _ (Nat.le_refl _)

end Characters

section Agreement

variable {source word name : String} {p : Program}

theorem mem_groupNames_iff (unicode : Bool) :
    name ∈ Textual.groupNames source ↔ ∃ after ∈ places (sourceCodes unicode source), plainName? after = some name := by
  rw [groupNames_eq unicode, List.mem_filterMap]

theorem mem_names_iff (h : compile source word = .ok p) :
    name ∈ p.names.map (·.1) ↔
      ∃ opening ∈ openings (sourceCodes p.flags.codePoints source), nameAt? opening = some name := by
  have hnames : name ∈ p.names.map (·.1) ↔ some name ∈ p.names.map fun x => some x.1 := by
    simp only [List.mem_map, Option.some.injEq]
  rw [hnames, names_of_compile h, List.mem_map]

theorem groupNames_eq_of_plainlyNamed (h : compile source word = .ok p)
    (hplain : PlainlyNamed (sourceCodes p.flags.codePoints source)) :
    Textual.groupNames source = p.names.map (·.1) := by
  have hread : (openings (sourceCodes p.flags.codePoints source)).map plainName? = p.names.map fun x => some x.1 := by
    rw [names_of_compile h]
    apply List.map_congr_left
    intro opening hopening
    have hplace := (openings_sublist_places _).subset hopening
    obtain ⟨name, hname⟩ := Option.isSome_iff_exists.mp ((hplain opening hplace).mp hopening)
    rw [hname, nameAt?_of_plainName? hname]
  have hsome := congrArg (List.filterMap id) hread
  rw [List.filterMap_map, List.filterMap_map] at hsome
  rw [groupNames_eq p.flags.codePoints, filterMap_plainName?_eq hplain]
  exact hsome.trans (congrFun List.filterMap_eq_map' p.names)

theorem declares_iff_matched (h : compile source word = .ok p) :
    (∀ name, name ∈ Textual.groupNames source ↔ name ∈ p.names.map (·.1)) ↔
      Matched (sourceCodes p.flags.codePoints source) := by
  constructor
  · intro hsame
    constructor
    · intro after hafter name hname
      apply (mem_names_iff h).mp
      apply (hsame name).mp
      exact (mem_groupNames_iff p.flags.codePoints).mpr ⟨after, hafter, hname⟩
    · intro opening hopening
      have hname : nameAt? opening ∈ p.names.map fun x => some x.1 := by
        rw [names_of_compile h]
        exact List.mem_map_of_mem hopening
      obtain ⟨x, hx, hname⟩ := List.mem_map.mp hname
      rw [← hname]
      apply (mem_groupNames_iff p.flags.codePoints).mp
      exact (hsame x.1).mpr (List.mem_map_of_mem hx)
  · intro hmatched name
    rw [mem_groupNames_iff p.flags.codePoints, mem_names_iff h]
    constructor
    · rintro ⟨after, hafter, hname⟩
      exact hmatched.opened after hafter name hname
    · rintro ⟨opening, hopening, hname⟩
      obtain ⟨after, hafter, hplain⟩ := hmatched.plain opening hopening
      exact ⟨after, hafter, hplain.trans hname⟩

theorem nodup_groups (h : compile source word = .ok p) {text : Units} {found : Found} (hfound : found ∈ p.all text)
    (lines : LineIndex) : Bindings.Unique (Textual.groups text lines found) := by
  rw [Bindings.Unique, Textual.map_fst_groups]
  exact (named_of_compile h).1.sublist (Program.sublist_of_mem_all hfound)

/-- The record of a match answers with the groups that took part, also with the one that is its base. -/
theorem meaning_eq_node_iff_mem_groups (h : compile source word = .ok p) {text : Units} {found : Found}
    (hfound : found ∈ p.all text) {lines : LineIndex} {b : Bindings} {base : Option Node}
    (hrecord : Textual.bindings text lines found = .ok (b, base)) {name : String} {n : Node} :
    b.meaning name base = .node n ↔ (name, n) ∈ Textual.groups text lines found := by
  have hunique := nodup_groups h hfound lines
  have hnames := hunique
  rw [Bindings.Unique, Textual.map_fst_groups] at hnames
  obtain ⟨rfl, rfl⟩ := Textual.bindings_eq_ok hnames hrecord
  have hkept : Bindings.Unique ((Textual.groups text lines found).filter (·.1 != Bindings.baseName)) :=
    hunique.sublist (List.filter_sublist.map _)
  rw [Bindings.meaning_eq_node_or, hkept.lookup_eq_some_iff, hunique.lookup_eq_some_iff, List.mem_filter]
  constructor
  · rintro (⟨hmem, -⟩ | ⟨-, hmem, rfl⟩)
    · exact hmem
    · exact hmem
  · intro hmem
    by_cases hname : name = Bindings.baseName
    · refine .inr ⟨Bindings.lookup_eq_none_iff.mpr fun x hx => ?_, hname ▸ hmem, hname⟩
      rw [hname]
      exact bne_iff_ne.mp (List.mem_filter.mp hx).2
    · exact .inl ⟨hmem, bne_iff_ne.mpr hname⟩

/-- What a textual clause declares. The named groups of an expression are those that open in its text outside escapes
and classes, each under the name that is read there. A match answers with the nodes of those of them that took part and
with no others, if it can be recorded: after the base of the record no group can be bound that is named as a member of a
node. The clause declares just the names of the groups exactly if the plain names that stand after signs anywhere are
those of the groups that open; if besides these signs are those of the groups, it declares them in their order. -/
theorem declared_groups_iff (h : compile source word = .ok p) :
    let codes := sourceCodes p.flags.codePoints source
    (p.names.map fun x => some x.1) = (openings codes).map nameAt? ∧
      (∀ text, ∀ found ∈ p.all text, ∀ lines,
        ((Textual.groups text lines found).map (·.1)).Sublist (p.names.map (·.1)) ∧
        ((∃ record, Textual.bindings text lines found = .ok record) ↔
          ∀ before node after, Textual.groups text lines found = before ++ (Bindings.baseName, node) :: after →
            ∀ x ∈ after, x.1 ∉ Bindings.memberNames) ∧
        ∀ b base, Textual.bindings text lines found = .ok (b, base) → ∀ name node,
          b.meaning name base = .node node ↔ (name, node) ∈ Textual.groups text lines found) ∧
      ((∀ name, name ∈ Textual.groupNames source ↔ name ∈ p.names.map (·.1)) ↔ Matched codes) ∧
      (PlainlyNamed codes → Textual.groupNames source = p.names.map (·.1)) := by
  refine ⟨names_of_compile h, fun text found hfound lines => ⟨?_, Textual.exists_bindEach_none_iff, ?_⟩,
    declares_iff_matched h, groupNames_eq_of_plainlyNamed h⟩
  · rw [Textual.map_fst_groups]
    exact Program.sublist_of_mem_all hfound
  · intro b base hrecord name node
    exact meaning_eq_node_iff_mem_groups h hfound hrecord

/-- The group `year` is declared and bound; the escaped parenthesis does not open one. -/
theorem declared_groups_year :
    ∃ p, compile "\\((?<year>x)" "dg" = .ok p ∧ Textual.groupNames "\\((?<year>x)" = p.names.map (·.1) ∧
      (p.all (Units.ofString "(x")).map (·.named) = [[("year", 1, 2)]] := by
  have hread : (compile "\\((?<year>x)" "dg").map (fun p => (p.flags.codePoints, (p.all (Units.ofString "(x")).map
      (·.named))) = .ok (false, [[("year", 1, 2)]]) := by decide +kernel
  obtain ⟨p, hp, hfound⟩ := Query.map_eq_ok.mp hread
  obtain ⟨hunits, hfound⟩ := Prod.mk.inj hfound
  obtain ⟨-, -, -, hplain⟩ := declared_groups_iff hp
  have hnamed : PlainlyNamed (sourceCodes false "\\((?<year>x)") := by decide +kernel
  rw [hunits] at hplain
  exact ⟨p, hp, hplain hnamed, hfound⟩

/-- The escaped parenthesis of `\(?<esc>x` opens no group, but the clause declares `esc`. The group of `(?<é>x)` is bound,
but the clause does not declare it. -/
theorem escaped_declared_accented_missed :
    (∃ p, compile "\\(?<esc>x" "dg" = .ok p ∧ p.names = [] ∧ Textual.groupNames "\\(?<esc>x" = ["esc"]) ∧
      ∃ p, compile "(?<é>x)" "dg" = .ok p ∧ (p.all (Units.ofString "x")).map (·.named) = [[("é", 0, 1)]] ∧
        Textual.groupNames "(?<é>x)" = [] := by
  have hescaped : (compile "\\(?<esc>x" "dg").map (·.names) = .ok [] := by decide +kernel
  have haccented : (compile "(?<é>x)" "dg").map (fun p => (p.all (Units.ofString "x")).map (·.named)) =
      .ok [[("é", 0, 1)]] := by decide +kernel
  obtain ⟨p, hp, hnames⟩ := Query.map_eq_ok.mp hescaped
  obtain ⟨q, hq, hfound⟩ := Query.map_eq_ok.mp haccented
  exact ⟨⟨p, hp, hnames, by decide⟩, q, hq, hfound, by decide⟩

end Agreement

end Regex

end RuleScan
