import Mathlib.Data.List.Perm.Basic
import Mathlib.Data.Set.Function
import RuleScan.Proofs.Number.Texts
import RuleScan.Proofs.Text.Order
import RuleScan.Proofs.Value.Members
import RuleScan.Proofs.Value.Quoting

/-! Canonical text. The text of a value on one line can be read back wherever it stands, as far as its numbers can, and
the canonical text is that of the value with all its objects sorted. So it tells values apart up to the order of the
members of their objects, and this order only. -/
namespace RuleScan

namespace Value

/-- One value stands somewhere in another. -/
inductive Within (u : Value) : Value → Prop where
  | self : Within u u
  | item {v : Value} {items : List Value} (hmem : v ∈ items) (h : Within u v) : Within u (.arr items)
  | member {p : String × Value} {ms : Members} (hmem : p ∈ ms) (h : Within u p.2) : Within u (.obj ms)

/-- No object in the value has a key twice. -/
def DistinctKeys (v : Value) : Prop := ∀ ms : Members, Within (.obj ms) v → ms.keys.Nodup

def numbers (v : Value) : Set Number := {x | Within (.num x) v}

/-- The numbers are finite, and no two of them have the same text. -/
def PrintedApart (xs : Set Number) : Prop := (∀ x ∈ xs, ∃ d, x = .finite d) ∧ Set.InjOn numberText xs

/-- Values that are equal up to the order of the members of objects, at every level. -/
inductive Reordered : Value → Value → Prop where
  | refl (v : Value) : Reordered v v
  | item {v w : Value} {vs ws : List Value} (head : Reordered v w) (tail : Reordered (.arr vs) (.arr ws)) :
    Reordered (.arr (v :: vs)) (.arr (w :: ws))
  | member {v w : Value} {ms ns : Members} (key : String) (head : Reordered v w)
    (tail : Reordered (.obj ms) (.obj ns)) : Reordered (.obj ((key, v) :: ms)) (.obj ((key, w) :: ns))
  | order {ms ns : Members} {w : Value} (hperm : ms.Perm ns) (h : Reordered (.obj ns) w) : Reordered (.obj ms) w

/-- What holds of values if it holds of their parts. -/
@[elab_as_elim]
theorem byParts {P : Value → Prop} (null : P .null) (bool : ∀ b, P (.bool b)) (num : ∀ x, P (.num x))
    (str : ∀ s, P (.str s)) (arr : ∀ items, (∀ v ∈ items, P v) → P (.arr items))
    (obj : ∀ ms : Members, (∀ p ∈ ms, P p.2) → P (.obj ms)) : ∀ v, P v
  | .null => null
  | .bool b => bool b
  | .num x => num x
  | .str s => str s
  | .arr items => arr items fun v _ => byParts null bool num str arr obj v
  | .obj ms => obj ms fun p _ => byParts null bool num str arr obj p.2
  termination_by v => sizeOf v
  decreasing_by
  · have hlt := List.sizeOf_lt_of_mem ‹v ∈ items›
    simp only [Value.arr.sizeOf_spec]
    omega
  · have hlt := List.sizeOf_lt_of_mem ‹p ∈ ms›
    cases p
    simp only [Value.obj.sizeOf_spec, Prod.mk.sizeOf_spec] at hlt ⊢
    omega

theorem compactItems_eq_map (items : List Value) : compactItems items = items.map compact := by
  induction items with
  | nil => rfl
  | cons v vs ih => rw [compactItems, ih, List.map_cons]

def memberText (p : String × Value) : String := quote p.1 ++ ":" ++ compact p.2

theorem toList_memberText (p : String × Value) :
    (memberText p).toList = (quote p.1).toList ++ ':' :: (compact p.2).toList := by
  simp [memberText]

theorem compactMembers_eq_map (ms : Members) : compactMembers ms = ms.map memberText := by
  induction ms with
  | nil => rfl
  | cons p ms ih => rw [compactMembers, ih, List.map_cons, memberText]

section Reading

/-- The text of a number does not go on here. -/
def Ends (rest : List Char) : Prop := ∀ c ∈ rest.head?, Number.isTextChar c = false

/-- Whatever follows them, the texts tell the two apart and can be told from what follows. -/
def Legible {α : Type} (text : α → String) (a b : α) : Prop :=
  ∀ r s, Ends r → Ends s → (text a).toList ++ r = (text b).toList ++ s → a = b ∧ r = s

theorem ends_cons {c : Char} (h : Number.isTextChar c = false) (rest : List Char) : Ends (c :: rest) := by
  simp [Ends, h]

theorem legible_of_spelt {α : Type} {text : α → String} {a b : α} (ha : Number.Spelt (text a))
    (hb : Number.Spelt (text b)) (hinj : text a = text b → a = b) : Legible text a b := by
  intro r s hr hs he
  have hread {x : α} {rest : List Char} (hx : Number.Spelt (text x)) (hrest : Ends rest) :
      ((text x).toList ++ rest).takeWhile Number.isTextChar = (text x).toList := by
    rw [List.takeWhile_append_of_pos hx.2]
    cases rest with
    | nil => simp
    | cons c rest => simp [hrest c rfl]
  have htext : (text a).toList = (text b).toList := by rw [← hread ha hr, he, hread hb hs]
  refine ⟨hinj (String.toList_injective htext), ?_⟩
  rw [htext] at he
  exact List.append_cancel_left he

theorem legible_quote (s t : String) : Legible quote s t := by
  intro r r' _ _ he
  simp only [toList_quote, List.cons_append, List.append_assoc, List.nil_append, List.cons.injEq, true_and] at he
  have hread := readString_quoted s r
  rw [he, readString_quoted, Option.some.injEq, Prod.mk.injEq] at hread
  exact ⟨hread.1.symm, hread.2.symm⟩

theorem toList_intercalate_cons (t : String) (ts : List String) :
    (",".intercalate (t :: ts)).toList = t.toList ++ ts.flatMap fun u => ',' :: u.toList := by
  induction ts generalizing t with
  | nil => simp
  | cons u us ih => simp [String.intercalate_cons_cons, ih]

variable {α : Type} {text : α → String} {close : Char}

/-- Texts that each follow a comma, up to a closing sign. -/
theorem legible_commas (hclose : Number.isTextChar close = false) (hcomma : close ≠ ',') {as bs : List α}
    (h : ∀ a ∈ as, ∀ b ∈ bs, Legible text a b) {r s : List Char}
    (he : as.flatMap (fun a => ',' :: (text a).toList) ++ close :: r =
      bs.flatMap (fun b => ',' :: (text b).toList) ++ close :: s) : as = bs ∧ r = s := by
  have hends (cs : List α) (rest : List Char) :
      Ends (cs.flatMap (fun c => ',' :: (text c).toList) ++ close :: rest) := by
    cases cs with
    | nil => exact ends_cons hclose _
    | cons c cs => exact ends_cons (by decide) _
  induction as generalizing bs with
  | nil =>
    cases bs with
    | nil => simpa using he
    | cons b bs => exact absurd (List.head_eq_of_cons_eq he) hcomma
  | cons a as ih =>
    cases bs with
    | nil => exact absurd (List.head_eq_of_cons_eq he).symm hcomma
    | cons b bs =>
      simp only [List.flatMap_cons, List.cons_append, List.append_assoc, List.cons.injEq, true_and] at he
      obtain ⟨rfl, hrest⟩ := h a List.mem_cons_self b List.mem_cons_self _ _ (hends as r) (hends bs s) he
      obtain ⟨rfl, rfl⟩ := ih (fun a ha b hb => h a (List.mem_cons_of_mem _ ha) b (List.mem_cons_of_mem _ hb)) hrest
      exact ⟨rfl, rfl⟩

/-- Texts with commas between them, up to a closing sign that none of them starts with. -/
theorem legible_list (hclose : Number.isTextChar close = false) (hcomma : close ≠ ',') {as bs : List α}
    (h : ∀ a ∈ as, ∀ b ∈ bs, Legible text a b) (has : ∀ a ∈ as, ∃ c cs, (text a).toList = c :: cs ∧ c ≠ close)
    (hbs : ∀ b ∈ bs, ∃ c cs, (text b).toList = c :: cs ∧ c ≠ close) {r s : List Char}
    (he : (",".intercalate (as.map text)).toList ++ close :: r =
      (",".intercalate (bs.map text)).toList ++ close :: s) : as = bs ∧ r = s := by
  cases as with
  | nil =>
    cases bs with
    | nil => simpa using he
    | cons b bs =>
      obtain ⟨c, cs, hc, hne⟩ := hbs b List.mem_cons_self
      rw [List.map_cons, toList_intercalate_cons, hc] at he
      exact absurd (List.head_eq_of_cons_eq he).symm hne
  | cons a as =>
    cases bs with
    | nil =>
      obtain ⟨c, cs, hc, hne⟩ := has a List.mem_cons_self
      rw [List.map_cons, toList_intercalate_cons, hc] at he
      exact absurd (List.head_eq_of_cons_eq he) hne
    | cons b bs =>
      rw [List.map_cons, List.map_cons, toList_intercalate_cons, toList_intercalate_cons] at he
      have hcommas := congrArg (',' :: ·) he
      simp only [List.flatMap_map, ← List.cons_append] at hcommas
      exact legible_commas hclose hcomma h hcommas

/-- The kind of value whose text starts with the sign. -/
def kindOfSign (c : Char) : String :=
  if Number.isTextChar c then "number"
  else if c = 'n' then "null"
  else if c = 't' ∨ c = 'f' then "boolean"
  else if c = '"' then "string"
  else if c = '[' then "array"
  else if c = '\x7b' then "object"
  else "undefined"

variable {xs : Set Number} {v w : Value}

theorem exists_sign (hxs : PrintedApart xs) (hv : v.numbers ⊆ xs) :
    ∃ c cs, (compact v).toList = c :: cs ∧ kindOfSign c = v.kindWord := by
  cases v with
  | null => exact ⟨_, _, rfl, rfl⟩
  | bool b => cases b <;> exact ⟨_, _, rfl, rfl⟩
  | num x =>
    obtain ⟨d, rfl⟩ := hxs.1 x (hv .self)
    obtain ⟨hne, hall⟩ := Number.spelt_render d
    obtain ⟨c, cs, hc⟩ := List.exists_cons_of_ne_nil hne
    exact ⟨c, cs, hc, if_pos (hall c (by rw [hc]; exact List.mem_cons_self))⟩
  | str s => exact ⟨_, _, toList_quote s, rfl⟩
  | arr items => exact ⟨'[', _, by rw [compact, String.toList_append, String.toList_append]; rfl, rfl⟩
  | obj ms => exact ⟨'\x7b', _, by rw [compact, String.toList_append, String.toList_append]; rfl, rfl⟩

/-- No text starts with a sign that closes a list. -/
theorem exists_sign_ne (hxs : PrintedApart xs) (hv : v.numbers ⊆ xs) {close : Char}
    (hclose : kindOfSign close = "undefined") : ∃ c cs, (compact v).toList = c :: cs ∧ c ≠ close := by
  obtain ⟨c, cs, hc, hkind⟩ := exists_sign hxs hv
  refine ⟨c, cs, hc, ?_⟩
  rintro rfl
  rw [hclose] at hkind
  cases v <;> simp [kindWord] at hkind

theorem legible_of_kindWord_ne (hxs : PrintedApart xs) (hv : v.numbers ⊆ xs) (hw : w.numbers ⊆ xs)
    (hne : v.kindWord ≠ w.kindWord) : Legible compact v w := by
  intro r s _ _ he
  obtain ⟨c, cs, hc, hkind⟩ := exists_sign hxs hv
  obtain ⟨d, ds, hd, hkind'⟩ := exists_sign hxs hw
  rw [hc, hd] at he
  rw [← hkind, ← hkind', List.head_eq_of_cons_eq he] at hne
  exact absurd rfl hne

theorem legible_memberText {p q : String × Value} (h : Legible compact p.2 q.2) : Legible memberText p q := by
  intro r s hr hs he
  rw [toList_memberText, toList_memberText, List.append_assoc, List.append_assoc] at he
  obtain ⟨hkey, he⟩ := legible_quote _ _ _ _ (ends_cons (by decide) _) (ends_cons (by decide) _) he
  obtain ⟨hvalue, rfl⟩ := h r s hr hs (List.cons.inj he).2
  exact ⟨Prod.ext hkey hvalue, rfl⟩

/-- Texts on one line tell values apart, whatever follows. -/
theorem legible_compact (hxs : PrintedApart xs) (hv : v.numbers ⊆ xs) (hw : w.numbers ⊆ xs) : Legible compact v w := by
  induction v using byParts generalizing w with
  | null =>
    cases w with
    | null => exact fun r s _ _ he => ⟨rfl, List.append_cancel_left he⟩
    | _ => exact legible_of_kindWord_ne hxs hv hw (by simp [kindWord])
  | bool b =>
    cases w with
    | bool b' =>
      intro r s _ _ he
      cases b <;> cases b' <;> simp [compact] at he
      · exact ⟨rfl, he⟩
      · exact ⟨rfl, he⟩
    | _ => exact legible_of_kindWord_ne hxs hv hw (by simp [kindWord])
  | num x =>
    cases w with
    | num y =>
      obtain ⟨d, rfl⟩ := hxs.1 x (hv .self)
      obtain ⟨d', rfl⟩ := hxs.1 y (hw .self)
      exact legible_of_spelt (Number.spelt_render d) (Number.spelt_render d')
        fun he => congrArg num (hxs.2 (hv .self) (hw .self) he)
    | _ => exact legible_of_kindWord_ne hxs hv hw (by simp [kindWord])
  | str s =>
    cases w with
    | str t =>
      intro r r' hr hr' he
      obtain ⟨rfl, rfl⟩ := legible_quote s t r r' hr hr' he
      exact ⟨rfl, rfl⟩
    | _ => exact legible_of_kindWord_ne hxs hv hw (by simp [kindWord])
  | arr vs ih =>
    cases w with
    | arr ws =>
      have hitem {items : List Value} (h : (arr items).numbers ⊆ xs) (u : Value) (hu : u ∈ items) : u.numbers ⊆ xs :=
        fun x hx => h (.item hu hx)
      intro r s _ _ he
      simp only [compact, compactItems_eq_map, String.toList_append, List.append_assoc] at he
      obtain ⟨rfl, rfl⟩ := legible_list (show Number.isTextChar ']' = false by decide) (by decide)
        (fun u hu u' hu' => ih u hu (hitem hv u hu) (hitem hw u' hu'))
        (fun u hu => exists_sign_ne hxs (hitem hv u hu) (by decide))
        (fun u hu => exists_sign_ne hxs (hitem hw u hu) (by decide)) (List.append_cancel_left he)
      exact ⟨rfl, rfl⟩
    | _ => exact legible_of_kindWord_ne hxs hv hw (by simp [kindWord])
  | obj ms ih =>
    cases w with
    | obj ns =>
      have hmember {ms : Members} (h : (obj ms).numbers ⊆ xs) (p : String × Value) (hp : p ∈ ms) : p.2.numbers ⊆ xs :=
        fun x hx => h (.member hp hx)
      have hopens (p : String × Value) : ∃ c cs, (memberText p).toList = c :: cs ∧ c ≠ '\x7d' :=
        ⟨'"', _, by rw [toList_memberText, toList_quote]; rfl, by decide⟩
      intro r s _ _ he
      simp only [compact, compactMembers_eq_map, String.toList_append, List.append_assoc] at he
      obtain ⟨rfl, rfl⟩ := legible_list (show Number.isTextChar '\x7d' = false by decide) (by decide)
        (fun p hp q hq => legible_memberText (ih p hp (hmember hv p hp) (hmember hw q hq)))
        (fun p _ => hopens p) (fun p _ => hopens p) (List.append_cancel_left he)
      exact ⟨rfl, rfl⟩
    | _ => exact legible_of_kindWord_ne hxs hv hw (by simp [kindWord])

theorem compact_inj (h : PrintedApart (v.numbers ∪ w.numbers)) (he : compact v = compact w) : v = w := by
  have hends : Ends [] := nofun
  exact (legible_compact h Set.subset_union_left Set.subset_union_right [] [] hends hends (by rw [he])).1

end Reading

section Sorting

def inOrder (ms : Members) : Members := ms.mergeSort fun p q => Text.le p.1 q.1

theorem inOrder_perm (ms : Members) : (inOrder ms).Perm ms := List.mergeSort_perm ms _

mutual

def sorted : Value → Value
  | .arr items => .arr (sortedItems items)
  | .obj ms => .obj (inOrder (sortedMembers ms))
  | v => v

def sortedItems : List Value → List Value
  | [] => []
  | v :: rest => sorted v :: sortedItems rest

def sortedMembers : Members → Members
  | [] => []
  | (k, v) :: rest => (k, sorted v) :: sortedMembers rest

end

theorem sortedItems_eq_map (items : List Value) : sortedItems items = items.map sorted := by
  induction items with
  | nil => rfl
  | cons v vs ih => rw [sortedItems, ih, List.map_cons]

theorem sortedMembers_eq_map (ms : Members) : sortedMembers ms = ms.map fun p => (p.1, p.2.sorted) := by
  induction ms with
  | nil => rfl
  | cons p ms ih => rw [sortedMembers, ih, List.map_cons]

theorem canonicalItems_eq_map (items : List Value) : canonicalItems items = items.map canonical := by
  induction items with
  | nil => rfl
  | cons v vs ih => rw [canonicalItems, ih, List.map_cons]

theorem canonicalMembers_eq_map (ms : Members) :
    canonicalMembers ms = ms.map fun p => (p.1, quote p.1 ++ ":" ++ canonical p.2) := by
  induction ms with
  | nil => rfl
  | cons p ms ih => rw [canonicalMembers, ih, List.map_cons]

theorem canonical_eq_compact (v : Value) : canonical v = compact v.sorted := by
  induction v using byParts with
  | null | bool | num | str => rfl
  | arr items ih =>
    rw [canonical, sorted, compact, canonicalItems_eq_map, sortedItems_eq_map, compactItems_eq_map, List.map_map]
    rw [List.map_congr_left ih]
    rfl
  | obj ms ih =>
    have htexts : canonicalMembers ms = (sortedMembers ms).map fun p => (p.1, memberText p) := by
      have htext : ∀ p ∈ ms, (p.1, quote p.1 ++ ":" ++ canonical p.2) = (p.1, memberText (p.1, p.2.sorted)) := by
        intro p hp
        rw [memberText, ih p hp]
      rw [canonicalMembers_eq_map, sortedMembers_eq_map, List.map_map, List.map_congr_left htext]
      rfl
    have hsort : ((sortedMembers ms).map fun p => (p.1, memberText p)).mergeSort (fun a b => Text.le a.1 b.1) =
        (inOrder (sortedMembers ms)).map fun p => (p.1, memberText p) := by
      symm
      apply List.map_mergeSort
      intros
      rfl
    rw [canonical, sorted, compact, htexts, hsort, compactMembers_eq_map, List.map_map]
    rfl

variable {v w : Value} {vs : List Value} {key : String} {ms ns : Members}

theorem distinctKeys_arr : DistinctKeys (.arr vs) ↔ ∀ v ∈ vs, v.DistinctKeys := by
  refine ⟨fun h v hv ms hms => h ms (.item hv hms), ?_⟩
  rintro h ms (_ | ⟨hmem, hms⟩)
  exact h _ hmem ms hms

theorem distinctKeys_obj : DistinctKeys (.obj ms) ↔ ms.keys.Nodup ∧ ∀ p ∈ ms, p.2.DistinctKeys := by
  refine ⟨fun h => ⟨h ms .self, fun p hp ls hls => h ls (.member hp hls)⟩, ?_⟩
  rintro ⟨hnodup, h⟩ ls (_ | _ | ⟨hmem, hls⟩)
  · exact hnodup
  · exact h _ hmem ls hls

theorem distinctKeys_str (s : String) : DistinctKeys (.str s) := nofun

theorem DistinctKeys.nodup (h : DistinctKeys (.obj ms)) : ms.keys.Nodup := (distinctKeys_obj.mp h).1

theorem DistinctKeys.tail (h : DistinctKeys (.arr (v :: vs))) : DistinctKeys (.arr vs) :=
  distinctKeys_arr.mpr (List.forall_mem_cons.mp (distinctKeys_arr.mp h)).2

theorem DistinctKeys.rest (h : DistinctKeys (.obj ((key, v) :: ms))) : DistinctKeys (.obj ms) :=
  distinctKeys_obj.mpr ⟨(List.nodup_cons.mp h.nodup).2, (List.forall_mem_cons.mp (distinctKeys_obj.mp h).2).2⟩

theorem DistinctKeys.of_perm (hperm : ms.Perm ns) (h : DistinctKeys (.obj ms)) : DistinctKeys (.obj ns) :=
  distinctKeys_obj.mpr ⟨(hperm.map Prod.fst).nodup_iff.mp h.nodup,
    fun p hp => (distinctKeys_obj.mp h).2 p (hperm.mem_iff.mpr hp)⟩

theorem inOrder_eq_of_perm (hperm : ms.Perm ns) (h : ms.keys.Nodup) : inOrder ms = inOrder ns :=
  Text.mergeSort_le_on_eq_of_perm hperm fun _ hp _ hq => List.inj_on_of_nodup_map h hp hq

theorem nodup_sortedMembers (h : DistinctKeys (.obj ms)) : (sortedMembers ms).keys.Nodup := by
  rw [sortedMembers_eq_map, Members.keys, List.map_map]
  exact h.nodup

/-- Sorting takes every order of members to the same. -/
theorem Reordered.sorted_eq (h : Reordered v w) (hv : v.DistinctKeys) : v.sorted = w.sorted := by
  induction h with
  | refl v => rfl
  | item _ _ ihhead ihtail =>
    have htail := ihtail hv.tail
    simp only [sorted, arr.injEq] at htail
    simp only [sorted, sortedItems, ihhead (distinctKeys_arr.mp hv _ List.mem_cons_self), htail]
  | @member v w ms ns key _ _ ihhead ihtail =>
    have htail := ihtail hv.rest
    simp only [sorted, obj.injEq] at htail
    have hrest : (sortedMembers ms).Perm (sortedMembers ns) :=
      (inOrder_perm _).symm.trans (htail ▸ inOrder_perm (sortedMembers ns))
    have hperm : (sortedMembers ((key, v) :: ms)).Perm (sortedMembers ((key, w) :: ns)) := by
      rw [sortedMembers, sortedMembers, ihhead ((distinctKeys_obj.mp hv).2 _ List.mem_cons_self)]
      exact hrest.cons _
    rw [sorted, sorted, inOrder_eq_of_perm hperm (nodup_sortedMembers hv)]
  | @order ms ns w hperm _ ih =>
    have hsorted : (sortedMembers ms).Perm (sortedMembers ns) := by
      rw [sortedMembers_eq_map, sortedMembers_eq_map]
      exact hperm.map _
    rw [← ih (hv.of_perm hperm), sorted, sorted, inOrder_eq_of_perm hsorted (nodup_sortedMembers hv)]

theorem reordered_items (h : ∀ v ∈ vs, ∀ w, v.sorted = w.sorted → Reordered v w) {ws : List Value}
    (he : vs.map sorted = ws.map sorted) : Reordered (.arr vs) (.arr ws) := by
  induction vs generalizing ws with
  | nil =>
    rw [List.map_eq_nil_iff.mp he.symm]
    exact .refl _
  | cons v vs ih =>
    obtain ⟨w, ws, rfl, hhead, htail⟩ := List.map_eq_cons_iff.mp he.symm
    exact .item (h v List.mem_cons_self w hhead.symm) (ih (fun u hu => h u (List.mem_cons_of_mem _ hu)) htail.symm)

theorem reordered_members (h : ∀ p ∈ ms, ∀ w, p.2.sorted = w.sorted → Reordered p.2 w)
    (he : sortedMembers ms = sortedMembers ns) : Reordered (.obj ms) (.obj ns) := by
  rw [sortedMembers_eq_map, sortedMembers_eq_map] at he
  induction ms generalizing ns with
  | nil =>
    rw [List.map_eq_nil_iff.mp he.symm]
    exact .refl _
  | cons p ms ih =>
    obtain ⟨q, ns, rfl, hhead, htail⟩ := List.map_eq_cons_iff.mp he.symm
    obtain ⟨hkey, hvalue⟩ := Prod.mk.inj hhead
    obtain ⟨key, w⟩ := q
    obtain ⟨_, v⟩ := p
    cases hkey
    exact .member key (h _ List.mem_cons_self w hvalue.symm)
      (ih (fun q hq => h q (List.mem_cons_of_mem _ hq)) htail.symm)

/-- Values that are sorted to the same are equal up to the order of members. -/
theorem reordered_of_sorted_eq (h : v.sorted = w.sorted) : Reordered v w := by
  induction v using byParts generalizing w with
  | null | bool | num | str =>
    cases w <;> cases h
    exact .refl _
  | arr vs ih =>
    cases w <;> simp only [sorted, reduceCtorEq, arr.injEq] at h
    next ws =>
    rw [sortedItems_eq_map, sortedItems_eq_map] at h
    exact reordered_items (fun v hv w => ih v hv) h
  | obj ms ih =>
    cases w <;> simp only [sorted, reduceCtorEq, obj.injEq] at h
    next ns =>
    have hperm : (sortedMembers ns).Perm (sortedMembers ms) :=
      (inOrder_perm _).symm.trans (h ▸ inOrder_perm (sortedMembers ms))
    -- the members of the one side, in the order in which those of the other side come
    have hmap : List.Forall₂ (fun x p => x = (p.1, p.2.sorted)) (sortedMembers ms) ms := by
      rw [sortedMembers_eq_map, List.forall₂_map_left_iff]
      exact List.forall₂_same.mpr fun _ _ => rfl
    obtain ⟨ls, hls, hms⟩ := List.perm_comp_forall₂ hperm hmap
    have hsorted : sortedMembers ls = sortedMembers ns := by
      rw [sortedMembers_eq_map ls]
      exact (List.forall₂_eq_eq_eq ▸ List.forall₂_map_right_iff.mpr hls).symm
    exact .order hms.symm (reordered_members (fun p hp w => ih p (hms.mem_iff.mp hp)) hsorted)

theorem numbers_sorted (v : Value) : v.sorted.numbers ⊆ v.numbers := by
  induction v using byParts with
  | null | bool | num | str => exact subset_rfl
  | arr items ih =>
    rintro x (_ | ⟨hmem, hx⟩)
    rw [sortedItems_eq_map, List.mem_map] at hmem
    obtain ⟨u, hu, rfl⟩ := hmem
    exact .item hu (ih u hu hx)
  | obj ms ih =>
    rintro x (_ | _ | ⟨hmem, hx⟩)
    rw [(inOrder_perm _).mem_iff, sortedMembers_eq_map, List.mem_map] at hmem
    obtain ⟨p, hp, rfl⟩ := hmem
    exact .member hp (ih p hp hx)

/-- Canonical texts are equal exactly if the values are, up to the order of members. -/
theorem canonical_eq_iff_reordered (hv : v.DistinctKeys) (h : PrintedApart (v.numbers ∪ w.numbers)) :
    canonical v = canonical w ↔ Reordered v w := by
  rw [canonical_eq_compact, canonical_eq_compact]
  constructor
  · intro he
    have hsub : v.sorted.numbers ∪ w.sorted.numbers ⊆ v.numbers ∪ w.numbers :=
      Set.union_subset_union (numbers_sorted v) (numbers_sorted w)
    exact reordered_of_sorted_eq (compact_inj ⟨fun x hx => h.1 x (hsub hx), h.2.mono hsub⟩ he)
  · intro hr
    rw [hr.sorted_eq hv]

end Sorting

section Parts

variable {v w : Value} {vs : List Value} {ms : Members}

/-- What has no parts is equal. -/
theorem Reordered.eq_of_leaf (h : Reordered v w) (harr : v.arr? = none) (hobj : v.obj? = none) : w = v := by
  cases h with
  | refl => rfl
  | item => cases harr
  | member | order => cases hobj

theorem Reordered.arr (h : Reordered (.arr vs) w) : ∃ ws, w = .arr ws ∧ List.Forall₂ Reordered vs ws := by
  generalize hv : Value.arr vs = v at h
  induction h generalizing vs with
  | refl =>
    subst hv
    exact ⟨vs, rfl, List.forall₂_same.mpr fun u _ => .refl u⟩
  | item head _ _ ih =>
    cases hv
    obtain ⟨ws, ⟨⟩, hws⟩ := ih rfl
    exact ⟨_, rfl, .cons head hws⟩
  | member | order => cases hv

/-- Members have the same keys, in whatever order, and their values are equal up to the order of members. -/
theorem Reordered.obj (h : Reordered (.obj ms) w) (hms : ms.keys.Nodup) :
    ∃ ns : Members, w = .obj ns ∧ ∀ key, Option.Rel Reordered (ms.get? key) (ns.get? key) := by
  generalize hv : Value.obj ms = v at h
  induction h generalizing ms with
  | refl =>
    subst hv
    refine ⟨ms, rfl, fun key => ?_⟩
    cases ms.get? key with
    | none => exact .none
    | some u => exact .some (.refl u)
  | item => cases hv
  | member k head _ _ ih =>
    cases hv
    obtain ⟨ns, ⟨⟩, hns⟩ := ih (List.nodup_cons.mp hms).2 rfl
    refine ⟨_, rfl, fun key => ?_⟩
    rw [Members.get?, Members.get?]
    split
    · exact .some head
    · exact hns key
  | @order ls ns w hperm _ ih =>
    cases hv
    obtain ⟨ns', rfl, hns⟩ := ih ((hperm.map Prod.fst).nodup_iff.mp hms) rfl
    refine ⟨ns', rfl, fun key => ?_⟩
    rw [Members.get?_perm hperm hms]
    exact hns key

end Parts

end Value

end RuleScan
