import RuleScan.Proofs.Evaluation.UniqueNames
import RuleScan.Proofs.Rule.Fingerprints
import RuleScan.Proofs.Text.Order

/-! What tells matches apart in a union. The key of a match is one text made of offsets and names. No name that can
be bound holds a sign that stands between them, so the text can be read back, and matches have one key exactly if
their spans have the same offsets and the same names are bound to spans of the same offsets. -/
namespace RuleScan

theorem IsBoundName.notMem {name : String} (h : IsBoundName name) : ',' ∉ name.toList ∧ '@' ∉ name.toList := by
  have hnot {p : Char → Bool} {c : Char} (hp : ∀ d ∈ name.toList, p d = true) (hc : p c = false) :
      c ∉ name.toList := by
    intro hmem
    rw [hp c hmem] at hc
    cases hc
  rcases h with ⟨-, h⟩ | ⟨-, h⟩
  · exact ⟨hnot h (by decide), hnot h (by decide)⟩
  · exact ⟨hnot (p := fun c => Text.isIdPart c.toNat) h (by decide +kernel),
      hnot (p := fun c => Text.isIdPart c.toNat) h (by decide +kernel)⟩

/-- Parts that do not hold the separator and are not empty can be told from what is made of them. -/
theorem intercalate_inj {α : Type} [DecidableEq α] {sep : α} {xs ys : List (List α)}
    (hx : ∀ l ∈ xs, sep ∉ l ∧ l ≠ []) (hy : ∀ l ∈ ys, sep ∉ l ∧ l ≠ [])
    (h : [sep].intercalate xs = [sep].intercalate ys) : xs = ys := by
  have hsplit {zs : List (List α)} (hz : ∀ l ∈ zs, sep ∉ l ∧ l ≠ []) (hne : zs ≠ []) :
      ([sep].intercalate zs).splitOn sep = zs := List.splitOn_intercalate sep (fun l hl => (hz l hl).1) hne
  -- an empty text is split into one empty part, which no list of parts that are not empty holds
  have hnone {zs : List (List α)} (hz : ∀ l ∈ zs, sep ∉ l ∧ l ≠ []) (he : [sep].intercalate zs = []) : zs = [] := by
    by_contra hne
    have hparts := hsplit hz hne
    rw [he] at hparts
    have hmem : [] ∈ zs := by
      rw [← hparts]
      simp
    exact (hz [] hmem).2 rfl
  by_cases hxs : xs = []
  · rw [hxs] at h ⊢
    exact (hnone hy h.symm).symm
  by_cases hys : ys = []
  · rw [hys] at h ⊢
    exact hnone hx h
  · rw [← hsplit hx hxs, h, hsplit hy hys]

def Span.offsets (s : Span) : Nat × Nat := (s.start, s.stop)

namespace Bindings

variable {a b : Bindings}

def site (b : Bindings) (name : String) : Option (Nat × Nat) := (b.lookup name).map (·.span.offsets)

/-- The names in order, each with the offsets of its node. -/
def sites (b : Bindings) : List (String × Nat × Nat) :=
  (b.map fun x => (x.1, x.2.span.offsets)).mergeSort fun x y => (Text.order x.1 y.1).isLE

theorem Unique.mem_sites_iff (hb : b.Unique) {x : String × Nat × Nat} : x ∈ b.sites ↔ b.site x.1 = some x.2 := by
  unfold sites site
  rw [List.mem_mergeSort, List.mem_map, Option.map_eq_some_iff]
  constructor
  · rintro ⟨y, hy, rfl⟩
    refine ⟨y.2, ?_, rfl⟩
    cases hlookup : b.lookup y.1 with
    | none => exact absurd rfl (lookup_eq_none_iff.mp hlookup y hy)
    | some node => rw [hb.eq_of_mem hy (mem_of_lookup hlookup) rfl]
  · rintro ⟨node, hlookup, hoffsets⟩
    exact ⟨(x.1, node), mem_of_lookup hlookup, by rw [hoffsets]⟩

/-- Sorted, the sites under all names say no more than those under each. -/
theorem sites_eq_iff (ha : a.Unique) (hb : b.Unique) : a.sites = b.sites ↔ a.site = b.site := by
  constructor
  · intro h
    funext name
    apply Option.ext
    intro offsets
    rw [← ha.mem_sites_iff (x := (name, offsets)), h, hb.mem_sites_iff]
  · intro h
    have hnodup {c : Bindings} (hc : c.Unique) : (c.map fun x => (x.1, x.2.span.offsets)).Nodup := by
      apply List.Nodup.of_map Prod.fst
      rw [List.map_map]
      exact hc
    have hmem (x : String × Nat × Nat) : x ∈ a.sites ↔ x ∈ b.sites := by
      rw [ha.mem_sites_iff, hb.mem_sites_iff, h]
    have hperm : (a.map fun x => (x.1, x.2.span.offsets)).Perm (b.map fun x => (x.1, x.2.span.offsets)) := by
      apply (List.perm_ext_iff_of_nodup (hnodup ha) (hnodup hb)).mpr
      simpa only [sites, List.mem_mergeSort] using hmem
    apply mergeSort_eq_of_perm hperm
    intro x hx y hy he
    have hname : x.1 = y.1 := Text.eq_of_order he
    have hxa := ha.mem_sites_iff.mp (List.mem_mergeSort.mpr hx)
    have hya := ha.mem_sites_iff.mp (List.mem_mergeSort.mpr hy)
    rw [hname, hya] at hxa
    exact Prod.ext hname (Option.some.inj hxa).symm

end Bindings

namespace Match

variable {a b m : Match}

/-- All that a match captures: what its record binds, and what is its base. -/
def captures (m : Match) : Bindings := m.bindings ++ (m.base.map fun n => (Bindings.baseName, n)).toList

theorem Whole.captures_eq (hm : m.Whole) : m.captures = m.bindings := by
  rw [captures, hm.base]
  exact List.append_nil _

/-- Where a match is: the offsets of its span, and for each name those of what is captured under it. -/
def place (m : Match) : (Nat × Nat) × (String → Option (Nat × Nat)) := (m.span.offsets, m.captures.site)

private def offsetChars (offsets : Nat × Nat) (sep : Char) : List Char :=
  Nat.toDigits 10 offsets.1 ++ sep :: Nat.toDigits 10 offsets.2

private def siteChars (x : String × Nat × Nat) : List Char := x.1.toList ++ '@' :: offsetChars x.2 '-'

private theorem toList_key (m : Match) :
    m.key.toList = Nat.toDigits 10 m.span.start ++ ':' :: (Nat.toDigits 10 m.span.stop ++ '|' ::
      [','].intercalate (m.bindings.sites.map siteChars)) := by
  have hsites : (m.bindings.mergeSort fun x y => Text.le x.1 y.1).map (fun x => (x.1, x.2.span.offsets)) =
      m.bindings.sites := by
    unfold Bindings.sites
    apply List.map_mergeSort
    intro x _ y _
    exact Text.le_eq x.1 y.1
  have hchars (x : String × Node) : (bindingKey x).toList = siteChars (x.1, x.2.span.offsets) := by
    simp [bindingKey, siteChars, offsetChars, Span.offsets]
  unfold key
  rw [← hsites, List.map_map]
  simp only [String.toList_append, String.toList_intercalate, List.map_map, Function.comp_def, hchars]
  simp

private theorem offsetChars_inj {x y : Nat × Nat} {sep : Char} (hsep : sep.isDigit = false)
    (h : offsetChars x sep = offsetChars y sep) : x = y := by
  have hnot := Location.notMem_toDigits hsep
  obtain ⟨hstart, hstop⟩ := append_cons_inj_left (hnot x.1) (hnot y.1) h
  exact Prod.ext (Location.toDigits_injective hstart) (Location.toDigits_injective hstop)

private theorem map_siteChars_inj {xs ys : List (String × Nat × Nat)} (hx : ∀ x ∈ xs, IsBoundName x.1)
    (hy : ∀ y ∈ ys, IsBoundName y.1) (h : xs.map siteChars = ys.map siteChars) : xs = ys := by
  induction xs generalizing ys with
  | nil => exact (List.map_eq_nil_iff.mp h.symm).symm
  | cons x xs ih =>
    obtain ⟨y, ys, rfl, he, hrest⟩ := List.map_eq_cons_iff.mp h.symm
    obtain ⟨hx, hxs⟩ := List.forall_mem_cons.mp hx
    obtain ⟨hy, hys⟩ := List.forall_mem_cons.mp hy
    obtain ⟨hname, hoffsets⟩ := append_cons_inj_left hx.notMem.2 hy.notMem.2 he.symm
    rw [Prod.ext (String.toList_inj.mp hname) (offsetChars_inj (by decide) hoffsets), ih hxs hys hrest.symm]

private theorem comma_notMem_siteChars {x : String × Nat × Nat} (hx : IsBoundName x.1) : ',' ∉ siteChars x := by
  have hdigits := Location.notMem_toDigits (c := ',') (by decide)
  have hname := hx.notMem.1
  simp [siteChars, offsetChars, hname, hdigits]

/-- What stands before the names in a key can be read off, whatever they are. -/
private theorem parts_eq_of_key (h : a.key = b.key) : a.span.offsets = b.span.offsets ∧
    [','].intercalate (a.bindings.sites.map siteChars) = [','].intercalate (b.bindings.sites.map siteChars) := by
  have hchars := congrArg String.toList h
  have hcolon := Location.notMem_toDigits (c := ':') rfl
  have hbar := Location.notMem_toDigits (c := '|') rfl
  rw [toList_key, toList_key] at hchars
  obtain ⟨hstart, hchars⟩ := append_cons_inj_left (hcolon _) (hcolon _) hchars
  obtain ⟨hstop, hchars⟩ := append_cons_inj_left (hbar _) (hbar _) hchars
  exact ⟨Prod.ext (Location.toDigits_injective hstart) (Location.toDigits_injective hstop), hchars⟩

theorem offsets_eq_of_key (h : a.key = b.key) : a.span.offsets = b.span.offsets := (parts_eq_of_key h).1

theorem key_eq_iff (ha : a.Whole) (hb : b.Whole) : a.key = b.key ↔ a.place = b.place := by
  unfold place
  rw [ha.captures_eq, hb.captures_eq]
  constructor
  · intro h
    obtain ⟨hoffsets, hnames⟩ := parts_eq_of_key h
    have hbound {m : Match} (hm : m.Whole) : ∀ x ∈ m.bindings.sites, IsBoundName x.1 := by
      intro x hx
      obtain ⟨y, hy, rfl⟩ := List.mem_map.mp (List.mem_mergeSort.mp hx)
      exact hm.names y hy
    have hparts {m : Match} (hm : m.Whole) : ∀ l ∈ m.bindings.sites.map siteChars, ',' ∉ l ∧ l ≠ [] := by
      intro l hl
      obtain ⟨x, hx, rfl⟩ := List.mem_map.mp hl
      exact ⟨comma_notMem_siteChars (hbound hm x hx), by simp [siteChars]⟩
    have hmap := intercalate_inj (hparts ha) (hparts hb) hnames
    have hsites := map_siteChars_inj (hbound ha) (hbound hb) hmap
    exact Prod.ext hoffsets ((Bindings.sites_eq_iff ha.unique hb.unique).mp hsites)
  · intro h
    have hoffsets : a.span.offsets = b.span.offsets := congrArg Prod.fst h
    have hsites := (Bindings.sites_eq_iff ha.unique hb.unique).mpr (congrArg Prod.snd h)
    have hstart : a.span.start = b.span.start := congrArg Prod.fst hoffsets
    have hstop : a.span.stop = b.span.stop := congrArg Prod.snd hoffsets
    apply String.toList_inj.mp
    rw [toList_key, toList_key, hstart, hstop, hsites]

end Match

end RuleScan
