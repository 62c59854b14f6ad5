import Mathlib.Data.List.Perm.Basic
import RuleScan.Testing.Basic

/-! When a fixture finds what it expects. Entries are paired in order, each with the first violation left that it
accepts. Nothing is left over only if entries and violations can be paired at all, and if they can, some order of the
entries does it. The order they are in does it whatever is found exactly if no entry stands before one that it can share
a violation with and that says more. -/
namespace RuleScan

namespace Expected

variable {ruleId : String} {e f : Expected} {v : Violation}

def Agree (a b : Option Nat) : Prop := ∀ x ∈ a, ∀ y ∈ b, x = y

/-- The entries are about the same line and rule, and state nothing different. -/
structure Compatible (ruleId : String) (e f : Expected) : Prop where
  line : e.line = f.line
  rule : e.ruleId.getD ruleId = f.ruleId.getD ruleId
  column : Agree e.column f.column
  endLine : Agree e.endLine f.endLine
  endColumn : Agree e.endColumn f.endColumn

/-- The first entry states what the second states beside line and rule. -/
structure StatesAll (e f : Expected) : Prop where
  column : ∀ y ∈ f.column, y ∈ e.column
  endLine : ∀ y ∈ f.endLine, y ∈ e.endLine
  endColumn : ∀ y ∈ f.endColumn, y ∈ e.endColumn

theorem accepts_iff : e.accepts ruleId v = true ↔ e.line = v.location.line ∧ (∀ x ∈ e.column, x = v.location.column) ∧
    (∀ x ∈ e.endLine, x = v.location.endLine) ∧ (∀ x ∈ e.endColumn, x = v.location.endColumn) ∧
      e.ruleId.getD ruleId = v.ruleId := by
  simp [accepts, Option.all_eq_true, and_assoc]

/-- A violation as an entry states it; what is left out is taken from here. -/
def violation (ruleId : String) (e : Expected) (column endLine endColumn : Nat) : Violation :=
  { (default : Violation) with
    ruleId := e.ruleId.getD ruleId
    location :=
      { line := e.line, column := e.column.getD column, endLine := e.endLine.getD endLine
        endColumn := e.endColumn.getD endColumn, startOffset := 0, endOffset := 0 } }

theorem accepts_violation (e : Expected) (column endLine endColumn : Nat) :
    e.accepts ruleId (e.violation ruleId column endLine endColumn) = true := by
  have hgetD {o : Option Nat} {n : Nat} : ∀ x ∈ o, x = o.getD n := by
    rintro x rfl
    rfl
  exact accepts_iff.mpr ⟨rfl, hgetD, hgetD, hgetD, rfl⟩

/-- Entries are compatible exactly if they can share a violation. -/
theorem compatible_iff : Compatible ruleId e f ↔ ∃ v, e.accepts ruleId v = true ∧ f.accepts ruleId v = true := by
  constructor
  · intro h
    refine ⟨e.violation ruleId (f.column.getD 0) (f.endLine.getD 0) (f.endColumn.getD 0), accepts_violation e _ _ _, ?_⟩
    have hgetD {a b : Option Nat} (hab : Agree a b) : ∀ y ∈ b, y = a.getD (b.getD 0) := by
      rintro y rfl
      cases a with
      | none => rfl
      | some x => exact (hab x rfl y rfl).symm
    exact accepts_iff.mpr ⟨h.line.symm, hgetD h.column, hgetD h.endLine, hgetD h.endColumn, h.rule.symm⟩
  · rintro ⟨v, he, hf⟩
    obtain ⟨hline, hcolumn, hendLine, hendColumn, hrule⟩ := accepts_iff.mp he
    obtain ⟨hline', hcolumn', hendLine', hendColumn', hrule'⟩ := accepts_iff.mp hf
    have hagree {a b : Option Nat} {n : Nat} (ha : ∀ x ∈ a, x = n) (hb : ∀ y ∈ b, y = n) : Agree a b :=
      fun x hx y hy => (ha x hx).trans (hb y hy).symm
    exact ⟨hline.trans hline'.symm, hrule.trans hrule'.symm, hagree hcolumn hcolumn', hagree hendLine hendLine',
      hagree hendColumn hendColumn'⟩

/-- Of compatible entries, the first states all exactly if the second accepts all violations that it accepts. -/
theorem statesAll_iff (h : Compatible ruleId e f) :
    StatesAll e f ↔ ∀ v, e.accepts ruleId v = true → f.accepts ruleId v = true := by
  constructor
  · intro hall v he
    obtain ⟨hline, hcolumn, hendLine, hendColumn, hrule⟩ := accepts_iff.mp he
    have hstated {a b : Option Nat} {n : Nat} (hab : ∀ y ∈ b, y ∈ a) (ha : ∀ x ∈ a, x = n) : ∀ y ∈ b, y = n :=
      fun y hy => ha y (hab y hy)
    exact accepts_iff.mpr ⟨h.line.symm.trans hline, hstated hall.column hcolumn, hstated hall.endLine hendLine,
      hstated hall.endColumn hendColumn, h.rule.symm.trans hrule⟩
  · intro hall
    -- where the first entry leaves something out, this violation has what the second does not state
    have hf := hall _ (accepts_violation e (f.column.getD 0 + 1) (f.endLine.getD 0 + 1) (f.endColumn.getD 0 + 1))
    obtain ⟨-, hcolumn, hendLine, hendColumn, -⟩ := accepts_iff.mp hf
    have hstated {a b : Option Nat} (hb : ∀ y ∈ b, y = a.getD (b.getD 0 + 1)) : ∀ y ∈ b, y ∈ a := by
      intro y hy
      have hyb := hb y hy
      cases hy
      cases a with
      | none => simp at hyb
      | some x => exact congrArg some hyb.symm
    exact ⟨hstated hcolumn, hstated hendLine, hstated hendColumn⟩

end Expected

namespace Fixture

variable {ruleId : String} {es es' : List Expected} {vs ws : List Violation}

/-- There is a one-to-one correspondence of all entries and all violations, each entry with one that it accepts. -/
def Pairs (ruleId : String) (es : List Expected) (vs : List Violation) : Prop :=
  ∃ ws, ws.Perm vs ∧ List.Forall₂ (fun e v => e.accepts ruleId v = true) es ws

/-- No entry stands before one that it can share a violation with and that states more. -/
def Orderly (ruleId : String) (es : List Expected) : Prop :=
  es.Pairwise fun e f => Expected.Compatible ruleId e f → Expected.StatesAll e f

theorem Pairs.perm (hperm : es'.Perm es) (h : Pairs ruleId es vs) : Pairs ruleId es' vs := by
  obtain ⟨ws, hws, hall⟩ := h
  obtain ⟨ws', hall', hws'⟩ := List.perm_comp_forall₂ hperm hall
  exact ⟨ws', hws'.trans hws, hall'⟩

section Places

variable {α : Type} {front back : List (α × Nat)} {x : α × Nat}

theorem ne_of_pairwise (h : (front ++ x :: back).Pairwise (·.2 < ·.2)) : ∀ y ∈ front ++ back, y.2 ≠ x.2 := by
  obtain ⟨-, hback, hfront⟩ := List.pairwise_append.mp h
  intro y hy
  rcases List.mem_append.mp hy with hy | hy
  · exact Nat.ne_of_lt (hfront y hy x List.mem_cons_self)
  · exact Nat.ne_of_gt ((List.pairwise_cons.mp hback).1 y hy)

/-- The place of an item is taken: what stands besides is found among the others. -/
theorem besides_cons_append (h : (front ++ x :: back).Pairwise (·.2 < ·.2)) (places : List Nat) :
    besides (x.2 :: places) (front ++ x :: back) = besides places (front ++ back) := by
  have hothers {ys : List (α × Nat)} (hys : ∀ y ∈ ys, y.2 ≠ x.2) :
      ys.filter (·.2 ∉ x.2 :: places) = ys.filter (·.2 ∉ places) := by
    refine List.filter_congr fun y hy => ?_
    simp [hys y hy]
  have hne := ne_of_pairwise h
  rw [besides, besides, List.filter_append, List.filter_append, List.filter_cons_of_neg (by simp),
    hothers fun y hy => hne y (List.mem_append_left _ hy), hothers fun y hy => hne y (List.mem_append_right _ hy)]

theorem pairwise_zipIdx {α : Type} (xs : List α) : xs.zipIdx.Pairwise (·.2 < ·.2) := by
  have hrange : (xs.zipIdx.map (·.2)).Pairwise (· < ·) := by
    rw [List.zipIdx_map_snd, ← List.range_eq_range']
    exact List.pairwise_lt_range
  exact List.pairwise_map.mp hrange

end Places

/-- The same comparison on what is left: a violation that is taken is erased. -/
def pairOff (ruleId : String) : List Expected → List Violation → List Expected × List Violation
  | [], left => ([], left)
  | e :: rest, left =>
    if left.any (e.accepts ruleId) then pairOff ruleId rest (left.eraseP (e.accepts ruleId))
    else (e :: (pairOff ruleId rest left).1, (pairOff ruleId rest left).2)

section PairOff

variable {xs : List (Violation × Nat)}

/-- What is found free is the first that is accepted of what is left, and to take it is to erase it. -/
theorem besides_find? (hxs : xs.Pairwise (·.2 < ·.2)) {places : List Nat} {x : Violation × Nat}
    {accepts : Violation → Bool}
    (h : xs.find? (fun (v, place) => place ∉ places ∧ accepts v) = some x) :
    (besides places xs).any accepts = true ∧
      besides (x.2 :: places) xs = (besides places xs).eraseP accepts := by
  obtain ⟨hx, front, back, rfl, hfront⟩ := List.find?_eq_some_iff_append.mp h
  obtain ⟨hfree, haccepts⟩ : x.2 ∉ places ∧ accepts x.1 = true := by simpa using hx
  have hskip : ∀ v ∈ besides places front, ¬accepts v = true := by
    intro v hv
    obtain ⟨y, hy, rfl⟩ := List.mem_map.mp hv
    obtain ⟨hy, hyfree⟩ := List.mem_filter.mp hy
    have hpassed := hfront y hy
    simp_all
  have hsplit : besides places (front ++ x :: back) = besides places front ++ x.1 :: besides places back := by
    simp [besides, hfree]
  constructor
  · rw [hsplit]
    simp [haccepts]
  · rw [besides_cons_append hxs, hsplit, List.eraseP_append_right _ hskip, List.eraseP_cons_of_pos haccepts]
    simp [besides]

theorem any_besides_of_find? {places : List Nat} {accepts : Violation → Bool}
    (h : xs.find? (fun (v, place) => place ∉ places ∧ accepts v) = none) : (besides places xs).any accepts = false := by
  simpa [besides] using h

/-- Each entry in turn takes from what the entries before it left. -/
theorem foldl_add (ruleId : String) (hxs : xs.Pairwise (·.2 < ·.2)) (es : List Expected) (p : Pairing) :
    (es.foldl (Pairing.add ruleId xs) p).missing = p.missing ++ (pairOff ruleId es (besides p.used xs)).1 ∧
      besides (es.foldl (Pairing.add ruleId xs) p).used xs = (pairOff ruleId es (besides p.used xs)).2 := by
  induction es generalizing p with
  | nil => simp [pairOff]
  | cons e es ih =>
    rw [List.foldl_cons, pairOff, Pairing.add]
    split
    · next v place hfind =>
      obtain ⟨hany, herase⟩ := besides_find? hxs hfind
      rw [if_pos hany, ← herase]
      exact ih _
    · next hfind =>
      rw [any_besides_of_find? hfind]
      simpa using ih { p with missing := p.missing ++ [e] }

theorem diff_eq_pairOff (es : List Expected) (vs : List Violation) : diff ruleId es vs = pairOff ruleId es vs := by
  have hall : besides [] vs.zipIdx = vs := by simp [besides]
  obtain ⟨hmissing, hused⟩ := foldl_add ruleId (pairwise_zipIdx vs) es {}
  rw [hall] at hmissing hused
  exact Prod.ext hmissing hused

end PairOff

@[simp] theorem diff_nil : diff ruleId [] vs = ([], vs) := by
  rw [diff_eq_pairOff, pairOff]

theorem diff_cons_of_any {e : Expected} (h : vs.any (e.accepts ruleId) = true) :
    diff ruleId (e :: es) vs = diff ruleId es (vs.eraseP (e.accepts ruleId)) := by
  rw [diff_eq_pairOff, diff_eq_pairOff, pairOff, if_pos h]

theorem diff_cons_of_not_any {e : Expected} (h : ¬vs.any (e.accepts ruleId) = true) :
    diff ruleId (e :: es) vs = (e :: (diff ruleId es vs).1, (diff ruleId es vs).2) := by
  rw [diff_eq_pairOff, diff_eq_pairOff, pairOff, if_neg h]

/-- If nothing is left over, entries and violations are paired. -/
theorem pairs_of_diff (h : diff ruleId es vs = ([], [])) : Pairs ruleId es vs := by
  induction es generalizing vs with
  | nil =>
    rw [diff_nil] at h
    obtain rfl : vs = [] := congrArg Prod.snd h
    exact ⟨[], .refl _, .nil⟩
  | cons e es ih =>
    by_cases hany : vs.any (e.accepts ruleId) = true
    · rw [diff_cons_of_any hany] at h
      obtain ⟨ws, hws, hall⟩ := ih h
      obtain ⟨v, hmem, hv⟩ := List.any_eq_true.mp hany
      obtain ⟨w, front, back, -, hw, rfl, herase⟩ := List.exists_of_eraseP hmem hv
      rw [herase] at hws
      exact ⟨w :: ws, (hws.cons w).trans List.perm_middle.symm, .cons hw hall⟩
    · rw [diff_cons_of_not_any hany] at h
      cases congrArg Prod.fst h

/-- Entries that stand as the violations do take them one after the other. -/
theorem diff_append (h : List.Forall₂ (fun e v => e.accepts ruleId v = true) es ws) (fs : List Expected)
    (left : List Violation) : diff ruleId (es ++ fs) (ws ++ left) = diff ruleId fs left := by
  induction h with
  | nil => rfl
  | @cons e w es ws hw _ ih =>
    rw [List.cons_append, List.cons_append, diff_cons_of_any (by simp [hw]), List.eraseP_cons_of_pos hw, ih]

/-- If entries and violations can be paired, some order of the entries does it. -/
theorem exists_order_of_pairs (h : Pairs ruleId es vs) : ∃ es', es'.Perm es ∧ diff ruleId es' vs = ([], []) := by
  obtain ⟨ws, hws, hall⟩ := h
  obtain ⟨es', hall', hes'⟩ := List.perm_comp_forall₂ hws.symm hall.flip
  have hdiff := diff_append hall'.flip [] []
  rw [List.append_nil, List.append_nil] at hdiff
  exact ⟨es', hes', hdiff⟩

/-- In a list of partners, one may be exchanged for another that its partner takes as well. -/
theorem exists_exchange {α β : Type} [DecidableEq β] {R : α → β → Prop} {as : List α} {bs : List β} {b c : β}
    (h : List.Forall₂ R as bs) (hc : c ∈ b :: bs) (hR : ∀ a ∈ as, R a c → R a b) :
    ∃ ds, (c :: ds).Perm (b :: bs) ∧ List.Forall₂ R as ds := by
  by_cases hcb : c = b
  · subst hcb
    exact ⟨bs, .refl _, h⟩
  replace hc := (List.mem_cons.mp hc).resolve_left hcb
  induction h with
  | nil => cases hc
  | @cons a d as bs hd htail ih =>
    obtain ⟨ha, has⟩ := List.forall_mem_cons.mp hR
    by_cases hcd : c = d
    · subst hcd
      exact ⟨b :: bs, .swap _ _ _, .cons (ha hd) htail⟩
    · obtain ⟨ds, hperm, hds⟩ := ih has ((List.mem_cons.mp hc).resolve_left hcd)
      exact ⟨d :: ds, ((List.Perm.swap _ _ _).trans (hperm.cons d)).trans (.swap _ _ _), .cons hd hds⟩

/-- The first entry may take any violation that it accepts: an entry behind it that would have taken this one accepts
the other as well. -/
theorem pairs_eraseP {e : Expected} (hany : vs.any (e.accepts ruleId) = true)
    (hlater : ∀ f ∈ es, Expected.Compatible ruleId e f → Expected.StatesAll e f) (h : Pairs ruleId (e :: es) vs) :
    Pairs ruleId es (vs.eraseP (e.accepts ruleId)) := by
  obtain ⟨_, hws, hall⟩ := h
  cases hall with
  | @cons _ v _ us hv hus =>
    obtain ⟨u, hu, haccepts⟩ := List.any_eq_true.mp hany
    obtain ⟨w, front, back, -, hw, rfl, herase⟩ := List.exists_of_eraseP hu haccepts
    have hfront : (v :: us).Perm (w :: (front ++ back)) := hws.trans List.perm_middle
    have hboth : ∀ f ∈ es, f.accepts ruleId w = true → f.accepts ruleId v = true := by
      intro f hf hfw
      have hcompatible := Expected.compatible_iff.mpr ⟨w, hw, hfw⟩
      exact (Expected.statesAll_iff hcompatible).mp (hlater f hf hcompatible) v hv
    obtain ⟨ds, hperm, hds⟩ := exists_exchange hus (hfront.mem_iff.mpr List.mem_cons_self) hboth
    rw [herase]
    exact ⟨ds, (hperm.trans hfront).cons_inv, hds⟩

theorem diff_of_pairs (horder : Orderly ruleId es) (h : Pairs ruleId es vs) : diff ruleId es vs = ([], []) := by
  induction es generalizing vs with
  | nil =>
    obtain ⟨ws, hws, hall⟩ := h
    cases hall
    rw [List.nil_perm.mp hws]
    rfl
  | cons e es ih =>
    obtain ⟨hlater, horder⟩ := List.pairwise_cons.mp horder
    have hany : vs.any (e.accepts ruleId) = true := by
      obtain ⟨ws, hws, hall⟩ := h
      cases hall with
      | cons hv _ => exact List.any_eq_true.mpr ⟨_, hws.mem_iff.mp List.mem_cons_self, hv⟩
    rw [diff_cons_of_any hany]
    exact ih horder (pairs_eraseP hany hlater h)

theorem count_le_countP (h : List.Forall₂ (fun e v => Expected.accepts e ruleId v = true) es ws) (v : Violation) :
    ws.count v ≤ es.countP (·.accepts ruleId v) := by
  induction h with
  | nil => simp
  | @cons e w es ws hw _ ih =>
    rw [List.count_cons, List.countP_cons]
    by_cases heq : w = v
    · subst heq
      simpa [hw] using ih
    · rw [if_neg (by simpa using heq)]
      omega

/-- An entry that stands before one that says more can take its violation. -/
theorem exists_unpaired {e f : Expected} (h : Expected.Compatible ruleId e f) (hall : ¬Expected.StatesAll e f)
    (front back : List Expected) : ∃ vs, Pairs ruleId (e :: (front ++ f :: back)) vs ∧
      diff ruleId (e :: (front ++ f :: back)) vs ≠ ([], []) := by
  obtain ⟨v, hev, hfv⟩ := Expected.compatible_iff.mp h
  obtain ⟨w, hew, hfw⟩ : ∃ w, e.accepts ruleId w = true ∧ f.accepts ruleId w ≠ true := by
    simpa [Expected.statesAll_iff h] using hall
  -- each of the other entries has one of its own, `w` wherever that will do
  let own (g : Expected) : Violation := if g.accepts ruleId w then w else g.violation ruleId 0 0 0
  have hown : ∀ gs : List Expected, List.Forall₂ (fun g u => g.accepts ruleId u = true) gs (gs.map own) := by
    intro gs
    rw [List.forall₂_map_right_iff, List.forall₂_same]
    intro g _
    by_cases hg : g.accepts ruleId w = true
    · simpa only [own, if_pos hg] using hg
    · simpa only [own, if_neg hg] using g.accepts_violation 0 0 0
  refine ⟨v :: (front.map own ++ w :: back.map own), ?_, fun hdiff => ?_⟩
  · refine ⟨w :: (front.map own ++ v :: back.map own), ?_,
      .cons hew (List.rel_append (hown front) (.cons hfv (hown back)))⟩
    exact ((List.perm_middle.cons w).trans (.swap _ _ _)).trans (List.perm_middle.cons v).symm
  · rw [diff_cons_of_any (by simp [hev]), List.eraseP_cons_of_pos hev, diff_append (hown front)] at hdiff
    obtain ⟨us, hus, hall⟩ := pairs_of_diff hdiff
    -- more violations are `w` than entries accept it
    have hcount := count_le_countP hall w
    have hback : back.countP (·.accepts ruleId w) ≤ (back.map own).count w := by
      rw [List.count, List.countP_map]
      refine List.countP_mono_left fun g _ hg => ?_
      simp only [Function.comp_apply, own, if_pos hg, beq_self_eq_true]
    rw [hus.count_eq, List.count_cons_self, List.countP_cons, if_neg hfw] at hcount
    omega

theorem orderly_of_diff (h : ∀ vs, Pairs ruleId es vs → diff ruleId es vs = ([], [])) : Orderly ruleId es := by
  induction es with
  | nil => exact .nil
  | cons e es ih =>
    refine List.pairwise_cons.mpr ⟨fun f hf hcompatible => ?_, ih fun vs hvs => ?_⟩
    · by_contra hall
      obtain ⟨front, back, rfl⟩ := List.append_of_mem hf
      obtain ⟨vs, hpairs, hne⟩ := exists_unpaired hcompatible hall front back
      exact hne (h vs hpairs)
    · -- with a violation of its own at the front, the first entry is out of the way
      have hown : e.accepts ruleId (e.violation ruleId 0 0 0) = true := e.accepts_violation 0 0 0
      obtain ⟨ws, hws, hall⟩ := hvs
      have hdiff := h (e.violation ruleId 0 0 0 :: vs) ⟨_, hws.cons _, .cons hown hall⟩
      rwa [diff_cons_of_any (by simp [hown]), List.eraseP_cons_of_pos hown] at hdiff

/-- What it takes for nothing to be left over. -/
theorem diff_eq_nil_laws (ruleId : String) (es : List Expected) :
    (∀ vs, diff ruleId es vs = ([], []) → Pairs ruleId es vs) ∧
    (∀ vs, Pairs ruleId es vs ↔ ∃ es', es'.Perm es ∧ diff ruleId es' vs = ([], [])) ∧
    ((∀ vs, diff ruleId es vs = ([], []) ↔ Pairs ruleId es vs) ↔ Orderly ruleId es) ∧
    ∀ es' vs, es'.Perm es → Orderly ruleId es → Orderly ruleId es' →
      (diff ruleId es vs = ([], []) ↔ diff ruleId es' vs = ([], [])) := by
  have hiff {fs : List Expected} (hfs : Orderly ruleId fs) (vs : List Violation) :
      diff ruleId fs vs = ([], []) ↔ Pairs ruleId fs vs := ⟨pairs_of_diff, diff_of_pairs hfs⟩
  refine ⟨fun vs => pairs_of_diff, fun vs => ⟨exists_order_of_pairs, ?_⟩, ⟨?_, hiff⟩, ?_⟩
  · rintro ⟨es', hperm, hdiff⟩
    exact (pairs_of_diff hdiff).perm hperm.symm
  · exact fun h => orderly_of_diff fun vs => (h vs).mpr
  · intro es' vs hperm hes hes'
    rw [hiff hes, hiff hes']
    exact ⟨Pairs.perm hperm, Pairs.perm hperm.symm⟩

def found (column : Nat) : Violation :=
  { ruleId := "r", file := "f.ts", language := .typescript, severity := .warning, category := none, message := "m"
    location := ⟨1, column, 1, column + 1, (column : Int) - 1, column⟩, fix := none
    fingerprint := "1:" ++ toString column }

def expectedAt (column : Nat) : Expected := { line := 1, column := some column }

theorem orderly_expectedAt {m n : Nat} (h : m ≠ n) : Orderly "r" [expectedAt m, expectedAt n, { line := 1 }] := by
  have hvague (column : Nat) : Expected.StatesAll (expectedAt column) { line := 1 } := ⟨nofun, nofun, nofun⟩
  have hdiffer : ¬Expected.Compatible "r" (expectedAt m) (expectedAt n) := fun hc => h (hc.column m rfl n rfl)
  simp [Orderly, hvague, hdiffer]

/-- An entry that leaves the column open stands behind those that state it, and these may stand in either order. -/
theorem diff_eq_nil_laws_vague_last :
    let vs := [found 1, found 5, found 9]
    Pairs "r" [expectedAt 1, expectedAt 5, { line := 1 }] vs ∧
      diff "r" [expectedAt 5, expectedAt 1, { line := 1 }] vs = ([], []) := by
  intro vs
  obtain ⟨hpairs, -, -, hsame⟩ := diff_eq_nil_laws "r" [expectedAt 1, expectedAt 5, { line := 1 }]
  have hdiff : diff "r" [expectedAt 1, expectedAt 5, { line := 1 }] vs = ([], []) := by decide
  exact ⟨hpairs vs hdiff, (hsame _ vs (.swap _ _ _) (orderly_expectedAt (by decide))
    (orderly_expectedAt (by decide))).mp hdiff⟩

/-- The entry that leaves the column open stands first and takes what the other needs, though there is another one for
it, which it takes if it stands last. -/
theorem diff_vague_first :
    let vs := [found 1, found 5]
    Pairs "r" [{ line := 1 }, expectedAt 1] vs ∧
      diff "r" [{ line := 1 }, expectedAt 1] vs = ([expectedAt 1], [found 5]) ∧
      diff "r" [expectedAt 1, { line := 1 }] vs = ([], []) := by
  refine ⟨⟨[found 5, found 1], .swap _ _ _, ?_⟩, by decide, by decide⟩
  exact .cons (by decide) (.cons (by decide) .nil)

end Fixture

end RuleScan
