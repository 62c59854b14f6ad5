import Mathlib.Data.List.Nodup
import RuleScan.Proofs.Regex.Terms

/-! Where named groups open. Reading an expression gives a named group for each sign of one that stands neither in an
escape nor in a class. Main statement: the named groups of an expression are, in order of their index, those that open
in its text, each under the name that is read there. -/
namespace RuleScan

namespace Regex

def nameAt? (after : List Nat) : Option String := (readName (after.length + 1) [] after).toOption.map (·.1)

def Opening.names : Opening → List String
  | .capture name => name.toList
  | _ => []

/-- Between two places of a text the named groups `news` open, and reading from one to the other adds them. -/
structure Opens (st st' : Progress) (rest done : List Nat) (news : List (String × Nat)) : Prop where
  perm : st'.names.Perm (news ++ st.names)
  increasing : news.Pairwise (·.2 < ·.2)
  grows : st.groups ≤ st'.groups
  within : ∀ x ∈ news, st.groups < x.2 ∧ x.2 ≤ st'.groups
  names_eq : (openings rest).map nameAt? = news.map (fun x => some x.1) ++ (openings done).map nameAt?

section Reading

variable {st st₁ st' : Progress} {rest mid done tail body : List Nat} {news news' : List (String × Nat)}
  {opening : Opening}

theorem Opens.nothing (hnames : st'.names = st.names) (hgroups : st'.groups = st.groups)
    (h : openings rest = openings done) : Opens st st' rest done [] :=
  ⟨hnames ▸ .refl _, .nil, Nat.le_of_eq hgroups.symm, nofun, by rw [h]; rfl⟩

theorem Opens.trans (h : Opens st st₁ rest mid news) (h' : Opens st₁ st' mid done news') :
    Opens st st' rest done (news ++ news') := by
  constructor
  · have hperm : st'.names.Perm (news' ++ (news ++ st.names)) := h'.perm.trans (h.perm.append_left news')
    rw [List.append_assoc]
    exact hperm.trans (List.perm_append_comm_assoc _ _ _)
  · refine List.pairwise_append.mpr ⟨h.increasing, h'.increasing, ?_⟩
    intro x hx y hy
    exact Nat.lt_of_le_of_lt (h.within x hx).2 (h'.within y hy).1
  · exact Nat.le_trans h.grows h'.grows
  · intro x hx
    obtain hx | hx := List.mem_append.mp hx
    · have hwithin := h.within x hx
      exact ⟨hwithin.1, Nat.le_trans hwithin.2 h'.grows⟩
    · have hwithin := h'.within x hx
      exact ⟨Nat.lt_of_le_of_lt h.grows hwithin.1, hwithin.2⟩
  · rw [h.names_eq, h'.names_eq, List.map_append, List.append_assoc]

theorem afterSign?_group (q l : Nat) (after : List Nat) :
    afterSign? (code '(' :: q :: l :: after) = if q = code '?' ∧ l = code '<' then some after else none := by
  simp only [afterSign?, true_and]

/-- A parenthesis opens the named group whose name is read after it, or none. -/
theorem names_readOpening (h : readOpening tail = .ok (opening, body)) :
    (openings (code '(' :: tail)).map nameAt? = opening.names.map some ++ (openings body).map nameAt? := by
  rw [openings_cons (by decide) (by decide)]
  unfold readOpening at h
  split at h
  · next q l after =>
    rw [afterSign?_group]
    have hplain {c : Nat} (hc : Ordinary c) (hne : c ≠ code '<') (hq : q = code '?') (hl : l = c) :
        ((if q = code '?' ∧ l = code '<' then some after else none).filter isNaming).toList ++
          openings (q :: l :: after) = openings after := by
      rw [if_neg fun hsign => hne (hl.symm.trans hsign.2), hq, hl]
      exact ((Passes.cons (by decide) _).trans (.cons hc after)).openings_eq
    split at h
    · next hq =>
      cases h
      rw [if_neg fun hsign => absurd hsign.1 (by simpa using hq)]
      rfl
    next hq =>
    have hq : q = code '?' := by simpa using hq
    obtain ⟨hl, h⟩ | ⟨-, h⟩ := ite_eq_iff.mp h
    · cases h
      rw [hplain (by decide) (by decide) hq hl]
      rfl
    obtain ⟨hl, h⟩ | ⟨-, h⟩ := ite_eq_iff.mp h
    · cases h
      rw [hplain (by decide) (by decide) hq hl]
      rfl
    obtain ⟨hl, h⟩ | ⟨-, h⟩ := ite_eq_iff.mp h
    · cases h
      rw [hplain (by decide) (by decide) hq hl]
      rfl
    obtain ⟨hl, h⟩ | ⟨-, h⟩ := ite_eq_iff.mp h
    · have hsign : openings (q :: l :: after) = openings after := by
        rw [hq, hl]
        exact ((Passes.cons (by decide) _).trans (.cons (by decide) after)).openings_eq
      rw [if_pos ⟨hq, hl⟩, hsign]
      cases after with
      | nil => cases h
      | cons c more =>
        obtain ⟨hc, h⟩ | ⟨hahead, h⟩ := ite_eq_iff.mp h
        · cases h
          rw [hc, (Passes.cons (by decide) body).openings_eq]
          rfl
        obtain ⟨hc, h⟩ | ⟨hbehind, h⟩ := ite_eq_iff.mp h
        · cases h
          rw [hc, (Passes.cons (by decide) body).openings_eq]
          rfl
        · obtain ⟨⟨name, done⟩, hread, he⟩ := Query.map_eq_ok.mp h
          cases he
          have hnaming : isNaming (c :: more) = true := by
            simp only [isNaming, List.head?_cons, bne_iff_ne, ne_eq, Option.some.injEq, Bool.and_eq_true]
            exact ⟨hahead, hbehind⟩
          have hname : nameAt? (c :: more) = some name := by
            rw [nameAt?, hread]
            rfl
          rw [Option.filter_some_pos hnaming, (passes_readName hread).openings_eq, List.map_append]
          simp only [Option.toList_some, List.map_cons, List.map_nil, hname]
          rfl
    · cases h
  · next q =>
    split at h
    · cases h
    · cases h
      rfl
  · cases h
    rfl

theorem of_closeGroup {index : Nat} {inner term : Regex} {kind : TermKind}
    (h : closeGroup opening index st inner = .ok (term, kind, st')) :
    st'.names = opening.names.map (·, index) ++ st.names ∧ st'.groups = st.groups := by
  unfold closeGroup at h
  split at h
  · cases h
    exact ⟨rfl, rfl⟩
  · cases h
    exact ⟨rfl, rfl⟩
  · cases h
    exact ⟨rfl, rfl⟩
  · split at h
    · cases h
    · cases h
      exact ⟨rfl, rfl⟩

/-- A group adds its own name, if it has one, before those in it. -/
theorem Opens.of_group {opened : Progress} {after : List Nat} {inner term : Regex} {kind : TermKind}
    (hopening : readOpening tail = .ok (opening, body)) (hnames : opened.names = st.names)
    (hgrows : st.groups ≤ opened.groups) (hcounted : ∀ name ∈ opening.names, opened.groups = st.groups + 1)
    (h : Opens opened st₁ body after news)
    (hclose : closeGroup opening (st.groups + 1) st₁ inner = .ok (term, kind, st'))
    (hdone : openings after = openings done) :
    Opens st st' (code '(' :: tail) done (opening.names.map (·, st.groups + 1) ++ news) := by
  obtain ⟨hclosed, hgroups⟩ := of_closeGroup hclose
  have hown : ∀ x ∈ opening.names.map (·, st.groups + 1), x.2 = st.groups + 1 ∧ opened.groups = st.groups + 1 := by
    intro x hx
    obtain ⟨name, hname, rfl⟩ := List.mem_map.mp hx
    exact ⟨rfl, hcounted name hname⟩
  have hone : (opening.names.map (·, st.groups + 1)).Pairwise (·.2 < ·.2) := by
    cases opening with
    | plain => exact .nil
    | look => exact .nil
    | capture name =>
      cases name with
      | none => exact .nil
      | some name => exact List.pairwise_singleton _ _
  constructor
  · rw [hclosed, List.append_assoc, ← hnames]
    exact h.perm.append_left _
  · refine List.pairwise_append.mpr ⟨hone, h.increasing, ?_⟩
    intro x hx y hy
    obtain ⟨hindex, hopened⟩ := hown x hx
    have hinside := (h.within y hy).1
    omega
  · rw [hgroups]
    exact Nat.le_trans hgrows h.grows
  · intro x hx
    rw [hgroups]
    have hmore := h.grows
    obtain hx | hx := List.mem_append.mp hx
    · obtain ⟨hindex, hopened⟩ := hown x hx
      omega
    · have hinside := h.within x hx
      omega
  · rw [names_readOpening hopening, h.names_eq, hdone, List.map_append, List.map_map, List.append_assoc]
    rfl

/-- What reading alternatives adds to the names is what opens in the text that is read. -/
theorem exists_opens_of_readAlternatives {mode : Mode} {inside : Bool} {fuel : Nat} {acc : List Regex} {term : Regex}
    (h : readAlternatives mode inside fuel st acc rest = .ok ((term, st'), done)) :
    (inside = false → done = []) ∧ ∃ news, Opens st st' rest done news := by
  induction fuel generalizing inside st acc rest st' done term with
  | zero => cases h
  | succ fuel ih =>
    rw [readAlternatives.eq_def] at h
    dsimp only at h
    split at h
    · split at h
      · cases h
      · cases h
        exact ⟨fun _ => rfl, [], .nothing rfl rfl rfl⟩
    next c tail =>
    split at h
    · next hc =>
      split at h
      · next hinside =>
        cases h
        refine ⟨fun he => absurd (hinside.symm.trans he) nofun, [], .nothing rfl rfl ?_⟩
        rw [hc]
        exact openings_of_ne (by decide) (by decide) (by decide)
      · cases h
    split at h
    · next hc =>
      obtain ⟨⟨⟨right, st₁⟩, done₁⟩, hright, h⟩ := Query.bind_eq_ok.mp h
      cases h
      obtain ⟨hdone, news, hnews⟩ := ih hright
      refine ⟨hdone, news, ?_⟩
      have hsign : openings (c :: tail) = openings tail := by
        rw [hc]
        exact openings_of_ne (by decide) (by decide) (by decide)
      exact Opens.trans (.nothing rfl rfl hsign) hnews
    split at h
    · next hc =>
      obtain ⟨⟨opening, body⟩, hopening, h⟩ := Query.bind_eq_ok.mp h
      obtain ⟨⟨⟨inner, st₁⟩, after⟩, hinner, h⟩ := Query.bind_eq_ok.mp h
      obtain ⟨⟨term₁, kind, st₂⟩, hclose, h⟩ := Query.bind_eq_ok.mp h
      obtain ⟨⟨term₂, done₁⟩, hquantify, h⟩ := Query.bind_eq_ok.mp h
      obtain ⟨hdone, later, hlater⟩ := ih h
      obtain ⟨-, news, hnews⟩ := ih hinner
      refine ⟨hdone, (opening.names.map (·, st.groups + 1) ++ news) ++ later, Opens.trans ?_ hlater⟩
      rw [hc]
      refine Opens.of_group hopening ?_ ?_ ?_ hnews hclose (passes_quantify hquantify).openings_eq
      · cases opening <;> rfl
      · cases opening with
        | capture => exact Nat.le_succ _
        | plain => exact Nat.le_refl _
        | look => exact Nat.le_refl _
      · intro name hname
        cases opening with
        | capture => rfl
        | plain => cases hname
        | look => cases hname
    next hgroup =>
    split at h
    · next term₁ after hassertion =>
      obtain ⟨hdone, news, hnews⟩ := ih h
      exact ⟨hdone, news, Opens.trans (.nothing rfl rfl (openings_assertion? hassertion)) hnews⟩
    · obtain ⟨⟨⟨term₁, st₁⟩, after⟩, hatom, h⟩ := Query.bind_eq_ok.mp h
      obtain ⟨⟨term₂, done₁⟩, hquantify, h⟩ := Query.bind_eq_ok.mp h
      obtain ⟨hdone, news, hnews⟩ := ih h
      obtain ⟨hopenings, hgroups⟩ := openings_readAtom hgroup hatom
      have hread := hopenings.trans (passes_quantify hquantify).openings_eq
      exact ⟨hdone, news, Opens.trans (.nothing (names_of_readAtom hatom) hgroups hread) hnews⟩

end Reading

/-- There is one way to order entries that do not share an index. -/
theorem mergeSort_eq_of_increasing {names news : List (String × Nat)} (hperm : names.Perm news)
    (hincreasing : news.Pairwise (·.2 < ·.2)) : (names.mergeSort fun a b => a.2 ≤ b.2) = news := by
  have hsort := List.mergeSort_perm names fun a b => a.2 ≤ b.2
  have hindices : (news.map (·.2)).Nodup := List.pairwise_map.mpr (hincreasing.imp Nat.ne_of_lt)
  have hsorted : (names.mergeSort fun a b => a.2 ≤ b.2).Pairwise fun a b => decide (a.2 ≤ b.2) = true := by
    refine List.pairwise_mergeSort ?_ ?_ names
    · intro a b c hab hbc
      rw [decide_eq_true_eq] at hab hbc ⊢
      exact Nat.le_trans hab hbc
    · intro a b
      rw [Bool.or_eq_true, decide_eq_true_eq, decide_eq_true_eq]
      exact Nat.le_total a.2 b.2
  refine (hsort.trans hperm).eq_of_pairwise ?_ hsorted (hincreasing.imp fun hlt => decide_eq_true (Nat.le_of_lt hlt))
  intro a b ha hb hle hge
  rw [decide_eq_true_eq] at hle hge
  have ha := hperm.mem_iff.mp (hsort.mem_iff.mp ha)
  exact List.inj_on_of_nodup_map hindices ha hb (Nat.le_antisymm hle hge)

/-- The named groups of an expression, in order of their index, are those that open in its text. -/
theorem names_of_compile {source word : String} {p : Program} (h : compile source word = .ok p) :
    p.names.map (fun x => some x.1) = (openings (sourceCodes p.flags.codePoints source)).map nameAt? := by
  unfold compile at h
  split at h
  · cases h
  split at h
  · next parsed hparse =>
    cases h
    obtain ⟨⟨⟨body, st⟩, rest⟩, hread, h⟩ := Query.bind_eq_ok.mp hparse
    obtain ⟨hdone, news, hnews⟩ := exists_opens_of_readAlternatives hread
    have hperm := hnews.perm
    rw [List.append_nil] at hperm
    dsimp only at h
    split at h
    · cases h
      have hnames := hnews.names_eq
      rw [hdone rfl] at hnames
      dsimp only
      rw [mergeSort_eq_of_increasing hperm hnews.increasing, hnames]
      simp [openings]
    · cases h
  · cases h

end Regex

end RuleScan
