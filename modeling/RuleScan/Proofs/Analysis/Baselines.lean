import RuleScan.Analysis.Baseline
import RuleScan.Proofs.Query.Parsing
import RuleScan.Proofs.Value.Quoting

/-! Baselines that are written and read again. -/
namespace RuleScan

namespace Value

section Members

variable {fuel : Nat} {key : String} {cs rest r : List Char} {v : Value}

theorem readMembers_more (acc : List (String × Value)) (h : readValue fuel cs = some (v, rest))
    (hcomma : skipBlanks rest = ',' :: r) :
    readMembers (fuel + 1) ((quote key).toList ++ ':' :: cs) acc = readMembers fuel r ((key, v) :: acc) := by
  rw [toList_quote, List.cons_append, readMembers, skipBlanks_cons (by decide), List.append_assoc]
  simp only [List.singleton_append, readString_quoted, skipBlanks_cons (c := ':') (by decide), h, hcomma]

theorem readMembers_last (acc : List (String × Value)) (h : readValue fuel cs = some (v, rest))
    (hclose : skipBlanks rest = '\x7d' :: r) :
    readMembers (fuel + 1) ((quote key).toList ++ ':' :: cs) acc = some (object ((key, v) :: acc).reverse, r) := by
  rw [toList_quote, List.cons_append, readMembers, skipBlanks_cons (by decide), List.append_assoc]
  simp only [List.singleton_append, readString_quoted, skipBlanks_cons (c := ':') (by decide), h, hclose]

end Members

theorem prettyItems_strings (pad : String) (xs : List String) : prettyItems pad (xs.map .str) = xs.map quote := by
  induction xs with
  | nil => rfl
  | cons x xs ih => simp [prettyItems, prettyAt, compact, ih]

theorem readValue_bracket {fuel : Nat} {blanks cs : List Char} (h : ∀ c ∈ blanks, isJsonBlank c = true) :
    readValue (fuel + 1) ('[' :: (blanks ++ '"' :: cs)) = readItems fuel (blanks ++ '"' :: cs) [] := by
  rw [readValue, skipBlanks_cons (by decide), readItems_blanks fuel h]
  simp only [skipBlanks_blanks h, skipBlanks_cons (c := '"') (by decide)]
  rfl

theorem readValue_brace {fuel : Nat} {blanks : List Char} (h : ∀ c ∈ blanks, isJsonBlank c = true) (key : String)
    (cs : List Char) :
    readValue (fuel + 1) ('\x7b' :: (blanks ++ ((quote key).toList ++ cs))) =
      readMembers fuel ((quote key).toList ++ cs) [] := by
  rw [readValue, skipBlanks_cons (by decide), toList_quote, List.cons_append]
  simp only [skipBlanks_blanks h, skipBlanks_cons (c := '"') (by decide)]
  rfl

theorem readValue_strings {pad : String} (hpad : ∀ c ∈ pad.toList, isJsonBlank c = true) (xs : List String)
    (rest : List Char) {fuel : Nat} (hfuel : xs.length + 2 ≤ fuel) :
    readValue fuel ((prettyAt pad (strings xs)).toList ++ rest) = some (strings xs, rest) := by
  obtain ⟨fuel, rfl⟩ : ∃ n, fuel = n + 1 := ⟨fuel - 1, by omega⟩
  rw [strings, prettyAt, prettyItems_strings]
  cases xs with
  | nil =>
    have htext : (block "[" "]" pad ([].map quote)).toList ++ rest = '[' :: ']' :: rest := by
      simp [block]
    rw [htext, readValue, skipBlanks_cons (by decide)]
    simp [skipBlanks_cons (c := ']') (by decide)]
  | cons x xs =>
    let lines := (",\n".intercalate ((x :: xs).map (pad ++ "  " ++ quote ·))).toList
    have htext : (block "[" "]" pad ((x :: xs).map quote)).toList ++ rest =
        '[' :: (['\n'] ++ (lines ++ ('\n' :: pad.toList ++ ']' :: rest))) := by
      have hparts : ((x :: xs).map quote).map (pad ++ "  " ++ ·) = (x :: xs).map (pad ++ "  " ++ quote ·) := by
        rw [List.map_map]
        rfl
      rw [block, if_neg (by simp), hparts]
      simp only [String.toList_append, List.append_assoc, lines]
      rfl
    have hindent : ∀ c ∈ (pad ++ "  ").toList, isJsonBlank c = true := by
      rw [String.toList_append]
      exact List.forall_mem_append.2 ⟨hpad, List.all_eq_true.mp (by decide)⟩
    have hclose : ∀ c ∈ '\n' :: pad.toList, isJsonBlank c = true := List.forall_mem_cons.2 ⟨by decide, hpad⟩
    obtain ⟨more, hmore⟩ : ∃ more, lines = (pad ++ "  ").toList ++ '"' :: more := by
      have hquote : quote x = "\"" ++ (String.ofList (x.toList.flatMap escapeChar) ++ "\"") := String.append_assoc
      refine ⟨(",\n".intercalate ((String.ofList (x.toList.flatMap escapeChar) ++ "\"") ::
        xs.map (pad ++ "  " ++ quote ·))).toList, ?_⟩
      simp only [lines, List.map_cons, String.intercalate_cons_append, hquote, String.toList_append]
      rfl
    have hfuel' : xs.length + 2 ≤ fuel := by
      rw [List.length_cons] at hfuel
      omega
    have hitems := readItems_strings hindent hclose rest x xs [] hfuel'
    have hblanks : ∀ c ∈ '\n' :: (pad ++ "  ").toList, isJsonBlank c = true :=
      List.forall_mem_cons.2 ⟨by decide, hindent⟩
    have hfirst : ['\n'] ++ (lines ++ ('\n' :: pad.toList ++ ']' :: rest)) =
        ('\n' :: (pad ++ "  ").toList) ++ '"' :: (more ++ ('\n' :: pad.toList ++ ']' :: rest)) := by
      simp [hmore]
    rw [htext, hfirst, readValue_bracket hblanks, ← hfirst, readItems_blanks fuel (List.all_eq_true.mp (by decide))]
    exact hitems

theorem length_le_intercalate (separator : String) : ∀ {parts : List String}, (∀ p ∈ parts, 0 < p.length) →
    parts.length ≤ (separator.intercalate parts).length
  | [], _ => Nat.zero_le _
  | [p], h => by
    rw [String.intercalate_singleton]
    exact h p (by simp)
  | p :: q :: parts, h => by
    have hp : 0 < p.length := h p (by simp)
    have ih := length_le_intercalate separator fun x hx => h x (List.mem_cons_of_mem p hx)
    rw [String.intercalate_cons_cons, String.length_append, String.length_append]
    simp only [List.length_cons] at ih ⊢
    omega

theorem length_le_prettyAt_strings (pad : String) (xs : List String) :
    xs.length ≤ (prettyAt pad (strings xs)).length := by
  rw [strings, prettyAt, prettyItems_strings, block]
  split
  · next h => simp [List.isEmpty_iff.1 h |> List.map_eq_nil_iff.1]
  · have hlines : ∀ p ∈ (xs.map quote).map (pad ++ "  " ++ ·), 0 < p.length := by
      intro p hp
      obtain ⟨s, -, rfl⟩ := List.mem_map.1 hp
      have htwo : "  ".length = 2 := rfl
      rw [String.length_append, String.length_append]
      omega
    have hlength := length_le_intercalate ",\n" hlines
    simp only [List.length_map, String.length_append] at hlength ⊢
    omega

end Value

namespace Baseline

theorem document_eq (prints : List String) :
    document prints = .obj [("schemaVersion", .str "1.0"), ("fingerprints", Value.strings prints)] := by
  simp [document, Value.object, Members.ofPairs, Members.set, Members.contains, Members.get?, Members.place]
  rfl

theorem toList_render (prints : List String) :
    (Document.render (document prints)).toList =
      '\x7b' :: ("\n  ".toList ++ ((Value.quote "schemaVersion").toList ++ (':' :: (" ".toList ++
        ((Value.quote "1.0").toList ++ (',' :: ("\n  ".toList ++ ((Value.quote "fingerprints").toList ++
          (':' :: (" ".toList ++ ((Value.prettyAt "  " (Value.strings prints)).toList ++
            "\n\x7d\n".toList))))))))))) := by
  rw [document_eq, Document.render, Value.pretty, Value.prettyAt]
  simp [Value.block, Value.prettyMembers, Value.prettyAt, Value.compact]

theorem parse?_render (prints : List String) :
    Value.parse? (Document.render (document prints)) = some (document prints) := by
  have hlong : prints.length + 2 ≤ (Document.render (document prints)).toList.length := by
    have hprints := Value.length_le_prettyAt_strings "  " prints
    rw [toList_render]
    simp only [List.length_cons, List.length_append, ← String.length_toList] at hprints ⊢
    omega
  obtain ⟨k, hk, hfuel⟩ : ∃ k, 2 * (Document.render (document prints)).toList.length + 2 = k + 1 + 1 + 1 ∧
      prints.length + 2 ≤ k := ⟨2 * (Document.render (document prints)).toList.length - 1, by omega, by omega⟩
  have hblank : ∀ c ∈ " ".toList, Value.isJsonBlank c = true := List.all_eq_true.mp (by decide)
  have hindent : ∀ c ∈ "\n  ".toList, Value.isJsonBlank c = true := List.all_eq_true.mp (by decide)
  have hpad : ∀ c ∈ "  ".toList, Value.isJsonBlank c = true := List.all_eq_true.mp (by decide)
  have hlist (rest : List Char) := Value.readValue_strings hpad prints rest hfuel
  have hread : Value.readValue (k + 1 + 1 + 1) (Document.render (document prints)).toList =
      some (document prints, "\n".toList) := by
    rw [toList_render, Value.readValue_brace hindent]
    rw [Value.readMembers_more [] ((Value.readValue_blanks _ hblank _).trans (Value.readValue_quote k "1.0" _))
      (Value.skipBlanks_cons (by decide) _), Value.readMembers_blanks _ hindent,
      Value.readMembers_last _ ((Value.readValue_blanks _ hblank _).trans (hlist _)) (r := "\n".toList) (by decide)]
    rfl
  have hend : (Value.skipBlanks "\n".toList).isEmpty = true := by decide
  simp only [Value.parse?, hk, hread, hend, if_true]

theorem texts?_strings (xs : List String) : texts? (Value.strings xs) = some xs := by
  change (xs.map Value.str).mapM Value.str? = some xs
  induction xs with
  | nil => rfl
  | cons x xs ih => simp [Value.str?, ih]

theorem fingerprints?_document (prints : List String) : fingerprints? (document prints) = some prints := by
  rw [fingerprints?, document_eq]
  simp [texts?.eq_2, Value.get?, Members.get?, texts?_strings]

end Baseline

namespace Entry

theorem lookup_replaceIn (name : String) (entry : Entry) (entries : List (String × Entry)) :
    (replaceIn name entry entries).lookup name = some entry := by
  induction entries with
  | nil => simp [replaceIn]
  | cons head rest ih =>
    obtain ⟨n, e⟩ := head
    rw [replaceIn]
    split
    · next h => simp [h]
    · next h =>
      rw [List.lookup_cons, beq_eq_false_iff_ne.2 (Ne.symm h)]
      exact ih

theorem followed_ne_link (e : Entry) (target : Option Entry) : e.followed ≠ some (.link target) := by
  match e with
  | .link (some e) => exact followed_ne_link e target
  | .link none | .file _ | .directory _ | .special => simp [followed]

/-- What a change leaves is what it makes of what is there. -/
theorem followed_change {f : Option Entry → Option Entry} (hf : ∀ e, (f (some e)).isSome) (e : Entry) :
    (e.change f).followed = (f e.followed).bind followed := by
  have hgetD : ∀ e, ((f (some e)).getD e).followed = (f (some e)).bind followed := by
    intro e
    obtain ⟨e', he'⟩ := Option.isSome_iff_exists.mp (hf e)
    rw [he']
    rfl
  match e with
  | .link (some e) => exact followed_change hf e
  | .link none =>
    rw [change]
    cases hnone : f none <;> simp [followed, hnone]
  | .file _ | .directory _ | .special => exact hgetD _

/-- A file is found where it is put, unless what is on the way is no directory. -/
theorem find_put (f : File) (e : Entry) (path : List String) :
    (put (.file f) e path).find path = .entry (.file f) ∨ (put (.file f) e path).find path = .blocked ∨
      (put (.file f) e path).find path = .nothing := by
  induction path generalizing e with
  | nil =>
    left
    rw [put, find, followed_change fun _ => rfl]
    rfl
  | cons name rest ih =>
    rw [put, find, followed_change]
    · cases hfollowed : e.followed with
      | none => exact .inr (.inr rfl)
      | some inner =>
        cases inner with
        | directory entries =>
          simp only [Option.bind_some, followed, lookup_replaceIn]
          exact ih _
        | link target => exact absurd hfollowed (followed_ne_link e target)
        | file _ | special => exact .inr (.inl rfl)
    · intro e
      cases e <;> rfl

end Entry

namespace Disk

theorem below?_put (d : Disk) (path : String) (entry : Entry) (path' : String) :
    (d.put path entry).below? path' = d.below? path' := by
  unfold put
  split <;> rfl

theorem eq_of_read_write {d d' : Disk} {path text : String} (h : d.write path text = .ok d') {f : File}
    (hf : d'.read path = .ok f) : f = { content := .text text } := by
  have hput : d' = d.put path (.file { content := .text text }) := by
    unfold write at h
    split at h
    · cases h
    · cases h
    · cases h
    · exact (Except.ok.inj h).symm
  unfold read find at hf
  rw [hput, below?_put, put] at hf
  cases hbelow : d.below? path with
  | none => simp [hbelow] at hf
  | some inner =>
    rcases Entry.find_put { content := .text text } d.tree inner with hfind | hfind | hfind
    · by_cases hslash : path.endsWith "/"
      · simp [hbelow, hfind, hslash] at hf
      · simp [hbelow, hfind, hslash] at hf
        exact hf.symm
    · simp [hbelow, hfind] at hf
    · simp [hbelow, hfind] at hf

end Disk

namespace Baseline

def file (prints : List String) : File := { content := .text (Document.render (document prints)) }

theorem eq_file_of_write {d d' : Disk} {path : String} {prints : List String} (h : write d path prints = .ok d')
    {f : File} (hf : d'.read path = .ok f) : f = file prints := by
  obtain ⟨made, -, hwrite⟩ := Query.bind_eq_ok.mp h
  exact Disk.eq_of_read_write hwrite hf

/-- A baseline that was written is read back, on any disk that holds the file as it was written. -/
theorem read_of_write {d d' d'' : Disk} {path : String} {prints : List String} (h : write d path prints = .ok d')
    {f : File} (hf : d'.read path = .ok f) (hsame : d''.read path = .ok f) : read d'' path = .ok prints := by
  rw [eq_file_of_write h hf] at hsame
  simp only [read, hsame, file, Content.lossy, parse?_render, fingerprints?_document]

end Baseline

end RuleScan
