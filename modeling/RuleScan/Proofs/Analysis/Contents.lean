import RuleScan.Analysis.Basic
import RuleScan.Proofs.Text.Decoding

/-! What a file reads as, for each way to give its content. Bytes that are given and bytes on the disk
read alike. Text that is given reads as the bytes that encode it do, but keeps a byte order mark at its
start, which the others lose. -/

namespace RuleScan

namespace Utf8

theorem withoutMark_eq_self_iff (s : String) : withoutMark s = s ↔ s.toList.head? ≠ some '\uFEFF' := by
  unfold withoutMark
  split
  · next rest h =>
    simp only [h, List.head?_cons, ne_eq, not_true_eq_false, iff_false]
    intro hs
    rw [← hs, String.toList_ofList] at h
    simpa using congrArg List.length h
  · next h =>
    simp only [ne_eq, true_iff]
    intro hs
    obtain ⟨rest, hrest⟩ := List.head?_eq_some_iff.1 hs
    exact h rest hrest

end Utf8

namespace Content

def toBytes : Content → List UInt8
  | .text s => Utf8.encode s
  | .bytes b => b

theorem size_eq (content : Content) : content.size = content.toBytes.length := by
  cases content with
  | text s => exact (Utf8.length_encode s).symm
  | bytes b => rfl

theorem decode?_eq (content : Content) :
    content.decode? = (Utf8.decode? content.toBytes).map Utf8.withoutMark := by
  cases content with
  | text s =>
    have h : Utf8.decode? (Utf8.encode s) = some s := (Utf8.decode?_eq_some_iff _ _).2 rfl
    rw [toBytes, h]
    rfl
  | bytes b => rfl

end Content

namespace SourceInput

/-- The same file with its content given, or to be read from the disk. -/
def withContent (input : SourceInput) (content : Option Content) : SourceInput := { input with content }

def readBytes (input : SourceInput) (limit : Int) (bytes : List UInt8) : Except AnalysisError String :=
  if limit < bytes.length then .error (.ofParseError ⟨input.path, .tooLarge bytes.length limit⟩)
  else
    match Utf8.decode? bytes with
    | some s => .ok (Utf8.withoutMark s)
    | none => .error (.ofParseError ⟨input.path, .notUtf8⟩)

theorem decode_eq (input : SourceInput) (limit : Int) (content : Content) (h : ¬limit < content.toBytes.length) :
    decode content input.path = input.readBytes limit content.toBytes := by
  rw [decode, content.decode?_eq, readBytes, if_neg h]
  cases Utf8.decode? content.toBytes <;> rfl

theorem read_bytes (input : SourceInput) (limit : Int) (disk : Disk) (bytes : List UInt8) :
    (input.withContent (some (.bytes bytes))).read limit disk = input.readBytes limit bytes := by
  by_cases h : limit < bytes.length
  · simp [withContent, read, readBytes, h]
  · simp only [withContent, read, if_neg h]
    exact input.decode_eq limit (.bytes bytes) h

theorem read_file {input : SourceInput} (limit : Int) {disk : Disk} {f : File}
    (hf : disk.stat (input.absolutePath.getD input.path) = .ok (.file f)) :
    (input.withContent none).read limit disk = input.readBytes limit f.content.toBytes := by
  simp only [withContent, read, hf, f.content.size_eq]
  by_cases h : limit < f.content.toBytes.length
  · simp [readBytes, h]
  · rw [if_neg h]
    exact input.decode_eq limit f.content h

theorem readBytes_encode (input : SourceInput) (limit : Int) (s : String) :
    input.readBytes limit (Utf8.encode s) =
      if limit < s.utf8ByteSize then .error (.ofParseError ⟨input.path, .tooLarge s.utf8ByteSize limit⟩)
      else .ok (Utf8.withoutMark s) := by
  have h : Utf8.decode? (Utf8.encode s) = some s := (Utf8.decode?_eq_some_iff _ _).2 rfl
  rw [readBytes, h, Utf8.length_encode]

theorem readBytes_eq_notUtf8_iff (input : SourceInput) (limit : Int) (bytes : List UInt8) :
    (∃ e, input.readBytes limit bytes = .error e ∧ e.code = "unsupported-encoding") ↔
      bytes.length ≤ limit ∧ ¬bytes.toByteArray.IsValidUTF8 := by
  rw [← Utf8.isSome_decode?_iff, readBytes]
  by_cases h : limit < bytes.length
  · simp [h, AnalysisError.ofParseError, ParseFailure.code]
  · rw [if_neg h]
    cases Utf8.decode? bytes with
    | some s => simp
    | none => simpa [AnalysisError.ofParseError, ParseFailure.code] using h

theorem read_text (input : SourceInput) (limit : Int) (disk : Disk) (s : String) :
    (input.withContent (some (.text s))).read limit disk =
      if limit < s.utf8ByteSize then .error (.ofParseError ⟨input.path, .tooLarge s.utf8ByteSize limit⟩)
      else .ok s := rfl

/-- A file that holds the bytes of a text reads as those bytes do when they are given, and as the text
does when it is given, but for the mark at its start. Bytes are refused if they are not well formed. -/
theorem read_alike {input : SourceInput} {disk : Disk} {f : File} {s : String} (limit : Int)
    (hf : disk.stat (input.absolutePath.getD input.path) = .ok (.file f))
    (hs : f.content.toBytes = Utf8.encode s) :
    let onDisk := (input.withContent none).read limit disk
    let asBytes := (input.withContent (some (.bytes (Utf8.encode s)))).read limit disk
    let asText := (input.withContent (some (.text s))).read limit disk
    onDisk = asBytes ∧
      (limit < s.utf8ByteSize →
        asText = .error (.ofParseError ⟨input.path, .tooLarge s.utf8ByteSize limit⟩) ∧ asBytes = asText) ∧
      (s.utf8ByteSize ≤ limit → asText = .ok s ∧ asBytes = .ok (Utf8.withoutMark s)) ∧
      (asBytes = asText ↔ s.utf8ByteSize ≤ limit → s.toList.head? ≠ some '\uFEFF') ∧
      ∀ bytes : List UInt8,
        (∃ e, (input.withContent (some (.bytes bytes))).read limit disk = .error e ∧
            e.code = "unsupported-encoding") ↔
          bytes.length ≤ limit ∧ ¬bytes.toByteArray.IsValidUTF8 := by
  intro onDisk asBytes asText
  have hb : asBytes = _ := (input.read_bytes limit disk _).trans (input.readBytes_encode limit s)
  have ht : asText = _ := input.read_text limit disk s
  have hd : onDisk = asBytes := by
    rw [hb, ← input.readBytes_encode limit s, ← hs]
    exact read_file limit hf
  refine ⟨hd, fun h => ?_, fun h => ?_, ?_, fun bytes => ?_⟩
  · rw [hb, ht, if_pos h, if_pos h]
    exact ⟨rfl, rfl⟩
  · rw [hb, ht, if_neg (by omega), if_neg (by omega)]
    exact ⟨rfl, rfl⟩
  · rw [hb, ht, ← Utf8.withoutMark_eq_self_iff]
    by_cases h : limit < s.utf8ByteSize
    · simp [h]
    · simp [h, Int.not_lt.1 h]
  · rw [read_bytes]
    exact input.readBytes_eq_notUtf8_iff limit bytes

/-- A euro sign behind a mark, on the disk as bytes. -/
theorem read_alike_marked :
    let disk : Disk := ⟨"/", .directory [("a.ts", .file { content := .bytes [0xEF, 0xBB, 0xBF, 0xE2, 0x82, 0xAC] })]⟩
    let input : SourceInput := { path := "/a.ts" }
    (input.withContent none).read 6 disk = .ok "€" ∧
      (input.withContent (some (.text "\uFEFF€"))).read 6 disk = .ok "\uFEFF€" := by
  intro disk input
  have hf : disk.stat "/a.ts" = .ok (.file { content := .bytes [0xEF, 0xBB, 0xBF, 0xE2, 0x82, 0xAC] }) := by
    have hbelow : disk.below? "/a.ts" = some ["a.ts"] := by decide +kernel
    have hslash : "/a.ts".endsWith "/" = false := by decide +kernel
    simp only [Disk.stat, Disk.find, hbelow, hslash]
    rfl
  have hs : Utf8.encode "\uFEFF€" = [0xEF, 0xBB, 0xBF, 0xE2, 0x82, 0xAC] := by decide
  have h := @read_alike input disk _ _ 6 hf hs.symm
  have hz : ("\uFEFF€".utf8ByteSize : Int) ≤ 6 := by decide
  exact ⟨h.1.trans (h.2.2.1 hz).2, (h.2.2.1 hz).1⟩

/-- Text that starts with a mark does not read as the bytes that encode it. -/
theorem read_marked_ne :
    let input : SourceInput := { path := "a.ts" }
    (input.withContent (some (.text "\uFEFFx"))).read 1048576 ⟨"/", .directory []⟩ ≠
      (input.withContent (some (.bytes (Utf8.encode "\uFEFFx")))).read 1048576 ⟨"/", .directory []⟩ := by
  intro input
  rw [read_text, read_bytes, readBytes_encode]
  decide

end SourceInput

end RuleScan
