import Mathlib
import CodeIndex.Proofs.Disk.Parents
import CodeIndex.Proofs.Json.RoundTrip
import CodeIndex.Proofs.Text.Decoding

/-!
# Values that are added to a file

Values are added to a file one to a line, as often as one likes. A written value holds no line feed, so the
lines of the file are the values that were added, in their order, and each line is read back as its value. The
first values make the file and the directories above it; later ones find them there.

Main result: `appendEach_reads_back`.
-/

namespace CodeIndex

open Text (Bytes)

/-! ## §1. Lines. -/

theorem splitOn_lines {α : Type} [BEq α] [LawfulBEq α] (mark : α) {lines : List (List α)}
    (h : ∀ line ∈ lines, mark ∉ line) :
    (lines.flatMap fun line => line ++ [mark]).splitOn mark = lines ++ [[]] := by
  induction lines with
  | nil => simp
  | cons line lines ih =>
    have hline : line.splitOn mark = [line] := by
      have hmarked : ∀ l ∈ [line], mark ∉ l := by
        intro l hl
        rw [List.mem_singleton.mp hl]
        exact h line List.mem_cons_self
      have hone := List.splitOn_intercalate mark hmarked (List.cons_ne_nil line [])
      rwa [List.intercalate_singleton] at hone
    rw [List.flatMap_cons, List.append_assoc, List.singleton_append, List.splitOn_append_cons_self, hline,
      ih fun l hl => h l (List.mem_cons_of_mem _ hl), List.singleton_append, List.cons_append]

theorem encode_lines (lines : List (List Char)) :
    Text.encode (lines.flatMap (· ++ ['\n'])) = (lines.map Text.encode).flatMap fun line => line ++ [10] := by
  induction lines with
  | nil => rfl
  | cons line lines ih =>
    rw [List.flatMap_cons, Text.encode_append, Text.encode_append, ih, List.map_cons, List.flatMap_cons]
    rfl

namespace Disk

variable {d : Disk} {path : String} {place : Location}

/-! ## §2. Adding once. -/

/-- What the file at a place holds, if there is one. -/
def contentAt (d : Disk) (place : Location) : Bytes := ((d.at? place).bind Entry.bytes?).getD []

theorem appendLines_of_admits (h : d.Admits path place) (lines : List (List Char)) :
    d.appendLines path lines =
      ⟨d.put place (.file (d.contentAt place ++ Text.encode (lines.flatMap (· ++ ['\n'])))),
        .ok lines.length⟩ := by
  unfold appendLines
  rw [h.toPlaces.makeParent]
  simp only
  rw [modifyFile_eq_ok_iff.mpr ⟨place, h, rfl⟩]
  rfl

theorem contentAt_file {content : Bytes} (h : d.at? place = some (.file content)) :
    d.contentAt place = content := by
  unfold contentAt
  rw [h]
  rfl

/-- A file can be made at a path: the directories above it can, and nothing stands at its place. -/
structure Fresh (d : Disk) (path : String) : Prop where
  parents : (d.makeParent path).result = .ok ()
  place : ∃ place, (d.makeParent path).disk.Places path place ∧ (d.makeParent path).disk.at? place = none

/-- The directories above are made once. -/
theorem appendLines_makeParent (hparents : (d.makeParent path).result = .ok ())
    (h : (d.makeParent path).disk.Places path place) (lines : List (List Char)) :
    d.appendLines path lines = (d.makeParent path).disk.appendLines path lines := by
  have hmade : d.makeParent path = ⟨(d.makeParent path).disk, .ok ()⟩ := by rw [← hparents]
  conv_lhs => rw [appendLines, hmade]
  conv_rhs => rw [appendLines, h.makeParent]

/-! ## §3. Adding again and again. -/

/-- Lists of values are added to a file, one after another. -/
def appendEach (d : Disk) (path : String) : List (List Json) → Disk × List (Except DiskError Nat)
  | [] => (d, [])
  | records :: rest =>
    let w := d.appendLines path (records.map Json.compact)
    let later := w.disk.appendEach path rest
    (later.1, w.result :: later.2)

/-- The lines of some values. -/
def linesOf (records : List Json) : Bytes := Text.encode ((records.map Json.compact).flatMap (· ++ ['\n']))

theorem linesOf_append (records more : List Json) :
    linesOf (records ++ more) = linesOf records ++ linesOf more := by
  unfold linesOf
  rw [List.map_append, List.flatMap_append, Text.encode_append]

/-- Where a file stands, each list of values is added behind those before it. -/
theorem appendEach_of_file (h : d.Admits path place) {content : Bytes}
    (hfile : d.at? place = some (.file content)) (calls : List (List Json)) :
    (d.appendEach path calls).2 = calls.map (fun records => .ok records.length) ∧
      (d.appendEach path calls).1.read path = .ok (content ++ linesOf calls.flatten) := by
  induction calls generalizing d content with
  | nil =>
    refine ⟨rfl, ?_⟩
    rw [List.flatten_nil, show linesOf [] = [] from rfl, List.append_nil]
    exact h.toPlaces.read hfile
  | cons records calls ih =>
    obtain ⟨hresults, hread⟩ := ih (h.toPlaces.put_file (content ++ linesOf records)) (at?_put_self h.toPlaces.ne_nil _)
    unfold appendEach
    rw [appendLines_of_admits h, contentAt_file hfile]
    refine ⟨?_, ?_⟩
    · rw [List.map_cons, List.length_map, ← hresults]
      rfl
    · rw [List.flatten_cons, linesOf_append, ← List.append_assoc, ← hread]
      rfl

/-- So it is where a file can be made; the first list makes it. -/
theorem appendEach_of_fresh (h : d.Fresh path) (calls : List (List Json)) :
    (d.appendEach path calls).2 = calls.map (fun records => .ok records.length) ∧
      (calls ≠ [] → (d.appendEach path calls).1.read path = .ok (linesOf calls.flatten)) := by
  obtain ⟨place, hplace, hnone⟩ := h.place
  cases calls with
  | nil => exact ⟨rfl, fun hne => absurd rfl hne⟩
  | cons records calls =>
    have hcontent : (d.makeParent path).disk.contentAt place = [] := by
      unfold contentAt
      rw [hnone]
      rfl
    obtain ⟨hresults, hread⟩ :=
      appendEach_of_file (hplace.put_file (linesOf records)) (at?_put_self hplace.ne_nil _) calls
    have hopen : (d.makeParent path).disk.Admits path place := .of_nothing hplace hnone
    unfold appendEach
    rw [appendLines_makeParent h.parents hplace, appendLines_of_admits hopen, hcontent, List.nil_append]
    refine ⟨?_, fun _ => ?_⟩
    · rw [List.map_cons, List.length_map, ← hresults]
      rfl
    · rw [List.flatten_cons, linesOf_append, ← hread]
      rfl

/-- A line of a file that holds a value: it is a text without a line feed, and is read back as the value within
any limit that its nesting keeps to. The reader has such a limit, and puts what it reads into the normal form. -/
def HoldsRecord (v : Json) (line : Bytes) : Prop :=
  ∃ text, Text.decode? line = some text ∧ '\n' ∉ text ∧
    (∀ limit, Json.readNested? limit text = if v.nesting ≤ limit then some v else none) ∧
    Json.read? text = if v.nesting ≤ Json.maxDepth then some v.normalize else none

theorem holdsRecord_compact {v : Json} (h : v.IsWhole) : HoldsRecord v (Text.encode v.compact) :=
  ⟨v.compact, Text.decode?_encode _, Json.newline_notMem_compact h, Json.readNested?_compact h,
    Json.read?_compact h⟩

theorem holdsRecords {records : List Json} (h : ∀ v ∈ records, v.IsWhole) :
    List.Forall₂ HoldsRecord records (records.map fun v => Text.encode v.compact) := by
  rw [List.forall₂_map_right_iff, List.forall₂_same]
  exact fun v hv => holdsRecord_compact (h v hv)

theorem splitOn_linesOf {records : List Json} (h : ∀ v ∈ records, v.IsWhole) :
    (linesOf records).splitOn 10 = (records.map fun v => Text.encode v.compact) ++ [[]] := by
  unfold linesOf
  rw [encode_lines, splitOn_lines, List.map_map]
  · rfl
  · intro line hline
    rw [List.map_map] at hline
    obtain ⟨v, hv, rfl⟩ := List.mem_map.mp hline
    intro hmem
    exact Json.newline_notMem_compact (h v hv) (Text.newline_mem_encode.mp hmem)

/-- **Values that are added to a fresh file** are read back from it. Each list is added whole. The file, cut at
its line feeds, has one line for each value, in the order in which they were added, and nothing behind the last
one. -/
theorem appendEach_reads_back (hfresh : d.Fresh path) {calls : List (List Json)}
    (hwhole : ∀ records ∈ calls, ∀ v ∈ records, v.IsWhole) :
    (d.appendEach path calls).2 = calls.map (fun records => .ok records.length) ∧
      (calls ≠ [] → ∃ content lines, (d.appendEach path calls).1.read path = .ok content ∧
        content.splitOn 10 = lines ++ [[]] ∧ List.Forall₂ HoldsRecord calls.flatten lines) := by
  obtain ⟨hresults, hread⟩ := appendEach_of_fresh hfresh calls
  have hrecords : ∀ v ∈ calls.flatten, v.IsWhole := by
    intro v hv
    obtain ⟨records, hrecords, hv⟩ := List.mem_flatten.mp hv
    exact hwhole records hrecords v hv
  refine ⟨hresults, fun hne => ?_⟩
  exact ⟨_, _, hread hne, splitOn_linesOf hrecords, holdsRecords hrecords⟩

/-- Two lists of values, and an empty one between them, in a directory that is not there yet. -/
def logged : List (List Json) :=
  [[.str "a\n\"b\\\t"], [], [.obj [("k", .arr [.num (.int (-1)), .null])], .num (.int 18446744073709551615)]]

theorem logged_whole : ∀ records ∈ logged, ∀ v ∈ records, v.IsWhole := by
  intro records hrecords v hv
  have hints : Json.IsWhole (.num (.int (-1))) ∧ Json.IsWhole (.num (.int 18446744073709551615)) :=
    ⟨.int (by decide) (by decide), .int (by decide) (by decide)⟩
  have hlist : Json.IsWhole (.arr [.num (.int (-1)), .null]) := by
    refine .arr fun v hv => ?_
    fin_cases hv
    · exact hints.1
    · exact .null
  fin_cases hrecords <;> fin_cases hv
  · exact .str _
  · refine .obj fun m hm => ?_
    fin_cases hm
    exact hlist
  · exact hints.2

theorem fresh_log : Fresh ⟨[], []⟩ "out/log" := by
  have hmade : makeParent ⟨[], []⟩ "out/log" = ⟨⟨[(["out".toList], .directory)], []⟩, .ok ()⟩ := rfl
  have hnone : at? ⟨[(["out".toList], .directory)], []⟩ (["out".toList] ++ ["log".toList]) = none := rfl
  refine ⟨by rw [hmade], ⟨["out".toList] ++ ["log".toList], ?_, by rw [hmade]; exact hnone⟩⟩
  rw [hmade]
  exact .of_target rfl rfl (by decide)

/-- A text with a line feed, a quote and a backslash, nested values, and the greatest number. -/
theorem logged_reads_back :
    Fresh ⟨[], []⟩ "out/log" ∧ (∀ records ∈ logged, ∀ v ∈ records, v.IsWhole) ∧
      (appendEach ⟨[], []⟩ "out/log" logged).2 = [.ok 1, .ok 0, .ok 2] ∧
      ∃ content lines, (appendEach ⟨[], []⟩ "out/log" logged).1.read "out/log" = .ok content ∧
        content.splitOn 10 = lines ++ [[]] ∧ List.Forall₂ HoldsRecord logged.flatten lines := by
  obtain ⟨hresults, hlines⟩ := appendEach_reads_back fresh_log logged_whole
  exact ⟨fresh_log, logged_whole, hresults, hlines (List.cons_ne_nil _ _)⟩

end Disk

end CodeIndex
