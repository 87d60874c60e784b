import EvmSourceMap.Proofs.LinePositions
import EvmSourceMap.Proofs.SourceRanges
import EvmSourceMap.Proofs.Trimming

namespace EvmSourceMap.Proofs.RangeText

open LinePositions
open SourceRanges
open TextSplitting
open Trimming

/-- The lines before a place: the one it is on is cut off before its column. -/
def linesUpTo (place : Position) (lines : List Bytes) : List Bytes :=
  let line := place.line.toInt.toNat - 1
  lines.take line ++ lines[line]?.toList.map (·.take (place.column.toInt.toNat - 1))

/-- The lines from a place on: the one it is on begins at its column. -/
def linesFrom (place : Position) (lines : List Bytes) : List Bytes :=
  let line := place.line.toInt.toNat - 1
  lines[line]?.toList.map (·.drop (place.column.toInt.toNat - 1)) ++ lines.drop (line + 1)

/-- The text from one place up to another, found by lines and columns alone. -/
def textBetween (text : Bytes) (first last : Position) : Bytes :=
  [newline].intercalate (linesFrom first (linesUpTo last (Bytes.split newline text)))

/-- A place is on a line of the text, or just behind its last byte. -/
structure IsPlace (text : Bytes) (place : Position) : Prop where
  line : 1 ≤ place.line.toInt
  column : 1 ≤ place.column.toInt
  inside : ∃ line, (Bytes.split newline text)[place.line.toInt.toNat - 1]? = some line ∧
    place.column.toInt.toNat - 1 ≤ line.length

section

variable {place : Position} {front : Bytes} {before : List Bytes} {piece : Bytes}
  (hfront : Bytes.split newline front = before ++ [piece])
  (hline : place.line.toInt = before.length + 1) (hcolumn : place.column.toInt = piece.length + 1)

include hline hcolumn

theorem indices_of_place :
    place.line.toInt.toNat - 1 = before.length ∧ place.column.toInt.toNat - 1 = piece.length := by
  omega

include hfront

theorem linesUpTo_split (back : Bytes) :
    linesUpTo place (Bytes.split newline (front ++ back)) = Bytes.split newline front := by
  obtain ⟨b, after, -, hwhole⟩ := split_append hfront back
  obtain ⟨hline', hcolumn'⟩ := indices_of_place hline hcolumn
  rw [linesUpTo, hwhole, hfront, hline', hcolumn']
  simp

theorem linesFrom_split (back : Bytes) :
    linesFrom place (Bytes.split newline (front ++ back)) = Bytes.split newline back := by
  obtain ⟨b, after, hback, hwhole⟩ := split_append hfront back
  obtain ⟨hline', hcolumn'⟩ := indices_of_place hline hcolumn
  rw [linesFrom, hwhole, hback, hline', hcolumn']
  simp

theorem isPlace_of_split (back : Bytes) : IsPlace (front ++ back) place := by
  obtain ⟨b, after, -, hwhole⟩ := split_append hfront back
  obtain ⟨hline', hcolumn'⟩ := indices_of_place hline hcolumn
  refine ⟨by omega, by omega, piece ++ b, ?_, ?_⟩
  · rw [hwhole, hline']
    simp
  · rw [hcolumn', List.length_append]
    exact Nat.le_add_right _ _

end

section

variable {file : SourceFile} (hsize : file.contents.length < 2 ^ 31 - 1)

include hsize

theorem isPlace_position {offset : Nat} (hoffset : offset ≤ file.contents.length) :
    IsPlace file.contents (file.position offset) := by
  obtain ⟨before, piece, hsplit⟩ := exists_split_concat newline (file.contents.take offset)
  obtain ⟨hline, hcolumn⟩ := toInt_position hsize hoffset hsplit
  have hplace := isPlace_of_split hsplit hline hcolumn (file.contents.drop offset)
  rwa [List.take_append_drop] at hplace

theorem textBetween_position {first last : Nat} (hle : first ≤ last)
    (hlast : last ≤ file.contents.length) :
    textBetween file.contents (file.position first) (file.position last) =
      (file.contents.drop first).take (last - first) := by
  obtain ⟨before, piece, hsplit⟩ := exists_split_concat newline (file.contents.take last)
  obtain ⟨hline, hcolumn⟩ := toInt_position hsize hlast hsplit
  have hupTo := linesUpTo_split hsplit hline hcolumn (file.contents.drop last)
  obtain ⟨before', piece', hsplit'⟩ := exists_split_concat newline (file.contents.take first)
  obtain ⟨hline', hcolumn'⟩ := toInt_position hsize (Nat.le_trans hle hlast) hsplit'
  have hfrom := linesFrom_split hsplit' hline' hcolumn'
    ((file.contents.drop first).take (last - first))
  have hwhole : file.contents.take first ++ (file.contents.drop first).take (last - first) =
      file.contents.take last := by
    rw [← List.take_add, Nat.add_sub_cancel' hle]
  rw [List.take_append_drop] at hupTo
  rw [hwhole] at hfrom
  rw [textBetween, hupTo, hfrom]
  exact (piecesOf_split newline _).intercalate_eq

end

/-- A range is found exactly if it begins inside its file and is not empty; its
lines and columns enclose the bytes of the range, as far as the file goes, and
its text is those bytes without the whitespace around them. -/
theorem resolve?_exact {files : FileTable} {fileIndex start length : Int32}
    (hsize : ∀ file, files.find? fileIndex = some file →
      file.contents.length < 2 ^ 31 - 1) :
    ((∃ range, Location.resolve? files fileIndex start length = some range) ↔
      ∃ file, files.find? fileIndex = some file ∧ 0 ≤ start ∧ 0 < length ∧
        start.toInt.toNat < file.contents.length) ∧
    ∀ file range, files.find? fileIndex = some file →
      Location.resolve? files fileIndex start length = some range →
        let first := start.toInt.toNat
        let last := min (first + length.toInt.toNat) file.contents.length
        let text := (file.contents.drop first).take (last - first)
        range.path = file.path ∧
          IsPlace file.contents range.first ∧ IsPlace file.contents range.last ∧
          textBetween file.contents range.first range.last = text ∧
          IsTrimmed text range.snippet := by
  constructor
  · simp only [resolve?_eq_some_iff]
    constructor
    · rintro ⟨-, file, hfile, hrange, -⟩
      exact ⟨file, hfile, hrange⟩
    · rintro ⟨file, hfile, hrange⟩
      exact ⟨_, file, hfile, hrange, rfl⟩
  · intro file range hfile hresolve first last text
    obtain ⟨file', hfile', ⟨-, -, hinside⟩, rfl⟩ := resolve?_eq_some_iff.mp hresolve
    obtain rfl := Option.some.inj (hfile.symm.trans hfile')
    have hlast : last ≤ file.contents.length := Nat.min_le_right _ _
    have hle : first ≤ last := Nat.le_min.mpr ⟨Nat.le_add_right _ _, Nat.le_of_lt hinside⟩
    exact ⟨rfl, isPlace_position (hsize file hfile) (Nat.le_of_lt hinside),
      isPlace_position (hsize file hfile) hlast, textBetween_position (hsize file hfile) hle hlast,
      isTrimmed_trim text⟩

/-- The longest range that can be asked for ends where the file does. It begins
with the newline of its first line. -/
theorem resolve?_exact_clamped :
    let contents : Bytes := "a;\n  b \n\nc"
    let file : SourceFile := { id := 3, path := "p", contents }
    let files : FileTable := FileTable.add ∅ 3 "p" contents
    let range : Location := ⟨"p", ⟨1, 3⟩, ⟨4, 2⟩, "b \n\nc"⟩
    (∀ file, files.find? 3 = some file → file.contents.length < 2 ^ 31 - 1) ∧
      files.find? 3 = some file ∧ Location.resolve? files 3 2 2147483647 = some range ∧
      textBetween contents range.first range.last = "\n  b \n\nc" ∧
      IsTrimmed "\n  b \n\nc" range.snippet := by
  intro contents file files range
  have hfile : files.find? 3 = some file := rfl
  have hsize : ∀ file, files.find? 3 = some file → file.contents.length < 2 ^ 31 - 1 := by
    intro other hother
    obtain rfl := Option.some.inj (hfile.symm.trans hother)
    decide
  have hresolve : Location.resolve? files 3 2 2147483647 = some range := by decide +kernel
  obtain ⟨-, -, -, htext, htrimmed⟩ := (resolve?_exact hsize).2 file range hfile hresolve
  have hslice : (file.contents.drop 2).take (min (2 + 2147483647) file.contents.length - 2) =
      "\n  b \n\nc" := by decide +kernel
  exact ⟨hsize, hfile, hresolve, htext.trans hslice, hslice ▸ htrimmed⟩

end EvmSourceMap.Proofs.RangeText
