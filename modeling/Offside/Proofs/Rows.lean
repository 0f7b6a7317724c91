import Offside.Proofs.Pieces
import Offside.Proofs.Pointer

/-!
This module contains the texts that a printed diagnostic shows. Line feeds and escape characters
come from these texts only: the rows themselves are laid out without them.
-/

namespace Offside

/--
Whether a character is one of those that no fixed part of a row has: the line feed, which ends rows,
and the escape character, with which the terminal codes start.
-/
def Text.IsControl (c : Char) : Prop :=
  c = '\n' ∨ c = '\x1b'

theorem Text.IsControl.isDigit_eq_false {c : Char} (h : IsControl c) : c.isDigit = false := by
  rcases h with rfl | rfl <;> rfl

namespace Row

variable {row : Row}

theorem no_feed_flatMap_print (h : '\n' ∉ row.plain) (colors : Bool) :
    '\n' ∉ row.flatMap (Chunk.print colors) := by
  induction row with
  | nil => exact List.not_mem_nil
  | cons chunk row ih =>
    rw [List.flatMap_cons, List.mem_append, not_or]
    cases chunk with
    | text content =>
      rw [plain_text, List.mem_append, not_or] at h
      exact ⟨h.1, ih h.2⟩
    | style mode =>
      rw [plain_style] at h
      refine ⟨?_, ih h⟩
      cases colors with
      | false => exact List.not_mem_nil
      | true => cases mode <;> decide

theorem count_feed_print (h : '\n' ∉ row.plain) (colors : Bool) :
    (row.print colors).count '\n' = 1 := by
  unfold print
  rw [List.count_append, List.count_eq_zero.2 (no_feed_flatMap_print h colors)]
  rfl

end Row

theorem ErrorCode.not_mem_text {code : ErrorCode} {c : Char} (hc : Text.IsControl c)
    (hcategory : c ≠ code.category) : c ∉ code.text.toList := by
  have hdigits := not_mem_toList_repr hc.isDigit_eq_false code.number.toNat
  unfold text
  rcases hc with rfl | rfl <;>
    simp [List.mem_replicate, hcategory, hdigits, -Nat.toList_repr]

namespace Label

def texts (label : Label) (files : FileTable) : List (List Char) :=
  match files.get? label.span.fileId with
  | none => []
  | some file =>
    match file.line? label.span.start.line with
    | none => [file.name.toList]
    | some shown => [file.name.toList, shown, label.message.toList]

variable {files : FileTable} {file : SourceFile} {shown : List Char} {c : Char} (label : Label)
  (style : Style)

theorem rows_of_no_file (hfile : files.get? label.span.fileId = none) :
    label.rows files style = [] := by
  unfold rows
  rw [hfile]

theorem plain_rows_of_no_line (hfile : files.get? label.span.fileId = some file)
    (hline : file.line? label.span.start.line = none) :
    (label.rows files style).map Row.plain = [(label.excerpt file.name []).location] := by
  unfold rows
  rw [hfile]
  dsimp only
  rw [hline, List.map_singleton, plain_locationRow]

theorem not_mem_location {name : String} (hc : Text.IsControl c) (hname : c ∉ name.toList)
    (shown : List Char) : c ∉ (label.excerpt name shown).location := by
  have hnumber (n : Nat) : c ∉ n.repr.toList := not_mem_toList_repr hc.isDigit_eq_false n
  unfold excerpt number
  rcases hc with rfl | rfl <;> simp [hname, hnumber, -Nat.toList_repr]

theorem not_mem_excerpt {name : String} (hc : Text.IsControl c) (hname : c ∉ name.toList)
    (hshown : c ∉ shown) (hmessage : c ∉ label.message.toList) :
    ∀ row ∈ (label.excerpt name shown).rows, c ∉ row := by
  have hlocation := label.not_mem_location hc hname shown
  have hnumber : c ∉ label.number := not_mem_toList_repr hc.isDigit_eq_false _
  have hindent : c ∉ label.indent shown := by
    intro hmem
    rcases label.mem_indent hmem with rfl | rfl <;> rcases hc with heq | heq <;> contradiction
  unfold Excerpt.rows
  rw [List.forall_mem_cons]
  refine ⟨hlocation, ?_⟩
  unfold excerpt
  rcases hc with rfl | rfl <;> simp [List.mem_replicate, hshown, hmessage, hnumber, hindent]

theorem not_mem_rows (hc : Text.IsControl c) (h : ∀ text ∈ label.texts files, c ∉ text) :
    ∀ row ∈ label.rows files style, c ∉ row.plain := by
  suffices hrows : ∀ row ∈ (label.rows files style).map Row.plain, c ∉ row by
    rw [List.forall_mem_map] at hrows
    exact hrows
  unfold texts at h
  cases hfile : files.get? label.span.fileId with
  | none =>
    rw [rows_of_no_file label style hfile]
    exact List.forall_mem_nil _
  | some file =>
    rw [hfile] at h
    dsimp only at h
    cases hline : file.line? label.span.start.line with
    | none =>
      rw [hline, List.forall_mem_singleton] at h
      rw [plain_rows_of_no_line label style hfile hline, List.forall_mem_singleton]
      exact label.not_mem_location hc h []
    | some shown =>
      rw [hline] at h
      simp only [List.forall_mem_cons] at h
      rw [plain_rows label style hfile hline]
      exact label.not_mem_excerpt hc h.1 h.2.1 h.2.2.1

end Label

namespace Diagnostic

def texts (diagnostic : Diagnostic) (files : FileTable) : List (List Char) :=
  diagnostic.message.toList :: (diagnostic.code.map ([·.category])).toList ++
    (diagnostic.labels.flatMap (·.texts files) ++ diagnostic.help.map String.toList)

variable {files : FileTable} {c : Char} {diagnostic : Diagnostic}

theorem not_mem_headerRow (hc : Text.IsControl c) (hmessage : c ∉ diagnostic.message.toList)
    (hcode : ∀ code, diagnostic.code = some code → c ≠ code.category) :
    c ∉ diagnostic.headerRow.plain := by
  have hseverity : c ∉ diagnostic.severity.text.toList := by
    cases diagnostic.severity
    rcases hc with rfl | rfl <;> decide
  unfold headerRow
  cases hsome : diagnostic.code with
  | none => rcases hc with rfl | rfl <;> simp [hseverity, hmessage]
  | some code =>
    have htext := ErrorCode.not_mem_text hc (hcode code hsome)
    rcases hc with rfl | rfl <;> simp [hseverity, hmessage, htext]

theorem not_mem_helpRow {help : String} (hc : Text.IsControl c) (hhelp : c ∉ help.toList) :
    c ∉ (helpRow help).plain := by
  unfold helpRow
  rcases hc with rfl | rfl <;> simp [hhelp]

theorem not_mem_rows (hc : Text.IsControl c) (h : ∀ text ∈ diagnostic.texts files, c ∉ text) :
    ∀ row ∈ diagnostic.rows files, c ∉ row.plain := by
  unfold texts at h
  simp only [List.cons_append, List.forall_mem_cons, List.forall_mem_append, List.forall_mem_map,
    List.forall_mem_flatMap] at h
  rcases h with ⟨hmessage, hcode, hlabels, hhelp⟩
  unfold rows
  rw [List.forall_mem_cons, List.forall_mem_append, List.forall_mem_flatMap, List.forall_mem_map]
  refine ⟨?_, ?_, ?_⟩
  . apply not_mem_headerRow hc hmessage
    intro code hsome
    have hcategory := hcode [code.category] (by simp [hsome])
    rwa [List.mem_singleton] at hcategory
  . intro label hmem
    exact label.not_mem_rows _ hc (hlabels label hmem)
  . intro help hmem
    exact not_mem_helpRow hc (hhelp help hmem)

end Diagnostic

end Offside
