import Offside.Proofs.Rows

/-!
This module contains the colors of printed diagnostics. Without its terminal codes a colored
printout is the plain one, and no style goes on after the end of a row.
-/

namespace Offside

namespace Text

def isParameter (c : Char) : Bool :=
  c.isDigit || c == ';'

/--
The parameters of the terminal code with which a text starts, and the text behind the code.
-/
def cutCode? : List Char → Option (List Char × List Char)
  | '\x1b' :: '[' :: text =>
    match text.dropWhile isParameter with
    | 'm' :: rest => some (text.takeWhile isParameter, rest)
    | _ => none
  | _ => none

variable {text rest parameters : List Char} {c : Char}

theorem cutCode?_length (h : cutCode? (c :: text) = some (parameters, rest)) :
    rest.length < (c :: text).length := by
  unfold cutCode? at h
  split at h
  next tail heq =>
    split at h
    next behind hdrop =>
      have hle := (List.dropWhile_suffix isParameter (l := tail)).length_le
      rw [hdrop, List.length_cons] at hle
      rw [Option.some.injEq, Prod.mk.injEq] at h
      rw [heq, ← h.2]
      simp only [List.length_cons]
      omega
    . contradiction
  . contradiction

theorem cutCode?_eq_none (h : c ≠ '\x1b') : cutCode? (c :: text) = none := by
  unfold cutCode?
  split
  next heq => exact absurd (List.cons.inj heq).1 h
  . rfl

end Text

/--
What a terminal reads in a text: characters, and codes with their parameters.
-/
inductive Glyph where
  | char (c : Char)
  | code (parameters : List Char)
deriving DecidableEq, Repr

namespace Glyph

def ofText (text : List Char) : List Glyph :=
  match text with
  | [] => []
  | c :: text =>
    match _h : Text.cutCode? (c :: text) with
    | some (parameters, rest) => .code parameters :: ofText rest
    | none => .char c :: ofText text
termination_by text.length
decreasing_by
  . exact Text.cutCode?_length ‹_›
  . exact Nat.lt_succ_self _

def char? : Glyph → Option Char
  | .char c => some c
  | .code _ => none

def parameters? : Glyph → Option (List Char)
  | .char _ => none
  | .code parameters => some parameters

end Glyph

namespace Text

def withoutCodes (text : List Char) : List Char :=
  (Glyph.ofText text).filterMap Glyph.char?

def codes (text : List Char) : List (List Char) :=
  (Glyph.ofText text).filterMap Glyph.parameters?

end Text

def Style.parameters : Style → List Char
  | .alert => ['1', ';', '3', '1']
  | .strong => ['1']
  | .gutter => ['1', ';', '3', '4']
  | .help => ['1', ';', '3', '2']
  | .reset => ['0']

theorem Style.cutCode?_code (style : Style) (rest : List Char) :
    Text.cutCode? (style.code.toList ++ rest) = some (style.parameters, rest) := by
  cases style <;> rfl

def Chunk.glyphs : Chunk → List Glyph
  | .text content => content.toList.map .char
  | .style mode => [.code mode.parameters]

namespace Glyph

theorem ofText_nil : ofText [] = [] := by
  rw [ofText]

theorem ofText_of_cutCode? {text rest parameters : List Char}
    (h : Text.cutCode? text = some (parameters, rest)) :
    ofText text = .code parameters :: ofText rest := by
  cases text with
  | nil => contradiction
  | cons c text =>
    rw [ofText]
    split
    next heq =>
      rw [h, Option.some.injEq, Prod.mk.injEq] at heq
      rw [heq.1, heq.2]
    next heq =>
      rw [h] at heq
      contradiction

theorem ofText_append {text : List Char} (h : '\x1b' ∉ text) (rest : List Char) :
    ofText (text ++ rest) = text.map .char ++ ofText rest := by
  induction text with
  | nil => rfl
  | cons c text ih =>
    rw [List.mem_cons, not_or] at h
    have hnone : Text.cutCode? (c :: (text ++ rest)) = none :=
      Text.cutCode?_eq_none (Ne.symm h.1)
    rw [List.cons_append, ofText]
    split
    next heq =>
      rw [hnone] at heq
      contradiction
    next =>
      rw [ih h.2]
      rfl

theorem ofText_row {row : Row} (h : '\x1b' ∉ row.plain) (rest : List Char) :
    ofText (row.flatMap (Chunk.print true) ++ rest) = row.flatMap Chunk.glyphs ++ ofText rest := by
  induction row with
  | nil => rfl
  | cons chunk row ih =>
    rw [List.flatMap_cons, List.flatMap_cons, List.append_assoc, List.append_assoc]
    cases chunk with
    | text content =>
      rw [Row.plain_text, List.mem_append, not_or] at h
      rw [← ih h.2]
      exact ofText_append h.1 _
    | style mode =>
      rw [Row.plain_style] at h
      rw [← ih h]
      exact ofText_of_cutCode? (mode.cutCode?_code _)

theorem ofText_rows {rows : List Row} (h : ∀ row ∈ rows, '\x1b' ∉ row.plain) :
    ofText (rows.flatMap (Row.print true)) =
      rows.flatMap fun row => row.flatMap Chunk.glyphs ++ [.char '\n'] := by
  induction rows with
  | nil => exact ofText_nil
  | cons row rows ih =>
    rw [List.forall_mem_cons] at h
    rw [List.flatMap_cons, List.flatMap_cons, Row.print, List.append_assoc, List.append_assoc,
      ofText_row h.1, ofText_append (by decide), ih h.2]
    rfl

end Glyph

def Chunk.style? : Chunk → Option Style
  | .text _ => none
  | .style mode => some mode

namespace Row

variable {row : Row}

theorem filterMap_char?_glyphs (row : Row) :
    (row.flatMap Chunk.glyphs).filterMap Glyph.char? = row.plain := by
  unfold plain
  rw [List.filterMap_flatMap]
  congr 1
  funext chunk
  cases chunk with
  | text content =>
    simp [Chunk.glyphs, Chunk.print, List.filterMap_map, Function.comp_def, Glyph.char?]
  | style mode => rfl

theorem filterMap_parameters?_glyphs (row : Row) :
    (row.flatMap Chunk.glyphs).filterMap Glyph.parameters? =
      (row.filterMap Chunk.style?).map Style.parameters := by
  induction row with
  | nil => rfl
  | cons chunk row ih =>
    rw [List.flatMap_cons, List.filterMap_append, ih, List.filterMap_cons]
    cases chunk with
    | text content =>
      simp [Chunk.glyphs, Chunk.style?, List.filterMap_map, Function.comp_def, Glyph.parameters?]
    | style mode => rfl

theorem codes_print (h : '\x1b' ∉ row.plain) :
    Text.codes (row.flatMap (Chunk.print true)) =
      (row.filterMap Chunk.style?).map Style.parameters := by
  have hrow := Glyph.ofText_row h []
  rw [List.append_nil, Glyph.ofText_nil, List.append_nil] at hrow
  unfold Text.codes
  rw [hrow, filterMap_parameters?_glyphs]

theorem withoutCodes_print {rows : List Row} (h : ∀ row ∈ rows, '\x1b' ∉ row.plain) :
    Text.withoutCodes (rows.flatMap (Row.print true)) = rows.flatMap (Row.print false) := by
  unfold Text.withoutCodes
  rw [Glyph.ofText_rows h, List.filterMap_flatMap]
  congr 1
  funext row
  rw [List.filterMap_append, filterMap_char?_glyphs]
  rfl

theorem splitOn_print {rows : List Row} (h : ∀ row ∈ rows, '\n' ∉ row.plain) (colors : Bool) :
    (rows.flatMap (Row.print colors)).splitOn '\n' =
      rows.map (·.flatMap (Chunk.print colors)) ++ [[]] := by
  induction rows with
  | nil => rfl
  | cons row rows ih =>
    rw [List.forall_mem_cons] at h
    rw [List.flatMap_cons, Row.print, List.append_assoc, List.singleton_append,
      List.splitOn_append_cons_self_of_not_mem (no_feed_flatMap_print h.1 colors), ih h.2]
    rfl

end Row

theorem Diagnostic.getLast?_styles {diagnostic : Diagnostic} {files : FileTable} :
    ∀ row ∈ diagnostic.rows files, (row.filterMap Chunk.style?).getLast? = some .reset := by
  unfold rows
  rw [List.forall_mem_cons, List.forall_mem_append, List.forall_mem_flatMap, List.forall_mem_map]
  refine ⟨?_, ?_, ?_⟩
  . unfold headerRow
    cases diagnostic.code <;> rfl
  . intro label _
    unfold Label.rows
    split
    . exact List.forall_mem_nil _
    . split
      . rw [List.forall_mem_singleton]
        rfl
      . simp only [List.forall_mem_cons]
        exact ⟨rfl, rfl, rfl, rfl, List.forall_mem_nil _⟩
  . intro help _
    rfl

/--
Colors only decorate. If no text that a diagnostic shows has an escape character then the plain
printout is what is left of the colored one without the terminal codes, and if these texts have no
line feeds either then the last code of each line ends all styles.
-/
theorem Diagnostic.colors_only_decorate (diagnostic : Diagnostic) (files : FileTable)
    (hescape : ∀ text ∈ diagnostic.texts files, '\x1b' ∉ text) :
    Text.withoutCodes (diagnostic.render files true).toList =
      (diagnostic.render files false).toList ∧
    ((∀ text ∈ diagnostic.texts files, '\n' ∉ text) →
      ∃ lines, (diagnostic.render files true).toList.splitOn '\n' = lines ++ [[]] ∧
        ∀ line ∈ lines, (Text.codes line).getLast? = some ['0']) := by
  have hrows := not_mem_rows (.inr rfl) hescape
  unfold render
  rw [String.toList_ofList, String.toList_ofList]
  refine ⟨Row.withoutCodes_print hrows, ?_⟩
  intro hfeed
  refine ⟨_, Row.splitOn_print (not_mem_rows (.inl rfl) hfeed) true, ?_⟩
  rw [List.forall_mem_map]
  intro row hmem
  rw [Row.codes_print (hrows row hmem), List.getLast?_map, getLast?_styles row hmem]
  rfl

theorem Diagnostic.colors_only_decorate_look_alike :
    (∀ text ∈ (⟨.error, some ⟨'[', 1⟩, "[0m", [⟨⟨⟨1, 2, 1⟩, ⟨1, 3, 2⟩, 0⟩, "1;3"⟩,
      ⟨⟨⟨2, 1, 0⟩, ⟨2, 2, 0⟩, 0⟩, "a"⟩, ⟨⟨⟨1, 1, 0⟩, ⟨1, 2, 0⟩, 1⟩, "b"⟩], ["5m"]⟩ :
        Diagnostic).texts ⟨#[⟨"m", "[0m\tm"⟩]⟩, '\x1b' ∉ text ∧ '\n' ∉ text) ∧
    Text.withoutCodes ((⟨.error, some ⟨'[', 1⟩, "[0m", [⟨⟨⟨1, 2, 1⟩, ⟨1, 3, 2⟩, 0⟩, "1;3"⟩,
      ⟨⟨⟨2, 1, 0⟩, ⟨2, 2, 0⟩, 0⟩, "a"⟩, ⟨⟨⟨1, 1, 0⟩, ⟨1, 2, 0⟩, 1⟩, "b"⟩], ["5m"]⟩ :
        Diagnostic).render ⟨#[⟨"m", "[0m\tm"⟩]⟩ true).toList =
      ("error[E[001]: [0m\n --> m:1:2\n   |\n 1 | [0m\tm\n   |  ^ 1;3\n --> m:2:1\n" ++
        "   = help: 5m\n").toList := by
  constructor
  . decide +kernel
  . apply Eq.trans (colors_only_decorate _ _ ?_).1
    . decide +kernel
    . decide +kernel

end Offside
