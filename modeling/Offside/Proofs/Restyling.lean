import Offside.Proofs.SideBySide

/-!
This module contains the independence of the units of indentation. If tabs are replaced by pairs of
spaces or the other way round, line by line, then the tokens and the error stay the same, and the
places on a line move by as many columns as its margin grows.
-/

namespace Offside

namespace Line

/--
Whether two lines are equal but for the margins of one level in front of them.
-/
def Restyled (lhs rhs : Line) : Prop :=
  ∃ level front front' rest, Text.IsMargin level front ∧ Text.IsMargin level front' ∧
    (∀ c ∈ rest.head?, Text.isIndent c = false) ∧
    lhs.chars = front ++ rest ∧ rhs.chars = front' ++ rest

variable {front body rest text : List Char}

theorem ofBody_append (hfront : '\r' ∉ front) (feed : List Char) :
    ofBody (front ++ body) feed = ⟨front ++ (ofBody body feed).text, (ofBody body feed).ending⟩ := by
  unfold ofBody
  rcases List.eq_nil_or_concat body with rfl | ⟨init, last, rfl⟩
  . rw [List.append_nil, if_neg fun hlast => hfront (List.mem_of_getLast? hlast)]
    simp
  . rw [List.concat_eq_append, ← List.append_assoc, List.getLast?_concat, List.getLast?_concat,
      List.dropLast_concat, List.dropLast_concat]
    split
    . rfl
    . rw [List.append_assoc]

theorem ofChars_append (hreturn : '\r' ∉ front) (hfeed : '\n' ∉ front) :
    ofChars (front ++ rest) = ⟨front ++ (ofChars rest).text, (ofChars rest).ending⟩ := by
  unfold ofChars
  rcases List.eq_nil_or_concat rest with rfl | ⟨init, last, rfl⟩
  . rw [if_neg, if_neg (by simp)]
    . exact ofBody_append hreturn []
    . rw [List.append_nil]
      exact fun hlast => hfeed (List.mem_of_getLast? hlast)
  . rw [List.concat_eq_append, ← List.append_assoc, List.getLast?_concat, List.getLast?_concat,
      List.dropLast_concat, List.dropLast_concat, List.append_assoc]
    split
    . exact ofBody_append hreturn ['\n']
    . exact ofBody_append hreturn []

theorem eq_ofChars_of_mem {line : Line} (h : line ∈ ofText text) : line = ofChars line.chars := by
  unfold ofText at h
  rw [List.mem_map] at h
  rcases h with ⟨piece, -, rfl⟩
  rw [chars_ofChars]

theorem head?_text_ofChars (c : Char) (h : c ∈ (ofChars rest).text.head?) : c ∈ rest.head? := by
  have hchars := chars_ofChars rest
  rcases List.head?_eq_some_iff.1 h with ⟨tail, htail⟩
  rw [← hchars, chars, htail]
  rfl

theorem Restyled.resembles {lhs rhs : Line} (h : lhs.Restyled rhs)
    (hlhs : lhs = ofChars lhs.chars) (hrhs : rhs = ofChars rhs.chars) :
    Text.Resembles lhs.text rhs.text := by
  rcases h with ⟨level, front, front', rest, hfront, hfront', hrest, hchars, hchars'⟩
  have htext : ∀ c ∈ (ofChars rest).text.head?, Text.isIndent c = false :=
    fun c hmem => hrest c (head?_text_ofChars c hmem)
  have not_mem {level : Nat} {front : List Char} (h : Text.IsMargin level front) :
      '\r' ∉ front ∧ '\n' ∉ front :=
    ⟨fun hmem => absurd (h.isIndent _ hmem) (by decide),
      fun hmem => absurd (h.isIndent _ hmem) (by decide)⟩
  rw [hchars, ofChars_append (not_mem hfront).1 (not_mem hfront).2] at hlhs
  rw [hchars', ofChars_append (not_mem hfront').1 (not_mem hfront').2] at hrhs
  rw [hlhs, hrhs]
  rcases hfront.wellIndented_append htext with ⟨hindented, hlevel⟩
  rcases hfront'.wellIndented_append htext with ⟨hindented', hlevel'⟩
  constructor
  . rw [(Text.margin_append hfront.isIndent htext).2, (Text.margin_append hfront'.isIndent htext).2]
  . exact .inr ⟨hindented, hindented', by rw [hlevel, hlevel']⟩

theorem resembles_of_restyled {lines lines' : List Line} (h : List.Forall₂ Restyled lines lines')
    (hlines : ∀ line ∈ lines, line = ofChars line.chars)
    (hlines' : ∀ line ∈ lines', line = ofChars line.chars) :
    List.Forall₂ (fun line line' => Text.Resembles line.text line'.text) lines lines' := by
  induction h with
  | nil => exact .nil
  | cons hline _ ih =>
    rw [List.forall_mem_cons] at hlines hlines'
    exact .cons (hline.resembles hlines.1 hlines'.1) (ih hlines.2 hlines'.2)

end Line

namespace Displacement

/--
The displacement of lines with the same numbers. The places on a line move by as many columns as its
margin grows, and by as many bytes as this and all lines before grow.
-/
def between (lines lines' : List Line) : Displacement where
  lines := 0
  columns number := widening number
  bytes number := Line.bytes (lines'.take (number - 1)) - Line.bytes (lines.take (number - 1)) +
    widening number
where
  widening (number : Nat) : Int :=
    match lines[number - 1]?, lines'[number - 1]? with
    | some line, some line' => Text.widening line.text line'.text
    | _, _ => 0

theorem along_between {front front' back back' : List Line}
    (h : List.Forall₂ (fun line line' : Line => Text.Resembles line.text line'.text) back back')
    (hlength : front'.length = front.length) :
    (between (front ++ back) (front' ++ back')).Along (front.length + 1)
      (Line.bytes front' - Line.bytes front) back back' := by
  induction h generalizing front front' with
  | nil => exact .nil
  | @cons line line' back back' hline hlines ih =>
    have hwidening : between.widening (front ++ line :: back) (front' ++ line' :: back')
        (front.length + 1) = Text.widening line.text line'.text := by
      have hget : (front ++ line :: back)[front.length]? = some line := by simp
      have hget' : (front' ++ line' :: back')[front.length]? = some line' := by simp [← hlength]
      unfold between.widening
      rw [Nat.add_sub_cancel, hget, hget']
    apply Along.cons hline
    . exact hwidening
    . unfold between
      dsimp only
      rw [hwidening, Nat.add_sub_cancel, List.take_left, ← hlength, List.take_left]
    . have hgap : (Line.bytes front' - Line.bytes front +
          (Text.byteSize line'.chars - Text.byteSize line.chars) : Int) =
          Line.bytes (front' ++ [line']) - Line.bytes (front ++ [line]) := by
        simp
        omega
      have hrest := @ih (front ++ [line]) (front' ++ [line']) (by simp [hlength])
      rw [List.append_assoc, List.append_assoc, List.length_append] at hrest
      rw [hgap]
      exact hrest

end Displacement

namespace TokenStream

open Displacement

/--
It does not matter whether a line is indented by tabs or by pairs of spaces. The kinds of the tokens
and their lines stay the same, and so do the kind, the line and the message of the error; each
column on a line moves by the number of characters by which its margin grows.
-/
theorem units_do_not_matter (source source' : String) (options : Options)
    (h : List.Forall₂ Line.Restyled (Line.ofText source.toList) (Line.ofText source'.toList))
    (hsize : source.utf8ByteSize ≤ 2 ^ 32 - 2) (hsize' : source'.utf8ByteSize ≤ 2 ^ 32 - 2) :
    ∃ stream stream', ofSource source options = .ok stream ∧
      ofSource source' options = .ok stream' ∧
      stream.Displaced (between (Line.ofText source.toList) (Line.ofText source'.toList))
        stream' := by
  have hresembles := Line.resembles_of_restyled h (fun _ => Line.eq_ofChars_of_mem)
    fun _ => Line.eq_ofChars_of_mem
  have halong := @along_between [] [] _ _ hresembles rfl
  apply Run.Displaced.exists_ofSource_eq_ok
  apply Run.displaced_ofSource hsize hsize' rfl halong
  -- Sources without lines have no margins.
  intro hnil
  have hnil' : Line.ofText source'.toList = [] := by
    rw [hnil] at hresembles
    exact List.forall₂_nil_left_iff.1 hresembles
  rw [hnil, hnil']
  exact ⟨rfl, rfl⟩

theorem units_do_not_matter_error_inside :
    List.Forall₂ Line.Restyled (Line.ofText "a\n\tb\n\t\t?".toList)
      (Line.ofText "a\n  b\n    ?".toList) ∧
    "a\n\tb\n\t\t?".utf8ByteSize ≤ 2 ^ 32 - 2 ∧ "a\n  b\n    ?".utf8ByteSize ≤ 2 ^ 32 - 2 ∧
    ∃ stream stream', ofSource "a\n\tb\n\t\t?" {} = .ok stream ∧
      ofSource "a\n  b\n    ?" {} = .ok stream' ∧
      stream.Displaced (between (Line.ofText "a\n\tb\n\t\t?".toList)
        (Line.ofText "a\n  b\n    ?".toList)) stream' := by
  have hrestyled : List.Forall₂ Line.Restyled (Line.ofText "a\n\tb\n\t\t?".toList)
      (Line.ofText "a\n  b\n    ?".toList) := by
    apply List.Forall₂.cons
      ⟨0, [], [], ['a', '\n'], .inl rfl, .inl rfl, by simp [Text.isIndent], rfl, rfl⟩
    apply List.Forall₂.cons
      ⟨1, ['\t'], [' ', ' '], ['b', '\n'], .inl rfl, .inr rfl, by simp [Text.isIndent], rfl, rfl⟩
    apply List.Forall₂.cons ⟨2, ['\t', '\t'], [' ', ' ', ' ', ' '], ['?'], .inl rfl, .inr rfl,
      by simp [Text.isIndent], rfl, rfl⟩
    exact .nil
  have hsize : "a\n\tb\n\t\t?".utf8ByteSize ≤ 2 ^ 32 - 2 := by decide
  have hsize' : "a\n  b\n    ?".utf8ByteSize ≤ 2 ^ 32 - 2 := by decide
  exact ⟨hrestyled, hsize, hsize', units_do_not_matter _ _ {} hrestyled hsize hsize'⟩

end TokenStream

end Offside
