import Offside.Proofs.Displacement
import Offside.Proofs.Image

/-!
This module contains two runs side by side. If the lines of two sources resemble each other one by
one, then the sources have the same tokens and the same error, but for their places.
-/

namespace Offside

variable {d : Displacement}

theorem Line.isBlank_eq_of_resembles {lhs rhs : Line} (h : Text.Resembles lhs.text rhs.text) :
    rhs.isBlank = lhs.isBlank := by
  have isBlank_iff (line : Line) : line.isBlank = true ↔ Text.body line.text = [] := by
    unfold isBlank Text.body
    rw [List.all_eq_true, List.dropWhile_eq_nil_iff]
  rw [Bool.eq_iff_iff, isBlank_iff, isBlank_iff, h.body_eq]

/--
Whether a displacement tells how two lists of lines that resemble each other are apart. The first
list starts with the line of the given number, the second is `gap` bytes further behind.
-/
inductive Displacement.Along (d : Displacement) : Nat → Int → List Line → List Line → Prop where
  | nil {number : Nat} {gap : Int} : Along d number gap [] []
  | cons {number : Nat} {gap : Int} {line line' : Line} {lines lines' : List Line} :
    Text.Resembles line.text line'.text →
    d.columns number = Text.widening line.text line'.text →
    d.bytes number = gap + Text.widening line.text line'.text →
    Along d (number + 1) (gap + (Text.byteSize line'.chars - Text.byteSize line.chars))
      lines lines' →
    Along d number gap (line :: lines) (line' :: lines')

theorem Displacement.Along.of_text_eq {number : Nat} {gap : Int} {line line' : Line}
    {lines lines' : List Line} (htext : line'.text = line.text) (hcolumns : d.columns number = 0)
    (hbytes : d.bytes number = gap)
    (hrest : d.Along (number + 1) (gap + (Text.byteSize line'.chars - Text.byteSize line.chars))
      lines lines') :
    d.Along number gap (line :: lines) (line' :: lines') := by
  have hwidening : Text.widening line.text line'.text = 0 := by rw [htext, Text.widening_self]
  apply Along.cons _ _ _ hrest
  . rw [htext]
    exact Text.resembles_refl line.text
  . rw [hwidening, hcolumns]
  . rw [hwidening, hbytes, Int.add_zero]

namespace Cursor

variable {options : Options} {cursor cursor' : Cursor} {front front' : List Line}
  {line line' : Line}

structure Displaced (d : Displacement) (lhs rhs : Option LayoutLine × Cursor) : Prop where
  entry : Option.Rel (LayoutLine.Displaced d) lhs.1 rhs.1
  stop : lhs.2.stop.Displaced d rhs.2.stop
  levels_eq : rhs.2.levels = lhs.2.levels

theorem parallel_step (hpast : cursor.Past front) (hpast' : cursor'.Past front')
    (hrange : Line.InRange (front ++ [line])) (hrange' : Line.InRange (front' ++ [line']))
    (hlines : (front'.length : Int) = front.length + d.lines)
    (hresembles : Text.Resembles line.text line'.text)
    (hcolumns : d.columns (front.length + 1) = Text.widening line.text line'.text)
    (hbytes : d.bytes (front.length + 1) =
      Line.bytes front' - Line.bytes front + Text.widening line.text line'.text)
    (hlevels : cursor'.levels = cursor.levels) :
    Parallel d (Displaced d) (cursor.step options line) (cursor'.step options line') := by
  rcases pass_of_inRange hpast hrange with ⟨next, hpass, -, hnext, hnumber, hroom⟩
  rcases pass_of_inRange hpast' hrange' with ⟨next', hpass', -, hnext', hnumber', hroom'⟩
  have hoffset := hpast.offset_eq
  have hoffset' := hpast'.offset_eq
  have hbridges : d.Bridges ⟨next.stop.line, 1, cursor.offset⟩ ⟨next'.stop.line, 1, cursor'.offset⟩
      line.text line'.text := by
    refine ⟨hresembles, ?_, ?_, ?_⟩
    . rw [hnumber, hnumber']
      omega
    . rw [hnumber, hcolumns]
    . rw [hnumber, hbytes, hoffset, hoffset']
      omega
  have hstop : next.stop.Displaced d next'.stop := by
    have hlength := hresembles.length_eq
    have hsize := hresembles.byteSize_eq
    have hcolumn := hbridges.column_eq
    have hplace := hbridges.offset_eq
    rcases Position.displaced_advance (d := d) hbridges.line_eq (by omega) (by omega) hroom
        hroom' with ⟨stop, stop', hadvance, hadvance', hdisplaced⟩
    rw [advance_of_pass_eq_ok hpass, Except.ok.injEq] at hadvance
    rw [advance_of_pass_eq_ok hpass', Except.ok.injEq] at hadvance'
    rw [hadvance, hadvance']
    exact hdisplaced
  unfold step
  rw [hpass, hpass', hlevels, Line.isBlank_eq_of_resembles hresembles]
  apply Parallel.bind (R := fun lhs rhs => lhs = next ∧ rhs = next') (.ok ⟨rfl, rfl⟩)
  rintro _ _ - - ⟨rfl, rfl⟩
  cases line.isBlank with
  | true =>
    apply Parallel.ok
    exact ⟨.none, hstop, by rw [hnext, hnext', hlevels]⟩
  | false =>
    apply (LayoutLine.parallel_read hbridges hstop hroom hroom').bind
    intro layoutLine layoutLine' _ _ hdisplaced
    exact .ok ⟨.some hdisplaced, hstop, hdisplaced.levels_eq⟩

theorem displaced_closing (hstop : cursor.stop.Displaced d cursor'.stop)
    (hlevels : cursor'.levels = cursor.levels) :
    List.Forall₂ (Token.Displaced d) (cursor.closing options) (cursor'.closing options) := by
  have hclosed : List.Forall₂ (Token.Displaced d)
      (List.replicate cursor.levels.above.length ⟨.dedent, .point cursor.stop options.fileId⟩)
      (List.replicate cursor.levels.above.length ⟨.dedent, .point cursor'.stop options.fileId⟩) :=
    Token.displaced_replicate hstop _
  unfold closing
  rw [hlevels]
  dsimp only
  split
  . exact List.rel_append hclosed (.cons (Token.displaced_point hstop) .nil)
  . exact hclosed

end Cursor

namespace Run

open Cursor

variable {options : Options} {front front' back back' : List Line} {cursor cursor' : Cursor}

structure Displaced (options : Options) (d : Displacement) (lhs rhs : Run) : Prop where
  tokens : List.Forall₂ (Token.Displaced d) (lhs.tokens options) (rhs.tokens options)
  abort : ∃ failure failure', lhs.abort = failure.map .rejected ∧
    rhs.abort = failure'.map .rejected ∧ Option.Rel (LexicalError.Displaced d) failure failure'

theorem displaced_ofLines (hpast : cursor.Past front) (hpast' : cursor'.Past front')
    (hrange : Line.InRange (front ++ back)) (hrange' : Line.InRange (front' ++ back'))
    (hlines : (front'.length : Int) = front.length + d.lines)
    (halong : d.Along (front.length + 1) (Line.bytes front' - Line.bytes front) back back')
    (hlevels : cursor'.levels = cursor.levels)
    (hstop : back = [] → cursor.stop.Displaced d cursor'.stop) :
    Displaced options d (ofLines options cursor back) (ofLines options cursor' back') := by
  induction back generalizing front front' cursor cursor' back' with
  | nil =>
    cases halong with
    | nil => exact ⟨displaced_closing (hstop rfl) hlevels, none, none, rfl, rfl, .none⟩
  | cons line back ih =>
    cases halong with
    | @cons _ _ _ line' _ back' hresembles hcolumns hbytes hrest =>
      rw [List.append_cons] at hrange hrange'
      -- Either both runs end at this line, or both come to cursors with the same levels again.
      have hparallel := @parallel_step d options _ _ _ _ _ _ hpast hpast' hrange.of_append
        hrange'.of_append hlines hresembles hcolumns hbytes hlevels
      cases hstep : cursor.step options line with
      | error abort =>
        cases hstep' : cursor'.step options line' with
        | ok result =>
          rw [hstep, hstep'] at hparallel
          contradiction
        | error abort' =>
          rw [hstep, hstep'] at hparallel
          cases hparallel with
          | rejected herror =>
            rw [ofLines_cons_of_error hstep, ofLines_cons_of_error hstep']
            exact ⟨.nil, some _, some _, rfl, rfl, .some herror⟩
      | ok result =>
        cases hstep' : cursor'.step options line' with
        | error abort' =>
          rw [hstep, hstep'] at hparallel
          contradiction
        | ok result' =>
          rw [hstep, hstep'] at hparallel
          cases hparallel with
          | ok hdisplaced =>
            rcases result with ⟨entry, next⟩
            rcases result' with ⟨entry', next'⟩
            have hnext := (step_cases hpast hrange.of_append hstep).1
            have hnext' := (step_cases hpast' hrange'.of_append hstep').1
            have hruns := ih hnext hnext' hrange hrange'
              (by simp; omega)
              (by
                convert hrest using 1
                . simp
                . simp
                  omega)
              hdisplaced.levels_eq fun _ => hdisplaced.stop
            have hentry : List.Forall₂ (Token.Displaced d)
                (entry.toList.flatMap (·.tokens options.fileId))
                (entry'.toList.flatMap (·.tokens options.fileId)) := by
              cases hdisplaced.entry with
              | none => exact .nil
              | some hlines =>
                rw [Option.toList_some, Option.toList_some, List.flatMap_singleton,
                  List.flatMap_singleton]
                exact hlines.tokens options.fileId
            constructor
            . rw [tokens_ofLines_cons hstep, tokens_ofLines_cons hstep']
              exact List.rel_append hentry hruns.tokens
            . rw [ofLines_cons_of_ok hstep, ofLines_cons_of_ok hstep']
              exact hruns.abort

end Run

structure TokenStream.Displaced (d : Displacement) (lhs rhs : TokenStream) : Prop where
  tokens : List.Forall₂ (Token.Displaced d) lhs.tokens rhs.tokens
  failure : Option.Rel (LexicalError.Displaced d) lhs.failure rhs.failure

namespace Run

open Cursor

variable {options : Options} {source source' : String}

theorem Displaced.exists_ofSource_eq_ok
    (h : Displaced options d (ofSource source options) (ofSource source' options)) :
    ∃ stream stream', TokenStream.ofSource source options = .ok stream ∧
      TokenStream.ofSource source' options = .ok stream' ∧ stream.Displaced d stream' := by
  rcases h.abort with ⟨failure, failure', habort, habort', hfailure⟩
  exact ⟨⟨_, failure⟩, ⟨_, failure'⟩, ofSource_of_reached .start rfl habort,
    ofSource_of_reached .start rfl habort', h.tokens, hfailure⟩

theorem displaced_ofSource (hsize : source.utf8ByteSize ≤ 2 ^ 32 - 2)
    (hsize' : source'.utf8ByteSize ≤ 2 ^ 32 - 2) (hlines : d.lines = 0)
    (halong : d.Along 1 0 (Line.ofText source.toList) (Line.ofText source'.toList))
    (hempty : Line.ofText source.toList = [] → d.columns 1 = 0 ∧ d.bytes 1 = 0) :
    Displaced options d (ofSource source options) (ofSource source' options) := by
  have hstart (hnil : Line.ofText source.toList = []) : Position.start.Displaced d .start := by
    rcases hempty hnil with ⟨hcolumns, hbytes⟩
    constructor
    . simp [hlines]
    . simp [Position.start, hcolumns]
    . simp [Position.start, hbytes]
  exact displaced_ofLines past_start past_start (Line.inRange_ofSource hsize)
    (Line.inRange_ofSource hsize') (by simp [hlines]) halong rfl hstart

end Run

end Offside
