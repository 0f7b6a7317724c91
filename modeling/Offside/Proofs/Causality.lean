import Offside.Proofs.Ending
import Offside.Proofs.Image
import Offside.Proofs.OpenLevels
import Offside.Proofs.Shift

/-!
This module contains the causality of lines. What a source is tokenized to up to the end of a line
does not depend on what follows, and what follows depends only on the open levels there, apart from
places.
-/

namespace Offside

theorem Levels.eq_of_toList_eq {lhs rhs : Levels} (h : lhs.toList = rhs.toList) : lhs = rhs := by
  rcases lhs with ⟨above, nested⟩
  rcases rhs with ⟨above', nested'⟩
  rw [toList, toList, List.cons.injEq, List.reverse_inj] at h
  rw [mk.injEq]
  exact h.2

def IsWhole (source : String) : Prop :=
  source = "" ∨ source.toList.getLast? = some '\n'

namespace Line

theorem ofText_append_of_isWhole {first : String} (h : IsWhole first) (second : String) :
    ofText (first ++ second).toList = ofText first.toList ++ ofText second.toList := by
  have hwhole : first.toList = [] ∨ first.toList.getLast? = some '\n' := by
    cases h with
    | inl hempty =>
      rw [hempty]
      exact .inl rfl
    | inr hlast => exact .inr hlast
  rw [String.toList_append]
  exact (ofText_append hwhole).2 second.toList

theorem bytes_ofSource (source : String) : bytes (ofText source.toList) = source.utf8ByteSize := by
  unfold bytes
  rw [flatMap_chars_ofText, Text.byteSize_toList]

theorem ofSource_ne_nil {source : String} (h : source ≠ "") : ofText source.toList ≠ [] := by
  intro hnil
  have hchars := flatMap_chars_ofText source.toList
  rw [hnil, List.flatMap_nil, eq_comm, String.toList_eq_nil_iff] at hchars
  contradiction

end Line

/--
What the sources `first`, which has no error, and `first ++ second` are tokenized to: the tokens
`own` that `first` has without those that close it are the first tokens of both.
-/
structure Splits (options : Options) (first second : String) (own closing rest : List Token)
    (failure : Option LexicalError) : Prop where
  alone : TokenStream.ofSource first options = .ok ⟨own ++ closing, none⟩
  closing_kinds : closing.map (·.kind) =
    List.replicate ((Run.openLevels options (Line.ofText first.toList)).length - 1) .dedent ++
      if options.markEnd then [.eof] else []
  joined : TokenStream.ofSource (first ++ second) options = .ok ⟨own ++ rest, failure⟩

namespace Run

open Cursor

variable {options : Options} {first second : String}

theorem inRange_append (hwhole : IsWhole first)
    (hsize : (first ++ second).utf8ByteSize ≤ 2 ^ 32 - 2) :
    Line.InRange (Line.ofText first.toList ++ Line.ofText second.toList) := by
  have hrange := Line.inRange_ofSource hsize
  rw [Line.ofText_append_of_isWhole hwhole] at hrange
  exact hrange

theorem splits_of_reached {cursor : Cursor} {failure : Option LexicalError}
    (hwhole : IsWhole first) (hreached : Reached options (Line.ofText first.toList) cursor)
    (habort : (ofLines options cursor (Line.ofText second.toList)).abort =
      failure.map .rejected) :
    Splits options first second (contribution options (Line.ofText first.toList))
      (cursor.closing options) ((ofLines options cursor (Line.ofText second.toList)).tokens options)
      failure := by
  constructor
  . apply ofSource_of_reached hreached (List.append_nil _).symm rfl
  . unfold openLevels
    rw [(abort_eq_none_of_reached hreached).2, map_kind_closing]
    simp [Levels.toList]
  . exact ofSource_of_reached hreached (Line.ofText_append_of_isWhole hwhole second) habort

theorem reached_of_failure_eq_none {source : String} {stream : TokenStream}
    (h : TokenStream.ofSource source options = .ok stream) (hnone : stream.failure = none) :
    ∃ cursor, Reached options (Line.ofText source.toList) cursor ∧
      openLevels options (Line.ofText source.toList) = cursor.levels.toList := by
  rcases ofSource_eq_ok h with ⟨-, cursor, hreached, -⟩ | ⟨error, _, _, _, _, hsome, -⟩
  . refine ⟨cursor, hreached, ?_⟩
    unfold openLevels
    rw [(abort_eq_none_of_reached hreached).2]
  . rw [hnone] at hsome
    contradiction

theorem ofSource_append_of_failure {stream : TokenStream} (hwhole : IsWhole first)
    (hstream : TokenStream.ofSource first options = .ok stream) (hfailure : stream.failure ≠ none)
    (second : String) : TokenStream.ofSource (first ++ second) options = .ok stream := by
  rcases ofSource_eq_ok hstream with
    ⟨hnone, -⟩ | ⟨error, front, line, back, cursor, -, hlines, hreached, hstep, -⟩
  . contradiction
  . -- Neither run gets past the line with the error.
    have hrun : ofSource (first ++ second) options = ofSource first options := by
      unfold ofSource
      rw [Line.ofText_append_of_isWhole hwhole, hlines, List.append_assoc, List.cons_append,
        ofLines_append_of_error hreached hstep, ofLines_append_of_error hreached hstep]
    rw [← hstream]
    unfold TokenStream.ofSource
    rw [hrun]

theorem exists_abort_eq_map {cursor : Cursor} (hwhole : IsWhole first)
    (hsize : (first ++ second).utf8ByteSize ≤ 2 ^ 32 - 2)
    (hreached : Reached options (Line.ofText first.toList) cursor) :
    ∃ failure : Option LexicalError,
      (ofLines options cursor (Line.ofText second.toList)).abort = failure.map .rejected := by
  rcases @exists_ofSource_eq_ok options _ hsize with ⟨stream, -, -, habort, -⟩
  refine ⟨stream.failure, ?_⟩
  rw [← habort]
  unfold ofSource
  rw [Line.ofText_append_of_isWhole hwhole, hreached.ofLines_append]

end Run

open Run in
/--
The lines of a source are tokenized one after the other. An error in the lines of `first` hides all
that follows, otherwise their tokens come first, and the open levels are all that the tokens and the
error of `second` depend on, apart from the numbers of lines and bytes before them.
-/
theorem lines_compose (options : Options) (first second : String)
    (hwhole : IsWhole first) (hsize : (first ++ second).utf8ByteSize ≤ 2 ^ 32 - 2) :
    ∃ stream, TokenStream.ofSource first options = .ok stream ∧
      (stream.failure ≠ none → TokenStream.ofSource (first ++ second) options = .ok stream) ∧
      (stream.failure = none → ∃ own closing rest failure,
        Splits options first second own closing rest failure ∧
        ∀ other stream' (lines bytes : Int), IsWhole other →
          (other ++ second).utf8ByteSize ≤ 2 ^ 32 - 2 →
          TokenStream.ofSource other options = .ok stream' → stream'.failure = none →
          openLevels options (Line.ofText other.toList) =
            openLevels options (Line.ofText first.toList) →
          (Line.ofText other.toList).length = (Line.ofText first.toList).length + lines →
          other.utf8ByteSize = first.utf8ByteSize + bytes →
          second ≠ "" →
          ∃ own' closing' rest' failure',
            Splits options other second own' closing' rest' failure' ∧
            List.Forall₂ (Token.Shifted lines bytes) rest rest' ∧
            Option.Rel (LexicalError.Shifted lines) failure failure') := by
  have hrange := inRange_append hwhole hsize
  have hfirst : first.utf8ByteSize ≤ 2 ^ 32 - 2 := by
    rw [String.utf8ByteSize_append] at hsize
    omega
  rcases @exists_ofSource_eq_ok options first hfirst with ⟨stream, hstream, -⟩
  refine ⟨stream, hstream, ?_, ?_⟩
  . intro hfailure
    exact ofSource_append_of_failure hwhole hstream hfailure second
  . intro hnone
    rcases reached_of_failure_eq_none hstream hnone with ⟨cursor, hreached, hlevels⟩
    rcases exists_abort_eq_map hwhole hsize hreached with ⟨failure, habort⟩
    refine ⟨_, _, _, failure, splits_of_reached hwhole hreached habort, ?_⟩
    intro other stream' lines bytes hwhole' hsize' hstream' hnone' hopen hlines hbytes hsecond
    rcases reached_of_failure_eq_none hstream' hnone' with ⟨cursor', hreached', hlevels'⟩
    have hrange' := inRange_append hwhole' hsize'
    rw [hlevels, hlevels'] at hopen
    rw [← Line.bytes_ofSource other, ← Line.bytes_ofSource first] at hbytes
    rcases @shifted_ofLines options _ _ _ _ _ _ _ (hreached.past hrange.of_append)
        (hreached'.past hrange'.of_append) hrange hrange' hlines hbytes
        (Levels.eq_of_toList_eq hopen)
        (fun hnil => absurd hnil (Line.ofSource_ne_nil hsecond)) with
      ⟨htokens, failure₁, failure', habort₁, habort', hfailure⟩
    have heq : failure₁ = failure := by
      rw [habort] at habort₁
      exact Option.map_injective (fun _ _ => Abort.rejected.inj) habort₁.symm
    rw [heq] at hfailure
    exact ⟨_, _, _, failure', splits_of_reached hwhole' hreached' habort', htokens, hfailure⟩

theorem lines_compose_blank_line :
    IsWhole "a\n\tb\n" ∧ ("a\n\tb\n" ++ "\tc ?\n").utf8ByteSize ≤ 2 ^ 32 - 2 ∧
    ∃ own closing rest failure own' closing' rest' failure',
      Splits {} "a\n\tb\n" "\tc ?\n" own closing rest failure ∧
      Splits {} "a\n\n\tb\n" "\tc ?\n" own' closing' rest' failure' ∧
      List.Forall₂ (Token.Shifted 1 1) rest rest' ∧
      Option.Rel (LexicalError.Shifted 1) failure failure' := by
  have hwhole : IsWhole "a\n\tb\n" := .inr (by decide)
  have hwhole' : IsWhole "a\n\n\tb\n" := .inr (by decide)
  have hsize : ("a\n\tb\n" ++ "\tc ?\n").utf8ByteSize ≤ 2 ^ 32 - 2 := by decide
  have hsize' : ("a\n\n\tb\n" ++ "\tc ?\n").utf8ByteSize ≤ 2 ^ 32 - 2 := by decide
  have hok : (TokenStream.ofSource "a\n\tb\n" {}).toOption.map (·.failure) = some none := by
    decide +kernel
  have hok' : (TokenStream.ofSource "a\n\n\tb\n" {}).toOption.map (·.failure) = some none := by
    decide +kernel
  have hopen : Run.openLevels {} (Line.ofText "a\n\n\tb\n".toList) =
      Run.openLevels {} (Line.ofText "a\n\tb\n".toList) := by
    decide +kernel
  rcases lines_compose {} "a\n\tb\n" "\tc ?\n" hwhole hsize with
    ⟨stream, hstream, -, hsplits⟩
  rw [hstream] at hok
  rcases hsplits (Option.some.inj hok) with ⟨own, closing, rest, failure, hsplit, hother⟩
  cases hstream' : TokenStream.ofSource "a\n\n\tb\n" {} with
  | error cause =>
    rw [hstream'] at hok'
    contradiction
  | ok stream' =>
    rw [hstream'] at hok'
    rcases hother "a\n\n\tb\n" stream' 1 1 hwhole' hsize' hstream' (Option.some.inj hok') hopen
        (by decide) (by decide) (by decide) with
      ⟨own', closing', rest', failure', hsplit', htokens, hfailure⟩
    exact ⟨hwhole, hsize, own, closing, rest, failure, own', closing', rest', failure', hsplit,
      hsplit', htokens, hfailure⟩

end Offside
