import Offside.Proofs.Acceptance
import Offside.Proofs.Outlook

/-!
This module contains the comparison of the two ways to open blocks. If each block is to be one level
above the block around it, then a source is tokenized as without this rule, up to the first line
that breaks it.
-/

namespace Offside

/--
Whether a line that comes after the lines `front`, none of which is badly indented, rises by more
than one level.
-/
structure Line.Climbs (front : List Line) (line : Line) : Prop where
  isBlank_eq : line.isBlank = false
  margin : ∀ other ∈ front ++ [line], other.isBlank = false → Text.WellIndented other.text
  level_le : lastLevel (history front) + 2 ≤ Text.level line.text

structure LexicalError.BehindMargin (front : List Line) (line : Line) (error : LexicalError) :
    Prop where
  line_eq : error.line.toNat = front.length + 1
  column_eq : error.column.toNat = (Text.margin line.text).length + 1

theorem Line.AllConform.wellIndented {strict : Bool} {lines : List Line}
    (h : AllConform strict lines) :
    ∀ line ∈ lines, line.isBlank = false → Text.WellIndented line.text := by
  intro line hmem hblank
  rcases List.append_of_mem hmem with ⟨front, back, hlines⟩
  exact (h front line back hlines hblank).margin

theorem Levels.enter_true_cases (levels : Levels) (level : UInt32) :
    levels.enter true level = levels.enter false level ∨
      (levels.top.toNat + 2 ≤ level.toNat ∧
        levels.enter true level = .error (.stepTooLarge levels.top level)) := by
  unfold enter
  by_cases heq : level = levels.top
  . rw [if_pos heq, if_pos heq]
    exact .inl rfl
  . rw [if_neg heq, if_neg heq]
    by_cases hlt : levels.top < level
    . rw [dif_pos hlt, dif_pos hlt]
      by_cases hstep : 1 < level - levels.top
      . have hne := (one_lt_sub_iff hlt).1 hstep
        rw [UInt32.lt_iff_toNat_lt] at hlt
        rw [if_pos ⟨rfl, hstep⟩]
        exact .inr ⟨by omega, rfl⟩
      . rw [if_neg (fun h => hstep h.2), if_neg (fun h => hstep h.2)]
        exact .inl rfl
    . rw [dif_neg hlt, dif_neg hlt]
      exact .inl rfl

theorem LayoutLine.read_true_cases (options : Options) (levels : Levels) (start stop : Position)
    (text : List Char) :
    read { options with singleStep := true } levels start stop text =
        read { options with singleStep := false } levels start stop text ∨
      ∃ indentation origin message, Indentation.ofText start text = .ok indentation ∧
        start.advance indentation.width indentation.width = .ok origin ∧
        levels.top.toNat + 2 ≤ indentation.level.toNat ∧
        read { options with singleStep := true } levels start stop text =
          .error (.rejected (.ofPosition .invalidIndentation origin message)) := by
  unfold read
  cases hindentation : Indentation.ofText start text with
  | error abort => exact .inl rfl
  | ok indentation =>
    dsimp only [bind, Except.bind]
    cases horigin : start.advance indentation.width indentation.width with
    | error cause => exact .inl rfl
    | ok origin =>
      dsimp only [Except.mapError]
      rcases levels.enter_true_cases indentation.level with heq | ⟨hle, henter⟩
      . rw [heq]
        exact .inl rfl
      . rw [henter]
        exact .inr ⟨indentation, origin, _, rfl, horigin, hle, rfl⟩

namespace Cursor

variable {front : List Line} {line : Line} {cursor : Cursor}

theorem step_true_cases (options : Options) (hpast : cursor.Past front)
    (hrange : Line.InRange (front ++ [line])) :
    cursor.step { options with singleStep := true } line =
        cursor.step { options with singleStep := false } line ∨
      ∃ error, cursor.step { options with singleStep := true } line = .error (.rejected error) ∧
        error.kind = .invalidIndentation ∧ error.BehindMargin front line ∧
        line.isBlank = false ∧ Text.WellIndented line.text ∧
        cursor.levels.top.toNat + 2 ≤ Text.level line.text := by
  rcases pass_of_inRange hpast hrange with ⟨next, hpass, -, -, hnumber, hroom⟩
  unfold step
  rw [hpass]
  dsimp only [Except.mapError, bind, Except.bind]
  cases hblank : line.isBlank with
  | true =>
    rw [if_pos rfl, if_pos rfl]
    exact .inl rfl
  | false =>
    rw [if_neg Bool.false_ne_true, if_neg Bool.false_ne_true]
    rcases LayoutLine.read_true_cases options cursor.levels _ next.stop line.text with
      heq | ⟨indentation, origin, message, hindentation, horigin, hle, hread⟩
    . rw [heq]
      exact .inl rfl
    . have hchars := hroom.mono (Nat.le_refl _) (Text.length_le_byteSize line.text)
      rcases Indentation.of_ofText_eq_ok hchars hindentation with
        ⟨hindented, hlevel, hwidth, -⟩
      have hmargin := Text.length_margin_le line.text
      rw [hwidth] at horigin
      rw [hlevel] at hle
      rcases Position.advance_of_hasRoom (hchars.mono hmargin hmargin) with
        ⟨place, hplace, hline, hcolumn, -⟩
      rw [horigin, Except.ok.injEq] at hplace
      subst hplace
      rw [hread]
      refine .inr ⟨_, rfl, rfl, ⟨?_, ?_⟩, rfl, hindented, hle⟩
      . rw [← hnumber, ← hline]
        rfl
      . rw [Nat.add_comm]
        exact hcolumn

end Cursor

namespace Run

open Cursor

variable {options : Options} {front back : List Line} {cursor : Cursor}

/--
Whether the first of two runs over lines that come after `front` ends at a line that climbs, with
nothing read that the second does not read as well.
-/
def EndsAtClimb (front back : List Line) (lhs rhs : Run) : Prop :=
  ∃ mid line rest error, back = mid ++ line :: rest ∧ line.Climbs (front ++ mid) ∧
    lhs.abort = some (.rejected error) ∧ error.kind = .invalidIndentation ∧
    error.BehindMargin (front ++ mid) line ∧ lhs.lines <+: rhs.lines

theorem ofLines_true_cases
    (hreached : Reached { options with singleStep := true } front cursor)
    (hrange : Line.InRange (front ++ back)) :
    ofLines { options with singleStep := true } cursor back =
        ofLines { options with singleStep := false } cursor back ∨
      EndsAtClimb front back (ofLines { options with singleStep := true } cursor back)
        (ofLines { options with singleStep := false } cursor back) := by
  induction back generalizing front cursor with
  | nil => exact .inl rfl
  | cons line back ih =>
    rw [List.append_cons] at hrange
    have hfront := hrange.of_append
    have hpast := hreached.past hfront.of_append
    rcases step_true_cases options hpast hfront with
      heq | ⟨error, hstep, hkind, hbehind, hblank, hindented, hle⟩
    . cases hstep : cursor.step { options with singleStep := true } line with
      | error abort =>
        rw [hstep] at heq
        rw [ofLines_cons_of_error hstep, ofLines_cons_of_error heq.symm]
        exact .inl rfl
      | ok result =>
        rcases result with ⟨entry, next⟩
        rw [hstep] at heq
        rw [ofLines_cons_of_ok hstep, ofLines_cons_of_ok heq.symm]
        rcases ih (hreached.step hstep) hrange with
          hrun | ⟨mid, other, rest, error, rfl, hclimbs, habort, hkind, hbehind, hlines⟩
        . rw [hrun]
          exact .inl rfl
        . rw [List.append_assoc, List.singleton_append] at hclimbs hbehind
          refine .inr ⟨line :: mid, other, rest, error, rfl, hclimbs, habort, hkind, hbehind, ?_⟩
          exact (List.prefix_append_right_inj _).2 hlines
    . rw [Levels.top_eq_lastLevel (hreached.openAfter hfront.of_append)] at hle
      have hmargin := (hreached.allConform hfront.of_append).wellIndented
      rw [ofLines_cons_of_error hstep]
      refine .inr ⟨[], line, back, error, rfl, ?_, rfl, hkind, ?_, List.nil_prefix⟩
      . rw [List.append_nil]
        refine ⟨hblank, ?_, hle⟩
        rw [List.forall_mem_append, List.forall_mem_singleton]
        exact ⟨hmargin, fun _ => hindented⟩
      . rw [List.append_nil]
        exact hbehind

variable {lhs rhs : Run}

theorem tokens_prefix_of_lines_prefix {abort : Abort} (habort : lhs.abort = some abort)
    (hlines : lhs.lines <+: rhs.lines) (options : Options) :
    lhs.tokens { options with singleStep := true } <+:
      rhs.tokens { options with singleStep := false } := by
  rcases hlines with ⟨rest, hlines⟩
  unfold tokens
  rw [habort, ← hlines, List.flatMap_append]
  cases rhs.abort with
  | none =>
    dsimp only
    rw [List.append_assoc]
    apply List.prefix_append
  | some _ => apply List.prefix_append

theorem ofSource_true_cases {source : String} (hsize : source.utf8ByteSize ≤ 2 ^ 32 - 2)
    (options : Options) :
    ofSource source { options with singleStep := true } =
        ofSource source { options with singleStep := false } ∨
      EndsAtClimb [] (Line.ofText source.toList)
        (ofSource source { options with singleStep := true })
        (ofSource source { options with singleStep := false }) :=
  ofLines_true_cases .start (Line.inRange_ofSource hsize)

end Run

namespace TokenStream

theorem ofSource_true_eq_of_run_eq {source : String} {options : Options}
    (h : Run.ofSource source { options with singleStep := true } =
      Run.ofSource source { options with singleStep := false }) :
    ofSource source { options with singleStep := true } =
      ofSource source { options with singleStep := false } := by
  unfold ofSource
  rw [h]
  rfl

/--
If each block is to be one level above the block around it, then a source has the same tokens and
the same error as without this rule, or its error is at a line that climbs and its tokens are the
first ones.
-/
theorem singleStep_only_rejects (source : String) (options : Options)
    (hsize : source.utf8ByteSize ≤ 2 ^ 32 - 2) :
    ∃ strict lax, ofSource source { options with singleStep := true } = .ok strict ∧
      ofSource source { options with singleStep := false } = .ok lax ∧
      (strict = lax ∨
        ∃ front line back error, Line.ofText source.toList = front ++ line :: back ∧
          line.Climbs front ∧
          strict.failure = some error ∧
          error.kind = .invalidIndentation ∧
          error.BehindMargin front line ∧
          strict.tokens <+: lax.tokens) ∧
      (strict.failure = none → strict = lax) ∧
      ((∀ front line back, Line.ofText source.toList = front ++ line :: back →
        ¬ line.Climbs front) → strict = lax) := by
  rcases @Run.exists_ofSource_eq_ok { options with singleStep := true } source hsize with
    ⟨strict, hstrict, -, hfailure, -⟩
  rcases @Run.exists_ofSource_eq_ok { options with singleStep := false } source hsize with
    ⟨lax, hlax, -⟩
  refine ⟨strict, lax, hstrict, hlax, ?_⟩
  rcases Run.ofSource_true_cases hsize options with
    hrun | ⟨front, line, back, error, hlines, hclimbs, habort, hkind, hbehind, hprefix⟩
  . have heq : strict = lax := by
      rw [ofSource_true_eq_of_run_eq hrun, hlax] at hstrict
      exact (Except.ok.inj hstrict).symm
    exact ⟨.inl heq, fun _ => heq, fun _ => heq⟩
  . rw [List.nil_append] at hclimbs hbehind
    have hsome : strict.failure = some error := by
      rw [habort] at hfailure
      simpa using hfailure.symm
    have htokens := Run.tokens_prefix_of_lines_prefix habort hprefix options
    rw [← Run.tokens_of_ofSource_eq_ok hstrict, ← Run.tokens_of_ofSource_eq_ok hlax] at htokens
    refine ⟨.inr ⟨front, line, back, error, hlines, hclimbs, hsome, hkind, hbehind, htokens⟩,
      ?_, ?_⟩
    . intro hnone
      rw [hsome] at hnone
      contradiction
    . intro hnot
      exact absurd hclimbs (hnot front line back hlines)

theorem singleStep_only_rejects_both_fail :
    "a\n\t\t$\n".utf8ByteSize ≤ 2 ^ 32 - 2 ∧
    ∃ strict lax, ofSource "a\n\t\t$\n" { singleStep := true } = .ok strict ∧
      ofSource "a\n\t\t$\n" { singleStep := false } = .ok lax ∧
      strict.failure.map (·.kind) = some .invalidIndentation ∧
      lax.failure.map (·.kind) = some .invalidToken ∧
      strict.tokens <+: lax.tokens := by
  have hsize : "a\n\t\t$\n".utf8ByteSize ≤ 2 ^ 32 - 2 := by decide
  rcases singleStep_only_rejects "a\n\t\t$\n" {} hsize with ⟨strict, lax, hstrict, hlax, hcases, -⟩
  have hstep : strict.failure.map (·.kind) = some .invalidIndentation := by
    have hkind : (ofSource "a\n\t\t$\n" { singleStep := true }).toOption.bind
        (·.failure.map (·.kind)) = some .invalidIndentation := by decide +kernel
    rw [hstrict] at hkind
    exact hkind
  have hcontent : lax.failure.map (·.kind) = some .invalidToken := by
    have hkind : (ofSource "a\n\t\t$\n" { singleStep := false }).toOption.bind
        (·.failure.map (·.kind)) = some .invalidToken := by decide +kernel
    rw [hlax] at hkind
    exact hkind
  refine ⟨hsize, strict, lax, hstrict, hlax, hstep, hcontent, ?_⟩
  rcases hcases with rfl | ⟨_, _, _, _, -, -, -, -, -, hprefix⟩
  . have hne := hstep.symm.trans hcontent
    contradiction
  . exact hprefix

end TokenStream

end Offside
