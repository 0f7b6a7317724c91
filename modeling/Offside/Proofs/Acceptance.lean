import Offside.Proofs.Run

/-!
This module contains the rules for the lines of a source, told by the text of the source alone. A
source has no error if and only if all its lines that are not blank obey them, and otherwise its
error is at the first of these lines that breaks a rule.
-/

namespace Offside

def Text.IsContent (text : List Char) : Prop :=
  ∃ tokens, (Scan.ofText text).tokens .start 0 = .ok tokens

namespace Line

/--
Whether a line that comes after the lines `front` obeys all rules.
-/
structure Conforms (strict : Bool) (front : List Line) (line : Line) : Prop where
  margin : Text.WellIndented line.text
  level : Enterable strict (history front) (Text.level line.text)
  content : Text.IsContent (Text.body line.text)

/--
The error of a line that comes after the lines `front`, by the first rule that the line breaks.
-/
inductive Breaks (strict : Bool) (front : List Line) (line : Line) : LexicalErrorKind → Prop where
  | margin :
    ¬ Text.WellIndented line.text →
    Breaks strict front line .invalidIndentation
  | step :
    Text.WellIndented line.text →
    ¬ Enterable strict (history front) (Text.level line.text) →
    lastLevel (history front) < Text.level line.text →
    Breaks strict front line .invalidIndentation
  | dedent :
    Text.WellIndented line.text →
    ¬ Enterable strict (history front) (Text.level line.text) →
    Text.level line.text < lastLevel (history front) →
    Breaks strict front line .inconsistentDedent
  | content :
    Text.WellIndented line.text →
    Enterable strict (history front) (Text.level line.text) →
    ¬ Text.IsContent (Text.body line.text) →
    Breaks strict front line .invalidToken

def AllConform (strict : Bool) (lines : List Line) : Prop :=
  ∀ front line back, lines = front ++ line :: back → line.isBlank = false →
    line.Conforms strict front

variable {strict : Bool} {front : List Line} {line : Line} {levels : Levels}

theorem not_conforms_of_breaks {kind : LexicalErrorKind} (h : Breaks strict front line kind) :
    ¬ line.Conforms strict front := by
  intro hconforms
  cases h with
  | margin hmargin => exact hmargin hconforms.margin
  | step _ hlevel _ => exact hlevel hconforms.level
  | dedent _ hlevel _ => exact hlevel hconforms.level
  | content _ _ hcontent => exact hcontent hconforms.content

theorem isContent_body_iff (hrange : InRange (front ++ [line])) :
    Text.IsContent (Text.body line.text) ↔ (Scan.ofText (Text.body line.text)).fault = none := by
  have hbytes := hrange.bytes_le
  have htext := byteSize_text_le line
  have hbody := congrArg Text.byteSize (Text.margin_append_body line.text)
  have hlength := Text.length_le_byteSize (Text.body line.text)
  simp only [bytes_append, bytes_cons, bytes_nil] at hbytes
  rw [Text.byteSize_append] at hbody
  have hroom : Position.start.HasRoom (Text.body line.text).length
      (Text.byteSize (Text.body line.text)) := by
    constructor
    . simp [Position.start]
      omega
    . simp [Position.start]
      omega
  have hcovered := Scan.hasRoom_covered_ofText hroom
  unfold Text.IsContent
  cases hfault : (Scan.ofText (Text.body line.text)).fault with
  | none =>
    rcases Scan.tokens_of_fault_eq_none 0 hfault hcovered with ⟨tokens, htokens, -⟩
    simp [htokens]
  | some fault =>
    rcases Scan.tokens_of_fault_eq_some 0 hfault hcovered with ⟨column, -, htokens⟩
    simp [htokens]

theorem level_iff_admits (hrange : InRange (front ++ [line]))
    (hopen : OpenAfter (history front) levels.heights) :
    levels.Admits strict (Text.level line.text).toUInt32 ↔
      Enterable strict (history front) (Text.level line.text) := by
  rw [Levels.admits_iff_enterable hopen, hrange.toNat_level]

theorem conforms_of_outline_eq_ok {outline : Outline} (hrange : InRange (front ++ [line]))
    (hopen : OpenAfter (history front) levels.heights)
    (h : line.outline strict levels = .ok outline) : line.Conforms strict front := by
  rcases entered_of_outline_eq_ok h with ⟨hmargin, henter, hfault, -⟩
  constructor
  . exact hmargin
  . rw [← level_iff_admits hrange hopen]
    apply Levels.admits_of_enter_eq_ok henter
  . rw [isContent_body_iff hrange]
    exact hfault

theorem breaks_of_outline_eq_error {kind : LexicalErrorKind} (hrange : InRange (front ++ [line]))
    (hopen : OpenAfter (history front) levels.heights)
    (h : line.outline strict levels = .error kind) : Breaks strict front line kind := by
  have hlevel := hrange.toNat_level
  have hadmits := @level_iff_admits strict _ _ _ hrange hopen
  -- The rules are tried in the order in which `outline` does it.
  unfold Line.outline at h
  split at h
  next hmargin =>
    split at h
    next fault henter =>
      rw [Except.error.injEq] at h
      subst h
      have hnot : ¬ levels.Admits strict (Text.level line.text).toUInt32 := by
        intro hadmit
        rcases Levels.enter_of_admits hadmit with ⟨move, after, henter', -⟩
        rw [henter] at henter'
        contradiction
      rcases Levels.enter_of_not_admits hnot with ⟨fault', henter', hkind⟩
      rw [henter, Except.error.injEq] at henter'
      subst henter'
      rw [hadmits] at hnot
      rw [hkind, hlevel, Levels.top_eq_lastLevel hopen]
      split
      next hlt => exact .step hmargin hnot hlt
      next hge =>
        have hne : Text.level line.text ≠ lastLevel (history front) := fun heq => hnot (.inl heq)
        exact .dedent hmargin hnot (by omega)
    next move after henter =>
      dsimp at h
      split at h
      next fault hfault =>
        rw [Except.error.injEq] at h
        subst h
        refine .content hmargin ?_ ?_
        . rw [← hadmits]
          apply Levels.admits_of_enter_eq_ok henter
        . rw [isContent_body_iff hrange, hfault]
          apply Option.some_ne_none fault
      . contradiction
  next hmargin =>
    rw [Except.error.injEq] at h
    subst h
    exact .margin hmargin

theorem allConform_nil : AllConform strict [] := by
  intro front line back hlines
  simp at hlines

theorem allConform_append_singleton (hfront : AllConform strict front)
    (hline : line.isBlank = false → line.Conforms strict front) :
    AllConform strict (front ++ [line]) := by
  intro before other after hlines hblank
  rcases List.eq_nil_or_concat after with rfl | ⟨back, last, rfl⟩
  . have := List.append_inj' hlines rfl
    simp only [List.cons.injEq, and_true] at this
    rw [← this.1, ← this.2]
    rw [← this.2] at hblank
    exact hline hblank
  . rw [List.concat_eq_append, ← List.cons_append, ← List.append_assoc] at hlines
    have := (List.append_inj' hlines rfl).1
    exact hfront before other back this hblank

end Line

namespace Cursor

variable {options : Options} {front : List Line} {cursor : Cursor}

theorem Reached.allConform (h : Reached options front cursor) (hrange : Line.InRange front) :
    Line.AllConform options.singleStep front := by
  induction h with
  | start => exact Line.allConform_nil
  | step hreached hstep ih =>
    apply Line.allConform_append_singleton (ih hrange.of_append)
    intro hnot
    have hpast := hreached.past hrange.of_append
    have hopen := hreached.openAfter hrange.of_append
    rcases (step_cases hpast hrange hstep).2 with ⟨hblank, -⟩ | ⟨outline, _, -, -, houtline, -⟩
    . rw [hnot] at hblank
      contradiction
    . apply Line.conforms_of_outline_eq_ok hrange hopen houtline

theorem Reached.breaks_of_step_eq_error {line : Line} {abort : Abort}
    (h : Reached options front cursor) (hrange : Line.InRange (front ++ [line]))
    (hstep : cursor.step options line = .error abort) :
    line.isBlank = false ∧
      ∃ error, abort = .rejected error ∧ error.line.toNat = front.length + 1 ∧
        Line.Breaks options.singleStep front line error.kind := by
  have hpast := h.past hrange.of_append
  have hopen := h.openAfter hrange.of_append
  rcases step_eq_error hpast hrange hstep with ⟨hblank, error, habort, hline, houtline⟩
  exact ⟨hblank, error, habort, hline, Line.breaks_of_outline_eq_error hrange hopen houtline⟩

end Cursor

/--
A source has no error if and only if all its lines that are not blank obey the rules. Otherwise the
error is at the first of these lines that does not, and its kind is that of the first broken rule.
-/
theorem tokenize_accepts_iff_allConform (source : String) (options : Options)
    (hsize : source.utf8ByteSize ≤ 2 ^ 32 - 2) :
    ((∃ tokens, tokenize source options = .ok tokens) ↔
      Line.AllConform options.singleStep (Line.ofText source.toList)) ∧
    (∀ abort, tokenize source options = .error abort →
      ∃ error front line back, abort = .rejected error ∧
        Line.ofText source.toList = front ++ line :: back ∧
        line.isBlank = false ∧
        Line.AllConform options.singleStep front ∧
        error.line.toNat = front.length + 1 ∧
        Line.Breaks options.singleStep front line error.kind) := by
  have hrange := Line.inRange_ofSource hsize
  unfold tokenize
  dsimp
  rcases Run.ofSource_cases source options with
    ⟨habort, hcursor⟩ | ⟨front, line, back, abort, hlines, habort, hcursor, hstep⟩
  . rw [habort]
    have hconform := hcursor.allConform hrange
    simp [hconform]
  . rw [habort]
    have hfront : Line.InRange (front ++ [line]) := by
      rw [hlines, List.append_cons] at hrange
      exact hrange.of_append
    rcases hcursor.breaks_of_step_eq_error hfront hstep with
      ⟨hblank, error, rfl, hline, hbreaks⟩
    have hconform := hcursor.allConform hfront.of_append
    refine ⟨?_, ?_⟩
    . simp only [reduceCtorEq, exists_false, false_iff]
      intro hall
      apply Line.not_conforms_of_breaks hbreaks (hall front line back hlines hblank)
    . intro abort h
      rw [Except.error.injEq] at h
      exact ⟨error, front, line, back, h.symm, hlines, hblank, hconform, hline, hbreaks⟩

theorem tokenize_accepts_iff_allConform_lone_space :
    "\n a".utf8ByteSize ≤ 2 ^ 32 - 2 ∧
      ¬ Line.AllConform false (Line.ofText "\n a".toList) ∧
      ∃ error front line back, tokenize "\n a" {} = .error (.rejected error) ∧
        Line.ofText "\n a".toList = front ++ line :: back ∧
        line.isBlank = false ∧
        Line.AllConform false front ∧
        error.line.toNat = front.length + 1 ∧
        Line.Breaks false front line error.kind := by
  have hsize : "\n a".utf8ByteSize ≤ 2 ^ 32 - 2 := by decide
  have haccepts := tokenize_accepts_iff_allConform "\n a" {} hsize
  have hfails : (tokenize "\n a" {}).isOk = false := by rfl
  cases htokenize : tokenize "\n a" {} with
  | ok tokens =>
    rw [htokenize] at hfails
    contradiction
  | error abort =>
    refine ⟨hsize, ?_, ?_⟩
    . rw [← haccepts.1, htokenize]
      simp
    . rcases haccepts.2 abort htokenize with ⟨error, front, line, back, rfl, h⟩
      exact ⟨error, front, line, back, rfl, h⟩

end Offside
