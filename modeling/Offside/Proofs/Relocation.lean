import Mathlib.Data.List.Forall2
import Offside.Proofs.Origin

/-!
This module contains the relocation of a text. Tokens and errors move with the position at which the
text starts, up to the first position that does not fit its words.
-/

namespace Offside

/--
Whether `rhs` is the place in a text that starts at `origin` which `lhs` is if the text starts a
file.
-/
structure Position.Moved (origin lhs rhs : Position) : Prop where
  line_eq : rhs.line = origin.line
  column_eq : rhs.column.toNat + 1 = origin.column.toNat + lhs.column.toNat
  offset_eq : rhs.offset.toNat = origin.offset.toNat + lhs.offset.toNat

structure Token.Moved (origin : Position) (fileId : UInt32) (lhs rhs : Token) : Prop where
  kind_eq : rhs.kind = lhs.kind
  start_moved : origin.Moved lhs.span.start rhs.span.start
  stop_moved : origin.Moved lhs.span.stop rhs.span.stop
  fileId_eq : rhs.span.fileId = fileId

structure LexicalError.Moved (origin : Position) (lhs rhs : LexicalError) : Prop where
  kind_eq : rhs.kind = lhs.kind
  line_eq : rhs.line = origin.line
  column_eq : rhs.column.toNat + 1 = origin.column.toNat + lhs.column.toNat
  message_eq : rhs.message = lhs.message

namespace Position

variable {origin pos lhs rhs : Position} {chars bytes : Nat} {text front : List Char}

theorem hasRoom_of_advance (hchars : chars < 2 ^ 32) (hbytes : bytes < 2 ^ 64)
    (h : origin.advance chars bytes = .ok pos) : origin.HasRoom chars bytes := by
  unfold advance at h
  rw [bind_eq_ok_iff] at h
  rcases h with ⟨column, hcolumn, h⟩
  rw [bind_eq_ok_iff] at h
  rcases h with ⟨offset, hoffset, -⟩
  rw [Word.add32_eq_ok_iff, UInt32.toNat_ofNat_of_lt' hchars] at hcolumn
  rw [Word.add64_eq_ok_iff, UInt64.toNat_ofNat_of_lt' hbytes] at hoffset
  have hcolumn_lt := column.toNat_lt
  have hoffset_lt := offset.toNat_lt
  constructor
  . omega
  . omega

theorem HasRoom.of_prefix (h : origin.HasRoom text.length (Text.byteSize text))
    (hbegins : front <+: text) : origin.HasRoom front.length (Text.byteSize front) := by
  rcases hbegins with ⟨back, rfl⟩
  rw [List.length_append, Text.byteSize_append] at h
  exact h.mono (by omega) (by omega)

theorem Behind.moved (hlhs : start.Behind text lhs) (hrhs : origin.Behind text rhs) :
    origin.Moved lhs rhs := by
  constructor
  . exact hrhs.line_eq
  . rw [hrhs.column_eq, hlhs.column_eq]
    show _ = origin.column.toNat + (1 + text.length)
    omega
  . rw [hrhs.offset_eq, hlhs.offset_eq]
    show _ = origin.offset.toNat + (0 + Text.byteSize text)
    omega

end Position

theorem Token.Marked.moved {origin : Position} {fileId fileId' : UInt32} {lhs rhs : Token}
    {mark : Mark} (hlhs : lhs.Marked .start fileId' mark) (hrhs : rhs.Marked origin fileId mark) :
    lhs.Moved origin fileId rhs := by
  constructor
  . rw [hrhs.kind_eq, hlhs.kind_eq]
  . exact hlhs.start_behind.moved hrhs.start_behind
  . exact hlhs.stop_behind.moved hrhs.stop_behind
  . exact hrhs.fileId_eq

namespace Scan

inductive Relocated (origin : Position) (fileId : UInt32) :
    Except Abort (List Token) → Except Abort (List Token) → Prop where
  | accepted {lhs rhs : List Token} :
    List.Forall₂ (Token.Moved origin fileId) lhs rhs →
    Relocated origin fileId (.ok lhs) (.ok rhs)
  | rejected {lhs rhs : LexicalError} :
    lhs.Moved origin rhs →
    Relocated origin fileId (.error (.rejected lhs)) (.error (.rejected rhs))

/--
Whether the last thing told about a text is the place behind `before`: the end of the last token, or
the character at which an error is.
-/
inductive Reaches (origin : Position) (before : List Char) : Except Abort (List Token) → Prop where
  | token {init : List Token} {last : Token} :
    origin.Behind before last.span.stop →
    Reaches origin before (.ok (init ++ [last]))
  | fault {error : LexicalError} :
    error.line = origin.line → error.column.toNat = origin.column.toNat + before.length →
    Reaches origin before (.error (.rejected error))

/--
Whether the furthest place that is computed for the text of a scan is that behind `before`.
-/
inductive Furthest (scan : Scan) : List Char → Prop where
  | token {init : List Mark} {last : Mark} :
    scan.fault = none → marks [] scan.lexemes = init ++ [last] →
    Furthest scan (last.before ++ last.body)
  | fault {fault : ContentFault} :
    scan.fault = some fault →
    Furthest scan (covered scan.lexemes)

variable {scan : Scan} {origin : Position} {fileId : UInt32} {before text : List Char}
  {lexemes : List Lexeme} {mark : Mark}

section Order

theorem before_prefix_of_mem_marks (h : mark ∈ marks before lexemes) : before <+: mark.before := by
  induction lexemes generalizing before with
  | nil => contradiction
  | cons lexeme lexemes ih =>
    rcases lexeme with ⟨kind, text⟩
    cases kind with
    | none => exact (List.prefix_append before text).trans (ih h)
    | some kind =>
      rw [marks, List.mem_cons] at h
      cases h with
      | inl heq =>
        subst heq
        exact List.prefix_refl before
      | inr hmem => exact (List.prefix_append before text).trans (ih hmem)

theorem stop_prefix_of_mem_marks (h : mark ∈ marks before lexemes) :
    mark.before ++ mark.body <+: before ++ covered lexemes := by
  induction lexemes generalizing before with
  | nil => contradiction
  | cons lexeme lexemes ih =>
    rcases lexeme with ⟨kind, text⟩
    rw [covered_cons, ← List.append_assoc]
    cases kind with
    | none => exact ih h
    | some kind =>
      rw [marks, List.mem_cons] at h
      cases h with
      | inl heq =>
        subst heq
        apply List.prefix_append
      | inr hmem => exact ih hmem

theorem pairwise_marks (before : List Char) (lexemes : List Lexeme) :
    (marks before lexemes).Pairwise
      fun lhs rhs => lhs.before ++ lhs.body <+: rhs.before ++ rhs.body := by
  induction lexemes generalizing before with
  | nil => exact .nil
  | cons lexeme lexemes ih =>
    rcases lexeme with ⟨kind, text⟩
    cases kind with
    | none => apply ih
    | some kind =>
      rw [marks, List.pairwise_cons]
      refine ⟨?_, ih _⟩
      intro later hmem
      exact (before_prefix_of_mem_marks hmem).trans (List.prefix_append _ _)

end Order

namespace Furthest

theorem fitsAt_iff (h : scan.Furthest before) :
    scan.FitsAt origin ↔ origin.HasRoom before.length (Text.byteSize before) := by
  cases h with
  | @token init last hfault hmarks =>
    have hlast : last ∈ marks [] scan.lexemes := by
      rw [hmarks]
      apply List.mem_append_right _ List.mem_cons_self
    have hpairwise := pairwise_marks [] scan.lexemes
    rw [hmarks, List.pairwise_append] at hpairwise
    constructor
    . intro hfits
      exact hfits.stop last hlast
    . intro hroom
      constructor
      . intro mark hmem
        rw [hmarks, List.mem_append, List.mem_singleton] at hmem
        rcases hmem with hmem | rfl
        . exact hroom.of_prefix (hpairwise.2.2 mark hmem last List.mem_cons_self)
        . exact hroom
      . exact absurd hfault
  | fault hfault =>
    constructor
    . intro hfits
      apply hfits.fault
      rw [hfault]
      apply Option.some_ne_none
    . intro hroom
      constructor
      . intro mark hmem
        exact hroom.of_prefix (stop_prefix_of_mem_marks hmem)
      . intro _
        exact hroom

theorem reaches (h : scan.Furthest before) (hfits : scan.FitsAt origin) (fileId : UInt32) :
    Reaches origin before (scan.tokens origin fileId) := by
  cases h with
  | @token init last hfault hmarks =>
    rcases hfits.tokens_eq_ok fileId hfault with ⟨tokens, htokens, hmarked⟩
    rw [hmarks] at hmarked
    have hdrop := List.forall₂_drop_append _ _ _ hmarked
    rw [List.forall₂_cons_right_iff] at hdrop
    rcases hdrop with ⟨token, rest, htoken, hrest, heq⟩
    rw [List.forall₂_nil_right_iff] at hrest
    rw [htokens, ← List.take_append_drop init.length tokens, heq, hrest]
    exact .token htoken.stop_behind
  | fault hfault =>
    rcases hfits.tokens_eq_rejected fileId hfault with ⟨column, hcolumn, htokens⟩
    rw [htokens]
    exact .fault rfl hcolumn

end Furthest

theorem exists_furthest (text : List Char) :
    ((ofText text).fault = none ∧ marks [] (ofText text).lexemes = []) ∨
      ∃ before, before <+: text ∧ (ofText text).Furthest before := by
  rcases covered_ofText text with ⟨rest, hrest, -⟩
  cases hfault : (ofText text).fault with
  | some fault => exact .inr ⟨_, ⟨rest, hrest⟩, .fault hfault⟩
  | none =>
    rcases List.eq_nil_or_concat (marks [] (ofText text).lexemes) with hnil | ⟨init, last, hmarks⟩
    . exact .inl ⟨rfl, hnil⟩
    . rw [List.concat_eq_append] at hmarks
      refine .inr ⟨_, ?_, .token hfault hmarks⟩
      have hlast : last ∈ marks [] (ofText text).lexemes := by
        rw [hmarks]
        apply List.mem_append_right _ List.mem_cons_self
      exact (stop_prefix_of_mem_marks hlast).trans ⟨rest, hrest⟩

theorem fits_of_go (hsize : Text.byteSize (before ++ covered lexemes) < 2 ^ 32)
    (h : ∀ cause, tokens.go scan origin fileId before.length (Text.byteSize before) lexemes ≠
      .error (.overflow cause)) :
    (∀ mark ∈ marks before lexemes, origin.HasRoom (mark.before ++ mark.body).length
      (Text.byteSize (mark.before ++ mark.body))) ∧
      (scan.fault ≠ none → origin.HasRoom (before ++ covered lexemes).length
        (Text.byteSize (before ++ covered lexemes))) := by
  -- All positions were computed, and none of them overflowed.
  induction lexemes generalizing before with
  | nil =>
    refine ⟨by simp [marks], ?_⟩
    intro hfault
    rcases Option.ne_none_iff_exists'.1 hfault with ⟨fault, hsome⟩
    rw [covered, List.flatMap_nil, List.append_nil] at hsize ⊢
    rw [tokens.go, hsome] at h
    dsimp only at h
    unfold Abort.reject at h
    split at h
    next cause _ => exact absurd rfl (h cause)
    next hadvance =>
      have hlength := Text.length_le_byteSize before
      exact Position.hasRoom_of_advance (by omega) (by omega) hadvance
  | cons lexeme lexemes ih =>
    rcases lexeme with ⟨kind, text⟩
    have hlength : before.length + text.length = (before ++ text).length := by simp
    have hbytes : Text.byteSize before + Text.byteSize text = Text.byteSize (before ++ text) := by
      simp
    rw [covered_cons, ← List.append_assoc] at hsize ⊢
    cases kind with
    | none =>
      rw [tokens.go, hlength, hbytes] at h
      exact ih hsize h
    | some kind =>
      rw [tokens.go] at h
      dsimp only at h
      rw [hlength, hbytes] at h
      cases hstart : origin.advance before.length (Text.byteSize before) with
      | error cause =>
        rw [hstart] at h
        exact absurd rfl (h cause)
      | ok start =>
        cases hstop : origin.advance (before ++ text).length (Text.byteSize (before ++ text)) with
        | error cause =>
          rw [hstart, hstop] at h
          exact absurd rfl (h cause)
        | ok stop =>
          rw [hstart, hstop] at h
          have hnext (cause : Overflow) :
              tokens.go scan origin fileId (before ++ text).length
                (Text.byteSize (before ++ text)) lexemes ≠ .error (.overflow cause) := by
            intro hoverflow
            rw [hoverflow] at h
            exact h cause rfl
          rcases ih hsize hnext with ⟨hmarks, hfault⟩
          rw [marks, List.forall_mem_cons]
          refine ⟨⟨?_, hmarks⟩, hfault⟩
          rw [Text.byteSize_append (before ++ text)] at hsize
          have hle := Text.length_le_byteSize (before ++ text)
          dsimp only
          exact Position.hasRoom_of_advance (by omega) (by omega) hstop

theorem tokens_of_not_fitsAt (hsize : Text.byteSize text < 2 ^ 32)
    (h : ¬(ofText text).FitsAt origin) :
    (ofText text).tokens origin fileId = .error (.overflow .addition) := by
  rcases covered_ofText text with ⟨rest, hrest, -⟩
  have hbytes := congrArg Text.byteSize hrest
  rw [Text.byteSize_append] at hbytes
  by_contra hne
  have hfits := @fits_of_go (ofText text) origin fileId [] (ofText text).lexemes
    (by rw [List.nil_append]; omega) (by rintro ⟨⟩; exact hne)
  exact h ⟨hfits.1, hfits.2⟩

theorem FitsAt.relocated (hstart : scan.FitsAt .start) (h : scan.FitsAt origin) (fileId : UInt32) :
    Relocated origin fileId (scan.tokens .start 0) (scan.tokens origin fileId) := by
  cases hfault : scan.fault with
  | none =>
    rcases hstart.tokens_eq_ok 0 hfault with ⟨lhs, hlhs, hmarked⟩
    rcases h.tokens_eq_ok fileId hfault with ⟨rhs, hrhs, hmarked'⟩
    rw [hlhs, hrhs]
    apply Relocated.accepted
    generalize marks [] scan.lexemes = marks at hmarked hmarked'
    clear hlhs hrhs
    induction hmarked generalizing rhs with
    | nil =>
      cases hmarked'
      exact .nil
    | cons hhead _ ih =>
      cases hmarked' with
      | cons hhead' htail' => exact .cons (hhead.moved hhead') (ih _ htail')
  | some fault =>
    rcases hstart.tokens_eq_rejected 0 hfault with ⟨column, hcolumn, hlhs⟩
    rcases h.tokens_eq_rejected fileId hfault with ⟨column', hcolumn', hrhs⟩
    rw [hlhs, hrhs]
    apply Relocated.rejected
    constructor
    . rfl
    . rfl
    . rw [hcolumn, hcolumn']
      show _ = origin.column.toNat + (1 + (covered scan.lexemes).length)
      omega
    . rfl

/--
A text comes to the same tokens or the same error wherever it starts, moved by the place where it
starts, as long as the last place that is told fits the words of a position. Otherwise an addition
overflows. A text without tokens and without an error has no such place, and comes to nothing.
-/
theorem tokens_relocate (content : String) (hsize : content.utf8ByteSize ≤ 2 ^ 32 - 2)
    (origin : Position) (fileId : UInt32) :
    ((ofText content.toList).tokens .start 0 = .ok [] ∧
      (ofText content.toList).tokens origin fileId = .ok []) ∨
    ∃ before after, content.toList = before ++ after ∧
      Reaches .start before ((ofText content.toList).tokens .start 0) ∧
      (origin.HasRoom before.length (Text.byteSize before) →
        Relocated origin fileId ((ofText content.toList).tokens .start 0)
          ((ofText content.toList).tokens origin fileId)) ∧
      (¬origin.HasRoom before.length (Text.byteSize before) →
        (ofText content.toList).tokens origin fileId = .error (.overflow .addition)) := by
  rw [← Text.byteSize_toList] at hsize
  generalize content.toList = text at hsize ⊢
  rcases exists_furthest text with ⟨hfault, hmarks⟩ | ⟨before, ⟨after, htext⟩, hfurthest⟩
  . left
    have empty (origin : Position) (fileId : UInt32) :
        (ofText text).tokens origin fileId = .ok [] := by
      have hfits : (ofText text).FitsAt origin := ⟨by simp [hmarks], absurd hfault⟩
      rcases hfits.tokens_eq_ok fileId hfault with ⟨tokens, htokens, hmarked⟩
      rw [hmarks, List.forall₂_nil_right_iff] at hmarked
      rw [htokens, hmarked]
    exact ⟨empty .start 0, empty origin fileId⟩
  . right
    have hstart : (ofText text).FitsAt .start := by
      rw [hfurthest.fitsAt_iff]
      have hroom : Position.start.HasRoom text.length (Text.byteSize text) := by
        have hlength := Text.length_le_byteSize text
        constructor
        . show 1 + text.length < 2 ^ 32
          omega
        . show 0 + Text.byteSize text < 2 ^ 64
          omega
      exact hroom.of_prefix ⟨after, htext⟩
    refine ⟨before, after, htext.symm, hfurthest.reaches hstart 0, ?_, ?_⟩
    . intro hroom
      exact hstart.relocated (hfurthest.fitsAt_iff.2 hroom) fileId
    . intro hroom
      apply tokens_of_not_fitsAt (by omega)
      rw [hfurthest.fitsAt_iff]
      exact hroom

theorem tokens_relocate_last_column :
    "\"ä\" $".utf8ByteSize ≤ 2 ^ 32 - 2 ∧
    Relocated ⟨7, 4294967291, 0⟩ 3
      (.error (.rejected ⟨.invalidToken, 1, 5, "unexpected character '$'"⟩))
      ((ofText "\"ä\" $".toList).tokens ⟨7, 4294967291, 0⟩ 3) ∧
    (ofText "\"ä\" $".toList).tokens ⟨7, 4294967292, 0⟩ 3 = .error (.overflow .addition) := by
  have hsize : "\"ä\" $".utf8ByteSize ≤ 2 ^ 32 - 2 := by decide
  have hstart : (ofText "\"ä\" $".toList).tokens .start 0 =
      .error (.rejected ⟨.invalidToken, 1, 5, "unexpected character '$'"⟩) := by
    decide +kernel
  have length_eq {before : List Char}
      (h : Reaches .start before ((ofText "\"ä\" $".toList).tokens .start 0)) :
      before.length = 4 := by
    rw [hstart] at h
    cases h with
    | fault hline hcolumn =>
      have hsum : 5 = 1 + before.length := hcolumn
      omega
  refine ⟨hsize, ?_, ?_⟩
  . rcases tokens_relocate "\"ä\" $" hsize ⟨7, 4294967291, 0⟩ 3 with
      ⟨hnil, -⟩ | ⟨before, after, htext, hreaches, hmoved, -⟩
    . rw [hstart] at hnil
      contradiction
    . rw [hstart] at hmoved
      apply hmoved
      have hbefore : before = "\"ä\" ".toList := by
        rw [← List.take_left' (length_eq hreaches), ← htext]
        decide
      rw [hbefore]
      exact ⟨by decide, by decide⟩
  . rcases tokens_relocate "\"ä\" $" hsize ⟨7, 4294967292, 0⟩ 3 with
      ⟨hnil, -⟩ | ⟨before, after, -, hreaches, -, hoverflow⟩
    . rw [hstart] at hnil
      contradiction
    . apply hoverflow
      intro hroom
      have hcolumn := hroom.column_lt
      rw [length_eq hreaches] at hcolumn
      exact absurd hcolumn (by decide)

end Scan

end Offside
