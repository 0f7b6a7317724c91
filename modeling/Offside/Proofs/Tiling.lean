import Offside.Proofs.Mark

/-!
This module contains tilings of a text by tokens. Between the tokens of a tiling there are only
blanks, line feeds and comments, so that any other character belongs to exactly one of the tokens.
-/

namespace Offside

def Span.holds (span : Span) (offset : Nat) : Bool :=
  decide (span.start.offset.toNat ≤ offset ∧ offset < span.stop.offset.toNat)

def holders (tokens : List Token) (offset : Nat) : Nat :=
  tokens.countP (·.span.holds offset)

def Token.Precedes (lhs rhs : Token) : Prop :=
  lhs.span.stop.offset ≤ rhs.span.start.offset

theorem Token.pairwise_precedes_of_point {tokens : List Token} {pos : Position} {fileId : UInt32}
    (h : ∀ token ∈ tokens, token.span = .point pos fileId) : tokens.Pairwise Precedes := by
  rw [List.pairwise_iff_forall_sublist]
  intro lhs rhs hsublist
  have hlhs := h lhs (hsublist.subset List.mem_cons_self)
  have hrhs := h rhs (hsublist.subset (List.mem_cons_of_mem _ List.mem_cons_self))
  unfold Token.Precedes
  rw [hlhs, hrhs]
  exact UInt64.le_refl _

namespace Text

/--
Whether a text in front of `rest` consists of blanks, line feeds and comments. A comment goes up to
the next line feed or the end of the source.
-/
inductive Skipped (rest : List Char) : List Char → Prop where
  | nil : Skipped rest []
  | blank {c : Char} {text : List Char} :
    isBlank c = true ∨ c = '\n' →
    Skipped rest text →
    Skipped rest (c :: text)
  | comment {body text : List Char} :
    '\n' ∉ body → (∀ c ∈ (text ++ rest).head?, c = '\n') →
    Skipped rest text →
    Skipped rest ('#' :: (body ++ text))

variable {rest text lhs rhs : List Char}

theorem skipped_of_forall (h : ∀ c ∈ text, isBlank c = true ∨ c = '\n') : Skipped rest text := by
  induction text with
  | nil => exact .nil
  | cons c text ih =>
    rw [List.forall_mem_cons] at h
    exact .blank h.1 (ih h.2)

theorem Skipped.append (hlhs : Skipped (rhs ++ rest) lhs) (hrhs : Skipped rest rhs) :
    Skipped rest (lhs ++ rhs) := by
  induction hlhs with
  | nil => exact hrhs
  | blank hc _ ih => exact .blank hc ih
  | @comment body text hbody hend _ ih =>
    rw [List.cons_append, List.append_assoc]
    apply Skipped.comment hbody _ ih
    rw [List.append_assoc]
    exact hend

theorem split_cases {before after : List Char} {c : Char} (h : lhs ++ rhs = before ++ c :: after) :
    (∃ tail, lhs = before ++ c :: tail) ∨
      ∃ init, before = lhs ++ init ∧ rhs = init ++ c :: after := by
  rw [List.append_eq_append_iff] at h
  rcases h with ⟨init, hbefore, hrhs⟩ | ⟨tail, hlhs, htail⟩
  . exact .inr ⟨init, hbefore, hrhs⟩
  . cases tail with
    | nil =>
      rw [List.append_nil] at hlhs
      exact .inr ⟨[], by rw [hlhs, List.append_nil], htail.symm⟩
    | cons d tail =>
      rw [List.cons_append, List.cons.injEq] at htail
      exact .inl ⟨tail, by rw [hlhs, htail.1]⟩

theorem Skipped.char_cases {before after : List Char} {c : Char} (h : Skipped rest text)
    (hsplit : text = before ++ c :: after) :
    isBlank c = true ∨ c = '\n' ∨
      ∃ front body, before ++ [c] = front ++ '#' :: body ∧ '\n' ∉ body := by
  induction h generalizing before with
  | nil => simp at hsplit
  | @blank d text hd _ ih =>
    cases before with
    | nil =>
      rw [List.nil_append, List.cons.injEq] at hsplit
      rw [← hsplit.1]
      rcases hd with hblank | hfeed
      . exact .inl hblank
      . exact .inr (.inl hfeed)
    | cons e before =>
      rw [List.cons_append, List.cons.injEq] at hsplit
      rcases ih hsplit.2 with hblank | hfeed | ⟨front, body, heq, hbody⟩
      . exact .inl hblank
      . exact .inr (.inl hfeed)
      . refine .inr (.inr ⟨e :: front, body, ?_, hbody⟩)
        rw [List.cons_append, heq, List.cons_append]
  | @comment comment text hcomment _ _ ih =>
    cases before with
    | nil =>
      rw [List.nil_append, List.cons.injEq] at hsplit
      refine .inr (.inr ⟨[], [], ?_, List.not_mem_nil⟩)
      rw [← hsplit.1]
    | cons e before =>
      rw [List.cons_append, List.cons.injEq] at hsplit
      rw [← hsplit.1]
      rcases split_cases hsplit.2 with ⟨tail, htail⟩ | ⟨init, hinit, htext⟩
      . -- The character belongs to this comment.
        refine .inr (.inr ⟨[], before ++ [c], rfl, ?_⟩)
        intro hmem
        apply hcomment
        rw [htail, List.append_cons]
        exact List.mem_append_left tail hmem
      . rcases ih htext with hblank | hfeed | ⟨front, body, heq, hbody⟩
        . exact .inl hblank
        . exact .inr (.inl hfeed)
        . refine .inr (.inr ⟨'#' :: comment ++ front, body, ?_, hbody⟩)
          rw [hinit, ← List.cons_append, List.append_assoc, heq, List.append_assoc]

end Text

/--
Whether tokens tile a text that stands between `before` and `rest`. The text in front of each token,
and that after the last one, is skipped.
-/
inductive Tiles (rest : List Char) : List Char → List Char → List Token → Prop where
  | last {before gap : List Char} :
    Text.Skipped rest gap →
    Tiles rest before gap []
  | token {before gap body text : List Char} {token : Token} {tokens : List Token} :
    Text.Skipped (body ++ text ++ rest) gap →
    token.span.start.After (before ++ gap) →
    token.span.stop.After (before ++ gap ++ body) →
    Tiles rest (before ++ gap ++ body) text tokens →
    Tiles rest before (gap ++ body ++ text) (token :: tokens)

namespace Tiles

variable {rest before text : List Char} {tokens : List Token}

theorem skip {gap : List Char} (hgap : Text.Skipped (text ++ rest) gap)
    (h : Tiles rest (before ++ gap) text tokens) : Tiles rest before (gap ++ text) tokens := by
  cases h with
  | last hskipped => exact .last (hgap.append hskipped)
  | @token _ inner body text token tokens hskipped hstart hstop htiles =>
    have hskipped' : Text.Skipped (body ++ text ++ rest) (gap ++ inner) := by
      apply Text.Skipped.append _ hskipped
      rw [List.append_assoc, List.append_assoc] at hgap
      rw [List.append_assoc]
      exact hgap
    rw [List.append_assoc before] at hstart hstop htiles
    rw [← List.append_assoc gap, ← List.append_assoc gap]
    exact .token hskipped' hstart hstop htiles

theorem append {text' : List Char} {tokens' : List Token}
    (h : Tiles (text' ++ rest) before text tokens)
    (h' : Tiles rest (before ++ text) text' tokens') :
    Tiles rest before (text ++ text') (tokens ++ tokens') := by
  induction h with
  | last hskipped =>
    -- The gap after the last token goes on in the second text.
    exact skip hskipped h'
  | @token before gap body text token tokens hskipped hstart hstop _ ih =>
    rw [List.append_assoc (gap ++ body), List.cons_append]
    apply Tiles.token _ hstart hstop
    . apply ih
      rw [← List.append_assoc, ← List.append_assoc] at h'
      exact h'
    . rw [← List.append_assoc] at hskipped
      rw [← List.append_assoc]
      exact hskipped

theorem le_start (h : Tiles rest before text tokens) :
    ∀ token ∈ tokens, Text.byteSize before ≤ token.span.start.offset.toNat := by
  induction h with
  | last _ => simp
  | token _ hstart _ _ ih =>
    rw [List.forall_mem_cons]
    have hoffset := hstart.offset_eq
    simp only [Text.byteSize_append] at hoffset ih
    refine ⟨by omega, ?_⟩
    intro other hmem
    have := ih other hmem
    omega

theorem pairwise_precedes (h : Tiles rest before text tokens) : tokens.Pairwise Token.Precedes := by
  induction h with
  | last _ => exact .nil
  | token _ _ hstop htiles ih =>
    rw [List.pairwise_cons]
    refine ⟨?_, ih⟩
    intro other hmem
    unfold Token.Precedes
    rw [UInt64.le_iff_toNat_le, hstop.offset_eq]
    exact htiles.le_start other hmem

theorem holders_eq_zero {offset : Nat} (h : Tiles rest before text tokens)
    (hoffset : offset < Text.byteSize before) : holders tokens offset = 0 := by
  unfold holders
  rw [List.countP_eq_zero]
  intro token hmem
  have := h.le_start token hmem
  unfold Span.holds
  rw [decide_eq_true_eq]
  omega

/--
Whether the character `c` after `before ++ front` is a blank, a line feed or a part of a comment.
The number sign that starts a comment belongs to no token.
-/
def Free (tokens : List Token) (before front : List Char) (c : Char) : Prop :=
  Text.isBlank c = true ∨ c = '\n' ∨
    ∃ init body, front ++ [c] = init ++ '#' :: body ∧ '\n' ∉ body ∧
      holders tokens (Text.byteSize (before ++ init)) = 0

theorem free_of_skipped {gap front after : List Char} {c : Char} (h : Text.Skipped rest gap)
    (hsplit : gap = front ++ c :: after)
    (hzero : ∀ offset < Text.byteSize (before ++ gap), holders tokens offset = 0) :
    holders tokens (Text.byteSize (before ++ front)) = 0 ∧ Free tokens before front c := by
  have hpos := c.utf8Size_pos
  have hsize := congrArg Text.byteSize hsplit
  rw [Text.byteSize_append, Text.byteSize_cons] at hsize
  simp only [Text.byteSize_append] at hzero ⊢
  refine ⟨hzero _ (by omega), ?_⟩
  rcases h.char_cases hsplit with hblank | hfeed | ⟨init, body, heq, hbody⟩
  . exact .inl hblank
  . exact .inr (.inl hfeed)
  . refine .inr (.inr ⟨init, body, heq, hbody, ?_⟩)
    rw [Text.byteSize_append]
    have hinit := congrArg Text.byteSize heq
    simp only [Text.byteSize_append, Text.byteSize_cons, Text.byteSize_nil] at hinit
    have : 0 < '#'.utf8Size := Char.utf8Size_pos '#'
    exact hzero _ (by omega)

theorem Free.behind {front body : List Char} {c : Char} (h : Free tokens (before ++ body) front c)
    {tokens' : List Token}
    (hlater : ∀ offset ≥ Text.byteSize (before ++ body),
      holders tokens' offset = holders tokens offset) :
    Free tokens' before (body ++ front) c := by
  rcases h with hblank | hfeed | ⟨init, comment, heq, hcomment, hzero⟩
  . exact .inl hblank
  . exact .inr (.inl hfeed)
  . refine .inr (.inr ⟨body ++ init, comment, ?_, hcomment, ?_⟩)
    . rw [List.append_assoc, heq, List.append_assoc]
    . rw [← List.append_assoc, hlater _ (by simp)]
      exact hzero

theorem held_or_free {front after : List Char} {c : Char} (h : Tiles rest before text tokens)
    (hsplit : text = front ++ c :: after) :
    holders tokens (Text.byteSize (before ++ front)) = 1 ∨
      (holders tokens (Text.byteSize (before ++ front)) = 0 ∧ Free tokens before front c) := by
  induction h generalizing front with
  | last hskipped => exact .inr (free_of_skipped hskipped hsplit (by simp [holders]))
  | @token before gap body text token tokens hskipped hstart hstop htiles ih =>
    have hstart := hstart.offset_eq
    have hstop := hstop.offset_eq
    have holders_cons (offset : Nat) : holders (token :: tokens) offset =
        holders tokens offset + if token.span.holds offset then 1 else 0 := List.countP_cons
    unfold Span.holds at holders_cons
    rw [hstart, hstop] at holders_cons
    rw [List.append_assoc gap] at hsplit
    rcases Text.split_cases hsplit with ⟨tail, hgap⟩ | ⟨middle, hfront, hsplit⟩
    . -- The character stands in front of this token, and no token comes before that.
      refine .inr (free_of_skipped hskipped hgap ?_)
      intro offset hoffset
      rw [holders_cons, holders_eq_zero htiles, if_neg]
      . rw [decide_eq_true_eq]
        omega
      . rw [Text.byteSize_append]
        omega
    . rcases Text.split_cases hsplit with ⟨tail, hbody⟩ | ⟨last, hmiddle, hsplit⟩
      . -- The character belongs to this token and none of those after it.
        have hpos := c.utf8Size_pos
        have hsize := congrArg Text.byteSize hbody
        rw [hfront]
        simp only [Text.byteSize_append, Text.byteSize_cons] at hsize holders_cons ⊢
        rw [holders_cons, holders_eq_zero htiles, if_pos]
        . exact .inl rfl
        . rw [decide_eq_true_eq]
          omega
        . simp only [Text.byteSize_append]
          omega
      . -- The character stands after this token, which it cannot belong to then.
        have hlater (offset : Nat) (hoffset : offset ≥ Text.byteSize (before ++ (gap ++ body))) :
            holders (token :: tokens) offset = holders tokens offset := by
          rw [holders_cons, if_neg, Nat.add_zero]
          rw [decide_eq_true_eq, List.append_assoc]
          omega
        have hplace : before ++ front = before ++ gap ++ body ++ last := by
          rw [hfront, hmiddle]
          simp
        rw [hplace, hlater _ (by simp), hfront, hmiddle, ← List.append_assoc gap]
        rcases ih hsplit with hone | ⟨hzero, hfree⟩
        . exact .inl hone
        . rw [List.append_assoc before] at hfree
          exact .inr ⟨hzero, hfree.behind hlater⟩

end Tiles

end Offside
