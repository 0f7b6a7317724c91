import Mathlib.Data.List.Forall2
import Offside.Proofs.Inversion
import Offside.Proofs.Outline

/-!
This module contains displacements. Two lines that hold the same text behind margins of the same
level are read alike where the same levels are open: they give the same tokens or the same error,
but for the places, which are apart by amounts that depend on the line alone.
-/

namespace Offside

/--
How far the places of one source are from those of another. The numbers of columns and bytes are
those for a given line of the first source.
-/
structure Displacement where
  lines : Int
  columns : Nat → Int
  bytes : Nat → Int

structure Position.Displaced (d : Displacement) (lhs rhs : Position) : Prop where
  line_eq : (rhs.line.toNat : Int) = lhs.line.toNat + d.lines
  column_eq : (rhs.column.toNat : Int) = lhs.column.toNat + d.columns lhs.line.toNat
  offset_eq : (rhs.offset.toNat : Int) = lhs.offset.toNat + d.bytes lhs.line.toNat

structure Token.Displaced (d : Displacement) (lhs rhs : Token) : Prop where
  kind_eq : rhs.kind = lhs.kind
  start : lhs.span.start.Displaced d rhs.span.start
  stop : lhs.span.stop.Displaced d rhs.span.stop
  fileId_eq : rhs.span.fileId = lhs.span.fileId

structure LexicalError.Displaced (d : Displacement) (lhs rhs : LexicalError) : Prop where
  kind_eq : rhs.kind = lhs.kind
  line_eq : (rhs.line.toNat : Int) = lhs.line.toNat + d.lines
  column_eq : (rhs.column.toNat : Int) = lhs.column.toNat + d.columns lhs.line.toNat
  message_eq : rhs.message = lhs.message

/--
Whether two computations both come to results that are related, or both reject the source for errors
that are equal but for their places.
-/
inductive Parallel (d : Displacement) {α : Type} (R : α → α → Prop) :
    Except Abort α → Except Abort α → Prop where
  | ok {lhs rhs : α} : R lhs rhs → Parallel d R (.ok lhs) (.ok rhs)
  | rejected {lhs rhs : LexicalError} :
    lhs.Displaced d rhs →
    Parallel d R (.error (.rejected lhs)) (.error (.rejected rhs))

variable {d : Displacement}

theorem Parallel.bind {α β : Type} {R : α → α → Prop} {S : β → β → Prop} {x y : Except Abort α}
    {f g : α → Except Abort β} (h : Parallel d R x y)
    (hnext : ∀ lhs rhs, x = .ok lhs → y = .ok rhs → R lhs rhs → Parallel d S (f lhs) (g rhs)) :
    Parallel d S (x >>= f) (y >>= g) := by
  cases h with
  | ok hresult => exact hnext _ _ rfl rfl hresult
  | rejected herror => exact .rejected herror

theorem Token.displaced_point {kind : TokenKind} {fileId : UInt32} {lhs rhs : Position}
    (h : lhs.Displaced d rhs) :
    Token.Displaced d ⟨kind, .point lhs fileId⟩ ⟨kind, .point rhs fileId⟩ :=
  ⟨rfl, h, h, rfl⟩

theorem Token.displaced_replicate {kind : TokenKind} {fileId : UInt32} {lhs rhs : Position}
    (h : lhs.Displaced d rhs) (n : Nat) :
    List.Forall₂ (Token.Displaced d) (List.replicate n ⟨kind, .point lhs fileId⟩)
      (List.replicate n ⟨kind, .point rhs fileId⟩) := by
  induction n with
  | zero => exact .nil
  | succ n ih => exact .cons (displaced_point h) ih

section Places

variable {lhs rhs : Position} {chars size : Nat}

theorem Position.displaced_advance {chars' size' : Nat}
    (hline : (rhs.line.toNat : Int) = lhs.line.toNat + d.lines)
    (hcolumn : (rhs.column.toNat + chars' : Int) =
      lhs.column.toNat + chars + d.columns lhs.line.toNat)
    (hoffset : (rhs.offset.toNat + size' : Int) = lhs.offset.toNat + size + d.bytes lhs.line.toNat)
    (hlhs : lhs.HasRoom chars size) (hrhs : rhs.HasRoom chars' size') :
    ∃ place place', lhs.advance chars size = .ok place ∧ rhs.advance chars' size' = .ok place' ∧
      place.Displaced d place' := by
  rcases advance_of_hasRoom hlhs with ⟨place, hadvance, hline₁, hcolumn₁, hoffset₁⟩
  rcases advance_of_hasRoom hrhs with ⟨place', hadvance', hline₂, hcolumn₂, hoffset₂⟩
  refine ⟨place, place', hadvance, hadvance', ?_, ?_, ?_⟩
  . rw [hline₁, hline₂]
    exact hline
  . rw [hline₁]
    omega
  . rw [hline₁]
    omega

theorem Position.Displaced.advance (h : lhs.Displaced d rhs) (hlhs : lhs.HasRoom chars size)
    (hrhs : rhs.HasRoom chars size) :
    ∃ place place', lhs.advance chars size = .ok place ∧ rhs.advance chars size = .ok place' ∧
      place.Displaced d place' := by
  have hcolumn := h.column_eq
  have hoffset := h.offset_eq
  apply displaced_advance h.line_eq _ _ hlhs hrhs
  . omega
  . omega

theorem parallel_advance (h : lhs.Displaced d rhs) (hlhs : lhs.HasRoom chars size)
    (hrhs : rhs.HasRoom chars size) :
    Parallel d (Position.Displaced d) ((lhs.advance chars size).mapError .overflow)
      ((rhs.advance chars size).mapError .overflow) := by
  rcases h.advance hlhs hrhs with ⟨place, place', hplace, hplace', hdisplaced⟩
  rw [hplace, hplace']
  exact .ok hdisplaced

theorem parallel_reject {α : Type} {R : α → α → Prop} (kind : LexicalErrorKind) (message : String)
    (h : lhs.Displaced d rhs) (hlhs : lhs.HasRoom chars size)
    (hrhs : rhs.HasRoom chars size) :
    Parallel d R (.error (.reject kind lhs chars size message))
      (.error (.reject kind rhs chars size message)) := by
  rcases h.advance hlhs hrhs with ⟨place, place', hplace, hplace', hdisplaced⟩
  unfold Abort.reject
  rw [hplace, hplace']
  exact .rejected ⟨rfl, hdisplaced.line_eq, hdisplaced.column_eq, rfl⟩

theorem Indentation.parallel_fault {width length : Nat} (cause : IndentFault)
    (h : lhs.Displaced d rhs) (hlhs : lhs.HasRoom (width + length) (width + length))
    (hrhs : rhs.HasRoom (width + length) (width + length)) :
    Parallel d (· = ·) (.error (ofText.fault lhs cause width) : Except Abort Indentation)
      (.error (ofText.fault rhs cause width)) :=
  parallel_reject .invalidIndentation cause.message h (hlhs.mono (by omega) (by omega))
    (hrhs.mono (by omega) (by omega))

theorem Indentation.parallel_go {seen : Option IndentUnit} {level : UInt32} {width : Nat}
    {text : List Char} (h : lhs.Displaced d rhs)
    (hlevel : level.toNat + text.length < 2 ^ 32)
    (hlhs : lhs.HasRoom (width + text.length) (width + text.length))
    (hrhs : rhs.HasRoom (width + text.length) (width + text.length)) :
    Parallel d (· = ·) (ofText.go lhs seen level width text)
      (ofText.go rhs seen level width text) := by
  fun_induction ofText.go lhs seen level width text with
  | case1 level width rest =>
    rw [ofText.go]
    exact parallel_fault .mixedUnits h hlhs hrhs
  | case4 level width rest =>
    rw [ofText.go]
    exact parallel_fault .mixedUnits h hlhs hrhs
  | case7 seen level width rest =>
    rw [ofText.go]
    exact parallel_fault .mixedUnits h hlhs hrhs
  | case8 seen level width rest hspace htab =>
    rw [ofText.go]
    . exact parallel_fault .unpairedSpace h hlhs hrhs
    . exact hspace
    . exact htab
  | case2 seen level width rest hseen cause hadd =>
    -- The level is at most the number of characters, which fits.
    rw [List.length_cons] at hlevel
    rcases add32_one level (by omega) with ⟨total, htotal⟩
    rw [htotal] at hadd
    contradiction
  | case5 seen level width rest hseen cause hadd =>
    rw [List.length_cons, List.length_cons] at hlevel
    rcases add32_one level (by omega) with ⟨total, htotal⟩
    rw [htotal] at hadd
    contradiction
  | case3 seen level width rest hseen total hadd ih =>
    rw [ofText.go, if_neg hseen, hadd]
    rw [Word.add32_eq_ok_iff] at hadd
    rw [List.length_cons] at hlevel hlhs hrhs
    apply ih
    . rw [hadd]
      simp
      omega
    . exact hlhs.mono (by omega) (by omega)
    . exact hrhs.mono (by omega) (by omega)
  | case6 seen level width rest hseen total hadd ih =>
    rw [ofText.go, if_neg hseen, hadd]
    rw [Word.add32_eq_ok_iff] at hadd
    rw [List.length_cons, List.length_cons] at hlevel hlhs hrhs
    apply ih
    . rw [hadd]
      simp
      omega
    . exact hlhs.mono (by omega) (by omega)
    . exact hrhs.mono (by omega) (by omega)
  | case9 seen level width rest htab hspaces hspaceTab hspace =>
    rw [ofText.go]
    . exact .ok rfl
    all_goals assumption

theorem parallel_enter (levels : Levels) (strict : Bool) (level : UInt32)
    (h : lhs.Displaced d rhs) :
    Parallel d (· = ·)
      ((levels.enter strict level).mapError fun fault =>
        .rejected (.ofPosition fault.kind lhs fault.message))
      ((levels.enter strict level).mapError fun fault =>
        .rejected (.ofPosition fault.kind rhs fault.message)) := by
  cases levels.enter strict level with
  | error fault => exact .rejected ⟨rfl, h.line_eq, h.column_eq, rfl⟩
  | ok entered => exact .ok rfl

theorem Scan.parallel_go {scan : Scan} {fileId : UInt32} {lexemes : List Lexeme}
    (h : lhs.Displaced d rhs)
    (hlhs : lhs.HasRoom (chars + (covered lexemes).length)
      (size + Text.byteSize (covered lexemes)))
    (hrhs : rhs.HasRoom (chars + (covered lexemes).length)
      (size + Text.byteSize (covered lexemes))) :
    Parallel d (List.Forall₂ (Token.Displaced d))
      (tokens.go scan lhs fileId chars size lexemes)
      (tokens.go scan rhs fileId chars size lexemes) := by
  induction lexemes generalizing chars size with
  | nil =>
    rw [tokens.go, tokens.go]
    split
    . exact .ok .nil
    next fault _ => exact parallel_reject .invalidToken fault.message h hlhs hrhs
  | cons lexeme lexemes ih =>
    rcases lexeme with ⟨kind, text⟩
    rw [covered_cons, List.length_append, Text.byteSize_append, ← Nat.add_assoc, ← Nat.add_assoc]
      at hlhs hrhs
    dsimp only at hlhs hrhs
    cases kind with
    | none =>
      rw [tokens.go, tokens.go]
      exact ih hlhs hrhs
    | some kind =>
      rw [tokens.go, tokens.go]
      apply Parallel.bind
      . exact parallel_advance h (hlhs.mono (by omega) (by omega))
          (hrhs.mono (by omega) (by omega))
      intro start start' _ _ hstart
      apply Parallel.bind
      . exact parallel_advance h (hlhs.mono (by omega) (by omega))
          (hrhs.mono (by omega) (by omega))
      intro stop stop' _ _ hstop
      apply (ih hlhs hrhs).bind
      intro rest rest' _ _ hrest
      exact .ok (.cons ⟨rfl, hstart, hstop, rfl⟩ hrest)

theorem Scan.parallel_tokens {text : List Char} {fileId : UInt32} (h : lhs.Displaced d rhs)
    (hlhs : lhs.HasRoom text.length (Text.byteSize text))
    (hrhs : rhs.HasRoom text.length (Text.byteSize text)) :
    Parallel d (List.Forall₂ (Token.Displaced d)) ((ofText text).tokens lhs fileId)
      ((ofText text).tokens rhs fileId) := by
  apply parallel_go h
  . rw [Nat.zero_add, Nat.zero_add]
    exact hasRoom_covered_ofText hlhs
  . rw [Nat.zero_add, Nat.zero_add]
    exact hasRoom_covered_ofText hrhs

end Places

namespace Text

/--
Whether two texts are equal but for margins of the same level. Margins without a level have to be
equal as well.
-/
structure Resembles (lhs rhs : List Char) : Prop where
  body_eq : body rhs = body lhs
  margin : margin rhs = margin lhs ∨
    (WellIndented lhs ∧ WellIndented rhs ∧ level rhs = level lhs)

def widening (lhs rhs : List Char) : Int :=
  (margin rhs).length - (margin lhs).length

variable {lhs rhs : List Char}

theorem resembles_refl (text : List Char) : Resembles text text :=
  ⟨rfl, .inl rfl⟩

@[simp]
theorem widening_self (text : List Char) : widening text text = 0 := by
  simp [widening]

theorem Resembles.length_eq (h : Resembles lhs rhs) :
    (rhs.length : Int) = lhs.length + widening lhs rhs := by
  have hlhs := congrArg List.length (margin_append_body lhs)
  have hrhs := congrArg List.length (margin_append_body rhs)
  rw [List.length_append] at hlhs hrhs
  rw [h.body_eq] at hrhs
  unfold widening
  omega

theorem Resembles.byteSize_eq (h : Resembles lhs rhs) :
    (byteSize rhs : Int) = byteSize lhs + widening lhs rhs := by
  have hlhs := congrArg byteSize (margin_append_body lhs)
  have hrhs := congrArg byteSize (margin_append_body rhs)
  rw [byteSize_append, byteSize_margin] at hlhs hrhs
  rw [h.body_eq] at hrhs
  unfold widening
  omega

end Text

section Texts

variable {start start' : Position} {text text' : List Char}

structure Displacement.Bridges (d : Displacement) (start start' : Position)
    (text text' : List Char) : Prop where
  resembles : Text.Resembles text text'
  line_eq : (start'.line.toNat : Int) = start.line.toNat + d.lines
  column_eq : (start'.column.toNat + Text.widening text text' : Int) =
    start.column.toNat + d.columns start.line.toNat
  offset_eq : (start'.offset.toNat + Text.widening text text' : Int) =
    start.offset.toNat + d.bytes start.line.toNat

theorem Indentation.parallel_ofText (h : d.Bridges start start' text text')
    (hroom : start.HasRoom text.length text.length)
    (hroom' : start'.HasRoom text'.length text'.length) :
    Parallel d (fun lhs rhs => rhs.level = lhs.level ∧ rhs.remainder = lhs.remainder)
      (ofText start text) (ofText start' text') := by
  rcases h.resembles.margin with hmargin | ⟨hindented, hindented', hlevel⟩
  . -- The texts are equal, so that their margins may break the rules.
    have htext : text' = text := by
      rw [← Text.margin_append_body text', hmargin, h.resembles.body_eq, Text.margin_append_body]
    subst htext
    have hcolumn := h.column_eq
    have hoffset := h.offset_eq
    rw [Text.widening_self, Int.add_zero] at hcolumn hoffset
    have hgo : Parallel d (· = ·) (ofText start text') (ofText start' text') := by
      have := hroom.column_lt
      apply parallel_go ⟨h.line_eq, hcolumn, hoffset⟩
      . simp
        omega
      . simpa using hroom
      . simpa using hroom'
    rw [← bind_pure (ofText start text'), ← bind_pure (ofText start' text')]
    apply hgo.bind
    rintro lhs _ - - rfl
    exact .ok ⟨rfl, rfl⟩
  . rcases ofText_of_wellIndented hroom hindented with ⟨total, htotal, hok⟩
    rcases ofText_of_wellIndented hroom' hindented' with ⟨total', htotal', hok'⟩
    rw [hok, hok']
    refine .ok ⟨?_, h.resembles.body_eq⟩
    rw [← UInt32.toNat_inj, htotal, htotal', hlevel]

end Texts

structure LayoutLine.Displaced (d : Displacement) (lhs rhs : LayoutLine) : Prop where
  origin : lhs.origin.Displaced d rhs.origin
  stop : lhs.stop.Displaced d rhs.stop
  move_eq : rhs.move = lhs.move
  levels_eq : rhs.levels = lhs.levels
  content : List.Forall₂ (Token.Displaced d) lhs.content rhs.content

namespace LayoutLine

theorem parallel_read {options : Options} {levels : Levels} {start start' stop stop' : Position}
    {text text' : List Char} (h : d.Bridges start start' text text')
    (hstop : stop.Displaced d stop')
    (hroom : start.HasRoom text.length (Text.byteSize text))
    (hroom' : start'.HasRoom text'.length (Text.byteSize text')) :
    Parallel d (Displaced d) (read options levels start stop text)
      (read options levels start' stop' text') := by
  have hchars := hroom.mono (Nat.le_refl _) (Text.length_le_byteSize text)
  have hchars' := hroom'.mono (Nat.le_refl _) (Text.length_le_byteSize text')
  have hmargin := Text.length_margin_le text
  have hmargin' := Text.length_margin_le text'
  unfold read
  apply (Indentation.parallel_ofText h hchars hchars').bind
  intro indentation indentation' hindentation hindentation' hsame
  rcases Indentation.of_ofText_eq_ok hchars hindentation with ⟨-, -, hwidth, hremainder⟩
  rcases Indentation.of_ofText_eq_ok hchars' hindentation' with ⟨-, -, hwidth', -⟩
  have hcolumn := h.column_eq
  have hoffset := h.offset_eq
  unfold Text.widening at hcolumn hoffset
  rcases Position.displaced_advance (d := d) h.line_eq (by omega) (by omega)
      (hchars.mono hmargin hmargin) (hchars'.mono hmargin' hmargin') with
    ⟨origin, origin', horigin, horigin', hdisplaced⟩
  have hbody := hasRoom_body hroom horigin
  have hbody' := hasRoom_body hroom' horigin'
  rw [h.resembles.body_eq] at hbody'
  rw [hsame.1, hsame.2, hwidth, hwidth', hremainder, horigin, horigin']
  apply Parallel.bind (R := Position.Displaced d) (.ok hdisplaced)
  rintro _ _ ⟨⟩ ⟨⟩ -
  apply Parallel.bind (parallel_enter levels _ _ hdisplaced)
  rintro ⟨move, after⟩ _ - - rfl
  apply Parallel.bind (Scan.parallel_tokens hdisplaced hbody hbody')
  intro content content' _ _ hcontent
  exact .ok ⟨hdisplaced, hstop, rfl, rfl, hcontent⟩

theorem Displaced.tokens {lhs rhs : LayoutLine} (h : lhs.Displaced d rhs) (fileId : UInt32) :
    List.Forall₂ (Token.Displaced d) (lhs.tokens fileId) (rhs.tokens fileId) := by
  have hopening : List.Forall₂ (Token.Displaced d) (lhs.opening fileId) (rhs.opening fileId) := by
    unfold opening
    dsimp only
    rw [h.move_eq]
    split
    . exact .nil
    . exact .cons (Token.displaced_point h.origin) .nil
    . exact Token.displaced_replicate h.origin _
  have hempty : rhs.content.isEmpty = lhs.content.isEmpty := by
    rw [Bool.eq_iff_iff, List.isEmpty_iff_length_eq_zero, List.isEmpty_iff_length_eq_zero,
      h.content.length_eq]
  unfold LayoutLine.tokens
  rw [hempty]
  split
  . exact hopening
  . apply List.rel_append
    . exact List.rel_append hopening h.content
    . exact .cons (Token.displaced_point h.stop) .nil

end LayoutLine

end Offside
