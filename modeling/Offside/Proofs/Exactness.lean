import Offside.Proofs.FileTable
import Offside.Proofs.Schedule
import Offside.Proofs.Unbounded

/-!
This module contains the exactness of the arithmetic in words. In a source that is not too long all
numbers fit their words, so that reading it over words and over unbounded numbers comes to the same.
-/

namespace Offside

namespace Unbounded

def Place.ofPosition (pos : Position) : Place :=
  ⟨pos.line.toNat, pos.column.toNat, pos.offset.toNat⟩

def Error.ofError (error : LexicalError) : Error :=
  ⟨error.kind, error.line.toNat, error.column.toNat, error.message⟩

def Indentation.ofIndentation (indentation : Offside.Indentation) : Indentation :=
  ⟨indentation.level.toNat, indentation.width, indentation.remainder⟩

def Token.ofToken (token : Offside.Token) : Token :=
  ⟨token.kind, .ofPosition token.span.start, .ofPosition token.span.stop, token.span.fileId⟩

def aboveOf (levels : Levels) : List Nat :=
  levels.above.map UInt32.toNat

def LayoutLine.ofLayoutLine (line : Offside.LayoutLine) : LayoutLine :=
  ⟨.ofPosition line.origin, .ofPosition line.stop, line.move, aboveOf line.levels,
    line.content.map .ofToken⟩

def Cursor.ofCursor (cursor : Offside.Cursor) : Cursor :=
  ⟨cursor.lines, cursor.offset.toNat, .ofPosition cursor.stop, aboveOf cursor.levels⟩

/--
Whether a computation over words comes to the same as an account over unbounded numbers, all of
which fit their words. The results over words are seen through `view`.
-/
inductive Account.Exact {α β : Type} (view : α → β) : Except Abort α → Account β → Prop where
  | ok {a : α} {quantities : List Quantity} :
    (∀ quantity ∈ quantities, quantity.Fits) →
    Exact view (.ok a) ⟨quantities, .ok (view a)⟩
  | rejected {error : LexicalError} {quantities : List Quantity} :
    (∀ quantity ∈ quantities, quantity.Fits) →
    Exact view (.error (.rejected error)) ⟨quantities, .error (.ofError error)⟩

namespace Account.Exact

variable {α β γ δ : Type} {view : α → β} {view' : γ → δ} {words : Except Abort α}
  {account : Account β}

theorem pure (view : α → β) (a : α) : Exact view (.ok a) (Pure.pure (view a)) := by
  apply Exact.ok
  simp

theorem bind {f : α → Except Abort γ} {g : β → Account δ} (h : Exact view words account)
    (hnext : ∀ a, words = .ok a → Exact view' (f a) (g (view a))) :
    Exact view' (words >>= f) (account >>= g) := by
  cases h with
  | rejected hfits => exact .rejected hfits
  | @ok a quantities hfits =>
    have h := hnext a rfl
    show Exact view' (f a) ⟨quantities ++ (g (view a)).quantities, (g (view a)).outcome⟩
    generalize f a = x, g (view a) = y at h
    cases h with
    | ok hfits' =>
      apply Exact.ok
      rw [List.forall_mem_append]
      exact ⟨hfits, hfits'⟩
    | rejected hfits' =>
      apply Exact.rejected
      rw [List.forall_mem_append]
      exact ⟨hfits, hfits'⟩

theorem keepInt {width : Nat} {value : Int} (hfits : Quantity.Fits ⟨width, value⟩)
    (h : Exact view words account) :
    Exact view words (Account.keepInt width value >>= fun _ => account) := by
  have hkept : Exact id (.ok ()) (Account.keepInt width value) := by
    apply Exact.ok
    simpa using hfits
  exact @Exact.bind _ _ _ _ id view _ _ (fun _ => words) _ hkept fun _ _ => h

theorem keep {width value : Nat} (hlt : value < 2 ^ width) (h : Exact view words account) :
    Exact view words (Account.keep width value >>= fun _ => account) :=
  keepInt (Quantity.fits_of_lt hlt) h

end Account.Exact

open Account

section Places

variable {pos : Position} {chars bytes : Nat}

theorem exact_advance (hroom : pos.HasRoom chars bytes) :
    Exact Place.ofPosition ((pos.advance chars bytes).mapError .overflow)
      ((Place.ofPosition pos).advance chars bytes) := by
  have hcolumn_lt := hroom.column_lt
  have hoffset_lt := hroom.offset_lt
  rcases Position.advance_of_hasRoom hroom with ⟨place, hadvance, hline, hcolumn, hoffset⟩
  have hplace : (⟨pos.line.toNat, pos.column.toNat + chars, pos.offset.toNat + bytes⟩ : Place) =
      Place.ofPosition place := by
    unfold Place.ofPosition
    rw [hline, hcolumn, hoffset]
  rw [hadvance]
  unfold Place.advance
  apply Exact.keep (by omega)
  apply Exact.keep hcolumn_lt
  apply Exact.keep (by omega)
  apply Exact.keep hoffset_lt
  show Exact Place.ofPosition (.ok place) (Pure.pure _)
  dsimp only [Place.ofPosition] at hplace ⊢
  rw [hplace]
  apply Exact.pure Place.ofPosition

theorem exact_reject {α β : Type} {view : α → β} (kind : LexicalErrorKind) (message : String)
    (hroom : pos.HasRoom chars bytes) :
    Exact view (.error (.reject kind pos chars bytes message))
      (reject kind (.ofPosition pos) chars bytes message) := by
  have hadvance := exact_advance hroom
  rcases Position.advance_of_hasRoom hroom with ⟨place, hplace, -⟩
  rw [hplace] at hadvance
  unfold Abort.reject reject
  rw [hplace]
  -- The account of the place is the whole account.
  generalize (Place.ofPosition pos).advance chars bytes = account at hadvance
  cases hadvance with
  | @ok _ quantities hfits =>
    show Exact view _ ⟨quantities ++ [], _⟩
    rw [List.append_nil]
    exact .rejected hfits

end Places

namespace Indentation

variable {start : Position} {seen : Option IndentUnit} {level : UInt32} {width : Nat}
  {text : List Char}

theorem exact_fault {length : Nat} (cause : IndentFault)
    (hroom : start.HasRoom (width + length) (width + length)) :
    Exact ofIndentation (.error (Offside.Indentation.ofText.fault start cause width))
      (ofText.fault (.ofPosition start) cause width) :=
  exact_reject .invalidIndentation cause.message (hroom.mono (by omega) (by omega))

theorem exact_go (hlevel : level.toNat + text.length < 2 ^ 32)
    (hroom : start.HasRoom (width + text.length) (width + text.length)) :
    Exact ofIndentation (Offside.Indentation.ofText.go start seen level width text)
      (ofText.go (.ofPosition start) seen level.toNat width text) := by
  fun_induction Offside.Indentation.ofText.go start seen level width text with
  | case1 level width rest =>
    rw [ofText.go]
    exact exact_fault .mixedUnits hroom
  | case4 level width rest =>
    rw [ofText.go]
    exact exact_fault .mixedUnits hroom
  | case7 seen level width rest =>
    rw [ofText.go]
    exact exact_fault .mixedUnits hroom
  | case8 seen level width rest hspace htab =>
    rw [ofText.go]
    . exact exact_fault .unpairedSpace hroom
    . exact hspace
    . exact htab
  | case2 seen level width rest hseen cause hadd =>
    -- The level is at most the number of characters, which fits.
    rw [List.length_cons] at hlevel
    rcases Offside.Indentation.add32_one level (by omega) with ⟨total, htotal⟩
    rw [htotal] at hadd
    contradiction
  | case5 seen level width rest hseen cause hadd =>
    rw [List.length_cons, List.length_cons] at hlevel
    rcases Offside.Indentation.add32_one level (by omega) with ⟨total, htotal⟩
    rw [htotal] at hadd
    contradiction
  | case3 seen level width rest hseen total hadd ih =>
    rw [Word.add32_eq_ok_iff, UInt32.toNat_one] at hadd
    rw [List.length_cons] at hlevel hroom
    rw [ofText.go, if_neg hseen, ← hadd]
    apply Exact.keep (by omega)
    apply ih
    . omega
    . exact hroom.mono (by omega) (by omega)
  | case6 seen level width rest hseen total hadd ih =>
    rw [Word.add32_eq_ok_iff, UInt32.toNat_one] at hadd
    rw [List.length_cons, List.length_cons] at hlevel hroom
    rw [ofText.go, if_neg hseen, ← hadd]
    apply Exact.keep (by omega)
    apply ih
    . omega
    . exact hroom.mono (by omega) (by omega)
  | case9 seen level width rest htab hspaces hspaceTab hspace =>
    rw [ofText.go]
    . apply Exact.pure ofIndentation
    all_goals assumption

theorem exact_ofText (hroom : start.HasRoom text.length text.length) :
    Exact ofIndentation (Offside.Indentation.ofText start text)
      (ofText (.ofPosition start) text) := by
  have := hroom.column_lt
  apply exact_go
  . simp
    omega
  . simpa using hroom

end Indentation

section Levels

variable {levels : Levels} {level : UInt32}

theorem headD_aboveOf (levels : Levels) : (aboveOf levels).headD 0 = levels.top.toNat := by
  rcases levels with ⟨above, nested⟩
  cases above <;> rfl

theorem aboveOf_closeAbove (levels : Levels) (level : UInt32) :
    aboveOf (levels.closeAbove level) = (aboveOf levels).dropWhile (level.toNat < ·) := by
  unfold aboveOf Levels.closeAbove
  rw [List.dropWhile_map]
  congr 1

theorem length_above_le_top (levels : Levels) : levels.above.length ≤ levels.top.toNat := by
  rcases levels with ⟨above, nested⟩
  induction above with
  | nil => simp
  | cons first above ih =>
    rw [List.cons_append, List.pairwise_cons] at nested
    have htop : Levels.top ⟨above, nested.2⟩ < first := by
      apply nested.1
      cases above <;> simp [Levels.top]
    have hlength := ih nested.2
    rw [UInt32.lt_iff_toNat_lt] at htop
    dsimp only at hlength
    rw [List.length_cons]
    show above.length + 1 ≤ first.toNat
    omega

theorem message_stepTooLarge (top level : UInt32) :
    (LevelFault.stepTooLarge top level).message = stepMessage top.toNat level.toNat := rfl

theorem message_notOpen (level : UInt32) (levels : Levels) :
    (LevelFault.notOpen level levels.toList).message =
      dedentMessage level.toNat (0 :: (aboveOf levels).reverse) := by
  unfold LevelFault.message dedentMessage aboveOf Levels.toList
  simp [Function.comp_def]

def entryOf (entered : Move × Levels) : Move × List Nat :=
  (entered.1, aboveOf entered.2)

theorem exact_enter (levels : Levels) (strict : Bool) (level : UInt32) (origin : Position) :
    Exact entryOf
      ((levels.enter strict level).mapError fun fault =>
        .rejected (.ofPosition fault.kind origin fault.message))
      (enter (aboveOf levels) strict level.toNat (.ofPosition origin)) := by
  have hbound := level.toNat_lt
  unfold Levels.enter enter
  dsimp only
  rw [headD_aboveOf]
  by_cases htop : level = levels.top
  . rw [if_pos htop, if_pos (congrArg UInt32.toNat htop)]
    exact Exact.pure entryOf (.stay, levels)
  rw [if_neg htop, if_neg (mt UInt32.toNat_inj.1 htop)]
  by_cases hlt : levels.top < level
  . have hlt' := UInt32.lt_iff_toNat_lt.1 hlt
    have hstep : (strict ∧ 1 < level - levels.top) ↔
        (strict ∧ 1 < (level.toNat - levels.top.toNat : Int)) := by
      apply and_congr_right'
      rw [Levels.one_lt_sub_iff hlt]
      omega
    rw [dif_pos hlt, if_pos hlt']
    apply Exact.keepInt
    . constructor
      . exact Int.sub_nonneg_of_le (Int.ofNat_le.2 (Nat.le_of_lt hlt'))
      . dsimp only
        omega
    by_cases hallowed : strict ∧ 1 < level - levels.top
    . rw [if_pos hallowed, if_pos (hstep.1 hallowed), ← message_stepTooLarge]
      apply Exact.rejected
      simp
    . rw [if_neg hallowed, if_neg (mt hstep.2 hallowed)]
      exact Exact.pure entryOf (.indent, levels.push level hlt)
  rw [dif_neg hlt, if_neg (mt UInt32.lt_iff_toNat_lt.2 hlt), ← aboveOf_closeAbove, headD_aboveOf]
  by_cases hclosed : (levels.closeAbove level).top = level
  . have hlength := length_above_le_top levels
    have htop_lt := levels.top.toNat_lt
    have hle : (levels.closeAbove level).above.length ≤ levels.above.length :=
      (List.dropWhile_suffix _).length_le
    have hdepth : (aboveOf levels).length - (aboveOf (levels.closeAbove level)).length =
        levels.depth - (levels.closeAbove level).depth := by
      unfold aboveOf Levels.depth
      rw [List.length_map, List.length_map]
      omega
    rw [if_pos hclosed, if_pos (congrArg UInt32.toNat hclosed), hdepth]
    apply Exact.keepInt
    . unfold aboveOf
      rw [List.length_map, List.length_map]
      constructor
      . dsimp only
        omega
      . dsimp only
        omega
    . exact Exact.pure entryOf (.dedent _, levels.closeAbove level)
  . rw [if_neg hclosed, if_neg (mt UInt32.toNat_inj.1 hclosed), ← message_notOpen]
    apply Exact.rejected
    simp

end Levels

theorem exact_tokens_go {scan : Scan} {origin : Position} (fileId : UInt32)
    (lexemes : List Lexeme) (chars bytes : Nat)
    (hroom : origin.HasRoom (chars + (Scan.covered lexemes).length)
      (bytes + Text.byteSize (Scan.covered lexemes))) :
    Exact (List.map Token.ofToken) (Scan.tokens.go scan origin fileId chars bytes lexemes)
      (tokens.go scan (.ofPosition origin) fileId chars bytes lexemes) := by
  induction lexemes generalizing chars bytes with
  | nil =>
    rw [Scan.tokens.go, tokens.go]
    cases scan.fault with
    | none => exact Exact.pure (List.map Token.ofToken) []
    | some fault => exact exact_reject .invalidToken fault.message hroom
  | cons lexeme lexemes ih =>
    rcases lexeme with ⟨kind, text⟩
    rw [Scan.covered_cons, List.length_append, Text.byteSize_append, ← Nat.add_assoc,
      ← Nat.add_assoc] at hroom
    dsimp only at hroom
    rw [Scan.tokens.go.eq_def, tokens.go.eq_def]
    cases kind with
    | none => exact ih _ _ hroom
    | some kind =>
      dsimp only
      apply (exact_advance (hroom.mono (by omega) (by omega))).bind
      intro start _
      apply (exact_advance (hroom.mono (by omega) (by omega))).bind
      intro stop _
      apply (ih _ _ hroom).bind
      intro rest _
      exact Exact.pure (List.map Token.ofToken) (⟨kind, ⟨start, stop, fileId⟩⟩ :: rest)

theorem exact_tokens {origin : Position} {text : List Char} (fileId : UInt32)
    (hroom : origin.HasRoom text.length (Text.byteSize text)) :
    Exact (List.map Token.ofToken) ((Scan.ofText text).tokens origin fileId)
      (tokens (Scan.ofText text) (.ofPosition origin) fileId) := by
  apply exact_tokens_go
  rw [Nat.zero_add, Nat.zero_add]
  exact Scan.hasRoom_covered_ofText hroom

namespace LayoutLine

theorem exact_read {start : Position} {text : List Char} (options : Options) (levels : Levels)
    (stop : Position) (hroom : start.HasRoom text.length (Text.byteSize text)) :
    Exact ofLayoutLine (Offside.LayoutLine.read options levels start stop text)
      (read options (aboveOf levels) (.ofPosition start) (.ofPosition stop) text) := by
  have hchars := hroom.mono (Nat.le_refl _) (Text.length_le_byteSize text)
  have hmargin := Text.length_margin_le text
  unfold Offside.LayoutLine.read read
  apply (Indentation.exact_ofText hchars).bind
  intro indentation hindentation
  rcases Offside.Indentation.of_ofText_eq_ok hchars hindentation with ⟨-, -, hwidth, hremainder⟩
  have hindent : start.HasRoom indentation.width indentation.width := by
    rw [hwidth]
    exact hchars.mono hmargin hmargin
  apply (exact_advance hindent).bind
  intro origin horigin
  rw [mapError_eq_ok_iff, hwidth] at horigin
  apply (exact_enter levels options.singleStep indentation.level origin).bind
  rintro ⟨move, after⟩ _
  have hbody : origin.HasRoom indentation.remainder.length
      (Text.byteSize indentation.remainder) := by
    rw [hremainder]
    exact Offside.LayoutLine.hasRoom_body hroom horigin
  apply (exact_tokens options.fileId hbody).bind
  intro content _
  exact Exact.pure ofLayoutLine ⟨origin, stop, move, after, content⟩

theorem ofToken_opening (line : Offside.LayoutLine) (fileId : UInt32) :
    (line.opening fileId).map Token.ofToken = (ofLayoutLine line).opening fileId := by
  unfold Offside.LayoutLine.opening opening
  have hmove : (ofLayoutLine line).move = line.move := rfl
  rw [hmove]
  cases line.move with
  | stay => rfl
  | indent => rfl
  | dedent closed => exact List.map_replicate

theorem ofToken_tokens (line : Offside.LayoutLine) (fileId : UInt32) :
    (line.tokens fileId).map Token.ofToken = (ofLayoutLine line).tokens fileId := by
  unfold Offside.LayoutLine.tokens tokens
  have hempty : (ofLayoutLine line).content.isEmpty = line.content.isEmpty := List.isEmpty_map
  rw [hempty, ← ofToken_opening]
  split
  . rfl
  . rw [List.map_append, List.map_append]
    rfl

end LayoutLine

namespace Cursor

variable {options : Options} {front : List Line} {line : Line} {cursor : Offside.Cursor}

theorem exact_pass (hpast : cursor.Past front) (hrange : Line.InRange (front ++ [line])) :
    Exact ofCursor ((cursor.pass line).mapError .overflow) ((ofCursor cursor).pass line) := by
  have hlength := hrange.length_le
  have hbytes := hrange.bytes_le
  rw [List.length_append, List.length_singleton] at hlength
  rw [Line.bytes_append, Line.bytes_cons, Line.bytes_nil] at hbytes
  rcases Offside.Cursor.pass_of_inRange hpast hrange with
    ⟨next, hpass, hnext, hlevels, hnumber, hroom⟩
  have hlines := hpast.lines_eq
  have hoffset := hpast.offset_eq
  have hplace : Place.ofPosition ⟨next.stop.line, 1, cursor.offset⟩ =
      ⟨cursor.lines + 1, 1, cursor.offset.toNat⟩ := by
    unfold Place.ofPosition
    rw [hnumber, hlines]
    rfl
  have hcursor : ofCursor next =
      ⟨cursor.lines + 1, cursor.offset.toNat + Text.byteSize line.chars,
        .ofPosition next.stop, aboveOf cursor.levels⟩ := by
    unfold ofCursor
    rw [hnext.lines_eq, hnext.offset_eq, hlevels, hlines, hoffset]
    simp
  have hadvance := exact_advance hroom
  rw [Offside.Cursor.advance_of_pass_eq_ok hpass, hplace] at hadvance
  rw [hpass]
  unfold pass
  apply Exact.keep
  . show cursor.lines < 2 ^ 32
    omega
  apply Exact.keep
  . show cursor.lines + 1 < 2 ^ 32
    omega
  apply Exact.keep (by omega)
  apply Exact.keep
  . show cursor.offset.toNat + Text.byteSize line.chars < 2 ^ 64
    omega
  -- Only the end of the line's text is left to be found.
  have hfound : Exact ofCursor (.ok next) _ := @Exact.bind _ _ _ _ _ ofCursor _ _
    (fun _ => .ok next) (fun stop => Pure.pure ⟨cursor.lines + 1, _, stop, _⟩) hadvance (by
      rintro _ ⟨⟩
      rw [← hcursor]
      exact Exact.pure ofCursor next)
  exact hfound

theorem exact_step (hpast : cursor.Past front) (hrange : Line.InRange (front ++ [line])) :
    Exact (Prod.map (Option.map LayoutLine.ofLayoutLine) ofCursor) (cursor.step options line)
      ((ofCursor cursor).step options line) := by
  unfold Offside.Cursor.step step
  apply (exact_pass hpast hrange).bind
  intro next hnext
  rw [mapError_eq_ok_iff] at hnext
  split
  . exact Exact.pure (Prod.map _ ofCursor) (none, next)
  . rcases Offside.Cursor.pass_of_inRange hpast hrange with ⟨passed, hpass, -, -, -, hroom⟩
    rw [hnext, Except.ok.injEq] at hpass
    rw [← hpass] at hroom
    apply (LayoutLine.exact_read options cursor.levels next.stop hroom).bind
    intro layoutLine _
    exact Exact.pure (Prod.map _ ofCursor)
      (some layoutLine, { next with levels := layoutLine.levels })

theorem ofToken_closing (cursor : Offside.Cursor) (options : Options) :
    (cursor.closing options).map Token.ofToken = (ofCursor cursor).closing options := by
  have hlength : (ofCursor cursor).above.length = cursor.levels.above.length :=
    List.length_map UInt32.toNat
  unfold Offside.Cursor.closing closing
  rw [hlength]
  dsimp only
  split
  . rw [List.map_append, List.map_replicate]
    rfl
  . rw [List.map_replicate]
    rfl

end Cursor

structure Run.Exact (words : Offside.Run) (run : Run) : Prop where
  fits : ∀ quantity ∈ run.quantities, quantity.Fits
  lines_eq : run.lines = words.lines.map LayoutLine.ofLayoutLine
  cursor_eq : run.cursor = Cursor.ofCursor words.cursor
  failure_eq : ∃ failure : Option LexicalError,
    words.abort = failure.map .rejected ∧ run.failure = failure.map .ofError

namespace Run

variable {options : Options} {front : List Line} {cursor : Offside.Cursor}

theorem exact_ofLines (hreached : cursor.Reached options front) (lines : List Line)
    (hrange : Line.InRange (front ++ lines)) :
    Exact (Offside.Run.ofLines options cursor lines)
      (ofLines options (.ofCursor cursor) lines) := by
  induction lines generalizing front cursor with
  | nil =>
    constructor
    . intro quantity hmem
      contradiction
    . rfl
    . rfl
    . exact ⟨none, rfl, rfl⟩
  | cons line lines ih =>
    rw [List.append_cons] at hrange
    have hpast := hreached.past hrange.of_append.of_append
    have hstep := @Cursor.exact_step options _ _ _ hpast hrange.of_append
    cases hwords : cursor.step options line with
    | error abort =>
      rw [hwords] at hstep
      rw [Offside.Run.ofLines_cons_of_error hwords, ofLines]
      dsimp only
      generalize (Cursor.ofCursor cursor).step options line = account at hstep ⊢
      cases hstep with
      | @rejected error quantities hfits => exact ⟨hfits, rfl, rfl, some error, rfl, rfl⟩
    | ok entered =>
      rcases entered with ⟨entry, next⟩
      rw [hwords] at hstep
      have hrun := ih (hreached.step hwords) hrange
      rw [Offside.Run.ofLines_cons_of_ok hwords, ofLines]
      dsimp only
      generalize (Cursor.ofCursor cursor).step options line = account at hstep ⊢
      cases hstep with
      | @ok _ quantities hfits =>
        dsimp only [Prod.map]
        constructor
        . rw [List.forall_mem_append]
          exact ⟨hfits, hrun.fits⟩
        . rw [hrun.lines_eq, List.map_append]
          cases entry <;> rfl
        . exact hrun.cursor_eq
        . exact hrun.failure_eq

theorem exact_ofSource {source : String} (options : Options)
    (hsize : source.utf8ByteSize ≤ 2 ^ 32 - 2) :
    Exact (Offside.Run.ofSource source options) (ofSource source options) :=
  exact_ofLines .start _ (Line.inRange_ofSource hsize)

theorem Exact.tokens_eq {words : Offside.Run} {run : Run} (h : Exact words run)
    (options : Options) : (words.tokens options).map Token.ofToken = run.tokens options := by
  have hlines : (words.lines.flatMap (·.tokens options.fileId)).map Token.ofToken =
      run.lines.flatMap (·.tokens options.fileId) := by
    rw [h.lines_eq, List.flatMap_map, List.map_flatMap]
    simp only [LayoutLine.ofToken_tokens]
  rcases h.failure_eq with ⟨failure, habort, hfailure⟩
  unfold Offside.Run.tokens tokens
  rw [habort, hfailure]
  cases failure with
  | none =>
    dsimp only [Option.map]
    rw [List.map_append, hlines, Cursor.ofToken_closing, h.cursor_eq]
  | some error => exact hlines

end Run

def placesOf (diagnostic : Diagnostic) : List (Place × Place) :=
  diagnostic.labels.map fun label =>
    (.ofPosition label.span.start, .ofPosition label.span.stop)

theorem exact_diagnostic {error : LexicalError} (h : error.column.toNat + 1 < 2 ^ 32)
    (fileId : UInt32) :
    Exact placesOf ((error.diagnostic fileId).mapError .overflow) (Error.ofError error).places := by
  rcases LexicalError.diagnostic_of_lt h fileId with ⟨column, hcolumn, hdiagnostic⟩
  have hplaces : placesOf (error.explanation column fileId) =
      [(⟨error.line.toNat, error.column.toNat, 0⟩,
        ⟨error.line.toNat, error.column.toNat + 1, 0⟩)] := by
    rw [← hcolumn]
    rfl
  rw [hdiagnostic]
  unfold Error.places
  apply Exact.keep h
  dsimp only [Error.ofError]
  rw [← hplaces]
  exact Exact.pure placesOf (error.explanation column fileId)

end Unbounded

open Unbounded in
/--
Words hold all numbers that reading a source comes to. No addition overflows, no number is cut off
by its word and no difference is below zero: the reading over words comes to the same lines, tokens
and error as the one over unbounded numbers, and so does the diagnostic of the error. Neither calls
on a tokenizer nor the report of a file fail.
-/
theorem TokenStream.words_are_exact (source : String) (options : Options)
    (hsize : source.utf8ByteSize ≤ 2 ^ 32 - 2) :
    (Unbounded.Run.ofSource source options).Exact (Run.ofSource source options) ∧
      (∃ stream, ofSource source options = .ok stream ∧
        stream.tokens.map .ofToken = (Unbounded.Run.ofSource source options).tokens options ∧
        stream.failure.map .ofError = (Unbounded.Run.ofSource source options).failure ∧
        ∀ error, stream.failure = some error → ∀ fileId,
          Account.Exact placesOf ((error.diagnostic fileId).mapError .overflow)
            (Error.ofError error).places) ∧
      (∀ schedule, ∃ answers tokenizer,
        (Tokenizer.ofSource source options).calls schedule = .ok (answers, tokenizer)) ∧
      ∀ name, ∃ report, (⟨name, source⟩ : SourceFile).report = .ok report := by
  have hrun := Unbounded.Run.exact_ofSource options hsize
  rcases @Run.exists_ofSource_eq_ok options source hsize with ⟨stream, hstream, hitems, habort, -⟩
  rcases hrun.failure_eq with ⟨failure, habort', hfailure⟩
  have heq : stream.failure = failure := by
    rw [habort] at habort'
    exact Option.map_injective (fun _ _ => Abort.rejected.inj) habort'
  refine ⟨hrun, ⟨stream, hstream, ?_, ?_, ?_⟩, ?_, ?_⟩
  . rw [Run.tokens_of_ofSource_eq_ok hstream, hrun.tokens_eq]
  . rw [heq, hfailure]
  . intro error herror fileId
    exact exact_diagnostic (column_add_one_lt hsize hstream herror) fileId
  . intro schedule
    rcases Tokenizer.exists_calls_eq_ok hsize hitems schedule with ⟨tokenizer, hcalls, -⟩
    exact ⟨_, tokenizer, hcalls⟩
  . intro name
    exact SourceFile.exists_report_eq_ok ⟨name, source⟩ hsize

open Unbounded in
theorem TokenStream.words_are_exact_large_step :
    "\"é\"\n\t\tb\n".utf8ByteSize ≤ 2 ^ 32 - 2 ∧
    (Unbounded.Run.ofSource "\"é\"\n\t\tb\n" { singleStep := true }).Exact
      (Run.ofSource "\"é\"\n\t\tb\n" { singleStep := true }) ∧
    (⟨32, 2 - 0⟩ : Quantity) ∈
      (Unbounded.Run.ofSource "\"é\"\n\t\tb\n" { singleStep := true }).quantities ∧
    ∃ stream error, ofSource "\"é\"\n\t\tb\n" { singleStep := true } = .ok stream ∧
      stream.failure = some error ∧
      Error.ofError error = ⟨.invalidIndentation, 2, 3, stepMessage 0 2⟩ ∧
      Account.Exact placesOf ((error.diagnostic 7).mapError .overflow)
        (Error.ofError error).places := by
  have hsize : "\"é\"\n\t\tb\n".utf8ByteSize ≤ 2 ^ 32 - 2 := by decide
  rcases words_are_exact "\"é\"\n\t\tb\n" { singleStep := true } hsize with
    ⟨hrun, ⟨stream, hstream, -, hfailure, hdiagnostic⟩, -, -⟩
  have herror : (Unbounded.Run.ofSource "\"é\"\n\t\tb\n" { singleStep := true }).failure =
      some ⟨.invalidIndentation, 2, 3, stepMessage 0 2⟩ := by
    decide +kernel
  rw [herror, Option.map_eq_some_iff] at hfailure
  rcases hfailure with ⟨error, hsome, heq⟩
  exact ⟨hsize, hrun, by decide +kernel, stream, error, hstream, hsome, heq,
    hdiagnostic error hsome 7⟩

end Offside
