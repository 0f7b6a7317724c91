import Offside.Proofs.Schedule
import Offside.Proofs.Spans

/-!
This module contains what the options leave alone. The number of the file is only written into the
spans of the tokens, and the mark at the end of a source only follows its other tokens: whatever
they are, a source has the same tokens, the same error and the same open levels.
-/

namespace Offside

def Options.plain (options : Options) : Options :=
  { singleStep := options.singleStep }

def Token.inFile (fileId : UInt32) (token : Token) : Token :=
  { token with span := { token.span with fileId } }

@[simp]
theorem Token.kind_inFile (fileId : UInt32) (token : Token) :
    (token.inFile fileId).kind = token.kind := rfl

theorem Scan.tokens_go_inFile {scan : Scan} {origin : Position} (fileId other : UInt32)
    (lexemes : List Lexeme) (chars bytes : Nat) :
    tokens.go scan origin fileId chars bytes lexemes =
      (tokens.go scan origin other chars bytes lexemes).map (List.map (Token.inFile fileId)) := by
  induction lexemes generalizing chars bytes with
  | nil =>
    rw [tokens.go, tokens.go]
    cases scan.fault <;> rfl
  | cons lexeme lexemes ih =>
    rcases lexeme with ⟨kind, text⟩
    cases kind with
    | none =>
      rw [tokens.go, tokens.go]
      apply ih
    | some kind =>
      rw [tokens.go, tokens.go]
      dsimp only
      rw [ih]
      cases origin.advance chars bytes with
      | error cause => rfl
      | ok start =>
        cases origin.advance (chars + text.length) (bytes + Text.byteSize text) with
        | error cause => rfl
        | ok stop =>
          cases tokens.go scan origin other (chars + text.length) (bytes + Text.byteSize text)
            lexemes <;> rfl

namespace LayoutLine

def inFile (fileId : UInt32) (line : LayoutLine) : LayoutLine :=
  { line with content := line.content.map (Token.inFile fileId) }

theorem read_inFile (options : Options) (levels : Levels) (start stop : Position)
    (text : List Char) :
    read options levels start stop text =
      (read options.plain levels start stop text).map (inFile options.fileId) := by
  unfold read
  cases Indentation.ofText start text with
  | error abort => rfl
  | ok indentation =>
    dsimp only [bind, Except.bind]
    cases start.advance indentation.width indentation.width with
    | error cause => rfl
    | ok origin =>
      dsimp only [Except.mapError, Options.plain]
      cases levels.enter options.singleStep indentation.level with
      | error fault => rfl
      | ok entered =>
        dsimp only
        unfold Scan.tokens
        rw [Scan.tokens_go_inFile options.fileId 0]
        cases Scan.tokens.go _ origin 0 0 0 _ <;> rfl

theorem opening_inFile (line : LayoutLine) (fileId other : UInt32) :
    (line.inFile fileId).opening fileId = (line.opening other).map (Token.inFile fileId) := by
  unfold opening inFile
  cases line.move with
  | stay => rfl
  | indent => rfl
  | dedent closed =>
    dsimp only
    rw [List.map_replicate]
    rfl

theorem tokens_inFile (line : LayoutLine) (fileId other : UInt32) :
    (line.inFile fileId).tokens fileId = (line.tokens other).map (Token.inFile fileId) := by
  have hcontent : (line.inFile fileId).content = line.content.map (Token.inFile fileId) := rfl
  unfold tokens
  rw [opening_inFile line fileId other, hcontent, List.isEmpty_map]
  split
  . rfl
  . rw [List.map_append, List.map_append]
    rfl

end LayoutLine

theorem Cursor.step_inFile (options : Options) (cursor : Cursor) (line : Line) :
    cursor.step options line = (cursor.step options.plain line).map fun (entry, next) =>
      (entry.map (LayoutLine.inFile options.fileId), next) := by
  unfold step
  cases cursor.pass line with
  | error cause => rfl
  | ok passed =>
    dsimp only [Except.mapError, bind, Except.bind]
    split
    . rfl
    . rw [LayoutLine.read_inFile options]
      cases LayoutLine.read options.plain cursor.levels _ passed.stop line.text <;> rfl

def Cursor.mark (cursor : Cursor) (options : Options) : List Token :=
  if options.markEnd then [⟨.eof, .point cursor.stop options.fileId⟩] else []

theorem Cursor.closing_plain (cursor : Cursor) (options : Options) :
    cursor.closing options.plain =
      List.replicate cursor.levels.above.length ⟨.dedent, .point cursor.stop 0⟩ := rfl

theorem Cursor.closing_inFile (cursor : Cursor) (options : Options) :
    cursor.closing options =
      (cursor.closing options.plain).map (Token.inFile options.fileId) ++ cursor.mark options := by
  rw [closing_plain, List.map_replicate]
  unfold closing mark
  dsimp only
  split
  . rfl
  . rw [List.append_nil]
    rfl

namespace Run

def inFile (fileId : UInt32) (run : Run) : Run :=
  { run with lines := run.lines.map (LayoutLine.inFile fileId) }

def mark (run : Run) (options : Options) : List Token :=
  match run.abort with
  | none => run.cursor.mark options
  | some _ => []

theorem ofLines_inFile (options : Options) (cursor : Cursor) (lines : List Line) :
    ofLines options cursor lines =
      (ofLines options.plain cursor lines).inFile options.fileId := by
  induction lines generalizing cursor with
  | nil => rfl
  | cons line lines ih =>
    have hstep := cursor.step_inFile options line
    cases hplain : cursor.step options.plain line with
    | error abort =>
      rw [hplain] at hstep
      rw [ofLines_cons_of_error hstep, ofLines_cons_of_error hplain]
      rfl
    | ok result =>
      rcases result with ⟨entry, next⟩
      rw [hplain] at hstep
      rw [ofLines_cons_of_ok hstep, ofLines_cons_of_ok hplain, ih]
      unfold inFile
      dsimp only
      rw [List.map_append]
      cases entry <;> rfl

theorem ofSource_inFile (source : String) (options : Options) :
    ofSource source options = (ofSource source options.plain).inFile options.fileId :=
  ofLines_inFile options .start _

theorem flatMap_tokens_inFile (run : Run) (fileId other : UInt32) :
    (run.inFile fileId).lines.flatMap (·.tokens fileId) =
      (run.lines.flatMap (·.tokens other)).map (Token.inFile fileId) := by
  unfold inFile
  dsimp only
  rw [List.flatMap_map, List.map_flatMap]
  congr 1
  funext line
  exact line.tokens_inFile fileId other

theorem tokens_inFile (run : Run) (options : Options) :
    (run.inFile options.fileId).tokens options =
      (run.tokens options.plain).map (Token.inFile options.fileId) ++ run.mark options := by
  unfold tokens mark
  rw [flatMap_tokens_inFile run options.fileId options.plain.fileId]
  dsimp only [inFile]
  cases run.abort with
  | none =>
    dsimp only
    rw [Cursor.closing_inFile, List.map_append, List.append_assoc]
  | some abort => rw [List.append_nil]

variable {source : String} {options : Options}

theorem abort_ofSource_plain (source : String) (options : Options) :
    (ofSource source options.plain).abort = (ofSource source options).abort := by
  rw [ofSource_inFile source options]
  rfl

end Run

theorem TokenStream.ofSource_inFile (source : String) (options : Options) :
    ofSource source options = (ofSource source options.plain).map fun stream =>
      ⟨stream.tokens.map (Token.inFile options.fileId) ++ (Run.ofSource source options).mark options,
        stream.failure⟩ := by
  have hmark : (Run.ofSource source options).mark options =
      (Run.ofSource source options.plain).mark options := by
    rw [Run.ofSource_inFile source options]
    rfl
  rw [hmark]
  unfold ofSource
  rw [Run.ofSource_inFile source options]
  dsimp only
  rw [Run.tokens_inFile]
  dsimp only [Run.inFile]
  cases (Run.ofSource source options.plain).abort with
  | none => rfl
  | some abort => cases abort <;> rfl

def Item.inFile (fileId : UInt32) (item : Item × Levels) : Item × Levels :=
  (item.1.map (Token.inFile fileId), item.2)

namespace Run

variable {source : String} {options : Options} {items : List (Item × Levels)} {mark : List Token}
  {taken : Nat}

theorem outlook_inFile (run : Run) (options : Options) :
    (run.inFile options.fileId).outlook options =
      (run.outlook options.plain).map (Item.inFile options.fileId) ++
        (run.mark options).map fun token => (.ok token, .base) := by
  have hlines : (run.inFile options.fileId).lines.flatMap (·.outlook options.fileId) =
      (run.lines.flatMap (·.outlook options.plain.fileId)).map (Item.inFile options.fileId) := by
    unfold inFile
    dsimp only
    rw [List.flatMap_map, List.map_flatMap]
    congr 1
    funext line
    unfold LayoutLine.outlook
    rw [line.tokens_inFile options.fileId options.plain.fileId, List.map_map, List.map_map]
    rfl
  unfold outlook mark
  rw [hlines]
  dsimp only [inFile]
  rw [List.map_append, List.append_assoc]
  congr 1
  cases run.abort with
  | none =>
    dsimp only [Cursor.outlook]
    rw [Cursor.closing_inFile, List.map_append, List.map_map, List.map_map]
    rfl
  | some abort => cases abort <;> rfl

theorem levelsAt_inFile_append (fileId : UInt32)
    (hmark : mark ≠ [] → levelsAt items items.length = .base)
    (htaken : taken ≤ items.length + mark.length) :
    levelsAt (items.map (Item.inFile fileId) ++ mark.map fun token => (.ok token, .base)) taken =
      levelsAt items (min taken items.length) := by
  -- The mark at the end follows once the base level is reached and leaves it as it is.
  by_cases hle : taken ≤ items.length
  . rw [Nat.min_eq_left hle]
    unfold levelsAt
    rw [List.take_append_of_le_length (by simpa using hle), ← List.map_take, List.getLast?_map,
      Option.map_map]
    rfl
  . have hne : mark ≠ [] := by
      rintro rfl
      rw [List.length_nil] at htaken
      omega
    rw [Nat.min_eq_right (by omega), hmark hne, ← List.append_nil (_ ++ _)]
    apply levelsAt_append
    . intro item hmem
      rw [List.mem_map] at hmem
      rcases hmem with ⟨token, -, rfl⟩
      rfl
    . rw [List.length_map]
      omega
    . rw [List.length_map, List.length_map]
      exact htaken

theorem mark_eq_nil (h : options.markEnd = false ∨ (ofSource source options).abort ≠ none) :
    (ofSource source options).mark options = [] := by
  unfold mark
  cases habort : (ofSource source options).abort with
  | none =>
    have hmark := h.resolve_right (absurd habort)
    dsimp only
    unfold Cursor.mark
    rw [hmark, if_neg Bool.false_ne_true]
  | some abort => rfl

end Run

def Position.AtEnd (source : String) (pos : Position) : Prop :=
  (source = "" ∧ pos = .start) ∨
    ∃ init last, Line.ofText source.toList = init ++ [last] ∧
      pos.After (init.flatMap Line.chars ++ last.text)

namespace Run

variable {source : String} {options : Options}

theorem exists_mark_eq (hsize : source.utf8ByteSize ≤ 2 ^ 32 - 2) (hmark : options.markEnd = true)
    (habort : (ofSource source options).abort = none) :
    ∃ pos, pos.AtEnd source ∧
      (ofSource source options).mark options = [⟨.eof, .point pos options.fileId⟩] := by
  rcases ofSource_cases source options with ⟨-, hreached⟩ | ⟨_, _, _, abort, -, hsome, -⟩
  . refine ⟨(ofSource source options).cursor.stop, ?_, ?_⟩
    . rcases hreached.stop_after (Line.inRange_ofSource hsize) (List.append_nil _).symm with
        ⟨hnil, hstop⟩ | hlast
      . have htext := Line.flatMap_chars_ofText source.toList
        rw [hnil, List.flatMap_nil] at htext
        exact .inl ⟨String.toList_eq_nil_iff.1 htext.symm, hstop⟩
      . exact .inr hlast
    . unfold mark Cursor.mark
      rw [habort]
      dsimp only
      rw [if_pos hmark]
  . rw [habort] at hsome
    contradiction

theorem levelsAt_of_mark (hsize : source.utf8ByteSize ≤ 2 ^ 32 - 2)
    (h : (ofSource source options).mark options ≠ []) :
    levelsAt ((ofSource source options.plain).outlook options.plain)
      ((ofSource source options.plain).outlook options.plain).length = .base := by
  apply levelsAt_of_ended hsize _ (Nat.le_refl _) (.inr (Nat.le_refl _))
  rw [abort_ofSource_plain]
  by_contra habort
  exact h (mark_eq_nil (.inr habort))

theorem isEof_eq_false {stream : TokenStream} {token : Token}
    (hsize : source.utf8ByteSize ≤ 2 ^ 32 - 2)
    (h : TokenStream.ofSource source options.plain = .ok stream) (hmem : token ∈ stream.tokens) :
    token.isEof = false := by
  rcases exists_closing h with ⟨closing, htokens, hclosing⟩
  have hkind : token.kind ≠ .eof := by
    rw [htokens, List.mem_append] at hmem
    cases hmem with
    | inl hmem =>
      rcases exists_mark_of_mem_contribution (Line.inRange_ofSource hsize) (List.append_nil _).symm
        hmem with ⟨_, _, _, mark, -, -, hmark, hat⟩
      rw [hat.kind_eq]
      change mark.kind ≠ .eof
      cases hmark with
      | block hkind _ _ _ => rcases hkind with rfl | rfl <;> simp
      | content hkind _ _ _ =>
        rintro rfl
        contradiction
      | newline => simp
    | inr hmem =>
      rcases hclosing token hmem with ⟨cursor, -, hmem⟩
      rw [cursor.closing_plain] at hmem
      rw [List.eq_of_mem_replicate hmem]
      simp
  unfold Token.isEof
  rw [beq_eq_false_iff_ne]
  exact hkind

end Run

theorem Call.taken_serve {items items' : List Item} (hle : items.length ≤ items'.length)
    (schedule : List Call) (taken : Nat) :
    min taken items.length +
        ((serve items (min taken items.length) schedule).flatMap Answer.toList).length =
      min (taken + ((serve items' taken schedule).flatMap Answer.toList).length) items.length := by
  induction schedule generalizing taken with
  | nil => rfl
  | cons call schedule ih =>
    have hshare : min taken items.length + (call.share items (min taken items.length)).toList.length =
        min (taken + (call.share items' taken).toList.length) items.length := by
      cases call with
      | next =>
        simp only [share, Answer.toList, ← List.head?_drop, ← List.take_one, List.length_take,
          List.length_drop]
        omega
      | take n =>
        simp only [share, Answer.toList, List.length_take, List.length_drop]
        omega
      | drain =>
        simp only [share, Answer.toList, List.length_drop]
        omega
    rw [serve, serve, List.flatMap_cons, List.flatMap_cons, List.length_append, List.length_append,
      ← Nat.add_assoc, ← Nat.add_assoc, hshare]
    apply ih

theorem Tokenizer.openLevels_eq_plain {source : String} (hsize : source.utf8ByteSize ≤ 2 ^ 32 - 2)
    (options : Options) (schedule : List Call) :
    ∃ answers tokenizer answers' tokenizer',
      (ofSource source options).calls schedule = .ok (answers, tokenizer) ∧
      (ofSource source options.plain).calls schedule = .ok (answers', tokenizer') ∧
      tokenizer.openLevels = tokenizer'.openLevels := by
  rcases @Run.exists_ofSource_eq_ok options source hsize with ⟨stream, -, hitems, -⟩
  rcases @Run.exists_ofSource_eq_ok options.plain source hsize with ⟨plain, -, hplain, -⟩
  rcases exists_calls_eq_ok hsize hitems schedule with ⟨tokenizer, hcalls, hserves⟩
  rcases exists_calls_eq_ok hsize hplain schedule with ⟨tokenizer', hcalls', hserves'⟩
  have houtlook : (Run.ofSource source options).outlook options =
      ((Run.ofSource source options.plain).outlook options.plain).map
          (Item.inFile options.fileId) ++
        ((Run.ofSource source options).mark options).map fun token => (.ok token, .base) := by
    rw [Run.ofSource_inFile source options]
    exact Run.outlook_inFile _ options
  have hlength := congrArg List.length hitems
  have hlength' := congrArg List.length hplain
  rw [List.length_map, houtlook, List.length_append, List.length_map, List.length_map] at hlength
  rw [List.length_map] at hlength'
  have htaken := @Call.taken_serve plain.items stream.items (by omega) schedule 0
  rw [Nat.zero_min, Nat.zero_add, Nat.zero_add] at htaken
  have hgiven := (@Call.serve_prefix stream.items 0 schedule).length_le
  rw [List.drop_zero] at hgiven
  refine ⟨_, tokenizer, _, tokenizer', hcalls, hcalls', ?_⟩
  unfold openLevels
  rw [hserves.levels_eq, hserves'.levels_eq, htaken, houtlook, hlength',
    Run.levelsAt_inFile_append]
  . exact Run.levelsAt_of_mark hsize
  . omega

/--
The number of the file and the mark at the end change nothing else: the error is the same, the
tokens are the same but for the file in their spans, the mark follows them if and only if it is
asked for and there is no error, and the same levels are open after the same calls.
-/
theorem TokenStream.options_do_not_interfere (source : String) (options : Options)
    (hsize : source.utf8ByteSize ≤ 2 ^ 32 - 2) :
    ∃ plain stream, ofSource source { singleStep := options.singleStep } = .ok plain ∧
      ofSource source options = .ok stream ∧
      stream.failure = plain.failure ∧
      (options.markEnd = true → plain.failure = none →
        ∃ pos, pos.AtEnd source ∧ stream.tokens =
          plain.tokens.map (Token.inFile options.fileId) ++
            [⟨.eof, .point pos options.fileId⟩]) ∧
      (options.markEnd = false ∨ plain.failure ≠ none →
        stream.tokens = plain.tokens.map (Token.inFile options.fileId)) ∧
      (∀ token ∈ plain.tokens, token.isEof = false) ∧
      ∀ schedule, ∃ answers tokenizer answers' tokenizer',
        (Tokenizer.ofSource source options).calls schedule = .ok (answers, tokenizer) ∧
        (Tokenizer.ofSource source { singleStep := options.singleStep }).calls schedule =
          .ok (answers', tokenizer') ∧
        tokenizer.openLevels = tokenizer'.openLevels := by
  rcases @Run.exists_ofSource_eq_ok options.plain source hsize with ⟨plain, hplain, -, habort, -⟩
  have hstream := ofSource_inFile source options
  rw [hplain] at hstream
  rw [Run.abort_ofSource_plain] at habort
  refine ⟨plain, _, hplain, hstream, rfl, ?_, ?_, ?_, ?_⟩
  . intro hmark hnone
    rw [hnone] at habort
    rcases Run.exists_mark_eq hsize hmark habort with ⟨pos, hpos, heq⟩
    refine ⟨pos, hpos, ?_⟩
    dsimp only
    rw [heq]
  . intro h
    dsimp only
    rw [Run.mark_eq_nil, List.append_nil]
    refine h.imp_right ?_
    intro hfailure
    rw [habort]
    simpa using hfailure
  . intro token hmem
    exact Run.isEof_eq_false hsize hplain hmem
  . exact Tokenizer.openLevels_eq_plain hsize options

theorem TokenStream.options_do_not_interfere_block :
    "a\n\tb\r".utf8ByteSize ≤ 2 ^ 32 - 2 ∧
    ∃ plain stream pos, ofSource "a\n\tb\r" { singleStep := true } = .ok plain ∧
      ofSource "a\n\tb\r" { fileId := 7, markEnd := true, singleStep := true } = .ok stream ∧
      plain.failure = none ∧
      pos.AtEnd "a\n\tb\r" ∧
      stream.tokens = plain.tokens.map (Token.inFile 7) ++ [⟨.eof, .point pos 7⟩] := by
  have hsize : "a\n\tb\r".utf8ByteSize ≤ 2 ^ 32 - 2 := by decide
  rcases options_do_not_interfere "a\n\tb\r"
      { fileId := 7, markEnd := true, singleStep := true } hsize with
    ⟨plain, stream, hplain, hstream, -, hmark, -⟩
  have hnone : plain.failure = none := by
    have hok : (ofSource "a\n\tb\r" { singleStep := true }).toOption.map (·.failure) =
        some none := by decide +kernel
    rw [hplain] at hok
    exact Option.some.inj hok
  rcases hmark rfl hnone with ⟨pos, hpos, htokens⟩
  exact ⟨hsize, plain, stream, pos, hplain, hstream, hnone, hpos, htokens⟩

end Offside
