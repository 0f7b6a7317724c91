import Offside.Proofs.Ending
import Offside.Proofs.Shift

/-!
This module contains the independence of line terminators. It does not matter whether a line feed
ends the last line, or whether a carriage return stands before each line feed, except that the
carriage returns count as bytes.
-/

namespace Offside

namespace Text

def withReturns (text : List Char) : List Char :=
  text.flatMap fun c => if c = '\n' then ['\r', '\n'] else [c]

variable {body : List Char}

theorem withReturns_of_no_feed (h : '\n' ∉ body) : withReturns body = body := by
  induction body with
  | nil => rfl
  | cons c body ih =>
    rw [List.mem_cons, not_or] at h
    unfold withReturns at ih ⊢
    rw [List.flatMap_cons, if_neg (Ne.symm h.1), ih h.2]
    rfl

theorem withReturns_append_feed (h : '\n' ∉ body) (rest : List Char) :
    withReturns (body ++ '\n' :: rest) = (body ++ ['\r']) ++ '\n' :: withReturns rest := by
  have hbody := withReturns_of_no_feed h
  unfold withReturns at hbody ⊢
  rw [List.flatMap_append, hbody, List.flatMap_cons, if_pos rfl, List.append_assoc]
  rfl

theorem byteSize_le_byteSize_withReturns (text : List Char) :
    byteSize text ≤ byteSize (withReturns text) := by
  induction text with
  | nil => exact Nat.le_refl _
  | cons c text ih =>
    unfold withReturns at ih ⊢
    rw [List.flatMap_cons, byteSize_append, byteSize_cons]
    split
    next hfeed =>
      rw [hfeed, byteSize_cons, byteSize_cons, byteSize_nil]
      omega
    next =>
      rw [byteSize_cons, byteSize_nil]
      omega

end Text

namespace Displacement

def returns : Displacement :=
  ⟨0, fun _ => 0, fun line => line - 1⟩

end Displacement

namespace Line

open Displacement

variable {body text : List Char}

theorem text_ofBody (body feed feed' : List Char) :
    (ofBody body feed).text = (ofBody body feed').text := by
  unfold ofBody
  split <;> rfl

theorem ofBody_of_no_return (h : '\r' ∉ body) (feed : List Char) :
    ofBody body feed = ⟨body, feed⟩ := by
  unfold ofBody
  rw [if_neg fun hlast => h (List.mem_of_getLast? hlast)]

theorem ofBody_append_return (body feed : List Char) :
    ofBody (body ++ ['\r']) feed = ⟨body, '\r' :: feed⟩ := by
  unfold ofBody
  rw [if_pos List.getLast?_concat, List.dropLast_concat]

theorem along_append_feed (hne : text ≠ []) (h : text.getLast? ≠ some '\n') (number : Nat) :
    (shift 0 0).Along number 0 (ofText text) (ofText (text ++ ['\n'])) := by
  induction text using text_induction generalizing number with
  | nil => contradiction
  | last body hbody hfeed =>
    rw [ofText_of_no_feed hbody hfeed, ofText_append_feed hfeed]
    exact .of_text_eq (text_ofBody body ['\n'] []) rfl rfl .nil
  | feed body rest hfeed ih =>
    rw [List.append_assoc, List.cons_append, ofText_append_feed hfeed, ofText_append_feed hfeed]
    have hrest : rest ≠ [] := by
      rintro rfl
      exact h List.getLast?_concat
    apply Along.of_text_eq rfl rfl rfl
    rw [Int.sub_self, Int.add_zero]
    apply ih hrest
    intro hlast
    apply h
    rw [List.append_cons, List.getLast?_append, hlast]
    rfl

theorem along_withReturns (h : '\r' ∉ text) (number : Nat) :
    returns.Along number (number - 1) (ofText text) (ofText (Text.withReturns text)) := by
  induction text using text_induction generalizing number with
  | nil => exact .nil
  | last body hbody hfeed =>
    rw [Text.withReturns_of_no_feed hfeed, ofText_of_no_feed hbody hfeed]
    exact .of_text_eq rfl rfl rfl .nil
  | feed body rest hfeed ih =>
    rw [List.mem_append, List.mem_cons, not_or, not_or] at h
    have hreturn : '\n' ∉ body ++ ['\r'] := by simp [hfeed]
    rw [Text.withReturns_append_feed hfeed, ofText_append_feed hfeed, ofText_append_feed hreturn,
      ofBody_of_no_return h.1, ofBody_append_return]
    -- The second line is longer by the carriage return.
    have hsize : (Text.byteSize (chars ⟨body, ['\r', '\n']⟩) : Int) -
        Text.byteSize (chars ⟨body, ['\n']⟩) = 1 := by
      simp only [chars, Text.byteSize_append, Text.byteSize_cons, Text.byteSize_nil]
      have hone : '\r'.utf8Size = 1 := rfl
      omega
    apply Along.of_text_eq
    . rfl
    . rfl
    . rfl
    . rw [hsize]
      convert ih h.2.2 (number + 1) using 1
      push_cast
      omega

end Line

section Unmoved

variable {d : Displacement}

theorem Position.Displaced.eq {lhs rhs : Position} (h : lhs.Displaced d rhs) (hlines : d.lines = 0)
    (hcolumns : ∀ line, d.columns line = 0) (hbytes : ∀ line, d.bytes line = 0) : lhs = rhs := by
  have hline := h.line_eq
  have hcolumn := h.column_eq
  have hoffset := h.offset_eq
  simp only [hlines, hcolumns, hbytes, Int.add_zero, Int.natCast_inj, UInt32.toNat_inj,
    UInt64.toNat_inj] at hline hcolumn hoffset
  rcases lhs with ⟨line, column, offset⟩
  rcases rhs with ⟨line', column', offset'⟩
  rw [Position.mk.injEq]
  exact ⟨hline.symm, hcolumn.symm, hoffset.symm⟩

theorem Token.Displaced.eq {lhs rhs : Token} (h : lhs.Displaced d rhs) (hlines : d.lines = 0)
    (hcolumns : ∀ line, d.columns line = 0) (hbytes : ∀ line, d.bytes line = 0) : lhs = rhs := by
  have hstart := h.start.eq hlines hcolumns hbytes
  have hstop := h.stop.eq hlines hcolumns hbytes
  rcases lhs with ⟨kind, start, stop, fileId⟩
  rcases rhs with ⟨kind', start', stop', fileId'⟩
  rw [Token.mk.injEq, Span.mk.injEq]
  exact ⟨h.kind_eq.symm, hstart, hstop, h.fileId_eq.symm⟩

theorem LexicalError.Displaced.eq {lhs rhs : LexicalError} (h : lhs.Displaced d rhs)
    (hlines : d.lines = 0) (hcolumns : ∀ line, d.columns line = 0) : lhs = rhs := by
  have hline := h.line_eq
  have hcolumn := h.column_eq
  simp only [hlines, hcolumns, Int.add_zero, Int.natCast_inj, UInt32.toNat_inj] at hline hcolumn
  rcases lhs with ⟨kind, line, column, message⟩
  rcases rhs with ⟨kind', line', column', message'⟩
  rw [LexicalError.mk.injEq]
  exact ⟨h.kind_eq.symm, hline.symm, hcolumn.symm, h.message_eq.symm⟩

namespace TokenStream

variable {lhs rhs : TokenStream}

theorem Displaced.failure_eq (h : lhs.Displaced d rhs) (hlines : d.lines = 0)
    (hcolumns : ∀ line, d.columns line = 0) : lhs.failure = rhs.failure := by
  have hfailure := h.failure
  generalize lhs.failure = failure at hfailure ⊢
  generalize rhs.failure = failure' at hfailure ⊢
  cases hfailure with
  | none => rfl
  | some herror => rw [herror.eq hlines hcolumns]

theorem Displaced.eq (h : lhs.Displaced d rhs) (hlines : d.lines = 0)
    (hcolumns : ∀ line, d.columns line = 0) (hbytes : ∀ line, d.bytes line = 0) : lhs = rhs := by
  have htokens := h.tokens.imp fun _ _ htoken => htoken.eq hlines hcolumns hbytes
  rw [List.forall₂_eq_eq_eq] at htokens
  rcases lhs with ⟨tokens, failure⟩
  rcases rhs with ⟨tokens', failure'⟩
  rw [TokenStream.mk.injEq]
  exact ⟨htokens, h.failure_eq hlines hcolumns⟩

end TokenStream

end Unmoved

namespace TokenStream

open Displacement

theorem ofSource_append_feed {source : String} (options : Options)
    (h : source.toList.getLast? ≠ some '\n')
    (hsize : (source ++ "\n").utf8ByteSize ≤ 2 ^ 32 - 2) :
    ∃ stream, ofSource source options = .ok stream ∧
      ofSource (source ++ "\n") options = .ok stream := by
  by_cases hempty : source = ""
  . -- A blank line ends where it starts, and this is where the empty source ends.
    subst hempty
    exact ⟨_, rfl, rfl⟩
  . have hne : source.toList ≠ [] := fun hnil => hempty (String.toList_eq_nil_iff.1 hnil)
    have halong := Line.along_append_feed hne h 1
    have hshort : source.utf8ByteSize ≤ 2 ^ 32 - 2 := by
      rw [String.utf8ByteSize_append] at hsize
      omega
    have hlines : Line.ofText (source ++ "\n").toList = Line.ofText (source.toList ++ ['\n']) := by
      rw [String.toList_append]
      rfl
    rw [← hlines] at halong
    rcases (@Run.displaced_ofSource _ options _ _ hshort hsize rfl halong
      fun _ => ⟨rfl, rfl⟩).exists_ofSource_eq_ok with ⟨stream, stream', hstream, hstream', h⟩
    rw [← h.eq rfl (fun _ => rfl) fun _ => rfl] at hstream'
    exact ⟨stream, hstream, hstream'⟩

/--
It does not matter how lines end. A source has the same tokens and the same error with and without a
line feed at its end. If a carriage return is put before each line feed, then the tokens and the
error stay the same as well, except that the places on a line are one byte further behind for each
line before.
-/
theorem terminators_do_not_matter (source : String) (options : Options) :
    (source.toList.getLast? ≠ some '\n' → (source ++ "\n").utf8ByteSize ≤ 2 ^ 32 - 2 →
      ∃ stream, ofSource source options = .ok stream ∧
        ofSource (source ++ "\n") options = .ok stream) ∧
    ('\r' ∉ source.toList →
      (String.ofList (Text.withReturns source.toList)).utf8ByteSize ≤ 2 ^ 32 - 2 →
      ∃ stream stream', ofSource source options = .ok stream ∧
        ofSource (String.ofList (Text.withReturns source.toList)) options = .ok stream' ∧
        List.Forall₂ (Token.Displaced returns) stream.tokens stream'.tokens ∧
        stream.failure = stream'.failure) := by
  refine ⟨ofSource_append_feed options, ?_⟩
  intro hreturn hsize
  have hshort : source.utf8ByteSize ≤ 2 ^ 32 - 2 := by
    have hle := Text.byteSize_le_byteSize_withReturns source.toList
    rw [← Text.byteSize_toList, String.toList_ofList] at hsize
    rw [← Text.byteSize_toList]
    omega
  have halong := Line.along_withReturns hreturn 1
  rw [← String.toList_ofList (l := Text.withReturns source.toList)] at halong
  rcases (@Run.displaced_ofSource _ options _ _ hshort hsize rfl halong
    fun _ => ⟨rfl, rfl⟩).exists_ofSource_eq_ok with ⟨stream, stream', hstream, hstream', h⟩
  exact ⟨stream, stream', hstream, hstream', h.tokens, h.failure_eq rfl fun _ => rfl⟩

theorem terminators_do_not_matter_block :
    ("a\r".toList.getLast? ≠ some '\n' ∧ ("a\r" ++ "\n").utf8ByteSize ≤ 2 ^ 32 - 2 ∧
      ∃ stream, ofSource "a\r" {} = .ok stream ∧ ofSource ("a\r" ++ "\n") {} = .ok stream) ∧
    '\r' ∉ "a\n\tb\n".toList ∧ "a\r\n\tb\r\n".utf8ByteSize ≤ 2 ^ 32 - 2 ∧
    ∃ stream stream', ofSource "a\n\tb\n" {} = .ok stream ∧
      ofSource "a\r\n\tb\r\n" {} = .ok stream' ∧
      List.Forall₂ (Token.Displaced returns) stream.tokens stream'.tokens ∧
      stream.failure = stream'.failure := by
  have hlast : "a\r".toList.getLast? ≠ some '\n' := by decide
  have hsize : ("a\r" ++ "\n").utf8ByteSize ≤ 2 ^ 32 - 2 := by decide
  have hreturn : '\r' ∉ "a\n\tb\n".toList := by decide
  have hsize' : "a\r\n\tb\r\n".utf8ByteSize ≤ 2 ^ 32 - 2 := by decide
  exact ⟨⟨hlast, hsize, (terminators_do_not_matter "a\r" {}).1 hlast hsize⟩, hreturn, hsize',
    (terminators_do_not_matter "a\n\tb\n" {}).2 hreturn hsize'⟩

end TokenStream

end Offside
