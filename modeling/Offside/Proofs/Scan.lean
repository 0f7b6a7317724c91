import Offside.Proofs.Position
import Offside.Scan

/-!
This module contains what the tokens of a text are apart from their places: the kinds of the
lexemes, as long as every character of the text belongs to a lexeme.
-/

namespace Offside

namespace Scan

def kinds (scan : Scan) : List TokenKind :=
  scan.lexemes.filterMap (·.kind)

def covered (lexemes : List Lexeme) : List Char :=
  lexemes.flatMap (·.text)

@[simp]
theorem covered_cons (lexeme : Lexeme) (lexemes : List Lexeme) :
    covered (lexeme :: lexemes) = lexeme.text ++ covered lexemes := List.flatMap_cons

@[simp]
theorem ofText_nil : ofText [] = ⟨[], none⟩ := by
  rw [ofText]

theorem ofText_cons_of_cut {c : Char} {text rest : List Char} {lexeme : Lexeme}
    (h : Lexeme.cut c text = .ok (lexeme, rest)) :
    ofText (c :: text) = ⟨lexeme :: (ofText rest).lexemes, (ofText rest).fault⟩ := by
  rw [ofText]
  split
  next fault heq =>
    rw [h] at heq
    contradiction
  next heq =>
    rw [h, Except.ok.injEq, Prod.mk.injEq] at heq
    rcases heq with ⟨rfl, rfl⟩
    rfl

theorem ofText_cons_of_fault {c : Char} {text : List Char} {fault : ContentFault}
    (h : Lexeme.cut c text = .error fault) : ofText (c :: text) = ⟨[], some fault⟩ := by
  rw [ofText]
  split
  next heq =>
    rw [h, Except.error.injEq] at heq
    rw [heq]
  next heq =>
    rw [h] at heq
    contradiction

theorem covered_ofText (text : List Char) :
    ∃ rest, covered (ofText text).lexemes ++ rest = text ∧
      ((ofText text).fault = none → rest = []) := by
  induction text using ofText.induct with
  | case1 =>
    rw [ofText_nil]
    exact ⟨[], rfl, fun _ => rfl⟩
  | case2 c text fault hcut =>
    rw [ofText_cons_of_fault hcut]
    exact ⟨c :: text, rfl, by simp⟩
  | case3 c text lexeme rest hcut ih =>
    rcases ih with ⟨left, hleft, hfault⟩
    rcases Lexeme.cut_eq_cons hcut with ⟨tail, htail, htext⟩
    rw [ofText_cons_of_cut hcut]
    refine ⟨left, ?_, hfault⟩
    unfold covered at hleft ⊢
    rw [List.flatMap_cons, htail, List.append_assoc, hleft, List.cons_append, htext]

theorem covered_ofText_of_fault {text : List Char} {fault : ContentFault}
    (h : (ofText text).fault = some fault) :
    ∃ c rest, covered (ofText text).lexemes ++ c :: rest = text ∧
      Lexeme.cut c rest = .error fault := by
  induction text using ofText.induct with
  | case1 => simp at h
  | case2 c text other hcut =>
    rw [ofText_cons_of_fault hcut, Option.some.injEq] at h
    rw [ofText_cons_of_fault hcut, ← h]
    exact ⟨c, text, rfl, hcut⟩
  | case3 c text lexeme rest hcut ih =>
    rw [ofText_cons_of_cut hcut] at h
    rcases ih h with ⟨d, left, hleft, hfault⟩
    rcases Lexeme.cut_eq_cons hcut with ⟨tail, htail, htext⟩
    refine ⟨d, left, ?_, hfault⟩
    rw [ofText_cons_of_cut hcut, covered_cons, htail, List.append_assoc, hleft, List.cons_append,
      htext]

variable {scan : Scan} {origin : Position} (fileId : UInt32)

theorem tokens_go_eq_map (lexemes : List Lexeme) (chars bytes : Nat)
    (hroom : origin.HasRoom (chars + (covered lexemes).length)
      (bytes + Text.byteSize (covered lexemes))) :
    ∃ result : List Token, result.map (·.kind) = lexemes.filterMap (·.kind) ∧
      tokens.go scan origin fileId chars bytes lexemes =
        (tokens.go scan origin fileId (chars + (covered lexemes).length)
          (bytes + Text.byteSize (covered lexemes)) []).map (result ++ ·) := by
  induction lexemes generalizing chars bytes with
  | nil =>
    refine ⟨[], rfl, ?_⟩
    simp only [covered, List.flatMap_nil, List.length_nil, Text.byteSize_nil, Nat.add_zero]
    cases tokens.go scan origin fileId chars bytes [] <;> rfl
  | cons lexeme lexemes ih =>
    rcases lexeme with ⟨kind, text⟩
    rw [covered_cons, List.length_append, Text.byteSize_append, ← Nat.add_assoc, ← Nat.add_assoc]
      at hroom ⊢
    dsimp only at hroom ⊢
    rcases ih _ _ hroom with ⟨result, hkinds, hresult⟩
    -- The lexemes end at the same place, whether or not the first of them is a token.
    generalize tokens.go scan origin fileId _ _ [] = last at hresult ⊢
    cases kind with
    | none =>
      refine ⟨result, hkinds, ?_⟩
      rw [tokens.go, hresult]
    | some kind =>
      have hstart : origin.HasRoom chars bytes := hroom.mono (by omega) (by omega)
      have hstop : origin.HasRoom (chars + text.length) (bytes + Text.byteSize text) :=
        hroom.mono (by omega) (by omega)
      rcases Position.advance_of_hasRoom hstart with ⟨start, hadvance, -⟩
      rcases Position.advance_of_hasRoom hstop with ⟨stop, hadvance', -⟩
      refine ⟨⟨kind, ⟨start, stop, fileId⟩⟩ :: result, ?_, ?_⟩
      . simp [hkinds]
      . rw [tokens.go, hadvance]
        dsimp only [Except.mapError, bind, Except.bind]
        rw [hadvance']
        dsimp only
        rw [hresult]
        cases last <;> rfl

theorem tokens_of_fault_eq_none (hfault : scan.fault = none)
    (hroom : origin.HasRoom (covered scan.lexemes).length
      (Text.byteSize (covered scan.lexemes))) :
    ∃ result, scan.tokens origin fileId = .ok result ∧ result.map (·.kind) = scan.kinds := by
  rcases tokens_go_eq_map fileId scan.lexemes 0 0 (by simpa using hroom) with
    ⟨result, hkinds, hresult⟩
  refine ⟨result, ?_, hkinds⟩
  unfold tokens
  rw [hresult, tokens.go, hfault]
  simp [Except.map]

theorem tokens_of_fault_eq_some {fault : ContentFault} (hfault : scan.fault = some fault)
    (hroom : origin.HasRoom (covered scan.lexemes).length
      (Text.byteSize (covered scan.lexemes))) :
    ∃ column, column.toNat = origin.column.toNat + (covered scan.lexemes).length ∧
      scan.tokens origin fileId =
        .error (.rejected ⟨.invalidToken, origin.line, column, fault.message⟩) := by
  rcases tokens_go_eq_map fileId scan.lexemes 0 0 (by simpa using hroom) with ⟨result, -, hresult⟩
  rcases Abort.reject_of_hasRoom .invalidToken fault.message hroom with ⟨column, hcolumn, hreject⟩
  refine ⟨column, hcolumn, ?_⟩
  unfold tokens
  rw [hresult, tokens.go, hfault]
  simp only [Nat.zero_add, hreject]
  rfl

theorem hasRoom_covered_ofText {text : List Char}
    (hroom : origin.HasRoom text.length (Text.byteSize text)) :
    origin.HasRoom (covered (ofText text).lexemes).length
      (Text.byteSize (covered (ofText text).lexemes)) := by
  rcases covered_ofText text with ⟨rest, hrest, -⟩
  apply hroom.mono
  . have := congrArg List.length hrest
    rw [List.length_append] at this
    omega
  . have := congrArg Text.byteSize hrest
    rw [Text.byteSize_append] at this
    omega

end Scan

end Offside
