import Offside.Proofs.Indentation
import Offside.Proofs.Line

/-!
This module contains the outcome of measuring a line, for each way in which spaces and tabs can
stand at its start. They are whole units of one kind, or there is a first place where they are not.
-/

namespace Offside

namespace Text

/--
Whether the spaces and tabs at the start of a line are no indentation because of the character in
the given column: a space behind tabs, the last of an odd number of spaces, or a tab behind pairs of
spaces.
-/
inductive BreaksAt : List Char → Nat → Prop where
  | space {tabs : Nat} {rest : List Char} :
    1 ≤ tabs →
    BreaksAt (List.replicate tabs '\t' ++ ' ' :: rest) (tabs + 1)
  | odd {spaces : Nat} {rest : List Char} :
    spaces % 2 = 1 → (∀ c ∈ rest.head?, c = '\t') →
    BreaksAt (List.replicate spaces ' ' ++ rest) spaces
  | tab {spaces : Nat} {rest : List Char} :
    2 ≤ spaces → spaces % 2 = 0 →
    BreaksAt (List.replicate spaces ' ' ++ '\t' :: rest) (spaces + 1)

variable {text front : List Char}

theorem isIndent_iff {c : Char} : isIndent c = true ↔ c = ' ' ∨ c = '\t' := by
  unfold isIndent
  rw [Bool.or_eq_true, beq_iff_eq, beq_iff_eq]

theorem not_isIndent_head?_body (text : List Char) :
    ∀ c ∈ (body text).head?, isIndent c = false := by
  intro c hc
  have hstop := List.head?_dropWhile_not isIndent text
  unfold body at hc
  rw [hc] at hstop
  simpa using hstop

theorem wellIndented_of_isMargin {units : Nat} (h : IsMargin units (margin text)) :
    WellIndented text ∧ level text = units := by
  have hindented := h.wellIndented_append (not_isIndent_head?_body text)
  rw [margin_append_body] at hindented
  exact hindented

theorem exists_replicate_append (c : Char) (text : List Char) :
    ∃ count rest, text = List.replicate count c ++ rest ∧ rest.head? ≠ some c := by
  induction text with
  | nil => exact ⟨0, [], rfl, by simp⟩
  | cons d text ih =>
    by_cases heq : d = c
    . rcases ih with ⟨count, rest, htext, hrest⟩
      refine ⟨count + 1, rest, ?_, hrest⟩
      rw [heq, htext, List.replicate_succ, List.cons_append]
    . refine ⟨0, d :: text, rfl, ?_⟩
      simpa using heq

theorem isMargin_or_breaksAt (h : ∀ c ∈ front, isIndent c = true) :
    (∃ units, IsMargin units front) ∨ ∃ column, BreaksAt front column := by
  rcases exists_replicate_append ' ' front with ⟨spaces, rest, rfl, hspace⟩
  rw [List.forall_mem_append] at h
  have htab : ∀ c ∈ rest.head?, c = '\t' := by
    intro c hc
    have hindent := isIndent_iff.1 (h.2 c (List.mem_of_mem_head? hc))
    apply hindent.resolve_left
    rintro rfl
    exact hspace hc
  by_cases hodd : spaces % 2 = 1
  . exact .inr ⟨spaces, .odd hodd htab⟩
  cases rest with
  | nil =>
    left
    refine ⟨spaces / 2, .inr ?_⟩
    rw [List.append_nil, Nat.mul_div_cancel' (Nat.dvd_of_mod_eq_zero (by omega))]
  | cons c rest =>
    rw [htab c rfl] at h ⊢
    by_cases hspaces : 2 ≤ spaces
    . exact .inr ⟨spaces + 1, .tab hspaces (by omega)⟩
    . -- There are tabs only, up to the end or to a space.
      rcases exists_replicate_append '\t' rest with ⟨tabs, after, rfl, hafter⟩
      rw [show spaces = 0 by omega, List.replicate_zero, List.nil_append, ← List.cons_append,
        ← List.replicate_succ]
      cases after with
      | nil => exact .inl ⟨tabs + 1, .inl (List.append_nil _)⟩
      | cons d after =>
        have hd : d = ' ' := by
          apply (isIndent_iff.1 (h.2 d (by simp))).resolve_right
          rintro rfl
          exact hafter rfl
        rw [hd]
        exact .inr ⟨tabs + 1 + 1, .space (by omega)⟩

end Text

namespace IndentUnit

def width : IndentUnit → Nat
  | .tab => 1
  | .spacePair => 2

def char : IndentUnit → Char
  | .tab => '\t'
  | .spacePair => ' '

end IndentUnit

namespace Indentation

open Text

variable {start : Position} {seen : Option IndentUnit} {level : UInt32} {width : Nat}
  {rest after : List Char}

theorem go_unit {total : UInt32} (unit : IndentUnit) (hseen : seen = none ∨ seen = some unit)
    (htotal : Word.add32 level 1 = .ok total) :
    ofText.go start seen level width (List.replicate unit.width unit.char ++ rest) =
      ofText.go start (some unit) total (width + unit.width) rest := by
  cases unit with
  | tab =>
    have hother : seen ≠ some .spacePair := by rcases hseen with rfl | rfl <;> simp
    show ofText.go start seen level width ('\t' :: rest) = _
    rw [ofText.go, if_neg hother, htotal]
    rfl
  | spacePair =>
    have hother : seen ≠ some .tab := by rcases hseen with rfl | rfl <;> simp
    show ofText.go start seen level width (' ' :: ' ' :: rest) = _
    rw [ofText.go, if_neg hother, htotal]
    rfl

theorem go_units (unit : IndentUnit) (units : Nat) (hseen : seen = none ∨ seen = some unit)
    (hlevel : level.toNat + units < 2 ^ 32) :
    ∃ kind total, (kind = seen ∨ kind = some unit) ∧ (1 ≤ units → kind = some unit) ∧
      ofText.go start seen level width (List.replicate (units * unit.width) unit.char ++ rest) =
        ofText.go start kind total (width + units * unit.width) rest := by
  induction units generalizing seen level width with
  | zero =>
    refine ⟨seen, level, .inl rfl, by simp, ?_⟩
    simp
  | succ units ih =>
    rcases add32_one level (by omega) with ⟨total, htotal⟩
    have hsum : total.toNat = level.toNat + 1 := Word.add32_eq_ok_iff.1 htotal
    rcases @ih (some unit) total (width + unit.width) (.inr rfl) (by omega) with
      ⟨kind, total', hkind, -, hgo⟩
    have hunit : kind = some unit := or_self_iff.1 hkind
    refine ⟨kind, total', .inr hunit, fun _ => hunit, ?_⟩
    have hwidth : (units + 1) * unit.width = unit.width + units * unit.width := by
      rw [Nat.succ_mul, Nat.add_comm]
    rw [hwidth, ← List.replicate_append_replicate, List.append_assoc, go_unit unit hseen htotal,
      hgo, Nat.add_assoc]

theorem ofText_units (unit : IndentUnit) (units : Nat) (hunits : units < 2 ^ 32) :
    ∃ kind total, (kind = none ∨ kind = some unit) ∧ (1 ≤ units → kind = some unit) ∧
      ofText start (List.replicate (units * unit.width) unit.char ++ rest) =
        ofText.go start kind total (units * unit.width) rest := by
  have hlevel : (0 : UInt32).toNat + units < 2 ^ 32 := by
    rw [UInt32.toNat_zero]
    omega
  rcases @go_units start none 0 0 rest unit units (.inl rfl) hlevel with
    ⟨kind, total, hkind, hone, hgo⟩
  rw [Nat.zero_add] at hgo
  exact ⟨kind, total, hkind, hone, hgo⟩

def FailsAt (start : Position) (width : Nat) (c : Char) (after : List Char)
    (result : Except Abort Indentation) : Prop :=
  ∃ fault : IndentFault, fault.At c after ∧ result = .error (ofText.fault start fault width)

theorem go_space (h : seen = some .tab ∨ after.head? ≠ some ' ') :
    FailsAt start width ' ' after (ofText.go start seen level width (' ' :: after)) := by
  unfold FailsAt
  match after, h with
  | [], _ =>
    refine ⟨_, IndentFault.at_of_isUnpaired (isUnpaired_space (by simp)), ?_⟩
    rw [ofText.go] <;> simp
  | c :: after, h =>
    by_cases hspace : c = ' '
    . subst hspace
      refine ⟨_, IndentFault.at_of_not_isUnpaired (by simp [IsUnpaired]), ?_⟩
      rw [ofText.go, if_pos (h.resolve_right (by simp))]
    . by_cases htab : c = '\t'
      . subst htab
        refine ⟨_, IndentFault.at_of_not_isUnpaired (by simp [IsUnpaired]), ?_⟩
        rw [ofText.go]
      . refine ⟨_, IndentFault.at_of_isUnpaired ⟨rfl, by simp [hspace, htab]⟩, ?_⟩
        rw [ofText.go] <;> simp [hspace, htab]

theorem go_tab : FailsAt start width '\t' after
    (ofText.go start (some .spacePair) level width ('\t' :: after)) := by
  refine ⟨_, IndentFault.at_of_not_isUnpaired (by simp [IsUnpaired]), ?_⟩
  rw [ofText.go, if_pos rfl]

theorem failsAt_of_breaksAt {text : List Char} {column : Nat} (hlength : text.length < 2 ^ 32)
    (h : BreaksAt (margin text) column) :
    ∃ before c after, text = before ++ c :: after ∧ column = before.length + 1 ∧
      FailsAt start before.length c after (ofText start text) := by
  have hbody := not_isIndent_head?_body text
  have htext := margin_append_body text
  generalize margin text = front at h htext
  generalize body text = back at hbody htext
  subst htext
  cases h with
  | @space tabs rest htabs =>
    refine ⟨List.replicate tabs '\t', ' ', rest ++ back, by simp, by simp, ?_⟩
    rcases @ofText_units start (' ' :: (rest ++ back)) .tab tabs (by simp at hlength; omega) with
      ⟨kind, total, -, hkind, hgo⟩
    dsimp only [IndentUnit.width, IndentUnit.char] at hgo
    rw [Nat.mul_one, hkind htabs] at hgo
    rw [List.append_assoc, List.cons_append, hgo, List.length_replicate]
    exact go_space (.inl rfl)
  | @odd _ rest hodd hrest =>
    obtain ⟨pairs, rfl⟩ : ∃ pairs, column = pairs * 2 + 1 := ⟨column / 2, by omega⟩
    refine ⟨List.replicate (pairs * 2) ' ', ' ', rest ++ back, ?_, by simp, ?_⟩
    . rw [List.replicate_succ', List.append_assoc, List.append_assoc, List.singleton_append]
    rcases @ofText_units start (' ' :: (rest ++ back)) .spacePair pairs
      (by simp at hlength; omega) with ⟨kind, total, -, -, hgo⟩
    dsimp only [IndentUnit.width, IndentUnit.char] at hgo
    rw [List.replicate_succ', List.append_assoc, List.append_assoc, List.singleton_append, hgo,
      List.length_replicate]
    apply go_space
    right
    cases rest with
    | nil =>
      intro hspace
      exact absurd (hbody _ hspace) (by decide)
    | cons c rest =>
      rw [hrest c rfl]
      simp
  | @tab spaces rest hspaces heven =>
    obtain ⟨pairs, rfl⟩ : ∃ pairs, spaces = pairs * 2 := ⟨spaces / 2, by omega⟩
    refine ⟨List.replicate (pairs * 2) ' ', '\t', rest ++ back, by simp, by simp, ?_⟩
    rcases @ofText_units start ('\t' :: (rest ++ back)) .spacePair pairs
      (by simp at hlength; omega) with ⟨kind, total, -, hkind, hgo⟩
    dsimp only [IndentUnit.width, IndentUnit.char] at hgo
    rw [hkind (by omega)] at hgo
    rw [List.append_assoc, List.cons_append, hgo, List.length_replicate]
    exact go_tab

theorem ofText_of_isMargin {text : List Char} {units : Nat}
    (hroom : start.HasRoom text.length text.length) (h : IsMargin units (margin text)) :
    ∃ level : UInt32, level.toNat = units ∧
      ofText start text = .ok ⟨level, (margin text).length, body text⟩ := by
  rcases wellIndented_of_isMargin h with ⟨hindented, hunits⟩
  rw [← hunits]
  apply ofText_of_wellIndented hroom hindented

theorem ofText_of_breaksAt {text : List Char} {column : Nat}
    (hroom : start.HasRoom text.length text.length) (h : BreaksAt (margin text) column) :
    ∃ before c after message, ∃ place : UInt32,
      text = before ++ c :: after ∧ column = before.length + 1 ∧
      place.toNat = start.column.toNat + before.length ∧ Says c after message ∧
      ofText start text =
        .error (.rejected ⟨.invalidIndentation, start.line, place, message⟩) := by
  have hlength := hroom.column_lt
  rcases @failsAt_of_breaksAt start text column (by omega) h with
    ⟨before, c, after, htext, hcolumn, fault, hfault, hfails⟩
  have hbefore : before.length ≤ text.length := by
    rw [htext, List.length_append]
    omega
  rcases Abort.reject_of_hasRoom .invalidIndentation fault.message
    (hroom.mono hbefore hbefore) with ⟨place, hplace, hreject⟩
  refine ⟨before, c, after, _, place, htext, hcolumn, hplace, says_message hfault, ?_⟩
  rw [hfails, ofText.fault, hreject]

/--
The spaces and tabs at the start of a line decide what measuring it comes to. Measuring is
successful exactly if they are whole units of one kind, which it counts. Otherwise they break the
rules in some column, and the error is in this column. It says that a space is without a second one
if neither a space nor a tab follows it, and that tabs and spaces are mixed in all other cases.
-/
theorem margin_decides (line : String) (hsize : line.utf8ByteSize < 2 ^ 32 - 1) :
    ((∃ indentation, ofText .start line.toList = .ok indentation) ↔
      ∃ units, IsMargin units (margin line.toList)) ∧
    (∀ units, IsMargin units (margin line.toList) →
      ∃ level : UInt32, level.toNat = units ∧ ofText .start line.toList =
        .ok ⟨level, (margin line.toList).length, body line.toList⟩) ∧
    ((¬∃ units, IsMargin units (margin line.toList)) →
      ∃ column, BreaksAt (margin line.toList) column) ∧
    ∀ column, BreaksAt (margin line.toList) column →
      ∃ before c after message, ∃ place : UInt32,
        line.toList = before ++ c :: after ∧ column = before.length + 1 ∧
        place.toNat = column ∧ Says c after message ∧
        ofText .start line.toList =
          .error (.rejected ⟨.invalidIndentation, 1, place, message⟩) := by
  have hroom : Position.start.HasRoom line.toList.length line.toList.length := by
    have hlength := Text.length_le_byteSize line.toList
    rw [Text.byteSize_toList] at hlength
    constructor
    . show 1 + line.toList.length < 2 ^ 32
      omega
    . show 0 + line.toList.length < 2 ^ 64
      omega
  have hmargin : ∀ c ∈ margin line.toList, isIndent c = true :=
    List.all_eq_true.1 List.all_takeWhile
  have hcases := isMargin_or_breaksAt hmargin
  refine ⟨⟨?_, ?_⟩, ?_, hcases.resolve_left, ?_⟩
  . rintro ⟨indentation, hok⟩
    apply hcases.resolve_right
    rintro ⟨column, hbreaks⟩
    rcases ofText_of_breaksAt hroom hbreaks with ⟨_, _, _, _, _, -, -, -, -, herror⟩
    rw [hok] at herror
    contradiction
  . rintro ⟨units, hunits⟩
    rcases ofText_of_isMargin hroom hunits with ⟨level, -, hok⟩
    exact ⟨_, hok⟩
  . intro units hunits
    apply ofText_of_isMargin hroom hunits
  . intro column hbreaks
    rcases ofText_of_breaksAt hroom hbreaks with
      ⟨before, c, after, message, place, htext, hcolumn, hplace, hsays, herror⟩
    refine ⟨before, c, after, message, place, htext, hcolumn, ?_, hsays, herror⟩
    rw [hplace, hcolumn]
    apply Nat.add_comm

theorem margin_decides_tabs_and_odd_spaces :
    "\t\tä".utf8ByteSize < 2 ^ 32 - 1 ∧ "   ä".utf8ByteSize < 2 ^ 32 - 1 ∧
    "\t  ä".utf8ByteSize < 2 ^ 32 - 1 ∧
    ofText .start "\t\tä".toList = .ok ⟨2, 2, ['ä']⟩ ∧
    ofText .start "   ä".toList =
      .error (.rejected ⟨.invalidIndentation, 1, 3,
        "single leading space is not a valid indentation unit"⟩) ∧
    ofText .start "\t  ä".toList =
      .error (.rejected ⟨.invalidIndentation, 1, 2,
        "cannot mix tabs and spaces in indentation"⟩) := by
  have htabs : "\t\tä".utf8ByteSize < 2 ^ 32 - 1 := by decide
  have hspaces : "   ä".utf8ByteSize < 2 ^ 32 - 1 := by decide
  have hmixed : "\t  ä".utf8ByteSize < 2 ^ 32 - 1 := by decide
  have fails {line : String} {front back : List Char} {d : Char} {column : UInt32}
      (hsize : line.utf8ByteSize < 2 ^ 32 - 1) (hline : line.toList = front ++ d :: back)
      (hfront : column.toNat = front.length + 1)
      (hbreaks : BreaksAt (margin line.toList) column.toNat) :
      ∃ message, Says d back message ∧
        ofText .start line.toList =
          .error (.rejected ⟨.invalidIndentation, 1, column, message⟩) := by
    rcases (margin_decides line hsize).2.2.2 _ hbreaks with
      ⟨before, c, after, message, place, htext, hcolumn, hplace, hsays, herror⟩
    rw [hline] at htext
    rcases List.append_inj htext (by omega) with ⟨-, htail⟩
    rw [UInt32.toNat_inj.1 hplace] at herror
    rw [(List.cons.inj htail).1, (List.cons.inj htail).2]
    exact ⟨message, hsays, herror⟩
  refine ⟨htabs, hspaces, hmixed, ?_, ?_, ?_⟩
  . rcases (margin_decides "\t\tä" htabs).2.1 2 (.inl (by decide)) with ⟨level, hlevel, hok⟩
    rw [show level = 2 from UInt32.toNat_inj.1 hlevel] at hok
    exact hok
  . rcases @fails "   ä" [' ', ' '] ['ä'] ' ' 3 hspaces rfl rfl
      (@BreaksAt.odd 3 [] (by decide) (by simp)) with ⟨message, hsays, herror⟩
    cases hsays with
    | unpaired => exact herror
    | mixed hpaired => simp [IsUnpaired] at hpaired
  . rcases @fails "\t  ä" ['\t'] [' ', 'ä'] ' ' 2 hmixed rfl rfl
      (@BreaksAt.space 1 [' '] (by decide)) with ⟨message, hsays, herror⟩
    cases hsays with
    | unpaired hunpaired => simp [IsUnpaired] at hunpaired
    | mixed => exact herror

end Indentation

end Offside
