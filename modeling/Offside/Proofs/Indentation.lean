import Offside.Indentation
import Offside.Proofs.Position

/-!
This module contains the indentation of a line, told by the spaces and tabs at its start. They have
to be tabs only or an even number of spaces.
-/

namespace Offside

namespace Text

def margin (text : List Char) : List Char :=
  text.takeWhile isIndent

def body (text : List Char) : List Char :=
  text.dropWhile isIndent

/--
Whether a text is indented by tabs only or by an even number of spaces.
-/
def WellIndented (text : List Char) : Prop :=
  (∀ c ∈ margin text, c = '\t') ∨ ((∀ c ∈ margin text, c = ' ') ∧ (margin text).length % 2 = 0)

instance (text : List Char) : Decidable (WellIndented text) :=
  @instDecidableOr _ _ (List.decidableBAll _ _)
    (@instDecidableAnd _ _ (List.decidableBAll _ _) inferInstance)

/--
The level of a text, to which each tab and each pair of spaces at its start adds one.
-/
def level (text : List Char) : Nat :=
  (margin text).count '\t' + (margin text).count ' ' / 2

theorem margin_append_body (text : List Char) : margin text ++ body text = text :=
  List.takeWhile_append_dropWhile

theorem length_margin_le (text : List Char) : (margin text).length ≤ text.length := by
  have := congrArg List.length (margin_append_body text)
  rw [List.length_append] at this
  omega

theorem byteSize_eq_length_of_isIndent {text : List Char} (h : ∀ c ∈ text, isIndent c = true) :
    byteSize text = text.length := by
  induction text with
  | nil => rfl
  | cons c text ih =>
    rw [List.forall_mem_cons] at h
    have hsize : c.utf8Size = 1 := by
      have hc := h.1
      simp only [isIndent, Bool.or_eq_true, beq_iff_eq] at hc
      rcases hc with rfl | rfl <;> rfl
    rw [byteSize_cons, ih h.2, hsize, List.length_cons, Nat.add_comm]

theorem byteSize_margin (text : List Char) : byteSize (margin text) = (margin text).length := by
  apply byteSize_eq_length_of_isIndent
  intro c hmem
  exact List.all_eq_true.1 List.all_takeWhile c hmem

theorem level_le_length (text : List Char) : level text ≤ text.length := by
  have hsum (chars : List Char) : chars.count '\t' + chars.count ' ' ≤ chars.length := by
    induction chars with
    | nil => simp
    | cons c chars ih =>
      simp only [List.count_cons, List.length_cons]
      by_cases htab : c = '\t'
      . simp [htab]
        omega
      . simp [htab]
        split <;> omega
  have := hsum (margin text)
  have := length_margin_le text
  unfold level
  omega

theorem margin_eq_nil {text : List Char} (h : ∀ c ∈ text.head?, isIndent c = false) :
    margin text = [] ∧ body text = text := by
  cases text with
  | nil => exact ⟨rfl, rfl⟩
  | cons c text =>
    have hc := h c (by simp)
    simp [margin, body, hc]

theorem isIndent_head?_eq_false {text : List Char} (hspace : ∀ rest, text ≠ ' ' :: rest)
    (htab : ∀ rest, text ≠ '\t' :: rest) : ∀ c ∈ text.head?, isIndent c = false := by
  intro c hc
  obtain ⟨rest, rfl⟩ := List.head?_eq_some_iff.1 hc
  simp only [isIndent, Bool.or_eq_false_iff, beq_eq_false_iff_ne]
  constructor
  . rintro rfl
    exact hspace rest rfl
  . rintro rfl
    exact htab rest rfl

def IsMargin (level : Nat) (text : List Char) : Prop :=
  text = List.replicate level '\t' ∨ text = List.replicate (2 * level) ' '

theorem IsMargin.isIndent {level : Nat} {front : List Char} (h : IsMargin level front) :
    ∀ c ∈ front, isIndent c = true := by
  intro c hmem
  rcases h with rfl | rfl
  . rw [List.eq_of_mem_replicate hmem]
    rfl
  . rw [List.eq_of_mem_replicate hmem]
    rfl

theorem margin_append {front rest : List Char} (hfront : ∀ c ∈ front, isIndent c = true)
    (hrest : ∀ c ∈ rest.head?, isIndent c = false) :
    margin (front ++ rest) = front ∧ body (front ++ rest) = rest := by
  rcases margin_eq_nil hrest with ⟨hmargin, hbody⟩
  unfold margin at hmargin ⊢
  unfold body at hbody ⊢
  rw [List.takeWhile_append_of_pos hfront, List.dropWhile_append_of_pos hfront, hmargin, hbody,
    List.append_nil]
  exact ⟨rfl, rfl⟩

theorem IsMargin.wellIndented_append {units : Nat} {front rest : List Char}
    (h : IsMargin units front) (hrest : ∀ c ∈ rest.head?, Text.isIndent c = false) :
    WellIndented (front ++ rest) ∧ level (front ++ rest) = units := by
  unfold WellIndented level
  rw [(margin_append h.isIndent hrest).1]
  rcases h with rfl | rfl
  . refine ⟨.inl fun c hmem => List.eq_of_mem_replicate hmem, ?_⟩
    simp [List.count_replicate]
  . refine ⟨.inr ⟨fun c hmem => List.eq_of_mem_replicate hmem, ?_⟩, ?_⟩
    . simp
    . simp [List.count_replicate]

theorem margin_tab (text : List Char) : margin ('\t' :: text) = '\t' :: margin text := rfl

theorem margin_space (text : List Char) : margin (' ' :: text) = ' ' :: margin text := rfl

/--
Whether a character in front of `after` is a space that is followed by neither a space nor a tab.
-/
def IsUnpaired (c : Char) (after : List Char) : Prop :=
  c = ' ' ∧ ∀ d ∈ after.head?, d ≠ ' ' ∧ d ≠ '\t'

theorem isUnpaired_space {after : List Char} (h : ∀ d ∈ after.head?, isIndent d = false) :
    IsUnpaired ' ' after := by
  refine ⟨rfl, ?_⟩
  intro d hd
  constructor
  . rintro rfl
    exact absurd (h _ hd) (by decide)
  . rintro rfl
    exact absurd (h _ hd) (by decide)

end Text

namespace IndentFault

variable {c : Char} {after : List Char}

def At (c : Char) (after : List Char) (fault : IndentFault) : Prop :=
  fault = .unpairedSpace ↔ Text.IsUnpaired c after

theorem at_of_isUnpaired (h : Text.IsUnpaired c after) : unpairedSpace.At c after :=
  iff_of_true rfl h

theorem at_of_not_isUnpaired (h : ¬Text.IsUnpaired c after) : mixedUnits.At c after :=
  iff_of_false (by simp) h

end IndentFault

namespace Indentation

open Text

/--
Whether a text is the message about the character `c` in front of `after`, which is no part of a
unit.
-/
inductive Says (c : Char) (after : List Char) : String → Prop where
  | unpaired :
    IsUnpaired c after →
    Says c after "single leading space is not a valid indentation unit"
  | mixed :
    ¬IsUnpaired c after →
    Says c after "cannot mix tabs and spaces in indentation"

theorem says_message {c : Char} {after : List Char} {fault : IndentFault}
    (h : fault.At c after) : Says c after fault.message := by
  cases fault with
  | unpairedSpace => exact .unpaired (h.1 rfl)
  | mixedUnits => exact .mixed (mt h.2 (by simp))

def Continues (seen : Option IndentUnit) (text : List Char) : Prop :=
  match seen with
  | none => WellIndented text
  | some .tab => ∀ c ∈ margin text, c = '\t'
  | some .spacePair => (∀ c ∈ margin text, c = ' ') ∧ (margin text).length % 2 = 0

variable {seen : Option IndentUnit} {text : List Char}

theorem continues_tab_iff (h : seen ≠ some .spacePair) :
    Continues seen ('\t' :: text) ↔ Continues (some .tab) text := by
  rcases seen with _ | unit
  . simp [Continues, WellIndented, margin_tab]
  . cases unit with
    | tab => simp [Continues, margin_tab]
    | spacePair => contradiction

theorem continues_spaces_iff (h : seen ≠ some .tab) :
    Continues seen (' ' :: ' ' :: text) ↔ Continues (some .spacePair) text := by
  have heven : ((margin text).length + 1 + 1) % 2 = (margin text).length % 2 := by omega
  rcases seen with _ | unit
  . simp [Continues, WellIndented, margin_space, heven]
  . cases unit with
    | tab => contradiction
    | spacePair => simp [Continues, margin_space, heven]

theorem not_continues_tab : ¬ Continues (some .spacePair) ('\t' :: text) := by
  simp [Continues, margin_tab]

theorem not_continues_space : ¬ Continues (some .tab) (' ' :: text) := by
  simp [Continues, margin_space]

theorem not_continues_space_tab : ¬ Continues seen (' ' :: '\t' :: text) := by
  rcases seen with _ | unit
  . simp [Continues, WellIndented, margin_tab, margin_space]
  . cases unit <;> simp [Continues, margin_tab, margin_space]

theorem not_continues_lone_space (h : ∀ c ∈ text.head?, isIndent c = false) :
    ¬ Continues seen (' ' :: text) := by
  rcases seen with _ | unit
  . simp [Continues, WellIndented, margin_space, (margin_eq_nil h).1]
  . cases unit <;> simp [Continues, margin_space, (margin_eq_nil h).1]

theorem continues_of_margin_eq_nil (h : margin text = []) : Continues seen text := by
  rcases seen with _ | unit
  . simp [Continues, WellIndented, h]
  . cases unit <;> simp [Continues, h]

def Measured (start : Position) (seen : Option IndentUnit) (level : UInt32) (width : Nat)
    (text : List Char) (result : Except Abort Indentation) : Prop :=
  (Continues seen text →
    ∃ total, total.toNat = level.toNat + Text.level text ∧
      result = .ok ⟨total, width + (margin text).length, body text⟩) ∧
  (¬ Continues seen text →
    ∃ column message,
      result = .error (.rejected ⟨.invalidIndentation, start.line, column, message⟩))

variable {start : Position} {level : UInt32} {width : Nat} {result : Except Abort Indentation}

theorem measured_fault (hroom : start.HasRoom width width) (cause : IndentFault)
    (h : ¬ Continues seen text) :
    Measured start seen level width text (.error (ofText.fault start cause width)) := by
  constructor
  . intro hcontinues
    contradiction
  . intro _
    rcases Abort.reject_of_hasRoom .invalidIndentation cause.message hroom with ⟨column, -, hreject⟩
    refine ⟨column, cause.message, ?_⟩
    unfold ofText.fault
    rw [hreject]

theorem Measured.of_unit (unit : IndentUnit) (rest : List Char) (step : Nat) {total : UInt32}
    (h : Measured start (some unit) total (width + step) rest result)
    (htotal : total.toNat = level.toNat + 1)
    (hcontinues : Continues seen text ↔ Continues (some unit) rest)
    (hlevel : Text.level text = Text.level rest + 1)
    (hmargin : (margin text).length = (margin rest).length + step)
    (hbody : body text = body rest) :
    Measured start seen level width text result := by
  unfold Measured
  rw [hcontinues]
  refine ⟨?_, h.2⟩
  intro hrest
  rcases h.1 hrest with ⟨sum, hsum, hresult⟩
  refine ⟨sum, by omega, ?_⟩
  rw [hresult, hmargin, hbody, Nat.add_assoc, Nat.add_comm step]

theorem add32_one (level : UInt32) (h : level.toNat + 1 < 2 ^ 32) :
    ∃ total, Word.add32 level 1 = .ok total := by
  rcases Word.add32_toUInt32 h with ⟨total, htotal, -⟩
  exact ⟨total, htotal⟩

theorem measured_go (hlevel : level.toNat + text.length < 2 ^ 32)
    (hroom : start.HasRoom (width + text.length) (width + text.length)) :
    Measured start seen level width text (ofText.go start seen level width text) := by
  have hhere : start.HasRoom width width := hroom.mono (by omega) (by omega)
  fun_induction ofText.go start seen level width text with
  | case1 level width rest => exact measured_fault hhere .mixedUnits not_continues_tab
  | case4 level width rest => exact measured_fault hhere .mixedUnits not_continues_space
  | case7 seen level width rest => exact measured_fault hhere .mixedUnits not_continues_space_tab
  | case8 seen level width rest hspace htab =>
    apply measured_fault hhere .unpairedSpace
    apply not_continues_lone_space
    exact isIndent_head?_eq_false hspace htab
  | case2 seen level width rest hseen cause hadd =>
    rw [List.length_cons] at hlevel
    rcases add32_one level (by omega) with ⟨total, htotal⟩
    rw [htotal] at hadd
    contradiction
  | case5 seen level width rest hseen cause hadd =>
    rw [List.length_cons, List.length_cons] at hlevel
    rcases add32_one level (by omega) with ⟨total, htotal⟩
    rw [htotal] at hadd
    contradiction
  | case3 seen level width rest hseen total hadd ih =>
    rw [Word.add32_eq_ok_iff] at hadd
    rw [List.length_cons] at hlevel hroom
    apply Measured.of_unit .tab rest 1 _ hadd
    . exact continues_tab_iff hseen
    . unfold Text.level
      rw [margin_tab]
      simp only [List.count_cons]
      simp
      omega
    . rw [margin_tab, List.length_cons]
    . rfl
    . apply ih
      . rw [hadd]
        simp
        omega
      . exact hroom.mono (by omega) (by omega)
      . exact hroom.mono (by omega) (by omega)
  | case6 seen level width rest hseen total hadd ih =>
    rw [Word.add32_eq_ok_iff] at hadd
    rw [List.length_cons, List.length_cons] at hlevel hroom
    apply Measured.of_unit .spacePair rest 2 _ hadd
    . exact continues_spaces_iff hseen
    . unfold Text.level
      rw [margin_space, margin_space]
      simp
      omega
    . rw [margin_space, margin_space, List.length_cons, List.length_cons]
    . rfl
    . apply ih
      . rw [hadd]
        simp
        omega
      . exact hroom.mono (by omega) (by omega)
      . exact hroom.mono (by omega) (by omega)
  | case9 seen level width rest htab hspaces hspaceTab hspace =>
    have hmargin := margin_eq_nil (isIndent_head?_eq_false hspace htab)
    constructor
    . intro _
      refine ⟨level, ?_, ?_⟩
      . simp [Text.level, hmargin.1]
      . simp [hmargin]
    . intro hcontinues
      exact absurd (continues_of_margin_eq_nil hmargin.1) hcontinues

theorem measured_ofText (hroom : start.HasRoom text.length text.length) :
    Measured start none 0 0 text (ofText start text) := by
  have := hroom.column_lt
  apply measured_go
  . simp
    omega
  . simpa using hroom

theorem ofText_of_wellIndented (hroom : start.HasRoom text.length text.length)
    (h : WellIndented text) :
    ∃ level, level.toNat = Text.level text ∧
      ofText start text = .ok ⟨level, (margin text).length, body text⟩ := by
  rcases (measured_ofText hroom).1 h with ⟨level, hlevel, htext⟩
  refine ⟨level, ?_, ?_⟩
  . simpa using hlevel
  . simpa using htext

theorem ofText_of_not_wellIndented (hroom : start.HasRoom text.length text.length)
    (h : ¬ WellIndented text) :
    ∃ column message,
      ofText start text = .error (.rejected ⟨.invalidIndentation, start.line, column, message⟩) :=
  (measured_ofText hroom).2 h

theorem of_ofText_eq_ok {indentation : Indentation}
    (hroom : start.HasRoom text.length text.length) (h : ofText start text = .ok indentation) :
    WellIndented text ∧ indentation.level.toNat = Text.level text ∧
      indentation.width = (margin text).length ∧ indentation.remainder = body text := by
  by_cases hindented : WellIndented text
  . rcases ofText_of_wellIndented hroom hindented with ⟨level, hlevel, hok⟩
    rw [h, Except.ok.injEq] at hok
    rw [hok]
    exact ⟨hindented, hlevel, rfl, rfl⟩
  . rcases ofText_of_not_wellIndented hroom hindented with ⟨_, _, herror⟩
    rw [h] at herror
    contradiction

end Indentation

end Offside
