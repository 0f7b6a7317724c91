import Offside.Proofs.Levels

/-!
This module contains the open levels as the levels of earlier lines tell them. A level is open if
it is 0 or the level of a line after which no line has a smaller level.
-/

namespace Offside

/--
Whether a line of the given level is in the history, with no line of a smaller level after it.
-/
def Standing (history : List Nat) (level : Nat) : Prop :=
  ∃ before after, history = before ++ level :: after ∧ ∀ later ∈ after, level ≤ later

/--
Whether `stack` enumerates the levels that are open after a history of levels, outermost first.
-/
structure OpenAfter (history : List Nat) (stack : List Nat) : Prop where
  increasing : stack.Pairwise (· < ·)
  mem_iff : ∀ level, level ∈ stack ↔ level = 0 ∨ Standing history level

def lastLevel (history : List Nat) : Nat :=
  history.getLast?.getD 0

variable {history stack : List Nat} {level : Nat}

theorem not_standing_nil : ¬ Standing [] level := by
  rintro ⟨before, after, heq, -⟩
  simp at heq

theorem standing_append_singleton (last : Nat) :
    Standing (history ++ [last]) level ↔
      level = last ∨ (Standing history level ∧ level ≤ last) := by
  constructor
  . rintro ⟨before, after, heq, hafter⟩
    -- With nothing after it, the level is that of the new line, and otherwise it stood before.
    rcases List.eq_nil_or_concat after with rfl | ⟨front, later, rfl⟩
    . have := List.append_inj' heq rfl
      simp only [List.cons.injEq, and_true] at this
      exact .inl this.2.symm
    . rw [List.concat_eq_append] at heq hafter
      rw [← List.cons_append, ← List.append_assoc] at heq
      have := List.append_inj' heq rfl
      simp only [List.cons.injEq, and_true] at this
      refine .inr ⟨⟨before, front, this.1, ?_⟩, ?_⟩
      . intro later hmem
        exact hafter later (by simp [hmem])
      . rw [this.2]
        exact hafter later (by simp)
  . rintro (rfl | ⟨⟨before, after, rfl, hafter⟩, hle⟩)
    . exact ⟨history, [], rfl, by simp⟩
    . refine ⟨before, after ++ [last], by simp, ?_⟩
      intro later hmem
      rw [List.mem_append, List.mem_singleton] at hmem
      rcases hmem with hmem | rfl
      . exact hafter later hmem
      . exact hle

theorem openAfter_nil : OpenAfter [] [0] := by
  constructor
  . simp
  . intro level
    simp [not_standing_nil]

theorem OpenAfter.append_singleton (h : OpenAfter history stack) (last : Nat) :
    OpenAfter (history ++ [last]) (stack.filter (· < last) ++ [last]) := by
  constructor
  . rw [List.pairwise_append]
    refine ⟨h.increasing.filter _, by simp, ?_⟩
    intro level hmem other hother
    simp only [List.mem_filter, decide_eq_true_eq] at hmem
    rw [List.mem_singleton] at hother
    omega
  . intro level
    rw [List.mem_append, List.mem_filter, List.mem_singleton, h.mem_iff, decide_eq_true_eq,
      standing_append_singleton]
    constructor
    . rintro (⟨rfl | hstanding, hlt⟩ | rfl)
      . exact .inl rfl
      . exact .inr (.inr ⟨hstanding, Nat.le_of_lt hlt⟩)
      . exact .inr (.inl rfl)
    . -- The level of the new line is open in any case, also if it is 0 or stood before.
      rintro (rfl | rfl | ⟨hstanding, hle⟩)
      . cases Nat.eq_zero_or_pos last with
        | inl hzero => exact .inr hzero.symm
        | inr hpos => exact .inl ⟨.inl rfl, hpos⟩
      . exact .inr rfl
      . cases Nat.eq_or_lt_of_le hle with
        | inl heq => exact .inr heq
        | inr hlt => exact .inl ⟨.inr hstanding, hlt⟩

theorem OpenAfter.head? (h : OpenAfter history stack) : stack.head? = some 0 := by
  have hzero : 0 ∈ stack := (h.mem_iff 0).2 (.inl rfl)
  cases stack with
  | nil => simp at hzero
  | cons first stack =>
    have hincreasing := h.increasing
    rw [List.pairwise_cons] at hincreasing
    rw [List.mem_cons] at hzero
    cases hzero with
    | inl heq => simp [heq]
    | inr hmem =>
      have := hincreasing.1 0 hmem
      omega

theorem lastLevel_append_singleton (last : Nat) : lastLevel (history ++ [last]) = last := by
  simp [lastLevel]

theorem OpenAfter.lastLevel_mem (h : OpenAfter history stack) : lastLevel history ∈ stack := by
  rw [h.mem_iff]
  rcases List.eq_nil_or_concat history with rfl | ⟨front, last, rfl⟩
  . exact .inl rfl
  . rw [List.concat_eq_append, lastLevel_append_singleton, standing_append_singleton]
    exact .inr (.inl rfl)

theorem OpenAfter.le_lastLevel (h : OpenAfter history stack) (hmem : level ∈ stack) :
    level ≤ lastLevel history := by
  rw [h.mem_iff] at hmem
  rcases hmem with rfl | hstanding
  . apply Nat.zero_le
  . rcases List.eq_nil_or_concat history with rfl | ⟨front, last, rfl⟩
    . exact absurd hstanding not_standing_nil
    . rw [List.concat_eq_append, standing_append_singleton] at hstanding
      rw [List.concat_eq_append, lastLevel_append_singleton]
      rcases hstanding with rfl | ⟨-, hle⟩
      . apply Nat.le_refl
      . exact hle

def Enterable (strict : Bool) (history : List Nat) (level : Nat) : Prop :=
  level = lastLevel history ∨
    (lastLevel history < level ∧ (strict = true → level = lastLevel history + 1)) ∨
    (level < lastLevel history ∧ (level = 0 ∨ Standing history level))

namespace Levels

variable {levels after : Levels} {strict : Bool} {level : UInt32} {move : Move}

def enterAll (strict : Bool) (levels : Levels) : List UInt32 → Except LevelFault Levels
  | [] => .ok levels
  | level :: rest => do
    let (_, levels) ← levels.enter strict level
    enterAll strict levels rest

theorem top_eq_lastLevel (h : OpenAfter history levels.heights) :
    levels.top.toNat = lastLevel history := by
  apply Nat.le_antisymm
  . exact h.le_lastLevel levels.top_mem_heights
  . exact le_top_of_mem_heights h.lastLevel_mem

theorem Entered.openAfter (hentered : levels.Entered level move after)
    (h : OpenAfter history levels.heights) :
    OpenAfter (history ++ [level.toNat]) after.heights := by
  rw [hentered.heights_eq]
  exact h.append_singleton level.toNat

theorem admits_iff_enterable (h : OpenAfter history levels.heights) :
    levels.Admits strict level ↔ Enterable strict history level.toNat := by
  unfold Admits Enterable
  rw [top_eq_lastLevel h, h.mem_iff]

end Levels

end Offside
