import Offside.Levels

/-!
This module contains the open levels as numbers. A line that is allowed to enter a level closes
exactly the levels that are not below its own, which is the innermost level from then on.
-/

namespace Offside

namespace Levels

def heights (levels : Levels) : List Nat :=
  levels.toList.map UInt32.toNat

variable {levels after : Levels} {strict : Bool} {level : UInt32} {move : Move}

@[simp]
theorem length_heights (levels : Levels) : levels.heights.length = levels.above.length + 1 := by
  simp [heights, toList]

theorem heights_eq (levels : Levels) :
    levels.heights = ((levels.above ++ [0]).reverse).map UInt32.toNat := by
  simp [heights, toList]

theorem increasing_heights (levels : Levels) : levels.heights.Pairwise (· < ·) := by
  rw [heights_eq, List.pairwise_map, List.pairwise_reverse]
  apply levels.nested.imp
  intro lhs rhs h
  exact UInt32.lt_iff_toNat_lt.1 h

theorem mem_heights {height : Nat} :
    height ∈ levels.heights ↔
      ∃ level : UInt32, level ∈ levels.above ++ [0] ∧ level.toNat = height := by
  simp [heights_eq, or_comm, eq_comm]

theorem getLast?_toList (levels : Levels) : levels.toList.getLast? = some levels.top := by
  rcases levels with ⟨above, nested⟩
  cases above with
  | nil => rfl
  | cons first above =>
    unfold toList
    rw [List.reverse_cons, ← List.cons_append, List.getLast?_concat]
    rfl

theorem getLast?_heights (levels : Levels) :
    levels.heights.getLast? = some levels.top.toNat := by
  rw [heights, List.getLast?_map, getLast?_toList]
  rfl

theorem top_mem_heights (levels : Levels) : levels.top.toNat ∈ levels.heights :=
  List.mem_of_getLast? levels.getLast?_heights

theorem le_top_of_mem_heights {height : Nat} (h : height ∈ levels.heights) :
    height ≤ levels.top.toNat := by
  rw [mem_heights] at h
  rcases h with ⟨level, hmem, rfl⟩
  exact UInt32.le_iff_toNat_le.1 (le_top_of_mem hmem)

@[simp]
theorem heights_push (h : levels.top < level) :
    (levels.push level h).heights = levels.heights ++ [level.toNat] := by
  simp [heights, toList, push]

theorem filter_le_eq {heights : List Nat} {height : Nat} (hincreasing : heights.Pairwise (· < ·))
    (hmem : height ∈ heights) :
    heights.filter (· ≤ height) = heights.filter (· < height) ++ [height] := by
  obtain ⟨front, back, rfl⟩ := List.append_of_mem hmem
  rw [List.pairwise_append, List.pairwise_cons] at hincreasing
  -- What stands before `height` is below it, and what stands after it is above it.
  have hfront (x : Nat) (hx : x ∈ front) : x < height := hincreasing.2.2 x hx height (by simp)
  have hback (x : Nat) (hx : x ∈ back) : height < x := hincreasing.2.1.1 x hx
  have hle : front.filter (· ≤ height) = front := by
    rw [List.filter_eq_self]
    intro x hx
    have := hfront x hx
    simp
    omega
  have hlt : front.filter (· < height) = front := by
    rw [List.filter_eq_self]
    intro x hx
    simpa using hfront x hx
  have hnotle : back.filter (· ≤ height) = [] := by
    rw [List.filter_eq_nil_iff]
    intro x hx
    simpa using hback x hx
  have hnotlt : back.filter (· < height) = [] := by
    rw [List.filter_eq_nil_iff]
    intro x hx
    have := hback x hx
    simp
    omega
  simp [hle, hlt, hnotle, hnotlt]

theorem dropWhile_lt_eq_filter {lhs : List UInt32} (h : lhs.Pairwise (· > ·)) (level : UInt32) :
    lhs.dropWhile (level < ·) = lhs.filter (· ≤ level) := by
  induction lhs with
  | nil => rfl
  | cons first lhs ih =>
    rw [List.pairwise_cons] at h
    rw [List.dropWhile_cons, List.filter_cons]
    by_cases hlt : level < first
    . have hle : ¬ first ≤ level := UInt32.not_le.2 hlt
      simp [hlt, hle, ih h.2]
    . have hle : first ≤ level := UInt32.not_lt.1 hlt
      simp only [hlt, hle, decide_false, decide_true]
      simp only [Bool.false_eq_true, ↓reduceIte, List.cons.injEq, true_and]
      symm
      rw [List.filter_eq_self]
      intro x hx
      simpa using UInt32.le_of_lt (UInt32.lt_of_lt_of_le (h.1 x hx) hle)

theorem heights_closeAbove (levels : Levels) (level : UInt32) :
    (levels.closeAbove level).heights = levels.heights.filter (· ≤ level.toNat) := by
  have hbase : ((0 : UInt32) ≤ level) := by
    rw [UInt32.le_iff_toNat_le]
    simp
  have habove : levels.above.Pairwise (· > ·) := (List.pairwise_append.1 levels.nested).1
  simp only [heights, toList, closeAbove]
  rw [dropWhile_lt_eq_filter habove, List.filter_map, List.filter_cons]
  have hfun : (fun height : Nat => decide (height ≤ level.toNat)) ∘ UInt32.toNat =
      fun open_ => decide (open_ ≤ level) := by
    funext open_
    simp [UInt32.le_iff_toNat_le]
  rw [hfun]
  simp [hbase, List.filter_reverse]

theorem top_closeAbove_eq_iff :
    (levels.closeAbove level).top = level ↔ level.toNat ∈ levels.heights := by
  have hlast := (levels.closeAbove level).getLast?_heights
  rw [heights_closeAbove] at hlast
  constructor
  . intro htop
    rw [htop] at hlast
    exact (List.mem_filter.1 (List.mem_of_getLast? hlast)).1
  . intro hmem
    rw [filter_le_eq levels.increasing_heights hmem] at hlast
    simp only [List.getLast?_append, List.getLast?_singleton, Option.some_or,
      Option.some.injEq] at hlast
    exact UInt32.toNat_inj.1 hlast.symm

theorem depth_sub_depth_closeAbove (levels : Levels) (level : UInt32) :
    levels.depth - (levels.closeAbove level).depth = levels.heights.countP (level.toNat < ·) := by
  have hlength := (levels.closeAbove level).length_heights
  have hsplit := List.length_eq_countP_add_countP (level.toNat < ·) (l := levels.heights)
  have hcongr : levels.heights.countP (fun height => ¬ decide (level.toNat < height) = true) =
      levels.heights.countP (· ≤ level.toNat) := by
    apply List.countP_congr
    intro height _
    simp
  rw [heights_closeAbove, ← List.countP_eq_length_filter] at hlength
  rw [length_heights, hcongr] at hsplit
  unfold depth
  omega

structure Entered (levels : Levels) (level : UInt32) (move : Move) (after : Levels) : Prop where
  heights_eq : after.heights = levels.heights.filter (· < level.toNat) ++ [level.toNat]
  move_eq :
    move =
      if level.toNat = levels.top.toNat then
        .stay
      else if levels.top.toNat < level.toNat then
        .indent
      else
        .dedent (levels.heights.countP (level.toNat < ·))

def Admits (levels : Levels) (strict : Bool) (level : UInt32) : Prop :=
  level.toNat = levels.top.toNat ∨
    (levels.top.toNat < level.toNat ∧ (strict = true → level.toNat = levels.top.toNat + 1)) ∨
    (level.toNat < levels.top.toNat ∧ level.toNat ∈ levels.heights)

theorem filter_lt_heights_of_top_lt {height : Nat} (h : levels.top.toNat < height) :
    levels.heights.filter (· < height) = levels.heights := by
  rw [List.filter_eq_self]
  intro other hmem
  have := le_top_of_mem_heights hmem
  simp
  omega

theorem filter_lt_top_append (levels : Levels) :
    levels.heights.filter (· < levels.top.toNat) ++ [levels.top.toNat] = levels.heights := by
  rw [← filter_le_eq levels.increasing_heights levels.top_mem_heights, List.filter_eq_self]
  intro height hmem
  simpa using le_top_of_mem_heights hmem

theorem one_lt_sub_iff (h : levels.top < level) :
    1 < level - levels.top ↔ level.toNat ≠ levels.top.toNat + 1 := by
  rw [UInt32.lt_iff_toNat_lt] at h
  rw [UInt32.lt_iff_toNat_lt, UInt32.toNat_sub_of_le _ _ (UInt32.le_of_lt h), UInt32.toNat_one]
  omega

theorem enter_of_admits (h : levels.Admits strict level) :
    ∃ move after, levels.enter strict level = .ok (move, after) ∧
      levels.Entered level move after := by
  unfold enter
  rcases h with htop | ⟨hlt, hstrict⟩ | ⟨hlt, hmem⟩
  . rw [UInt32.toNat_inj] at htop
    subst htop
    refine ⟨.stay, levels, ?_, ?_, ?_⟩
    . rw [if_pos rfl]
    . rw [filter_lt_top_append]
    . rw [if_pos rfl]
  . have hne : level ≠ levels.top := by
      rintro rfl
      omega
    have hlt' := UInt32.lt_iff_toNat_lt.2 hlt
    have hstep : ¬ (strict ∧ 1 < level - levels.top) := by
      rintro ⟨hstrict', hstep⟩
      exact (one_lt_sub_iff hlt').1 hstep (hstrict hstrict')
    refine ⟨.indent, levels.push level hlt', ?_, ?_, ?_⟩
    . rw [if_neg hne, dif_pos hlt', if_neg hstep]
    . rw [heights_push, filter_lt_heights_of_top_lt hlt]
    . rw [if_neg (by omega), if_pos hlt]
  . have hne : level ≠ levels.top := by
      rintro rfl
      omega
    have hlt' : ¬ levels.top < level := by
      rw [UInt32.lt_iff_toNat_lt]
      omega
    refine ⟨.dedent (levels.depth - (levels.closeAbove level).depth), levels.closeAbove level,
      ?_, ?_, ?_⟩
    . rw [if_neg hne, dif_neg hlt']
      dsimp
      rw [if_pos (top_closeAbove_eq_iff.2 hmem)]
    . rw [heights_closeAbove, filter_le_eq levels.increasing_heights hmem]
    . rw [if_neg (by omega), if_neg (by omega), depth_sub_depth_closeAbove]

theorem enter_of_not_admits (h : ¬ levels.Admits strict level) :
    ∃ fault, levels.enter strict level = .error fault ∧
      fault.kind =
        if levels.top.toNat < level.toNat then
          .invalidIndentation
        else
          .inconsistentDedent := by
  unfold Admits at h
  unfold enter
  have hne : level ≠ levels.top := by
    rintro rfl
    exact h (.inl rfl)
  rw [if_neg hne]
  by_cases hlt : levels.top < level
  . have hlt' := UInt32.lt_iff_toNat_lt.1 hlt
    have hstep : strict ∧ 1 < level - levels.top := by
      rw [one_lt_sub_iff hlt]
      refine ⟨?_, ?_⟩
      . cases strict with
        | true => rfl
        | false => exact absurd (.inr (.inl ⟨hlt', by simp⟩)) h
      . intro heq
        exact h (.inr (.inl ⟨hlt', fun _ => heq⟩))
    refine ⟨.stepTooLarge levels.top level, ?_, ?_⟩
    . rw [dif_pos hlt, if_pos hstep]
    . rw [if_pos hlt']
      rfl
  . have hlt' : ¬ levels.top.toNat < level.toNat := by rwa [← UInt32.lt_iff_toNat_lt]
    have hmem : level.toNat ∉ levels.heights := by
      intro hmem
      have : level.toNat ≠ levels.top.toNat := fun heq => hne (UInt32.toNat_inj.1 heq)
      exact h (.inr (.inr ⟨by omega, hmem⟩))
    refine ⟨.notOpen level levels.toList, ?_, ?_⟩
    . rw [dif_neg hlt]
      dsimp
      rw [if_neg (fun htop => hmem (top_closeAbove_eq_iff.1 htop))]
    . rw [if_neg hlt']
      rfl

theorem admits_of_enter_eq_ok (h : levels.enter strict level = .ok (move, after)) :
    levels.Admits strict level := by
  by_cases hadmits : levels.Admits strict level
  . exact hadmits
  . rcases enter_of_not_admits hadmits with ⟨fault, henter, -⟩
    rw [henter] at h
    contradiction

theorem entered_of_enter_eq_ok (h : levels.enter strict level = .ok (move, after)) :
    levels.Entered level move after := by
  rcases enter_of_admits (admits_of_enter_eq_ok h) with ⟨move', after', henter, hentered⟩
  rw [henter, Except.ok.injEq, Prod.mk.injEq] at h
  rcases h with ⟨rfl, rfl⟩
  exact hentered

inductive Changes (levels : Levels) (level : UInt32) : Move → Levels → Prop where
  | stay : Changes levels level .stay levels
  | indent (h : levels.top < level) : Changes levels level .indent (levels.push level h)
  | dedent :
    Changes levels level (.dedent (levels.depth - (levels.closeAbove level).depth))
      (levels.closeAbove level)

theorem changes_of_enter_eq_ok (h : levels.enter strict level = .ok (move, after)) :
    levels.Changes level move after := by
  unfold enter at h
  split at h
  . simp only [Except.ok.injEq, Prod.mk.injEq] at h
    rw [← h.1, ← h.2]
    exact .stay
  . split at h
    next hlt =>
      split at h
      . contradiction
      . simp only [Except.ok.injEq, Prod.mk.injEq] at h
        rw [← h.1, ← h.2]
        exact .indent hlt
    . dsimp only at h
      split at h
      . simp only [Except.ok.injEq, Prod.mk.injEq] at h
        rw [← h.1, ← h.2]
        exact .dedent
      . contradiction

theorem eq_of_enter_stay (h : levels.enter strict level = .ok (.stay, after)) : after = levels := by
  cases changes_of_enter_eq_ok h with
  | stay => rfl

theorem toList_of_enter_indent (h : levels.enter strict level = .ok (.indent, after)) :
    after.toList = levels.toList ++ [after.top] := by
  cases changes_of_enter_eq_ok h with
  | indent => simp [toList, push, top]

theorem length_toList (levels : Levels) : levels.toList.length = levels.depth := by
  simp [toList, depth]

theorem closeAbove_prefix (levels : Levels) (level : UInt32) :
    (levels.closeAbove level).toList <+: levels.toList := by
  unfold toList closeAbove
  rw [List.prefix_cons_inj, List.reverse_prefix]
  apply List.dropWhile_suffix

theorem toList_of_enter_dedent {closed : Nat}
    (h : levels.enter strict level = .ok (.dedent closed, after)) :
    ∃ popped, levels.toList = after.toList ++ popped ∧ popped.length = closed := by
  cases changes_of_enter_eq_ok h with
  | dedent =>
    rcases levels.closeAbove_prefix level with ⟨popped, hpopped⟩
    have hlength := congrArg List.length hpopped
    rw [List.length_append, length_toList, length_toList] at hlength
    exact ⟨popped, hpopped.symm, by omega⟩

section Contiguous

variable {depth : Nat}

theorem filter_range_lt {level bound : Nat} (h : level ≤ bound) :
    (List.range bound).filter (· < level) = List.range level := by
  induction bound with
  | zero =>
    have hzero : level = 0 := by omega
    rw [hzero]
    rfl
  | succ bound ih =>
    rw [List.range_succ, List.filter_append]
    by_cases heq : level = bound + 1
    . rw [heq, List.range_succ]
      congr 1
      . rw [List.filter_eq_self]
        intro height hmem
        have := List.mem_range.1 hmem
        simp
        omega
      . simp
    . rw [ih (by omega)]
      simp
      omega

theorem countP_range_lt (level depth : Nat) :
    (List.range (depth + 1)).countP (level < ·) = depth - level := by
  induction depth with
  | zero => simp
  | succ depth ih =>
    rw [List.range_succ, List.countP_append, ih]
    simp only [List.countP_singleton, decide_eq_true_eq]
    split <;> omega

def moveBetween (depth level : Nat) : Move :=
  if level = depth then
    .stay
  else if depth < level then
    .indent
  else
    .dedent (depth - level)

theorem top_of_heights_eq_range (hheights : levels.heights = List.range (depth + 1)) :
    levels.top.toNat = depth := by
  have hlast := levels.getLast?_heights
  rw [hheights, List.range_succ, List.getLast?_concat, Option.some.injEq] at hlast
  exact hlast.symm

theorem enter_of_heights_eq_range (hheights : levels.heights = List.range (depth + 1))
    (hlevel : level.toNat ≤ depth + 1) :
    ∃ after, levels.enter strict level = .ok (moveBetween depth level.toNat, after) ∧
      after.heights = List.range (level.toNat + 1) := by
  have htop := top_of_heights_eq_range hheights
  have hadmits : levels.Admits strict level := by
    unfold Admits
    rw [htop, hheights, List.mem_range]
    omega
  rcases enter_of_admits hadmits with ⟨move, after, henter, hentered⟩
  have hmove := hentered.move_eq
  rw [htop, hheights, countP_range_lt] at hmove
  refine ⟨after, ?_, ?_⟩
  . rw [henter, hmove]
    rfl
  . rw [hentered.heights_eq, hheights, filter_range_lt hlevel, List.range_succ]

theorem heights_eq_range_of_enter (hheights : levels.heights = List.range (depth + 1))
    (h : levels.enter true level = .ok (move, after)) :
    after.heights = List.range (level.toNat + 1) := by
  have hlevel : level.toNat ≤ depth + 1 := by
    have hadmits := admits_of_enter_eq_ok h
    unfold Admits at hadmits
    rw [top_of_heights_eq_range hheights] at hadmits
    rcases hadmits with htop | ⟨-, hstep⟩ | ⟨hlt, -⟩
    . omega
    . exact Nat.le_of_eq (hstep rfl)
    . omega
  rcases @enter_of_heights_eq_range _ true _ _ hheights hlevel with ⟨after', henter, hafter⟩
  rw [h, Except.ok.injEq, Prod.mk.injEq] at henter
  rw [henter.2, hafter]

end Contiguous

end Levels

end Offside
