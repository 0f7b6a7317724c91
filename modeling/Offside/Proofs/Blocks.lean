import Mathlib.Data.List.Chain
import Offside.Proofs.Spelling

/-!
This module contains the lists of kinds that are statements and blocks: each statement ends with a
newline and each block that is opened is closed.
-/

namespace Offside

/--
Whether a list of kinds, which stands inside `depth` open blocks, is made of statements and blocks
and closes all of them.
-/
structure WellFormed (depth : Nat) (kinds : List TokenKind) : Prop where
  no_eof : .eof ∉ kinds
  /-- A run of content that is not part of a longer one is followed by a newline. -/
  run_ends : ∀ front run back, kinds = front ++ run ++ back → run ≠ [] →
    (∀ kind ∈ run, kind.isLayout = false) →
    (∀ kind ∈ front.getLast?, kind.isLayout = true) →
    (∀ kind ∈ back.head?, kind.isLayout = true) →
    back.head? = some .newline
  newline_ends : ∀ front back, kinds = front ++ .newline :: back →
    ∃ kind ∈ front.getLast?, kind.isLayout = false
  prefix_le : ∀ front, front <+: kinds → front.count .dedent ≤ depth + front.count .indent
  total_eq : kinds.count .dedent = depth + kinds.count .indent
  wellSpelled : ∀ kind ∈ kinds, kind.WellSpelled

/--
The same lists, built from their end: nothing is left to close, or a block opens, or a block ends,
or a statement stands in front.
-/
inductive Laid : Nat → List TokenKind → Prop where
  | nil : Laid 0 []
  | indent {depth : Nat} {kinds : List TokenKind} :
    Laid (depth + 1) kinds → Laid depth (.indent :: kinds)
  | dedent {depth : Nat} {kinds : List TokenKind} :
    Laid depth kinds → Laid (depth + 1) (.dedent :: kinds)
  | statement {depth : Nat} {kinds : List TokenKind} (run : List TokenKind) :
    run ≠ [] → (∀ kind ∈ run, kind.isLayout = false ∧ kind.WellSpelled) →
    Laid depth kinds → Laid depth (run ++ .newline :: kinds)

variable {depth rest : Nat} {kinds front back run : List TokenKind}

theorem WellFormed.of_append (h : WellFormed depth (front ++ back))
    (hlast : ∃ kind ∈ front.getLast?, kind.isLayout = true)
    (hcount : rest + front.count .dedent = depth + front.count .indent) :
    WellFormed rest back := by
  have getLast?_append_of_nil {before : List TokenKind} (hbefore : before ≠ []) :
      (front ++ before).getLast? = before.getLast? := by
    rw [List.getLast?_append, List.getLast?_eq_some_getLast hbefore, Option.some_or]
  constructor
  . intro hmem
    exact h.no_eof (List.mem_append_right front hmem)
  . intro before run after heq hne hrun hbefore hafter
    apply h.run_ends (front ++ before) run after (by simp [heq]) hne hrun
    . -- A run at the start of `back` stands after a layout token, so that it is not cut short.
      by_cases hnil : before = []
      . subst hnil
        rcases hlast with ⟨last, hmem, hlayout⟩
        rw [List.append_nil]
        intro kind hkind
        rw [Option.mem_unique hkind hmem]
        exact hlayout
      . rw [getLast?_append_of_nil hnil]
        exact hbefore
    . exact hafter
  . intro before after heq
    have hnewline := h.newline_ends (front ++ before) after (by simp [heq])
    by_cases hnil : before = []
    . subst hnil
      rcases hlast with ⟨last, hmem, hlayout⟩
      rcases hnewline with ⟨kind, hkind, hcontent⟩
      rw [List.append_nil] at hkind
      rw [Option.mem_unique hkind hmem, hlayout] at hcontent
      contradiction
    . rw [getLast?_append_of_nil hnil] at hnewline
      exact hnewline
  . intro before hbefore
    have := h.prefix_le (front ++ before) (List.prefix_append_right_inj front |>.2 hbefore)
    rw [List.count_append, List.count_append] at this
    omega
  . have := h.total_eq
    rw [List.count_append, List.count_append] at this
    omega
  . intro kind hmem
    exact h.wellSpelled kind (List.mem_append_right front hmem)

theorem count_eq_zero_of_content {kind : TokenKind} (hrun : ∀ kind ∈ run, kind.isLayout = false)
    (hkind : kind.isLayout = true) : run.count kind = 0 := by
  rw [List.count_eq_zero]
  intro hmem
  rw [hrun kind hmem] at hkind
  contradiction

theorem WellFormed.exists_statement (h : WellFormed depth kinds)
    (hfirst : ∃ kind ∈ kinds.head?, kind.isLayout = false) :
    ∃ run back, kinds = run ++ .newline :: back ∧ run ≠ [] ∧
      (∀ kind ∈ run, kind.isLayout = false ∧ kind.WellSpelled) ∧ WellFormed depth back := by
  have hsplit := @List.takeWhile_append_dropWhile _ (!TokenKind.isLayout ·) kinds
  have hhead := List.head?_dropWhile_not (!TokenKind.isLayout ·) kinds
  have hall := List.all_eq_true.1 (@List.all_takeWhile _ (!TokenKind.isLayout ·) kinds)
  have hne : kinds.takeWhile (!TokenKind.isLayout ·) ≠ [] := by
    rcases hfirst with ⟨kind, hkind, hcontent⟩
    rcases List.head?_eq_some_iff.1 hkind with ⟨tail, rfl⟩
    rw [List.takeWhile_cons_of_pos (by simp [hcontent])]
    apply List.cons_ne_nil
  generalize kinds.takeWhile (!TokenKind.isLayout ·) = run at hsplit hall hne
  generalize kinds.dropWhile (!TokenKind.isLayout ·) = after at hsplit hhead
  subst hsplit
  have hrun : ∀ kind ∈ run, kind.isLayout = false := by
    intro kind hmem
    simpa using hall kind hmem
  have hnewline : after.head? = some .newline := by
    apply h.run_ends [] run after rfl hne hrun
    . simp
    . intro kind hmem
      rw [hmem] at hhead
      simpa using hhead
  rcases List.head?_eq_some_iff.1 hnewline with ⟨back, rfl⟩
  refine ⟨run, back, rfl, hne, ?_, ?_⟩
  . intro kind hmem
    exact ⟨hrun kind hmem, h.wellSpelled kind (List.mem_append_left _ hmem)⟩
  . rw [List.append_cons] at h
    apply h.of_append
    . simp [TokenKind.isLayout]
    . rw [List.count_append, List.count_append, count_eq_zero_of_content hrun rfl,
        count_eq_zero_of_content hrun rfl]
      simp

theorem WellFormed.laid (h : WellFormed depth kinds) : Laid depth kinds := by
  -- The induction is on the length, since a statement takes away more than one kind.
  induction hlength : kinds.length using Nat.strongRecOn generalizing depth kinds with
  | ind length ih =>
    cases kinds with
    | nil =>
      have := h.total_eq
      rw [List.count_nil, List.count_nil] at this
      have hdepth : depth = 0 := by omega
      rw [hdepth]
      exact .nil
    | cons kind kinds =>
      rw [List.length_cons] at hlength
      cases hlayout : kind.isLayout with
      | false =>
        rcases h.exists_statement ⟨kind, rfl, hlayout⟩ with ⟨run, back, heq, hne, hrun, hback⟩
        have hlt := congrArg List.length heq
        rw [List.length_append, List.length_cons, List.length_cons] at hlt
        rw [heq]
        exact .statement run hne hrun (ih back.length (by omega) hback rfl)
      | true =>
        cases kind with
        | newline =>
          rcases h.newline_ends [] kinds rfl with ⟨kind, hmem, -⟩
          simp at hmem
        | indent =>
          apply Laid.indent
          apply ih kinds.length (by omega) _ rfl
          apply @WellFormed.of_append depth _ [.indent] _ h
          . simp [TokenKind.isLayout]
          . simp
        | dedent =>
          have hle := h.prefix_le [.dedent] (by simp)
          cases depth with
          | zero => simp at hle
          | succ depth =>
            apply Laid.dedent
            apply ih kinds.length (by omega) _ rfl
            apply @WellFormed.of_append (depth + 1) _ [.dedent] _ h
            . simp [TokenKind.isLayout]
            . simp
        | eof =>
          have := h.no_eof
          simp at this
        | _ => contradiction

def Follows (kind next : TokenKind) : Prop :=
  (kind.isLayout = false → next.isLayout = false ∨ next = .newline) ∧
    (next = .newline → kind.isLayout = false)

theorem isChain_statement {last : TokenKind} (hrun : ∀ kind ∈ run, kind.isLayout = false)
    (hlast : last.isLayout = true → run ≠ []) (hback : (.newline :: back).IsChain Follows) :
    (last :: (run ++ .newline :: back)).IsChain Follows := by
  induction run generalizing last with
  | nil =>
    have hcontent : last.isLayout = false := by
      rw [Bool.eq_false_iff]
      intro hlayout
      exact hlast hlayout rfl
    rw [List.nil_append, List.isChain_cons_cons]
    exact ⟨⟨fun _ => .inr rfl, fun _ => hcontent⟩, hback⟩
  | cons kind run ih =>
    rw [List.forall_mem_cons] at hrun
    rw [List.cons_append, List.isChain_cons_cons]
    refine ⟨⟨fun _ => .inl hrun.1, ?_⟩, ?_⟩
    . rintro rfl
      exact absurd hrun.1 (by simp [TokenKind.isLayout])
    . apply ih hrun.2
      intro hlayout
      rw [hrun.1] at hlayout
      contradiction

theorem Laid.isChain (h : Laid depth kinds) {last : TokenKind} (hlast : last.isLayout = true) :
    (last :: (kinds ++ [.indent])).IsChain Follows := by
  have follows_of_isLayout {kind next : TokenKind} (hkind : kind.isLayout = true)
      (hnext : next ≠ .newline) : Follows kind next := by
    refine ⟨?_, fun heq => absurd heq hnext⟩
    intro hcontent
    rw [hkind] at hcontent
    contradiction
  induction h generalizing last with
  | nil =>
    rw [List.nil_append, List.isChain_cons_cons]
    exact ⟨follows_of_isLayout hlast (by simp), List.isChain_singleton _⟩
  | indent _ ih =>
    rw [List.cons_append, List.isChain_cons_cons]
    exact ⟨follows_of_isLayout hlast (by simp), ih rfl⟩
  | dedent _ ih =>
    rw [List.cons_append, List.isChain_cons_cons]
    exact ⟨follows_of_isLayout hlast (by simp), ih rfl⟩
  | statement run hne hrun _ ih =>
    rw [List.append_assoc, List.cons_append]
    apply isChain_statement
    . intro kind hmem
      exact (hrun kind hmem).1
    . intro _
      exact hne
    . exact ih rfl

theorem Laid.follows_of_append (h : Laid depth kinds) {kind next : TokenKind}
    (heq : .indent :: (kinds ++ [.indent]) = front ++ kind :: next :: back) :
    Follows kind next := by
  have hchain := h.isChain (rfl : TokenKind.indent.isLayout = true)
  exact List.isChain_iff_forall_rel_of_append_cons_cons.1 hchain heq

theorem Laid.count_take_le (h : Laid depth kinds) (n : Nat) :
    (kinds.take n).count .dedent ≤ depth + (kinds.take n).count .indent := by
  induction h generalizing n with
  | nil => simp
  | indent _ ih =>
    cases n with
    | zero => simp
    | succ n =>
      have := ih n
      simp
      omega
  | dedent _ ih =>
    cases n with
    | zero => simp
    | succ n =>
      have := ih n
      simp
      omega
  | statement run _ hrun _ ih =>
    have hcontent : ∀ kind ∈ run.take n, kind.isLayout = false :=
      fun kind hmem => (hrun kind (List.mem_of_mem_take hmem)).1
    rw [List.take_append, List.count_append, List.count_append,
      count_eq_zero_of_content hcontent rfl, count_eq_zero_of_content hcontent rfl]
    cases n - run.length with
    | zero => simp
    | succ n =>
      have := ih n
      simp
      omega

theorem Laid.count_eq (h : Laid depth kinds) :
    kinds.count .dedent = depth + kinds.count .indent := by
  induction h with
  | nil => simp
  | indent _ ih =>
    simp [ih]
    omega
  | dedent _ ih =>
    simp [ih]
    omega
  | statement run _ hrun _ ih =>
    have hcontent : ∀ kind ∈ run, kind.isLayout = false := fun kind hmem => (hrun kind hmem).1
    rw [List.count_append, List.count_append, count_eq_zero_of_content hcontent rfl,
      count_eq_zero_of_content hcontent rfl]
    simp [ih]

theorem Laid.forall_mem (h : Laid depth kinds) :
    ∀ kind ∈ kinds, kind ≠ .eof ∧ kind.WellSpelled := by
  induction h with
  | nil => simp
  | indent _ ih =>
    rw [List.forall_mem_cons]
    exact ⟨⟨by simp, trivial⟩, ih⟩
  | dedent _ ih =>
    rw [List.forall_mem_cons]
    exact ⟨⟨by simp, trivial⟩, ih⟩
  | statement run _ hrun _ ih =>
    rw [List.forall_mem_append, List.forall_mem_cons]
    refine ⟨?_, ⟨by simp, trivial⟩, ih⟩
    intro kind hmem
    refine ⟨?_, (hrun kind hmem).2⟩
    rintro rfl
    exact absurd (hrun _ hmem).1 (by simp [TokenKind.isLayout])

theorem Laid.wellFormed (h : Laid depth kinds) : WellFormed depth kinds := by
  constructor
  . intro hmem
    exact (h.forall_mem _ hmem).1 rfl
  . intro front run back heq hne hrun _ hback
    rcases List.eq_nil_or_concat run with rfl | ⟨init, kind, rfl⟩
    . contradiction
    . have hkind := hrun kind (by simp)
      cases back with
      | nil =>
        have hfollows := @Laid.follows_of_append _ _ (.indent :: (front ++ init)) [] h kind .indent
          (by simp [heq])
        rcases hfollows.1 hkind with hcontent | hnewline
        . contradiction
        . contradiction
      | cons next back =>
        have hfollows := @Laid.follows_of_append _ _ (.indent :: (front ++ init))
          (back ++ [.indent]) h kind next (by simp [heq])
        rcases hfollows.1 hkind with hcontent | hnewline
        . rw [hback next rfl] at hcontent
          contradiction
        . rw [hnewline]
          rfl
  . intro front back heq
    rcases List.eq_nil_or_concat front with rfl | ⟨init, kind, rfl⟩
    . have hfollows := @Laid.follows_of_append _ _ [] (back ++ [.indent]) h .indent .newline
        (by simp [heq])
      exact absurd (hfollows.2 rfl) (by simp [TokenKind.isLayout])
    . have hfollows := @Laid.follows_of_append _ _ (.indent :: init) (back ++ [.indent]) h kind
        .newline (by simp [heq])
      exact ⟨kind, by simp, hfollows.2 rfl⟩
  . intro front hfront
    rw [List.prefix_iff_eq_take] at hfront
    rw [hfront]
    exact h.count_take_le _
  . exact h.count_eq
  . intro kind hmem
    exact (h.forall_mem kind hmem).2

theorem wellFormed_iff_laid : WellFormed depth kinds ↔ Laid depth kinds :=
  ⟨WellFormed.laid, Laid.wellFormed⟩

end Offside
