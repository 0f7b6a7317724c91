import Mathlib.Data.List.Basic
import Offside.Proofs.Line

/-!
This module contains how physical lines end. A line feed ends each line but the last one and stands
nowhere else, so that cutting a text into lines can be taken up again after any line feed.
-/

namespace Offside

namespace Line

def Ended (line : Line) : Prop :=
  ∃ body, '\n' ∉ body ∧ line = ofBody body ['\n']

/--
Whether `line` can come between the lines `front` and `back` of one text. Only the last line can be
without a line feed. The ending of a line takes up a carriage return that stands before it.
-/
structure Between (front : List Line) (line : Line) (back : List Line) : Prop where
  ended : ∀ other ∈ front, other.Ended
  no_feed : '\n' ∉ line.text
  ending_mem : line.ending ∈ [[], ['\r'], ['\n'], ['\r', '\n']]
  no_return : '\r' ∉ line.ending → line.text.getLast? ≠ some '\r'
  feed_or_last : '\n' ∈ line.ending ∨ back = []

variable {front back : List Line} {line : Line} {body feed text rest : List Char}

theorem between_ofBody (hfront : ∀ other ∈ front, other.Ended) (hbody : '\n' ∉ body)
    (hfeed : feed = ['\n'] ∨ (feed = [] ∧ back = [])) :
    Between front (ofBody body feed) back := by
  unfold ofBody
  split
  next hreturn =>
    obtain ⟨init, rfl⟩ := List.getLast?_eq_some_iff.1 hreturn
    rw [List.dropLast_concat]
    constructor
    . exact hfront
    . intro hmem
      exact hbody (List.mem_append_left _ hmem)
    . rcases hfeed with rfl | ⟨rfl, -⟩ <;> simp
    . simp
    . rcases hfeed with rfl | ⟨rfl, hback⟩
      . simp
      . exact .inr hback
  next hreturn =>
    constructor
    . exact hfront
    . exact hbody
    . rcases hfeed with rfl | ⟨rfl, -⟩ <;> simp
    . intro _
      exact hreturn
    . rcases hfeed with rfl | ⟨rfl, hback⟩
      . simp
      . exact .inr hback

theorem ofText_of_no_feed (hne : text ≠ []) (h : '\n' ∉ text) : ofText text = [ofBody text []] := by
  have hcut : cut text = [text] := by
    induction text with
    | nil => contradiction
    | cons c text ih =>
      rw [List.mem_cons, not_or] at h
      rw [cut, List.foldr_cons, ← cut]
      unfold extend
      rw [if_neg (Ne.symm h.1)]
      cases text with
      | nil => rfl
      | cons d text => rw [ih (List.cons_ne_nil d text) h.2]
  have hlast : text.getLast? ≠ some '\n' := fun hlast => h (List.mem_of_getLast? hlast)
  unfold ofText
  rw [hcut, List.map_singleton, ofChars, if_neg hlast]

theorem text_induction {motive : List Char → Prop} (text : List Char) (nil : motive [])
    (last : ∀ body, body ≠ [] → '\n' ∉ body → motive body)
    (feed : ∀ body rest, '\n' ∉ body → motive rest → motive (body ++ '\n' :: rest)) :
    motive text := by
  induction hlength : text.length using Nat.strongRecOn generalizing text with
  | ind length ih =>
    by_cases hfeed : '\n' ∈ text
    . obtain ⟨body, rest, rfl, hbody⟩ := List.eq_append_cons_of_mem hfeed
      rw [List.length_append, List.length_cons] at hlength
      exact feed body rest hbody (ih rest.length (by omega) rest rfl)
    . by_cases hne : text = []
      . rw [hne]
        exact nil
      . exact last text hne hfeed

theorem ofText_flatMap_append (h : ∀ other ∈ front, other.Ended) (rest : List Char) :
    ofText (front.flatMap chars ++ rest) = front ++ ofText rest := by
  induction front with
  | nil => rfl
  | cons line front ih =>
    rw [List.forall_mem_cons] at h
    rcases h.1 with ⟨body, hbody, rfl⟩
    rw [List.flatMap_cons, chars_ofBody, List.append_assoc, List.append_assoc,
      List.singleton_append, ofText_append_feed hbody, ih h.2]
    rfl

theorem ofText_flatMap_chars (h : ∀ other ∈ front, other.Ended) :
    ofText (front.flatMap chars) = front := by
  have happend := ofText_flatMap_append h []
  rw [List.append_nil] at happend
  rw [happend]
  apply List.append_nil

theorem between_of_ofText (h : ofText text = front ++ line :: back) : Between front line back := by
  -- The lines before the given one are taken off the text one by one.
  suffices hall : ∀ before, (∀ other ∈ before, other.Ended) →
      Between (before ++ front) line back by
    exact hall [] (by simp)
  induction front generalizing text with
  | nil =>
    intro before hbefore
    rw [List.append_nil]
    by_cases hfeed : '\n' ∈ text
    . obtain ⟨body, rest, rfl, hbody⟩ := List.eq_append_cons_of_mem hfeed
      rw [ofText_append_feed hbody, List.nil_append, List.cons.injEq] at h
      rw [← h.1]
      exact between_ofBody hbefore hbody (.inl rfl)
    . by_cases hne : text = []
      . subst hne
        contradiction
      . rw [ofText_of_no_feed hne hfeed, List.nil_append, List.cons.injEq] at h
        rw [← h.1]
        exact between_ofBody hbefore hfeed (.inr ⟨rfl, h.2.symm⟩)
  | cons first front ih =>
    intro before hbefore
    by_cases hfeed : '\n' ∈ text
    . obtain ⟨body, rest, rfl, hbody⟩ := List.eq_append_cons_of_mem hfeed
      rw [ofText_append_feed hbody, List.cons_append, List.cons.injEq] at h
      rw [List.append_cons]
      apply ih h.2
      intro other hmem
      rw [List.mem_append, List.mem_singleton] at hmem
      cases hmem with
      | inl hmem => exact hbefore other hmem
      | inr heq => exact ⟨body, hbody, by rw [heq, h.1]⟩
    . by_cases hne : text = []
      . subst hne
        contradiction
      . have hlength := congrArg List.length h
        rw [ofText_of_no_feed hne hfeed] at hlength
        simp at hlength

theorem exists_ofText_append_feed (init : List Char) :
    ∃ front : List Line, (∀ other ∈ front, other.Ended) ∧
      ∀ rest, ofText (init ++ '\n' :: rest) = front ++ ofText rest := by
  -- The induction is on the length, since a whole line is taken off at a time.
  induction hlength : init.length using Nat.strongRecOn generalizing init with
  | ind length ih =>
    by_cases hfeed : '\n' ∈ init
    . obtain ⟨body, tail, rfl, hbody⟩ := List.eq_append_cons_of_mem hfeed
      rw [List.length_append, List.length_cons] at hlength
      rcases ih tail.length (by omega) tail rfl with ⟨front, hfront, htail⟩
      refine ⟨ofBody body ['\n'] :: front, ?_, ?_⟩
      . rw [List.forall_mem_cons]
        exact ⟨⟨body, hbody, rfl⟩, hfront⟩
      . intro rest
        rw [List.append_assoc, List.cons_append, ofText_append_feed hbody, htail]
        rfl
    . refine ⟨[ofBody init ['\n']], ?_, ?_⟩
      . rw [List.forall_mem_singleton]
        exact ⟨init, hfeed, rfl⟩
      . intro rest
        apply ofText_append_feed hfeed

theorem ofText_append (h : text = [] ∨ text.getLast? = some '\n') :
    (∀ other ∈ ofText text, other.Ended) ∧
      ∀ rest, ofText (text ++ rest) = ofText text ++ ofText rest := by
  cases h with
  | inl hnil =>
    subst hnil
    exact ⟨by simp [ofText, cut], fun _ => rfl⟩
  | inr hlast =>
    obtain ⟨init, rfl⟩ := List.getLast?_eq_some_iff.1 hlast
    rcases exists_ofText_append_feed init with ⟨front, hfront, hrest⟩
    have hinit : ofText (init ++ ['\n']) = front := by
      rw [hrest]
      apply List.append_nil
    rw [hinit]
    refine ⟨hfront, ?_⟩
    intro rest
    rw [List.append_assoc, List.singleton_append, hrest]

end Line

/--
The number of line feeds of a text, and one more if it does not end with a line feed.
-/
def Text.lineCount (text : List Char) : Nat :=
  text.count '\n' + if text.getLast?.all (· == '\n') then 0 else 1

theorem Text.lineCount_cons (c : Char) (text : List Char) :
    lineCount (c :: text) = if c = '\n' then lineCount text + 1 else max 1 (lineCount text) := by
  unfold lineCount
  rw [List.getLast?_cons, List.count_cons]
  cases hlast : text.getLast? with
  | none =>
    rw [List.getLast?_eq_none_iff.1 hlast]
    by_cases hfeed : c = '\n'
    . simp [hfeed]
    . simp [hfeed]
  | some d =>
    simp only [Option.getD_some, Option.all_some, beq_iff_eq]
    by_cases hd : d = '\n'
    . -- The last character is a line feed, so that there is one.
      have hpos := List.count_pos_iff.2 (List.mem_of_getLast? hlast)
      rw [hd] at hpos
      simp only [hd, ↓reduceIte]
      split <;> omega
    . simp only [hd, ↓reduceIte]
      split <;> omega

namespace Line

theorem length_extend (c : Char) (pieces : List (List Char)) :
    (extend c pieces).length = if c = '\n' then pieces.length + 1 else max 1 pieces.length := by
  unfold extend
  split
  . rfl
  . cases pieces with
    | nil => rfl
    | cons piece pieces => simp

theorem length_ofText (text : List Char) : (ofText text).length = Text.lineCount text := by
  unfold ofText
  rw [List.length_map]
  induction text with
  | nil => rfl
  | cons c text ih => rw [cut, List.foldr_cons, ← cut, length_extend, ih, Text.lineCount_cons]

end Line

end Offside
