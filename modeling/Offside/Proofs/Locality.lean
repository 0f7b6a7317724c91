import Offside.Proofs.Pattern

/-!
This module contains the locality of lexemes. What follows a lexeme may be taken away, or replaced
by a text with the same first character: the lexeme stays the same, and so do those before it.
-/

namespace Offside

def Text.StartsLike (lhs rhs : List Char) : Prop :=
  ∀ c ∈ lhs.head?, c ∈ rhs.head?

namespace Text

variable {lhs rhs tail rest rest' : List Char} {accept : Char → Bool}

theorem startsLike_nil (rhs : List Char) : StartsLike [] rhs := by
  intro c hc
  contradiction

theorem startsLike_cons (c : Char) (lhs rhs : List Char) : StartsLike (c :: lhs) (c :: rhs) := by
  intro d hd
  exact hd

theorem StartsLike.append (h : StartsLike lhs rhs) (front : List Char) :
    StartsLike (front ++ lhs) (front ++ rhs) := by
  cases front with
  | nil => exact h
  | cons c front => apply startsLike_cons

theorem StartsLike.takeWhile_eq (hrest : StartsLike rest' rest)
    (h : (tail ++ rest).takeWhile accept = tail) : (tail ++ rest').takeWhile accept = tail := by
  -- A run ends where the text ends or where the next character ended it before.
  have htail : ∀ c ∈ tail, accept c = true := by
    rw [← h]
    exact List.all_eq_true.1 List.all_takeWhile
  have hstop := List.head?_dropWhile_not accept (tail ++ rest)
  rw [Lexeme.dropWhile_eq_of_takeWhile_eq h] at hstop
  apply takeWhile_append_of_head? htail
  intro c hc
  rw [hrest c hc] at hstop
  simpa using hstop

end Text

namespace Lexeme

variable {c : Char} {tail rest rest' : List Char} {lexeme : Lexeme}

theorem cutRun_of_startsLike {kind : List Char → Option TokenKind} {accept : Char → Bool}
    (h : cutRun kind accept c (tail ++ rest) = (lexeme, rest)) (htext : lexeme.text = c :: tail)
    (hrest : Text.StartsLike rest' rest) :
    cutRun kind accept c (tail ++ rest') = (lexeme, rest') := by
  unfold cutRun at h ⊢
  dsimp only at h ⊢
  rw [Prod.mk.injEq] at h
  rw [← h.1, List.cons.injEq] at htext
  have htake := hrest.takeWhile_eq htext.2
  rw [← h.1, htake, htext.2, dropWhile_eq_of_takeWhile_eq htake]

theorem cutInt_of_startsLike (h : cutInt c (tail ++ rest) = .ok (lexeme, rest))
    (htext : lexeme.text = c :: tail) (hrest : Text.StartsLike rest' rest) :
    cutInt c (tail ++ rest') = .ok (lexeme, rest') := by
  unfold cutInt at h ⊢
  dsimp only at h ⊢
  split at h
  next hlt =>
    rw [Except.ok.injEq, Prod.mk.injEq] at h
    rw [← h.1, List.cons.injEq] at htext
    have htake := hrest.takeWhile_eq htext.2
    rw [htext.2] at h hlt
    rw [htake, if_pos hlt, h.1, dropWhile_eq_of_takeWhile_eq htake]
  . contradiction

theorem cutString_of_eq_ok (h : cutString (tail ++ rest) = .ok (lexeme, rest))
    (htext : lexeme.text = '"' :: tail) (rest' : List Char) :
    cutString (tail ++ rest') = .ok (lexeme, rest') := by
  rcases kind_eq_of_cutString h with ⟨body, hbody, hquotable, hspells⟩
  have htail : tail = body.toList ++ ['"'] := by
    have hbody' : lexeme.text = ("\"" ++ body ++ "\"").toList := hspells
    rw [htext] at hbody'
    simpa using hbody'
  have hcut := @cut_string rest' body.toList hquotable
  rw [cut_quote, String.ofList_toList] at hcut
  rcases lexeme with ⟨kind, text⟩
  dsimp only at hbody htext
  rw [htail, List.append_assoc, List.singleton_append, hcut, hbody, htext, htail]

theorem cutSymbol?_of_startsLike (h : cutSymbol? (c :: (tail ++ rest)) = some (lexeme, rest))
    (htext : lexeme.text = c :: tail) (hrest : Text.StartsLike rest' rest) :
    cutSymbol? (c :: (tail ++ rest')) = some (lexeme, rest') := by
  rcases kind_eq_of_cutSymbol? h with ⟨sign, hkind, hspells⟩
  have hsign : sign.text.toList = c :: tail := hspells.symm.trans htext
  have hcut := cut_of_symbol hsign h
  rcases lexeme with ⟨kind, text⟩
  dsimp only at hkind htext
  rw [← List.cons_append, ← hsign, hkind, htext, ← hsign]
  apply cutSymbol?_of_longest
  intro other hother
  -- A longer symbol would have one more character, which was there before.
  rw [← Nat.not_lt]
  intro hlt
  rcases List.prefix_of_prefix_length_le (List.prefix_append _ _) hother (Nat.le_of_lt hlt) with
    ⟨more, hmore⟩
  have hlength := congrArg List.length hmore
  rw [List.length_append] at hlength
  have hone := sign.length_text
  have htwo := other.length_text
  rcases List.length_eq_one_iff.1 (show more.length = 1 by omega) with ⟨d, rfl⟩
  rw [← hmore, List.prefix_append_right_inj] at hother
  rcases hother with ⟨after', rfl⟩
  rcases List.head?_eq_some_iff.1 (hrest d rfl) with ⟨after, rfl⟩
  have hlonger : other.text.toList <+: c :: (tail ++ d :: after) := by
    rw [← hmore, hsign, ← List.cons_append]
    exact ⟨after, by simp⟩
  have hle := @length_le_of_cut _ _ _ _ _ (.symbol other) hcut rfl hlonger
  dsimp only at hle
  rw [htext, ← hsign] at hle
  omega

theorem cut_of_startsLike (h : cut c (tail ++ rest) = .ok (lexeme, rest))
    (htext : lexeme.text = c :: tail) (hrest : Text.StartsLike rest' rest) :
    cut c (tail ++ rest') = .ok (lexeme, rest') := by
  unfold cut at h ⊢
  split at h
  next hblank =>
    rw [if_pos hblank, cutRun_of_startsLike (Except.ok.inj h) htext hrest]
  next hblank =>
    rw [if_neg hblank]
    split at h
    next hsign => rw [if_pos hsign, cutRun_of_startsLike (Except.ok.inj h) htext hrest]
    next hsign =>
      rw [if_neg hsign]
      split at h
      next hword => rw [if_pos hword, cutRun_of_startsLike (Except.ok.inj h) htext hrest]
      next hword =>
        rw [if_neg hword]
        split at h
        next hdigit => rw [if_pos hdigit, cutInt_of_startsLike h htext hrest]
        next hdigit =>
          rw [if_neg hdigit]
          split at h
          next hquote =>
            rw [hquote] at htext
            rw [if_pos hquote, cutString_of_eq_ok h htext]
          next hquote =>
            rw [if_neg hquote]
            split at h
            next hsymbol =>
              rw [Except.ok.inj h] at hsymbol
              rw [cutSymbol?_of_startsLike hsymbol htext hrest]
            . contradiction

end Lexeme

theorem Scan.ofText_covered_append {text rest rest' : List Char}
    (htext : covered (ofText text).lexemes ++ rest = text) (hrest : Text.StartsLike rest' rest) :
    ofText (covered (ofText text).lexemes ++ rest') =
      ⟨(ofText text).lexemes ++ (ofText rest').lexemes, (ofText rest').fault⟩ := by
  induction text using ofText.induct with
  | case1 =>
    rw [ofText_nil]
    rfl
  | case2 c text fault hcut =>
    rw [ofText_cons_of_fault hcut]
    rfl
  | case3 c text lexeme left hcut ih =>
    rcases Lexeme.cut_eq_cons hcut with ⟨tail, htail, rfl⟩
    rw [ofText_cons_of_cut hcut, covered_cons, htail, List.append_assoc, List.cons_append,
      List.cons.injEq, List.append_cancel_left_eq] at htext
    have hlike := hrest.append (covered (ofText left).lexemes)
    rw [htext.2] at hlike
    rw [ofText_cons_of_cut hcut, covered_cons, htail, List.append_assoc, List.cons_append,
      ofText_cons_of_cut (Lexeme.cut_of_startsLike hcut htail hlike), ih htext.2]
    rfl

end Offside
