import Offside.Layout

/-!
This module contains what a line that was read tells about the steps of reading it: each of them
was successful and gave the part of the line that it is responsible for. If a line was rejected then
one of the steps rejected it, and those before were successful.
-/

namespace Offside

variable {ε ε' α β : Type}

theorem bind_eq_ok_iff {x : Except ε α} {f : α → Except ε β} {b : β} :
    x >>= f = .ok b ↔ ∃ a, x = .ok a ∧ f a = .ok b := by
  cases x with
  | error cause => simp [bind, Except.bind]
  | ok a => simp [bind, Except.bind]

theorem bind_eq_error_iff {x : Except ε α} {f : α → Except ε β} {cause : ε} :
    x >>= f = .error cause ↔ x = .error cause ∨ ∃ a, x = .ok a ∧ f a = .error cause := by
  cases x with
  | error other => simp [bind, Except.bind]
  | ok a => simp [bind, Except.bind]

theorem mapError_eq_ok_iff {x : Except ε α} {f : ε → ε'} {a : α} :
    x.mapError f = .ok a ↔ x = .ok a := by
  cases x with
  | error cause =>
    dsimp only [Except.mapError]
    simp only [reduceCtorEq]
  | ok b =>
    dsimp only [Except.mapError]
    rw [Except.ok.injEq, Except.ok.injEq]

theorem mapError_eq_error_iff {x : Except ε α} {f : ε → ε'} {cause : ε'} :
    x.mapError f = .error cause ↔ ∃ other, x = .error other ∧ f other = cause := by
  cases x with
  | error other =>
    dsimp only [Except.mapError]
    simp only [Except.error.injEq, exists_eq_left']
  | ok a =>
    dsimp only [Except.mapError]
    simp only [reduceCtorEq, false_and, exists_false]

theorem Position.line_of_advance {pos place : Position} {chars bytes : Nat}
    (h : pos.advance chars bytes = .ok place) : place.line = pos.line := by
  unfold advance at h
  rw [bind_eq_ok_iff] at h
  rcases h with ⟨column, -, h⟩
  rw [bind_eq_ok_iff] at h
  rcases h with ⟨offset, -, h⟩
  rw [← Except.ok.inj h]

namespace LayoutLine

variable {options : Options} {levels : Levels} {start stop : Position} {text : List Char}
  {layoutLine : LayoutLine}

theorem read_eq_ok (h : read options levels start stop text = .ok layoutLine) :
    ∃ indentation, Indentation.ofText start text = .ok indentation ∧
      start.advance indentation.width indentation.width = .ok layoutLine.origin ∧
      levels.enter options.singleStep indentation.level =
        .ok (layoutLine.move, layoutLine.levels) ∧
      (Scan.ofText indentation.remainder).tokens layoutLine.origin options.fileId =
        .ok layoutLine.content ∧
      layoutLine.stop = stop := by
  unfold read at h
  rw [bind_eq_ok_iff] at h
  rcases h with ⟨indentation, hindentation, h⟩
  rw [bind_eq_ok_iff] at h
  rcases h with ⟨origin, horigin, h⟩
  rw [bind_eq_ok_iff] at h
  rcases h with ⟨⟨move, after⟩, henter, h⟩
  rw [bind_eq_ok_iff] at h
  rcases h with ⟨content, hcontent, h⟩
  rw [mapError_eq_ok_iff] at horigin henter
  rw [← Except.ok.inj h]
  exact ⟨indentation, hindentation, horigin, henter, hcontent, rfl⟩

theorem read_eq_rejected {error : LexicalError}
    (h : read options levels start stop text = .error (.rejected error)) :
    Indentation.ofText start text = .error (.rejected error) ∨
      ∃ indentation origin, Indentation.ofText start text = .ok indentation ∧
        start.advance indentation.width indentation.width = .ok origin ∧
        ((∃ fault, levels.enter options.singleStep indentation.level = .error fault ∧
          error = .ofPosition fault.kind origin fault.message) ∨
        (Scan.ofText indentation.remainder).tokens origin options.fileId =
          .error (.rejected error)) := by
  unfold read at h
  rw [bind_eq_error_iff] at h
  rcases h with hindentation | ⟨indentation, hindentation, h⟩
  . exact .inl hindentation
  refine .inr ⟨indentation, ?_⟩
  rw [bind_eq_error_iff] at h
  rcases h with horigin | ⟨origin, horigin, h⟩
  . -- A place without a position rejects nothing.
    rw [mapError_eq_error_iff] at horigin
    rcases horigin with ⟨cause, -, hcause⟩
    contradiction
  rw [mapError_eq_ok_iff] at horigin
  refine ⟨origin, hindentation, horigin, ?_⟩
  rw [bind_eq_error_iff] at h
  rcases h with henter | ⟨entered, henter, h⟩
  . rw [mapError_eq_error_iff] at henter
    rcases henter with ⟨fault, henter, herror⟩
    exact .inl ⟨fault, henter, (Abort.rejected.inj herror).symm⟩
  rw [bind_eq_error_iff] at h
  rcases h with hcontent | ⟨content, hcontent, h⟩
  . exact .inr hcontent
  . contradiction

end LayoutLine

namespace Cursor

variable {options : Options} {cursor next : Cursor} {line : Line} {entry : Option LayoutLine}

theorem advance_of_pass_eq_ok (h : cursor.pass line = .ok next) :
    (⟨next.stop.line, 1, cursor.offset⟩ : Position).advance line.text.length
      (Text.byteSize line.text) = .ok next.stop := by
  unfold pass at h
  rw [bind_eq_ok_iff] at h
  rcases h with ⟨number, -, h⟩
  rw [bind_eq_ok_iff] at h
  rcases h with ⟨offset, -, h⟩
  rw [bind_eq_ok_iff] at h
  rcases h with ⟨stop, hstop, h⟩
  rw [← Except.ok.inj h]
  have hline := Position.line_of_advance hstop
  dsimp only at hline ⊢
  rw [hline]
  exact hstop

theorem step_eq_ok (h : cursor.step options line = .ok (entry, next)) :
    ∃ passed, cursor.pass line = .ok passed ∧ next.stop = passed.stop ∧
      (line.isBlank = true ∧ entry = none ∨
        ∃ layoutLine, line.isBlank = false ∧ entry = some layoutLine ∧
          LayoutLine.read options cursor.levels ⟨passed.stop.line, 1, cursor.offset⟩ passed.stop
            line.text = .ok layoutLine) := by
  unfold step at h
  rw [bind_eq_ok_iff] at h
  rcases h with ⟨passed, hpassed, h⟩
  rw [mapError_eq_ok_iff] at hpassed
  refine ⟨passed, hpassed, ?_⟩
  split at h
  next hblank =>
    rw [← (Prod.mk.inj (Except.ok.inj h)).1, ← (Prod.mk.inj (Except.ok.inj h)).2]
    exact ⟨rfl, .inl ⟨hblank, rfl⟩⟩
  next hblank =>
    dsimp only at h
    rw [bind_eq_ok_iff] at h
    rcases h with ⟨layoutLine, hread, h⟩
    rw [← (Prod.mk.inj (Except.ok.inj h)).1, ← (Prod.mk.inj (Except.ok.inj h)).2]
    exact ⟨rfl, .inr ⟨layoutLine, Bool.eq_false_iff.2 hblank, rfl, hread⟩⟩

theorem step_eq_rejected {error : LexicalError}
    (h : cursor.step options line = .error (.rejected error)) :
    line.isBlank = false ∧ ∃ passed, cursor.pass line = .ok passed ∧
      LayoutLine.read options cursor.levels ⟨passed.stop.line, 1, cursor.offset⟩ passed.stop
        line.text = .error (.rejected error) := by
  unfold step at h
  rw [bind_eq_error_iff] at h
  rcases h with hpassed | ⟨passed, hpassed, h⟩
  . rw [mapError_eq_error_iff] at hpassed
    rcases hpassed with ⟨cause, -, hcause⟩
    contradiction
  rw [mapError_eq_ok_iff] at hpassed
  split at h
  next => contradiction
  next hblank =>
    dsimp only at h
    rw [bind_eq_error_iff] at h
    rcases h with hread | ⟨layoutLine, hread, h⟩
    . exact ⟨Bool.eq_false_iff.2 hblank, passed, hpassed, hread⟩
    . contradiction

end Cursor

end Offside
