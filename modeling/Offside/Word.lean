/-!
This module contains checked addition of machine words. Lines and columns are 32 bit words and
offsets are 64 bit words; a sum that does not fit its width stops the computation.
-/

namespace Offside

inductive Overflow where
  | addition
deriving DecidableEq, Repr

def Overflow.message : Overflow → String
  | .addition => "attempt to add with overflow"

namespace Word

def add32 (lhs rhs : UInt32) : Except Overflow UInt32 :=
  if lhs.toNat + rhs.toNat < UInt32.size then
    .ok (lhs + rhs)
  else
    .error .addition

def add64 (lhs rhs : UInt64) : Except Overflow UInt64 :=
  if lhs.toNat + rhs.toNat < UInt64.size then
    .ok (lhs + rhs)
  else
    .error .addition

theorem add32_eq_ok_iff {lhs rhs sum : UInt32} :
    add32 lhs rhs = .ok sum ↔ sum.toNat = lhs.toNat + rhs.toNat := by
  have hsum := sum.toNat_lt
  simp only [add32, UInt32.size]
  split
  . rw [Except.ok.injEq, ← UInt32.toNat_inj, UInt32.toNat_add]
    omega
  . simp only [reduceCtorEq, false_iff]
    omega

theorem add64_eq_ok_iff {lhs rhs sum : UInt64} :
    add64 lhs rhs = .ok sum ↔ sum.toNat = lhs.toNat + rhs.toNat := by
  have hsum := sum.toNat_lt
  simp only [add64, UInt64.size]
  split
  . rw [Except.ok.injEq, ← UInt64.toNat_inj, UInt64.toNat_add]
    omega
  . simp only [reduceCtorEq, false_iff]
    omega

end Word

end Offside
