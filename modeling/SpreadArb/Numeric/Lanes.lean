import Mathlib.Data.List.OfFn

namespace Numeric.Lanes

/-- A vector register of `n` byte lanes. -/
abbrev Register (n : Nat) := Fin n → BitVec 8

variable {n : Nat}

def set1 (b : BitVec 8) : Register n := fun _ => b

/-- The bytes in memory, one a lane. -/
def load (bytes : List (BitVec 8)) : Register n := fun j => bytes.getD j 0

def add (a b : Register n) : Register n := fun j => a j + b j

def sub (a b : Register n) : Register n := fun j => a j - b j

def and (a b : Register n) : Register n := fun j => a j &&& b j

/-- A comparison fills the lanes in which it holds with ones. -/
def cmpeq (a b : Register n) : Register n := fun j => if a j = b j then BitVec.allOnes 8 else 0

/-- The lanes are compared as signed numbers. -/
def cmpgt (a b : Register n) : Register n :=
  fun j => if (b j).slt (a j) then BitVec.allOnes 8 else 0

/-- The sign bits of the lanes, the first lane lowest. -/
def movemask (a : Register n) : BitVec n :=
  (BitVec.ofBoolListLE (List.ofFn (fun j => (a j).msb))).setWidth n

theorem getLsbD_movemask (a : Register n) (j : Fin n) : (movemask a).getLsbD j = (a j).msb := by
  rw [movemask,BitVec.getLsbD_setWidth,BitVec.getLsbD_ofBoolListLE]
  simp [List.getD]

/-- One lane that does not match is enough. -/
theorem movemask_ne_allOnes {a : Register n} {j : Fin n} (h : (a j).msb = false) :
    movemask a ≠ BitVec.allOnes n := by
  intro hmask
  have hbit := getLsbD_movemask a j
  rw [hmask,h,BitVec.getLsbD_allOnes] at hbit
  simp at hbit

end Numeric.Lanes
