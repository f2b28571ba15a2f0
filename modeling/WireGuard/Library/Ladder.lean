import Mathlib.Algebra.Ring.Hom.Defs
import Mathlib.Data.Nat.Bitwise

/-!
# The Montgomery ladder on first coordinates

Two points in projective first coordinates move through the bits of a scalar
from the top. The pair is kept unswapped or swapped, and the pending exchange
is settled when the next bit is read. `a24` is the curve constant.
-/

set_option autoImplicit false

structure Ladder (F : Type*) where
  x2 : F
  z2 : F
  x3 : F
  z3 : F
  swap : Bool

namespace Ladder

variable {F : Type*}

def cswap (b : Bool) (s : Ladder F) : Ladder F :=
  if b then ⟨s.x3,s.z3,s.x2,s.z2,s.swap⟩ else s

variable [CommRing F] (a24 x1 : F)

def start : Ladder F := ⟨1,0,x1,1,false⟩

def double (s : Ladder F) : Ladder F :=
  let a := s.x2+s.z2
  let aa := a^2
  let b := s.x2-s.z2
  let bb := b^2
  let e := aa-bb
  let c := s.x3+s.z3
  let d := s.x3-s.z3
  let da := d*a
  let cb := c*b
  { x2 := aa*bb
    z2 := e*(aa+a24*e)
    x3 := (da+cb)^2
    z3 := x1*(da-cb)^2
    swap := s.swap }

def step (bit : Bool) (s : Ladder F) : Ladder F :=
  {double a24 x1 (s.cswap (s.swap ^^ bit)) with swap := bit}

/-- The bits of `k` below `t`, from the top. -/
def climb (k : ℕ) : ℕ → Ladder F → Ladder F
  | 0, s => s
  | t+1, s => climb k t (step a24 x1 (k.testBit t) s)

def run (k bits : ℕ) : Ladder F :=
  let s := climb a24 x1 k bits (start x1)
  s.cswap s.swap

section Map

variable {K : Type*} [CommRing K] (f : F →+* K)

def map (s : Ladder F) : Ladder K := ⟨f s.x2,f s.z2,f s.x3,f s.z3,s.swap⟩

theorem cswap_map (b : Bool) (s : Ladder F) : (s.cswap b).map f = (s.map f).cswap b := by
  cases b <;> rfl

theorem step_map (bit : Bool) (s : Ladder F) :
    (s.step a24 x1 bit).map f = (s.map f).step (f a24) (f x1) bit := by
  have hs : (s.map f).swap = s.swap := rfl
  rw [step,step,hs,← cswap_map]
  simp only [map,double,map_mul,map_add,map_sub,map_pow]

theorem climb_map (k t : ℕ) (s : Ladder F) :
    (s.climb a24 x1 k t).map f = (s.map f).climb (f a24) (f x1) k t := by
  induction t generalizing s with
  | zero => rfl
  | succ t ih => rw [climb,climb,ih,step_map]

theorem run_map (k bits : ℕ) :
    (run a24 x1 k bits).map f = run (f a24) (f x1) k bits := by
  have hstart : (start x1).map f = start (f x1) := by simp [start,map]
  have hrun := climb_map a24 x1 f k bits (start x1)
  rw [hstart] at hrun
  unfold run
  rw [cswap_map,← hrun]
  rfl

end Map

end Ladder
