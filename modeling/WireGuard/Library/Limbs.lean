import WireGuard.Library.Checked
import Mathlib.Algebra.BigOperators.Group.List.Basic
import Mathlib.Data.Nat.ModEq
import Mathlib.Tactic.LinearCombination
import Mathlib.Tactic.Linarith

/-!
# Five limbs and a pseudo-Mersenne modulus

Numbers are held in five limbs of `b` bits each and reduced modulo `m` with
`m+k = 2^(5*b)`: what leaves the top limb comes back at the bottom, multiplied
by `k`. Limbs may exceed `b` bits between operations. `dot` is the sum of
products of one column, `carry` the chain that brings the columns back to
limbs; both record whether a word overflowed.
-/

set_option autoImplicit false

open Checked

@[ext] structure Limbs where
  l0 : ℕ
  l1 : ℕ
  l2 : ℕ
  l3 : ℕ
  l4 : ℕ
  deriving DecidableEq, Repr

namespace Limbs

def zero : Limbs := ⟨0,0,0,0,0⟩

def number (b : ℕ) (l : Limbs) : ℕ :=
  l.l0+2^b*(l.l1+2^b*(l.l2+2^b*(l.l3+2^b*l.l4)))

structure Below (B : ℕ) (l : Limbs) : Prop where
  l0 : l.l0 ≤ B
  l1 : l.l1 ≤ B
  l2 : l.l2 ≤ B
  l3 : l.l3 ≤ B
  l4 : l.l4 ≤ B

theorem Below.mono {A B : ℕ} {l : Limbs} (h : l.Below A) (hAB : A ≤ B) : l.Below B :=
  ⟨h.l0.trans hAB,h.l1.trans hAB,h.l2.trans hAB,h.l3.trans hAB,h.l4.trans hAB⟩

/-! ## Limb by limb -/

def sum (x y : Limbs) : Limbs := ⟨x.l0+y.l0,x.l1+y.l1,x.l2+y.l2,x.l3+y.l3,x.l4+y.l4⟩

theorem number_sum (b : ℕ) (x y : Limbs) : number b (sum x y) = number b x+number b y := by
  simp only [number,sum]
  ring

theorem Below.sum {A B : ℕ} {x y : Limbs} (hx : x.Below A) (hy : y.Below B) :
    (sum x y).Below (A+B) :=
  ⟨Nat.add_le_add hx.l0 hy.l0,Nat.add_le_add hx.l1 hy.l1,Nat.add_le_add hx.l2 hy.l2,
    Nat.add_le_add hx.l3 hy.l3,Nat.add_le_add hx.l4 hy.l4⟩

def plus (w : ℕ) (x y : Limbs) : Checked Limbs := do
  let z0 ← add w x.l0 y.l0
  let z1 ← add w x.l1 y.l1
  let z2 ← add w x.l2 y.l2
  let z3 ← add w x.l3 y.l3
  let z4 ← add w x.l4 y.l4
  pure ⟨z0,z1,z2,z3,z4⟩

theorem yields_plus {w B : ℕ} {x y : Limbs} (hs : (sum x y).Below B) (h : B < 2^w) :
    (plus w x y).Yields (· = sum x y) := by
  refine (yields_add (hs.l0.trans_lt h)).bind ?_
  rintro _ rfl
  refine (yields_add (hs.l1.trans_lt h)).bind ?_
  rintro _ rfl
  refine (yields_add (hs.l2.trans_lt h)).bind ?_
  rintro _ rfl
  refine (yields_add (hs.l3.trans_lt h)).bind ?_
  rintro _ rfl
  refine (yields_add (hs.l4.trans_lt h)).bind ?_
  rintro _ rfl
  exact .pure rfl

def minus (w : ℕ) (x y : Limbs) : Checked Limbs := do
  let z0 ← Checked.sub w x.l0 y.l0
  let z1 ← Checked.sub w x.l1 y.l1
  let z2 ← Checked.sub w x.l2 y.l2
  let z3 ← Checked.sub w x.l3 y.l3
  let z4 ← Checked.sub w x.l4 y.l4
  pure ⟨z0,z1,z2,z3,z4⟩

theorem yields_minus {w B : ℕ} {x y z : Limbs} (hs : x = sum z y) (hx : x.Below B)
    (h : B < 2^w) : (minus w x y).Yields (· = z) := by
  have lim {i j k : ℕ} (hi : i = k+j) (hB : i ≤ B) : (Checked.sub w i j).Yields (· = k) := by
    subst hi
    have := yields_sub (hB.trans_lt h) (Nat.le_add_left j k)
    rwa [Nat.add_sub_cancel] at this
  subst hs
  refine (lim rfl hx.l0).bind ?_
  rintro _ rfl
  refine (lim rfl hx.l1).bind ?_
  rintro _ rfl
  refine (lim rfl hx.l2).bind ?_
  rintro _ rfl
  refine (lim rfl hx.l3).bind ?_
  rintro _ rfl
  refine (lim rfl hx.l4).bind ?_
  rintro _ rfl
  exact .pure rfl

def cast (w : ℕ) (x : Limbs) : Checked Limbs := do
  let z0 ← narrow w x.l0
  let z1 ← narrow w x.l1
  let z2 ← narrow w x.l2
  let z3 ← narrow w x.l3
  let z4 ← narrow w x.l4
  pure ⟨z0,z1,z2,z3,z4⟩

theorem yields_cast {w A : ℕ} {x : Limbs} (hx : x.Below A) (h : A < 2^w) :
    (cast w x).Yields (· = x) := by
  refine (yields_narrow (hx.l0.trans_lt h)).bind ?_
  rintro _ rfl
  refine (yields_narrow (hx.l1.trans_lt h)).bind ?_
  rintro _ rfl
  refine (yields_narrow (hx.l2.trans_lt h)).bind ?_
  rintro _ rfl
  refine (yields_narrow (hx.l3.trans_lt h)).bind ?_
  rintro _ rfl
  refine (yields_narrow (hx.l4.trans_lt h)).bind ?_
  rintro _ rfl
  exact .pure rfl

/-! ## Columns -/

def products (w acc : ℕ) : List (ℕ × ℕ) → Checked ℕ
  | [] => pure acc
  | (x,y)::l => do
    let p ← mul w x y
    let s ← add w acc p
    products w s l

def dot (w : ℕ) : List (ℕ × ℕ) → Checked ℕ
  | [] => pure 0
  | (x,y)::l => do
    let p ← mul w x y
    products w p l

def column (l : List (ℕ × ℕ)) : ℕ := (l.map fun p => p.1*p.2).sum

theorem yields_products {w : ℕ} (l : List (ℕ × ℕ)) {acc : ℕ} (h : acc+column l < 2^w) :
    (products w acc l).Yields (· = acc+column l) := by
  induction l generalizing acc with
  | nil => exact .pure (by simp [column])
  | cons p l ih =>
    have hs : column (p::l) = p.1*p.2+column l := by simp [column]
    rw [hs] at h ⊢
    refine (yields_mul (by omega)).bind ?_
    rintro _ rfl
    refine (yields_add (by omega)).bind ?_
    rintro _ rfl
    rw [← Nat.add_assoc] at h ⊢
    exact ih h

theorem yields_dot {w : ℕ} {l : List (ℕ × ℕ)} (h : column l < 2^w) :
    (dot w l).Yields (· = column l) := by
  cases l with
  | nil => exact .pure rfl
  | cons p l =>
    have hs : column (p::l) = p.1*p.2+column l := by simp [column]
    rw [hs] at h ⊢
    refine (yields_mul (by omega)).bind ?_
    rintro _ rfl
    exact yields_products l h

/-! ## The carry chain -/

def cut (v b x : ℕ) : ℕ := x%2^v &&& (2^b-1)

theorem cut_eq {v b : ℕ} (h : b ≤ v) (x : ℕ) : cut v b x = x%2^b := by
  rw [cut,Nat.and_two_pow_sub_one_eq_mod,Nat.mod_mod_of_dvd _ (Nat.pow_dvd_pow 2 h)]

/-- Carries run from limb to limb in words of `w` bits; the carry out of the top
limb is narrowed to `v` bits, folded back with weight `k` and carried once more. -/
def carry (w v b k : ℕ) (t : Limbs) : Checked Limbs := do
  let t1 ← add w t.l1 (t.l0>>>b)
  let t2 ← add w t.l2 (t1>>>b)
  let t3 ← add w t.l3 (t2>>>b)
  let t4 ← add w t.l4 (t3>>>b)
  let c ← narrow v (t4>>>b)
  let fold ← mul v c k
  let r0 ← add v (cut v b t.l0) fold
  let r1 ← add v (cut v b t1) (r0>>>b)
  pure ⟨cut v b r0,r1,cut v b t2,cut v b t3,cut v b t4⟩

/-- Limbs after a carry: all within `b` bits except the second, which may hold
up to `E` more. -/
structure Weak (b E : ℕ) (l : Limbs) : Prop where
  l0 : l.l0 < 2^b
  l1 : l.l1 < 2^b+E
  l2 : l.l2 < 2^b
  l3 : l.l3 < 2^b
  l4 : l.l4 < 2^b

theorem Weak.below {b E : ℕ} {l : Limbs} (h : l.Weak b E) : l.Below (2^b+E) :=
  ⟨h.l0.le.trans (Nat.le_add_right _ _),h.l1.le,h.l2.le.trans (Nat.le_add_right _ _),
    h.l3.le.trans (Nat.le_add_right _ _),h.l4.le.trans (Nat.le_add_right _ _)⟩

theorem carry_number {b k m t0 t1 t2 t3 t4 u1 u2 u3 u4 r0 : ℕ} (hm : m+k = 2^(5*b))
    (h1 : u1 = t1+t0/2^b) (h2 : u2 = t2+u1/2^b) (h3 : u3 = t3+u2/2^b) (h4 : u4 = t4+u3/2^b)
    (h0 : r0 = t0%2^b+u4/2^b*k) :
    number b ⟨r0%2^b,u1%2^b+r0/2^b,u2%2^b,u3%2^b,u4%2^b⟩+m*(u4/2^b) =
      number b ⟨t0,t1,t2,t3,t4⟩ := by
  have e0 := Nat.div_add_mod t0 (2^b)
  have e1 := Nat.div_add_mod u1 (2^b)
  have e2 := Nat.div_add_mod u2 (2^b)
  have e3 := Nat.div_add_mod u3 (2^b)
  have e4 := Nat.div_add_mod u4 (2^b)
  have er := Nat.div_add_mod r0 (2^b)
  have hm' : m+k = (2^b)^5 := by rw [hm,← pow_mul,Nat.mul_comm]
  simp only [number]
  generalize 2^b = B at *
  linear_combination er+h0+e0+B*(e1+h1)+B^2*(e2+h2)+B^3*(e3+h3)+B^4*(e4+h4)+(u4/B)*hm'

theorem weak_zero (b E : ℕ) : zero.Weak b E :=
  have h := Nat.two_pow_pos b
  ⟨h,Nat.add_pos_left h E,h,h,h⟩

/-- Room for one carry chain: columns of at most `T`, a top column of at most `S`,
a carry of at most `U` into it and of at most `C` out of it. -/
structure Room (w v b k T S U C E : ℕ) : Prop where
  radix : 1 ≤ b
  word : b ≤ v
  columns : 2*T < 2^w
  top : S+U < 2^w
  last : 2*T < (U+1)*2^b
  out : S+U < (C+1)*2^b
  carried : C < 2^v
  fold : 2^b+C*k ≤ 2^v
  excess : C*k ≤ E*2^b
  second : 2^b+E ≤ 2^v

structure Columns (T S : ℕ) (t : Limbs) : Prop where
  l0 : t.l0 ≤ T
  l1 : t.l1 ≤ T
  l2 : t.l2 ≤ T
  l3 : t.l3 ≤ T
  l4 : t.l4 ≤ S

theorem halved {b x T : ℕ} (hb : 1 ≤ b) (h : x ≤ 2*T) : x/2^b ≤ T := by
  have h2 : 2^1 ≤ 2^b := Nat.pow_le_pow_right (by decide) hb
  calc x/2^b ≤ x/2 := Nat.div_le_div_left h2 (by decide)
    _ ≤ T := by omega

theorem yields_carry {w v b k m T S U C E : ℕ} {t : Limbs} (hr : Room w v b k T S U C E)
    (hm : m+k = 2^(5*b)) (ht : t.Columns T S) :
    (carry w v b k t).Yields fun r => r.Weak b E ∧ number b r ≡ number b t [MOD m] := by
  have hpos : 0 < 2^b := Nat.two_pow_pos b
  have hT := hr.columns
  simp only [carry,Nat.shiftRight_eq_div_pow,cut_eq hr.word]
  have c0 := halved hr.radix (ht.l0.trans (Nat.le_mul_of_pos_left T (by decide)))
  refine (yields_add (by have := ht.l1; omega)).bind fun u1 h1 => ?_
  have c1 := halved hr.radix (show u1 ≤ 2*T by have := ht.l1; omega)
  refine (yields_add (by have := ht.l2; omega)).bind fun u2 h2 => ?_
  have c2 := halved hr.radix (show u2 ≤ 2*T by have := ht.l2; omega)
  refine (yields_add (by have := ht.l3; omega)).bind fun u3 h3 => ?_
  have c3 : u3/2^b ≤ U := by
    refine Nat.le_of_lt_succ (Nat.div_lt_of_lt_mul ?_)
    have := ht.l3
    calc u3 ≤ 2*T := by omega
      _ < 2^b*(U+1) := by rw [Nat.mul_comm (2^b)]; exact hr.last
  have c4 : t.l4+u3/2^b ≤ S+U := Nat.add_le_add ht.l4 c3
  refine (yields_add (c4.trans_lt hr.top)).bind fun u4 h4 => ?_
  have hc : u4/2^b ≤ C := by
    refine Nat.le_of_lt_succ (Nat.div_lt_of_lt_mul ?_)
    rw [h4,Nat.mul_comm]
    exact c4.trans_lt hr.out
  have hck : u4/2^b*k ≤ C*k := Nat.mul_le_mul_right k hc
  have hfold := hr.fold
  have low0 := Nat.mod_lt t.l0 hpos
  have low1 := Nat.mod_lt u1 hpos
  refine (yields_narrow (hc.trans_lt hr.carried)).bind ?_
  rintro _ rfl
  refine (yields_mul (by omega)).bind ?_
  rintro _ rfl
  refine (yields_add (by omega)).bind fun r0 h0 => ?_
  have hr0 : r0/2^b ≤ E := by
    refine Nat.le_of_lt_succ (Nat.div_lt_of_lt_mul ?_)
    have := hr.excess
    rw [Nat.mul_comm,Nat.succ_mul]
    omega
  have hsecond := hr.second
  refine (yields_add (by omega)).bind ?_
  rintro _ rfl
  refine .pure ⟨⟨Nat.mod_lt _ hpos,?_,Nat.mod_lt _ hpos,Nat.mod_lt _ hpos,Nat.mod_lt _ hpos⟩,?_⟩
  · change u1%2^b+r0/2^b < 2^b+E
    omega
  · rw [← carry_number hm h1 h2 h3 h4 h0]
    exact (Nat.add_mul_mod_self_left _ _ _).symm

/-! ## Multiplication -/

def schoolbook (k : ℕ) (x y : Limbs) : Limbs where
  l0 := x.l0*y.l0+k*(x.l1*y.l4+x.l2*y.l3+x.l3*y.l2+x.l4*y.l1)
  l1 := x.l0*y.l1+x.l1*y.l0+k*(x.l2*y.l4+x.l3*y.l3+x.l4*y.l2)
  l2 := x.l0*y.l2+x.l1*y.l1+x.l2*y.l0+k*(x.l3*y.l4+x.l4*y.l3)
  l3 := x.l0*y.l3+x.l1*y.l2+x.l2*y.l1+x.l3*y.l0+k*(x.l4*y.l4)
  l4 := x.l0*y.l4+x.l1*y.l3+x.l2*y.l2+x.l3*y.l1+x.l4*y.l0

theorem schoolbook_number {b k m : ℕ} (hm : m+k = 2^(5*b)) (x y : Limbs) :
    number b (schoolbook k x y) ≡ number b x*number b y [MOD m] := by
  have hm' : m+k = (2^b)^5 := by rw [hm,← pow_mul,Nat.mul_comm]
  let q := x.l1*y.l4+x.l2*y.l3+x.l3*y.l2+x.l4*y.l1+
    2^b*(x.l2*y.l4+x.l3*y.l3+x.l4*y.l2)+(2^b)^2*(x.l3*y.l4+x.l4*y.l3)+(2^b)^3*(x.l4*y.l4)
  have he : number b (schoolbook k x y)+m*q = number b x*number b y := by
    simp only [number,schoolbook,q]
    generalize 2^b = B at *
    linear_combination (x.l1*y.l4+x.l2*y.l3+x.l3*y.l2+x.l4*y.l1+
      B*(x.l2*y.l4+x.l3*y.l3+x.l4*y.l2)+B^2*(x.l3*y.l4+x.l4*y.l3)+B^3*(x.l4*y.l4))*hm'
  rw [← he]
  exact (Nat.add_mul_mod_self_left _ _ _).symm

theorem schoolbook_columns {k A B : ℕ} {x y : Limbs} (hk : 1 ≤ k) (hx : x.Below A)
    (hy : y.Below B) : (schoolbook k x y).Columns (5*(k*(A*B))) (5*(A*B)) := by
  have p {i j : ℕ} (hi : i ≤ A) (hj : j ≤ B) : i*j ≤ A*B := Nat.mul_le_mul hi hj
  have f {s : ℕ} (n : ℕ) (h : s ≤ n*(A*B)) : k*s ≤ n*(k*(A*B)) := by
    rw [Nat.mul_left_comm]
    exact Nat.mul_le_mul_left k h
  have hAB : A*B ≤ k*(A*B) := Nat.le_mul_of_pos_left _ hk
  constructor
  · have low := p hx.l0 hy.l0
    have high := f 4 (show x.l1*y.l4+x.l2*y.l3+x.l3*y.l2+x.l4*y.l1 ≤ _ by
      linarith [p hx.l1 hy.l4,p hx.l2 hy.l3,p hx.l3 hy.l2,p hx.l4 hy.l1])
    simp only [schoolbook]
    omega
  · have low := Nat.add_le_add (p hx.l0 hy.l1) (p hx.l1 hy.l0)
    have high := f 3 (show x.l2*y.l4+x.l3*y.l3+x.l4*y.l2 ≤ _ by
      linarith [p hx.l2 hy.l4,p hx.l3 hy.l3,p hx.l4 hy.l2])
    simp only [schoolbook]
    omega
  · have low := Nat.add_le_add (Nat.add_le_add (p hx.l0 hy.l2) (p hx.l1 hy.l1)) (p hx.l2 hy.l0)
    have high := f 2 (show x.l3*y.l4+x.l4*y.l3 ≤ _ by linarith [p hx.l3 hy.l4,p hx.l4 hy.l3])
    simp only [schoolbook]
    omega
  · have high := f 1 (show x.l4*y.l4 ≤ _ by linarith [p hx.l4 hy.l4])
    simp only [schoolbook]
    linarith [p hx.l0 hy.l3,p hx.l1 hy.l2,p hx.l2 hy.l1,p hx.l3 hy.l0]
  · simp only [schoolbook]
    linarith [p hx.l0 hy.l4,p hx.l1 hy.l3,p hx.l2 hy.l2,p hx.l3 hy.l1,p hx.l4 hy.l0]

/-- A product in limbs: the multiples of `k` in words of `v` bits, the columns in
words of `w` bits, then the carry chain. -/
def multiply (w v b k : ℕ) (x y : Limbs) : Checked Limbs := do
  let s1 ← mul v y.l1 k
  let s2 ← mul v y.l2 k
  let s3 ← mul v y.l3 k
  let s4 ← mul v y.l4 k
  let d0 ← dot w [(x.l0,y.l0),(x.l1,s4),(x.l2,s3),(x.l3,s2),(x.l4,s1)]
  let d1 ← dot w [(x.l0,y.l1),(x.l1,y.l0),(x.l2,s4),(x.l3,s3),(x.l4,s2)]
  let d2 ← dot w [(x.l0,y.l2),(x.l1,y.l1),(x.l2,y.l0),(x.l3,s4),(x.l4,s3)]
  let d3 ← dot w [(x.l0,y.l3),(x.l1,y.l2),(x.l2,y.l1),(x.l3,y.l0),(x.l4,s4)]
  let d4 ← dot w [(x.l0,y.l4),(x.l1,y.l3),(x.l2,y.l2),(x.l3,y.l1),(x.l4,y.l0)]
  carry w v b k ⟨d0,d1,d2,d3,d4⟩

section
variable {w v b k m A B U C E : ℕ} {x y : Limbs} (hk : 1 ≤ k)
  (hr : Room w v b k (5*(k*(A*B))) (5*(A*B)) U C E)
include hr

theorem yields_column {l : List (ℕ × ℕ)} {d : ℕ} (hd : d ≤ 5*(k*(A*B))) (he : column l = d) :
    (dot w l).Yields (· = d) := by
  have := hr.columns
  subst he
  exact yields_dot (by omega)

include hk

theorem yields_folded (hm : m+k = 2^(5*b)) (hx : x.Below A) (hy : y.Below B) :
    (carry w v b k (schoolbook k x y)).Yields fun r =>
      r.Weak b E ∧ number b r ≡ number b x*number b y [MOD m] :=
  (yields_carry hr hm (schoolbook_columns hk hx hy)).mono fun _ ⟨hw,hc⟩ =>
    ⟨hw,hc.trans (schoolbook_number hm x y)⟩

/-- The product is exact whenever there is room for its columns, and it stands for
the product of the residues. -/
theorem yields_multiply (hm : m+k = 2^(5*b)) (hx : x.Below A) (hy : y.Below B)
    (hB : B*k < 2^v) :
    (multiply w v b k x y).Yields fun r =>
      r.Weak b E ∧ number b r ≡ number b x*number b y [MOD m] := by
  have hs (i : ℕ) (hi : i ≤ B) : i*k < 2^v := (Nat.mul_le_mul_right k hi).trans_lt hB
  have hcols := schoolbook_columns hk hx hy
  have hS : 5*(A*B) ≤ 5*(k*(A*B)) := Nat.mul_le_mul_left 5 (Nat.le_mul_of_pos_left _ hk)
  unfold multiply
  refine (yields_mul (hs _ hy.l1)).bind ?_
  rintro _ rfl
  refine (yields_mul (hs _ hy.l2)).bind ?_
  rintro _ rfl
  refine (yields_mul (hs _ hy.l3)).bind ?_
  rintro _ rfl
  refine (yields_mul (hs _ hy.l4)).bind ?_
  rintro _ rfl
  refine (yields_column hr hcols.l0 (by simp [column,schoolbook]; ring)).bind ?_
  rintro _ rfl
  refine (yields_column hr hcols.l1 (by simp [column,schoolbook]; ring)).bind ?_
  rintro _ rfl
  refine (yields_column hr hcols.l2 (by simp [column,schoolbook]; ring)).bind ?_
  rintro _ rfl
  refine (yields_column hr hcols.l3 (by simp [column,schoolbook]; ring)).bind ?_
  rintro _ rfl
  refine (yields_column hr (hcols.l4.trans hS) (by simp [column,schoolbook]; ring)).bind ?_
  rintro _ rfl
  exact yields_folded hk hr hm hx hy

end
end Limbs
