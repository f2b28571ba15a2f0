import Mathlib.AlgebraicGeometry.EllipticCurve.Affine.Point
import Mathlib.FieldTheory.IsAlgClosed.Basic
import Mathlib.Tactic.FieldSimp
import WireGuard.Library.Ladder

/-!
# Montgomery curves and their ladder

The curve `y² = x³+A*x²+x` with the group of its rational points. A pair `(X,Z)`
represents a point when it is its first coordinate in projective form; the
point at infinity has `Z = 0`. Doubling and differential addition respect this
for every pair of points whose difference has a nonzero first coordinate,
without exceptions, and the ladder computes multiples.
-/

set_option autoImplicit false

open WeierstrassCurve.Affine

namespace Montgomery

variable {F : Type*} [Field F]

def curve (A : F) : WeierstrassCurve.Affine F := ⟨0,A,0,1,0⟩

variable {A : F}

theorem equation_iff {x y : F} : (curve A).Equation x y ↔ y^2 = x^3+A*x^2+x := by
  rw [WeierstrassCurve.Affine.equation_iff]
  simp [curve]

@[simp] theorem negY_eq (x y : F) : (curve A).negY x y = -y := by
  simp [negY,curve]

def first : (curve A).Point → F
  | .zero => 0
  | .some x _ _ => x

theorem Δ_ne_zero (h2 : (2:F) ≠ 0) (hA : A^2 ≠ 4) : (curve A).Δ ≠ 0 := by
  have hΔ : (curve A).Δ = 2^4*(A^2-4) := by
    simp only [WeierstrassCurve.Δ,WeierstrassCurve.b₂,WeierstrassCurve.b₄,WeierstrassCurve.b₆,
      WeierstrassCurve.b₈,curve]
    ring
  rw [hΔ]
  exact mul_ne_zero (pow_ne_zero 4 h2) (sub_ne_zero.mpr hA)

theorem exists_first [IsAlgClosed F] (h2 : (2:F) ≠ 0) (hA : A^2 ≠ 4) (x : F) :
    ∃ P : (curve A).Point, first P = x := by
  obtain ⟨y,hy⟩ := IsAlgClosed.exists_pow_nat_eq (x^3+A*x^2+x) two_pos
  have he : (curve A).Equation x y := equation_iff.mpr hy
  exact ⟨.some x y ((equation_iff_nonsingular_of_Δ_ne_zero (Δ_ne_zero h2 hA)).mp he),rfl⟩

def Represents (X Z : F) : (curve A).Point → Prop
  | .zero => X ≠ 0 ∧ Z = 0
  | .some x _ _ => Z ≠ 0 ∧ X = x*Z

theorem Represents.div {X Z : F} {P : (curve A).Point} (h : Represents X Z P) :
    X*Z⁻¹ = first P := by
  match P with
  | .zero =>
    rw [h.2,inv_zero,mul_zero]
    rfl
  | .some x _ _ =>
    rw [h.2,mul_assoc,mul_inv_cancel₀ h.1,mul_one]
    rfl

/-- Both pairs have a first coordinate of zero or stand at infinity. -/
def Degenerate (s : Ladder F) : Prop := s.x2*s.z2 = 0 ∧ s.x3*s.z3 = 0

theorem Degenerate.cswap {s : Ladder F} (h : Degenerate s) (b : Bool) :
    Degenerate (s.cswap b) := by
  cases b with
  | false => exact h
  | true => exact ⟨h.2,h.1⟩

theorem Degenerate.climb (a24 : F) (k t : ℕ) {s : Ladder F} (h : Degenerate s) :
    Degenerate (s.climb a24 0 k t) := by
  induction t generalizing s with
  | zero => exact h
  | succ t ih =>
    refine ih ?_
    have h0 := (h.cswap (s.swap ^^ k.testBit t)).1
    simp only [Ladder.step,Ladder.double,Degenerate]
    generalize s.cswap (s.swap ^^ k.testBit t) = s' at h0
    constructor
    · linear_combination (4*(s'.x2+s'.z2)^2*(s'.x2-s'.z2)^2*
        ((s'.x2+s'.z2)^2+a24*((s'.x2+s'.z2)^2-(s'.x2-s'.z2)^2)))*h0
    · ring

theorem sum_mul_difference {x₁ y₁ x₂ y₂ s d : F} (h₁ : y₁^2 = x₁^3+A*x₁^2+x₁)
    (h₂ : y₂^2 = x₂^3+A*x₂^2+x₂) (hx : x₁ ≠ x₂)
    (hs : s*(x₁-x₂)^2 = (y₁-y₂)^2-(A+x₁+x₂)*(x₁-x₂)^2)
    (hd : d*(x₁-x₂)^2 = (y₁+y₂)^2-(A+x₁+x₂)*(x₁-x₂)^2) :
    s*d*(x₁-x₂)^2 = (x₁*x₂-1)^2 := by
  have hD : (x₁-x₂)^2 ≠ 0 := pow_ne_zero 2 (sub_ne_zero.mpr hx)
  refine mul_right_cancel₀ hD ?_
  linear_combination (d*(x₁-x₂)^2)*hs+((y₁-y₂)^2-(A+x₁+x₂)*(x₁-x₂)^2)*hd+
    (y₁^2+(x₁^3+A*x₁^2+x₁)-2*y₂^2-2*(A+x₁+x₂)*(x₁-x₂)^2)*h₁+
    (y₂^2+(x₂^3+A*x₂^2+x₂)-2*(x₁^3+A*x₁^2+x₁)-2*(A+x₁+x₂)*(x₁-x₂)^2)*h₂

variable [DecidableEq F]

theorem double_first {x y : F} (h : (curve A).Nonsingular x y) (hy : y ≠ -y) :
    ∃ x' y' h',(.some x y h : (curve A).Point)+.some x y h = .some x' y' h' ∧
      x'*(4*y^2) = (x^2-1)^2 := by
  have hn : y ≠ (curve A).negY x y := by rwa [negY_eq]
  refine ⟨_,_,_,Point.add_self_of_Y_ne hn,?_⟩
  have he := equation_iff.mp h.1
  have hs : (curve A).slope x x y y*(2*y) = 3*x^2+2*A*x+1 := by
    have h2 : y-(-y) ≠ 0 := sub_ne_zero.mpr hy
    rw [slope_of_Y_ne rfl hn,negY_eq,show 2*y = y-(-y) by ring,div_mul_cancel₀ _ h2]
    simp [curve]
  rw [addX]
  simp only [curve] at hs ⊢
  generalize WeierstrassCurve.Affine.slope _ x x y y = m at *
  linear_combination (m*(2*y)+(3*x^2+2*A*x+1))*hs-4*(A+2*x)*he

theorem add_first {x₁ y₁ x₂ y₂ : F} (h₁ : (curve A).Nonsingular x₁ y₁)
    (h₂ : (curve A).Nonsingular x₂ y₂) (hx : x₁ ≠ x₂) :
    ∃ x y h,(.some x₁ y₁ h₁ : (curve A).Point)+.some x₂ y₂ h₂ = .some x y h ∧
      x*(x₁-x₂)^2 = (y₁-y₂)^2-(A+x₁+x₂)*(x₁-x₂)^2 := by
  refine ⟨_,_,_,Point.add_of_X_ne hx,?_⟩
  have hs : (curve A).slope x₁ x₂ y₁ y₂*(x₁-x₂) = y₁-y₂ := by
    rw [slope_of_X_ne hx,div_mul_cancel₀ _ (sub_ne_zero.mpr hx)]
  rw [addX]
  simp only [curve] at hs ⊢
  generalize WeierstrassCurve.Affine.slope _ x₁ x₂ y₁ y₂ = m at *
  linear_combination (m*(x₁-x₂)+(y₁-y₂))*hs

theorem sum_of_difference {x₁ y₁ x₂ y₂ x₃ y₃ : F} {h₁ : (curve A).Nonsingular x₁ y₁}
    {n₂ : (curve A).Nonsingular x₂ y₂} {n₃ : (curve A).Nonsingular x₃ y₃} (hx : x₃ ≠ x₂)
    (hd : (.some x₃ y₃ n₃ : (curve A).Point)-.some x₂ y₂ n₂ = .some x₁ y₁ h₁) :
    ∃ x y h,(.some x₂ y₂ n₂ : (curve A).Point)+.some x₃ y₃ n₃ = .some x y h ∧
      x*x₁*(x₂-x₃)^2 = (x₂*x₃-1)^2 := by
  obtain ⟨d,yd,hnd,hdif,hfd⟩ := add_first n₃ ((nonsingular_neg _ _).mpr n₂) hx
  obtain ⟨x,y,hn,hadd,hfs⟩ := add_first n₂ n₃ (Ne.symm hx)
  obtain rfl : d = x₁ := by
    rw [sub_eq_add_neg,Point.neg_some,hdif] at hd
    exact (Point.some.inj hd).1
  rw [negY_eq] at hfd
  have hfd' : d*(x₂-x₃)^2 = (y₂+y₃)^2-(A+x₂+x₃)*(x₂-x₃)^2 := by linear_combination hfd
  exact ⟨x,y,hn,hadd,sum_mul_difference (equation_iff.mp n₂.1) (equation_iff.mp n₃.1)
    (Ne.symm hx) hfs hfd'⟩

section
variable {a24 : F} (h2 : (2:F) ≠ 0) (hA : A^2 ≠ 4) (ha : 4*a24+2 = A)
include h2 hA ha

theorem Represents.double {X Z : F} {Q : (curve A).Point} (h : Represents X Z Q) :
    Represents ((X+Z)^2*(X-Z)^2)
      (((X+Z)^2-(X-Z)^2)*((X+Z)^2+a24*((X+Z)^2-(X-Z)^2))) (Q+Q) := by
  match Q with
  | .zero =>
    obtain ⟨hX,rfl⟩ := h
    refine ⟨?_,by ring⟩
    rw [add_zero,sub_zero]
    exact mul_ne_zero (pow_ne_zero 2 hX) (pow_ne_zero 2 hX)
  | .some x y hn =>
    obtain ⟨hZ,rfl⟩ := h
    have he := equation_iff.mp hn.1
    have hz : ((x*Z+Z)^2-(x*Z-Z)^2)*((x*Z+Z)^2+a24*((x*Z+Z)^2-(x*Z-Z)^2)) = Z^4*(4*y^2) := by
      rw [he]
      linear_combination (4*x^2*Z^4)*ha
    have hx : (x*Z+Z)^2*(x*Z-Z)^2 = Z^4*(x^2-1)^2 := by ring
    have hZ4 : Z^4 ≠ 0 := pow_ne_zero 4 hZ
    rw [hz,hx]
    by_cases hy : y = -y
    · -- a point of order two; its first coordinate is not one of `±1`
      have hy0 : y = 0 := by
        have : 2*y = 0 := by linear_combination hy
        exact (mul_eq_zero.mp this).resolve_left h2
      rw [Point.add_self_of_Y_eq (by rwa [negY_eq])]
      refine ⟨mul_ne_zero hZ4 (pow_ne_zero 2 fun hx1 => hA ?_),by rw [hy0]; ring⟩
      rw [hy0] at he
      linear_combination (2*x-A)*he+(4-(A-2*x)*(x+A))*hx1
    · obtain ⟨x',y',h',hsum,hf⟩ := double_first hn hy
      rw [hsum]
      have hy0 : y ≠ 0 := fun h0 => hy (by rw [h0,neg_zero])
      have h4 : (4:F) ≠ 0 := by
        rw [show (4:F) = 2*2 by norm_num]
        exact mul_ne_zero h2 h2
      refine ⟨mul_ne_zero hZ4 (mul_ne_zero h4 (pow_ne_zero 2 hy0)),?_⟩
      rw [← hf]
      ring

theorem sq_sub_one_ne_zero {x y x₁ y₁ : F} {h : (curve A).Nonsingular x y}
    {h₁ : (curve A).Nonsingular x₁ y₁} (hx : x₁ ≠ 0)
    (hd : (.some x y h : (curve A).Point)+.some x y h = .some x₁ y₁ h₁) : x^2-1 ≠ 0 := by
  have hone : Represents x 1 (.some x y h : (curve A).Point) := ⟨one_ne_zero,(mul_one _).symm⟩
  have hdbl := Represents.double h2 hA ha hone
  rw [hd] at hdbl
  intro h0
  refine mul_ne_zero hx hdbl.1 ?_
  rw [← hdbl.2]
  linear_combination (x^2-1)*h0

theorem Represents.add {X₂ Z₂ X₃ Z₃ x₁ y₁ : F} {h₁ : (curve A).Nonsingular x₁ y₁}
    {Q R : (curve A).Point} (hQ : Represents X₂ Z₂ Q) (hR : Represents X₃ Z₃ R)
    (hx : x₁ ≠ 0) (hd : R-Q = .some x₁ y₁ h₁) :
    Represents (((X₃-Z₃)*(X₂+Z₂)+(X₃+Z₃)*(X₂-Z₂))^2)
      (x₁*((X₃-Z₃)*(X₂+Z₂)-(X₃+Z₃)*(X₂-Z₂))^2) (Q+R) := by
  have hsum : (X₃-Z₃)*(X₂+Z₂)+(X₃+Z₃)*(X₂-Z₂) = 2*(X₂*X₃-Z₂*Z₃) := by ring
  have hdiff : (X₃-Z₃)*(X₂+Z₂)-(X₃+Z₃)*(X₂-Z₂) = 2*(X₃*Z₂-X₂*Z₃) := by ring
  rw [hsum,hdiff]
  match Q,R with
  | .zero,R =>
    obtain ⟨hX,rfl⟩ := hQ
    obtain rfl : R = .some x₁ y₁ h₁ := (sub_zero R).symm.trans hd
    obtain ⟨hZ,rfl⟩ := hR
    rw [show (.zero : (curve A).Point)+.some x₁ y₁ h₁ = _ from zero_add _]
    refine ⟨mul_ne_zero hx (pow_ne_zero 2 (mul_ne_zero h2 ?_)),by ring⟩
    rw [mul_zero,zero_sub]
    exact neg_ne_zero.mpr (mul_ne_zero hX hZ)
  | .some x₂ y₂ n₂,.zero =>
    obtain ⟨hX,rfl⟩ := hR
    obtain ⟨hZ,rfl⟩ := hQ
    have hneg : -(.some x₂ y₂ n₂ : (curve A).Point) = .some x₁ y₁ h₁ := (zero_sub _).symm.trans hd
    obtain rfl : x₂ = x₁ := by
      rw [Point.neg_some] at hneg
      exact (Point.some.inj hneg).1
    rw [show (.some x₂ y₂ n₂ : (curve A).Point)+.zero = _ from add_zero _]
    refine ⟨mul_ne_zero hx (pow_ne_zero 2 (mul_ne_zero h2 ?_)),by ring⟩
    rw [mul_zero,sub_zero]
    exact mul_ne_zero hX hZ
  | .some x₂ y₂ n₂,.some x₃ y₃ n₃ =>
    obtain ⟨hZ₂,rfl⟩ := hQ
    obtain ⟨hZ₃,rfl⟩ := hR
    by_cases hxx : x₃ = x₂
    · -- the difference is not zero, so the two points are opposite
      rcases Point.X_eq_iff.mp hxx with he | he
      · rw [he,sub_self] at hd
        exact absurd hd.symm (Point.some_ne_zero h₁)
      · have hdd : (.some x₃ y₃ n₃ : (curve A).Point)+.some x₃ y₃ n₃ = .some x₁ y₁ h₁ := by
          rw [← hd,sub_eq_add_neg,← he]
        have hsq := sq_sub_one_ne_zero h2 hA ha hx hdd
        rw [he,add_neg_cancel]
        subst hxx
        refine ⟨?_,by ring⟩
        have hf : 2*(x₃*Z₂*(x₃*Z₃)-Z₂*Z₃) = 2*(Z₂*Z₃*(x₃^2-1)) := by ring
        rw [hf]
        exact pow_ne_zero 2 (mul_ne_zero h2 (mul_ne_zero (mul_ne_zero hZ₂ hZ₃) hsq))
    · obtain ⟨x,y,hn,hadd,key⟩ := sum_of_difference hxx hd
      rw [hadd]
      refine ⟨mul_ne_zero hx (pow_ne_zero 2 (mul_ne_zero h2 ?_)),?_⟩
      · have hf : x₃*Z₃*Z₂-x₂*Z₂*Z₃ = (x₃-x₂)*(Z₂*Z₃) := by ring
        rw [hf]
        exact mul_ne_zero (sub_ne_zero.mpr hxx) (mul_ne_zero hZ₂ hZ₃)
      · linear_combination (-(4*Z₂^2*Z₃^2))*key

/-! ## Multiples along the ladder -/

/-- The lower point is the multiple read so far, the upper one is the next. -/
structure Spans (P : (curve A).Point) (n : ℕ) (s : Ladder F) : Prop where
  lower : Represents s.x2 s.z2 (n•P)
  upper : Represents s.x3 s.z3 ((n+1)•P)

theorem Spans.step {x₁ y₁ : F} {h₁ : (curve A).Nonsingular x₁ y₁} (hx : x₁ ≠ 0) {n : ℕ}
    {s : Ladder F} (h : Spans (.some x₁ y₁ h₁) n (s.cswap s.swap)) (bit : Bool) :
    Spans (.some x₁ y₁ h₁) (2*n+bit.toNat) ((s.step a24 x₁ bit).cswap bit) := by
  have hc : s.cswap (s.swap ^^ bit) = (s.cswap s.swap).cswap bit := by
    cases hs : s.swap <;> cases bit <;> rfl
  rw [Ladder.step,hc]
  generalize s.cswap s.swap = t at h
  generalize hP : (.some x₁ y₁ h₁ : (curve A).Point) = P at *
  cases bit with
  | false =>
    have hd : (n+1)•P-n•P = .some x₁ y₁ h₁ := by rw [hP,succ_nsmul,add_sub_cancel_left]
    have hdbl := Represents.double h2 hA ha h.lower
    have hadd := Represents.add h2 hA ha h.lower h.upper hx hd
    rw [← two_nsmul,← mul_nsmul'] at hdbl
    rw [← add_nsmul,← add_assoc,← two_mul] at hadd
    exact ⟨hdbl,hadd⟩
  | true =>
    have hd : n•P-(n+1)•P = .some x₁ _ ((nonsingular_neg _ _).mpr h₁) := by
      rw [← Point.neg_some h₁,hP,succ_nsmul,sub_add_cancel_left]
    have hdbl := Represents.double h2 hA ha h.upper
    have hadd := Represents.add h2 hA ha h.upper h.lower hx hd
    rw [← two_nsmul,← mul_nsmul'] at hdbl
    rw [← add_nsmul,add_right_comm,← two_mul] at hadd
    exact ⟨hadd,hdbl⟩

theorem Spans.climb {x₁ y₁ : F} {h₁ : (curve A).Nonsingular x₁ y₁} (hx : x₁ ≠ 0) (k t : ℕ)
    {s : Ladder F} (h : Spans (.some x₁ y₁ h₁) (k/2^t) (s.cswap s.swap)) :
    Spans (.some x₁ y₁ h₁) k
      ((s.climb a24 x₁ k t).cswap (s.climb a24 x₁ k t).swap) := by
  induction t generalizing s with
  | zero =>
    rw [pow_zero,Nat.div_one] at h
    exact h
  | succ t ih =>
    refine ih ?_
    have hk : k/2^t = 2*(k/2^(t+1))+(k.testBit t).toNat := by
      rw [Nat.toNat_testBit,pow_succ,← Nat.div_div_eq_div_mul]
      omega
    rw [hk]
    exact h.step h2 hA ha hx (k.testBit t)

end

theorem add_self_of_first_zero {P : (curve A).Point} (hP : first P = 0) : P+P = 0 := by
  match P with
  | .zero => exact add_zero _
  | .some x y h =>
    obtain rfl : x = 0 := hP
    have he := equation_iff.mp h.1
    have hy : y = 0 := by
      rw [← sq_eq_zero_iff,he]
      ring
    exact Point.add_self_of_Y_eq (by rw [negY_eq,hy,neg_zero])

theorem first_nsmul_of_zero {P : (curve A).Point} (hP : first P = 0) (k : ℕ) :
    first (k•P) = 0 := by
  rw [← Nat.div_add_mod k 2,add_nsmul,mul_nsmul,two_nsmul,add_self_of_first_zero hP,nsmul_zero,
    zero_add]
  rcases Nat.mod_two_eq_zero_or_one k with hk | hk
  · rw [hk,zero_nsmul]
    rfl
  · rw [hk,one_nsmul]
    exact hP

/-- The ladder multiplies: its quotient is the first coordinate of the multiple,
for every rational point. -/
theorem run_first {a24 : F} (h2 : (2:F) ≠ 0) (hA : A^2 ≠ 4) (ha : 4*a24+2 = A)
    (P : (curve A).Point) {k bits : ℕ} (hk : k < 2^bits) :
    (Ladder.run a24 (first P) k bits).x2*(Ladder.run a24 (first P) k bits).z2⁻¹ =
      first (k•P) := by
  by_cases h0 : first P = 0
  · rw [h0,first_nsmul_of_zero h0]
    have hs : Degenerate (Ladder.start (0:F)) := ⟨mul_zero _,zero_mul _⟩
    have hrun : Degenerate (Ladder.run a24 (0:F) k bits) := (hs.climb a24 k bits).cswap _
    rcases mul_eq_zero.mp hrun.1 with hx | hz
    · rw [hx,zero_mul]
    · rw [hz,inv_zero,mul_zero]
  · match P with
    | .zero => exact absurd rfl h0
    | .some x₁ y₁ h₁ =>
      have hstart : Spans (.some x₁ y₁ h₁ : (curve A).Point) (k/2^bits)
          ((Ladder.start x₁).cswap (Ladder.start x₁).swap) := by
        rw [Nat.div_eq_of_lt hk]
        refine ⟨?_,?_⟩
        · rw [zero_nsmul]
          exact ⟨one_ne_zero,rfl⟩
        · rw [zero_add,one_nsmul]
          exact ⟨one_ne_zero,(mul_one _).symm⟩
      exact (hstart.climb h2 hA ha h0 k bits).lower.div

/-! ## Points of small order -/

theorem four_nsmul_of_first_sq (h2 : (2:F) ≠ 0) (hA : A^2 ≠ 4) {P : (curve A).Point}
    (hP : first P^2 = 1) : 4•P = 0 := by
  have hdouble : first (P+P) = 0 := by
    match P with
    | .zero => rfl
    | .some x y h =>
      have hx : x^2 = 1 := hP
      have he := equation_iff.mp h.1
      have hy : y ≠ 0 := by
        rintro rfl
        have hs : A+2*x = 0 := by linear_combination -he-(x+A)*hx
        exact hA (by linear_combination (A-2*x)*hs+4*hx)
      have hn : y ≠ -y := fun h => hy ((mul_eq_zero_iff_left h2).mp (by linear_combination h))
      obtain ⟨x',_,_,hs,hx'⟩ := double_first h hn
      rw [hs]
      rw [hx,sub_self,zero_pow two_ne_zero] at hx'
      have h4 : (4:F) = 2*2 := by norm_num
      exact (mul_eq_zero.mp hx').resolve_right
        (mul_ne_zero (h4 ▸ mul_ne_zero h2 h2) (pow_ne_zero 2 hy))
  have hfour : 4•P = (P+P)+(P+P) := by
    rw [← two_nsmul,← two_nsmul,← mul_nsmul]
  rw [hfour,add_self_of_first_zero hdouble]

omit [DecidableEq F] in
theorem eq_or_neg_of_first_eq {P Q : (curve A).Point} (h : first P = first Q)
    (h0 : first P ≠ 0) : P = Q ∨ P = -Q := by
  match P, Q with
  | .zero, _ => exact absurd rfl h0
  | _, .zero => exact absurd h h0
  | .some x y n, .some x' y' n' => exact WeierstrassCurve.Affine.Point.X_eq_iff.mp h

omit [DecidableEq F] in
theorem first_neg (P : (curve A).Point) : first (-P) = first P := by
  match P with
  | .zero => rfl
  | .some x y n => rfl

theorem first_of_add_self (h2 : (2:F) ≠ 0) {P : (curve A).Point} (hP : P+P = 0) :
    first P = 0 ∨ first P^2+A*first P+1 = 0 := by
  match P with
  | .zero => exact .inl rfl
  | .some x y h =>
    by_cases hn : y = -y
    · have hy : y = 0 := (mul_eq_zero.mp (by linear_combination hn : (2:F)*y = 0)).resolve_left h2
      have he := equation_iff.mp h.1
      rw [hy] at he
      exact mul_eq_zero.mp (by linear_combination -he : x*(x^2+A*x+1) = 0)
    · obtain ⟨_,_,_,hs,_⟩ := double_first h hn
      rw [hs] at hP
      exact absurd hP (Point.some_ne_zero _)

theorem first_of_double_zero (h2 : (2:F) ≠ 0) {P : (curve A).Point} (hP : first (P+P) = 0) :
    first P = 0 ∨ first P^2 = 1 ∨ first P^2+A*first P+1 = 0 := by
  by_cases h0 : P+P = 0
  · exact (first_of_add_self h2 h0).imp_right .inr
  · match P with
    | .zero => exact .inl rfl
    | .some x y h =>
      have hn : y ≠ -y := fun hn => h0 (Point.add_self_of_Y_eq (by rwa [negY_eq]))
      obtain ⟨x',_,_,hs,hx'⟩ := double_first h hn
      rw [hs] at hP
      obtain rfl : x' = 0 := hP
      rw [zero_mul] at hx'
      exact .inr (.inl (sub_eq_zero.mp ((pow_eq_zero_iff two_ne_zero).mp hx'.symm)))

end Montgomery
