import Mathlib.FieldTheory.Finite.Basic
import WireGuard.Library.Montgomery

/-!
# A Montgomery curve and its twist

Over the algebraic closure of a finite field every element of the field is a first
coordinate. The Frobenius map fixes the points above it or turns them round, and so
the points over the field form two groups: the rational points, and the twist. Each
element, and infinity, counts twice in the two together.
-/

set_option autoImplicit false

section Halves

variable {G I : Type*} [AddCommGroup G]

def fixedBy (φ : G →+ G) : AddSubgroup G := φ.eqLocus (AddMonoidHom.id G)

def turnedBy (φ : G →+ G) : AddSubgroup G := φ.eqLocus (-AddMonoidHom.id G)

/-- One of each pair of opposites that a map fixes or exchanges. -/
structure Signs (φ : G →+ G) (c : I → G) : Prop where
  signed : ∀ i, φ (c i) = c i ∨ φ (c i) = -c i
  apart : ∀ i j, c i = c j ∨ c i = -c j → i = j
  total : ∀ P, φ P = P ∨ φ P = -P → ∃ i, P = c i ∨ P = -c i

variable {φ : G →+ G} {c : I → G}

theorem mem_fixedBy {P : G} : P ∈ fixedBy φ ↔ φ P = P := Iff.rfl

theorem mem_turnedBy {P : G} : P ∈ turnedBy φ ↔ φ P = -P := Iff.rfl

namespace Signs

theorem union_eq (h : Signs φ c) :
    (fixedBy φ : Set G) ∪ turnedBy φ = Set.range c ∪ Set.range fun i => -c i := by
  ext P
  constructor
  · intro hP
    obtain ⟨i,rfl | rfl⟩ := h.total P hP
    · exact .inl ⟨i,rfl⟩
    · exact .inr ⟨i,rfl⟩
  · rintro (⟨i,rfl⟩ | ⟨i,rfl⟩)
    · exact h.signed i
    · exact (h.signed i).imp (fun hi => neg_mem (mem_fixedBy.mpr hi))
        fun hi => neg_mem (mem_turnedBy.mpr hi)

theorem inter_eq (h : Signs φ c) :
    (fixedBy φ : Set G) ∩ turnedBy φ = Set.range c ∩ Set.range fun i => -c i := by
  ext P
  constructor
  · rintro ⟨hf,ht⟩
    have hneg : P = -P := (mem_fixedBy.mp hf).symm.trans (mem_turnedBy.mp ht)
    obtain ⟨i,rfl | rfl⟩ := h.total P (.inl hf)
    · exact ⟨⟨i,rfl⟩,i,hneg.symm⟩
    · exact ⟨⟨i,by rw [hneg,neg_neg]⟩,i,rfl⟩
  · rintro ⟨⟨i,rfl⟩,j,hj⟩
    obtain rfl := h.apart i j (.inr hj.symm)
    have hneg : -c i = c i := hj
    rcases h.signed i with hi | hi
    · exact ⟨hi,hi.trans hneg.symm⟩
    · exact ⟨hi.trans hneg,hi⟩

theorem finite [Finite I] (h : Signs φ c) :
    (fixedBy φ : Set G).Finite ∧ (turnedBy φ : Set G).Finite := by
  have hfin := h.union_eq ▸ (Set.finite_range c).union (Set.finite_range fun i => -c i)
  exact ⟨hfin.subset Set.subset_union_left,hfin.subset Set.subset_union_right⟩

theorem card_add_card [Finite I] (h : Signs φ c) :
    Nat.card (fixedBy φ)+Nat.card (turnedBy φ) = 2*Nat.card I := by
  have hinj : Function.Injective c := fun i j hij => h.apart i j (.inl hij)
  have hneg : Function.Injective fun i => -c i := neg_injective.comp hinj
  calc Nat.card (fixedBy φ)+Nat.card (turnedBy φ)
      = ((fixedBy φ : Set G) ∪ turnedBy φ).ncard+((fixedBy φ : Set G) ∩ turnedBy φ).ncard :=
        (Set.ncard_union_add_ncard_inter _ _ h.finite.1 h.finite.2).symm
    _ = (Set.range c).ncard+(Set.range fun i => -c i).ncard := by
        rw [h.union_eq,h.inter_eq,Set.ncard_union_add_ncard_inter _ _ (Set.finite_range c)
          (Set.finite_range _)]
    _ = 2*Nat.card I := by
        rw [Set.ncard_range_of_injective hinj,Set.ncard_range_of_injective hneg,two_mul]

end Signs
end Halves

namespace Montgomery
open WeierstrassCurve.Affine

/-! ## Maps of points -/

section Map

variable {F K : Type*} [Field F] [Field K] [DecidableEq F] [DecidableEq K]

theorem exists_map (f : F →+* K) {A : F} {B : K} (h : f A = B) :
    ∃ φ : (curve A).Point →+ (curve B).Point, ∀ x y n, ∃ n',
      φ (.some x y n) = .some (f x) (f y) n' := by
  subst h
  let _ : Algebra F K := f.toAlgebra
  have hF : (curve A)⁄F = curve A := by
    change (curve A).map (algebraMap F F) = curve A
    simp [curve]
  have hK : (curve A)⁄K = curve (f A) := by
    change (curve A).map f = curve (f A)
    simp [curve,WeierstrassCurve.map]
  have key : ∃ φ : ((curve A)⁄F).Point →+ ((curve A)⁄K).Point, ∀ x y n, ∃ n',
      φ (.some x y n) = .some (f x) (f y) n' :=
    ⟨Point.map (Algebra.ofId F K),fun x y n => ⟨_,Point.map_some _ n⟩⟩
  rwa [hF,hK] at key

noncomputable def along (f : F →+* K) {A : F} {B : K} (h : f A = B) :
    (curve A).Point →+ (curve B).Point := (exists_map f h).choose

variable {f : F →+* K} {A : F} {B : K} {h : f A = B}

theorem along_some {x y : F} (n : (curve A).Nonsingular x y) :
    ∃ n', along f h (.some x y n) = .some (f x) (f y) n' :=
  (exists_map f h).choose_spec x y n

theorem along_injective : Function.Injective (along f h) := by
  rw [injective_iff_map_eq_zero]
  intro P hP
  match P with
  | .zero => rfl
  | .some x y n =>
    obtain ⟨n',hn'⟩ := along_some (h := h) n
    rw [hn'] at hP
    exact absurd hP (Point.some_ne_zero _)

end Map

/-! ## The Frobenius map -/

section Frobenius

variable {F K : Type*} [Field F] [Field K]

theorem ringChar_ne_two (h2 : (2:F) ≠ 0) : ringChar F ≠ 2 := by
  intro h
  have h0 := ringChar.Nat.cast_ringChar (R := F)
  rw [h] at h0
  exact h2 (by exact_mod_cast h0)

variable (K) in
theorem map_two_ne_zero [Algebra F K] (h2 : (2:F) ≠ 0) : (2:K) ≠ 0 := by
  rw [← map_ofNat (algebraMap F K)]
  exact (map_ne_zero _).mpr h2

variable (K) in
theorem map_sq_ne_four [Algebra F K] {A : F} (hA : A^2 ≠ 4) : algebraMap F K A^2 ≠ 4 := by
  rw [← map_ofNat (algebraMap F K) 4,← map_pow]
  exact (algebraMap F K).injective.ne hA

theorem exists_nonsingular [Algebra F K] [IsAlgClosed K] {A : F} (h2 : (2:F) ≠ 0) (hA : A^2 ≠ 4)
    (u : F) : ∃ y : K, (curve (algebraMap F K A)).Nonsingular (algebraMap F K u) y := by
  obtain ⟨y,hy⟩ := IsAlgClosed.exists_pow_nat_eq
    (algebraMap F K u^3+algebraMap F K A*algebraMap F K u^2+algebraMap F K u) two_pos
  exact ⟨y,(equation_iff_nonsingular_of_Δ_ne_zero
    (Δ_ne_zero (map_two_ne_zero K h2) (map_sq_ne_four K hA))).mp (equation_iff.mpr hy)⟩

variable [Fintype F] [Algebra F K]

open Polynomial in
theorem exists_of_pow_card {x : K} (h : x^Fintype.card F = x) : ∃ u : F, algebraMap F K u = x := by
  classical
  let f : K[X] := X^Fintype.card F-X
  have hf : f ≠ 0 := FiniteField.X_pow_card_sub_X_ne_zero K Fintype.one_lt_card
  have hroot : ∀ z : K, z ∈ f.roots.toFinset ↔ z^Fintype.card F = z := by
    intro z
    rw [Multiset.mem_toFinset,mem_roots hf,IsRoot.def,eval_sub,eval_pow,eval_X,sub_eq_zero]
  have hsub : Finset.univ.image (algebraMap F K) ⊆ f.roots.toFinset := by
    intro z hz
    obtain ⟨u,_,rfl⟩ := Finset.mem_image.mp hz
    rw [hroot,← map_pow,FiniteField.pow_card]
  have hle : f.roots.toFinset.card ≤ (Finset.univ.image (algebraMap F K)).card := by
    rw [Finset.card_image_of_injective _ (algebraMap F K).injective,Finset.card_univ,
      ← FiniteField.X_pow_card_sub_X_natDegree_eq K Fintype.one_lt_card]
    exact (Multiset.toFinset_card_le _).trans (card_roots' f)
  obtain ⟨u,_,hu⟩ := Finset.mem_image.mp (Finset.eq_of_subset_of_card_le hsub hle ▸ (hroot x).mpr h)
  exact ⟨u,hu⟩

theorem pow_card_root (h2 : (2:F) ≠ 0) {c : F} {y : K} (hy : y^2 = algebraMap F K c) :
    (IsSquare c → y^Fintype.card F = y) ∧ (¬IsSquare c → y^Fintype.card F = -y) := by
  have hchar := ringChar_ne_two h2
  have hodd := FiniteField.odd_card_of_char_ne_two hchar
  have hpow : y^Fintype.card F = y*algebraMap F K (c^(Fintype.card F/2)) := by
    rw [map_pow,← hy,← pow_mul,← pow_succ']
    congr 1
    omega
  by_cases hc : c = 0
  · have h0 : y = 0 := pow_eq_zero_iff two_ne_zero |>.mp (by rw [hy,hc,map_zero])
    rw [hpow,h0,zero_mul,neg_zero]
    exact ⟨fun _ => rfl,fun _ => rfl⟩
  · rw [hpow,FiniteField.isSquare_iff hchar hc]
    constructor
    · intro h1
      rw [h1,map_one,mul_one]
    · intro h1
      rw [(FiniteField.pow_dichotomy hchar hc).resolve_left h1,map_neg,map_one,mul_neg,mul_one]

variable [DecidableEq K] {A : F}

variable (K A) in
noncomputable def frobenius :
    (curve (algebraMap F K A)).Point →+ (curve (algebraMap F K A)).Point :=
  along (FiniteField.frobeniusAlgHom F K).toRingHom ((FiniteField.frobeniusAlgHom F K).commutes A)

theorem frobenius_some {x y : K} (n : (curve (algebraMap F K A)).Nonsingular x y) :
    ∃ n', frobenius K A (.some x y n) = .some (x^Fintype.card F) (y^Fintype.card F) n' :=
  along_some (f := (FiniteField.frobeniusAlgHom F K).toRingHom) n

theorem frobenius_over (h2 : (2:F) ≠ 0) {u : F} {y : K}
    (n : (curve (algebraMap F K A)).Nonsingular (algebraMap F K u) y) :
    (IsSquare (u^3+A*u^2+u) → frobenius K A (.some _ y n) = .some _ y n) ∧
    (¬IsSquare (u^3+A*u^2+u) → frobenius K A (.some _ y n) = -.some _ y n) := by
  obtain ⟨n',hn'⟩ := frobenius_some n
  have hy : y^2 = algebraMap F K (u^3+A*u^2+u) := by
    rw [equation_iff.mp n.1]
    simp only [map_add,map_mul,map_pow]
  have hx : algebraMap F K u^Fintype.card F = algebraMap F K u := by
    rw [← map_pow,FiniteField.pow_card]
  rw [hn',Point.neg_some]
  simp only [Point.some.injEq,hx,true_and,negY_eq]
  exact pow_card_root h2 hy

theorem exists_first_of_signed {P : (curve (algebraMap F K A)).Point}
    (hP : frobenius K A P = P ∨ frobenius K A P = -P) : ∃ u : F, first P = algebraMap F K u := by
  match P with
  | .zero => exact ⟨0,(map_zero _).symm⟩
  | .some x y n =>
    obtain ⟨n',hn'⟩ := frobenius_some n
    rw [hn'] at hP
    obtain ⟨u,hu⟩ := exists_of_pow_card (F := F) (Point.X_eq_iff.mpr hP)
    exact ⟨u,hu.symm⟩

theorem fixed_along {P : (curve A).Point} [DecidableEq F] :
    along (algebraMap F K) rfl P ∈ fixedBy (frobenius K A) := by
  match P with
  | .zero =>
    change along (algebraMap F K) rfl 0 ∈ _
    rw [map_zero]
    exact zero_mem _
  | .some x y n =>
    obtain ⟨n',hn'⟩ := along_some (f := algebraMap F K) (h := rfl) n
    obtain ⟨n'',hn''⟩ := frobenius_some n'
    rw [mem_fixedBy,hn',hn'']
    simp only [← map_pow,FiniteField.pow_card]

section Count

variable (h2 : (2:F) ≠ 0) (hA : A^2 ≠ 4)
include h2 hA

theorem exists_signs [IsAlgClosed K] :
    ∃ c : Option F → (curve (algebraMap F K A)).Point, Signs (frobenius K A) c := by
  choose y n using exists_nonsingular (K := K) h2 hA
  refine ⟨fun i => i.elim 0 fun u => .some _ (y u) (n u),?_,?_,?_⟩
  · rintro (_ | u)
    · exact .inl (map_zero _)
    · have hu := frobenius_over h2 (n u)
      exact (em _).imp hu.1 hu.2
  · rintro (_ | u) (_ | v) h
    · rfl
    · rcases h with h | h
      · exact absurd h.symm (Point.some_ne_zero _)
      · exact absurd (neg_eq_zero.mp h.symm) (Point.some_ne_zero _)
    · exact absurd (h.elim id fun h => h.trans neg_zero) (Point.some_ne_zero _)
    · have hx : algebraMap F K u = algebraMap F K v := Point.X_eq_iff.mpr h
      exact congrArg some ((algebraMap F K).injective hx)
  · intro P hP
    match P with
    | .zero => exact ⟨none,.inl rfl⟩
    | .some x z m =>
      obtain ⟨u,hu⟩ := exists_first_of_signed hP
      exact ⟨some u,Point.X_eq_iff.mp hu⟩

theorem card_add_card [IsAlgClosed K] :
    Nat.card (fixedBy (frobenius K A))+Nat.card (turnedBy (frobenius K A)) =
      2*(Fintype.card F+1) := by
  obtain ⟨c,hc⟩ := exists_signs (K := K) h2 hA
  rw [hc.card_add_card,Nat.card_eq_fintype_card,Fintype.card_option]

theorem card_pos [IsAlgClosed K] : 0 < Nat.card (fixedBy (frobenius K A)) ∧
    0 < Nat.card (turnedBy (frobenius K A)) := by
  obtain ⟨c,hc⟩ := exists_signs (K := K) h2 hA
  have _ := hc.finite.1.to_subtype
  have _ := hc.finite.2.to_subtype
  exact ⟨Nat.card_pos,Nat.card_pos⟩

end Count
end Frobenius
end Montgomery
