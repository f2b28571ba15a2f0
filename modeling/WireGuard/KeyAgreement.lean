import WireGuard.Library.Twist
import WireGuard.LowOrder

/-!
# Which keys are refused

The curve has eight times a prime many points and its twist four times a prime, so a
clamped scalar, eight times a smaller number, takes a point to zero only if the order
of the point divides eight. A shared secret is refused for five coordinates and no
others, whatever the private key. Generated keys are none of these: two ends that
generate their keys always agree on a secret.
-/

set_option autoImplicit false

namespace WireGuard
open ByteString Checked Lucas

namespace X25519

/-! ## The two prime orders -/

def groupOrder : ℕ := 2^252+27742317777372353535851937790883648493
def twistOrder : ℕ := 2^253-55484635554744707071703875581767296995

theorem orderFactors : ∀ q ∈ [2,3,5,7,11,13,23,31,41,43,73,79,181,269,307,383,467,487,1361,2281,
    2851,3637,3911,4363,5879,8053,11351,12527,28859,30703,82163,117223,132667,137849,409477,531581,
    727169,1224481,6418733], Nat.Prime q := by
  norm_num

def pointOrders : List Order := [
  ⟨14741173,2,[2,2,3,3,409477]⟩,
  ⟨58964693,2,[2,2,14741173]⟩,
  ⟨292386187,2,[2,3,3,3,3,307,5879]⟩,
  ⟨213441916511,13,[2,5,73,292386187]⟩,
  ⟨1257559732178653,2,[2,2,3,7,23,531581,1224481]⟩,
  ⟨4434155615661930479,17,[2,41,43,1257559732178653]⟩,
  ⟨3044861653679985063343,5,[2,3,11,30703,82163,132667,137849]⟩,
  ⟨172054593956031949258510691,2,[2,5,1361,2851,4434155615661930479]⟩,
  ⟨198211423230930754013084525763697,5,[2,2,2,2,3,23,58964693,3044861653679985063343]⟩,
  ⟨19757330305831588566944191468367130476339,2,
    [2,269,213441916511,172054593956031949258510691]⟩,
  ⟨276602624281642239937218680557139826668747,2,[2,7,19757330305831588566944191468367130476339]⟩,
  ⟨groupOrder,2,[2,2,3,11,198211423230930754013084525763697,
    276602624281642239937218680557139826668747]⟩,
  ⟨743104567,6,[2,3,3,3637,11351]⟩,
  ⟨1110318119,7,[2,7,13,487,12527]⟩,
  ⟨2220636239,23,[2,1110318119]⟩,
  ⟨1013266244677,2,[2,2,3,7,383,3911,8053]⟩,
  ⟨5171003929967,5,[2,7,31,181,2281,28859]⟩,
  ⟨22561162540501040539,3,[2,3,727169,5171003929967]⟩,
  ⟨203852586375664218368381551393371968928013,2,
    [2,2,3,743104567,1013266244677,22561162540501040539]⟩,
  ⟨104719073621178708975837602950775180438320278101,2,
    [2,2,5,5,11,467,203852586375664218368381551393371968928013]⟩,
  ⟨27413359092552162435694767700453926735143482401279781,2,
    [2,2,3,5,4363,104719073621178708975837602950775180438320278101]⟩,
  ⟨twistOrder,2,[2,2,79,117223,6418733,2220636239,
    27413359092552162435694767700453926735143482401279781]⟩]

theorem orders_prime : groupOrder.Prime ∧ twistOrder.Prime := by
  have hfull : ∀ o ∈ pointOrders, o.Full 253 := by decide +kernel
  have hp := Order.prime_of_closed orderFactors hfull (by decide +kernel)
  exact ⟨hp _ (by simp [pointOrders]),hp _ (by simp [pointOrders])⟩

theorem nsmul_eq_zero_of_prime {G : Type*} [AddCommGroup G] {P : G} {c q k : ℕ} (hq : q.Prime)
    (hcard : (c*q)•P = 0) (hk : k•P = 0) (hqk : ¬q ∣ k) : c•P = 0 := by
  rw [← addOrderOf_dvd_iff_nsmul_eq_zero] at *
  have hco : Nat.Coprime (addOrderOf P) q :=
    Nat.Coprime.coprime_dvd_left hk ((hq.coprime_iff_not_dvd).mpr hqk).symm
  exact hco.dvd_of_dvd_mul_right hcard

/-! ## The base point -/

theorem first_groupOrder : Montgomery.first (groupOrder•base) = 0 := by
  have hz : (Ladder.run (121665 : Fp) 9 groupOrder 253).z2 = 0 := by decide +kernel
  have hrun := Montgomery.run_first two_ne_zero curveA_sq a24_eq base
    (show groupOrder < 2^253 by decide)
  rw [← hrun]
  exact mul_eq_zero_of_right _ (by rw [show Montgomery.first base = 9 from rfl,hz,inv_zero])

theorem add_self_nsmul {F : Type*} [Field F] [DecidableEq F] {A : F}
    {P : (Montgomery.curve A).Point} {k : ℕ} (h : Montgomery.first (k•P) = 0) : (2*k)•P = 0 := by
  rw [mul_comm,mul_nsmul,two_nsmul]
  exact Montgomery.add_self_of_first_zero h

theorem two_nsmul_base : 2•base ≠ 0 := by
  have hy : (baseY : Fp) ≠ -baseY := by
    intro h
    have h2 : ((2*baseY : ℕ) : Fp) = (0 : ℕ) := by
      push_cast
      linear_combination h
    exact cast_ne (by decide) h2
  obtain ⟨_,_,_,hs,_⟩ := Montgomery.double_first base_nonsingular hy
  rw [two_nsmul,base,hs]
  exact WeierstrassCurve.Affine.Point.some_ne_zero _

theorem groupOrder_dvd : groupOrder ∣ addOrderOf base := by
  by_contra h
  exact two_nsmul_base (nsmul_eq_zero_of_prime orders_prime.1 (add_self_nsmul first_groupOrder)
    (addOrderOf_nsmul_eq_zero base) h)

theorem first_nsmul_base {k : ℕ} (hk : ¬groupOrder ∣ k) : Montgomery.first (k•base) ≠ 0 := by
  intro h0
  have hdvd := groupOrder_dvd.trans (addOrderOf_dvd_iff_nsmul_eq_zero.mpr (add_self_nsmul h0))
  exact hk ((orders_prime.1.dvd_mul.mp hdvd).resolve_left (by decide))

/-! ## The points over the field -/

abbrev Closure := AlgebraicClosure Fp

noncomputable instance closureDecidableEq : DecidableEq Closure := Classical.decEq _

theorem order_dvd_card (P : Point) :
    addOrderOf P ∣ Nat.card (fixedBy (Montgomery.frobenius Closure curveA)) := by
  let Q : fixedBy (Montgomery.frobenius Closure curveA) := ⟨_,Montgomery.fixed_along (P := P)⟩
  have hQ : addOrderOf Q = addOrderOf P := by
    rw [← AddSubgroup.addOrderOf_coe]
    exact addOrderOf_injective _ Montgomery.along_injective P
  exact hQ ▸ addOrderOf_dvd_natCard Q

theorem exists_order_eight : ∃ P : Point, addOrderOf P = 8 := by
  rcases lowOrder_eighths.1 with h | h | h | ⟨P,hP,_⟩
  · exact absurd (h.trans Nat.cast_zero.symm) (cast_ne (by decide))
  · exact absurd (h.trans Nat.cast_one.symm) (cast_ne (by decide))
  · rw [eq_neg_iff_add_eq_zero,← Nat.cast_succ,← Nat.cast_zero] at h
    exact absurd h (cast_ne (by decide))
  · exact ⟨P,hP⟩

theorem card_field : Fintype.card Fp = fieldPrime := ZMod.card fieldPrime

theorem cards : Nat.card (fixedBy (Montgomery.frobenius Closure curveA)) = 8*groupOrder ∧
    Nat.card (turnedBy (Montgomery.frobenius Closure curveA)) = 4*twistOrder := by
  have hsum := Montgomery.card_add_card (K := Closure) two_ne_zero curveA_sq
  obtain ⟨hf,ht⟩ := Montgomery.card_pos (K := Closure) two_ne_zero curveA_sq
  obtain ⟨P,hP⟩ := exists_order_eight
  have hco : Nat.Coprime 8 groupOrder := by decide
  obtain ⟨c,hc⟩ := hco.mul_dvd_of_dvd_of_dvd (hP ▸ order_dvd_card P)
    (groupOrder_dvd.trans (order_dvd_card base))
  have htotal : 2*(fieldPrime+1) = 8*groupOrder+4*twistOrder := by decide
  -- a second copy of the group would need more points than there are
  have hroom : 2*(fieldPrime+1) < 8*groupOrder*2 := by decide
  rw [card_field,hc] at hsum
  rw [hc] at hf
  have hc1 : c < 2 := Nat.lt_of_mul_lt_mul_left (a := 8*groupOrder) (by omega)
  have hc0 : 0 < c := Nat.pos_of_mul_pos_left hf
  obtain rfl : c = 1 := by omega
  exact ⟨by rw [hc,mul_one],by omega⟩

abbrev ClosedPoint := (Montgomery.curve (algebraMap Fp Closure curveA)).Point

theorem card_nsmul {H : AddSubgroup ClosedPoint} {P : ClosedPoint} (hP : P ∈ H) :
    Nat.card H•P = 0 :=
  congrArg Subtype.val (card_nsmul_eq_zero' (x := (⟨P,hP⟩ : H)))

theorem card_nsmul_point (P : Point) : (8*groupOrder)•P = 0 :=
  addOrderOf_dvd_iff_nsmul_eq_zero.mp (cards.1 ▸ order_dvd_card P)

/-! ## Clamped scalars -/

theorem le_clamped (x : UInt8) : 64 ≤ ((x &&& 127) ||| 64).toNat := by
  rw [UInt8.toNat_or]
  exact Nat.right_le_or

theorem le_clampScalar (s : Bytes 32) : 2^254 ≤ fromLe (clampScalar s).toList := by
  have hl := toList_length' (clampScalar s)
  have hlast : ((clampScalar s).toList.drop 31).take 1 = [(s.get 31 &&& 127) ||| 64] := rfl
  have htop := le_clamped (s.get 31)
  rw [← List.take_of_length_le hl.le,fromLe_take_add (n := 31) 1 (by omega),hlast,fromLe,fromLe]
  omega

theorem not_dvd_clampScalar (s : Bytes 32) {q : ℕ} (hq : q.Prime) (hlt : 2^252 ≤ q) :
    ¬q ∣ fromLe (clampScalar s).toList := by
  obtain ⟨m,hm⟩ := eight_dvd_clampScalar s
  have hlow := le_clampScalar s
  have htop := clampScalar_lt s
  rw [hm] at hlow htop ⊢
  intro hd
  rcases hq.dvd_mul.mp hd with h8 | hd
  · have := Nat.le_of_dvd (by decide) h8
    omega
  · have := Nat.le_of_dvd (by omega) hd
    omega

theorem groupOrder_not_dvd (s : Bytes 32) : ¬groupOrder ∣ fromLe (clampScalar s).toList :=
  not_dvd_clampScalar s orders_prime.1 (by decide)

theorem twistOrder_not_dvd (s : Bytes 32) : ¬twistOrder ∣ fromLe (clampScalar s).toList :=
  not_dvd_clampScalar s orders_prime.2 (by decide)

theorem not_dvd_two_mul {q k : ℕ} (hq : q.Prime) (hlt : 2^252 ≤ q) (hk : ¬q ∣ k) : ¬q ∣ 2*k := by
  intro hd
  rcases hq.dvd_mul.mp hd with h2 | hd
  · have := Nat.le_of_dvd (by decide) h2
    omega
  · exact hk hd

theorem eight_nsmul {P : Point} {k : ℕ} (hP : Montgomery.first (k•P) = 0)
    (hk : ¬groupOrder ∣ k) : 8•P = 0 :=
  nsmul_eq_zero_of_prime orders_prime.1 (card_nsmul_point P) (add_self_nsmul hP)
    (not_dvd_two_mul orders_prime.1 (by decide) hk)

theorem four_nsmul {P : ClosedPoint}
    (ht : P ∈ turnedBy (Montgomery.frobenius Closure curveA)) {k : ℕ}
    (hP : Montgomery.first (k•P) = 0) (hk : ¬twistOrder ∣ k) : 4•P = 0 := by
  have hcard : (4*twistOrder)•P = 0 := cards.2 ▸ card_nsmul ht
  exact nsmul_eq_zero_of_prime orders_prime.2 hcard (add_self_nsmul hP)
    (not_dvd_two_mul orders_prime.2 (by decide) hk)

/-! ## The coordinates of small order -/

theorem not_isSquare {a : ℕ} (h : powMod fieldPrime 255 a (fieldPrime/2) = fieldPrime-1) :
    ¬IsSquare (a : Fp) := by
  have hpow : (a : Fp)^(fieldPrime/2) = -1 := by
    have hm : a^(fieldPrime/2)+1 ≡ 0 [MOD fieldPrime] := by
      rw [powMod_eq fieldPrime (by decide)] at h
      rw [Nat.ModEq,Nat.add_mod,h]
      decide
    rw [eq_neg_iff_add_eq_zero]
    exact_mod_cast cast_eq hm
  intro hs
  by_cases h0 : (a : Fp) = 0
  · rw [h0,zero_pow (by decide)] at hpow
    exact one_ne_zero (by linear_combination hpow : (1 : Fp) = 0)
  · have h1 := (FiniteField.isSquare_iff (Montgomery.ringChar_ne_two two_ne_zero) h0).mp hs
    rw [card_field,hpow] at h1
    exact two_ne_zero (by linear_combination -h1)

def eighth : ℕ := 325606250916557431795983626356110631294008115727848805560023387167927233504
def eighth' : ℕ :=
  39382357235489614581723060781553021112529911719440698176882885853963445705823

def discriminant : ℕ :=
  14856279910349605081280299881395334804609297657786658129414739047344204649203

/-- The coordinates of the points whose order divides eight, on the curve or its twist. -/
def lowOrderCoordinates : List ℕ := [0,1,fieldPrime-1,eighth,eighth']

theorem discriminant_eq : (discriminant : Fp) = (4-((eighth : Fp)+eighth'))^2-4 := by
  have h : ((discriminant+4+8*(eighth+eighth') : ℕ) : Fp) = (16+(eighth+eighth')^2 : ℕ) :=
    cast_eq (by decide)
  push_cast at h
  linear_combination h

theorem not_squares : ¬IsSquare (curveA-2) ∧ ¬IsSquare (curveA^2-4) ∧
    ¬IsSquare (discriminant : Fp) := by
  have hpow : ∀ a ∈ [486660,486660*486664,discriminant],
      powMod fieldPrime 255 a (fieldPrime/2) = fieldPrime-1 := by
    decide +kernel
  have h1 : ((486660 : ℕ) : Fp) = curveA-2 := by
    rw [curveA]
    norm_num
  have h2 : ((486660*486664 : ℕ) : Fp) = curveA^2-4 := by
    rw [curveA]
    norm_num
  exact ⟨h1 ▸ not_isSquare (hpow _ (by simp)),h2 ▸ not_isSquare (hpow _ (by simp)),
    not_isSquare (hpow _ (by simp))⟩

theorem no_root (v : Fp) : v^2+curveA*v+1 ≠ 0 := by
  intro h
  exact not_squares.2.1 ⟨2*v+curveA,by linear_combination -4*h⟩

theorem sq_of_four {F : Type*} [Field F] [DecidableEq F] {A : F} (h2 : (2:F) ≠ 0)
    {P : (Montgomery.curve A).Point} (h4 : 4•P = 0)
    (hroot : ∀ Q ∈ AddSubgroup.zmultiples P,
      Montgomery.first Q^2+A*Montgomery.first Q+1 ≠ 0) :
    Montgomery.first P = 0 ∨ Montgomery.first P^2 = 1 := by
  have hP := AddSubgroup.mem_zmultiples P
  have hfour : P+P+(P+P) = 0 := by
    rw [← h4]
    abel
  have hdouble := (Montgomery.first_of_add_self h2 hfour).resolve_right
    (hroot _ (add_mem hP hP))
  exact (Montgomery.first_of_double_zero h2 hdouble).imp_right (·.resolve_right (hroot P hP))

theorem eighth_of_double {P : Point} (h : Montgomery.first (P+P) = 1) :
    Montgomery.first P = eighth ∨ Montgomery.first P = eighth' := by
  match P with
  | .zero => exact absurd h zero_ne_one
  | .some x y n =>
    have hn : y ≠ -y := by
      intro hn
      rw [WeierstrassCurve.Affine.Point.add_self_of_Y_eq (by rwa [Montgomery.negY_eq])] at h
      exact zero_ne_one h
    obtain ⟨x',_,_,hs,hx'⟩ := Montgomery.double_first n hn
    rw [hs] at h
    obtain rfl : x' = 1 := h
    have he := Montgomery.equation_iff.mp n.1
    have hprod : (eighth : Fp)*eighth' = 1 := by
      have hm : ((eighth*eighth' : ℕ) : Fp) = (1 : ℕ) := cast_eq (by decide)
      exact_mod_cast hm
    have hsum : ((eighth : Fp)+eighth')*4+4+4*curveA = (eighth+eighth')^2 := by
      have hm : (((eighth+eighth')*4+4+4*486662 : ℕ) : Fp) = ((eighth+eighth')^2 : ℕ) :=
        cast_eq (by decide)
      rw [curveA]
      exact_mod_cast hm
    have hfactor : ((x-eighth)*(x-eighth'))*(x^2-(4-((eighth : Fp)+eighth'))*x+1) = 0 := by
      linear_combination (x^2-(4-((eighth : Fp)+eighth'))*x+1)*hprod-hx'+4*he+x^2*hsum
    rcases mul_eq_zero.mp hfactor with hx | hx
    · exact (mul_eq_zero.mp hx).imp sub_eq_zero.mp sub_eq_zero.mp
    · refine absurd ⟨2*x-(4-((eighth : Fp)+eighth')),?_⟩ not_squares.2.2
      rw [discriminant_eq]
      linear_combination -4*hx

theorem first_ne_neg_one (P : Point) : Montgomery.first P ≠ -1 := by
  intro h
  match P with
  | .zero => exact one_ne_zero (neg_eq_zero.mp h.symm)
  | .some x y n =>
    obtain rfl : x = -1 := h
    have he := Montgomery.equation_iff.mp n.1
    exact not_squares.1 ⟨y,by linear_combination -he⟩

theorem coordinate_of_eight {P : Point} (h8 : 8•P = 0) :
    Montgomery.first P = 0 ∨ Montgomery.first P^2 = 1 ∨
    Montgomery.first P = eighth ∨ Montgomery.first P = eighth' := by
  have h4 : 4•(P+P) = 0 := by
    rw [← h8]
    abel
  rcases sq_of_four two_ne_zero h4 fun Q _ => no_root _ with h | h
  · exact (Montgomery.first_of_double_zero two_ne_zero h).imp_right
      fun h => .inl (h.resolve_right (no_root _))
  · have h1 := (sq_eq_sq_iff_eq_or_eq_neg.mp (h.trans (one_pow 2).symm)).resolve_right
      (first_ne_neg_one _)
    exact .inr (.inr (eighth_of_double h1))

theorem turned_no_root {P : ClosedPoint}
    (ht : P ∈ turnedBy (Montgomery.frobenius Closure curveA)) :
    Montgomery.first P^2+algebraMap Fp Closure curveA*Montgomery.first P+1 ≠ 0 := by
  obtain ⟨u,hu⟩ := Montgomery.exists_first_of_signed (.inr ht)
  rw [hu,← map_pow,← map_mul,← map_add,← map_one (algebraMap Fp Closure),← map_add]
  exact (map_ne_zero _).mpr (no_root u)

theorem coordinate_of_four {P : ClosedPoint}
    (ht : P ∈ turnedBy (Montgomery.frobenius Closure curveA)) (h4 : 4•P = 0) {u : Fp}
    (hu : Montgomery.first P = algebraMap Fp Closure u) : u = 0 ∨ u^2 = 1 := by
  have h2 := Montgomery.map_two_ne_zero Closure two_ne_zero
  have hle := AddSubgroup.zmultiples_le.mpr ht
  have h := sq_of_four h2 h4 fun Q hQ => turned_no_root (hle hQ)
  rw [hu] at h
  refine h.imp (map_eq_zero _).mp fun h => (algebraMap Fp Closure).injective ?_
  rw [map_pow,h,map_one]

theorem quotient_over {P : ClosedPoint} {u : Fp}
    (hP : Montgomery.first P = algebraMap Fp Closure u) {k : ℕ} (hk : k < 2^255) :
    algebraMap Fp Closure (quotient k u) = Montgomery.first (k•P) := by
  have ha : 4*(121665 : Closure)+2 = algebraMap Fp Closure curveA := by
    rw [← a24_eq,map_add,map_mul,map_ofNat,map_ofNat,map_ofNat]
  rw [quotient_map,← hP]
  exact Montgomery.run_first (Montgomery.map_two_ne_zero Closure two_ne_zero)
    (Montgomery.map_sq_ne_four Closure curveA_sq) ha P hk

theorem coordinate_of_quotient {k : ℕ} (hk : k < 2^255) (hg : ¬groupOrder ∣ k)
    (ht : ¬twistOrder ∣ k) {u : Fp} (h0 : quotient k u = 0) :
    u = 0 ∨ u^2 = 1 ∨ u = eighth ∨ u = eighth' := by
  by_cases hsq : IsSquare (u^3+curveA*u^2+u)
  · obtain ⟨y,hy⟩ := hsq
    have he : (Montgomery.curve curveA).Equation u y :=
      Montgomery.equation_iff.mpr (by rw [hy,sq])
    have n := (WeierstrassCurve.Affine.equation_iff_nonsingular_of_Δ_ne_zero
      (Montgomery.Δ_ne_zero two_ne_zero curveA_sq)).mp he
    rw [← show Montgomery.first (.some u y n : Point) = u from rfl,quotient_first _ hk] at h0
    exact coordinate_of_eight (eight_nsmul h0 hg)
  · obtain ⟨y,n⟩ := Montgomery.exists_nonsingular (K := Closure) two_ne_zero curveA_sq u
    have hturn := (Montgomery.frobenius_over two_ne_zero n).2 hsq
    have hq := quotient_over (P := .some _ y n) rfl hk
    rw [h0,map_zero] at hq
    exact (coordinate_of_four hturn (four_nsmul hturn hq.symm ht) rfl).imp_right .inl

theorem cast_neg_one : ((fieldPrime-1 : ℕ) : Fp) = -1 := by
  have hm : ((fieldPrime-1+1 : ℕ) : Fp) = (0 : ℕ) := cast_eq (by decide)
  rw [Nat.cast_succ,Nat.cast_zero] at hm
  exact eq_neg_of_add_eq_zero_left hm

theorem lowOrder_of_mem {n : ℕ} (h : n%fieldPrime ∈ lowOrderCoordinates) : LowOrder (n : Fp) := by
  rw [← ZMod.natCast_mod]
  generalize n%fieldPrime = m at h
  simp only [lowOrderCoordinates,List.mem_cons,List.not_mem_nil,or_false] at h
  rcases h with rfl | rfl | rfl | rfl | rfl
  · exact .inl Nat.cast_zero
  · exact .inr (.inl Nat.cast_one)
  · exact .inr (.inr (.inl cast_neg_one))
  · exact lowOrder_eighths.1
  · exact lowOrder_eighths.2

theorem mem_of_coordinate {n : ℕ} (h : (n : Fp) = 0 ∨ (n : Fp)^2 = 1 ∨ (n : Fp) = eighth ∨
    (n : Fp) = eighth') : n%fieldPrime ∈ lowOrderCoordinates := by
  have hmod : ∀ m : ℕ, (n : Fp) = m → n%fieldPrime = m%fieldPrime :=
    fun m h => (ZMod.natCast_eq_natCast_iff' _ _ _).mp h
  rcases h with h | h | h | h
  · rw [hmod 0 (by rw [h,Nat.cast_zero])]
    decide
  · rcases sq_eq_sq_iff_eq_or_eq_neg.mp (h.trans (one_pow 2).symm) with h | h
    · rw [hmod 1 (by rw [h,Nat.cast_one])]
      decide
    · rw [hmod (fieldPrime-1) (h.trans cast_neg_one.symm)]
      decide
  · rw [hmod _ h]
    decide
  · rw [hmod _ h]
    decide

/-! ## What is refused -/

/-- The coordinate that the bytes of a public key stand for. -/
def coordinate (u : Bytes 32) : ℕ := fromLe u.toList%2^255%fieldPrime

theorem quotient_clamped_iff (secret : Bytes 32) (n : ℕ) :
    quotient (fromLe (clampScalar secret).toList) (n : Fp) = 0 ↔
      n%fieldPrime ∈ lowOrderCoordinates := by
  have hlt := clampScalar_lt secret
  constructor
  · intro h
    exact mem_of_coordinate (coordinate_of_quotient hlt (groupOrder_not_dvd secret)
      (twistOrder_not_dvd secret) h)
  · intro h
    exact quotient_lowOrder (lowOrder_of_mem h) hlt (eight_dvd_clampScalar secret)

theorem ctIsZero_leBytes_iff (v : Fp) : ctIsZero (leBytes 32 v.val).toList = true ↔ v = 0 := by
  constructor
  · intro h
    have hz : (leBytes 32 v.val).toList = (leBytes 32 0).toList := by
      rw [List.eq_replicate_of_mem ((ctIsZero_iff _).mp h),toList_length']
      decide
    have hv : v.val < 256^32 := (ZMod.val_lt v).trans (by decide)
    rw [leBytes_toList,leBytes_toList] at hz
    exact (ZMod.val_eq_zero v).mp (leBytes_inj hv (by decide) hz)
  · rintro rfl
    exact ctIsZero_leBytes

/-- Which keys give a secret. -/
theorem sharedSecret_eq (P : Primitives) (secret u : Bytes 32) :
    sharedSecret (suite P) secret u =
      if coordinate u ∈ lowOrderCoordinates then .error .invalidPublicKey
      else .ok (x25519 secret u).value := by
  have hx : (suite P).x25519 secret u = (x25519 secret u).value := rfl
  unfold sharedSecret coordinate
  rw [hx,(x25519_yields secret u).eq]
  simp only [ctIsZero_leBytes_iff,quotient_clamped_iff]

end X25519

theorem withBackend_ok_iff {P : Primitives} {config : Config} :
    (∃ t, withBackend P config = .ok t) ↔ x25519Base P config.localStatic ≠ config.peerPublic ∧
      ∃ out, sharedSecret P config.localStatic config.peerPublic = .ok out := by
  unfold withBackend
  dsimp only
  rw [ne_eq,← ctEq_bytes]
  split
  · rename_i h
    simp [h]
  · rename_i h
    split
    · rename_i e he
      simp [he]
    · rename_i out he
      exact ⟨fun _ => ⟨h,out,he⟩,fun _ => ⟨_,rfl⟩⟩

namespace X25519

/-- A shared secret is refused for five coordinates, in any encoding and with every
private key, and for no other; a tunnel is built unless the peer's key is one of these or
the tunnel's own. -/
theorem refused_iff_low_order (P : Primitives) :
    (∀ secret u : Bytes 32, sharedSecret (suite P) secret u =
      if coordinate u ∈ lowOrderCoordinates then .error .invalidPublicKey
      else .ok (x25519 secret u).value) ∧
    ∀ config : Config, (∃ t, withBackend (suite P) config = .ok t) ↔
      (x25519Base config.localStatic).value ≠ config.peerPublic ∧
        coordinate config.peerPublic ∉ lowOrderCoordinates := by
  refine ⟨sharedSecret_eq P,fun config => ?_⟩
  rw [withBackend_ok_iff,sharedSecret_eq]
  refine and_congr_right fun _ => ?_
  split
  · rename_i h
    simp [h]
  · rename_i h
    exact ⟨fun _ => h,fun _ => ⟨_,rfl⟩⟩

/-! ## Generated keys -/

theorem first_nsmul_generated (secret b : Bytes 32) :
    Montgomery.first
      (fromLe (clampScalar secret).toList•fromLe (clampScalar b).toList•base) ≠ 0 := by
  rw [smul_smul]
  refine first_nsmul_base fun hd => ?_
  rcases orders_prime.1.dvd_mul.mp hd with h | h
  · exact groupOrder_not_dvd secret h
  · exact groupOrder_not_dvd b h

theorem x25519Base_accepted (b : Bytes 32) :
    coordinate (x25519Base b).value ∉ lowOrderCoordinates := by
  intro h
  have hzero : x25519 b (x25519Base b).value = ⟨leBytes 32 0,true⟩ := by
    rw [coordinate] at h
    exact x25519_lowOrder b (lowOrder_of_mem h)
  rw [x25519Base_point,x25519_point,Checked.mk.injEq] at hzero
  exact first_nsmul_generated b b ((ctIsZero_leBytes_iff _).mp (by rw [hzero.1,ctIsZero_leBytes]))

theorem sharedSecret_generated (P : Primitives) (a b : Bytes 32) :
    ∃ s, sharedSecret (suite P) a (x25519Base b).value = .ok s ∧
      sharedSecret (suite P) b (x25519Base a).value = .ok s := by
  refine ⟨(x25519 a (x25519Base b).value).value,?_,?_⟩
  · rw [sharedSecret_eq,if_neg (x25519Base_accepted b)]
  · rw [sharedSecret_eq,if_neg (x25519Base_accepted a),exchange]

/-! ## Which secrets share a public key -/

theorem first_clampScalar (s : Bytes 32) :
    Montgomery.first (fromLe (clampScalar s).toList•base) ≠ 0 :=
  first_nsmul_base (groupOrder_not_dvd s)

theorem encoded_inj {v w : Fp} (h : leBytes 32 v.val = leBytes 32 w.val) : v = w := by
  have hlt : ∀ v : Fp, v.val < 256^32 := fun v => (ZMod.val_lt v).trans (by decide)
  exact ZMod.val_injective _ (leBytes_inj (hlt _) (hlt _) (congrArg List.Vector.toList h))

theorem x25519Base_eq_iff_first (a b : Bytes 32) :
    (x25519Base a).value = (x25519Base b).value ↔
      Montgomery.first (fromLe (clampScalar a).toList•base) =
        Montgomery.first (fromLe (clampScalar b).toList•base) := by
  rw [x25519Base_point,x25519Base_point]
  exact ⟨encoded_inj,fun h => by rw [h]⟩

theorem eight_groupOrder_dvd {n : ℕ} (h8 : 8 ∣ n) (hn : n•base = 0) : 8*groupOrder ∣ n :=
  Nat.Coprime.mul_dvd_of_dvd_of_dvd (by decide) h8
    (groupOrder_dvd.trans (addOrderOf_dvd_iff_nsmul_eq_zero.mpr hn))

theorem le_of_nsmul_eq {m n : ℕ} (h8 : 8 ∣ n-m) (hn : n < 2^255) (hm : 2^254 ≤ m) (hle : m ≤ n)
    (h : n•base = m•base) : n ≤ m := by
  have hz : (n-m)•base = 0 := by
    rw [← Nat.sub_add_cancel hle,add_nsmul] at h
    exact add_eq_right.mp h
  have hroom : 2^254 < 8*groupOrder := by decide
  have hsub := Nat.eq_zero_of_dvd_of_lt (eight_groupOrder_dvd h8 hz) (by omega)
  omega

theorem scalars_of_publicKey {a b : Bytes 32}
    (h : (x25519Base a).value = (x25519Base b).value) : clampScalar a = clampScalar b ∨
      fromLe (clampScalar a).toList+fromLe (clampScalar b).toList = 8*groupOrder := by
  obtain ⟨i,hi⟩ := eight_dvd_clampScalar a
  obtain ⟨j,hj⟩ := eight_dvd_clampScalar b
  have hla := le_clampScalar a
  have hlb := le_clampScalar b
  have hta := clampScalar_lt a
  have htb := clampScalar_lt b
  rw [x25519Base_eq_iff_first] at h
  rcases Montgomery.eq_or_neg_of_first_eq h (first_clampScalar a) with he | he
  · refine .inl (List.Vector.toList_injective (fromLe_inj (by simp) ?_))
    rcases le_total (fromLe (clampScalar a).toList) (fromLe (clampScalar b).toList) with hle | hle
    · exact le_antisymm hle (le_of_nsmul_eq (by omega) htb hla hle he.symm)
    · exact le_antisymm (le_of_nsmul_eq (by omega) hta hlb hle he) hle
  · have hz : (fromLe (clampScalar a).toList+fromLe (clampScalar b).toList)•base = 0 := by
      rw [add_nsmul,he,neg_add_cancel]
    obtain ⟨c,hc⟩ := eight_groupOrder_dvd (by omega) hz
    have htwo : 2^256 < 8*groupOrder*2 := by decide
    have hc2 : c < 2 := Nat.lt_of_mul_lt_mul_left (a := 8*groupOrder) (by omega)
    have hc0 : c ≠ 0 := by
      rintro rfl
      omega
    obtain rfl : c = 1 := by omega
    exact .inr (hc.trans (mul_one _))

/-- Two secrets have the same public key exactly when they are clamped to the same
scalar or to scalars that add up to the number of points of the curve. -/
theorem publicKey_eq_iff (a b : Bytes 32) :
    (x25519Base a).value = (x25519Base b).value ↔ clampScalar a = clampScalar b ∨
      fromLe (clampScalar a).toList+fromLe (clampScalar b).toList = 8*groupOrder := by
  refine ⟨scalars_of_publicKey,?_⟩
  rw [x25519Base_eq_iff_first]
  rintro (h | h)
  · rw [h]
  · have hz := card_nsmul_point base
    rw [← h,add_nsmul] at hz
    rw [eq_neg_of_add_eq_zero_left hz,Montgomery.first_neg]

/-! ## Public keys that stand for each other -/

/-- Points of the curve and of its twist. -/
def Signed (P : ClosedPoint) : Prop :=
  P ∈ fixedBy (Montgomery.frobenius Closure curveA) ∨
    P ∈ turnedBy (Montgomery.frobenius Closure curveA)

theorem exists_signed (u : Fp) :
    ∃ P : ClosedPoint, Signed P ∧ Montgomery.first P = algebraMap Fp Closure u := by
  obtain ⟨y,n⟩ := Montgomery.exists_nonsingular (K := Closure) two_ne_zero curveA_sq u
  obtain ⟨hfix,hturn⟩ := Montgomery.frobenius_over two_ne_zero n
  exact ⟨.some _ y n,(em _).imp hfix hturn,rfl⟩

section Multiples

variable {k : ℕ} (hg : ¬groupOrder ∣ k) (ht : ¬twistOrder ∣ k)
include hg ht

theorem Signed.eight_nsmul {P : ClosedPoint} (h : Signed P) (hk : k•P = 0) : 8•P = 0 := by
  rcases h with hf | hf
  · have hcard : (8*groupOrder)•P = 0 := cards.1 ▸ card_nsmul hf
    exact nsmul_eq_zero_of_prime orders_prime.1 hcard hk hg
  · have hcard : (4*twistOrder)•P = 0 := cards.2 ▸ card_nsmul hf
    have h4 := nsmul_eq_zero_of_prime orders_prime.2 hcard hk ht
    rw [show 8 = 4*2 from rfl,mul_nsmul,h4,nsmul_zero]

theorem Signed.eight_nsmul_of_twice {P : ClosedPoint} (h : Signed P) (hk : (2*k)•P = 0) :
    8•P = 0 :=
  h.eight_nsmul (not_dvd_two_mul orders_prime.1 (by decide) hg)
    (not_dvd_two_mul orders_prime.2 (by decide) ht) hk

theorem eight_nsmul_of_both {P Q : ClosedPoint}
    (hP : P ∈ fixedBy (Montgomery.frobenius Closure curveA))
    (hQ : Q ∈ turnedBy (Montgomery.frobenius Closure curveA)) (h : k•P = k•Q) : 8•P = 0 := by
  have hf := mem_fixedBy.mp (AddSubgroup.nsmul_mem _ hP k)
  have ht' := mem_turnedBy.mp (AddSubgroup.nsmul_mem _ hQ k)
  rw [← h,hf,eq_neg_iff_add_eq_zero,← two_nsmul,← mul_nsmul'] at ht'
  exact Signed.eight_nsmul_of_twice hg ht (.inl hP) ht'

theorem Signed.eight_nsmul_eq {P Q : ClosedPoint} (hP : Signed P) (hQ : Signed Q) (h8 : 8 ∣ k)
    (h : k•P = k•Q) (h0 : k•P ≠ 0) : 8•P = 8•Q := by
  have hzero : ∀ R : ClosedPoint, 8•R = 0 → k•R = 0 := by
    obtain ⟨m,rfl⟩ := h8
    intro R hR
    rw [mul_nsmul,hR,nsmul_zero]
  have hdiff : Signed (P-Q) → 8•P = 8•Q := fun hs => by
    have := hs.eight_nsmul hg ht (by rw [nsmul_sub,h,sub_self])
    rwa [nsmul_sub,sub_eq_zero] at this
  rcases hP with hP | hP <;> rcases hQ with hQ | hQ
  · exact hdiff (.inl (sub_mem hP hQ))
  · exact absurd (hzero P (eight_nsmul_of_both hg ht hP hQ h)) h0
  · exact absurd (h.trans (hzero Q (eight_nsmul_of_both hg ht hQ hP h.symm))) h0
  · exact hdiff (.inr (sub_mem hP hQ))

/-- Multiples lie over one coordinate exactly when the eightfold points do. -/
theorem quotient_eq_iff (hk : k < 2^255) (h8 : 8 ∣ k) (u v : Fp) :
    quotient k u = quotient k v ↔ quotient 8 u = quotient 8 v := by
  obtain ⟨P,hP,hu⟩ := exists_signed u
  obtain ⟨Q,hQ,hv⟩ := exists_signed v
  have hinj := (algebraMap Fp Closure).injective
  rw [← hinj.eq_iff,← hinj.eq_iff (a := quotient 8 u),quotient_over hu hk,quotient_over hv hk,
    quotient_over hu (by decide),quotient_over hv (by decide)]
  constructor
  · intro h
    by_cases h0 : Montgomery.first (k•P) = 0
    · rw [hP.eight_nsmul_of_twice hg ht (add_self_nsmul h0),
        hQ.eight_nsmul_of_twice hg ht (add_self_nsmul (h ▸ h0))]
    · have hne : k•P ≠ 0 := fun hz => h0 (congrArg Montgomery.first hz)
      rcases Montgomery.eq_or_neg_of_first_eq h h0 with he | he
      · rw [hP.eight_nsmul_eq hg ht hQ h8 he hne]
      · have hneg : Signed (-Q) := hQ.imp neg_mem neg_mem
        rw [← neg_nsmul] at he
        rw [hP.eight_nsmul_eq hg ht hneg h8 he hne,neg_nsmul,Montgomery.first_neg]
  · obtain ⟨m,rfl⟩ := h8
    intro h
    rw [mul_nsmul,mul_nsmul]
    by_cases h0 : Montgomery.first (8•P) = 0
    · rw [Montgomery.first_nsmul_of_zero h0,Montgomery.first_nsmul_of_zero (h ▸ h0)]
    · rcases Montgomery.eq_or_neg_of_first_eq h h0 with he | he
      · rw [he]
      · rw [he,neg_nsmul,Montgomery.first_neg]

end Multiples

theorem value_eq_iff (secret u v : Bytes 32) :
    (x25519 secret u).value = (x25519 secret v).value ↔
      quotient (fromLe (clampScalar secret).toList) (coordinate u : Fp) =
        quotient (fromLe (clampScalar secret).toList) (coordinate v : Fp) := by
  rw [(x25519_yields secret u).eq,(x25519_yields secret v).eq,coordinate,coordinate,
    ZMod.natCast_mod,ZMod.natCast_mod]
  exact ⟨encoded_inj,fun h => by rw [h]⟩

theorem groupOrder_nsmul (s : Bytes 32) :
    (1*groupOrder)•(fromLe (clampScalar s).toList•base) = 0 := by
  obtain ⟨m,hm⟩ := eight_dvd_clampScalar s
  rw [hm,smul_smul,show 1*groupOrder*(8*m) = 8*groupOrder*m by ring,mul_nsmul,card_nsmul_point,
    nsmul_zero]

theorem generated_eq {secret a b : Bytes 32}
    (h : (x25519 secret (x25519Base a).value).value = (x25519 secret (x25519Base b).value).value) :
    (x25519Base a).value = (x25519Base b).value := by
  have hcancel : ∀ P Q : Point, (1*groupOrder)•P = 0 → (1*groupOrder)•Q = 0 →
      fromLe (clampScalar secret).toList•P = fromLe (clampScalar secret).toList•Q → P = Q := by
    intro P Q hP hQ he
    have hd := nsmul_eq_zero_of_prime (c := 1) (P := P-Q) orders_prime.1
      (by rw [nsmul_sub,hP,hQ,sub_self]) (by rw [nsmul_sub,he,sub_self])
      (groupOrder_not_dvd secret)
    rwa [one_nsmul,sub_eq_zero] at hd
  rw [x25519Base_point,x25519Base_point,x25519_point,x25519_point] at h
  rw [x25519Base_eq_iff_first]
  rcases Montgomery.eq_or_neg_of_first_eq (encoded_inj h) (first_nsmul_generated secret a)
    with he | he
  · rw [hcancel _ _ (groupOrder_nsmul a) (groupOrder_nsmul b) he]
  · rw [← neg_nsmul] at he
    rw [hcancel _ _ (groupOrder_nsmul a) (by rw [neg_nsmul,groupOrder_nsmul,neg_zero]) he,
      Montgomery.first_neg]

/-- Two public keys lead to one secret exactly when their points have the same eightfold
up to sign, whatever the private key is. Keys that were generated never do unless they
are the same. -/
theorem same_secret_iff (secret : Bytes 32) :
    (∀ u v : Bytes 32, (x25519 secret u).value = (x25519 secret v).value ↔
      quotient 8 (coordinate u : Fp) = quotient 8 (coordinate v : Fp)) ∧
    ∀ a b : Bytes 32,
      (x25519 secret (x25519Base a).value).value = (x25519 secret (x25519Base b).value).value ↔
        (x25519Base a).value = (x25519Base b).value := by
  refine ⟨fun u v => ?_,fun a b => ⟨generated_eq,fun h => by rw [h]⟩⟩
  rw [value_eq_iff]
  exact quotient_eq_iff (groupOrder_not_dvd secret) (twistOrder_not_dvd secret)
    (clampScalar_lt secret) (eight_dvd_clampScalar secret) _ _

end X25519
end WireGuard
