import Mathlib.FieldTheory.IsAlgClosed.AlgebraicClosure
import WireGuard.Curve25519

/-!
# Public keys of low order

Clamped scalars are multiples of eight, so a key whose point has an order that
divides eight gives the shared secret zero, and is refused. Minus one is no first
coordinate of a rational point: it belongs to the twist. Over the algebraic
closure every element is a first coordinate, and the ladder is the same there.
-/

set_option autoImplicit false

namespace WireGuard
open ByteString Checked

namespace X25519

/-- The first coordinates of small order: zero, one and minus one, and those of the
points of order eight. -/
def LowOrder (u : Fp) : Prop :=
  u = 0 ∨ u = 1 ∨ u = -1 ∨ ∃ P : Point, addOrderOf P = 8 ∧ Montgomery.first P = u

theorem eight_dvd_clamped (x : UInt8) : 8 ∣ (x &&& 248).toNat := by
  have h0 : (248 : UInt8).toNat%2^3 = 0 := rfl
  apply Nat.dvd_of_mod_eq_zero
  change (x &&& 248).toNat%2^3 = 0
  rw [UInt8.toNat_and,Nat.and_mod_two_pow,h0,Nat.and_zero]

theorem eight_dvd_clampScalar (s : Bytes 32) : 8 ∣ fromLe (clampScalar s).toList := by
  have hc : (clampScalar s).toList = (s.get 0 &&& 248)::(clampScalar s).toList.tail := rfl
  rw [hc,fromLe]
  exact dvd_add (eight_dvd_clamped _) (Dvd.dvd.mul_right (by decide) _)

theorem quotient_map {K : Type*} [Field K] (f : Fp →+* K) (k : ℕ) (u : Fp) :
    f (quotient k u) = (Ladder.run (121665 : K) (f u) k 255).x2*
      (Ladder.run (121665 : K) (f u) k 255).z2⁻¹ := by
  have hr := Ladder.run_map (121665 : Fp) u f k 255
  rw [map_ofNat] at hr
  rw [quotient,pow_eq_inv,map_mul,map_inv₀,← hr]
  rfl

theorem quotient_of_sq {u : Fp} (h : u = 0 ∨ u^2 = 1) {k : ℕ} (hk : k < 2^255) (h4 : 4 ∣ k) :
    quotient k u = 0 := by
  classical
  let f := algebraMap Fp (AlgebraicClosure Fp)
  have h2 : (2 : AlgebraicClosure Fp) ≠ 0 := by
    have := (map_ne_zero f).mpr two_ne_zero
    rwa [map_ofNat] at this
  have hA : f curveA^2 ≠ 4 := by
    intro he
    apply curveA_sq
    apply f.injective
    rwa [map_pow,map_ofNat]
  have ha : 4*(121665 : AlgebraicClosure Fp)+2 = f curveA := by
    rw [← a24_eq,map_add,map_mul,map_ofNat,map_ofNat,map_ofNat]
  obtain ⟨P,hP⟩ := Montgomery.exists_first h2 hA (f u)
  obtain ⟨m,rfl⟩ := h4
  have hfour : 4•P = 0 := by
    rcases h with rfl | h
    · have h0 : P+P = 0 := Montgomery.add_self_of_first_zero (by rw [hP,map_zero])
      rw [show 4 = 2*2 from rfl,mul_nsmul,two_nsmul,two_nsmul,h0,add_zero]
    · exact Montgomery.four_nsmul_of_first_sq h2 hA (by rw [hP,← map_pow,h,map_one])
  apply f.injective
  rw [quotient_map,← hP,Montgomery.run_first h2 hA ha P hk,mul_nsmul,hfour,nsmul_zero,map_zero]
  rfl

theorem quotient_lowOrder {u : Fp} (h : LowOrder u) {k : ℕ} (hk : k < 2^255) (h8 : 8 ∣ k) :
    quotient k u = 0 := by
  have h4 : 4 ∣ k := dvd_trans (by decide) h8
  rcases h with rfl | rfl | rfl | ⟨P,hP,rfl⟩
  · exact quotient_of_sq (.inl rfl) hk h4
  · exact quotient_of_sq (.inr (one_pow 2)) hk h4
  · exact quotient_of_sq (.inr (by ring)) hk h4
  · rw [quotient_first P hk,addOrderOf_dvd_iff_nsmul_eq_zero.mp (hP ▸ h8)]
    rfl

theorem x25519_lowOrder (scalar : Bytes 32) {u : Bytes 32}
    (h : LowOrder (fromLe u.toList%2^255 : ℕ)) : x25519 scalar u = ⟨leBytes 32 0,true⟩ := by
  have he := (x25519_yields scalar u).eq
  rw [quotient_lowOrder h (clampScalar_lt scalar) (eight_dvd_clampScalar scalar)] at he
  exact he

end X25519

theorem ctIsZero_leBytes : ctIsZero (leBytes 32 0).toList = true := by decide

section Refusal

variable {P : Primitives} {u : Bytes 32}

theorem sharedSecret_of_zero {secret : Bytes 32} (h : P.x25519 secret u = leBytes 32 0) :
    sharedSecret P secret u = .error .invalidPublicKey := by
  rw [sharedSecret,h,if_pos ctIsZero_leBytes]

theorem withBackend_refuses {config : Config}
    (h : sharedSecret P config.localStatic config.peerPublic = .error .invalidPublicKey) :
    withBackend P config = .error .invalidPublicKey := by
  unfold withBackend
  dsimp only
  split
  · rfl
  · split
    · rename_i e he
      rw [h] at he
      cases he
      rfl
    · rename_i out he
      rw [h] at he
      cases he

end Refusal

namespace X25519

/-- Every encoding of a coordinate of low order is refused with every private key, and
no tunnel is built for such a peer. -/
theorem low_order_rejected (P : Primitives) {u : Bytes 32}
    (h : LowOrder (fromLe u.toList%2^255 : ℕ)) :
    (∀ secret : Bytes 32, sharedSecret (suite P) secret u = .error .invalidPublicKey) ∧
    ∀ config : Config, config.peerPublic = u →
      withBackend (suite P) config = .error .invalidPublicKey := by
  have hs : ∀ secret : Bytes 32, sharedSecret (suite P) secret u = .error .invalidPublicKey :=
    fun secret => sharedSecret_of_zero (congrArg Checked.value (x25519_lowOrder secret h))
  refine ⟨hs,?_⟩
  rintro config rfl
  exact withBackend_refuses (hs config.localStatic)

/-! ## The points of order eight -/

theorem order_eight {x y : Fp} (h : (Montgomery.curve curveA).Nonsingular x y)
    (hd : (x^2-1)^2 = 4*y^2) (hy : 4*y^2 ≠ 0) :
    addOrderOf (.some x y h : Point) = 8 := by
  have hn : y ≠ -y := by
    intro hn
    have h2y : 2*y = 0 := by linear_combination hn
    exact hy (by linear_combination 2*y*h2y)
  obtain ⟨x',y',h',hs,hx'⟩ := Montgomery.double_first h hn
  obtain rfl : x' = 1 := mul_right_cancel₀ hy (by rw [hx',hd,one_mul])
  have he' := Montgomery.equation_iff.mp h'.1
  have hn' : y' ≠ -y' := by
    intro hn
    have h0 : y' = 0 :=
      (mul_eq_zero.mp (by linear_combination hn : (2 : Fp)*y' = 0)).resolve_left two_ne_zero
    rw [h0] at he'
    exact curveA_sq (by linear_combination -(curveA-2)*he')
  obtain ⟨_,_,_,hs',_⟩ := Montgomery.double_first h' hn'
  have hfour : 2^2•(.some x y h : Point) = .some 1 y' h'+.some 1 y' h' := by
    rw [← hs,← two_nsmul,← two_nsmul,← mul_nsmul]
    rfl
  have height : 2^(2+1)•(.some x y h : Point) = 0 := by
    have h4 := Montgomery.four_nsmul_of_first_sq two_ne_zero curveA_sq
      (P := .some 1 y' h') (one_pow 2)
    rw [← hs,← two_nsmul,← mul_nsmul] at h4
    exact h4
  have hne : (2^2)•(.some x y h : Point) ≠ 0 := by
    rw [hfour,hs']
    exact WeierstrassCurve.Affine.Point.some_ne_zero _
  exact addOrderOf_eq_prime_pow hne height

theorem lowOrder_of_double {x y : ℕ}
    (he : y^2%fieldPrime = (x^3+486662*x^2+x)%fieldPrime)
    (hd : (x^4+1)%fieldPrime = (2*x^2+4*y^2)%fieldPrime)
    (hy : 4*y^2%fieldPrime ≠ 0%fieldPrime) : LowOrder (x : Fp) := by
  have hc : (Montgomery.curve curveA).Equation (x : Fp) (y : Fp) := by
    rw [Montgomery.equation_iff,curveA]
    exact_mod_cast cast_eq he
  have hn := (WeierstrassCurve.Affine.equation_iff_nonsingular_of_Δ_ne_zero
    (Montgomery.Δ_ne_zero two_ne_zero curveA_sq)).mp hc
  have hd' : (x : Fp)^4+1 = 2*(x : Fp)^2+4*(y : Fp)^2 := by exact_mod_cast cast_eq hd
  have hy' : 4*(y : Fp)^2 ≠ 0 := by exact_mod_cast cast_ne hy
  exact .inr (.inr (.inr ⟨.some x y hn,order_eight hn (by linear_combination hd') hy',rfl⟩))

theorem lowOrder_eighths :
    LowOrder (325606250916557431795983626356110631294008115727848805560023387167927233504 : ℕ) ∧
    LowOrder (39382357235489614581723060781553021112529911719440698176882885853963445705823 : ℕ) :=
  ⟨lowOrder_of_double
      (y := 32026303591712962751241307547882981359278212717910236697706316503764922500307)
      (by decide) (by decide) (by decide),
    lowOrder_of_double
      (y := 47389623381099381275796781267935282128369626952426857267179501978497824351671)
      (by decide) (by decide) (by decide)⟩

theorem lowOrder_encoding {n : ℕ} (h : LowOrder (n%2^256%2^255 : ℕ)) :
    LowOrder (fromLe (leBytes 32 n).toList%2^255 : ℕ) := by
  rw [leBytes_toList,fromLe_toLe]
  exact h

theorem lowOrder_twist : LowOrder ((2^255+(2^255-20))%2^256%2^255 : ℕ) := by
  have hm : (((2^255+(2^255-20))%2^256%2^255+1 : ℕ) : Fp) = (0 : ℕ) := cast_eq (by decide)
  refine .inr (.inr (.inl (eq_neg_of_add_eq_zero_left ?_)))
  exact_mod_cast hm

/-- Minus one with the top bit set and a key of order eight. -/
theorem low_order_rejected_specimens :
    sharedSecret (suite specimen) (zeros 32) (leBytes 32 (2^255+(2^255-20))) =
      .error .invalidPublicKey ∧
    sharedSecret (suite specimen) (zeros 32) (leBytes 32
      325606250916557431795983626356110631294008115727848805560023387167927233504) =
      .error .invalidPublicKey :=
  ⟨(low_order_rejected specimen (lowOrder_encoding lowOrder_twist)).1 _,
    (low_order_rejected specimen (lowOrder_encoding lowOrder_eighths.1)).1 _⟩

end X25519
end WireGuard
