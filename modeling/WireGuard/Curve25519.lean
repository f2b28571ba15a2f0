import Mathlib.FieldTheory.Finite.Basic
import Mathlib.Tactic.NormNum.Prime
import WireGuard.Handshake
import WireGuard.Library.Lucas
import WireGuard.Library.Montgomery
import WireGuard.X25519Ladder

/-!
# X25519 multiplies points of Curve25519

The modulus is prime, so the ladder's quotient is the first coordinate of a
multiple. Public keys are first coordinates of multiples of the base point,
and multiples of one point commute.
-/

set_option autoImplicit false

namespace WireGuard
open ByteString Checked Limbs Lucas

namespace X25519

/-! ## The modulus is prime -/

theorem smallPrimes : ∀ q ∈ [2,3,5,7,13,19,31,47,107,127,223,353,2437,4153,57467,65147,75707,
    132049,430751,569003,1923133,8574133], Nat.Prime q := by
  norm_num

def primeOrders : List Order := [
  ⟨2773320623,5,[2,2437,569003]⟩,
  ⟨72106336199,7,[2,13,2773320623]⟩,
  ⟨1919519569386763,2,[2,3,7,19,47,47,127,8574133]⟩,
  ⟨31757755568855353,10,[2,2,2,3,31,107,223,4153,430751]⟩,
  ⟨75445702479781427272750846543864801,7,
    [2,2,2,2,2,3,3,5,5,75707,72106336199,1919519569386763]⟩,
  ⟨74058212732561358302231226437062788676166966415465897661863160754340907,2,
    [2,3,353,57467,132049,1923133,31757755568855353,75445702479781427272750846543864801]⟩,
  ⟨fieldPrime,2,
    [2,2,3,65147,74058212732561358302231226437062788676166966415465897661863160754340907]⟩]

theorem fieldPrime_prime : fieldPrime.Prime := by
  have hfull : ∀ o ∈ primeOrders, o.Full 255 := by decide +kernel
  exact Order.prime_of_closed smallPrimes hfull (by decide +kernel) _ (by simp [primeOrders])

instance : Fact fieldPrime.Prime := ⟨fieldPrime_prime⟩

/-! ## The curve and its base point -/

def curveA : Fp := 486662

abbrev Point := (Montgomery.curve curveA).Point

theorem cast_ne {m n : ℕ} (h : m%fieldPrime ≠ n%fieldPrime) : (m : Fp) ≠ n :=
  fun he => h ((ZMod.natCast_eq_natCast_iff' _ _ _).mp he)

theorem two_ne_zero : (2:Fp) ≠ 0 := by
  have := cast_ne (m := 2) (n := 0) (by decide)
  exact_mod_cast this

theorem curveA_sq : curveA^2 ≠ 4 := by
  have := cast_ne (m := 486662^2) (n := 4) (by decide)
  rw [curveA]
  exact_mod_cast this

theorem a24_eq : 4*(121665:Fp)+2 = curveA := by
  rw [curveA]
  norm_num

def baseY : ℕ := 14781619447589544791020593568409986887264606134616475288964881837755586237401

theorem base_equation : (Montgomery.curve curveA).Equation 9 (baseY : Fp) := by
  rw [Montgomery.equation_iff,curveA]
  have h : ((baseY^2 : ℕ) : Fp) = ((9^3+486662*9^2+9 : ℕ) : Fp) :=
    cast_eq (by decide)
  exact_mod_cast h

theorem base_nonsingular : (Montgomery.curve curveA).Nonsingular 9 (baseY : Fp) := by
  refine (WeierstrassCurve.Affine.nonsingular_iff' _ _).mpr ⟨base_equation,.inr ?_⟩
  have h := cast_ne (m := 2*baseY) (n := 0) (by decide)
  simpa [Montgomery.curve] using h

def base : Point := .some 9 (baseY : Fp) base_nonsingular

/-! ## Scalars and multiples -/

theorem pow_eq_inv (z : Fp) : z^(fieldPrime-2) = z⁻¹ := by
  by_cases hz : z = 0
  · rw [hz,inv_zero]
    exact zero_pow (by decide)
  · refine eq_inv_of_mul_eq_one_left ?_
    rw [← pow_succ]
    exact ZMod.pow_card_sub_one_eq_one hz

theorem quotient_first (P : Point) {k : ℕ} (hk : k < 2^255) :
    quotient k (Montgomery.first P) = Montgomery.first (k•P) := by
  rw [quotient,pow_eq_inv]
  exact Montgomery.run_first two_ne_zero curveA_sq a24_eq P hk

theorem clamped_lt (x : UInt8) : ((x &&& 127) ||| 64).toNat < 2^7 := by
  rw [UInt8.toNat_or,UInt8.toNat_and]
  exact Nat.or_lt_two_pow (Nat.and_lt_two_pow _ (by decide)) (by decide)

theorem clampScalar_lt (s : Bytes 32) : fromLe (clampScalar s).toList < 2^255 := by
  have hl := toList_length' (clampScalar s)
  have hlast : ((clampScalar s).toList.drop 31).take 1 = [(s.get 31 &&& 127) ||| 64] := rfl
  have hlow : fromLe ((clampScalar s).toList.take 31) < 256^31 := by
    have h := fromLe_lt ((clampScalar s).toList.take 31)
    rwa [List.length_take,hl] at h
  have htop := clamped_lt (s.get 31)
  rw [← List.take_of_length_le hl.le,fromLe_take_add (n := 31) 1 (by omega),hlast,fromLe,fromLe]
  omega

/-- On the encoding of a first coordinate the function multiplies the point. -/
theorem x25519_point (scalar : Bytes 32) (P : Point) :
    x25519 scalar (leBytes 32 (Montgomery.first P).val) =
      ⟨leBytes 32 (Montgomery.first (fromLe (clampScalar scalar).toList•P)).val,true⟩ := by
  have hlt : (Montgomery.first P).val < 2^255 := (ZMod.val_lt _).trans (by decide)
  have hval : ((fromLe (leBytes 32 (Montgomery.first P).val).toList%2^255 : ℕ) : Fp) =
      Montgomery.first P := by
    rw [leBytes_toList,fromLe_toLe,Nat.mod_eq_of_lt (hlt.trans (by decide)),Nat.mod_eq_of_lt hlt,
      ZMod.natCast_zmod_val]
  have h := (x25519_yields scalar (leBytes 32 (Montgomery.first P).val)).eq
  rwa [hval,quotient_first P (clampScalar_lt scalar)] at h

def x25519Base (scalar : Bytes 32) : Checked (Bytes 32) := x25519 scalar basepoint

theorem basepoint_eq : basepoint = leBytes 32 (Montgomery.first base).val := by
  decide

theorem x25519Base_point (scalar : Bytes 32) :
    (x25519Base scalar).value =
      leBytes 32 (Montgomery.first (fromLe (clampScalar scalar).toList•base)).val := by
  rw [x25519Base,basepoint_eq,x25519_point]

theorem exchange (a b : Bytes 32) :
    x25519 a (x25519Base b).value = x25519 b (x25519Base a).value := by
  rw [x25519Base_point,x25519Base_point,x25519_point,x25519_point,smul_smul,smul_smul,mul_comm]

def suite (P : Primitives) : Primitives := {P with x25519 := fun k u => (x25519 k u).value}

theorem suite_commutes (P : Primitives) : Commutes (suite P) :=
  fun a b => congrArg Checked.value (exchange a b)

/-- The exchange commutes for all private bytes; so the two ends of every handshake
hold the same four secrets in their views. -/
theorem diffie_hellman_commutes (P : Primitives) :
    (∀ a b : Bytes 32,x25519 a (x25519Base b).value = x25519 b (x25519Base a).value) ∧
    ∀ (x : Handshake (suite P)) (mac1 mac2 : Bytes 16),
      receiverView (suite P) x.responder x.responderPublic
        ((suite P).x25519 x.responder x.initiatorPublic)
        (x.view.message x.initiatorIndex mac1 mac2) = x.view ∧
      completionView (suite P) x.inflight x.initiator x.psk
        (x.answer.message x.responderIndex x.initiatorIndex mac1 mac2) = x.answer :=
  ⟨exchange,fun _ mac1 mac2 => ⟨Handshake.receiverView_eq (suite_commutes P) mac1 mac2,
    Handshake.completionView_eq (suite_commutes P) mac1 mac2⟩⟩

end X25519
end WireGuard
