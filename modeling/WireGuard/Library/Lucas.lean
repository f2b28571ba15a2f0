import Mathlib.Data.List.Prime
import Mathlib.NumberTheory.LucasPrimality

/-!
# Primality from a factored predecessor

A number is prime when some residue has the full order that its predecessor
allows. The predecessor is given as a list of primes with multiplicity, and
the powers are evaluated by repeated squaring. Several numbers are settled at once
when the factors of each are among them or are known.
-/

set_option autoImplicit false

namespace Lucas

def powMod (m : ℕ) : ℕ → ℕ → ℕ → ℕ
  | 0, _, _ => 1%m
  | bits+1, a, n => powMod m bits (a*a%m) (n/2)*a^(n%2)%m

theorem powMod_eq (m : ℕ) {bits a n : ℕ} (h : n < 2^bits) : powMod m bits a n = a^n%m := by
  induction bits generalizing a n with
  | zero =>
    obtain rfl : n = 0 := by simpa using h
    rfl
  | succ bits ih =>
    have hn : n/2 < 2^bits := by rw [pow_succ] at h; omega
    calc powMod m (bits+1) a n = (a*a%m)^(n/2)%m*a^(n%2)%m := by rw [powMod,ih hn]
      _ = (a*a)^(n/2)*a^(n%2)%m := by rw [← Nat.pow_mod,Nat.mod_mul_mod]
      _ = a^n%m := by rw [← sq,← pow_mul,← pow_add,Nat.div_add_mod]

structure Order where
  number : ℕ
  residue : ℕ
  factors : List ℕ

namespace Order

/-- The residue has full order if the factors are prime. -/
def Full (bits : ℕ) (o : Order) : Prop :=
  1 < o.number ∧ o.number < 2^bits ∧ o.factors.prod = o.number-1 ∧
    powMod o.number bits o.residue (o.number-1) = 1 ∧
    ∀ q ∈ o.factors, powMod o.number bits o.residue ((o.number-1)/q) ≠ 1

instance (bits : ℕ) (o : Order) : Decidable (o.Full bits) :=
  inferInstanceAs (Decidable (_ ∧ _))

variable {bits : ℕ} {o : Order}

theorem Full.pow_eq_one_iff (h : o.Full bits) {n : ℕ} (hn : n ≤ o.number-1) :
    (o.residue : ZMod o.number)^n = 1 ↔ powMod o.number bits o.residue n = 1 := by
  obtain ⟨hp,hbits,_⟩ := h
  rw [powMod_eq o.number (by omega),← Nat.cast_pow,← Nat.cast_one,ZMod.natCast_eq_natCast_iff',
    Nat.mod_eq_of_lt hp]

theorem Full.prime (h : o.Full bits) (hfs : ∀ q ∈ o.factors, q.Prime) : o.number.Prime := by
  obtain ⟨_,_,hprod,hone,hne⟩ := id h
  refine lucas_primality o.number (o.residue : ZMod o.number)
    ((h.pow_eq_one_iff le_rfl).mpr hone) fun q hq hdvd => ?_
  rw [← hprod] at hdvd
  obtain ⟨r,hr,hqr⟩ := (Prime.dvd_prod_iff hq.prime).mp hdvd
  obtain rfl : q = r := (Nat.prime_dvd_prime_iff_eq hq (hfs r hr)).mp hqr
  exact fun he => hne q hr ((h.pow_eq_one_iff (Nat.div_le_self _ _)).mp he)

theorem Full.factor_lt (h : o.Full bits) {q : ℕ} (hq : q ∈ o.factors) : q < o.number := by
  obtain ⟨hp,_,hprod,_⟩ := h
  have hle : q ≤ o.number-1 :=
    Nat.le_of_dvd (by omega) (hprod ▸ List.dvd_prod hq)
  omega

/-- Factors are smaller, so the numbers may be listed in any order. -/
theorem prime_of_closed {known : List ℕ} (hk : ∀ q ∈ known, q.Prime) {orders : List Order}
    (hf : ∀ o ∈ orders, o.Full bits)
    (hc : ∀ o ∈ orders, ∀ q ∈ o.factors, q ∈ known ∨ q ∈ orders.map number) :
    ∀ n ∈ orders.map number, n.Prime := by
  intro n hn
  induction n using Nat.strong_induction_on with
  | h n ih =>
    obtain ⟨o,ho,rfl⟩ := List.mem_map.mp hn
    refine (hf o ho).prime fun q hq => ?_
    rcases hc o ho q hq with hq' | hq'
    · exact hk q hq'
    · exact ih q ((hf o ho).factor_lt hq) hq'

end Order
end Lucas
