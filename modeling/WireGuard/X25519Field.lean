import Mathlib.Data.ZMod.Basic
import WireGuard.X25519

/-!
# Field arithmetic of X25519

A reduced element comes from a carry chain, a loose one is a sum or difference
of two reduced ones. Products take loose elements and give reduced ones, so
every operation of the ladder meets operands it has room for. Each operation
stands for the one it names in the integers modulo the prime.
-/

set_option autoImplicit false

namespace WireGuard
open ByteString Checked Limbs

namespace X25519

def fieldPrime : ℕ := 2^255-19

abbrev Fp := ZMod fieldPrime

theorem fieldPrime_ne_zero : fieldPrime ≠ 0 := by decide

instance : NeZero fieldPrime := ⟨fieldPrime_ne_zero⟩

theorem fieldPrime_fold : fieldPrime+19 = 2^(5*51) := rfl

/-- Limbs from a carry chain that stand for `a`. -/
structure Reduced (x : Limbs) (a : Fp) : Prop where
  weak : x.Weak 51 (2^13)
  value : (number 51 x : Fp) = a

/-- Limbs that a product accepts and that stand for `a`. -/
structure Loose (x : Limbs) (a : Fp) : Prop where
  below : x.Below (3*2^51+2^14)
  value : (number 51 x : Fp) = a

theorem Reduced.loose {x : Limbs} {a : Fp} (h : Reduced x a) : Loose x a :=
  ⟨h.weak.below.mono (by decide),h.value⟩

variable {x y : Limbs} {a b : Fp}

theorem feAdd_loose (hx : Reduced x a) (hy : Reduced y b) :
    (feAdd x y).Yields (Loose · (a+b)) := by
  have hs := (hx.weak.below.sum hy.weak.below).mono (show _ ≤ 3*2^51+2^14 by decide)
  refine (yields_plus hs (by decide)).mono ?_
  rintro _ rfl
  refine ⟨hs,?_⟩
  rw [number_sum,Nat.cast_add,hx.value,hy.value]

theorem twoP_number : number 51 twoP = 2*fieldPrime := by decide

theorem feSub_loose (hx : Reduced x a) (hy : Reduced y b) :
    (feSub x y).Yields (Loose · (a-b)) := by
  have hB : twoP.Below (2^52) := ⟨by decide,by decide,by decide,by decide,by decide⟩
  have hs := (hx.weak.below.sum hB).mono (show _ ≤ 3*2^51+2^14 by decide)
  refine (yields_plus hs (by decide)).bind ?_
  rintro _ rfl
  let z : Limbs := ⟨x.l0+twoP.l0-y.l0,x.l1+twoP.l1-y.l1,x.l2+twoP.l2-y.l2,x.l3+twoP.l3-y.l3,
    x.l4+twoP.l4-y.l4⟩
  have hz : sum x twoP = sum z y := by
    obtain ⟨w0,w1,w2,w3,w4⟩ := hy.weak
    ext
    all_goals
      dsimp only [sum,z,twoP]
      omega
  refine (yields_minus hz hs (by decide)).mono ?_
  rintro _ rfl
  obtain ⟨s0,s1,s2,s3,s4⟩ := hs
  refine ⟨⟨(Nat.sub_le _ _).trans s0,(Nat.sub_le _ _).trans s1,(Nat.sub_le _ _).trans s2,
    (Nat.sub_le _ _).trans s3,(Nat.sub_le _ _).trans s4⟩,?_⟩
  have hn := congrArg (fun l => (number 51 l : Fp)) hz
  simp only [number_sum,twoP_number,Nat.cast_add,Nat.cast_mul,ZMod.natCast_self,mul_zero,
    add_zero,hx.value,hy.value] at hn
  rw [hn,add_sub_cancel_right]

theorem room : Room 128 64 51 19 (5*(19*((3*2^51+2^14)*(3*2^51+2^14))))
    (5*((3*2^51+2^14)*(3*2^51+2^14))) (2^62) (2^57) (2^13) := by
  constructor <;> norm_num

theorem cast_eq {m n : ℕ} (h : m ≡ n [MOD fieldPrime]) : (m : Fp) = n :=
  (ZMod.natCast_eq_natCast_iff _ _ _).mpr h

theorem feMul_reduced (hx : Loose x a) (hy : Loose y b) :
    (feMul x y).Yields (Reduced · (a*b)) := by
  refine (yields_multiply (by decide) room fieldPrime_fold hx.below hy.below (by decide)).mono ?_
  rintro r ⟨hw,hn⟩
  refine ⟨hw,?_⟩
  rw [cast_eq hn,Nat.cast_mul,hx.value,hy.value]

theorem feSquare_reduced (hx : Loose x a) : (feSquare x).Yields (Reduced · (a^2)) := by
  have fits {i k : ℕ} (hi : i ≤ 3*2^51+2^14) (hk : k ≤ 19) : i*k < 2^64 :=
    (Nat.mul_le_mul hi hk).trans_lt (by decide)
  have hcols := schoolbook_columns (k := 19) (by decide) hx.below hx.below
  unfold feSquare
  refine (yields_mul (fits hx.below.l0 (by decide))).bind ?_
  rintro _ rfl
  refine (yields_mul (fits hx.below.l1 (by decide))).bind ?_
  rintro _ rfl
  refine (yields_mul (fits hx.below.l2 (by decide))).bind ?_
  rintro _ rfl
  refine (yields_mul (fits hx.below.l3 (by decide))).bind ?_
  rintro _ rfl
  refine (yields_mul (fits hx.below.l3 le_rfl)).bind ?_
  rintro _ rfl
  refine (yields_mul (fits hx.below.l4 le_rfl)).bind ?_
  rintro _ rfl
  refine (yields_column room hcols.l0 (by simp [column,schoolbook]; ring)).bind ?_
  rintro _ rfl
  refine (yields_column room hcols.l1 (by simp [column,schoolbook]; ring)).bind ?_
  rintro _ rfl
  refine (yields_column room hcols.l2 (by simp [column,schoolbook]; ring)).bind ?_
  rintro _ rfl
  refine (yields_column room hcols.l3 (by simp [column,schoolbook]; ring)).bind ?_
  rintro _ rfl
  refine (yields_column room (hcols.l4.trans (by decide))
    (by simp [column,schoolbook]; ring)).bind ?_
  rintro _ rfl
  refine (yields_folded (by decide) room fieldPrime_fold hx.below hx.below).mono ?_
  rintro r ⟨hw,hn⟩
  refine ⟨hw,?_⟩
  rw [cast_eq hn,Nat.cast_mul,hx.value,sq]

theorem feMulSmall_reduced (hx : Loose x a) :
    (feMulSmall x 121665).Yields (Reduced · (a*121665)) := by
  have small {i : ℕ} (hi : i ≤ 3*2^51+2^14) : i*121665 ≤ 2^70 :=
    (Nat.mul_le_mul_right _ hi).trans (by decide)
  have fits {i : ℕ} (hi : i ≤ 3*2^51+2^14) : i*121665 < 2^128 := (small hi).trans_lt (by decide)
  unfold feMulSmall
  refine (yields_mul (fits hx.below.l0)).bind ?_
  rintro _ rfl
  refine (yields_mul (fits hx.below.l1)).bind ?_
  rintro _ rfl
  refine (yields_mul (fits hx.below.l2)).bind ?_
  rintro _ rfl
  refine (yields_mul (fits hx.below.l3)).bind ?_
  rintro _ rfl
  refine (yields_mul (fits hx.below.l4)).bind ?_
  rintro _ rfl
  refine (yields_carry room fieldPrime_fold ⟨(small hx.below.l0).trans (by decide),
    (small hx.below.l1).trans (by decide),(small hx.below.l2).trans (by decide),
    (small hx.below.l3).trans (by decide),(small hx.below.l4).trans (by decide)⟩).mono ?_
  rintro r ⟨hw,hn⟩
  refine ⟨hw,?_⟩
  have hs : number 51 ⟨x.l0*121665,x.l1*121665,x.l2*121665,x.l3*121665,x.l4*121665⟩ =
      number 51 x*121665 := by
    simp only [number]
    ring
  rw [cast_eq hn,hs,Nat.cast_mul,hx.value]
  rfl

/-! ## The inversion chain -/

theorem nsquare_reduced (n : ℕ) (hx : Reduced x a) :
    (nsquare n x).Yields (Reduced · (a^2^n)) := by
  induction n generalizing x a with
  | zero => exact .pure (by simpa using hx)
  | succ n ih =>
    refine (feSquare_reduced hx.loose).bind fun y hy => ?_
    have := ih hy
    rwa [← pow_mul,← pow_succ'] at this

theorem link_reduced {z : Fp} {i j e : ℕ} (n : ℕ) (hx : Reduced x (z^i))
    (hy : Reduced y (z^j)) (he : i*2^n+j = e) : (link x n y).Yields (Reduced · (z^e)) := by
  refine (nsquare_reduced n hx).bind fun u hu => ?_
  refine (feMul_reduced hu.loose hy.loose).mono fun r hr => ?_
  rwa [← pow_mul,← pow_add,he] at hr

theorem invert_reduced {z : Fp} (hx : Reduced x z) :
    (invert x).Yields (Reduced · (z^(fieldPrime-2))) := by
  have h1 : Reduced x (z^1) := by simpa using hx
  refine (feSquare_reduced hx.loose).bind fun z2 h2 => ?_
  refine (link_reduced (e := 9) 2 h2 h1 rfl).bind fun z9 h9 => ?_
  refine (feMul_reduced h9.loose h2.loose).bind fun z11 h11 => ?_
  rw [← pow_add] at h11
  refine (feSquare_reduced h11.loose).bind fun z22 h22 => ?_
  rw [← pow_mul] at h22
  refine (feMul_reduced h22.loose h9.loose).bind fun z5 h5 => ?_
  rw [← pow_add] at h5
  refine (link_reduced (e := 2^10-1) 5 h5 h5 rfl).bind fun z10 h10 => ?_
  refine (link_reduced (e := 2^20-1) 10 h10 h10 rfl).bind fun z20 h20 => ?_
  refine (link_reduced (e := 2^40-1) 20 h20 h20 rfl).bind fun z40 h40 => ?_
  refine (link_reduced (e := 2^50-1) 10 h40 h10 rfl).bind fun z50 h50 => ?_
  refine (link_reduced (e := 2^100-1) 50 h50 h50 rfl).bind fun z100 h100 => ?_
  refine (link_reduced (e := 2^200-1) 100 h100 h100 rfl).bind fun z200 h200 => ?_
  refine (link_reduced (e := 2^250-1) 50 h200 h50 rfl).bind fun z250 h250 => ?_
  exact link_reduced 5 h250 h11 rfl

/-! ## Encodings -/

theorem and_mask51 (x : ℕ) : x &&& mask51 = x%2^51 := Nat.and_two_pow_sub_one_eq_mod x 51

theorem word64_lt (bytes : List UInt8) (i : ℕ) : word64 bytes i < 2^64 := by
  refine (fromLe_lt _).trans_le ?_
  exact Nat.pow_le_pow_right (by decide) (List.length_take_le _ _)

theorem word64_quad (bytes : Bytes 32) :
    Words.number 64 ⟨word64 bytes.toList 0,word64 bytes.toList 1,word64 bytes.toList 2,
      word64 bytes.toList 3⟩ = fromLe bytes.toList := by
  have hl := toList_length' bytes
  conv_rhs => rw [← List.take_of_length_le hl.le]
  rw [fromLe_take_add (n := 8) 24 (by omega),fromLe_take_add (n := 8) 16 (by simp),
    List.drop_drop,fromLe_take_add (n := 8) 8 (by simp),List.drop_drop]
  rfl

theorem fromBytes_number (u : Bytes 32) :
    (fromBytes u).Weak 51 0 ∧ number 51 (fromBytes u) = fromLe u.toList%2^255 := by
  have hq := word64_quad u
  have h0 := word64_lt u.toList 0
  have h1 := word64_lt u.toList 1
  have h2 := word64_lt u.toList 2
  have h3 := word64_lt u.toList 3
  unfold fromBytes
  rw [← hq]
  generalize word64 u.toList 0 = t0 at *
  generalize word64 u.toList 1 = t1 at *
  generalize word64 u.toList 2 = t2 at *
  generalize word64 u.toList 3 = t3 at *
  have low (x : ℕ) : x &&& mask51 < 2^51 := by
    rw [and_mask51]
    exact Nat.mod_lt _ (by decide)
  refine ⟨⟨low _,low _,low _,low _,low _⟩,?_⟩
  simp only [and_mask51,Nat.shiftRight_eq_div_pow]
  rw [or_shl (by omega) (by decide),or_shl (by omega) (by decide),or_shl (by omega) (by decide)]
  simp only [number,Words.number]
  omega

theorem fromBytes_reduced (u : Bytes 32) :
    Reduced (fromBytes u) (fromLe u.toList%2^255 : ℕ) := by
  obtain ⟨⟨w0,w1,w2,w3,w4⟩,hn⟩ := fromBytes_number u
  exact ⟨⟨w0,by omega,w2,w3,w4⟩,by rw [hn]⟩

theorem overflow_yields {l : Limbs} (hw : l.Weak 51 1) :
    (overflow l).Yields (· = (number 51 l+19)/2^255) := by
  obtain ⟨l0,l1,l2,l3,l4⟩ := l
  obtain ⟨w0,w1,w2,w3,w4⟩ := hw
  dsimp only at w0 w1 w2 w3 w4
  simp only [overflow,Nat.shiftRight_eq_div_pow]
  refine (yields_add (by omega)).bind fun q0 e0 => ?_
  refine (yields_add (by omega)).bind fun q1 e1 => ?_
  refine (yields_add (by omega)).bind fun q2 e2 => ?_
  refine (yields_add (by omega)).bind fun q3 e3 => ?_
  refine (yields_add (by omega)).bind fun q4 e4 => ?_
  refine .pure ?_
  simp only [number]
  omega

theorem canonical_yields {l : Limbs} {q : ℕ} (hw : l.Weak 51 1) (hq : q ≤ 1) :
    (canonical l q).Yields fun r =>
      r.Weak 51 0 ∧ number 51 r = (number 51 l+19*q)%2^255 := by
  obtain ⟨l0,l1,l2,l3,l4⟩ := l
  obtain ⟨w0,w1,w2,w3,w4⟩ := hw
  dsimp only at w0 w1 w2 w3 w4
  simp only [canonical,Nat.shiftRight_eq_div_pow,and_mask51]
  refine (yields_mul (by omega)).bind ?_
  rintro _ rfl
  refine (yields_add (by omega)).bind fun q0 e0 => ?_
  refine (yields_add (by omega)).bind fun q1 e1 => ?_
  refine (yields_add (by omega)).bind fun q2 e2 => ?_
  refine (yields_add (by omega)).bind fun q3 e3 => ?_
  refine (yields_add (by omega)).bind fun q4 e4 => ?_
  have low (x : ℕ) : x%2^51 < 2^51 := Nat.mod_lt _ (by decide)
  refine .pure ⟨⟨low _,low _,low _,low _,low _⟩,?_⟩
  simp only [number]
  omega

theorem canonical_mod {v : ℕ} (hv : v < 2*fieldPrime) :
    (v+19)/2^255 ≤ 1 ∧ (v+19*((v+19)/2^255))%2^255 = v%fieldPrime := by
  unfold fieldPrime at *
  by_cases h : v < 2^255-19
  · have hq : (v+19)/2^255 = 0 := by omega
    rw [hq,Nat.mod_eq_of_lt h]
    omega
  · have hq : (v+19)/2^255 = 1 := by omega
    rw [hq]
    omega

theorem pack_number {l : Limbs} (hw : l.Weak 51 0) :
    (pack l).Below 64 ∧ (pack l).number 64 = number 51 l := by
  obtain ⟨l0,l1,l2,l3,l4⟩ := l
  obtain ⟨w0,w1,w2,w3,w4⟩ := hw
  dsimp only at w0 w1 w2 w3 w4
  simp only [pack,Nat.shiftRight_eq_div_pow]
  rw [or_shl w0 (by decide),or_shl (by omega) (by decide),or_shl (by omega) (by decide),
    or_shl (by omega) (by decide)]
  refine ⟨⟨?_,?_,?_,?_⟩,?_⟩
  all_goals
    simp only [Words.number,number]
    omega

theorem carryRoom : Room 64 64 51 19 (2^52) (2^52) 4 2 1 := by constructor <;> norm_num

/-- The encoding is the least residue's, whichever limbs stand for it. -/
theorem toBytes_canonical (hx : Reduced x a) : (toBytes x).Yields (· = leBytes 32 a.val) := by
  obtain ⟨b0,b1,b2,b3,b4⟩ := hx.weak.below.mono (show 2^51+2^13 ≤ 2^52 by decide)
  refine (yields_carry carryRoom fieldPrime_fold ⟨b0,b1,b2,b3,b4⟩).bind ?_
  rintro l ⟨lw,ln⟩
  have hv : number 51 l < 2*fieldPrime := by
    obtain ⟨w0,w1,w2,w3,w4⟩ := lw
    simp only [number,fieldPrime]
    omega
  obtain ⟨hq,hmod⟩ := canonical_mod hv
  refine (overflow_yields lw).bind ?_
  rintro _ rfl
  refine (canonical_yields lw hq).bind ?_
  rintro r ⟨rw',rn⟩
  obtain ⟨pw,pn⟩ := pack_number rw'
  refine .pure (toList_inj ?_)
  have ha : number 51 l%fieldPrime = a.val := by
    rw [← hx.value,ZMod.val_natCast]
    exact ln
  have hn : (pack r).number 64 = a.val := by rw [pn,rn,hmod,ha]
  exact (Words.bytes_eq (n := 8) pw).trans (by rw [hn]; rfl)

end X25519
end WireGuard
