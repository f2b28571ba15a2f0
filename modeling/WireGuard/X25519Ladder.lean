import WireGuard.X25519Field

/-!
# X25519 refines the ladder over the field

The limb state tracks a ladder of residues: every coordinate is reduced and
stands for the ladder's, and the pending swap is its bit. One step keeps this,
so 255 steps do, and the result is the canonical encoding of the quotient.
-/

set_option autoImplicit false

namespace WireGuard
open ByteString Checked Limbs

namespace X25519

/-- The limb state stands for a ladder of residues. -/
structure Tracks (s : State) (l : Ladder Fp) : Prop where
  x2 : Reduced s.x2 l.x2
  z2 : Reduced s.z2 l.z2
  x3 : Reduced s.x3 l.x3
  z3 : Reduced s.z3 l.z3
  swap : s.swap = l.swap.toNat

theorem swapLimb_eq (b : Bool) {x y : ℕ} (hx : x < 2^64) (hy : y < 2^64) :
    swapLimb (wrapSub 64 0 b.toNat) x y = if b then (y,x) else (x,y) := by
  have hxy : x ^^^ y < 2^64 := Nat.xor_lt_two_pow hx hy
  cases b with
  | false =>
    have hmask : wrapSub 64 0 false.toNat = 0 := by decide
    rw [swapLimb,hmask,Nat.zero_and,Nat.xor_zero,Nat.xor_zero]
    rfl
  | true =>
    have hmask : wrapSub 64 0 true.toNat = 2^64-1 := by decide
    rw [swapLimb,hmask,Nat.and_comm,Nat.and_two_pow_sub_one_of_lt_two_pow hxy,
      ← Nat.xor_assoc,Nat.xor_self,Nat.zero_xor,Nat.xor_comm x y,← Nat.xor_assoc,Nat.xor_self,
      Nat.zero_xor]
    rfl

theorem feCswap_eq (b : Bool) {x y : Limbs} (hx : x.Below (2^51+2^13)) (hy : y.Below (2^51+2^13)) :
    feCswap b.toNat x y = if b then (y,x) else (x,y) := by
  have f {i : ℕ} (hi : i ≤ 2^51+2^13) : i < 2^64 := hi.trans_lt (by decide)
  simp only [feCswap,swapLimb_eq b (f hx.l0) (f hy.l0),swapLimb_eq b (f hx.l1) (f hy.l1),
    swapLimb_eq b (f hx.l2) (f hy.l2),swapLimb_eq b (f hx.l3) (f hy.l3),
    swapLimb_eq b (f hx.l4) (f hy.l4)]
  cases b <;> rfl

theorem Tracks.cswap {s : State} {l : Ladder Fp} (h : Tracks s l) (b : Bool) :
    Tracks (s.cswap b.toNat) (l.cswap b) := by
  rw [State.cswap,feCswap_eq b h.x2.weak.below h.x3.weak.below,
    feCswap_eq b h.z2.weak.below h.z3.weak.below]
  cases b with
  | false => exact ⟨h.x2,h.z2,h.x3,h.z3,h.swap⟩
  | true => exact ⟨h.x3,h.z3,h.x2,h.z2,h.swap⟩

theorem Tracks.settle {s : State} {l : Ladder Fp} (h : Tracks s l) :
    Tracks (s.cswap s.swap) (l.cswap l.swap) := by
  rw [h.swap]
  exact h.cswap l.swap

theorem ladderStep_tracks {x1 : Limbs} {u : Fp} (hu : Reduced x1 u) (bit : Bool) {s : State}
    {l : Ladder Fp} (h : Tracks s l) :
    (ladderStep x1 bit.toNat s).Yields (Tracks · (l.step 121665 u bit)) := by
  have hswap : s.swap ^^^ bit.toNat = (l.swap ^^ bit).toNat := by
    rw [h.swap]
    cases l.swap <;> cases bit <;> rfl
  have hc := h.cswap (l.swap ^^ bit)
  unfold ladderStep
  rw [hswap,Ladder.step]
  generalize s.cswap (l.swap ^^ bit).toNat = s' at hc
  generalize l.cswap (l.swap ^^ bit) = l' at hc
  refine (feAdd_loose hc.x2 hc.z2).bind fun a ha => ?_
  refine (feSquare_reduced ha).bind fun aa haa => ?_
  refine (feSub_loose hc.x2 hc.z2).bind fun b hb => ?_
  refine (feSquare_reduced hb).bind fun bb hbb => ?_
  refine (feSub_loose haa hbb).bind fun e he => ?_
  refine (feAdd_loose hc.x3 hc.z3).bind fun c hcc => ?_
  refine (feSub_loose hc.x3 hc.z3).bind fun d hd => ?_
  refine (feMul_reduced hd ha).bind fun da hda => ?_
  refine (feMul_reduced hcc hb).bind fun cb hcb => ?_
  refine (feAdd_loose hda hcb).bind fun p hp => ?_
  refine (feSquare_reduced hp).bind fun x3 hx3 => ?_
  refine (feSub_loose hda hcb).bind fun q hq => ?_
  refine (feSquare_reduced hq).bind fun qq hqq => ?_
  refine (feMul_reduced hu.loose hqq.loose).bind fun z3 hz3 => ?_
  refine (feMul_reduced haa.loose hbb.loose).bind fun x2 hx2 => ?_
  refine (feMulSmall_reduced he).bind fun f hf => ?_
  refine (feAdd_loose haa hf).bind fun g hg => ?_
  refine (feMul_reduced he hg).bind fun z2 hz2 => ?_
  rw [mul_comm _ (121665 : Fp)] at hz2
  exact .pure ⟨hx2,hz2,hx3,hz3,rfl⟩

theorem testBit_fromLe (bs : List UInt8) (t : ℕ) :
    (fromLe bs).testBit t = (bs.getD (t/8) 0).toNat.testBit (t%8) := by
  induction bs generalizing t with
  | nil => simp [fromLe]
  | cons b bs ih =>
    have hb : b.toNat < 2^8 := b.toNat_lt
    rw [fromLe,Nat.add_comm,show (256:ℕ) = 2^8 by rfl,Nat.testBit_two_pow_mul_add _ hb]
    split
    next h => rw [Nat.div_eq_of_lt h,Nat.mod_eq_of_lt h]; rfl
    next h =>
      rw [ih,show t/8 = (t-8)/8+1 by omega,show t%8 = (t-8)%8 by omega]
      rfl

theorem bitAt_eq (k : Bytes 32) (t : ℕ) : bitAt k t = ((fromLe k.toList).testBit t).toNat := by
  rw [testBit_fromLe,Nat.toNat_testBit,bitAt,Nat.shiftRight_eq_div_pow t 3,
    show (7:ℕ) = 2^3-1 by rfl,Nat.and_two_pow_sub_one_eq_mod t 3,Nat.and_one_is_mod,
    Nat.shiftRight_eq_div_pow]

theorem ladder_tracks (k : Bytes 32) {x1 : Limbs} {u : Fp} (hu : Reduced x1 u) (t : ℕ) {s : State}
    {l : Ladder Fp} (h : Tracks s l) :
    (ladder k x1 t s).Yields (Tracks · (l.climb 121665 u (fromLe k.toList) t)) := by
  induction t generalizing s l with
  | zero => exact .pure h
  | succ t ih =>
    rw [ladder,bitAt_eq]
    exact (ladderStep_tracks hu _ h).bind fun s' hs' => ih hs'

theorem start_tracks {x1 : Limbs} {u : Fp} (hu : Reduced x1 u) :
    Tracks ⟨feOne,feZero,x1,feOne,0⟩ (Ladder.start u) := by
  have h1 : Reduced feOne 1 :=
    ⟨⟨by decide,by decide,by decide,by decide,by decide⟩,Nat.cast_one⟩
  have h0 : Reduced feZero 0 :=
    ⟨⟨by decide,by decide,by decide,by decide,by decide⟩,Nat.cast_zero⟩
  exact ⟨h1,h0,hu,h1,rfl⟩

/-- The function of the standard on a clamped scalar and a residue. -/
def quotient (k : ℕ) (u : Fp) : Fp :=
  let l := Ladder.run 121665 u k 255
  l.x2*l.z2^(fieldPrime-2)

theorem x25519_yields (scalar u : Bytes 32) :
    (x25519 scalar u).Yields (· = leBytes 32 (quotient (fromLe (clampScalar scalar).toList)
      (fromLe u.toList%2^255 : ℕ)).val) := by
  have hu := fromBytes_reduced u
  refine (ladder_tracks (clampScalar scalar) hu 255 (start_tracks hu)).bind fun s hs => ?_
  have hc := hs.settle
  refine (invert_reduced hc.z2).bind fun i hi => ?_
  refine (feMul_reduced hc.x2.loose hi.loose).bind fun x hx => ?_
  exact toBytes_canonical hx

/-- For every scalar and every input, canonical or not, the bytes are the least
residue of the standard's quotient, and no word overflowed on the way. -/
theorem x25519_refines (scalar u : Bytes 32) :
    x25519 scalar u = ⟨leBytes 32 (quotient (fromLe (clampScalar scalar).toList)
        (fromLe u.toList%2^255%fieldPrime : ℕ)).val,true⟩ ∧
      fromLe (x25519 scalar u).value.toList < fieldPrime := by
  have he := x25519_yields scalar u
  rw [ZMod.natCast_mod]
  refine ⟨he.eq,?_⟩
  rw [he.2,leBytes_toList,fromLe_toLe]
  exact (Nat.mod_le _ _).trans_lt (ZMod.val_lt _)

end X25519
end WireGuard
