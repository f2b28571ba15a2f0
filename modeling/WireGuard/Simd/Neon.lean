import WireGuard.ChaCha20

/-!
# The blocks of the NEON backend

The intrinsics as their documentation gives them. A register is read as words, as
halves, as bytes or as pairs of words, least significant first.
-/

set_option autoImplicit false

namespace WireGuard.Neon
open Lanes ChaCha20

abbrev U16x8 := Vector UInt16 8

abbrev U8x16 := Vector UInt8 16

abbrev U64x2 := Vector (UInt32 × UInt32) 2

def vaddqU32 (a b : Vec) : Vec := Vector.zipWith (fun x y => x+y) a b

def veorqU32 (a b : Vec) : Vec := Vector.zipWith (fun x y => x ^^^ y) a b

def vdupqNU32 (x : UInt32) : Vec := quad x x x x

def vld1qU32 (words : Vector UInt32 4) : Vec := words

def vshrqNU32 (a : Vec) (n : UInt32) : Vec := a.map (fun x => x >>> n)

/-- Shift `b` to the left and keep the low bits of `a`. -/
def vsliqNU32 (a b : Vec) (n : UInt32) : Vec :=
  Vector.zipWith (fun x y => (y <<< n) ||| (x &&& ((1 <<< n)-1))) a b

def half (w : UInt32) (j : ℕ) : UInt16 := UInt16.ofNat (w.toNat/65536^j)

def vreinterpretqU16U32 (v : Vec) : U16x8 :=
  Vector.ofFn (fun i => half v[i.val/2] (i.val%2))

def vreinterpretqU32U16 (v : U16x8) : Vec :=
  Vector.ofFn (fun l => UInt32.ofNat (v[2*l.val].toNat+65536*v[2*l.val+1].toNat))

def vrev32qU16 (v : U16x8) : U16x8 := Vector.ofFn (fun i => v[2*(i.val/2)+(1-i.val%2)])

def vreinterpretqU8U32 (v : Vec) : U8x16 := Vector.ofFn (byteAt v)

def vreinterpretqU32U8 (v : U8x16) : Vec := ofBytes (fun i => v[i])

/-- The bytes of the table at the indices; an index past its end gives zero. -/
def vqtbl1qU8 (table index : U8x16) : U8x16 :=
  Vector.ofFn (fun i => if h : index[i].toNat < 16 then table[index[i].toNat] else 0)

def vtrnqU32 (a b : Vec) : Vec × Vec :=
  (quad (lane a 0) (lane b 0) (lane a 2) (lane b 2),
    quad (lane a 1) (lane b 1) (lane a 3) (lane b 3))

def vreinterpretqU64U32 (v : Vec) : U64x2 := #v[(lane v 0,lane v 1),(lane v 2,lane v 3)]

def vreinterpretqU32U64 (v : U64x2) : Vec := quad (v.get 0).1 (v.get 0).2 (v.get 1).1 (v.get 1).2

def vtrn1qU64 (a b : U64x2) : U64x2 := #v[a.get 0,b.get 0]

def vtrn2qU64 (a b : U64x2) : U64x2 := #v[a.get 1,b.get 1]

def rol8Idx : U8x16 := #v[3,0,1,2,7,4,5,6,11,8,9,10,15,12,13,14]

def rotl16 (v : Vec) : Vec := vreinterpretqU32U16 (vrev32qU16 (vreinterpretqU16U32 v))

def rotl8 (v : Vec) : Vec := vreinterpretqU32U8 (vqtbl1qU8 (vreinterpretqU8U32 v) rol8Idx)

def rotl (v : Vec) (n : UInt32) : Vec := vsliqNU32 (vshrqNU32 v (32-n)) v n

def transpose4 (a b c d : Vec) : Vec × Vec × Vec × Vec :=
  let ab := vtrnqU32 a b
  let cd := vtrnqU32 c d
  let ac0 := vtrn1qU64 (vreinterpretqU64U32 ab.1) (vreinterpretqU64U32 cd.1)
  let ac1 := vtrn2qU64 (vreinterpretqU64U32 ab.1) (vreinterpretqU64U32 cd.1)
  let bd0 := vtrn1qU64 (vreinterpretqU64U32 ab.2) (vreinterpretqU64U32 cd.2)
  let bd1 := vtrn2qU64 (vreinterpretqU64U32 ab.2) (vreinterpretqU64U32 cd.2)
  (vreinterpretqU32U64 ac0,vreinterpretqU32U64 bd0,vreinterpretqU32U64 ac1,
    vreinterpretqU32U64 bd1)

def four : Four where
  ops :=
    { add := vaddqU32
      xor := veorqU32
      rotl16 := rotl16
      rotl12 := fun v => rotl v 12
      rotl8 := rotl8
      rotl7 := fun v => rotl v 7 }
  splat := vdupqNU32
  ctrs ctr := vld1qU32 (quad ctr (ctr+1) (ctr+2) (ctr+3))
  transpose4 := transpose4

def fourBlocks (key : Vector UInt32 8) (nonce : Vector UInt32 3) (ctr : UInt32) : List UInt8 :=
  four.fourBlocks key nonce ctr

theorem rotl_lane (v : Vec) (n : UInt32) (h0 : 0 < n.toNat) (h : n.toNat < 32) (i : Fin 4) :
    (rotl v n).get i = rotateLeft n (v.get i) := by
  unfold rotl vsliqNU32 vshrqNU32 rotateLeft
  rw [get_zipWith,get_map,shiftRight_mask n _ h0 h]

theorem halves_rotateLeft (w : UInt32) :
    UInt32.ofNat ((half w 1).toNat+65536*(half w 0).toNat) = rotateLeft 16 w := by
  have hw := w.toNat_lt
  have hm : w.toNat*2^16%2^32 = w.toNat%2^16*2^16 := Nat.mul_mod_mul_right (2^16) w.toNat (2^16)
  have hq : w.toNat/2^16 < 2^16 := by omega
  have hr : w.toNat%2^16 < 2^16 := Nat.mod_lt _ (by decide)
  apply UInt32.toNat.inj
  rw [rotateLeft_toNat 16 w (by decide) (by decide),show (16 : UInt32).toNat = 16 from rfl,hm]
  simp only [half,UInt32.toNat_ofNat',UInt16.toNat_ofNat',pow_zero,pow_one,Nat.div_one]
  rw [show (65536 : ℕ) = 2^16 from rfl,Nat.mod_eq_of_lt hq,Nat.mod_eq_of_lt (by omega)]
  omega

theorem rotl16_lane (v : Vec) (i : Fin 4) : (rotl16 v).get i = rotateLeft 16 (v.get i) := by
  rw [← halves_rotateLeft]
  revert i
  exact forall_lane rfl rfl rfl rfl

theorem rotl8_eq (v : Vec) : rotl8 v = ofBytes (fun i =>
    if h : rol8Idx[i].toNat < 16 then byteAt v ⟨rol8Idx[i].toNat,h⟩ else 0) := by
  unfold rotl8 vreinterpretqU32U8 vqtbl1qU8 vreinterpretqU8U32
  simp only [Fin.getElem_fin,Vector.getElem_ofFn]

theorem rotl8_lane (v : Vec) (i : Fin 4) : (rotl8 v).get i = rotateLeft 8 (v.get i) := by
  rw [rotl8_eq,← word_rotateLeft_8]
  revert i
  exact forall_lane rfl rfl rfl rfl

theorem four_lawful : four.Lawful where
  lanewise i :=
    { add := fun a b => get_zipWith _ a b i
      xor := fun a b => get_zipWith _ a b i
      rotl16 := fun v => rotl16_lane v i
      rotl12 := fun v => rotl_lane v 12 (by decide) (by decide) i
      rotl8 := fun v => rotl8_lane v i
      rotl7 := fun v => rotl_lane v 7 (by decide) (by decide) i }
  splat x := forall_lane rfl rfl rfl rfl
  ctrs ctr := forall_lane (UInt32.add_zero ctr).symm rfl rfl rfl
  transpose4 a b c d := rfl

theorem fourBlocks_eq (key : Vector UInt32 8) (nonce : Vector UInt32 3) (ctr : UInt32) :
    fourBlocks key nonce ctr = blocks 4 key nonce ctr :=
  four_lawful.fourBlocks_eq key nonce ctr

end WireGuard.Neon
