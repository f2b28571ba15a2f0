import WireGuard.Library.Blocks
import WireGuard.Library.Ladder
import WireGuard.Library.Limbs
import WireGuard.Primitives

/-!
# X25519 on 51-bit limbs

Field elements are five limbs of 51 bits in 64-bit words; columns of a product
are 128-bit words. Every sum, difference, product and carry is a checked
operation. The conditional swap's mask wraps on purpose and the packing of
bytes works on windows.
-/

set_option autoImplicit false

namespace WireGuard
open ByteString Checked Limbs

namespace X25519

def mask51 : ℕ := 1<<<51-1

def twoP : Limbs := ⟨0x000fffffffffffda,0x000ffffffffffffe,0x000ffffffffffffe,
  0x000ffffffffffffe,0x000ffffffffffffe⟩

def feZero : Limbs := ⟨0,0,0,0,0⟩

def feOne : Limbs := ⟨1,0,0,0,0⟩

def word64 (bytes : List UInt8) (i : ℕ) : ℕ := fromLe ((bytes.drop (8*i)).take 8)

def fromBytes (bytes : Bytes 32) : Limbs :=
  let t0 := word64 bytes.toList 0
  let t1 := word64 bytes.toList 1
  let t2 := word64 bytes.toList 2
  let t3 := word64 bytes.toList 3
  ⟨t0 &&& mask51,(t0>>>51 ||| shl 64 t1 13) &&& mask51,(t1>>>38 ||| shl 64 t2 26) &&& mask51,
    (t2>>>25 ||| shl 64 t3 39) &&& mask51,t3>>>12 &&& mask51⟩

/-- The carry out of bit 255 after 19 is added. -/
def overflow (l : Limbs) : Checked ℕ := do
  let q ← add 64 l.l0 19
  let q ← add 64 l.l1 (q>>>51)
  let q ← add 64 l.l2 (q>>>51)
  let q ← add 64 l.l3 (q>>>51)
  let q ← add 64 l.l4 (q>>>51)
  pure (q>>>51)

/-- `19*q` is added and bit 255 dropped. -/
def canonical (l : Limbs) (q : ℕ) : Checked Limbs := do
  let fold ← mul 64 q 19
  let l0 ← add 64 l.l0 fold
  let l1 ← add 64 l.l1 (l0>>>51)
  let l2 ← add 64 l.l2 (l1>>>51)
  let l3 ← add 64 l.l3 (l2>>>51)
  let l4 ← add 64 l.l4 (l3>>>51)
  pure ⟨l0 &&& mask51,l1 &&& mask51,l2 &&& mask51,l3 &&& mask51,l4 &&& mask51⟩

def pack (l : Limbs) : Words where
  w0 := l.l0 ||| shl 64 l.l1 51
  w1 := l.l1>>>13 ||| shl 64 l.l2 38
  w2 := l.l2>>>26 ||| shl 64 l.l3 25
  w3 := l.l3>>>39 ||| shl 64 l.l4 12

def toBytes (x : Limbs) : Checked (Bytes 32) := do
  let l ← carry 64 64 51 19 x
  let q ← overflow l
  let l ← canonical l q
  pure ⟨Words.bytes 8 (pack l),Words.bytes_length 8 (pack l)⟩

def feAdd (x y : Limbs) : Checked Limbs := plus 64 x y

def feSub (x y : Limbs) : Checked Limbs := do
  let z ← plus 64 x twoP
  minus 64 z y

def feMul (x y : Limbs) : Checked Limbs := multiply 128 64 51 19 x y

def feSquare (x : Limbs) : Checked Limbs := do
  let d0 ← mul 64 x.l0 2
  let d1 ← mul 64 x.l1 2
  let d2 ← mul 64 x.l2 2
  let d3 ← mul 64 x.l3 2
  let s3 ← mul 64 x.l3 19
  let s4 ← mul 64 x.l4 19
  let t0 ← dot 128 [(x.l0,x.l0),(d1,s4),(d2,s3)]
  let t1 ← dot 128 [(d0,x.l1),(d2,s4),(x.l3,s3)]
  let t2 ← dot 128 [(d0,x.l2),(x.l1,x.l1),(d3,s4)]
  let t3 ← dot 128 [(d0,x.l3),(d1,x.l2),(x.l4,s4)]
  let t4 ← dot 128 [(d0,x.l4),(d1,x.l3),(x.l2,x.l2)]
  carry 128 64 51 19 ⟨t0,t1,t2,t3,t4⟩

def feMulSmall (x : Limbs) (k : ℕ) : Checked Limbs := do
  let t0 ← mul 128 x.l0 k
  let t1 ← mul 128 x.l1 k
  let t2 ← mul 128 x.l2 k
  let t3 ← mul 128 x.l3 k
  let t4 ← mul 128 x.l4 k
  carry 128 64 51 19 ⟨t0,t1,t2,t3,t4⟩

def nsquare : ℕ → Limbs → Checked Limbs
  | 0, x => pure x
  | n+1, x => do
    let y ← feSquare x
    nsquare n y

def link (x : Limbs) (n : ℕ) (y : Limbs) : Checked Limbs := do
  let z ← nsquare n x
  feMul z y

def invert (z : Limbs) : Checked Limbs := do
  let z2 ← feSquare z
  let z9 ← link z2 2 z
  let z11 ← feMul z9 z2
  let z22 ← feSquare z11
  let z_5_0 ← feMul z22 z9
  let z_10_0 ← link z_5_0 5 z_5_0
  let z_20_0 ← link z_10_0 10 z_10_0
  let z_40_0 ← link z_20_0 20 z_20_0
  let z_50_0 ← link z_40_0 10 z_10_0
  let z_100_0 ← link z_50_0 50 z_50_0
  let z_200_0 ← link z_100_0 100 z_100_0
  let z_250_0 ← link z_200_0 50 z_50_0
  link z_250_0 5 z11

def swapLimb (mask x y : ℕ) : ℕ × ℕ :=
  let t := mask &&& (x ^^^ y)
  (x ^^^ t,y ^^^ t)

def feCswap (swap : ℕ) (a b : Limbs) : Limbs × Limbs :=
  let mask := wrapSub 64 0 swap
  let c0 := swapLimb mask a.l0 b.l0
  let c1 := swapLimb mask a.l1 b.l1
  let c2 := swapLimb mask a.l2 b.l2
  let c3 := swapLimb mask a.l3 b.l3
  let c4 := swapLimb mask a.l4 b.l4
  (⟨c0.1,c1.1,c2.1,c3.1,c4.1⟩,⟨c0.2,c1.2,c2.2,c3.2,c4.2⟩)

structure State where
  x2 : Limbs
  z2 : Limbs
  x3 : Limbs
  z3 : Limbs
  swap : ℕ

def State.cswap (s : State) (swap : ℕ) : State :=
  let x := feCswap swap s.x2 s.x3
  let z := feCswap swap s.z2 s.z3
  ⟨x.1,z.1,x.2,z.2,s.swap⟩

def bitAt (k : Bytes 32) (t : ℕ) : ℕ :=
  (k.toList.getD (t>>>3) 0).toNat>>>(t &&& 7) &&& 1

def ladderStep (x1 : Limbs) (bit : ℕ) (s : State) : Checked State := do
  let s := s.cswap (s.swap ^^^ bit)
  let a ← feAdd s.x2 s.z2
  let aa ← feSquare a
  let b ← feSub s.x2 s.z2
  let bb ← feSquare b
  let e ← feSub aa bb
  let c ← feAdd s.x3 s.z3
  let d ← feSub s.x3 s.z3
  let da ← feMul d a
  let cb ← feMul c b
  let u ← feAdd da cb
  let x3 ← feSquare u
  let v ← feSub da cb
  let vv ← feSquare v
  let z3 ← feMul x1 vv
  let x2 ← feMul aa bb
  let f ← feMulSmall e 121665
  let g ← feAdd aa f
  let z2 ← feMul e g
  pure ⟨x2,z2,x3,z3,bit⟩

def ladder (k : Bytes 32) (x1 : Limbs) : ℕ → State → Checked State
  | 0, s => pure s
  | t+1, s => do
    let s ← ladderStep x1 (bitAt k t) s
    ladder k x1 t s

def x25519 (scalar u : Bytes 32) : Checked (Bytes 32) := do
  let k := clampScalar scalar
  let x1 := fromBytes u
  let s ← ladder k x1 255 ⟨feOne,feZero,x1,feOne,0⟩
  let s := s.cswap s.swap
  let i ← invert s.z2
  let x ← feMul s.x2 i
  toBytes x

end X25519
end WireGuard
