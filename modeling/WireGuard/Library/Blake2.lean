import Mathlib.Algebra.Order.Floor.Div
import Mathlib.Data.List.GetD
import WireGuard.Library.Blocks
import WireGuard.Library.Lanes

/-!
# BLAKE2

The hash functions of RFC 7693 on numbers, for any size of word. A message, with
the padded key in front if there is one, is cut into blocks, the last filled up
with zeros; each block is compressed together with the number of bytes so far.
-/

set_option autoImplicit false

namespace ByteString

def blockAt (n : ℕ) (s : List UInt8) (i : ℕ) : Bytes n :=
  List.Vector.ofFn (fun j => s.getD (n*i+j.val) 0)

theorem blockAt_get (n : ℕ) (s : List UInt8) (i : ℕ) (j : Fin n) :
    (blockAt n s i).get j = s.getD (n*i+j.val) 0 := by
  simp [blockAt]

theorem blockAt_append {n i : ℕ} {s : List UInt8} (x : List UInt8) (h : n*(i+1) ≤ s.length) :
    blockAt n (s++x) i = blockAt n s i := by
  apply List.Vector.ext
  intro j
  have hj := j.isLt
  rw [Nat.mul_succ] at h
  rw [blockAt_get,blockAt_get,List.getD_append _ _ _ _ (by omega)]

theorem blockAt_eq {n i : ℕ} {s : List UInt8} {b : Bytes n}
    (h : b.toList = s.drop (n*i)++List.replicate (n*(i+1)-s.length) 0) : b = blockAt n s i := by
  apply List.Vector.ext
  intro j
  rw [blockAt_get]
  have hj := j.isLt
  have hg : b.get j = b.toList.getD j.val 0 := by
    rw [List.getD_eq_getElem _ _ (by simp),List.Vector.get_eq_get_toList]
    rfl
  rw [hg,h,Nat.mul_succ]
  by_cases hs : n*i+j.val < s.length
  · rw [List.getD_append _ _ _ _ (by simp; omega)]
    simp [List.getD,List.getElem?_drop]
  · rw [List.getD_append_right _ _ _ _ (by simp; omega),List.getD_eq_default s _ (by omega)]
    simp only [List.getD,List.getElem?_replicate]
    split_ifs <;> rfl

end ByteString

namespace Blake2
open ByteString Lanes

/-- What tells BLAKE2b and BLAKE2s apart: the bytes of a word, the rounds, the
rotations and the initialization vector. -/
structure Variant where
  wordBytes : ℕ
  rounds : ℕ
  r1 : ℕ
  r2 : ℕ
  r3 : ℕ
  r4 : ℕ
  iv : Vector ℕ 8

namespace Variant

-- Named, so that every index below carries the same proof.
local instance neZero8 : NeZero 8 := ⟨by decide⟩

local instance neZero16 : NeZero 16 := ⟨by decide⟩

variable (B : Variant)

def w : ℕ := 8*B.wordBytes

def blockBytes : ℕ := 16*B.wordBytes

def rotr (n x : ℕ) : ℕ := x >>> n ||| x <<< (B.w-n)%2^B.w

/-- The message word schedule. -/
def sigma : Vector (Vector (Fin 16) 16) 10 :=
  #v[#v[0,1,2,3,4,5,6,7,8,9,10,11,12,13,14,15],
    #v[14,10,4,8,9,15,13,6,1,12,0,2,11,7,5,3],
    #v[11,8,12,0,5,2,15,13,10,14,3,6,7,1,9,4],
    #v[7,9,3,1,13,12,11,14,2,6,5,10,4,0,15,8],
    #v[9,0,5,7,2,4,10,15,14,1,11,12,6,8,3,13],
    #v[2,12,6,10,0,11,8,3,4,13,7,5,15,14,1,9],
    #v[12,5,1,15,14,13,4,10,0,7,6,3,9,2,8,11],
    #v[13,11,7,14,12,1,3,9,5,0,15,4,8,6,2,10],
    #v[6,15,14,9,11,3,0,8,12,2,13,7,1,4,10,5],
    #v[10,2,8,4,7,6,1,5,15,11,9,14,3,12,13,0]]

def mix (x y a b c d : ℕ) : ℕ × ℕ × ℕ × ℕ :=
  let a := (a+b+x)%2^B.w
  let d := B.rotr B.r1 (d ^^^ a)
  let c := (c+d)%2^B.w
  let b := B.rotr B.r2 (b ^^^ c)
  let a := (a+b+y)%2^B.w
  let d := B.rotr B.r3 (d ^^^ a)
  let c := (c+d)%2^B.w
  let b := B.rotr B.r4 (b ^^^ c)
  (a,b,c,d)

def round (m v : Vector ℕ 16) (s : Vector (Fin 16) 16) : Vector ℕ 16 :=
  let word (i : Fin 16) : ℕ := m.get (s.get i)
  let v := at4 (B.mix (word 0) (word 1)) 0 4 8 12 v
  let v := at4 (B.mix (word 2) (word 3)) 1 5 9 13 v
  let v := at4 (B.mix (word 4) (word 5)) 2 6 10 14 v
  let v := at4 (B.mix (word 6) (word 7)) 3 7 11 15 v
  let v := at4 (B.mix (word 8) (word 9)) 0 5 10 15 v
  let v := at4 (B.mix (word 10) (word 11)) 1 6 11 12 v
  let v := at4 (B.mix (word 12) (word 13)) 2 7 8 13 v
  at4 (B.mix (word 14) (word 15)) 3 4 9 14 v

/-- The local vector before the rounds. -/
def start (h : Vector ℕ 8) (t : ℕ) (last : Bool) : Vector ℕ 16 :=
  let v : Vector ℕ 16 := h++B.iv
  let v := at1 (· ^^^ t%2^B.w) 12 v
  let v := at1 (· ^^^ t/2^B.w) 13 v
  if last then at1 (· ^^^ (2^B.w-1)) 14 v else v

/-- The compression function `F`. -/
def compress (h : Vector ℕ 8) (m : Vector ℕ 16) (t : ℕ) (last : Bool) : Vector ℕ 8 :=
  let v := (List.range B.rounds).foldl (fun v i => B.round m v (sigma.get (Fin.ofNat 10 i)))
    (B.start h t last)
  Vector.ofFn (fun i : Fin 8 => h.get i ^^^ v.get (i.castAdd 8) ^^^ v.get (i.natAdd 8))

def words (block : List UInt8) : Vector ℕ 16 :=
  Vector.ofFn (fun i => fromLe ((block.drop (B.wordBytes*i.val)).take B.wordBytes))

/-- The state before the first block: the lengths of the key and of the digest are
mixed into the first word. -/
def parameters (kk nn : ℕ) : Vector ℕ 8 :=
  at1 (· ^^^ (0x01010000 ^^^ kk <<< 8 ^^^ nn)) 0 B.iv

/-- What is hashed: the message behind the key, if there is one. -/
def data (key message : List UInt8) : List UInt8 :=
  if key = [] then message
  else key++List.replicate (B.blockBytes-key.length) 0++message

/-- The first `nn` bytes of the state after the last block. -/
def digest (key message : List UInt8) (nn : ℕ) : List UInt8 :=
  let data := B.data key message
  let block (i : ℕ) : Vector ℕ 16 := B.words (blockAt B.blockBytes data i).toList
  let dd := max 1 (data.length ⌈/⌉ B.blockBytes)
  let h := (List.range (dd-1)).foldl
    (fun h i => B.compress h (block i) ((i+1)*B.blockBytes) false) (B.parameters key.length nn)
  let h := B.compress h (block (dd-1)) data.length true
  (h.toList.flatMap (toLe B.wordBytes)).take nn

end Variant

/-- The square roots of the first eight primes, the first 32 bits behind the point. -/
def fractions : Vector ℕ 8 :=
  #v[2,3,5,7,11,13,17,19].map (fun p => Nat.sqrt (p*2^64)%2^32)

def s : Variant := ⟨4,10,16,12,8,7,fractions⟩

end Blake2
