import WireGuard.ChaCha20

/-!
# The blocks of the AVX2 backends

The intrinsics as their documentation gives them: a 128-bit register is four words,
a 256-bit register two such halves, and every operation here stays within a half.
Both block functions run the rounds on these registers.
-/

set_option autoImplicit false

namespace WireGuard.Avx2
open Lanes ChaCha20

def mmAddEpi32 (a b : Vec) : Vec := Vector.zipWith (fun x y => x+y) a b

def mmXorSi128 (a b : Vec) : Vec := Vector.zipWith (fun x y => x ^^^ y) a b

def mmOrSi128 (a b : Vec) : Vec := Vector.zipWith (fun x y => x ||| y) a b

def mmSlliEpi32 (a : Vec) (n : UInt32) : Vec := a.map (fun x => if n < 32 then x <<< n else 0)

def mmSrliEpi32 (a : Vec) (n : UInt32) : Vec := a.map (fun x => if n < 32 then x >>> n else 0)

def mmSet1Epi32 (x : UInt32) : Vec := quad x x x x

def mmSetEpi32 (e3 e2 e1 e0 : UInt32) : Vec := quad e0 e1 e2 e3

/-- The bytes are given from the last to the first. -/
def mmSetEpi8 (e : Vector UInt8 16) : Vec := ofBytes (fun i => e[15-i.val])

/-- Each byte of `b` names a byte of `a` by its low bits, or zero by its high one. -/
def mmShuffleEpi8 (a b : Vec) : Vec := ofBytes (fun i =>
  if 128 ≤ (byteAt b i).toNat then 0 else byteAt a ⟨(byteAt b i).toNat%16,Nat.mod_lt _ (by decide)⟩)

def mmUnpackloEpi32 (a b : Vec) : Vec := quad (lane a 0) (lane b 0) (lane a 1) (lane b 1)

def mmUnpackhiEpi32 (a b : Vec) : Vec := quad (lane a 2) (lane b 2) (lane a 3) (lane b 3)

def mmUnpackloEpi64 (a b : Vec) : Vec := quad (lane a 0) (lane a 1) (lane b 0) (lane b 1)

def mmUnpackhiEpi64 (a b : Vec) : Vec := quad (lane a 2) (lane a 3) (lane b 2) (lane b 3)

def rol16 : Vec := mmSetEpi8 #v[13,12,15,14,9,8,11,10,5,4,7,6,1,0,3,2]

def rol8 : Vec := mmSetEpi8 #v[14,13,12,15,10,9,8,11,6,5,4,7,2,1,0,3]

def rotl (v : Vec) (n : UInt32) : Vec := mmOrSi128 (mmSlliEpi32 v n) (mmSrliEpi32 v (32-n))

def transpose4 (a b c d : Vec) : Vec × Vec × Vec × Vec :=
  let t0 := mmUnpackloEpi32 a b
  let t1 := mmUnpackloEpi32 c d
  let t2 := mmUnpackhiEpi32 a b
  let t3 := mmUnpackhiEpi32 c d
  (mmUnpackloEpi64 t0 t1,mmUnpackhiEpi64 t0 t1,mmUnpackloEpi64 t2 t3,mmUnpackhiEpi64 t2 t3)

def four : Four where
  ops :=
    { add := mmAddEpi32
      xor := mmXorSi128
      rotl16 := fun v => mmShuffleEpi8 v rol16
      rotl12 := fun v => rotl v 12
      rotl8 := fun v => mmShuffleEpi8 v rol8
      rotl7 := fun v => rotl v 7 }
  splat := mmSet1Epi32
  ctrs ctr := mmSetEpi32 (ctr+3) (ctr+2) (ctr+1) ctr
  transpose4 := transpose4

def fourBlocks (key : Vector UInt32 8) (nonce : Vector UInt32 3) (ctr : UInt32) : List UInt8 :=
  four.fourBlocks key nonce ctr

section Lanes

theorem rotl_lane (v : Vec) (n : UInt32) (h0 : 0 < n.toNat) (h : n.toNat < 32) (i : Fin 4) :
    (rotl v n).get i = rotateLeft n (v.get i) := by
  have hl : n < 32 := UInt32.lt_iff_toNat_lt.mpr h
  have hr : 32-n < 32 := by
    rw [UInt32.lt_iff_toNat_lt,sub_toNat h]
    exact Nat.sub_lt (by decide) h0
  unfold rotl mmOrSi128 mmSlliEpi32 mmSrliEpi32 rotateLeft
  rw [get_zipWith,get_map,get_map,if_pos hl,if_pos hr]

theorem rol16_lane (v : Vec) (i : Fin 4) :
    (mmShuffleEpi8 v rol16).get i = rotateLeft 16 (v.get i) := by
  rw [← word_rotateLeft_16]
  revert i
  exact forall_lane rfl rfl rfl rfl

theorem rol8_lane (v : Vec) (i : Fin 4) :
    (mmShuffleEpi8 v rol8).get i = rotateLeft 8 (v.get i) := by
  rw [← word_rotateLeft_8]
  revert i
  exact forall_lane rfl rfl rfl rfl

end Lanes

theorem four_lawful : four.Lawful where
  lanewise i :=
    { add := fun a b => get_zipWith _ a b i
      xor := fun a b => get_zipWith _ a b i
      rotl16 := fun v => rol16_lane v i
      rotl12 := fun v => rotl_lane v 12 (by decide) (by decide) i
      rotl8 := fun v => rol8_lane v i
      rotl7 := fun v => rotl_lane v 7 (by decide) (by decide) i }
  splat x := forall_lane rfl rfl rfl rfl
  ctrs ctr := forall_lane (UInt32.add_zero ctr).symm rfl rfl rfl
  transpose4 a b c d := rfl

theorem fourBlocks_eq (key : Vector UInt32 8) (nonce : Vector UInt32 3) (ctr : UInt32) :
    fourBlocks key nonce ctr = blocks 4 key nonce ctr :=
  four_lawful.fourBlocks_eq key nonce ctr

/-- A register of 256 bits: its low half and its high half. -/
abbrev M256 := Vec × Vec

def mm256AddEpi32 (a b : M256) : M256 := (mmAddEpi32 a.1 b.1,mmAddEpi32 a.2 b.2)

def mm256XorSi256 (a b : M256) : M256 := (mmXorSi128 a.1 b.1,mmXorSi128 a.2 b.2)

def mm256OrSi256 (a b : M256) : M256 := (mmOrSi128 a.1 b.1,mmOrSi128 a.2 b.2)

def mm256SlliEpi32 (a : M256) (n : UInt32) : M256 := (mmSlliEpi32 a.1 n,mmSlliEpi32 a.2 n)

def mm256SrliEpi32 (a : M256) (n : UInt32) : M256 := (mmSrliEpi32 a.1 n,mmSrliEpi32 a.2 n)

def mm256Set1Epi32 (x : UInt32) : M256 := (mmSet1Epi32 x,mmSet1Epi32 x)

def mm256SetEpi32 (e7 e6 e5 e4 e3 e2 e1 e0 : UInt32) : M256 :=
  (mmSetEpi32 e3 e2 e1 e0,mmSetEpi32 e7 e6 e5 e4)

def mm256Broadcastsi128Si256 (a : Vec) : M256 := (a,a)

def mm256ShuffleEpi8 (a b : M256) : M256 := (mmShuffleEpi8 a.1 b.1,mmShuffleEpi8 a.2 b.2)

def mm256UnpackloEpi32 (a b : M256) : M256 := (mmUnpackloEpi32 a.1 b.1,mmUnpackloEpi32 a.2 b.2)

def mm256UnpackhiEpi32 (a b : M256) : M256 := (mmUnpackhiEpi32 a.1 b.1,mmUnpackhiEpi32 a.2 b.2)

def mm256UnpackloEpi64 (a b : M256) : M256 := (mmUnpackloEpi64 a.1 b.1,mmUnpackloEpi64 a.2 b.2)

def mm256UnpackhiEpi64 (a b : M256) : M256 := (mmUnpackhiEpi64 a.1 b.1,mmUnpackhiEpi64 a.2 b.2)

def mm256Castsi256Si128 (a : M256) : Vec := a.1

def mm256Extracti128Si256 (a : M256) (half : Bool) : Vec := if half then a.2 else a.1

def rotl256 (v : M256) (n : UInt32) : M256 :=
  mm256OrSi256 (mm256SlliEpi32 v n) (mm256SrliEpi32 v (32-n))

def ops256 : WordOps M256 where
  add := mm256AddEpi32
  xor := mm256XorSi256
  rotl16 v := mm256ShuffleEpi8 v (mm256Broadcastsi128Si256 rol16)
  rotl12 v := rotl256 v 12
  rotl8 v := mm256ShuffleEpi8 v (mm256Broadcastsi128Si256 rol8)
  rotl7 v := rotl256 v 7

def transpose4x256 (a b c d : M256) : M256 × M256 × M256 × M256 :=
  let t0 := mm256UnpackloEpi32 a b
  let t1 := mm256UnpackloEpi32 c d
  let t2 := mm256UnpackhiEpi32 a b
  let t3 := mm256UnpackhiEpi32 c d
  (mm256UnpackloEpi64 t0 t1,mm256UnpackhiEpi64 t0 t1,mm256UnpackloEpi64 t2 t3,
    mm256UnpackhiEpi64 t2 t3)

def emitBlock (base : ℕ) (half : M256 → Vec) (r0 r1 r2 r3 : M256) : List (ℕ × List UInt8) :=
  [(base,bytes (half r0)),(base+16,bytes (half r1)),(base+32,bytes (half r2)),
    (base+48,bytes (half r3))]

def eightBlocks (key : Vector UInt32 8) (nonce : Vector UInt32 3) (ctr : UInt32) : List UInt8 :=
  let s := initial mm256Set1Epi32 (mm256SetEpi32 (ctr+7) (ctr+6) (ctr+5) (ctr+4) (ctr+3) (ctr+2)
    (ctr+1) ctr) key nonce
  let x := transposed transpose4x256 (worked ops256 s)
  let lo := mm256Castsi256Si128
  let hi := fun v => mm256Extracti128Si256 v true
  (emitBlock 0 lo (reg x 0) (reg x 4) (reg x 8) (reg x 12)++
    emitBlock 64 lo (reg x 1) (reg x 5) (reg x 9) (reg x 13)++
    emitBlock 128 lo (reg x 2) (reg x 6) (reg x 10) (reg x 14)++
    emitBlock 192 lo (reg x 3) (reg x 7) (reg x 11) (reg x 15)++
    emitBlock 256 hi (reg x 0) (reg x 4) (reg x 8) (reg x 12)++
    emitBlock 320 hi (reg x 1) (reg x 5) (reg x 9) (reg x 13)++
    emitBlock 384 hi (reg x 2) (reg x 6) (reg x 10) (reg x 14)++
    emitBlock 448 hi (reg x 3) (reg x 7) (reg x 11) (reg x 15)).foldl store
      (List.replicate 512 0)

theorem ops256_fst : ops256.Hom four.ops Prod.fst :=
  ⟨fun _ _ => rfl,fun _ _ => rfl,fun _ => rfl,fun _ => rfl,fun _ => rfl,fun _ => rfl⟩

theorem ops256_snd : ops256.Hom four.ops Prod.snd :=
  ⟨fun _ _ => rfl,fun _ _ => rfl,fun _ => rfl,fun _ => rfl,fun _ => rfl,fun _ => rfl⟩

theorem emit_rows (x : Vector M256 16) :
    (emitBlock 0 mm256Castsi256Si128 (reg x 0) (reg x 4) (reg x 8) (reg x 12)++
      emitBlock 64 mm256Castsi256Si128 (reg x 1) (reg x 5) (reg x 9) (reg x 13)++
      emitBlock 128 mm256Castsi256Si128 (reg x 2) (reg x 6) (reg x 10) (reg x 14)++
      emitBlock 192 mm256Castsi256Si128 (reg x 3) (reg x 7) (reg x 11) (reg x 15)++
      emitBlock 256 (fun v => mm256Extracti128Si256 v true) (reg x 0) (reg x 4) (reg x 8) (reg x 12)++
      emitBlock 320 (fun v => mm256Extracti128Si256 v true) (reg x 1) (reg x 5) (reg x 9) (reg x 13)++
      emitBlock 384 (fun v => mm256Extracti128Si256 v true) (reg x 2) (reg x 6) (reg x 10) (reg x 14)++
      emitBlock 448 (fun v => mm256Extracti128Si256 v true) (reg x 3) (reg x 7) (reg x 11)
        (reg x 15)).foldl store (List.replicate 512 0) =
      (rows (x.map Prod.fst)).flatten++(rows (x.map Prod.snd)).flatten := by
  have hf := foldl_store (rows (x.map Prod.fst)++rows (x.map Prod.snd)) [] (List.replicate 512 0)
  rw [List.flatten_append,List.length_append,rows_length,rows_length,List.drop_replicate,
    Nat.sub_self,List.replicate_zero,List.append_nil,List.nil_append,List.nil_append] at hf
  rw [← hf]
  simp only [emitBlock,mm256Castsi256Si128,mm256Extracti128Si256,if_true,offsets,rows,bytes_length,
    List.length_nil,List.cons_append,List.nil_append,reg,get_eq,Vector.getElem_map]

theorem half_rows {g : M256 → Vec} (ho : ops256.Hom four.ops g)
    (ht : ∀ a b c d, transpose4 (g a) (g b) (g c) (g d) = map4 g (transpose4x256 a b c d))
    (hs : ∀ x, g (mm256Set1Epi32 x) = mmSet1Epi32 x) (key : Vector UInt32 8)
    (nonce : Vector UInt32 3) {ctrs : M256} {ctr : UInt32} (hc : g ctrs = four.ctrs ctr) :
    (rows ((transposed transpose4x256
      (worked ops256 (initial mm256Set1Epi32 ctrs key nonce))).map g)).flatten =
        blocks 4 key nonce ctr := by
  rw [← transposed_map ht,← worked_map ho,← initial_map hs,hc]
  exact four_lawful.rows_worked key nonce ctr

theorem eightBlocks_eq (key : Vector UInt32 8) (nonce : Vector UInt32 3) (ctr : UInt32) :
    eightBlocks key nonce ctr = blocks 8 key nonce ctr := by
  have hhi : mmSetEpi32 (ctr+7) (ctr+6) (ctr+5) (ctr+4) = four.ctrs (ctr+4) := by
    simp only [four,UInt32.add_assoc]
    rfl
  unfold eightBlocks
  dsimp only
  rw [emit_rows,half_rows ops256_fst (fun _ _ _ _ => rfl) (fun _ => rfl) key nonce rfl,
    half_rows ops256_snd (fun _ _ _ _ => rfl) (fun _ => rfl) key nonce hhi,
    show 8 = 4+4 from rfl,blocks_add]
  rfl

end WireGuard.Avx2
