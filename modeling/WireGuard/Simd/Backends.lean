import WireGuard.Simd.Avx2
import WireGuard.Simd.Neon

/-!
# The vector backends write the scalar keystream

Each backend goes over its buffer in strides of several blocks and has cases of
its own for what is left. The scalar loop over a buffer is one exclusive or with
enough consecutive blocks, and such an exclusive or may be cut at any block.
-/

set_option autoImplicit false

namespace WireGuard
open ByteString ChaCha20

def xorTail (buf ks : List UInt8) : List UInt8 :=
  List.zipWith (fun b k => b ^^^ k) buf ks++buf.drop ks.length

/-- The loop over `n` exact chunks; `tail` gets the remainder and the counter. -/
def strides (width : ℕ) (step : UInt32) (keystream : UInt32 → List UInt8)
    (tail : UInt32 → List UInt8 → List UInt8) : ℕ → UInt32 → List UInt8 → List UInt8
  | 0, ctr, buf => tail ctr buf
  | n+1, ctr, buf => xorTail (buf.take width) (keystream ctr)++
      strides width step keystream tail n (ctr+step) (buf.drop width)

section Backends

variable (P : Primitives)

def fourWay (fourBlocks : Vector UInt32 8 → Vector UInt32 3 → UInt32 → List UInt8)
    (key : Bytes 32) (nonce : Bytes 12) (counter : UInt32) (buf : List UInt8) : List UInt8 :=
  let keystream := fourBlocks (keyWords key) (nonceWords nonce)
  let rest := fun ctr tail =>
    if 64 ≤ tail.length then xorTail tail (keystream ctr)
    else if tail ≠ [] then (scalar (suite P)).applyKeystream key nonce ctr tail
    else tail
  strides 256 4 keystream rest (buf.length/256) counter buf

def eightWay (key : Bytes 32) (nonce : Bytes 12) (counter : UInt32) (buf : List UInt8) :
    List UInt8 :=
  let keystream := Avx2.eightBlocks (keyWords key) (nonceWords nonce)
  let rest := fun ctr tail =>
    if 256 ≤ tail.length then xorTail tail (keystream ctr)
    else if 64 ≤ tail.length then
      xorTail tail (Avx2.fourBlocks (keyWords key) (nonceWords nonce) ctr)
    else if tail ≠ [] then (scalar (suite P)).applyKeystream key nonce ctr tail
    else tail
  strides 512 8 keystream rest (buf.length/512) counter buf

end Backends

theorem xorTail_eq {buf ks : List UInt8} (h : buf.length ≤ ks.length) :
    xorTail buf ks = List.zipWith (fun b k => b ^^^ k) buf ks := by
  rw [xorTail,List.drop_eq_nil_of_le h,List.append_nil]

theorem zipWith_xor_append (data a b : List UInt8) :
    List.zipWith (fun b k => b ^^^ k) data (a++b) =
      List.zipWith (fun b k => b ^^^ k) (data.take a.length) a++
        List.zipWith (fun b k => b ^^^ k) (data.drop a.length) b := by
  induction a generalizing data with
  | nil => simp
  | cons x a ih =>
    cases data with
    | nil => simp
    | cons y data => simpa using ih data

theorem zipWith_xor_covered {data a b : List UInt8} (h : data.length ≤ a.length) :
    List.zipWith (fun b k => b ^^^ k) data (a++b) =
      List.zipWith (fun b k => b ^^^ k) data a := by
  rw [zipWith_xor_append,List.take_of_length_le h,List.drop_eq_nil_of_le h,List.zipWith_nil_left,
    List.append_nil]

section Scalar

variable {P : Primitives} {key : Bytes 32} {nonce : Bytes 12}

theorem blocks_length (n : ℕ) (key : Vector UInt32 8) (nonce : Vector UInt32 3) (ctr : UInt32) :
    (blocks n key nonce ctr).length = 64*n := by
  simp [blocks,List.length_flatMap,Nat.mul_comm]

theorem blocks_one (key : Bytes 32) (nonce : Bytes 12) (ctr : UInt32) :
    blocks 1 (keyWords key) (nonceWords nonce) ctr = (block key ctr nonce).toList := by
  simp [blocks,block]

theorem xorChunks_eq (n : ℕ) (ctr : UInt32) (data : List UInt8) :
    xorChunks (suite P) key nonce n ctr data = List.zipWith (fun b k => b ^^^ k) data
      (blocks n (keyWords key) (nonceWords nonce) ctr) := by
  induction n generalizing ctr data with
  | zero => simp [xorChunks,blocks]
  | succ n ih =>
    rw [Nat.add_comm n 1,blocks_add,zipWith_xor_append,blocks_length,blocks_one,Nat.add_comm 1 n,
      xorChunks,ih]
    rfl

theorem xorInPlace_eq {n : ℕ} (ctr : UInt32) {data : List UInt8} (h : data.length ≤ 64*n) :
    xorInPlace (suite P) key ctr nonce data = List.zipWith (fun b k => b ^^^ k) data
      (blocks n (keyWords key) (nonceWords nonce) ctr) := by
  obtain ⟨m,rfl⟩ : ∃ m, n = (data.length+63)/64+m := ⟨n-(data.length+63)/64,by omega⟩
  rw [xorInPlace,xorChunks_eq,blocks_add,zipWith_xor_covered]
  rw [blocks_length]
  omega

theorem xorInPlace_split (m : ℕ) (ctr : UInt32) (data : List UInt8) :
    xorInPlace (suite P) key ctr nonce data =
      List.zipWith (fun b k => b ^^^ k) (data.take (64*m))
        (blocks m (keyWords key) (nonceWords nonce) ctr)++
      xorInPlace (suite P) key (ctr+UInt32.ofNat m) nonce (data.drop (64*m)) := by
  have hn : data.length ≤ 64*(m+data.length) := by omega
  have hd : (data.drop (64*m)).length ≤ 64*data.length := by
    rw [List.length_drop]
    omega
  rw [xorInPlace_eq ctr hn,blocks_add,zipWith_xor_append,blocks_length,
    xorInPlace_eq (ctr+UInt32.ofNat m) hd]

theorem xorTail_blocks {n : ℕ} (ctr : UInt32) {data : List UInt8} (h : data.length ≤ 64*n) :
    xorTail data (blocks n (keyWords key) (nonceWords nonce) ctr) =
      xorInPlace (suite P) key ctr nonce data := by
  rw [xorInPlace_eq ctr h,xorTail_eq]
  rwa [blocks_length]

/-- Strides of `m` blocks and a right tail make the scalar keystream. -/
theorem strides_eq {m : ℕ} {keystream : UInt32 → List UInt8}
    {tail : UInt32 → List UInt8 → List UInt8}
    (hk : ∀ ctr, keystream ctr = blocks m (keyWords key) (nonceWords nonce) ctr)
    (ht : ∀ ctr data, data.length < 64*m →
      tail ctr data = xorInPlace (suite P) key ctr nonce data)
    (n : ℕ) (ctr : UInt32) {buf : List UInt8} (h : buf.length < 64*m*(n+1)) :
    strides (64*m) (UInt32.ofNat m) keystream tail n ctr buf =
      xorInPlace (suite P) key ctr nonce buf := by
  induction n generalizing ctr buf with
  | zero => exact ht ctr buf (by simpa using h)
  | succ n ih =>
    have hd : (buf.drop (64*m)).length < 64*m*(n+1) := by
      have hp : 0 < 64*m*(n+1) := Nat.mul_pos (Nat.pos_of_mul_pos_right (Nat.zero_lt_of_lt h))
        n.succ_pos
      rw [List.length_drop]
      rw [Nat.mul_succ] at h
      omega
    have hw : (buf.take (64*m)).length ≤
        (blocks m (keyWords key) (nonceWords nonce) ctr).length := by
      rw [blocks_length]
      exact List.length_take_le _ _
    rw [strides,ih _ hd,hk,xorTail_eq hw,← xorInPlace_split]

end Scalar

section Contract

variable (P : Primitives) (key : Bytes 32) (nonce : Bytes 12) (counter : UInt32)
  (buf : List UInt8)

theorem fourWay_eq {fourBlocks : Vector UInt32 8 → Vector UInt32 3 → UInt32 → List UInt8}
    (h : ∀ key nonce ctr, fourBlocks key nonce ctr = blocks 4 key nonce ctr) :
    fourWay P fourBlocks key nonce counter buf = xorInPlace (suite P) key counter nonce buf := by
  refine strides_eq (m := 4) (fun ctr => h _ _ ctr) (fun ctr data hd => ?_) _ counter (by omega)
  split_ifs with hl he
  · rw [h]
    exact xorTail_blocks ctr hd.le
  · rfl
  · rw [of_not_not he]
    rfl

theorem eightWay_eq :
    eightWay P key nonce counter buf = xorInPlace (suite P) key counter nonce buf := by
  refine strides_eq (m := 8) (fun ctr => Avx2.eightBlocks_eq _ _ ctr) (fun ctr data hd => ?_) _
    counter (by omega)
  split_ifs with hl hf he
  · rw [Avx2.eightBlocks_eq]
    exact xorTail_blocks ctr hd.le
  · rw [Avx2.fourBlocks_eq]
    exact xorTail_blocks ctr (by omega)
  · rfl
  · rw [of_not_not he]
    rfl

end Contract

section Impl

variable (P : Primitives)

def ChaChaImpl.ofEq (f : Bytes 32 → Bytes 12 → UInt32 → List UInt8 → List UInt8)
    (h : ∀ key nonce counter buf, f key nonce counter buf = xorInPlace P key counter nonce buf) :
    ChaChaImpl where
  applyKeystream := f
  length_eq key nonce counter buf := by rw [h,xorInPlace_length]

def avx2 : ChaChaImpl := .ofEq (suite P) (fourWay P Avx2.fourBlocks)
  (fun key nonce counter buf => fourWay_eq P key nonce counter buf Avx2.fourBlocks_eq)

def avx2x8 : ChaChaImpl := .ofEq (suite P) (eightWay P) (eightWay_eq P)

def neon : ChaChaImpl := .ofEq (suite P) (fourWay P Neon.fourBlocks)
  (fun key nonce counter buf => fourWay_eq P key nonce counter buf Neon.fourBlocks_eq)

inductive Arch
  | x8664 | aarch64 | other
deriving DecidableEq, Repr

/-- The backend that a build for the architecture gets. -/
def best : Arch → ChaChaImpl
  | .x8664 => avx2x8 P
  | .aarch64 => neon P
  | .other => scalar (suite P)

end Impl

/-- Every vector backend leaves in the buffer what the scalar loop leaves there. The
counter may wrap anywhere in the buffer. -/
theorem simd_keystreams_eq_scalar (P : Primitives) (key : Bytes 32) (nonce : Bytes 12)
    (counter : UInt32) (buf : List UInt8) :
    (avx2 P).applyKeystream key nonce counter buf = xorInPlace (suite P) key counter nonce buf ∧
    (avx2x8 P).applyKeystream key nonce counter buf =
      xorInPlace (suite P) key counter nonce buf ∧
    (neon P).applyKeystream key nonce counter buf = xorInPlace (suite P) key counter nonce buf :=
  ⟨fourWay_eq P key nonce counter buf Avx2.fourBlocks_eq,eightWay_eq P key nonce counter buf,
    fourWay_eq P key nonce counter buf Neon.fourBlocks_eq⟩

end WireGuard
