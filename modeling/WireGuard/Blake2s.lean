import WireGuard.Library.Blake2
import WireGuard.Primitives

/-!
# BLAKE2s, streaming

The hasher keeps the last block back until more input arrives or the hash is
finished, since the last block is compressed with a flag. After any number of
updates its state is a function of the bytes fed so far, however they were split.
-/

set_option autoImplicit false

namespace WireGuard.Blake2s
open ByteString Lanes

-- Named, so that every index below carries the same proof.
local instance neZero8 : NeZero 8 := ⟨by decide⟩

local instance neZero16 : NeZero 16 := ⟨by decide⟩

def iv : Vector UInt32 8 :=
  #v[0x6a09e667,0xbb67ae85,0x3c6ef372,0xa54ff53a,0x510e527f,0x9b05688c,0x1f83d9ab,0x5be0cd19]

def sigma : List (Vector (Fin 16) 16) :=
  [#v[0,1,2,3,4,5,6,7,8,9,10,11,12,13,14,15],
    #v[14,10,4,8,9,15,13,6,1,12,0,2,11,7,5,3],
    #v[11,8,12,0,5,2,15,13,10,14,3,6,7,1,9,4],
    #v[7,9,3,1,13,12,11,14,2,6,5,10,4,0,15,8],
    #v[9,0,5,7,2,4,10,15,14,1,11,12,6,8,3,13],
    #v[2,12,6,10,0,11,8,3,4,13,7,5,15,14,1,9],
    #v[12,5,1,15,14,13,4,10,0,7,6,3,9,2,8,11],
    #v[13,11,7,14,12,1,3,9,5,0,15,4,8,6,2,10],
    #v[6,15,14,9,11,3,0,8,12,2,13,7,1,4,10,5],
    #v[10,2,8,4,7,6,1,5,15,11,9,14,3,12,13,0]]

def rotateRight (n x : UInt32) : UInt32 := (x >>> n) ||| (x <<< (32-n))

def g (x y a b c d : UInt32) : UInt32 × UInt32 × UInt32 × UInt32 :=
  let a := a+b+x
  let d := rotateRight 16 (d ^^^ a)
  let c := c+d
  let b := rotateRight 12 (b ^^^ c)
  let a := a+b+y
  let d := rotateRight 8 (d ^^^ a)
  let c := c+d
  let b := rotateRight 7 (b ^^^ c)
  (a,b,c,d)

def round (m v : Vector UInt32 16) (s : Vector (Fin 16) 16) : Vector UInt32 16 :=
  let word (i : Fin 16) : UInt32 := m.get (s.get i)
  let v := at4 (g (word 0) (word 1)) 0 4 8 12 v
  let v := at4 (g (word 2) (word 3)) 1 5 9 13 v
  let v := at4 (g (word 4) (word 5)) 2 6 10 14 v
  let v := at4 (g (word 6) (word 7)) 3 7 11 15 v
  let v := at4 (g (word 8) (word 9)) 0 5 10 15 v
  let v := at4 (g (word 10) (word 11)) 1 6 11 12 v
  let v := at4 (g (word 12) (word 13)) 2 7 8 13 v
  at4 (g (word 14) (word 15)) 3 4 9 14 v

def words (block : Bytes 64) : Vector UInt32 16 :=
  Vector.ofFn (fun i => UInt32.ofNat (fromLe ((block.toList.drop (4*i.val)).take 4)))

def start (h : Vector UInt32 8) (t : UInt64) (last : Bool) : Vector UInt32 16 :=
  let v : Vector UInt32 16 := h++iv
  let v := at1 (· ^^^ t.toUInt32) 12 v
  let v := at1 (· ^^^ (t >>> 32).toUInt32) 13 v
  if last then at1 (~~~ ·) 14 v else v

def compress (h : Vector UInt32 8) (block : Bytes 64) (t : UInt64) (last : Bool) :
    Vector UInt32 8 :=
  let v := sigma.foldl (round (words block)) (start h t last)
  Vector.ofFn (fun i : Fin 8 => h.get i ^^^ (v.get (i.castAdd 8) ^^^ v.get (i.natAdd 8)))

/-- The hasher; `bufLen` bytes at the front of `buf` are not compressed yet. -/
structure Core where
  h : Vector UInt32 8
  t : UInt64
  buf : Bytes 64
  bufLen : ℕ
  bufLen_le : bufLen ≤ 64

def parameters (outLen keyLen : ℕ) : Vector UInt32 8 :=
  at1 (· ^^^ ((0x01010000 : UInt32) ^^^ (UInt32.ofNat keyLen <<< 8) ^^^ UInt32.ofNat outLen)) 0 iv

namespace Core

def new (outLen : ℕ) (key : List UInt8) : Core :=
  let h := parameters outLen key.length
  if key = [] then ⟨h,0,zeros 64,0,Nat.zero_le 64⟩
  else ⟨h,0,overwrite (zeros 64) 0 key,64,le_rfl⟩

/-- A full buffer is compressed once more input follows. -/
def flush (c : Core) : Core :=
  if c.bufLen = 64 then ⟨compress c.h c.buf (c.t+64) false,c.t+64,c.buf,0,Nat.zero_le 64⟩ else c

def room (c : Core) (data : List UInt8) : ℕ := min (64-c.bufLen) data.length

theorem fill_le (c : Core) (data : List UInt8) : c.bufLen+c.room data ≤ 64 := by
  have := c.bufLen_le
  unfold room
  omega

def fill (c : Core) (data : List UInt8) : Core :=
  ⟨c.h,c.t,overwrite c.buf c.bufLen data,c.bufLen+c.room data,c.fill_le data⟩

/-- At most `n` turns of the loop in `update`. -/
def absorb : ℕ → Core → List UInt8 → Core
  | 0, c, _ => c
  | n+1, c, data =>
    if data = [] then c
    else absorb n (c.flush.fill data) (data.drop (c.flush.room data))

/-- Each turn takes a byte or more, so there are no more turns than bytes. -/
def update (c : Core) (data : List UInt8) : Core := absorb data.length c data

def padded (c : Core) : Bytes 64 := overwrite c.buf c.bufLen (List.replicate (64-c.bufLen) 0)

end Core

def serialize (h : Vector UInt32 8) : Bytes 32 :=
  ofList 32 (h.toList.flatMap (fun x => toLe 4 x.toNat)) (by simp)

def Core.finalize (c : Core) : Bytes 32 :=
  serialize (compress c.h c.padded (c.t+UInt64.ofNat c.bufLen) true)

def hash (parts : List (List UInt8)) : Bytes 32 :=
  (parts.foldl Core.update (Core.new 32 [])).finalize

def newMac (key : List UInt8) : Core :=
  if 32 < key.length then Core.new 16 ((Core.new 32 []).update key).finalize.toList
  else Core.new 16 key

def mac (key : List UInt8) (parts : List (List UInt8)) : Bytes 16 :=
  ofList 16 ((parts.foldl Core.update (newMac key)).finalize.toList.take 16) (by simp)

-- RFC 7693, appendix B.
set_option maxRecDepth 10000 in
example : (hash [ascii "a",[],ascii "bc"]).toList =
    [0x50,0x8c,0x5e,0x8c,0x32,0x7c,0x14,0xe2,0xe1,0xa7,0x2b,0xa3,0x4e,0xeb,0x45,0x2f,
      0x37,0x45,0x8b,0x20,0x9e,0xd6,0x3a,0x29,0x4d,0x99,0x9b,0x4c,0x86,0x67,0x59,0x82] := by
  decide +kernel

/-! ## Any split of the input -/

def chain (h : Vector UInt32 8) (s : List UInt8) (k : ℕ) : Vector UInt32 8 :=
  (List.range k).foldl
    (fun h i => compress h (blockAt 64 s i) (UInt64.ofNat (64*(i+1))) false) h

theorem chain_succ (h : Vector UInt32 8) (s : List UInt8) (k : ℕ) :
    chain h s (k+1) =
      compress (chain h s k) (blockAt 64 s k) (UInt64.ofNat (64*(k+1))) false := by
  simp only [chain,List.range_succ,List.foldl_append,List.foldl_cons,List.foldl_nil]

theorem chain_append (h : Vector UInt32 8) {s : List UInt8} (x : List UInt8) {k : ℕ}
    (hk : 64*k ≤ s.length) : chain h (s++x) k = chain h s k := by
  induction k with
  | zero => simp only [chain,List.range_zero,List.foldl_nil]
  | succ k ih => rw [chain_succ,chain_succ,ih (by omega),blockAt_append x hk]

/-- The blocks that are compressed before the input is known to be complete: all but
the last. -/
def held (n : ℕ) : ℕ := (n-1)/64

/-- The hasher has been fed `s`. -/
structure Core.Fed (h : Vector UInt32 8) (s : List UInt8) (c : Core) : Prop where
  bufLen : 64*held s.length+c.bufLen = s.length
  t : c.t = UInt64.ofNat (64*held s.length)
  h : c.h = chain h s (held s.length)
  buf : c.buf.toList.take c.bufLen = s.drop (64*held s.length)

namespace Core

variable {h : Vector UInt32 8} {s : List UInt8} {c : Core}

theorem copyAt_room (c : Core) (data : List UInt8) :
    ((c.fill data).buf.toList).take (c.fill data).bufLen =
      c.buf.toList.take c.bufLen++data.take (c.room data) := by
  have hl := c.bufLen_le
  have hb : c.buf.toList.length = 64 := by simp
  have hr : min (64-c.bufLen) data.length = c.room data := rfl
  have he : copyAt c.buf.toList c.bufLen data =
      c.buf.toList.take c.bufLen++(data.take (c.room data)++
        c.buf.toList.drop (c.bufLen+data.length)) := by
    rw [copyAt,hb,← hr,← List.take_eq_take_min]
  have hd : (c.buf.toList.take c.bufLen++data.take (c.room data)).length =
      c.bufLen+c.room data := by
    simp only [List.length_append,List.length_take,hb]
    omega
  change (copyAt c.buf.toList c.bufLen data).take (c.bufLen+c.room data) = _
  rw [he,← List.append_assoc,← hd,List.take_left]

theorem new_fed (outLen : ℕ) : (new outLen []).Fed (parameters outLen 0) [] :=
  ⟨rfl,rfl,rfl,rfl⟩

theorem new_key_fed (outLen : ℕ) {key : List UInt8} (h0 : key ≠ []) (hk : key.length ≤ 64) :
    (new outLen key).Fed (parameters outLen key.length)
      (key++List.replicate (64-key.length) 0) := by
  have hn : new outLen key = ⟨parameters outLen key.length,0,overwrite (zeros 64) 0 key,64,
      le_rfl⟩ := if_neg h0
  have hl : (key++List.replicate (64-key.length) (0 : UInt8)).length = 64 := by
    simp
    omega
  have hh : held (key++List.replicate (64-key.length) (0 : UInt8)).length = 0 := by
    rw [hl]
    rfl
  rw [hn]
  refine ⟨?_,?_,?_,?_⟩
  · rw [hh,hl]
    rfl
  · rw [hh]
    rfl
  · rw [hh]
    simp only [chain,List.range_zero,List.foldl_nil]
  · rw [hh,Nat.mul_zero,List.drop_zero]
    change (copyAt (List.replicate 64 0) 0 key).take 64 = _
    rw [copyAt,List.take_zero,List.nil_append,List.length_replicate,Nat.sub_zero,
      List.take_of_length_le hk,List.drop_replicate,Nat.zero_add,List.take_of_length_le hl.le]

theorem flush_full (hc : c.Fed h s) (hf : c.bufLen = 64) :
    64*(held s.length+1) = s.length ∧ c.flush.bufLen = 0 ∧
      c.flush.t = UInt64.ofNat s.length ∧ c.flush.h = chain h s (held s.length+1) := by
  have hl : 64*(held s.length+1) = s.length := by
    have := hc.bufLen
    omega
  have ht : c.t+64 = UInt64.ofNat (64*(held s.length+1)) := by
    rw [hc.t,Nat.mul_succ,UInt64.ofNat_add]
    rfl
  have hb : c.buf = blockAt 64 s (held s.length) := by
    apply blockAt_eq
    rw [hl,Nat.sub_self,List.replicate_zero,List.append_nil,← hc.buf,hf,
      List.take_of_length_le (by simp)]
  refine ⟨hl,?_,?_,?_⟩
  · simp only [flush,if_pos hf]
  · simp only [flush,if_pos hf]
    rw [ht,hl]
  · simp only [flush,if_pos hf]
    rw [chain_succ,hc.h,hb,ht]

theorem flush_room (hc : c.Fed h s) : ∃ k, c.flush.bufLen < 64 ∧ 64*k+c.flush.bufLen = s.length ∧
    c.flush.t = UInt64.ofNat (64*k) ∧ c.flush.h = chain h s k ∧
    c.flush.buf.toList.take c.flush.bufLen = s.drop (64*k) := by
  by_cases hf : c.bufLen = 64
  · obtain ⟨hl,h0,ht,hh⟩ := flush_full hc hf
    refine ⟨held s.length+1,by omega,by omega,by rw [ht,hl],hh,?_⟩
    rw [h0,hl,List.take_zero,List.drop_length]
  · have hlt := lt_of_le_of_ne c.bufLen_le hf
    have he : c.flush = c := if_neg hf
    rw [he]
    exact ⟨held s.length,hlt,hc.bufLen,hc.t,hc.h,hc.buf⟩

theorem turn_fed (hc : c.Fed h s) {data : List UInt8} (hd : data ≠ []) :
    (c.flush.fill data).Fed h (s++data.take (c.flush.room data)) ∧ 0 < c.flush.room data := by
  obtain ⟨k,hlt,hl,ht,hh,hb⟩ := flush_room hc
  have hp := List.length_pos_iff.mpr hd
  have hr : c.flush.room data = min (64-c.flush.bufLen) data.length := rfl
  have hlen : (s++data.take (c.flush.room data)).length = s.length+c.flush.room data := by
    rw [List.length_append,List.length_take]
    omega
  have hk : held (s++data.take (c.flush.room data)).length = k := by
    rw [hlen,held]
    omega
  have hbl : (c.flush.fill data).bufLen = c.flush.bufLen+c.flush.room data := rfl
  refine ⟨⟨?_,?_,?_,?_⟩,by omega⟩
  · rw [hk,hlen,hbl]
    omega
  · rw [hk]
    exact ht
  · rw [hk,chain_append _ _ (by omega)]
    exact hh
  · rw [hk,copyAt_room,hb,List.drop_append_of_le_length (by omega)]

theorem absorb_fed (n : ℕ) {s : List UInt8} {c : Core} (hc : c.Fed h s) {data : List UInt8}
    (hn : data.length ≤ n) : (absorb n c data).Fed h (s++data) := by
  induction n generalizing s c data with
  | zero =>
    rw [List.length_eq_zero_iff.mp (Nat.le_zero.mp hn),List.append_nil]
    exact hc
  | succ n ih =>
    rw [absorb]
    split
    · rename_i hd
      rw [hd,List.append_nil]
      exact hc
    · rename_i hd
      obtain ⟨ht,hr⟩ := turn_fed hc hd
      have hlen : (data.drop (c.flush.room data)).length ≤ n := by
        rw [List.length_drop]
        omega
      have hnext := ih ht hlen
      rwa [List.append_assoc,List.take_append_drop] at hnext

theorem update_fed (hc : c.Fed h s) (data : List UInt8) : (c.update data).Fed h (s++data) :=
  absorb_fed data.length hc le_rfl

theorem updates_fed (hc : c.Fed h s) (parts : List (List UInt8)) :
    (parts.foldl update c).Fed h (s++parts.flatten) := by
  induction parts generalizing s c with
  | nil => simpa using hc
  | cons part parts ih =>
    have hr := ih (update_fed hc part)
    rwa [List.append_assoc,← List.flatten_cons] at hr

theorem finalize_fed (hc : c.Fed h s) :
    c.finalize = serialize (compress (chain h s (held s.length))
      (blockAt 64 s (held s.length)) (UInt64.ofNat s.length) true) := by
  have hl := c.bufLen_le
  have hn := hc.bufLen
  have htail : c.buf.toList.drop (c.bufLen+(List.replicate (64-c.bufLen) (0 : UInt8)).length) =
      [] := List.drop_eq_nil_of_le (by simp; omega)
  have hb : c.padded = blockAt 64 s (held s.length) := by
    apply blockAt_eq
    rw [padded,overwrite_toList,copyAt,hc.buf,htail,List.append_nil,
      List.take_of_length_le (by simp)]
    congr 2
    omega
  have ht : c.t+UInt64.ofNat c.bufLen = UInt64.ofNat s.length := by
    rw [hc.t,← UInt64.ofNat_add,hc.bufLen]
  rw [finalize,hb,ht,hc.h]

end Core

end WireGuard.Blake2s
