import WireGuard.Library.Blocks
import WireGuard.Library.Limbs

/-!
# Poly1305 on 26-bit limbs

The accumulator and the clamped key are five limbs; products and carries run in
64-bit words. Each wrapping sum and product and each cast to 32 bits is a
checked operation. The eight casts that close the tag take windows of longer
words, so how they are recorded is a parameter. The shifts drop bits on purpose,
and the comparison with the modulus borrows on purpose.
-/

set_option autoImplicit false

namespace WireGuard
open ByteString Checked Limbs

def m26 : ℕ := 0x03ffffff

/-- Up to `n` bytes from `offset`, read over zeros. -/
def leAt (n : ℕ) (bytes : List UInt8) (offset : ℕ) : ℕ :=
  fromLe (copyAt (List.replicate n 0) 0 (bytes.drop offset))

def le64At (bytes : List UInt8) (offset : ℕ) : ℕ := leAt 8 bytes offset

def le32At (bytes : List UInt8) (offset : ℕ) : ℕ := leAt 4 bytes offset

theorem and_m26 (x : ℕ) : x &&& m26 = x%2^26 := Nat.and_two_pow_sub_one_eq_mod x 26

theorem leAt_eq {n offset : ℕ} {bytes : List UInt8} (h : offset+n ≤ bytes.length) :
    leAt n bytes offset = fromLe ((bytes.drop offset).take n) := by
  rw [leAt,copyAt_full (by simp; omega),List.length_replicate]

theorem leAt_lt (n : ℕ) (bytes : List UInt8) (offset : ℕ) : leAt n bytes offset < 256^n := by
  refine (fromLe_lt _).trans_eq ?_
  rw [copyAt_length,List.length_replicate]

theorem le64At_pair (bytes : List UInt8) (h : 16 ≤ bytes.length) :
    le64At bytes 0+2^64*le64At bytes 8 = fromLe (bytes.take 16) := by
  rw [le64At,le64At,leAt_eq (by omega),leAt_eq (by omega),fromLe_take_add (n := 8) 8 (by omega)]
  rfl

theorem le32At_quad (key : List UInt8) (h : key.length = 32) :
    Words.number 32 ⟨le32At key 16,le32At key 20,le32At key 24,le32At key 28⟩ =
      fromLe (key.drop 16) := by
  have hd : (key.drop 16).length = 16 := by simp [h]
  rw [← List.take_of_length_le hd.le,fromLe_take_add (n := 4) 12 (by omega),List.drop_drop,
    fromLe_take_add (n := 4) 8 (by simp; omega),List.drop_drop,
    fromLe_take_add (n := 4) 4 (by simp; omega),List.drop_drop]
  simp only [le32At]
  rw [leAt_eq (by omega),leAt_eq (by omega),leAt_eq (by omega),leAt_eq (by omega)]
  rfl

theorem split_number {t0 t1 : ℕ} (h0 : t0 < 2^64) (h1 : t1 < 2^64) :
    number 26 ⟨t0 &&& m26,t0>>>26 &&& m26,(t0>>>52 ||| shl 64 t1 12) &&& m26,t1>>>14 &&& m26,
      t1>>>40⟩ = t0+2^64*t1 := by
  simp only [and_m26,Nat.shiftRight_eq_div_pow]
  rw [or_shl (by omega) (by decide)]
  simp only [number]
  omega

structure Poly1305 where
  r : Limbs
  h : Limbs
  pad : Words
  buf : Bytes 16
  bufLen : ℕ

namespace Poly1305

def new (key : Bytes 32) : Checked Poly1305 := do
  let t0 := le64At key.toList 0 &&& 0x0ffffffc0fffffff
  let t1 := le64At key.toList 8 &&& 0x0ffffffc0ffffffc
  let r ← cast 32 ⟨t0 &&& m26,t0>>>26 &&& m26,(t0>>>52 ||| shl 64 t1 12) &&& m26,
    t1>>>14 &&& m26,t1>>>40 &&& m26⟩
  pure
    { r := r
      h := Limbs.zero
      pad := ⟨le32At key.toList 16,le32At key.toList 20,le32At key.toList 24,
        le32At key.toList 28⟩
      buf := zeros 16
      bufLen := 0 }

/-- One block is added and the sum multiplied by `r`. Columns, carries and
multiples of five are all 64-bit words here. -/
def processBlock (s : Poly1305) (block : Bytes 16) (hibit : ℕ) : Checked Poly1305 := do
  let t0 := le64At block.toList 0
  let t1 := le64At block.toList 8
  let h ← plus 64 s.h ⟨t0 &&& m26,t0>>>26 &&& m26,(t0>>>52 ||| shl 64 t1 12) &&& m26,
    t1>>>14 &&& m26,t1>>>40 ||| hibit⟩
  let h ← multiply 64 64 26 5 h s.r
  let h ← cast 32 h
  pure {s with h := h}

def absorb (s : Poly1305) (data : List UInt8) : Checked Poly1305 := do
  let s ← (chunks 16 (data.length/16) data).foldlM
    (fun s chunk => s.processBlock (overwrite (zeros 16) 0 chunk) (1<<<24)) s
  let rem := data.drop (16*(data.length/16))
  pure {s with buf := overwrite s.buf 0 rem,bufLen := rem.length}

def update (s : Poly1305) (data : List UInt8) : Checked Poly1305 :=
  if 0 < s.bufLen then
    let take := min (16-s.bufLen) data.length
    let s := {s with buf := overwrite s.buf s.bufLen data,bufLen := s.bufLen+take}
    if s.bufLen < 16 then pure s
    else do
      let s ← s.processBlock s.buf (1<<<24)
      absorb {s with bufLen := 0} (data.drop take)
  else absorb s data

def updatePadded (s : Poly1305) (data : List UInt8) : Checked Poly1305 := do
  let s ← s.update data
  let rem := data.length%16
  if rem ≠ 0 then s.update ((List.replicate 16 0).drop rem) else pure s

/-- The carries that bring the accumulator below `2^130`. The lowest limb needs
none before the fold. -/
def reduce (h : Limbs) : Checked Limbs := do
  let h2 ← add 64 h.l2 (h.l1>>>26)
  let h3 ← add 64 h.l3 (h2>>>26)
  let h4 ← add 64 h.l4 (h3>>>26)
  let fold ← mul 64 (h4>>>26) 5
  let h0 ← add 64 h.l0 fold
  let h1 ← add 64 (h.l1 &&& m26) (h0>>>26)
  pure ⟨h0 &&& m26,h1,h2 &&& m26,h3 &&& m26,h4 &&& m26⟩

/-- One limb of a branch-free choice: `g` under an all-ones mask, else `h`. -/
def choose (mask h g : ℕ) : ℕ := (h &&& (mask ^^^ (2^64-1))) ||| (g &&& mask)

/-- The accumulator less the modulus, taken when that does not borrow. -/
def select (h : Limbs) : Checked Limbs := do
  let g0 ← add 64 h.l0 5
  let g1 ← add 64 h.l1 (g0>>>26)
  let g2 ← add 64 h.l2 (g1>>>26)
  let g3 ← add 64 h.l3 (g2>>>26)
  let top ← add 64 h.l4 (g3>>>26)
  let g4 := wrapSub 64 top (1<<<26)
  let mask := wrapSub 64 (g4>>>63) 1
  pure ⟨choose mask h.l0 (g0 &&& m26),choose mask h.l1 (g1 &&& m26),
    choose mask h.l2 (g2 &&& m26),choose mask h.l3 (g3 &&& m26),
    (h.l4 &&& (mask ^^^ (2^64-1))) ||| (g4 &&& mask &&& m26)⟩

/-- The words of the reduced number. `asU32` is the cast: `narrow 32` records a set bit
that it cuts, `window 32` does not. -/
def pack (asU32 : ℕ → Checked ℕ) (h : Limbs) : Checked Words := do
  let w0 ← asU32 (h.l0 ||| shl 64 h.l1 26)
  let w1 ← asU32 (h.l1>>>6 ||| shl 64 h.l2 20)
  let w2 ← asU32 (h.l2>>>12 ||| shl 64 h.l3 14)
  let w3 ← asU32 (h.l3>>>18 ||| shl 64 h.l4 8)
  pure ⟨w0,w1,w2,w3⟩

def addPad (asU32 : ℕ → Checked ℕ) (w p : Words) : Checked Words := do
  let f0 ← add 64 w.w0 p.w0
  let o0 ← asU32 f0
  let f1 ← add 64 w.w1 p.w1
  let f1 ← add 64 f1 (f0>>>32)
  let o1 ← asU32 f1
  let f2 ← add 64 w.w2 p.w2
  let f2 ← add 64 f2 (f1>>>32)
  let o2 ← asU32 f2
  let f3 ← add 64 w.w3 p.w3
  let f3 ← add 64 f3 (f2>>>32)
  let o3 ← asU32 f3
  pure ⟨o0,o1,o2,o3⟩

def lastBlock (s : Poly1305) : Bytes 16 :=
  overwrite (overwrite (zeros 16) 0 (s.buf.toList.take s.bufLen)) s.bufLen [1]

def flush (s : Poly1305) : Checked Poly1305 :=
  if 0 < s.bufLen then s.processBlock s.lastBlock 0 else pure s

def finalize (asU32 : ℕ → Checked ℕ) (s : Poly1305) : Checked (Bytes 16) := do
  let s ← s.flush
  let h ← reduce s.h
  let h ← select h
  let w ← pack asU32 h
  let o ← addPad asU32 w s.pad
  pure ⟨Words.bytes 4 o,Words.bytes_length 4 o⟩

/-- A key, the chunks fed one after the other, and the tag. -/
def tag (asU32 : ℕ → Checked ℕ) (key : Bytes 32) (parts : List (List UInt8)) :
    Checked (Bytes 16) := do
  let s ← new key
  let s ← parts.foldlM update s
  s.finalize asU32

/-! ## The block step and the closing arithmetic -/


def prime : ℕ := 2^130-5

/-- The clamped first half of the key. -/
def clampR (key : Bytes 32) : ℕ :=
  fromLe (key.toList.take 16) &&& 0x0ffffffc0ffffffc0ffffffc0fffffff

def padS (key : Bytes 32) : ℕ := fromLe (key.toList.drop 16)

/-- A block's number with a one bit above its last byte. -/
def highBit (block : List UInt8) : ℕ := fromLe block+256^block.length

/-- Each block times the matching power of `r`: the last has the first power. -/
def evaluate (r : ℕ) : List ℕ → ℕ
  | [] => 0
  | b::bs => b*r^(bs.length+1)+evaluate r bs

theorem evaluate_append_one (r : ℕ) (bs : List ℕ) (b : ℕ) :
    evaluate r (bs++[b]) = (evaluate r bs+b)*r := by
  induction bs with
  | nil => simp [evaluate]
  | cons c bs ih =>
    rw [List.cons_append,evaluate,ih,evaluate,List.length_append,List.length_singleton]
    ring

/-- The state after the blocks numbered `bs`, whatever is buffered. -/
structure Accumulates (key : Bytes 32) (bs : List ℕ) (s : Poly1305) : Prop where
  bound : s.r.Below (2^26)
  r : number 26 s.r = clampR key
  words : s.pad.Below 32
  pad : s.pad.number 32 = padS key
  weak : s.h.Weak 26 (2^10)
  h : number 26 s.h ≡ evaluate (clampR key) bs [MOD prime]

theorem and_m26_lt (x : ℕ) : x &&& m26 < 2^26 := by
  rw [and_m26]
  exact Nat.mod_lt _ (by decide)

theorem mask_number {t0 : ℕ} (h0 : t0 < 2^64) (t1 : ℕ) :
    (t0 &&& 0x0ffffffc0fffffff)+2^64*(t1 &&& 0x0ffffffc0ffffffc) =
      (t0+2^64*t1) &&& 0x0ffffffc0ffffffc0ffffffc0fffffff :=
  (and_join (d := 0x0ffffffc0ffffffc) h0 (by decide)).symm

theorem new_accumulates (key : Bytes 32) :
    (new key).Yields fun s => s.Accumulates key [] ∧ s.bufLen = 0 := by
  have hk := toList_length' key
  have e0 : le64At key.toList 0 &&& 0x0ffffffc0fffffff < 2^64 :=
    Nat.and_lt_two_pow _ (by decide)
  have e1 : le64At key.toList 8 &&& 0x0ffffffc0ffffffc < 2^60 :=
    Nat.and_lt_two_pow _ (by decide)
  have hr := mask_number (show le64At key.toList 0 < 2^64 from leAt_lt 8 _ _)
    (le64At key.toList 8)
  rw [le64At_pair _ (by omega)] at hr
  unfold new
  generalize le64At key.toList 0 &&& 0x0ffffffc0fffffff = t0 at *
  generalize le64At key.toList 8 &&& 0x0ffffffc0ffffffc = t1 at *
  have htop : t1>>>40 &&& m26 = t1>>>40 := by
    rw [and_m26,Nat.shiftRight_eq_div_pow]
    exact Nat.mod_eq_of_lt (by omega)
  have hb : Below (2^26) ⟨t0 &&& m26,t0>>>26 &&& m26,(t0>>>52 ||| shl 64 t1 12) &&& m26,
      t1>>>14 &&& m26,t1>>>40 &&& m26⟩ :=
    ⟨(and_m26_lt _).le,(and_m26_lt _).le,(and_m26_lt _).le,(and_m26_lt _).le,(and_m26_lt _).le⟩
  refine (yields_cast hb (by decide)).bind ?_
  rintro _ rfl
  refine .pure ⟨⟨hb,?_,⟨leAt_lt _ _ _,leAt_lt _ _ _,leAt_lt _ _ _,leAt_lt _ _ _⟩,
    le32At_quad _ hk,weak_zero _ _,rfl⟩,rfl⟩
  rw [htop,split_number e0 (e1.trans (by decide)),hr,clampR]

theorem room : Room 64 64 26 5 (5*(5*((2^26+2^10+2^26)*2^26)))
    (5*((2^26+2^10+2^26)*2^26)) (2^33) (2^31) (2^10) := by
  constructor <;> norm_num

theorem or_hibit {x hibit : ℕ} (hx : x < 2^24) (hb : hibit = 0 ∨ hibit = 2^24) :
    x ||| hibit = x+hibit := by
  rcases hb with rfl | rfl
  · simp
  · have := Nat.two_pow_add_eq_or_of_lt hx 1
    rw [Nat.mul_one] at this
    rw [Nat.or_comm,← this,Nat.add_comm]

theorem processBlock_accumulates {key : Bytes 32} {bs : List ℕ} {s : Poly1305}
    (hs : s.Accumulates key bs) (block : Bytes 16) {hibit : ℕ} (hb : hibit = 0 ∨ hibit = 2^24) :
    (s.processBlock block hibit).Yields fun t =>
      t.Accumulates key (bs++[fromLe block.toList+2^104*hibit]) ∧
        t.buf = s.buf ∧ t.bufLen = s.bufLen := by
  have hl := toList_length' block
  have hv := le64At_pair block.toList hl.ge
  rw [List.take_of_length_le hl.le] at hv
  have e0 : le64At block.toList 0 < 2^64 := leAt_lt 8 _ _
  have e1 : le64At block.toList 8 < 2^64 := leAt_lt 8 _ _
  unfold processBlock
  generalize le64At block.toList 0 = t0 at *
  generalize le64At block.toList 8 = t1 at *
  have hn := split_number e0 e1
  have htop : t1>>>40 < 2^24 := by
    rw [Nat.shiftRight_eq_div_pow]
    omega
  have hor := or_hibit htop hb
  have hadded : Below (2^26) ⟨t0 &&& m26,t0>>>26 &&& m26,
      (t0>>>52 ||| shl 64 t1 12) &&& m26,t1>>>14 &&& m26,t1>>>40 ||| hibit⟩ :=
    ⟨(and_m26_lt _).le,(and_m26_lt _).le,(and_m26_lt _).le,(and_m26_lt _).le,
      show t1>>>40 ||| hibit ≤ 2^26 by omega⟩
  have hsum := hs.weak.below.sum hadded
  refine (yields_plus hsum (by decide)).bind ?_
  rintro _ rfl
  refine (yields_multiply (m := prime) (by decide) room rfl hsum hs.bound (by decide)).bind ?_
  rintro h' ⟨hw,hm⟩
  refine (yields_cast hw.below (by decide)).bind ?_
  rintro _ rfl
  refine .pure ⟨⟨hs.bound,hs.r,hs.words,hs.pad,hw,?_⟩,rfl,rfl⟩
  have hblock : number 26 ⟨t0 &&& m26,t0>>>26 &&& m26,(t0>>>52 ||| shl 64 t1 12) &&& m26,
      t1>>>14 &&& m26,t1>>>40 ||| hibit⟩ = fromLe block.toList+2^104*hibit := by
    rw [← hv,← hn,hor]
    simp only [number]
    ring
  rw [hs.r,number_sum,hblock] at hm
  rw [evaluate_append_one]
  refine hm.trans (Nat.ModEq.mul_right _ ?_)
  exact hs.h.add_right _

theorem reduce_tight {h : Limbs} (hw : h.Weak 26 (2^10)) :
    (reduce h).Yields fun r => r.Weak 26 0 ∧ number 26 r ≡ number 26 h [MOD prime] := by
  obtain ⟨l0,l1,l2,l3,l4⟩ := h
  obtain ⟨w0,w1,w2,w3,w4⟩ := hw
  dsimp only at w0 w1 w2 w3 w4
  simp only [reduce,and_m26,Nat.shiftRight_eq_div_pow]
  refine (yields_add (by omega)).bind fun h2 e2 => ?_
  refine (yields_add (by omega)).bind fun h3 e3 => ?_
  refine (yields_add (by omega)).bind fun h4 e4 => ?_
  refine (yields_mul (by omega)).bind ?_
  rintro _ rfl
  refine (yields_add (by omega)).bind fun h0 e0 => ?_
  refine (yields_add (by omega)).bind fun h1 e1 => ?_
  have h1lt : h1 < 2^26 := by omega
  refine .pure ⟨⟨Nat.mod_lt _ (by decide),h1lt,Nat.mod_lt _ (by decide),
    Nat.mod_lt _ (by decide),Nat.mod_lt _ (by decide)⟩,?_⟩
  have hn : number 26 ⟨h0%2^26,h1,h2%2^26,h3%2^26,h4%2^26⟩+prime*(h4/2^26) =
      number 26 ⟨l0,l1,l2,l3,l4⟩ := by
    simp only [number,prime]
    omega
  rw [← hn]
  exact (Nat.add_mul_mod_self_left _ _ _).symm

theorem choose_zero {h : ℕ} (g : ℕ) (hh : h < 2^64) : choose 0 h g = h := by
  rw [choose,Nat.zero_xor,Nat.and_zero,Nat.or_zero,Nat.and_two_pow_sub_one_of_lt_two_pow hh]

theorem choose_ones (h : ℕ) {g : ℕ} (hg : g < 2^64) : choose (2^64-1) h g = g := by
  rw [choose,Nat.xor_self,Nat.and_zero,Nat.zero_or,Nat.and_two_pow_sub_one_of_lt_two_pow hg]

theorem select_mask {top : ℕ} (h : top < 2^27) :
    wrapSub 64 (wrapSub 64 top (1<<<26)>>>63) 1 = if top < 2^26 then 0 else 2^64-1 := by
  rw [show (1:ℕ)<<<26 = 2^26 by decide,Nat.shiftRight_eq_div_pow]
  split
  next hlt =>
    rw [wrapSub_of_lt (by decide) hlt,show (2^64-(2^26-top))/2^63 = 1 by omega]
    rfl
  next hge =>
    rw [wrapSub_of_le (a := top) (by omega) (by omega),Nat.div_eq_of_lt (by omega)]
    rfl

theorem select_reduced {h : Limbs} (hw : h.Weak 26 0) :
    (select h).Yields fun r => r.Weak 26 0 ∧ number 26 r = number 26 h%prime := by
  obtain ⟨l0,l1,l2,l3,l4⟩ := h
  obtain ⟨w0,w1,w2,w3,w4⟩ := hw
  dsimp only at w0 w1 w2 w3 w4
  simp only [select]
  have sh (x : ℕ) : x>>>26 = x/2^26 := Nat.shiftRight_eq_div_pow x 26
  refine (yields_add (by omega)).bind fun g0 e0 => ?_
  rw [sh]
  refine (yields_add (by omega)).bind fun g1 e1 => ?_
  rw [sh]
  refine (yields_add (by omega)).bind fun g2 e2 => ?_
  rw [sh]
  refine (yields_add (by omega)).bind fun g3 e3 => ?_
  rw [sh]
  refine (yields_add (by omega)).bind fun top e4 => ?_
  rw [select_mask (by omega)]
  have low (x : ℕ) : x%2^26 < 2^26 := Nat.mod_lt _ (by decide)
  refine .pure ?_
  by_cases hlt : top < 2^26
  · rw [if_pos hlt,choose_zero _ (by omega),choose_zero _ (by omega),choose_zero _ (by omega),
      choose_zero _ (by omega)]
    have htop : (l4 &&& (0 ^^^ (2^64-1))) |||
        (wrapSub 64 top (1<<<26) &&& 0 &&& m26) = l4 := by
      rw [Nat.and_zero,Nat.zero_and]
      exact choose_zero 0 (by omega)
    rw [htop]
    refine ⟨⟨w0,w1,w2,w3,w4⟩,(Nat.mod_eq_of_lt ?_).symm⟩
    simp only [number,prime]
    omega
  · have fits (x : ℕ) : x &&& m26 < 2^64 := (and_m26_lt x).trans (by decide)
    rw [if_neg hlt,choose_ones _ (fits _),choose_ones _ (fits _),choose_ones _ (fits _),
      choose_ones _ (fits _)]
    have htop : (l4 &&& ((2^64-1) ^^^ (2^64-1))) |||
        (wrapSub 64 top (1<<<26) &&& (2^64-1) &&& m26) = top-2^26 := by
      rw [wrapSub_of_le (b := 1<<<26) (by omega) (by rw [show (1:ℕ)<<<26 = 2^26 by decide]; omega)]
      rw [show (1:ℕ)<<<26 = 2^26 by decide,Nat.xor_self,Nat.and_zero,Nat.zero_or,
        Nat.and_two_pow_sub_one_of_lt_two_pow (by omega),and_m26,Nat.mod_eq_of_lt (by omega)]
    rw [htop]
    simp only [and_m26]
    refine ⟨⟨low _,low _,low _,low _,by dsimp only; omega⟩,?_⟩
    have hn : number 26 ⟨l0,l1,l2,l3,l4⟩ =
        number 26 ⟨g0%2^26,g1%2^26,g2%2^26,g3%2^26,top-2^26⟩+prime := by
      simp only [number,prime]
      omega
    have hsmall : number 26 ⟨g0%2^26,g1%2^26,g2%2^26,g3%2^26,top-2^26⟩ < prime := by
      simp only [number,prime]
      omega
    rw [hn,Nat.add_mod_right,Nat.mod_eq_of_lt hsmall]

theorem pack_number {h : Limbs} (hw : h.Weak 26 0) :
    (pack (window 32) h).Yields fun w => w.Below 32 ∧ w.number 32 = number 26 h%2^128 := by
  obtain ⟨w0,w1,w2,w3,w4⟩ := hw
  have hp : (0:ℕ) < 2^32 := by decide
  refine (yields_window _).bind ?_
  rintro _ rfl
  refine (yields_window _).bind ?_
  rintro _ rfl
  refine (yields_window _).bind ?_
  rintro _ rfl
  refine (yields_window _).bind ?_
  rintro _ rfl
  refine .pure ⟨⟨Nat.mod_lt _ hp,Nat.mod_lt _ hp,Nat.mod_lt _ hp,Nat.mod_lt _ hp⟩,?_⟩
  simp only [Nat.shiftRight_eq_div_pow]
  rw [or_shl w0 (by decide),or_shl (by omega) (by decide),or_shl (by omega) (by decide),
    or_shl (by omega) (by decide)]
  simp only [Words.number,number]
  omega

theorem addPad_number {w p : Words} (hw : w.Below 32) (hp : p.Below 32) :
    (addPad (window 32) w p).Yields fun o =>
      o.Below 32 ∧ o.number 32 = (w.number 32+p.number 32)%2^128 := by
  obtain ⟨w0,w1,w2,w3⟩ := w
  obtain ⟨p0,p1,p2,p3⟩ := p
  obtain ⟨a0,a1,a2,a3⟩ := hw
  obtain ⟨b0,b1,b2,b3⟩ := hp
  dsimp only at a0 a1 a2 a3 b0 b1 b2 b3
  simp only [addPad,Nat.shiftRight_eq_div_pow]
  refine (yields_add (by omega)).bind fun f0 e0 => ?_
  refine (yields_window f0).bind ?_
  rintro _ rfl
  refine (yields_add (by omega)).bind ?_
  rintro _ rfl
  refine (yields_add (by omega)).bind fun f1 e1 => ?_
  refine (yields_window f1).bind ?_
  rintro _ rfl
  refine (yields_add (by omega)).bind ?_
  rintro _ rfl
  refine (yields_add (by omega)).bind fun f2 e2 => ?_
  refine (yields_window f2).bind ?_
  rintro _ rfl
  refine (yields_add (by omega)).bind ?_
  rintro _ rfl
  refine (yields_add (by omega)).bind fun f3 e3 => ?_
  refine (yields_window f3).bind ?_
  rintro _ rfl
  have hp : (0:ℕ) < 2^32 := by decide
  refine .pure ⟨⟨Nat.mod_lt _ hp,Nat.mod_lt _ hp,Nat.mod_lt _ hp,Nat.mod_lt _ hp⟩,?_⟩
  simp only [Words.number]
  omega

end Poly1305
end WireGuard
