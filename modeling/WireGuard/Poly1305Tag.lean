import WireGuard.Aead
import WireGuard.Poly1305

/-!
# The Poly1305 tag

The message is a polynomial in the clamped key, one coefficient for each block
with its high one bit. The streaming state is related to the bytes absorbed so
far: the complete blocks are in the accumulator, the rest is in the buffer.
The relation does not see where one `update` ended and the next began.
-/

set_option autoImplicit false

namespace WireGuard
open ByteString Checked Limbs

namespace Poly1305

def fullBlocks (m : List UInt8) : List (List UInt8) := chunks 16 (m.length/16) m

def tail (m : List UInt8) : List UInt8 := m.drop (16*(m.length/16))

/-- All blocks; only the last may be short. -/
def blocks (m : List UInt8) : List (List UInt8) := chunks 16 ((m.length+15)/16) m

theorem tail_length (m : List UInt8) : (tail m).length = m.length%16 := by
  rw [tail,List.length_drop]
  omega

theorem exists_aligned (m : List UInt8) :
    ∃ k a t, a.length = 16*k ∧ t.length < 16 ∧ m = a++t := by
  refine ⟨m.length/16,m.take (16*(m.length/16)),tail m,?_,?_,(List.take_append_drop _ _).symm⟩
  · rw [List.length_take]
    omega
  · rw [tail_length]
    omega

section
variable {k : ℕ} {a : List UInt8} (ha : a.length = 16*k) (d : List UInt8)
include ha

theorem fullBlocks_aligned : fullBlocks (a++d) = chunks 16 k a++fullBlocks d := by
  have hl : (a++d).length/16 = k+d.length/16 := by
    rw [List.length_append]
    omega
  rw [fullBlocks,hl,chunks_append d ha]
  rfl

theorem tail_aligned : tail (a++d) = tail d := by
  have hl : 16*((a++d).length/16) = a.length+16*(d.length/16) := by
    rw [List.length_append]
    omega
  rw [tail,hl,← List.drop_drop,List.drop_left]
  rfl

theorem blocks_aligned : blocks (a++d) = chunks 16 k a++blocks d := by
  have hl : ((a++d).length+15)/16 = k+(d.length+15)/16 := by
    rw [List.length_append]
    omega
  rw [blocks,hl,chunks_append d ha]
  rfl

end

theorem fullBlocks_short {m : List UInt8} (h : m.length < 16) : fullBlocks m = [] := by
  rw [fullBlocks,Nat.div_eq_of_lt h]
  rfl

theorem tail_short {m : List UInt8} (h : m.length < 16) : tail m = m := by
  rw [tail,Nat.div_eq_of_lt h]
  rfl

theorem fullBlocks_one {m : List UInt8} (h : m.length = 16) : fullBlocks m = [m] := by
  rw [fullBlocks,h]
  change [m.take 16] = [m]
  rw [List.take_of_length_le h.le]

theorem fullBlocks_append (m d : List UInt8) :
    fullBlocks (m++d) = fullBlocks m++fullBlocks (tail m++d) := by
  obtain ⟨k,a,t,ha,ht,rfl⟩ := exists_aligned m
  rw [List.append_assoc,fullBlocks_aligned ha,fullBlocks_aligned ha,fullBlocks_short ht,
    List.append_nil,tail_aligned ha,tail_short ht]

theorem tail_append (m d : List UInt8) : tail (m++d) = tail (tail m++d) := by
  obtain ⟨k,a,t,ha,ht,rfl⟩ := exists_aligned m
  rw [List.append_assoc,tail_aligned ha,tail_aligned ha,tail_short ht]

theorem blocks_eq (m : List UInt8) :
    blocks m = fullBlocks m++if 0 < m.length%16 then [tail m] else [] := by
  obtain ⟨k,a,t,ha,ht,rfl⟩ := exists_aligned m
  have hr : (a++t).length%16 = t.length := by
    rw [List.length_append]
    omega
  rw [blocks_aligned ha,fullBlocks_aligned ha,fullBlocks_short ht,List.append_nil,
    tail_aligned ha,tail_short ht,hr]
  split
  next h =>
    rw [blocks,show (t.length+15)/16 = 1 by omega]
    change _++[t.take 16] = _
    rw [List.take_of_length_le ht.le]
  next h =>
    rw [blocks,show (t.length+15)/16 = 0 by omega]
    rfl

/-- The state that has absorbed `m`. -/
structure Absorbed (key : Bytes 32) (m : List UInt8) (s : Poly1305) : Prop where
  blocks : s.Accumulates key ((fullBlocks m).map highBit)
  bufLen : s.bufLen = m.length%16
  buf : s.buf.toList.take s.bufLen = tail m

theorem Accumulates.rebuffer {key : Bytes 32} {bs : List ℕ} {s : Poly1305}
    (h : s.Accumulates key bs) (buf : Bytes 16) (bufLen : ℕ) :
    Accumulates key bs {s with buf := buf,bufLen := bufLen} :=
  ⟨h.bound,h.r,h.words,h.pad,h.weak,h.h⟩

theorem processBlock_full {key : Bytes 32} {bs : List (List UInt8)} {s : Poly1305}
    (hs : s.Accumulates key (bs.map highBit)) (block : Bytes 16) :
    (s.processBlock block (1<<<24)).Yields
      (Accumulates key ((bs++[block.toList]).map highBit)) := by
  refine (processBlock_accumulates hs block (.inr rfl)).mono fun t ht => ?_
  have hv : fromLe block.toList+2^104*2^24 = highBit block.toList := by
    rw [highBit,toList_length']
    rfl
  rw [List.map_append,List.map_singleton,← hv]
  exact ht.1

theorem absorb_absorbed {key : Bytes 32} {m : List UInt8} {s : Poly1305}
    (hs : s.Accumulates key ((fullBlocks m).map highBit)) (hm : tail m = [])
    (data : List UInt8) : (s.absorb data).Yields (Absorbed key (m++data)) := by
  have hlen := chunks_length (n := 16) (k := data.length/16) (l := data) (by omega)
  refine (Yields.foldlM (fun done s => s.Accumulates key ((fullBlocks m++done).map highBit))
    (fullBlocks data) [] ?_ (by simpa using hs)).bind fun t ht => ?_
  · intro done s chunk hc hs
    have hb : (overwrite (zeros 16) 0 chunk).toList = chunk := by
      have h16 := hlen chunk hc
      rw [overwrite_toList,copyAt_full (by simp [h16]),toList_length',
        List.take_of_length_le h16.le]
    have := processBlock_full hs (overwrite (zeros 16) 0 chunk)
    rwa [hb,List.append_assoc] at this
  · have happ := fullBlocks_append m data
    have htail := tail_append m data
    rw [hm,List.nil_append] at happ htail
    rw [List.nil_append] at ht
    have hr := tail_length data
    refine .pure ⟨?_,?_,?_⟩
    · rw [happ]
      exact ht.rebuffer _ _
    · have h0 := tail_length m
      rw [hm,List.length_nil] at h0
      change (tail data).length = _
      rw [hr,List.length_append]
      omega
    · have hbuf := copyAt_take t.buf.toList 0 (tail data) (by rw [toList_length']; omega)
      rw [Nat.zero_add,List.take_zero,List.nil_append] at hbuf
      rw [htail]
      exact hbuf

theorem update_absorbed {key : Bytes 32} {m : List UInt8} {s : Poly1305}
    (hs : s.Absorbed key m) (data : List UInt8) :
    (s.update data).Yields (Absorbed key (m++data)) := by
  have ht := tail_length m
  have hl := hs.bufLen
  have hbuf := toList_length' s.buf
  unfold update
  split
  next hpos =>
    dsimp only
    split
    next hshort =>
      -- everything fits behind the buffered bytes
      have hd : s.bufLen+data.length < 16 := by omega
      have hlen : (tail m++data).length < 16 := by rw [List.length_append]; omega
      have hc := copyAt_take s.buf.toList s.bufLen data (by omega)
      refine .pure ⟨?_,?_,?_⟩
      · rw [fullBlocks_append,fullBlocks_short hlen,List.append_nil]
        exact hs.blocks.rebuffer _ _
      · change s.bufLen+min (16-s.bufLen) data.length = _
        rw [List.length_append]
        omega
      · rw [tail_append,tail_short hlen,← hs.buf,← hc]
        congr 1
        change s.bufLen+min (16-s.bufLen) data.length = _
        omega
    next hfull =>
      -- the buffer is completed to a block; what follows is aligned
      have htake : min (16-s.bufLen) data.length = 16-s.bufLen := by omega
      rw [htake]
      have hblock : (overwrite s.buf s.bufLen data).toList =
          tail m++data.take (16-s.bufLen) := by
        rw [overwrite_toList,copyAt,hs.buf,hbuf,List.drop_eq_nil_of_le (by omega),List.append_nil]
      have h16 : (tail m++data.take (16-s.bufLen)).length = 16 := by
        rw [List.length_append,List.length_take]
        omega
      have hstep := processBlock_full (hs.blocks.rebuffer (overwrite s.buf s.bufLen data)
        (s.bufLen+(16-s.bufLen))) (overwrite s.buf s.bufLen data)
      refine hstep.bind fun t ht => ?_
      have hnext : fullBlocks (m++data.take (16-s.bufLen)) =
          fullBlocks m++[tail m++data.take (16-s.bufLen)] := by
        rw [fullBlocks_append,fullBlocks_one h16]
      have htail : tail (m++data.take (16-s.bufLen)) = [] := by
        rw [tail_append,tail,h16]
        exact List.drop_eq_nil_of_le h16.le
      rw [hblock,← hnext] at ht
      have := absorb_absorbed (ht.rebuffer t.buf 0) htail (data.drop (16-s.bufLen))
      rwa [List.append_assoc,List.take_append_drop] at this
  next hzero =>
    have hm : tail m = [] := List.length_eq_zero_iff.mp (by omega)
    exact absorb_absorbed hs.blocks hm data

theorem fromLe_replicate_zero (n : ℕ) : fromLe (List.replicate n 0) = 0 := by
  induction n with
  | zero => rfl
  | succ n ih => rw [List.replicate_succ,fromLe,ih]; rfl

theorem lastBlock_number {key : Bytes 32} {m : List UInt8} {s : Poly1305}
    (hs : s.Absorbed key m) : fromLe s.lastBlock.toList = highBit (tail m) := by
  have ht := tail_length m
  have hl := hs.bufLen
  have hfirst : copyAt (zeros 16).toList 0 (tail m) =
      tail m++List.replicate (16-(tail m).length) 0 := by
    change copyAt (List.replicate 16 0) 0 (tail m) = _
    rw [copyAt,List.take_zero,List.nil_append,List.length_replicate,
      List.take_of_length_le (by omega),List.drop_replicate,Nat.zero_add]
  have hlast : s.lastBlock.toList = tail m++1::List.replicate (15-(tail m).length) 0 := by
    rw [lastBlock,overwrite_toList,overwrite_toList,hs.buf,hfirst,hl,← ht,copyAt,List.take_left,
      List.take_of_length_le (by simp; omega),List.drop_length_add_append,List.drop_replicate,
      List.length_singleton,Nat.sub_sub,Nat.add_comm,← Nat.sub_sub]
    rfl
  rw [hlast,fromLe_append,fromLe,highBit,fromLe_replicate_zero]
  exact congrArg _ (Nat.mul_one _)

theorem flush_accumulates {key : Bytes 32} {m : List UInt8} {s : Poly1305}
    (hs : s.Absorbed key m) : s.flush.Yields (Accumulates key ((blocks m).map highBit)) := by
  rw [flush,blocks_eq,← hs.bufLen]
  split
  · refine (processBlock_accumulates hs.blocks s.lastBlock (.inl rfl)).mono fun t ht => ?_
    rw [List.map_append,List.map_singleton,← lastBlock_number hs]
    exact ht.1
  · rw [List.append_nil]
    exact .pure hs.blocks

def tagNumber (key : Bytes 32) (m : List UInt8) : ℕ :=
  (evaluate (clampR key) ((blocks m).map highBit)%prime+padS key)%2^128

theorem finalize_tag {key : Bytes 32} {m : List UInt8} {s : Poly1305} (hs : s.Absorbed key m) :
    (s.finalize (window 32)).Yields (· = leBytes 16 (tagNumber key m)) := by
  refine (flush_accumulates hs).bind fun t ht => ?_
  refine (reduce_tight ht.weak).bind fun h ⟨hw,hn⟩ => ?_
  refine (select_reduced hw).bind fun g ⟨gw,gn⟩ => ?_
  refine (pack_number gw).bind fun w ⟨pw,pn⟩ => ?_
  refine (addPad_number pw ht.words).bind fun o ⟨ow,on⟩ => ?_
  refine .pure (toList_inj ?_)
  have hv : o.number 32 = tagNumber key m := by
    rw [on,pn,gn,ht.pad,hn.trans ht.h,Nat.mod_add_mod]
    rfl
  exact (Words.bytes_eq (n := 4) ow).trans (by rw [hv]; rfl)

theorem tag_yields (key : Bytes 32) (parts : List (List UInt8)) :
    (tag (window 32) key parts).Yields (· = leBytes 16 (tagNumber key parts.flatten)) := by
  refine (new_accumulates key).bind fun s ⟨hs,h0⟩ => ?_
  have hstart : s.Absorbed key [].flatten := ⟨hs,h0,by rw [h0]; rfl⟩
  have hloop := Yields.foldlM (f := update) (fun done s => s.Absorbed key done.flatten) parts []
    (fun done s part _ hs => by simpa using update_absorbed hs part) hstart
  exact hloop.bind fun t ht => finalize_tag ht

theorem tag_value (key : Bytes 32) (parts : List (List UInt8)) :
    (tag (narrow 32) key parts).value = leBytes 16 (tagNumber key parts.flatten) :=
  (tag_yields key parts).2

/-- The tag of every message, however it is split into chunks, is the value of its
polynomial reduced and added to the pad. With the eight casts of `finalize` taken as windows
no operation lost a bit, and recording them does not change the tag. -/
theorem tag_correct (key : Bytes 32) (parts : List (List UInt8)) :
    let bytes := leBytes 16 ((evaluate (clampR key) ((blocks parts.flatten).map highBit)%
      (2^130-5)+padS key)%2^128)
    tag (window 32) key parts = ⟨bytes,true⟩ ∧ (tag (narrow 32) key parts).value = bytes :=
  ⟨(tag_yields key parts).eq,tag_value key parts⟩

/-- For one block of ones under the key one, a cast of `finalize` cuts set bits. -/
theorem finalize_cuts_bits :
    (tag (narrow 32) (leBytes 32 1) [List.replicate 16 0xff]).kept = false := by
  decide +kernel

/-! ## The AEAD's use

`computeTag` is stated over one byte string; the source pads and feeds its parts
one by one. -/

theorem updatePadded_absorbed {key : Bytes 32} {m : List UInt8} {s : Poly1305}
    (hs : s.Absorbed key m) (data : List UInt8) :
    (s.updatePadded data).Yields (Absorbed key (m++pad16 data)) := by
  refine (update_absorbed hs data).bind fun t ht => ?_
  dsimp only
  rw [pad16]
  by_cases h : data.length%16 = 0
  · rw [if_neg (not_not.mpr h),if_pos h]
    exact .pure ht
  · rw [if_pos h,if_neg h,← List.append_assoc,List.drop_replicate]
    exact update_absorbed ht _

def computeTagStream (asU32 : ℕ → Checked ℕ) (otk : Bytes 32) (aad ciphertext : List UInt8) :
    Checked (Bytes 16) := do
  let mac ← new otk
  let mac ← mac.updatePadded aad
  let mac ← mac.updatePadded ciphertext
  let mac ← mac.update (toLe 8 aad.length)
  let mac ← mac.update (toLe 8 ciphertext.length)
  mac.finalize asU32

def suite (P : Primitives) : Primitives := {P with poly1305 := fun key m => (tag (narrow 32) key [m]).value}

theorem computeTag_stream (P : Primitives) (otk : Bytes 32) (aad ciphertext : List UInt8) :
    computeTagStream (window 32) otk aad ciphertext =
      ⟨computeTag (suite P) otk aad ciphertext,true⟩ := by
  have hvalue (m : List UInt8) :
      (tag (narrow 32) otk [m]).value = leBytes 16 (tagNumber otk m) := by
    simpa using tag_value otk [m]
  refine Yields.eq ?_
  refine (new_accumulates otk).bind fun s ⟨hs,h0⟩ => ?_
  have hstart : s.Absorbed otk [] := ⟨hs,h0,by rw [h0]; rfl⟩
  refine (updatePadded_absorbed hstart aad).bind fun s hs => ?_
  refine (updatePadded_absorbed hs ciphertext).bind fun s hs => ?_
  refine (update_absorbed hs _).bind fun s hs => ?_
  refine (update_absorbed hs _).bind fun s hs => ?_
  refine (finalize_tag hs).mono fun out hout => hout.trans ?_
  rw [computeTag]
  exact (hvalue _).symm

end Poly1305
end WireGuard
