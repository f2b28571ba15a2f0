import WireGuard.Blake2s

/-!
# The digests of RFC 7693

Word by word the compression of the code is that of the standard. A counter of 64
bits counts every byte as long as the input and the key block stay below 2^64.
-/

set_option autoImplicit false

namespace WireGuard.Blake2s
open ByteString Lanes

theorem fraction_eq {p f : ℕ} (i : ℕ) (h : f < 2^32 ∧ (i*2^32+f)*(i*2^32+f) ≤ p*2^64 ∧
    p*2^64 < (i*2^32+f+1)*(i*2^32+f+1)) : Nat.sqrt (p*2^64)%2^32 = f := by
  rw [← Nat.eq_sqrt.mpr h.2]
  omega

theorem iv_toNat : iv.map UInt32.toNat = Blake2.fractions := by
  have hiv : iv.map UInt32.toNat = #v[0x6a09e667,0xbb67ae85,0x3c6ef372,0xa54ff53a,0x510e527f,
      0x9b05688c,0x1f83d9ab,0x5be0cd19] := by decide +kernel
  have h2 : Nat.sqrt (2*2^64)%2^32 = 0x6a09e667 := fraction_eq 1 (by decide)
  have h3 : Nat.sqrt (3*2^64)%2^32 = 0xbb67ae85 := fraction_eq 1 (by decide)
  have h5 : Nat.sqrt (5*2^64)%2^32 = 0x3c6ef372 := fraction_eq 2 (by decide)
  have h7 : Nat.sqrt (7*2^64)%2^32 = 0xa54ff53a := fraction_eq 2 (by decide)
  have h11 : Nat.sqrt (11*2^64)%2^32 = 0x510e527f := fraction_eq 3 (by decide)
  have h13 : Nat.sqrt (13*2^64)%2^32 = 0x9b05688c := fraction_eq 3 (by decide)
  have h17 : Nat.sqrt (17*2^64)%2^32 = 0x1f83d9ab := fraction_eq 4 (by decide)
  have h19 : Nat.sqrt (19*2^64)%2^32 = 0x5be0cd19 := fraction_eq 4 (by decide)
  rw [hiv]
  simp only [Blake2.fractions,Vector.map_mk,List.map_toArray,List.map_cons,List.map_nil,
    h2,h3,h5,h7,h11,h13,h17,h19]

theorem w_eq : Blake2.s.w = 32 := rfl

theorem rotateRight_toNat (n x : UInt32) (h : n.toNat < 32) (h0 : 0 < n.toNat) :
    (rotateRight n x).toNat = Blake2.s.rotr n.toNat x.toNat := by
  rw [rotateRight,UInt32.toNat_or,UInt32.toNat_shiftRight,UInt32.toNat_shiftLeft,sub_toNat h,
    Nat.mod_eq_of_lt h,Nat.mod_eq_of_lt (show 32-n.toNat < 32 by omega)]
  rfl

theorem g_toNat (x y a b c d : UInt32) :
    Blake2.s.mix x.toNat y.toNat a.toNat b.toNat c.toNat d.toNat =
      map4 UInt32.toNat (g x y a b c d) := by
  have h16 (x : UInt32) : (rotateRight 16 x).toNat = Blake2.s.rotr Blake2.s.r1 x.toNat :=
    rotateRight_toNat 16 x (by decide) (by decide)
  have h12 (x : UInt32) : (rotateRight 12 x).toNat = Blake2.s.rotr Blake2.s.r2 x.toNat :=
    rotateRight_toNat 12 x (by decide) (by decide)
  have h8 (x : UInt32) : (rotateRight 8 x).toNat = Blake2.s.rotr Blake2.s.r3 x.toNat :=
    rotateRight_toNat 8 x (by decide) (by decide)
  have h7 (x : UInt32) : (rotateRight 7 x).toNat = Blake2.s.rotr Blake2.s.r4 x.toNat :=
    rotateRight_toNat 7 x (by decide) (by decide)
  simp only [Blake2.Variant.mix,g,map4,w_eq,UInt32.toNat_add,UInt32.toNat_xor,h16,h12,h8,h7,
    Nat.mod_add_mod,Nat.add_assoc]

theorem get_toNat {n : ℕ} (v : Vector UInt32 n) (i : Fin n) :
    (v.map UInt32.toNat).get i = (v.get i).toNat :=
  Vector.getElem_map UInt32.toNat i.isLt

theorem round_toNat (m v : Vector UInt32 16) (s : Vector (Fin 16) 16) :
    Blake2.s.round (m.map UInt32.toNat) (v.map UInt32.toNat) s =
      (round m v s).map UInt32.toNat := by
  simp only [Blake2.Variant.round,round,get_toNat,at4_map (g_toNat _ _)]

theorem rounds_toNat (m v : Vector UInt32 16) :
    (List.range Blake2.s.rounds).foldl
        (fun v i => Blake2.s.round (m.map UInt32.toNat) v
          (Blake2.Variant.sigma.get (Fin.ofNat 10 i)))
        (v.map UInt32.toNat) =
      (sigma.foldl (round m) v).map UInt32.toNat := by
  have hs : sigma = (List.range 10).map (fun i => Blake2.Variant.sigma.get (Fin.ofNat 10 i)) := by
    decide +kernel
  have hr : Blake2.s.rounds = 10 := rfl
  rw [hs,hr,List.foldl_map]
  generalize List.range 10 = is
  induction is generalizing v with
  | nil => rfl
  | cons i is ih =>
    rw [List.foldl_cons,List.foldl_cons,round_toNat]
    exact ih _

theorem words_toNat (block : Bytes 64) :
    Blake2.s.words block.toList = (words block).map UInt32.toNat := by
  ext i hi
  simp only [Blake2.Variant.words,words,Vector.getElem_map,Vector.getElem_ofFn,
    UInt32.toNat_ofNat']
  have hl := fromLe_lt ((block.toList.drop (4*i)).take 4)
  have hb : ((block.toList.drop (4*i)).take 4).length ≤ 4 := List.length_take_le _ _
  exact (Nat.mod_eq_of_lt (hl.trans_le (Nat.pow_le_pow_right (by decide) hb))).symm

theorem not_toNat (x : UInt32) : (~~~x).toNat = x.toNat ^^^ (2^32-1) := by
  have h : ~~~x = x ^^^ 0xffffffff := by
    apply UInt32.toBitVec_inj.mp
    exact BitVec.xor_allOnes.symm
  rw [h,UInt32.toNat_xor]
  rfl

theorem xor_toNat {n : ℕ} (x : UInt32) (i : Fin n) (v : Vector UInt32 n) :
    at1 (· ^^^ x.toNat) i (v.map UInt32.toNat) = (at1 (· ^^^ x) i v).map UInt32.toNat :=
  at1_map (fun a => (UInt32.toNat_xor a x).symm) i v

theorem start_toNat (h : Vector UInt32 8) (t : UInt64) (last : Bool) :
    Blake2.s.start (h.map UInt32.toNat) t.toNat last = (start h t last).map UInt32.toNat := by
  have ht := t.toNat_lt
  have hlo : t.toNat%2^32 = t.toUInt32.toNat := (UInt64.toNat_toUInt32 t).symm
  have hhi : t.toNat/2^32 = (t >>> 32).toUInt32.toNat := by
    rw [UInt64.toNat_toUInt32,UInt64.toNat_shiftRight]
    change _ = t.toNat >>> 32%2^32
    rw [Nat.shiftRight_eq_div_pow]
    omega
  have hv : h.map UInt32.toNat++Blake2.s.iv = (h++iv).map UInt32.toNat := by
    rw [Vector.map_append,iv_toNat]
    rfl
  unfold Blake2.Variant.start start
  rw [hv,w_eq]
  dsimp only
  rw [hlo,hhi,xor_toNat,xor_toNat]
  cases last with
  | false => rfl
  | true =>
    rw [if_pos rfl,if_pos rfl]
    exact at1_map (fun a => (not_toNat a).symm) _ _

/-- The compression of the code is the function `F` of the standard. -/
theorem compress_toNat (h : Vector UInt32 8) (block : Bytes 64) (t : UInt64) (last : Bool) :
    Blake2.s.compress (h.map UInt32.toNat) (Blake2.s.words block.toList) t.toNat last =
      (compress h block t last).map UInt32.toNat := by
  unfold Blake2.Variant.compress compress
  rw [words_toNat,start_toNat,rounds_toNat]
  ext i hi
  simp only [Vector.getElem_ofFn,Vector.getElem_map,get_toNat,UInt32.toNat_xor,Nat.xor_assoc]

theorem parameters_toNat {outLen keyLen : ℕ} (ho : outLen < 2^32) (hk : keyLen < 2^24) :
    Blake2.s.parameters keyLen outLen = (parameters outLen keyLen).map UInt32.toNat := by
  have hk8 : (UInt32.ofNat keyLen <<< 8).toNat = keyLen <<< 8 := by
    have h8 : (8 : UInt32).toNat = 8 := rfl
    rw [UInt32.toNat_shiftLeft,UInt32.toNat_ofNat',h8,Nat.mod_eq_of_lt (show 8 < 32 by decide),
      Nat.shiftLeft_eq,Nat.shiftLeft_eq]
    omega
  have ho' : (UInt32.ofNat outLen).toNat = outLen := by
    rw [UInt32.toNat_ofNat',Nat.mod_eq_of_lt ho]
  have hc : ((0x01010000 : UInt32)).toNat = 0x01010000 := rfl
  have hv : Blake2.s.iv = iv.map UInt32.toNat := iv_toNat.symm
  rw [Blake2.Variant.parameters,parameters,hv,← xor_toNat,UInt32.toNat_xor,UInt32.toNat_xor,hk8,
    ho',hc]

theorem chain_toNat (h : Vector UInt32 8) (s : List UInt8) {k : ℕ} (hk : 64*k < 2^64) :
    (List.range k).foldl (fun h i => Blake2.s.compress h
        (Blake2.s.words (blockAt Blake2.s.blockBytes s i).toList) ((i+1)*Blake2.s.blockBytes) false)
        (h.map UInt32.toNat) =
      (chain h s k).map UInt32.toNat := by
  induction k with
  | zero => simp only [chain,List.range_zero,List.foldl_nil]
  | succ k ih =>
    have ht : (k+1)*Blake2.s.blockBytes = (UInt64.ofNat (64*(k+1))).toNat := by
      rw [UInt64.toNat_ofNat',Nat.mod_eq_of_lt hk,Nat.mul_comm]
      rfl
    rw [List.range_succ,List.foldl_append,ih (by omega),chain_succ,List.foldl_cons,List.foldl_nil,
      ht]
    exact compress_toNat _ _ _ _

theorem blocks_held (n : ℕ) : max 1 (n ⌈/⌉ Blake2.s.blockBytes)-1 = held n := by
  have hb : Blake2.s.blockBytes = 64 := rfl
  rw [hb,held,Nat.ceilDiv_eq_add_pred_div]
  omega

theorem serialize_toNat (h : Vector UInt32 8) :
    (h.map UInt32.toNat).toList.flatMap (toLe Blake2.s.wordBytes) = (serialize h).toList := by
  rw [serialize,ofList_toList,Vector.toList_map,List.flatMap_map]
  rfl

/-- A hasher that was fed all that the standard hashes returns the standard's digest. -/
theorem finalize_digest {c : Core} {key message : List UInt8} {outLen : ℕ} (ho : outLen < 2^32)
    (hk : key.length < 2^24)
    (hc : c.Fed (parameters outLen key.length) (Blake2.s.data key message))
    (hl : (Blake2.s.data key message).length < 2^64) :
    Blake2.s.digest key message outLen = c.finalize.toList.take outLen := by
  have ht : (Blake2.s.data key message).length =
      (UInt64.ofNat (Blake2.s.data key message).length).toNat := by
    rw [UInt64.toNat_ofNat',Nat.mod_eq_of_lt hl]
  have hh : 64*held (Blake2.s.data key message).length < 2^64 := by
    unfold held
    omega
  unfold Blake2.Variant.digest
  dsimp only
  rw [blocks_held,parameters_toNat ho hk,chain_toNat _ _ hh,Core.finalize_fed hc,← serialize_toNat,
    ← compress_toNat]
  congr 5

theorem hash_fed (parts : List (List UInt8)) :
    (parts.foldl Core.update (Core.new 32 [])).Fed (parameters 32 0) parts.flatten := by
  simpa using Core.updates_fed (Core.new_fed 32) parts

theorem mac_toList (key : List UInt8) (parts : List (List UInt8)) :
    (mac key parts).toList = (parts.foldl Core.update (newMac key)).finalize.toList.take 16 := by
  rw [mac,ofList_toList]

theorem mac_fed {key : List UInt8} (h0 : key ≠ []) (h : key.length ≤ 32)
    (parts : List (List UInt8)) :
    (parts.foldl Core.update (Core.new 16 key)).Fed (parameters 16 key.length)
      (Blake2.s.data key parts.flatten) := by
  rw [Blake2.Variant.data,if_neg h0]
  exact Core.updates_fed (Core.new_key_fed 16 h0 (by omega)) parts

/-- Whatever the split of the input into parts, the code's digests are those of the
standard, unkeyed with 32 bytes and keyed with 16. -/
theorem blake2s_correct (parts : List (List UInt8)) (h : parts.flatten.length < 2^64-64) :
    (hash parts).toList = Blake2.s.digest [] parts.flatten 32 ∧
    ∀ key : List UInt8, 1 ≤ key.length → key.length ≤ 32 →
      (mac key parts).toList = Blake2.s.digest key parts.flatten 16 := by
  refine ⟨?_,fun key h1 hk => ?_⟩
  · have hd : Blake2.s.data [] parts.flatten = parts.flatten := if_pos rfl
    rw [finalize_digest (by decide) (by decide) (by rw [hd]; exact hash_fed parts)
      (by rw [hd]; omega),List.take_of_length_le (by simp)]
    rfl
  · have h0 : key ≠ [] := List.ne_nil_of_length_pos h1
    have hd : (Blake2.s.data key parts.flatten).length = 64+parts.flatten.length := by
      have hb : Blake2.s.blockBytes = 64 := rfl
      rw [Blake2.Variant.data,if_neg h0,hb,List.length_append,List.length_append,
        List.length_replicate]
      omega
    have hm : newMac key = Core.new 16 key := if_neg (by omega)
    rw [mac_toList,hm]
    exact (finalize_digest (by decide) (by omega) (mac_fed h0 hk parts) (by rw [hd]; omega)).symm

/-- The empty message, and one of a hundred bytes that is split inside its first block. -/
theorem blake2s_correct_specimen :
    let parts : List (List UInt8) := [List.replicate 40 1,[],List.replicate 60 2]
    (hash []).toList = Blake2.s.digest [] [] 32 ∧
      (hash parts).toList = Blake2.s.digest [] parts.flatten 32 ∧
      (mac [1] parts).toList = Blake2.s.digest [1] parts.flatten 16 := by
  intro parts
  have hlen : parts.flatten.length < 2^64-64 := by simp [parts]
  exact ⟨(blake2s_correct [] (by decide)).1,(blake2s_correct parts hlen).1,
    (blake2s_correct parts hlen).2 [1] (by decide) (by decide)⟩

/-! ## The protocol's use

`Primitives` takes the concatenation of the parts; here the split is immaterial for
every length, since the counter wraps alike. -/

theorem finalize_eq {h : Vector UInt32 8} {s : List UInt8} {c c' : Core} (hc : c.Fed h s)
    (hc' : c'.Fed h s) : c.finalize = c'.finalize := by
  rw [Core.finalize_fed hc,Core.finalize_fed hc']

def suite (P : Primitives) : Primitives :=
  {P with
    digest := fun message => hash [message]
    keyed := fun key message => mac key [message]}

theorem hash_suite (P : Primitives) (parts : List (List UInt8)) :
    WireGuard.hash (suite P) parts = hash parts :=
  finalize_eq (hash_fed [parts.flatten]) (by simpa using hash_fed parts)

def macKey (key : List UInt8) : List UInt8 :=
  if 32 < key.length then (hash [key]).toList else key

theorem newMac_eq (key : List UInt8) : newMac key = Core.new 16 (macKey key) := by
  unfold newMac macKey
  split <;> rfl

theorem macKey_length (key : List UInt8) : (macKey key).length ≤ 32 := by
  unfold macKey
  split
  · simp
  · omega

theorem newMac_fed (key : List UInt8) : ∃ h s, (newMac key).Fed h s := by
  rw [newMac_eq]
  by_cases h0 : macKey key = []
  · rw [h0]
    exact ⟨_,_,Core.new_fed 16⟩
  · exact ⟨_,_,Core.new_key_fed 16 h0 ((macKey_length key).trans (by decide))⟩

theorem mac_suite (P : Primitives) (key : List UInt8) (parts : List (List UInt8)) :
    WireGuard.mac (suite P) key parts = mac key parts := by
  obtain ⟨h,s,hc⟩ := newMac_fed key
  have hone : (([parts.flatten] : List (List UInt8)).foldl Core.update (newMac key)).Fed h
      (s++parts.flatten) := by
    simpa using Core.updates_fed hc [parts.flatten]
  apply toList_inj
  change (mac key [parts.flatten]).toList = _
  rw [mac_toList,mac_toList,finalize_eq hone (Core.updates_fed hc parts)]

end WireGuard.Blake2s
