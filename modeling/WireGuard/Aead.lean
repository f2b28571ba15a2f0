import WireGuard.Primitives

/-!
# The transport and handshake AEAD

The keystream backend is a parameter; its contract is that it agrees with the
scalar loop `xorInPlace`. Sealing and opening are first the source's functions
over a caller's buffer, which return what they report and the bytes they leave
behind, also where they fail, and then, as `sealBytes` and `openBytes`, the byte
strings they compute. Opening verifies the tag before it writes anything.
-/

set_option autoImplicit false

namespace WireGuard
open ByteString

variable (P : Primitives)

def xorChunks (key : Bytes 32) (nonce : Bytes 12) : ℕ → UInt32 → List UInt8 → List UInt8
  | 0, _, _ => []
  | n+1, ctr, data =>
    List.zipWith (fun b k => b ^^^ k) (data.take 64) (P.block key ctr nonce).toList ++
      xorChunks key nonce n (ctr+1) (data.drop 64)

def xorInPlace (key : Bytes 32) (counter : UInt32) (nonce : Bytes 12)
    (data : List UInt8) : List UInt8 :=
  xorChunks P key nonce ((data.length+63)/64) counter data

theorem xorChunks_length (key : Bytes 32) (nonce : Bytes 12) (n : ℕ) (ctr : UInt32)
    (data : List UInt8) (h : data.length ≤ 64*n) :
    (xorChunks P key nonce n ctr data).length = data.length := by
  induction n generalizing ctr data with
  | zero =>
    have hd : data = [] := List.length_eq_zero_iff.mp (by omega)
    simp [xorChunks,hd]
  | succ n ih =>
    have hr := ih (ctr+1) (data.drop 64) (by simp; omega)
    simp only [xorChunks,List.length_append,List.length_zipWith,List.length_take,
      toList_length',hr,List.length_drop]
    omega

theorem xorInPlace_length (key : Bytes 32) (counter : UInt32) (nonce : Bytes 12)
    (data : List UInt8) : (xorInPlace P key counter nonce data).length = data.length :=
  xorChunks_length P key nonce _ counter data (by omega)

theorem zipWith_xor_cancel (a k : List UInt8) (h : a.length ≤ k.length) :
    List.zipWith (fun b k => b ^^^ k) (List.zipWith (fun b k => b ^^^ k) a k) k = a := by
  induction a generalizing k with
  | nil => rfl
  | cons x a ih =>
    cases k with
    | nil => simp at h
    | cons y k =>
      rw [List.zipWith_cons_cons,List.zipWith_cons_cons,ih k (by simpa using h),UInt8.xor_assoc,
        UInt8.xor_self,UInt8.xor_zero]

theorem xorChunks_involutive (key : Bytes 32) (nonce : Bytes 12) (n : ℕ) (ctr : UInt32)
    (data : List UInt8) (h : data.length ≤ 64*n) :
    xorChunks P key nonce n ctr (xorChunks P key nonce n ctr data) = data := by
  induction n generalizing ctr data with
  | zero =>
    have hd : data = [] := List.length_eq_zero_iff.mp (by omega)
    simp [xorChunks,hd]
  | succ n ih =>
    let ks := (P.block key ctr nonce).toList
    let head := List.zipWith (fun b k => b ^^^ k) (data.take 64) ks
    have hks : ks.length = 64 := toList_length' _
    have hh : head.length = (data.take 64).length := by simp [head,hks]
    have hcancel : List.zipWith (fun b k => b ^^^ k) head ks = data.take 64 :=
      zipWith_xor_cancel _ _ (by simp [hks])
    have htail := ih (ctr+1) (data.drop 64) (by simp; omega)
    change List.zipWith _ ((head++_).take 64) ks++
      xorChunks P key nonce n (ctr+1) ((head++_).drop 64) = _
    rcases Nat.lt_or_ge data.length 64 with hlt | hge
    · have hd : data.drop 64 = [] := List.drop_eq_nil_of_le (by omega)
      have hx : xorChunks P key nonce n (ctr+1) (data.drop 64) = [] := by
        apply List.length_eq_zero_iff.mp
        rw [xorChunks_length P key nonce n (ctr+1) _ (by simp [hd]),hd]
        rfl
      have ht : (head++[]).take 64 = head := by
        rw [List.append_nil,List.take_of_length_le]
        simp [hh]
      have he : (head++[]).drop 64 = [] := List.drop_eq_nil_of_le (by simp [hh])
      rw [hd] at htail hx
      rw [hd,hx,ht,he,hcancel,← hx,htail]
      simp [List.take_of_length_le (Nat.le_of_lt hlt)]
    · have hl : head.length = 64 := by rw [hh,List.length_take]; omega
      have ht : (head++xorChunks P key nonce n (ctr+1) (data.drop 64)).take 64 = head := by
        rw [← hl,List.take_left]
      have he : (head++xorChunks P key nonce n (ctr+1) (data.drop 64)).drop 64 =
          xorChunks P key nonce n (ctr+1) (data.drop 64) := by
        rw [← hl,List.drop_left,hl]
      rw [ht,he,hcancel,htail,List.take_append_drop]

theorem xorInPlace_involutive (key : Bytes 32) (counter : UInt32) (nonce : Bytes 12)
    (data : List UInt8) :
    xorInPlace P key counter nonce (xorInPlace P key counter nonce data) = data := by
  have hl := xorInPlace_length P key counter nonce data
  unfold xorInPlace at hl ⊢
  rw [hl]
  exact xorChunks_involutive P key nonce _ counter data (by omega)

/-- A keystream backend writes in place, so it keeps the length of its buffer. -/
structure ChaChaImpl where
  applyKeystream : Bytes 32 → Bytes 12 → UInt32 → List UInt8 → List UInt8
  length_eq : ∀ key nonce counter buf,
    (applyKeystream key nonce counter buf).length = buf.length

def scalar : ChaChaImpl where
  applyKeystream key nonce counter buf := xorInPlace P key counter nonce buf
  length_eq key nonce counter buf := xorInPlace_length P key counter nonce buf

def ChaChaImpl.Meets (C : ChaChaImpl) : Prop :=
  ∀ key nonce counter buf,
    C.applyKeystream key nonce counter buf = xorInPlace P key counter nonce buf

theorem scalar_meets : (scalar P).Meets P := fun _ _ _ _ => rfl

def nonceFromCounter (counter : ℕ) : Bytes 12 :=
  ofList 12 (List.replicate 4 0 ++ toLe 8 counter) (by simp)

theorem nonceFromCounter_inj {c d : ℕ} (hc : c ≤ u64Max) (hd : d ≤ u64Max)
    (h : nonceFromCounter c = nonceFromCounter d) : c = d := by
  have hl : List.replicate 4 0 ++ toLe 8 c = List.replicate 4 0 ++ toLe 8 d :=
    congrArg List.Vector.toList h
  unfold u64Max at hc hd
  exact leBytes_inj (by omega) (by omega) (List.append_cancel_left hl)

def pad16 (data : List UInt8) : List UInt8 :=
  if data.length%16 = 0 then data else data ++ List.replicate (16-data.length%16) 0

def computeTag (otk : Bytes 32) (aad ciphertext : List UInt8) : Bytes 16 :=
  P.poly1305 otk (pad16 aad ++ pad16 ciphertext ++ toLe 8 aad.length ++
    toLe 8 ciphertext.length)

def polyKey (key : Bytes 32) (nonce : Bytes 12) : Bytes 32 :=
  ofList 32 ((P.block key 0 nonce).toList.take 32) (by simp)

def copyExact (dst src : List UInt8) : Except Error (List UInt8) :=
  if dst.length ≠ src.length then .error .internal else .ok src

theorem copyExact_eq {dst src : List UInt8} (h : dst.length = src.length) :
    copyExact dst src = .ok src := if_neg (not_not.mpr h)

def sealWith (C : ChaChaImpl) (key : Bytes 32) (nonce : Bytes 12)
    (aad plaintext out : List UInt8) : Except Error ℕ × List UInt8 :=
  let total := plaintext.length+16
  if out.length < total then (.error .bufferTooSmall,out)
  else
    match splitAtChecked plaintext.length (out.take total) with
    | .error e => (.error e,out)
    | .ok (ctPart,tagPart) =>
      match copyExact ctPart plaintext with
      | .error e => (.error e,out)
      | .ok ct =>
        let ct := C.applyKeystream key nonce 1 ct
        match copyExact tagPart (computeTag P (polyKey P key nonce) aad ct).toList with
        -- by now the ciphertext stands in the buffer
        | .error e => (.error e,ct ++ tagPart ++ out.drop total)
        | .ok tag => (.ok total,ct ++ tag ++ out.drop total)

def openWith (C : ChaChaImpl) (key : Bytes 32) (nonce : Bytes 12)
    (aad ciphertextAndTag out : List UInt8) : Except Error ℕ × List UInt8 :=
  if ciphertextAndTag.length < 16 then (.error .authFailure,out)
  else
    let ctLen := ciphertextAndTag.length-16
    match splitAtChecked ctLen ciphertextAndTag with
    | .error e => (.error e,out)
    | .ok (ciphertext,tag) =>
      if out.length < ctLen then (.error .bufferTooSmall,out)
      else
        let expected := computeTag P (polyKey P key nonce) aad ciphertext
        if !ctEq expected.toList tag then (.error .authFailure,out)
        else
          match copyExact (out.take ctLen) ciphertext with
          | .error e => (.error e,out)
          | .ok plain => (.ok ctLen,C.applyKeystream key nonce 1 plain ++ out.drop ctLen)

def sealInPlaceWith (C : ChaChaImpl) (key : Bytes 32) (nonce : Bytes 12)
    (aad : List UInt8) (ptLen : ℕ) (buf : List UInt8) : Except Error ℕ × List UInt8 :=
  let total := ptLen+16
  if buf.length < total then (.error .bufferTooSmall,buf)
  else
    match splitAtChecked ptLen (buf.take total) with
    | .error e => (.error e,buf)
    | .ok (ctPart,tagPart) =>
      let ct := C.applyKeystream key nonce 1 ctPart
      match copyExact tagPart (computeTag P (polyKey P key nonce) aad ct).toList with
      | .error e => (.error e,ct ++ tagPart ++ buf.drop total)
      | .ok tag => (.ok total,ct ++ tag ++ buf.drop total)

def sealBytes (C : ChaChaImpl) (key : Bytes 32) (nonce : Bytes 12)
    (aad plaintext : List UInt8) : List UInt8 :=
  C.applyKeystream key nonce 1 plaintext ++
    (computeTag P (polyKey P key nonce) aad (C.applyKeystream key nonce 1 plaintext)).toList

def openBytes (C : ChaChaImpl) (key : Bytes 32) (nonce : Bytes 12)
    (aad c : List UInt8) : Option (List UInt8) :=
  if c.length < 16 then none
  else if ctEq (computeTag P (polyKey P key nonce) aad (c.take (c.length-16))).toList
      (c.drop (c.length-16)) then
    some (C.applyKeystream key nonce 1 (c.take (c.length-16)))
  else none

@[simp] theorem sealBytes_length (C : ChaChaImpl) (key : Bytes 32) (nonce : Bytes 12)
    (aad plaintext : List UInt8) :
    (sealBytes P C key nonce aad plaintext).length = plaintext.length+16 := by
  simp [sealBytes,C.length_eq]

theorem openBytes_length {C : ChaChaImpl} {key : Bytes 32} {nonce : Bytes 12}
    {aad c plain : List UInt8} (h : openBytes P C key nonce aad c = some plain) :
    c.length = plain.length+16 := by
  unfold openBytes at h
  split at h
  · cases h
  · split at h
    · rename_i hlt _
      have hp := Option.some.inj h
      rw [← hp,C.length_eq,List.length_take]
      omega
    · cases h

theorem sealWith_eq (C : ChaChaImpl) (key : Bytes 32) (nonce : Bytes 12)
    (aad plaintext out : List UInt8) (h : plaintext.length+16 ≤ out.length) :
    sealWith P C key nonce aad plaintext out = (.ok (plaintext.length+16),
      sealBytes P C key nonce aad plaintext ++ out.drop (plaintext.length+16)) := by
  have hs : splitAtChecked plaintext.length (out.take (plaintext.length+16)) =
      .ok (out.take plaintext.length,(out.take (plaintext.length+16)).drop plaintext.length) := by
    rw [splitAtChecked_eq (by simp; omega),List.take_take,Nat.min_eq_left (by omega)]
  unfold sealWith
  rw [if_neg (by omega),hs]
  dsimp only
  rw [copyExact_eq (by simp; omega)]
  dsimp only
  rw [copyExact_eq (by simp; omega)]
  rfl

theorem sealInPlaceWith_eq (C : ChaChaImpl) (key : Bytes 32) (nonce : Bytes 12)
    (aad : List UInt8) (ptLen : ℕ) (buf : List UInt8) (h : ptLen+16 ≤ buf.length) :
    sealInPlaceWith P C key nonce aad ptLen buf =
      (.ok (ptLen+16),sealBytes P C key nonce aad (buf.take ptLen) ++ buf.drop (ptLen+16)) := by
  have hs : splitAtChecked ptLen (buf.take (ptLen+16)) =
      .ok (buf.take ptLen,(buf.take (ptLen+16)).drop ptLen) := by
    rw [splitAtChecked_eq (by simp; omega),List.take_take,Nat.min_eq_left (by omega)]
  unfold sealInPlaceWith
  rw [if_neg (by omega),hs]
  dsimp only
  rw [copyExact_eq (by simp; omega)]
  rfl

theorem openWith_eq (C : ChaChaImpl) (key : Bytes 32) (nonce : Bytes 12)
    (aad c out : List UInt8) :
    openWith P C key nonce aad c out =
      if c.length < 16 then (.error .authFailure,out)
      else if out.length < c.length-16 then (.error .bufferTooSmall,out)
      else if ctEq (computeTag P (polyKey P key nonce) aad (c.take (c.length-16))).toList
          (c.drop (c.length-16)) then
        (.ok (c.length-16),
          C.applyKeystream key nonce 1 (c.take (c.length-16)) ++ out.drop (c.length-16))
      else (.error .authFailure,out) := by
  unfold openWith
  split
  · rfl
  · dsimp only
    rw [splitAtChecked_eq (by omega)]
    dsimp only
    split
    · rfl
    · rw [copyExact_eq (by simp; omega)]
      cases ctEq (computeTag P (polyKey P key nonce) aad (c.take (c.length-16))).toList
        (c.drop (c.length-16)) <;> rfl

theorem openWith_ok {C : ChaChaImpl} {key : Bytes 32} {nonce : Bytes 12}
    {aad c out : List UInt8} {n : ℕ} {out' : List UInt8}
    (h : openWith P C key nonce aad c out = (.ok n,out')) :
    ∃ plain, openBytes P C key nonce aad c = some plain ∧ plain.length = n ∧
      out' = plain ++ out.drop n ∧ n ≤ out.length := by
  rw [openWith_eq] at h
  split at h
  · cases h
  · rename_i hlen
    split at h
    · cases h
    · rename_i hbuf
      split at h
      · rename_i htag
        cases h
        refine ⟨_,by simp only [openBytes,if_neg hlen,if_pos htag],?_,rfl,by omega⟩
        rw [C.length_eq,List.length_take]
        omega
      · cases h

theorem openWith_error {C : ChaChaImpl} {key : Bytes 32} {nonce : Bytes 12}
    {aad c out out' : List UInt8} {e : Error}
    (h : openWith P C key nonce aad c out = (.error e,out')) : out' = out := by
  rw [openWith_eq] at h
  (repeat' split at h) <;> cases h <;> rfl

theorem openWith_of_openBytes {C : ChaChaImpl} {key : Bytes 32} {nonce : Bytes 12}
    {aad c out plain : List UInt8} (h : openBytes P C key nonce aad c = some plain)
    (ho : plain.length ≤ out.length) :
    openWith P C key nonce aad c out = (.ok plain.length,plain ++ out.drop plain.length) := by
  have hl := openBytes_length P h
  unfold openBytes at h
  split at h
  · cases h
  · rename_i hlen
    split at h
    · rename_i htag
      have hp := Option.some.inj h
      have hn : c.length-16 = plain.length := by omega
      rw [openWith_eq,if_neg hlen,if_neg (by omega),if_pos htag,hp,hn]
    · cases h

/-- Sealing and opening under backends that meet the keystream contract are
inverse, whichever two backends the ends use. -/
theorem openBytes_sealBytes (C D : ChaChaImpl) (hC : C.Meets P) (hD : D.Meets P)
    (key : Bytes 32) (nonce : Bytes 12) (aad plaintext : List UInt8) :
    openBytes P D key nonce aad (sealBytes P C key nonce aad plaintext) = some plaintext := by
  have hl : (sealBytes P C key nonce aad plaintext).length-16 =
      (C.applyKeystream key nonce 1 plaintext).length := by
    rw [sealBytes_length,C.length_eq]
    omega
  unfold openBytes
  rw [if_neg (by simp),hl]
  simp only [sealBytes,List.take_left,List.drop_left]
  rw [if_pos ((ctEq_iff _ _).mpr rfl),hC,hD,xorInPlace_involutive]

def sealArray {m : ℕ} (key : Bytes 32) (nonce : Bytes 12) (aad : List UInt8)
    (plaintext : Bytes m) : Bytes (m+16) :=
  ofList (m+16) (sealBytes P (scalar P) key nonce aad plaintext.toList) (by simp)

theorem sealWith_length (C : ChaChaImpl) (key : Bytes 32) (nonce : Bytes 12)
    (aad plaintext out : List UInt8) :
    (sealWith P C key nonce aad plaintext out).2.length = out.length := by
  by_cases hl : plaintext.length+16 ≤ out.length
  · rw [sealWith_eq P C key nonce aad plaintext out hl]
    simp
    omega
  · unfold sealWith
    rw [if_pos (by omega)]

/-- `seal` into an array of its own, of exactly the sealed length. -/
def sealInto {m : ℕ} (key : Bytes 32) (nonce : Bytes 12) (aad : List UInt8)
    (plaintext : Bytes m) : Except Error (ℕ × Bytes (m+16)) :=
  let r := sealWith P (scalar P) key nonce aad plaintext.toList (zeros (m+16)).toList
  r.1.map (fun n => (n,ofList (m+16) r.2 ((sealWith_length P ..).trans (toList_length' _))))

theorem sealInto_eq {m : ℕ} (key : Bytes 32) (nonce : Bytes 12) (aad : List UInt8)
    (plaintext : Bytes m) :
    sealInto P key nonce aad plaintext = .ok (m+16,sealArray P key nonce aad plaintext) := by
  have h := sealWith_eq P (scalar P) key nonce aad plaintext.toList (zeros (m+16)).toList (by simp)
  have hd : (zeros (m+16)).toList.drop (plaintext.toList.length+16) = [] :=
    List.drop_eq_nil_of_le (by simp)
  rw [hd,List.append_nil,toList_length'] at h
  unfold sealInto
  simp only [h]
  rfl

/-- `open` into an array of exactly the plaintext's length, as the handshake
code uses it: `some` stands for the result `Ok(m)`. -/
def openArray {m : ℕ} (key : Bytes 32) (nonce : Bytes 12) (aad : List UInt8)
    (c : Bytes (m+16)) : Option (Bytes m) :=
  match h : openBytes P (scalar P) key nonce aad c.toList with
  | some plain => some (ofList m plain (by have := openBytes_length P h; simp at this; omega))
  | none => none

theorem openArray_eq_some {m : ℕ} {key : Bytes 32} {nonce : Bytes 12} {aad : List UInt8}
    {c : Bytes (m+16)} {p : Bytes m} :
    openArray P key nonce aad c = some p ↔
      openBytes P (scalar P) key nonce aad c.toList = some p.toList := by
  unfold openArray
  split
  · rename_i plain h
    constructor
    · intro he
      rw [h,← Option.some.inj he]
      rfl
    · intro he
      rw [h] at he
      exact congrArg some (toList_inj (Option.some.inj he))
  · rename_i h
    simp [h]

theorem openArray_sealArray {m : ℕ} (key : Bytes 32) (nonce : Bytes 12) (aad : List UInt8)
    (p : Bytes m) : openArray P key nonce aad (sealArray P key nonce aad p) = some p := by
  rw [openArray_eq_some]
  exact openBytes_sealBytes P _ _ (scalar_meets P) (scalar_meets P) key nonce aad _

def xchachaDerive (key : Bytes 32) (nonce : Bytes 24) : Bytes 32 × Bytes 12 :=
  (P.hchacha20 key (ofList 16 (nonce.toList.take 16) (by simp)),
    ofList 12 (List.replicate 4 0 ++ nonce.toList.drop 16) (by simp))

def xseal {m : ℕ} (key : Bytes 32) (nonce : Bytes 24) (aad : List UInt8)
    (plaintext : Bytes m) : Bytes (m+16) :=
  sealArray P (xchachaDerive P key nonce).1 (xchachaDerive P key nonce).2 aad plaintext

def xsealInto {m : ℕ} (key : Bytes 32) (nonce : Bytes 24) (aad : List UInt8)
    (plaintext : Bytes m) : Except Error (ℕ × Bytes (m+16)) :=
  sealInto P (xchachaDerive P key nonce).1 (xchachaDerive P key nonce).2 aad plaintext

theorem xsealInto_eq {m : ℕ} (key : Bytes 32) (nonce : Bytes 24) (aad : List UInt8)
    (plaintext : Bytes m) :
    xsealInto P key nonce aad plaintext = .ok (m+16,xseal P key nonce aad plaintext) :=
  sealInto_eq P _ _ aad plaintext

def xopen {m : ℕ} (key : Bytes 32) (nonce : Bytes 24) (aad : List UInt8)
    (c : Bytes (m+16)) : Option (Bytes m) :=
  openArray P (xchachaDerive P key nonce).1 (xchachaDerive P key nonce).2 aad c

end WireGuard
