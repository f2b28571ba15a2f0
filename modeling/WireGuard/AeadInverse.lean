import WireGuard.Aead

/-!
# Opening inverts sealing

Over large enough buffers sealing and opening are inverse in both directions,
sealing in place produces the bytes of sealing, and a failed open has written
nothing.
-/

set_option autoImplicit false

namespace WireGuard
open ByteString

variable (P : Primitives)

def xsealBuffer (key : Bytes 32) (nonce : Bytes 24) (aad plaintext out : List UInt8) :
    Except Error ℕ × List UInt8 :=
  sealWith P (scalar P) (xchachaDerive P key nonce).1 (xchachaDerive P key nonce).2 aad
    plaintext out

def xopenBuffer (key : Bytes 32) (nonce : Bytes 24) (aad ciphertextAndTag out : List UInt8) :
    Except Error ℕ × List UInt8 :=
  openWith P (scalar P) (xchachaDerive P key nonce).1 (xchachaDerive P key nonce).2 aad
    ciphertextAndTag out

/-- Two functions over buffers undo each other, and the one that opens leaves its
buffer alone when it fails. -/
structure Inverse (lock unlock : List UInt8 → List UInt8 → Except Error ℕ × List UInt8) :
    Prop where
  unlock_lock : ∀ p buf out, p.length+16 ≤ buf.length → p.length ≤ out.length →
    ∃ c, lock p buf = (.ok c.length,c ++ buf.drop c.length) ∧ c.length = p.length+16 ∧
      unlock c out = (.ok p.length,p ++ out.drop p.length)
  lock_unlock : ∀ c out n out', unlock c out = (.ok n,out') → ∀ buf, n+16 ≤ buf.length →
    lock (out'.take n) buf = (.ok c.length,c ++ buf.drop c.length)
  untouched : ∀ c out e out', unlock c out = (.error e,out') → out' = out

theorem sealBytes_of_openBytes {C D : ChaChaImpl} (hC : C.Meets P) (hD : D.Meets P)
    {key : Bytes 32} {nonce : Bytes 12} {aad c plain : List UInt8}
    (h : openBytes P D key nonce aad c = some plain) : sealBytes P C key nonce aad plain = c := by
  unfold openBytes at h
  split at h
  · cases h
  split at h
  · rename_i htag
    have hp := Option.some.inj h
    have hct : C.applyKeystream key nonce 1 plain = c.take (c.length-16) := by
      rw [← hp,hC,hD,xorInPlace_involutive]
    rw [sealBytes,hct,(ctEq_iff _ _).mp htag,List.take_append_drop]
  · cases h

theorem inverse_aead {C D : ChaChaImpl} (hC : C.Meets P) (hD : D.Meets P) (key : Bytes 32)
    (nonce : Bytes 12) (aad : List UInt8) :
    Inverse (sealWith P C key nonce aad) (openWith P D key nonce aad) where
  unlock_lock p buf out hbuf hout := by
    refine ⟨sealBytes P C key nonce aad p,?_,sealBytes_length P C key nonce aad p,?_⟩
    · rw [sealWith_eq P C key nonce aad p buf hbuf,sealBytes_length]
    · exact openWith_of_openBytes P (openBytes_sealBytes P C D hC hD key nonce aad p) hout
  lock_unlock c out n out' h buf hbuf := by
    obtain ⟨plain,hplain,rfl,rfl,_⟩ := openWith_ok P h
    have hs := sealBytes_of_openBytes P hC hD hplain
    rw [List.take_left,sealWith_eq P C key nonce aad plain buf hbuf,hs,openBytes_length P hplain]
  untouched _ _ _ _ h := openWith_error P h

/-- Opening is the exact inverse of sealing, under any two backends that meet
their contract and over every buffer that is large enough; sealing in place
produces the bytes of sealing; and the same holds with 24-byte nonces. -/
theorem open_inverts_seal {C D : ChaChaImpl} (hC : C.Meets P) (hD : D.Meets P) (key : Bytes 32)
    (aad : List UInt8) :
    (∀ nonce : Bytes 12,
      Inverse (sealWith P C key nonce aad) (openWith P D key nonce aad) ∧
      ∀ ptLen buf out, ptLen+16 ≤ buf.length → ptLen+16 ≤ out.length →
        ∃ c, sealWith P C key nonce aad (buf.take ptLen) out =
            (.ok c.length,c ++ out.drop c.length) ∧
          sealInPlaceWith P C key nonce aad ptLen buf =
            (.ok c.length,c ++ buf.drop c.length)) ∧
    ∀ nonce : Bytes 24, Inverse (xsealBuffer P key nonce aad) (xopenBuffer P key nonce aad) := by
  refine ⟨fun nonce => ⟨inverse_aead P hC hD key nonce aad,fun ptLen buf out hbuf hout => ?_⟩,
    fun nonce => inverse_aead P (scalar_meets P) (scalar_meets P) _ _ aad⟩
  have hl : (buf.take ptLen).length = ptLen := by
    rw [List.length_take]
    omega
  have hs := sealWith_eq P C key nonce aad (buf.take ptLen) out (by rwa [hl])
  rw [hl] at hs
  refine ⟨sealBytes P C key nonce aad (buf.take ptLen),?_,?_⟩
  · rw [hs,sealBytes_length,hl]
  · rw [sealInPlaceWith_eq P C key nonce aad ptLen buf hbuf,sealBytes_length,hl]

theorem open_inverts_seal_specimen :
    (scalar specimen).Meets specimen ∧
      Inverse (xsealBuffer specimen (zeros 32) (zeros 24) [1])
        (xopenBuffer specimen (zeros 32) (zeros 24) [1]) :=
  ⟨scalar_meets specimen,(open_inverts_seal specimen (scalar_meets specimen)
    (scalar_meets specimen) (zeros 32) [1]).2 (zeros 24)⟩

end WireGuard
