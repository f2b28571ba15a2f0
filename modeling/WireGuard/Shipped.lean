import WireGuard.Blake2sDigest
import WireGuard.KeyAgreement
import WireGuard.Poly1305Tag
import WireGuard.Recovery
import WireGuard.Simd.Backends

/-!
# The primitives as they ship

The protocol is developed over any primitives; these are the ones of the library.
Nothing is assumed about them: the exchange commutes and is never zero between
generated keys, and every backend computes the keystream of the scalar cipher.
-/

set_option autoImplicit false

namespace WireGuard
open ByteString

namespace ChaCha20

/-- The words of a nonce behind its first, which stands where a block has its counter. -/
def inputTail (input : Bytes 16) : Bytes 12 := ofList 12 (input.toList.drop 4) (by simp)

def hchacha20 (key : Bytes 32) (input : Bytes 16) : Bytes 32 :=
  let n := words (n := 4) input
  let w := permute u32 (initial id (Lanes.lane n 0) (keyWords key) (nonceWords (inputTail input)))
  ofList 32 ((w.toList.take 4++w.toList.drop 12).flatMap (fun w => toLe 4 w.toNat)) (by simp)

end ChaCha20

/-- The primitives of the library. -/
def shipped : Primitives where
  digest message := Blake2s.hash [message]
  keyed key message := Blake2s.mac key [message]
  x25519 k u := (X25519.x25519 k u).value
  block := ChaCha20.block
  hchacha20 := ChaCha20.hchacha20
  poly1305 key message := (Poly1305.tag (Checked.narrow 32) key [message]).value

def Backend (arch : Arch) : ChaChaImpl := best shipped arch

theorem shipped_commutes : Commutes shipped := X25519.suite_commutes shipped

theorem shipped_neverZero : NeverZero shipped := by
  intro a b
  obtain ⟨s,hs,_⟩ := X25519.sharedSecret_generated shipped a b
  have hs : sharedSecret shipped a (x25519Base shipped b) = .ok s := hs
  unfold sharedSecret at hs
  split at hs
  · cases hs
  · rename_i h
    exact Bool.eq_false_iff.mpr h

/-! ## Keys -/

def StaticSecret.publicKey (secret : Bytes 32) : Bytes 32 := x25519Base shipped secret

theorem StaticSecret.publicKey_eq (secret : Bytes 32) :
    StaticSecret.publicKey secret = (X25519.x25519Base secret).value := rfl

/-- A tunnel for a peer whose key was generated is built unless the key is its own. -/
theorem withBackend_generated (config : Config) (secret : Bytes 32)
    (hpeer : config.peerPublic = StaticSecret.publicKey secret)
    (hne : StaticSecret.publicKey config.localStatic ≠ config.peerPublic) :
    ∃ t : Tunnel shipped, withBackend shipped config = .ok t := by
  obtain ⟨s,hs,-⟩ := X25519.sharedSecret_generated shipped config.localStatic secret
  exact withBackend_ok_iff.mpr ⟨hne,s,hpeer ▸ hs⟩

theorem crossed_configured {a b : Tunnel shipped} {configA configB : Config}
    (ha : a.Configured configA) (hb : b.Configured configB)
    (hpeer : configA.peerPublic = StaticSecret.publicKey configB.localStatic)
    (hback : configB.peerPublic = StaticSecret.publicKey configA.localStatic) : Crossed a b := by
  constructor
  · rw [ha.peerPublic,b.localPublic_eq,hb.localStatic,hpeer]
    rfl
  · rw [hb.peerPublic,a.localPublic_eq,ha.localStatic,hback]
    rfl

def specimenEnd (me peer : UInt8) : Config :=
  ⟨List.Vector.replicate 32 me,StaticSecret.publicKey (List.Vector.replicate 32 peer),zeros 32,
    none,none⟩

theorem specimenEnd_peer (me peer : UInt8) :
    (specimenEnd me peer).peerPublic = StaticSecret.publicKey (specimenEnd peer me).localStatic :=
  rfl

theorem specimenEnd_distinct : (specimenEnd 1 2).peerPublic ≠ (specimenEnd 2 1).peerPublic := by
  intro h
  simp only [specimenEnd,StaticSecret.publicKey_eq] at h
  rcases X25519.scalars_of_publicKey h with he | he
  · revert he
    decide
  · revert he
    decide

end WireGuard
