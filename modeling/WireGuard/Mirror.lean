import WireGuard.Acts

/-!
# Both ends see the same handshake

When the exchange of secrets commutes, the view that a receiver computes of an
initiation or a response is the view its sender had, so every key, hash and
ciphertext of the schedule agrees at the two ends.
-/

set_option autoImplicit false

namespace WireGuard
open ByteString Tunnel

/-- The exchange of secrets gives both ends the same value. -/
def Commutes (P : Primitives) : Prop :=
  ∀ a b, P.x25519 a (x25519Base P b) = P.x25519 b (x25519Base P a)

theorem commutes_mixing : Commutes mixing := by
  intro a b
  refine List.Vector.ext fun i => ?_
  simp only [x25519Base,mixing,specimen,List.Vector.get_ofFn]
  split
  · rfl
  · simp only [UInt8.xor_assoc,UInt8.xor_self,UInt8.xor_zero]
    rw [← UInt8.xor_assoc,UInt8.xor_comm (a.get i),UInt8.xor_assoc]

variable {P : Primitives}

/-- Two tunnels that name each other as their peers. -/
structure Crossed (t r : Tunnel P) : Prop where
  peer : t.peerPublic = r.localPublic
  back : r.peerPublic = t.localPublic

theorem Crossed.symm {t r : Tunnel P} (h : Crossed t r) : Crossed r t := ⟨h.back,h.peer⟩

theorem Crossed.of_identity {t t' r r' : Tunnel P} (h : Crossed t r)
    (ht : t'.toIdentity = t.toIdentity) (hr : r'.toIdentity = r.toIdentity) : Crossed t' r' := by
  constructor
  · rw [ht,hr]
    exact h.peer
  · rw [ht,hr]
    exact h.back

theorem Crossed.mac1 {t r : Tunnel P} (h : Crossed t r) (alpha : List UInt8) :
    verifyMac1 P r.macKeys alpha (mac P t.macKeys.mac1Send.toList [alpha]) = true := by
  rw [verifyMac1_iff,t.macKeys_eq,r.macKeys_eq]
  simp only [MacKeys.new,h.peer]

theorem Commutes.exchange (hC : Commutes P) {t r : Tunnel P} (h : Crossed t r) (b : Bytes 32) :
    P.x25519 b t.peerPublic = P.x25519 r.localStatic (x25519Base P b) := by
  rw [h.peer,r.localPublic_eq]
  exact hC b r.localStatic

theorem Crossed.precomputedSs (hC : Commutes P) {t r : Tunnel P} (h : Crossed t r) :
    t.precomputedSs = r.precomputedSs := by
  rw [sharedSecret_ok P t.precomputedSs_eq,sharedSecret_ok P r.precomputedSs_eq,hC.exchange h,
    h.back,t.localPublic_eq]

theorem constants_unique (t r : Tunnel P) : t.constants = r.constants :=
  t.constants_eq.trans r.constants_eq.symm

section Mirror

variable {t r : Tunnel P} (now : Now) (eph : Bytes 32) (index : UInt32) (mac1 mac2 : Bytes 16)

/-- The receiver's view of an initiation is the initiator's. -/
theorem receiverView_message (hC : Commutes P) (h : Crossed t r) :
    receiverView P r.localStatic r.localPublic r.precomputedSs
      ((t.initiationView now eph).message index mac1 mac2) = t.initiationView now eph := by
  have hes := hC.exchange h (clampScalar eph)
  rw [← h.precomputedSs hC,← h.peer]
  show InitiationView.mk _ _ (P.x25519 r.localStatic (x25519Base P (clampScalar eph))) _ _ _ = _
  rw [← hes]
  rfl

def consumedOf (t : Tunnel P) (now : Now) (eph : Bytes 32) (index : UInt32) :
    ConsumedInitiation :=
  ⟨index,t.localPublic,t.nextTimestamp now,(t.initiationView now eph).ephemeral,
    (t.initiationView now eph).chain P t.constants,(t.initiationView now eph).hash P t.constants⟩

theorem consumeInitiation_message (hC : Commutes P) (h : Crossed t r)
    (hz : ctIsZero (P.x25519 (clampScalar eph) t.peerPublic).toList = false) :
    consumeInitiation P r.constants r.localStatic r.localPublic r.peerPublic r.precomputedSs
      ((t.initiationView now eph).message index mac1 mac2) =
        .ok (consumedOf t now eph index) := by
  rw [consumeInitiation_ok]
  dsimp only
  rw [receiverView_message now eph index mac1 mac2 hC h,h.back,constants_unique r t]
  exact ⟨hz,InitiationView.opens_of_sealed (initiationView_sealed t now eph),rfl⟩

theorem completionView_message (hC : Commutes P) (psk eph' : Bytes 32)
    (sender receiver : UInt32) :
    completionView P (t.initiationState now index eph) t.localStatic psk
      ((responderView P (consumedOf t now eph index) psk (clampScalar eph')).message sender
        receiver mac1 mac2) =
      responderView P (consumedOf t now eph index) psk (clampScalar eph') := by
  have hee := hC (clampScalar eph) (clampScalar eph')
  have hse : P.x25519 t.localStatic (x25519Base P (clampScalar eph')) =
      P.x25519 (clampScalar eph') t.localPublic := by
    rw [t.localPublic_eq]
    exact hC _ _
  show ResponseView.mk _ _ _ (P.x25519 (clampScalar eph) (x25519Base P (clampScalar eph')))
    (P.x25519 t.localStatic (x25519Base P (clampScalar eph'))) _ _ = _
  rw [hee,hse]
  rfl

end Mirror

end WireGuard
