import WireGuard.Agreement
import WireGuard.Wire

/-!
# The two halves of the handshake

The functions of the two roles, each on its own inputs: what the initiator
writes, the responder reads, and the other way round. The views of the two ends
are equal because the exchange of secrets commutes, so all keys are.
-/

set_option autoImplicit false

namespace WireGuard
open ByteString

variable {P : Primitives}

/-- What both ends of a handshake bring along. -/
structure Handshake (P : Primitives) where
  constants : HandshakeConstants
  initiator : Bytes 32
  responder : Bytes 32
  initiatorEph : Bytes 32
  responderEph : Bytes 32
  psk : Bytes 32
  initiatorIndex : UInt32
  responderIndex : UInt32
  timestamp : Tai64N

namespace Handshake

variable (x : Handshake P)

def initiatorPublic : Bytes 32 := x25519Base P x.initiator
def responderPublic : Bytes 32 := x25519Base P x.responder

/-- The results of the exchange, as the end that goes first computes them. -/
def secrets : List (Bytes 32) :=
  [P.x25519 (clampScalar x.initiatorEph) x.responderPublic,
    P.x25519 x.initiator x.responderPublic,
    P.x25519 (clampScalar x.responderEph) (x25519Base P (clampScalar x.initiatorEph)),
    P.x25519 (clampScalar x.responderEph) x.initiatorPublic]

/-- The initiation of the initiator, in the buffer `out`. -/
def createInitiation (out : List UInt8) : Except Error (InFlightInitiation × List UInt8) :=
  WireGuard.createInitiation P x.constants x.initiatorPublic x.responderPublic
    (P.x25519 x.initiator x.responderPublic) x.initiatorIndex x.initiatorEph x.timestamp out

/-- The responder is configured with the initiator's public key. -/
def consumeInitiation (msg : HandshakeInitiation) : Except Error ConsumedInitiation :=
  WireGuard.consumeInitiation P x.constants x.responder x.responderPublic x.initiatorPublic
    (P.x25519 x.responder x.initiatorPublic) msg

def createResponse (consumed : ConsumedInitiation) (out : List UInt8) :
    Except Error (SessionKeys × List UInt8) :=
  WireGuard.createResponse P consumed x.psk x.responderIndex x.responderEph out

def consumeResponse (inflight : InFlightInitiation) (msg : HandshakeResponse) :
    Except Error SessionKeys :=
  WireGuard.consumeResponse P inflight x.initiator x.psk msg

def view : InitiationView :=
  initiatorView P x.constants x.initiatorPublic x.responderPublic
    (P.x25519 x.initiator x.responderPublic) (clampScalar x.initiatorEph) x.timestamp

def inflight : InFlightInitiation :=
  ⟨x.initiatorIndex,clampScalar x.initiatorEph,x.view.chain P x.constants,
    x.view.hash P x.constants⟩

def consumed : ConsumedInitiation :=
  ⟨x.initiatorIndex,x.initiatorPublic,x.timestamp,x.view.ephemeral,x.view.chain P x.constants,
    x.view.hash P x.constants⟩

def answer : ResponseView := responderView P x.consumed x.psk (clampScalar x.responderEph)

def Nonzero : Prop := ∀ s ∈ x.secrets, ctIsZero s.toList = false

instance : Decidable x.Nonzero := List.decidableBAll _ _

variable {x}

theorem createInitiation_eq (hz : x.Nonzero) {out : List UInt8}
    (hl : handshakeInitiationLen ≤ out.length) :
    x.createInitiation out = .ok (x.inflight,
      x.view.alpha x.initiatorIndex ++ List.replicate 32 0 ++ out.drop handshakeInitiationLen) := by
  have hes : ctIsZero (P.x25519 (clampScalar x.initiatorEph) x.responderPublic).toList = false :=
    hz _ (by simp [secrets])
  unfold createInitiation
  rw [WireGuard.createInitiation_eq,if_neg (not_lt.mpr hl),hes,if_neg (by simp)]
  rfl

theorem receiverView_eq (hC : Commutes P) (mac1 mac2 : Bytes 16) :
    receiverView P x.responder x.responderPublic (P.x25519 x.responder x.initiatorPublic)
      (x.view.message x.initiatorIndex mac1 mac2) = x.view := by
  have hes := hC x.responder (clampScalar x.initiatorEph)
  have hss := hC x.responder x.initiator
  show InitiationView.mk _ _ (P.x25519 x.responder (x25519Base P (clampScalar x.initiatorEph)))
    (P.x25519 x.responder (x25519Base P x.initiator)) _ _ = _
  rw [hes,hss]
  rfl

theorem consumeInitiation_eq (hC : Commutes P) (hz : x.Nonzero) (mac1 mac2 : Bytes 16) :
    x.consumeInitiation (x.view.message x.initiatorIndex mac1 mac2) = .ok x.consumed := by
  unfold consumeInitiation
  rw [consumeInitiation_ok]
  dsimp only
  rw [receiverView_eq hC mac1 mac2]
  refine ⟨hz _ (by simp [secrets,view,initiatorView]),
    InitiationView.opens_of_sealed (initiatorView_sealed P _ _ _ _ _ _),rfl⟩

theorem createResponse_eq (hz : x.Nonzero) {out : List UInt8}
    (hl : handshakeResponseLen ≤ out.length) :
    x.createResponse x.consumed out =
      .ok (⟨x.answer.responderKey P,x.answer.initiatorKey P,x.responderIndex,x.initiatorIndex,
        false⟩,x.answer.alpha x.responderIndex x.initiatorIndex ++ List.replicate 32 0 ++
          out.drop handshakeResponseLen) := by
  have hee : ctIsZero (responderView P x.consumed x.psk (clampScalar x.responderEph)).ee.toList =
      false := hz _ (by simp [secrets,responderView,consumed,view,initiatorView])
  have hse : ctIsZero (responderView P x.consumed x.psk (clampScalar x.responderEph)).se.toList =
      false := hz _ (by simp [secrets,responderView,consumed])
  unfold createResponse
  rw [WireGuard.createResponse_eq]
  dsimp only
  rw [if_neg (not_lt.mpr hl),hee,hse,if_neg (by simp),if_neg (by simp)]
  rfl

theorem completionView_eq (hC : Commutes P) (mac1 mac2 : Bytes 16) :
    completionView P x.inflight x.initiator x.psk
      (x.answer.message x.responderIndex x.initiatorIndex mac1 mac2) = x.answer := by
  have hee := hC (clampScalar x.initiatorEph) (clampScalar x.responderEph)
  have hse := hC x.initiator (clampScalar x.responderEph)
  show ResponseView.mk _ _ _
    (P.x25519 (clampScalar x.initiatorEph) (x25519Base P (clampScalar x.responderEph)))
    (P.x25519 x.initiator (x25519Base P (clampScalar x.responderEph))) _ _ = _
  rw [hee,hse]
  rfl

theorem consumeResponse_eq (hC : Commutes P) (hz : x.Nonzero) (mac1 mac2 : Bytes 16) :
    x.consumeResponse x.inflight
        (x.answer.message x.responderIndex x.initiatorIndex mac1 mac2) =
      .ok ⟨x.answer.initiatorKey P,x.answer.responderKey P,x.initiatorIndex,x.responderIndex,
        true⟩ := by
  unfold consumeResponse
  rw [consumeResponse_ok]
  dsimp only
  rw [completionView_eq hC mac1 mac2]
  refine ⟨hz _ (by simp [secrets,answer,responderView,consumed,view,initiatorView]),
    hz _ (by simp [secrets,answer,responderView,consumed]),
    ResponseView.opens_of_sealed (responderView_sealed P _ _ _),rfl⟩

end Handshake

theorem parse_filled_initiation (v : InitiationView) (sender : UInt32) (rest : List UInt8)
    (mac1 mac2 : Bytes 16) : ∃ d,
    fillMacs ((v.alpha sender ++ List.replicate 32 0 ++ rest).take handshakeInitiationLen) mac1
      mac2 = .ok d ∧ parse d = .ok (.handshakeInitiation (v.message sender mac1 mac2)) := by
  refine ⟨_,fillMacs_front _ rest _ mac1 mac2 ?_ (Or.inl rfl),?_⟩
  · rw [v.alpha_length]
    rfl
  · rw [← List.append_assoc]
    exact parse_initiation_alpha v sender mac1 mac2

theorem parse_filled_response (v : ResponseView) (sender receiver : UInt32) (rest : List UInt8)
    (mac1 mac2 : Bytes 16) : ∃ d,
    fillMacs ((v.alpha sender receiver ++ List.replicate 32 0 ++ rest).take handshakeResponseLen)
      mac1 mac2 = .ok d ∧
      parse d = .ok (.handshakeResponse (v.message sender receiver mac1 mac2)) := by
  refine ⟨_,fillMacs_front _ rest _ mac1 mac2 ?_ (Or.inr rfl),?_⟩
  · rw [v.alpha_length]
    rfl
  · rw [← List.append_assoc]
    exact parse_response_alpha v sender receiver mac1 mac2

/-- Whatever the ends bring along, if no exchanged secret is zero then the
responder consumes what the initiator created and recovers its index and
timestamp, the initiator consumes the response, and the keys are crossed. The macs
are filled in by the cookie layer with any bytes. -/
theorem handshake_agrees (hC : Commutes P) (x : Handshake P) (hz : x.Nonzero)
    (out out' : List UInt8) (hl : handshakeInitiationLen ≤ out.length)
    (hl' : handshakeResponseLen ≤ out'.length) (mac1 mac2 mac1' mac2' : Bytes 16) :
    ∃ inflight msg d m c keys msg' d' m' keys',
      x.createInitiation out = .ok (inflight,msg) ∧
      fillMacs (msg.take handshakeInitiationLen) mac1 mac2 = .ok d ∧
      parse d = .ok (.handshakeInitiation m) ∧
      x.consumeInitiation m = .ok c ∧
      c.peerIndex = x.initiatorIndex ∧ c.timestamp = x.timestamp ∧
      x.createResponse c out' = .ok (keys,msg') ∧
      fillMacs (msg'.take handshakeResponseLen) mac1' mac2' = .ok d' ∧
      parse d' = .ok (.handshakeResponse m') ∧
      x.consumeResponse inflight m' = .ok keys' ∧
      keys'.Crossed keys ∧ keys'.isInitiator = true ∧ keys.isInitiator = false := by
  obtain ⟨d,hd,hm⟩ := parse_filled_initiation x.view x.initiatorIndex
    (out.drop handshakeInitiationLen) mac1 mac2
  obtain ⟨d',hd',hm'⟩ := parse_filled_response x.answer x.responderIndex x.initiatorIndex
    (out'.drop handshakeResponseLen) mac1' mac2'
  exact ⟨_,_,d,_,_,_,_,d',_,_,Handshake.createInitiation_eq hz hl,hd,hm,
    Handshake.consumeInitiation_eq hC hz mac1 mac2,rfl,rfl,Handshake.createResponse_eq hz hl',hd',
    hm',Handshake.consumeResponse_eq hC hz mac1' mac2',⟨rfl,rfl,rfl,rfl⟩,rfl,rfl⟩

def specimenMeeting : Handshake mixing :=
  ⟨HandshakeConstants.new mixing,List.Vector.replicate 32 1,List.Vector.replicate 32 2,
    List.Vector.replicate 32 3,List.Vector.replicate 32 4,zeros 32,5,6,Tai64N.fromUnix 7 8⟩

theorem handshake_agrees_specimen :
    specimenMeeting.Nonzero ∧ ∃ inflight msg d m c keys msg' d' m' keys',
      specimenMeeting.createInitiation (List.replicate 148 0) = .ok (inflight,msg) ∧
      fillMacs (msg.take handshakeInitiationLen) (zeros 16) (zeros 16) = .ok d ∧
      parse d = .ok (.handshakeInitiation m) ∧
      specimenMeeting.consumeInitiation m = .ok c ∧
      c.peerIndex = specimenMeeting.initiatorIndex ∧ c.timestamp = specimenMeeting.timestamp ∧
      specimenMeeting.createResponse c (List.replicate 92 0) = .ok (keys,msg') ∧
      fillMacs (msg'.take handshakeResponseLen) (zeros 16) (zeros 16) = .ok d' ∧
      parse d' = .ok (.handshakeResponse m') ∧
      specimenMeeting.consumeResponse inflight m' = .ok keys' ∧
      keys'.Crossed keys ∧ keys'.isInitiator = true ∧ keys.isInitiator = false :=
  have hz : specimenMeeting.Nonzero := by decide +kernel
  ⟨hz,handshake_agrees commutes_mixing specimenMeeting hz _ _ (by simp [handshakeInitiationLen])
    (by simp [handshakeResponseLen]) _ _ _ _⟩

end WireGuard
