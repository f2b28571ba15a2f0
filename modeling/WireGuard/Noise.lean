import WireGuard.Aead
import WireGuard.Message
import WireGuard.Time

/-!
# The handshake key schedule

The four halves of the handshake are translated one by one from the source.
An `InitiationView` or a `ResponseView` then holds the values that one end
feeds into the schedule, and computes every chaining key, hash and AEAD key
from them; each half is proved to follow its end's view.
-/

set_option autoImplicit false

namespace WireGuard
open ByteString

variable (P : Primitives)

def construction : List UInt8 := ascii "Noise_IKpsk2_25519_ChaChaPoly_BLAKE2s"
def identifier : List UInt8 := ascii "WireGuard v1 zx2c4 Jason@zx2c4.com"

structure HandshakeConstants where
  ck0 : Bytes 32
  h0 : Bytes 32
  deriving DecidableEq

def HandshakeConstants.new : HandshakeConstants :=
  let ck0 := hash P [construction]
  ⟨ck0,hash P [ck0.toList,identifier]⟩

structure InFlightInitiation where
  localIndex : UInt32
  ephSecret : Bytes 32
  chain : Bytes 32
  hash : Bytes 32
  deriving DecidableEq

structure SessionKeys where
  send : Bytes 32
  recv : Bytes 32
  localIndex : UInt32
  peerIndex : UInt32
  isInitiator : Bool
  deriving DecidableEq

structure ConsumedInitiation where
  peerIndex : UInt32
  staticPublic : Bytes 32
  timestamp : Tai64N
  ephPublic : Bytes 32
  chain : Bytes 32
  hash : Bytes 32
  deriving DecidableEq

def mixHash (h : Bytes 32) (part : List UInt8) : Bytes 32 := hash P [h.toList,part]

def zeroNonce : Bytes 12 := nonceFromCounter 0

def createInitiation (constants : HandshakeConstants) (localPublic peerPublic : Bytes 32)
    (precomputedSs : Bytes 32) (localIndex : UInt32) (ephSecretRaw : Bytes 32)
    (timestamp : Tai64N) (out : List UInt8) :
    Except Error (InFlightInitiation × List UInt8) := do
  if out.length < handshakeInitiationLen then .error .bufferTooSmall
  else
    let ck := constants.ck0
    let h := mixHash P constants.h0 peerPublic.toList
    let ephSecret := clampScalar ephSecretRaw
    let ephPublic := x25519Base P ephSecret
    let ck := kdf1 P ck ephPublic.toList
    let h := mixHash P h ephPublic.toList
    let es ← sharedSecret P ephSecret peerPublic
    let (ck,k) := kdf2 P ck es.toList
    let (_,encryptedStatic) ← sealInto P k zeroNonce h.toList localPublic
    let h := mixHash P h encryptedStatic.toList
    let (ck,k) := kdf2 P ck precomputedSs.toList
    let (_,encryptedTimestamp) ← sealInto P k zeroNonce h.toList timestamp.bytes
    let h := mixHash P h encryptedTimestamp.toList
    let out ← buildInitiation out localIndex ephPublic encryptedStatic encryptedTimestamp
    .ok (⟨localIndex,ephSecret,ck,h⟩,out)

def consumeInitiation (constants : HandshakeConstants) (localStatic localPublic : Bytes 32)
    (peerPublic precomputedSs : Bytes 32) (msg : HandshakeInitiation) :
    Except Error ConsumedInitiation := do
  let ck := constants.ck0
  let h := mixHash P constants.h0 localPublic.toList
  let ck := kdf1 P ck msg.ephemeral.toList
  let h := mixHash P h msg.ephemeral.toList
  let es ← sharedSecret P localStatic msg.ephemeral
  let (ck,k) := kdf2 P ck es.toList
  match openArray P (m := 32) k zeroNonce h.toList msg.encryptedStatic with
  | none => .error .authFailure
  | some staticPublic =>
    if !ctEq staticPublic.toList peerPublic.toList then .error .unknownPeer
    else
      let h := mixHash P h msg.encryptedStatic.toList
      let (ck,k) := kdf2 P ck precomputedSs.toList
      match openArray P (m := 12) k zeroNonce h.toList msg.encryptedTimestamp with
      | none => .error .authFailure
      | some timestamp =>
        let h := mixHash P h msg.encryptedTimestamp.toList
        .ok ⟨msg.senderIndex,staticPublic,⟨timestamp⟩,msg.ephemeral,ck,h⟩

def createResponse (consumed : ConsumedInitiation) (psk : Bytes 32) (localIndex : UInt32)
    (ephSecretRaw : Bytes 32) (out : List UInt8) : Except Error (SessionKeys × List UInt8) := do
  if out.length < handshakeResponseLen then .error .bufferTooSmall
  else
    let ck := consumed.chain
    let h := consumed.hash
    let ephSecret := clampScalar ephSecretRaw
    let ephPublic := x25519Base P ephSecret
    let ck := kdf1 P ck ephPublic.toList
    let h := mixHash P h ephPublic.toList
    let ee ← sharedSecret P ephSecret consumed.ephPublic
    let ck := kdf1 P ck ee.toList
    let se ← sharedSecret P ephSecret consumed.staticPublic
    let ck := kdf1 P ck se.toList
    let (ck,tau,k) := kdf3 P ck psk.toList
    let h := mixHash P h tau.toList
    let (_,encryptedNothing) ← sealInto P (m := 0) k zeroNonce h.toList (zeros 0)
    let out ← buildResponse out localIndex consumed.peerIndex ephPublic encryptedNothing
    let (tInitiator,tResponder) := kdf2 P ck []
    .ok (⟨tResponder,tInitiator,localIndex,consumed.peerIndex,false⟩,out)

def consumeResponse (inflight : InFlightInitiation) (localStatic psk : Bytes 32)
    (msg : HandshakeResponse) : Except Error SessionKeys := do
  let ck := inflight.chain
  let h := inflight.hash
  let ck := kdf1 P ck msg.ephemeral.toList
  let h := mixHash P h msg.ephemeral.toList
  let ee ← sharedSecret P inflight.ephSecret msg.ephemeral
  let ck := kdf1 P ck ee.toList
  let se ← sharedSecret P localStatic msg.ephemeral
  let ck := kdf1 P ck se.toList
  let (ck,tau,k) := kdf3 P ck psk.toList
  let h := mixHash P h tau.toList
  match openArray P (m := 0) k zeroNonce h.toList msg.encryptedNothing with
  | none => .error .authFailure
  | some _ =>
    let (tInitiator,tResponder) := kdf2 P ck []
    .ok ⟨tInitiator,tResponder,inflight.localIndex,msg.senderIndex,true⟩

/-- What one end feeds into the schedule of an initiation. -/
structure InitiationView where
  responder : Bytes 32
  ephemeral : Bytes 32
  es : Bytes 32
  ss : Bytes 32
  encryptedStatic : Bytes 48
  encryptedTimestamp : Bytes 28
  deriving DecidableEq

namespace InitiationView

variable (K : HandshakeConstants) (v : InitiationView)

def hashResponder : Bytes 32 := mixHash P K.h0 v.responder.toList
def hashEphemeral : Bytes 32 := mixHash P (v.hashResponder P K) v.ephemeral.toList
def hashStatic : Bytes 32 := mixHash P (v.hashEphemeral P K) v.encryptedStatic.toList
def hash : Bytes 32 := mixHash P (v.hashStatic P K) v.encryptedTimestamp.toList
def chainEphemeral : Bytes 32 := kdf1 P K.ck0 v.ephemeral.toList
def chainStatic : Bytes 32 := (kdf2 P (v.chainEphemeral P K) v.es.toList).1
def staticKey : Bytes 32 := (kdf2 P (v.chainEphemeral P K) v.es.toList).2
def chain : Bytes 32 := (kdf2 P (v.chainStatic P K) v.ss.toList).1
def timestampKey : Bytes 32 := (kdf2 P (v.chainStatic P K) v.ss.toList).2

structure Sealed (initiator : Bytes 32) (timestamp : Tai64N) : Prop where
  static : v.encryptedStatic =
    sealArray P (v.staticKey P K) zeroNonce (v.hashEphemeral P K).toList initiator
  timestamp : v.encryptedTimestamp =
    sealArray P (v.timestampKey P K) zeroNonce (v.hashStatic P K).toList timestamp.bytes

structure Opens (initiator : Bytes 32) (timestamp : Tai64N) : Prop where
  static : openArray P (m := 32) (v.staticKey P K) zeroNonce (v.hashEphemeral P K).toList
    v.encryptedStatic = some initiator
  timestamp : openArray P (m := 12) (v.timestampKey P K) zeroNonce (v.hashStatic P K).toList
    v.encryptedTimestamp = some timestamp.bytes

theorem opens_of_sealed {P : Primitives} {K : HandshakeConstants} {v : InitiationView}
    {initiator : Bytes 32} {timestamp : Tai64N} (h : v.Sealed P K initiator timestamp) :
    v.Opens P K initiator timestamp where
  static := by rw [h.static]; exact openArray_sealArray P _ _ _ _
  timestamp := by rw [h.timestamp]; exact openArray_sealArray P _ _ _ _

end InitiationView

/-- What one end feeds into the schedule of a response, on top of the chaining
key and hash that the initiation left. -/
structure ResponseView where
  chain : Bytes 32
  hash : Bytes 32
  ephemeral : Bytes 32
  ee : Bytes 32
  se : Bytes 32
  psk : Bytes 32
  encryptedNothing : Bytes 16
  deriving DecidableEq

namespace ResponseView

variable (v : ResponseView)

def chainSe : Bytes 32 :=
  kdf1 P (kdf1 P (kdf1 P v.chain v.ephemeral.toList) v.ee.toList) v.se.toList
def chainPsk : Bytes 32 := (kdf3 P (v.chainSe P) v.psk.toList).1
def tau : Bytes 32 := (kdf3 P (v.chainSe P) v.psk.toList).2.1
def key : Bytes 32 := (kdf3 P (v.chainSe P) v.psk.toList).2.2
def hashEphemeral : Bytes 32 := mixHash P v.hash v.ephemeral.toList
def hashTau : Bytes 32 := mixHash P (v.hashEphemeral P) (v.tau P).toList
def initiatorKey : Bytes 32 := (kdf2 P (v.chainPsk P) []).1
def responderKey : Bytes 32 := (kdf2 P (v.chainPsk P) []).2

def Sealed : Prop :=
  v.encryptedNothing = sealArray P (m := 0) (v.key P) zeroNonce (v.hashTau P).toList (zeros 0)

def Opens : Prop :=
  openArray P (m := 0) (v.key P) zeroNonce (v.hashTau P).toList v.encryptedNothing =
    some (zeros 0)

theorem opens_of_sealed {P : Primitives} {v : ResponseView} (h : v.Sealed P) : v.Opens P := by
  unfold Opens
  rw [h]
  exact openArray_sealArray P _ _ _ _

end ResponseView

def initiatorView (K : HandshakeConstants) (localPublic peerPublic ss secret : Bytes 32)
    (timestamp : Tai64N) : InitiationView :=
  let ephemeral := x25519Base P secret
  let es := P.x25519 secret peerPublic
  let k1 := kdf2 P (kdf1 P K.ck0 ephemeral.toList) es.toList
  let h2 := mixHash P (mixHash P K.h0 peerPublic.toList) ephemeral.toList
  let encryptedStatic := sealArray P k1.2 zeroNonce h2.toList localPublic
  let k2 := kdf2 P k1.1 ss.toList
  let h3 := mixHash P h2 encryptedStatic.toList
  ⟨peerPublic,ephemeral,es,ss,encryptedStatic,
    sealArray P k2.2 zeroNonce h3.toList timestamp.bytes⟩

/-- The view of a responder that receives `msg`. -/
def receiverView (localStatic localPublic ss : Bytes 32) (msg : HandshakeInitiation) :
    InitiationView :=
  ⟨localPublic,msg.ephemeral,P.x25519 localStatic msg.ephemeral,ss,msg.encryptedStatic,
    msg.encryptedTimestamp⟩

def responderView (consumed : ConsumedInitiation) (psk secret : Bytes 32) : ResponseView :=
  let ephemeral := x25519Base P secret
  let ee := P.x25519 secret consumed.ephPublic
  let se := P.x25519 secret consumed.staticPublic
  let ck := kdf1 P (kdf1 P (kdf1 P consumed.chain ephemeral.toList) ee.toList) se.toList
  let k := kdf3 P ck psk.toList
  let h := mixHash P (mixHash P consumed.hash ephemeral.toList) k.2.1.toList
  ⟨consumed.chain,consumed.hash,ephemeral,ee,se,psk,
    sealArray P (m := 0) k.2.2 zeroNonce h.toList (zeros 0)⟩

def completionView (inflight : InFlightInitiation) (localStatic psk : Bytes 32)
    (msg : HandshakeResponse) : ResponseView :=
  ⟨inflight.chain,inflight.hash,msg.ephemeral,P.x25519 inflight.ephSecret msg.ephemeral,
    P.x25519 localStatic msg.ephemeral,psk,msg.encryptedNothing⟩

def InitiationView.alpha (v : InitiationView) (sender : UInt32) : List UInt8 :=
  header 1 ++ ((u32Le sender).toList ++ (v.ephemeral.toList ++
    (v.encryptedStatic.toList ++ v.encryptedTimestamp.toList)))

def ResponseView.alpha (v : ResponseView) (sender receiver : UInt32) : List UInt8 :=
  header 2 ++ ((u32Le sender).toList ++ ((u32Le receiver).toList ++
    (v.ephemeral.toList ++ v.encryptedNothing.toList)))

@[simp] theorem InitiationView.alpha_length (v : InitiationView) (sender : UInt32) :
    (v.alpha sender).length = 116 := by
  simp [InitiationView.alpha,header]

@[simp] theorem ResponseView.alpha_length (v : ResponseView) (sender receiver : UInt32) :
    (v.alpha sender receiver).length = 60 := by
  simp [ResponseView.alpha,header]

def InitiationView.message (v : InitiationView) (sender : UInt32) (mac1 mac2 : Bytes 16) :
    HandshakeInitiation :=
  ⟨sender,v.ephemeral,v.encryptedStatic,v.encryptedTimestamp,mac1,mac2,v.alpha sender,
    v.alpha sender ++ mac1.toList⟩

def ResponseView.message (v : ResponseView) (sender receiver : UInt32) (mac1 mac2 : Bytes 16) :
    HandshakeResponse :=
  ⟨sender,receiver,v.ephemeral,v.encryptedNothing,mac1,mac2,v.alpha sender receiver,
    v.alpha sender receiver ++ mac1.toList⟩

theorem parse_initiation_alpha (v : InitiationView) (sender : UInt32) (mac1 mac2 : Bytes 16) :
    parse (v.alpha sender ++ mac1.toList ++ mac2.toList) =
      .ok (.handshakeInitiation (v.message sender mac1 mac2)) := by
  rw [parse_initiation_iff]
  refine ⟨?_,?_,?_⟩
  · simp [InitiationView.message,InitiationView.alpha,HandshakeInitiation.encode]
  · rw [List.append_assoc,List.take_left' (v.alpha_length sender)]
    rfl
  · rw [List.take_left' (by simp)]
    rfl

theorem parse_response_alpha (v : ResponseView) (sender receiver : UInt32)
    (mac1 mac2 : Bytes 16) :
    parse (v.alpha sender receiver ++ mac1.toList ++ mac2.toList) =
      .ok (.handshakeResponse (v.message sender receiver mac1 mac2)) := by
  rw [parse_response_iff]
  refine ⟨?_,?_,?_⟩
  · simp [ResponseView.message,ResponseView.alpha,HandshakeResponse.encode]
  · rw [List.append_assoc,List.take_left' (v.alpha_length sender receiver)]
    rfl
  · rw [List.take_left' (by simp)]
    rfl

theorem initiatorView_sealed (K : HandshakeConstants) (localPublic peerPublic ss secret : Bytes 32)
    (timestamp : Tai64N) :
    (initiatorView P K localPublic peerPublic ss secret timestamp).Sealed P K localPublic
      timestamp := ⟨rfl,rfl⟩

theorem responderView_sealed (consumed : ConsumedInitiation) (psk secret : Bytes 32) :
    (responderView P consumed psk secret).Sealed P := rfl

theorem sharedSecret_eq (secret peer : Bytes 32) :
    sharedSecret P secret peer =
      if ctIsZero (P.x25519 secret peer).toList then .error .invalidPublicKey
      else .ok (P.x25519 secret peer) := rfl

theorem createInitiation_eq (K : HandshakeConstants) (localPublic peerPublic ss : Bytes 32)
    (localIndex : UInt32) (raw : Bytes 32) (timestamp : Tai64N) (out : List UInt8) :
    createInitiation P K localPublic peerPublic ss localIndex raw timestamp out =
      if out.length < handshakeInitiationLen then .error .bufferTooSmall
      else if ctIsZero (P.x25519 (clampScalar raw) peerPublic).toList then
        .error .invalidPublicKey
      else
        let v := initiatorView P K localPublic peerPublic ss (clampScalar raw) timestamp
        .ok (⟨localIndex,clampScalar raw,v.chain P K,v.hash P K⟩,
          v.alpha localIndex ++ List.replicate 32 0 ++ out.drop handshakeInitiationLen) := by
  unfold createInitiation
  split
  · rfl
  · rename_i hlen
    dsimp only
    rw [sharedSecret_eq]
    split
    · rfl
    · simp only [bind,Except.bind,sealInto_eq,buildInitiation_eq,hlen,if_false]
      congr 2
      simp [initiatorView,InitiationView.alpha]

theorem consumeInitiation_ok {K : HandshakeConstants} {localStatic localPublic : Bytes 32}
    {peerPublic ss : Bytes 32} {msg : HandshakeInitiation} {c : ConsumedInitiation} :
    consumeInitiation P K localStatic localPublic peerPublic ss msg = .ok c ↔
      let v := receiverView P localStatic localPublic ss msg
      ctIsZero v.es.toList = false ∧ v.Opens P K peerPublic c.timestamp ∧
        c = ⟨msg.senderIndex,peerPublic,c.timestamp,msg.ephemeral,v.chain P K,v.hash P K⟩ := by
  unfold consumeInitiation
  dsimp only
  rw [sharedSecret_eq]
  constructor
  · intro h
    split at h
    · cases h
    rename_i hz
    dsimp only [bind,Except.bind] at h
    split at h
    · cases h
    rename_i s hs
    split at h
    · cases h
    rename_i hp
    have hsp : s = peerPublic := (ctEq_bytes _ _).mp (by simpa using hp)
    subst hsp
    split at h
    · cases h
    rename_i ts ht
    obtain rfl := Except.ok.inj h
    exact ⟨Bool.eq_false_iff.mpr hz,⟨hs,ht⟩,rfl⟩
  · rintro ⟨hz,⟨hs,ht⟩,hc⟩
    have hz' : ctIsZero (P.x25519 localStatic msg.ephemeral).toList = false := hz
    rw [hz',if_neg (by simp)]
    dsimp only [bind,Except.bind]
    split
    · rename_i hn
      exact absurd (hs.symm.trans hn) (by simp)
    rename_i s' hs'
    obtain rfl := Option.some.inj (hs.symm.trans hs')
    rw [if_neg (by simp [(ctEq_bytes peerPublic peerPublic).mpr rfl])]
    split
    · rename_i hn
      exact absurd (ht.symm.trans hn) (by simp)
    rename_i ts' ht'
    have hts := Option.some.inj (ht.symm.trans ht')
    rw [hc,← hts]
    rfl

theorem createResponse_eq (consumed : ConsumedInitiation) (psk : Bytes 32)
    (localIndex : UInt32) (raw : Bytes 32) (out : List UInt8) :
    createResponse P consumed psk localIndex raw out =
      let v := responderView P consumed psk (clampScalar raw)
      if out.length < handshakeResponseLen then .error .bufferTooSmall
      else if ctIsZero v.ee.toList then .error .invalidPublicKey
      else if ctIsZero v.se.toList then .error .invalidPublicKey
      else .ok (⟨v.responderKey P,v.initiatorKey P,localIndex,consumed.peerIndex,false⟩,
        v.alpha localIndex consumed.peerIndex ++ List.replicate 32 0 ++
          out.drop handshakeResponseLen) := by
  unfold createResponse
  dsimp only
  split
  · rfl
  · rename_i hlen
    rw [sharedSecret_eq,sharedSecret_eq]
    split
    · rename_i he
      exact (if_pos he).symm
    · rename_i he
      split
      · rename_i hs
        exact ((if_neg he).trans (if_pos hs)).symm
      · rename_i hs
        refine Eq.trans ?_ ((if_neg he).trans (if_neg hs)).symm
        simp only [bind,Except.bind,sealInto_eq,buildResponse_eq,hlen,if_false]
        congr 2

theorem consumeResponse_ok {inflight : InFlightInitiation} {localStatic psk : Bytes 32}
    {msg : HandshakeResponse} {keys : SessionKeys} :
    consumeResponse P inflight localStatic psk msg = .ok keys ↔
      let v := completionView P inflight localStatic psk msg
      ctIsZero v.ee.toList = false ∧ ctIsZero v.se.toList = false ∧ v.Opens P ∧
        keys = ⟨v.initiatorKey P,v.responderKey P,inflight.localIndex,msg.senderIndex,true⟩ := by
  unfold consumeResponse
  dsimp only
  rw [sharedSecret_eq,sharedSecret_eq]
  constructor
  · intro h
    split at h
    · cases h
    rename_i hee
    dsimp only [bind,Except.bind] at h
    split at h
    · rename_i hx
      split at hx <;> cases hx
      cases h
    rename_i se hse
    split at hse
    · cases hse
    rename_i hz
    obtain rfl := Except.ok.inj hse
    split at h
    · cases h
    rename_i nothing hn
    have h0 : nothing = zeros 0 := List.Vector.eq_nil nothing
    rw [h0] at hn
    exact ⟨Bool.eq_false_iff.mpr hee,Bool.eq_false_iff.mpr hz,hn,(Except.ok.inj h).symm⟩
  · rintro ⟨hee,hse,ho,hk⟩
    have hee' : ctIsZero (P.x25519 inflight.ephSecret msg.ephemeral).toList = false := hee
    have hse' : ctIsZero (P.x25519 localStatic msg.ephemeral).toList = false := hse
    rw [hee',hse',if_neg (by simp),if_neg (by simp)]
    dsimp only [bind,Except.bind]
    split
    · rename_i hn
      exact absurd (ho.symm.trans hn) (by simp)
    · rw [hk]
      rfl

end WireGuard
