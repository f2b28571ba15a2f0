import WireGuard.Digests
import WireGuard.Timestamps

/-!
# The cryptography of a transition

Which ciphertexts a call sealed or opened with success, and which strings it
hashed, read off the call and the states around it. An initiation or a response
is described by the same view at both of its ends, so sealing and opening it are
the same calls whenever the views agree.
-/

set_option autoImplicit false

namespace WireGuard
open ByteString Tunnel

structure AeadCall where
  key : Bytes 32
  nonce : Bytes 12
  aad : List UInt8
  ciphertext : List UInt8
  deriving DecidableEq

variable {P : Primitives}

def InitiationView.staticCall (P : Primitives) (K : HandshakeConstants) (v : InitiationView) :
    AeadCall :=
  ⟨v.staticKey P K,zeroNonce,(v.hashEphemeral P K).toList,v.encryptedStatic.toList⟩

def InitiationView.timestampCall (P : Primitives) (K : HandshakeConstants)
    (v : InitiationView) : AeadCall :=
  ⟨v.timestampKey P K,zeroNonce,(v.hashStatic P K).toList,v.encryptedTimestamp.toList⟩

def InitiationView.calls (P : Primitives) (K : HandshakeConstants) (v : InitiationView) :
    List AeadCall := [v.staticCall P K,v.timestampCall P K]

def ResponseView.call (P : Primitives) (v : ResponseView) : AeadCall :=
  ⟨v.key P,zeroNonce,(v.hashTau P).toList,v.encryptedNothing.toList⟩

def cookieCall (t : Tunnel P) (c : CookieReply) (mac1 : Bytes 16) : AeadCall :=
  ⟨(xchachaDerive P t.macKeys.cookieSend c.nonce).1,
    (xchachaDerive P t.macKeys.cookieSend c.nonce).2,mac1.toList,c.encryptedCookie.toList⟩

def sentViews (x : Transition P) : List InitiationView :=
  match x.output.initiation?.map parse, x.after.inflight with
  | some (.ok (.handshakeInitiation m)), some i => [sentView x.after i m]
  | _, _ => []

def receivedViews (x : Transition P) : List InitiationView :=
  match answeredInitiation? x with
  | some m => [receiverView P x.before.localStatic x.before.localPublic x.before.precomputedSs m]
  | none => []

def answerViews (x : Transition P) : List ResponseView :=
  match x.input, answeredInitiation? x with
  | .decapsulate _ _ _ _ _ rng, some m =>
    match consumeInitiation P x.before.constants x.before.localStatic x.before.localPublic
      x.before.peerPublic x.before.precomputedSs m, (x.before.drawHandshake rng).1 with
    | .ok consumed, .ok (_,eph) => [responderView P consumed x.before.psk (clampScalar eph)]
    | _, _ => []
  | _, _ => []

def completionViews (x : Transition P) : List ResponseView :=
  match x.input, x.output with
  | .decapsulate _ _ _ datagram _ _, .decapsulated (.ok .handshakeComplete) =>
    match parse datagram, x.before.inflight with
    | .ok (.handshakeResponse m), some i =>
      [completionView P i x.before.localStatic x.before.psk m]
    | _, _ => []
  | _, _ => []

def transportSeals (x : Transition P) : List AeadCall :=
  match x.output.transport?.map parse, x.before.current with
  | some (.ok (.transportData m)), some s =>
    [⟨s.keys.send,nonceFromCounter m.counter,[],m.ciphertext⟩]
  | _, _ => []

def transportOpens (x : Transition P) : List AeadCall :=
  match x.input, x.output.plaintext? with
  | .decapsulate _ _ _ datagram _ _, some _ =>
    match parse datagram with
    | .ok (.transportData m) =>
      match (x.before.sessionWithIndex m.receiverIndex).bind x.before.slot with
      | some s => [⟨s.keys.recv,nonceFromCounter m.counter,[],m.ciphertext⟩]
      | none => []
    | _ => []
  | _, _ => []

def cookieSeals (x : Transition P) : List AeadCall :=
  match x.input, x.output with
  | .decapsulate _ _ _ datagram _ _, .decapsulated (.ok (.reply wire)) =>
    match parse wire, parse datagram with
    | .ok (.cookieReply c), .ok (.handshakeInitiation m) => [cookieCall x.before c m.mac1]
    | .ok (.cookieReply c), .ok (.handshakeResponse m) => [cookieCall x.before c m.mac1]
    | _, _ => []
  | _, _ => []

theorem ResponseView.call_inj {S : Set (List UInt8)} (hS : Set.InjOn P.digest S)
    {v w : ResponseView} (hv : ∀ d ∈ v.digests P, d ∈ S) (hw : ∀ d ∈ w.digests P, d ∈ S)
    (h : v.call P = w.call P) : v = w := by
  obtain ⟨hk,_,ha,hc⟩ := AeadCall.mk.inj h
  obtain ⟨h1,h2,h3,h4,h5,h6⟩ := response_inj hS hv hw hk (toList_inj ha)
  have h7 := toList_inj hc
  cases v
  cases w
  simp_all

/-- Everything a transition sealed and emitted. -/
def sealsOf (x : Transition P) : List AeadCall :=
  transportSeals x++(sentViews x).flatMap (InitiationView.calls P x.after.constants)++
    (answerViews x).map (ResponseView.call P)++cookieSeals x

/-- Every ciphertext whose opening made a transition accept a message. -/
def opensOf (x : Transition P) : List AeadCall :=
  transportOpens x++(receivedViews x).flatMap (InitiationView.calls P x.before.constants)++
    (completionViews x).map (ResponseView.call P)

/-- What the handshake messages of a transition hash. -/
def digestsOf (x : Transition P) : List (List UInt8) :=
  (sentViews x).flatMap (InitiationView.digests P x.after.constants)++
    (receivedViews x).flatMap (InitiationView.digests P x.before.constants)++
    (answerViews x++completionViews x).flatMap (ResponseView.digests P)

theorem cookieSeals_aad (x : Transition P) : ∀ c ∈ cookieSeals x, c.aad.length = 16 := by
  intro c hc
  unfold cookieSeals at hc
  split at hc
  · split at hc
    · rw [List.mem_singleton.mp hc]
      exact toList_length' _
    · rw [List.mem_singleton.mp hc]
      exact toList_length' _
    · cases hc
  · cases hc

theorem transport_of_seal {x : Transition P} {c : AeadCall} (h : c ∈ sealsOf x)
    (ha : c.aad = []) : c ∈ transportSeals x := by
  have hl : c.aad.length = 0 := by rw [ha]; rfl
  simp only [sealsOf,List.mem_append,List.mem_flatMap,List.mem_map] at h
  rcases h with ((h | ⟨v,_,h⟩) | ⟨v,_,rfl⟩) | h
  · exact h
  · simp only [InitiationView.calls,List.mem_cons,List.not_mem_nil,or_false] at h
    rcases h with rfl | rfl <;> simp [InitiationView.staticCall,InitiationView.timestampCall] at hl
  · simp [ResponseView.call] at hl
  · have := cookieSeals_aad x c h
    omega

def Session.sealCall (P : Primitives) (C : ChaChaImpl) (s : Session) (plain : List UInt8) :
    AeadCall :=
  ⟨s.keys.send,nonceFromCounter s.sendCounter,[],
    sealBytes P C s.keys.send (nonceFromCounter s.sendCounter) [] plain⟩

theorem transportSeals_sent {C : ChaChaImpl} {x : Transition P} {wire plain : List UInt8}
    {s : Session} (hw : x.output.transport? = some wire) (h : Sent C x wire s plain) :
    transportSeals x = [s.sealCall P C plain] := by
  have hp := parse_transportWire (P := P) C s plain (sendCounter_le_max h.counter)
  simp only [transportSeals,hw,Option.map_some,h.wire,hp,h.current,Session.sealCall]

theorem step_transportSeal {C : ChaChaImpl} {t : Tunnel P} {op : Op} {c : AeadCall}
    (h : c ∈ transportSeals (Machine.advance (step C) t op)) :
    ∃ wire s plain, (step C t op).2.transport? = some wire ∧
      Sent C (Machine.advance (step C) t op) wire s plain ∧ c = s.sealCall P C plain ∧
      ((∃ now payload out rng, op = .encapsulate now payload out rng ∧ plain = t.stage payload) ∨
        (∃ now out rng, op = .poll now out rng) ∧ plain = []) := by
  cases hw : (step C t op).2.transport? with
  | none =>
    have hn : (Machine.advance (step C) t op).output.transport? = none := hw
    simp [transportSeals,hn] at h
  | some wire =>
    obtain ⟨s,plain,hs,hop⟩ := step_transport C t op wire hw
    rw [transportSeals_sent hw hs,List.mem_singleton] at h
    exact ⟨wire,s,plain,rfl,hs,h,hop⟩

theorem Accepted.open_mem {C : ChaChaImpl} {x : Transition P} {m : TransportData} {s : Session}
    {plain datagram remote out : List UInt8} {now : Now} {underLoad : Bool} {rng : Entropy}
    (h : Accepted C x m s plain) (hi : x.input = .decapsulate now remote underLoad datagram out rng)
    (hd : parse datagram = .ok (.transportData m)) :
    ⟨s.keys.recv,nonceFromCounter m.counter,[],m.ciphertext⟩ ∈ opensOf x := by
  obtain ⟨slot,hx,hs⟩ := h.held
  have ho : x.output.plaintext? = some plain := by rw [h.output,plaintext?_delivered]
  have : transportOpens x = [⟨s.keys.recv,nonceFromCounter m.counter,[],m.ciphertext⟩] := by
    simp only [transportOpens,hi,ho,hd,hx,Option.bind_some,hs]
  simp [opensOf,this]

theorem Initiated.sentViews {x : Transition P} {wire : List UInt8} {u : Tunnel P} {now : Now}
    {index : UInt32} {eph : Bytes 32} {jitter : ℕ} (h : Initiated x wire u now index eph jitter)
    (hw : x.output.initiation? = some wire) :
    sentViews x = [u.initiationView now eph] := by
  obtain ⟨mac2,hp⟩ := parse_initiation_withMacs u u.lastNow (u.initiationView now eph) index
  have hi : x.after.inflight = some (u.initiationState now index eph) := by rw [h.after]; rfl
  simp only [WireGuard.sentViews,hw,Option.map_some,h.wire,hp,hi]
  rw [h.after]
  rfl

theorem Answered.identity {x : Transition P} {datagram wire : List UInt8} {rng : Entropy}
    {u : Tunnel P} {m : HandshakeInitiation} {consumed : ConsumedInitiation} {index : UInt32}
    {eph : Bytes 32} (h : Answered x datagram wire rng u m consumed index eph) :
    u.toIdentity = x.before.toIdentity := by
  obtain ⟨now,hu⟩ := h.before
  rw [hu]
  rfl

section Answer

variable {x : Transition P} {datagram wire remote out : List UInt8} {now : Now}
  {underLoad : Bool} {rng : Entropy} {u : Tunnel P} {m : HandshakeInitiation}
  {consumed : ConsumedInitiation} {index : UInt32} {eph : Bytes 32}

theorem Answered.answeredInitiation? (h : Answered x datagram wire rng u m consumed index eph)
    (hi : x.input = .decapsulate now remote underLoad datagram out rng)
    (ho : x.output = .decapsulated (.ok (.reply wire))) : answeredInitiation? x = some m := by
  obtain ⟨mac2,hp⟩ := parse_response_withMacs u u.lastNow
    (responderView P consumed u.psk (clampScalar eph)) index consumed.peerIndex
  have hw : parse wire = _ := h.wire ▸ hp
  simp only [WireGuard.answeredInitiation?,hi,ho,hw,h.parsed]

theorem Answered.views (h : Answered x datagram wire rng u m consumed index eph)
    (hi : x.input = .decapsulate now remote underLoad datagram out rng)
    (ho : x.output = .decapsulated (.ok (.reply wire))) :
    receivedViews x = [receiverView P u.localStatic u.localPublic u.precomputedSs m] ∧
      answerViews x = [responderView P consumed u.psk (clampScalar eph)] := by
  have ha := h.answeredInitiation? hi ho
  have hid := h.identity
  have hc := h.enabled.2.1
  have hd := h.drawn
  obtain ⟨_,hu⟩ := h.before
  have hdb : (x.before.drawHandshake rng).1 = .ok (index,eph) := by
    rw [hu] at hd
    exact hd
  rw [hid] at hc ⊢
  refine ⟨?_,?_⟩
  · simp only [receivedViews,ha]
  · simp only [answerViews,hi,ha,hc,hdb]

end Answer

theorem Completed.views {x : Transition P} {datagram remote out : List UInt8}
    {now : Now} {underLoad : Bool} {rng : Entropy} {u : Tunnel P} {m : HandshakeResponse}
    {i : InFlightInitiation} {keys : SessionKeys} (h : Completed x datagram u m i keys)
    (hi : x.input = .decapsulate now remote underLoad datagram out rng)
    (ho : x.output = .decapsulated (.ok .handshakeComplete)) :
    completionViews x = [completionView P i x.before.localStatic x.before.psk m] := by
  simp only [completionViews,hi,ho,h.parsed,h.inflight]

end WireGuard
