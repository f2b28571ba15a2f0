import WireGuard.Acts

/-!
# Calls that must succeed

The converse of reading a transition backwards: when the conditions of a kind of
message hold, a call at a clock that has not advanced takes the action and
reports it.
-/

set_option autoImplicit false

namespace WireGuard
open ByteString Tunnel

variable {P : Primitives}

theorem observe_of_le {t : Tunnel P} {now : Now} (h : now.ticks ≤ t.lastNow) :
    t.observe now = t := by
  unfold observe
  rw [max_eq_left h]

theorem reading_of_le {t : Tunnel P} {now : Now} (h : now.ticks ≤ t.lastNow) :
    (t.reading now).ticks = t.lastNow := max_eq_left h

theorem step_decapsulate (C : ChaChaImpl) {t : Tunnel P} {now : Now}
    (remote datagram out : List UInt8) (underLoad : Bool) (rng : Entropy)
    (h : now.ticks ≤ t.lastNow) :
    step C t (.decapsulate now remote underLoad datagram out rng) =
      ((t.decapsulateAt C (t.reading now) remote underLoad datagram out rng).tunnel,
        .decapsulated
          (t.decapsulateAt C (t.reading now) remote underLoad datagram out rng).result) := by
  simp only [step,decapsulate,clampNow_eq,observe_of_le h]

theorem step_decapsulate_observe (C : ChaChaImpl) (t : Tunnel P) (now : Now)
    (remote datagram out : List UInt8) (underLoad : Bool) (rng : Entropy) :
    step C t (.decapsulate now remote underLoad datagram out rng) =
      step C (t.observe now) (.decapsulate now remote underLoad datagram out rng) := by
  have hle : now.ticks ≤ (t.observe now).lastNow := le_max_right _ _
  have hr : (t.observe now).reading now = t.reading now := by
    unfold reading
    rw [max_eq_left hle]
    rfl
  rw [step_decapsulate C remote datagram out underLoad rng hle,hr]
  simp only [step,decapsulate,clampNow_eq]

theorem step_answers (C : ChaChaImpl) {t : Tunnel P} {now : Now} {datagram out : List UInt8}
    (remote : List UInt8) {rng rest : Entropy} {m : HandshakeInitiation}
    {consumed : ConsumedInitiation} {index : UInt32} {eph : Bytes 32}
    (hclock : now.ticks ≤ t.lastNow) (hm : parse datagram = .ok (.handshakeInitiation m))
    (hmac : verifyMac1 P t.macKeys m.alpha m.mac1 = true)
    (hc : consumeInitiation P t.constants t.localStatic t.localPublic t.peerPublic
      t.precomputedSs m = .ok consumed)
    (hts : t.timestampSeen consumed.timestamp = false)
    (hd : t.drawHandshake rng = (.ok (index,eph),rest))
    (hout : handshakeResponseLen ≤ out.length)
    (hee : ctIsZero (responderView P consumed t.psk (clampScalar eph)).ee.toList = false)
    (hse : ctIsZero (responderView P consumed t.psk (clampScalar eph)).se.toList = false) :
    step C t (.decapsulate now remote false datagram out rng) =
      ((Act.respond m consumed index eph).apply t,
        .decapsulated (.ok (.reply
          (t.withMacs t.lastNow (t.answerAlpha consumed index eph))))) := by
  have hr := reading_of_le hclock
  have he : t.decapsulateAt C (t.reading now) remote false datagram out rng =
      t.answerInitiation (t.reading now) consumed out rng := by
    simp only [decapsulateAt,hm,receiveInitiation,hmac,hc,hts]
    simp
  rw [step_decapsulate C remote datagram out false rng hclock,he,answerInitiation_eq]
  simp only [hd,hee,hse,hr]
  rw [if_neg (Nat.not_lt.mpr hout)]
  rfl

theorem step_completes (C : ChaChaImpl) {t : Tunnel P} {now : Now} {datagram : List UInt8}
    (remote out : List UInt8) (rng : Entropy) {m : HandshakeResponse} {i : InFlightInitiation}
    {keys : SessionKeys} (hclock : now.ticks ≤ t.lastNow)
    (hm : parse datagram = .ok (.handshakeResponse m))
    (hmac : verifyMac1 P t.macKeys m.alpha m.mac1 = true) (hi : t.inflight = some i)
    (hx : i.localIndex = m.receiverIndex)
    (hk : consumeResponse P i t.localStatic t.psk m = .ok keys) :
    step C t (.decapsulate now remote false datagram out rng) =
      ((Act.complete m keys).apply t,.decapsulated (.ok .handshakeComplete)) := by
  have hr := reading_of_le hclock
  have hp : t.pendingFor m.receiverIndex = some i := by
    simp [pendingFor,hi,hx]
  have he : t.decapsulateAt C (t.reading now) remote false datagram out rng =
      ⟨t.commitCompletion t.lastNow keys,out,rng,.ok .handshakeComplete⟩ := by
    simp only [decapsulateAt,hm,receiveResponse,hmac,hp,hk,hr]
    simp
  rw [step_decapsulate C remote datagram out false rng hclock,he]
  rfl

theorem step_delivers (C : ChaChaImpl) {t : Tunnel P} {now : Now} {datagram out : List UInt8}
    (remote : List UInt8) (rng : Entropy) {m : TransportData} {slot : Slot} {s : Session}
    {plain : List UInt8} (hclock : now.ticks ≤ t.lastNow)
    (hm : parse datagram = .ok (.transportData m))
    (hx : t.sessionWithIndex m.receiverIndex = some slot) (hs : t.slot slot = some s)
    (hn : m.counter < rejectAfterMessages) (ha : s.age t.lastNow < rejectAfterTime)
    (hk : s.replay.check m.counter = true)
    (ho : openBytes P C s.keys.recv (nonceFromCounter m.counter) [] m.ciphertext = some plain)
    (hout : plain.length ≤ out.length) (hne : plain ≠ []) :
    step C t (.decapsulate now remote false datagram out rng) =
      ((Act.accept slot m.counter plain.length).apply t,.decapsulated (.ok (.data plain))) := by
  have hr := reading_of_le hclock
  have hacc : (s.replay.accept m.counter).2 = true := by
    rw [ReplayWindow.accept_result,hk]
  have hopen := openWith_of_openBytes P ho hout
  have hpos : plain.length ≠ 0 := fun h => hne (List.length_eq_zero_iff.mp h)
  have he : t.decapsulateAt C (t.reading now) remote false datagram out rng =
      ⟨t.commitTransport t.lastNow slot s (s.replay.accept m.counter).1 plain.length,
        plain++out.drop plain.length,rng,.ok (.data plain)⟩ := by
    simp only [decapsulateAt,hm,handleTransport,hx,hs,hr,hk,hopen,hacc]
    rw [if_neg (by omega),if_neg (by omega)]
    simp [hne]
  rw [step_decapsulate C remote datagram out false rng hclock,he]
  simp only [Act.apply,hs]

theorem step_sends (C : ChaChaImpl) {t : Tunnel P} {now : Now} (payload : Payload)
    {out : List UInt8} (rng : Entropy) {s : Session} (hclock : now.ticks ≤ t.lastNow)
    (hc : t.current = some s) (hu : s.usableForSend t.lastNow = true)
    (hout : payload.val.length+47 ≤ out.length) :
    step C t (.encapsulate now payload out rng) =
      ((Act.transmit (some payload.val.length)).apply t,
        .encapsulated (.ok (.transport (transportWire (P := P) C s (t.stage payload))))) := by
  have hr := reading_of_le hclock
  have hlt := (Session.usableForSend_iff.mp hu).2.1
  have hlen := paddedLen_le payload.val.length t.mtu
  have hov : transportOverhead = 32 := rfl
  have he : t.encapsulateAt C (t.reading now) payload out rng =
      ⟨t.commitSeal t.lastNow (some payload.val.length),transportWire (P := P) C s
        (t.stage payload)++out.drop (paddedLen payload.val.length t.mtu+transportOverhead),rng,
        .ok (.transport (transportWire (P := P) C s (t.stage payload)))⟩ := by
    have hcu : t.currentUsable t.lastNow = true := by
      simp only [currentUsable,hc,hu]
    simp only [encapsulateAt,hr,hcu]
    rw [if_neg (by simp),encapsulateSeal_eq C _ payload out rng hc hlt,if_neg (by omega),hr]
  simp only [step,encapsulate,clampNow_eq,observe_of_le hclock,he]
  rfl

end WireGuard
