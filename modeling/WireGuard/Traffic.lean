import WireGuard.Refinement

/-!
# Reading a transition backwards

What a call must have done when it returned a transport datagram, an accepted
plaintext or an initiation: which session it used, what it sealed or
opened, and the event it left behind.
-/

set_option autoImplicit false

namespace WireGuard
open ByteString Tunnel

variable {P : Primitives}

/-- The plaintext that `decapsulate` accepted, empty for a keepalive. -/
def Output.plaintext? : Output → Option (List UInt8)
  | .decapsulated (.ok (.data plain)) => some plain
  | .decapsulated (.ok .keepalive) => some []
  | _ => Option.none

theorem plaintext?_delivered (plain : List UInt8) :
    (Output.decapsulated (.ok (delivered plain))).plaintext? = some plain := by
  unfold delivered
  split
  · rename_i h
    rw [h]
    rfl
  · rfl

theorem quiet_transport? {o : Output} (h : o.quiet = true) : o.transport? = Option.none := by
  cases o with
  | encapsulated r => cases r <;> first | rfl | cases h
  | decapsulated r => rfl
  | polled r =>
    cases r with
    | error e => rfl
    | ok r => cases r <;> first | rfl | cases h
  | initiated r => rfl
  | none => rfl

theorem quiet_initiation? {o : Output} (h : o.quiet = true) : o.initiation? = Option.none := by
  cases o with
  | encapsulated r => cases r <;> first | rfl | cases h
  | decapsulated r => rfl
  | polled r =>
    cases r with
    | error e => rfl
    | ok r => cases r <;> first | rfl | cases h
  | initiated r => cases r <;> first | rfl | cases h
  | none => rfl

theorem initiation?_of_transport? {o : Output} {wire : List UInt8} (h : o.transport? = some wire) :
    o.initiation? = Option.none := by
  cases o with
  | encapsulated r =>
    cases r with
    | error e => rfl
    | ok r => cases r <;> first | rfl | cases h
  | decapsulated r => rfl
  | polled r =>
    cases r with
    | error e => rfl
    | ok r =>
      cases r with
      | send wire reason => cases reason <;> first | rfl | cases h
      | _ => rfl
  | initiated r => cases h
  | none => rfl

structure Sent (C : ChaChaImpl) (x : Transition P) (wire : List UInt8) (s : Session)
    (plain : List UInt8) : Prop where
  current : x.before.current = some s
  counter : s.sendCounter < rejectAfterMessages
  wire : wire = transportWire (P := P) C s plain
  events : eventsOf x = [.sent s.tag s.sendCounter x.after.lastNow]

theorem emission_transport {C : ChaChaImpl} {t : Tunnel P} {plain wire : List UInt8}
    {x : Transition P} (h : Emission C t plain x.output x.after)
    (hb : x.before.current = t.current) (hw : x.output.transport? = some wire) :
    ∃ s, Sent C x wire s plain := by
  generalize ho : x.output = o at h hw
  generalize ha : x.after = t' at h
  cases h with
  | quiet hq hp => simp [quiet_transport? hq] at hw
  | initiation now index eph jitter hp he h0 hi => simp [h0] at hw
  | transport s payloadLen hp ht hc hu hi =>
    obtain ⟨s',hs',hus⟩ := currentUsable_some hu
    obtain rfl := Option.some.inj (hc.symm.trans hs')
    have hlt := (Session.usableForSend_iff.mp hus).2.1
    obtain rfl := Option.some.inj (hw.symm.trans hi)
    refine ⟨s,hb.trans ht,hlt,rfl,?_⟩
    simp only [eventsOf,ho,hi]
    exact sentEvents_eq C x s plain (hb.trans ht) hlt

theorem step_transport (C : ChaChaImpl) (t : Tunnel P) (op : Op) (wire : List UInt8)
    (h : (step C t op).2.transport? = some wire) :
    ∃ s plain, Sent C (Machine.advance (step C) t op) wire s plain ∧
      ((∃ now payload out rng, op = .encapsulate now payload out rng ∧ plain = t.stage payload) ∨
        (∃ now out rng, op = .poll now out rng) ∧ plain = []) := by
  obtain ⟨hencap,hpoll,hinit⟩ := step_emission C t
  cases op with
  | encapsulate now payload out rng =>
    obtain ⟨s,hs⟩ := emission_transport
      (x := Machine.advance (step C) t (.encapsulate now payload out rng))
      (hencap now payload out rng) rfl h
    exact ⟨s,_,hs,Or.inl ⟨_,_,_,_,rfl,rfl⟩⟩
  | decapsulate now remote underLoad datagram out rng => cases h
  | poll now out rng =>
    obtain ⟨s,hs⟩ := emission_transport (x := Machine.advance (step C) t (.poll now out rng))
      (hpoll now out rng) rfl h
    exact ⟨s,_,hs,Or.inr ⟨⟨_,_,_,rfl⟩,rfl⟩⟩
  | initiateHandshake now out rng => cases h
  | setMtu mtu => cases h
  | reset => cases h

structure Accepted (C : ChaChaImpl) (x : Transition P) (m : TransportData) (s : Session)
    (plain : List UInt8) : Prop where
  held : ∃ slot, x.before.sessionWithIndex m.receiverIndex = some slot ∧
    x.before.slot slot = some s
  counter : m.counter < rejectAfterMessages
  opens : openBytes P C s.keys.recv (nonceFromCounter m.counter) [] m.ciphertext = some plain
  output : x.output = .decapsulated (.ok (delivered plain))
  events : eventsOf x = [.accepted s.tag m.counter x.after.lastNow]

theorem step_plaintext (C : ChaChaImpl) (t : Tunnel P) (op : Op) (plain : List UInt8)
    (h : (step C t op).2.plaintext? = some plain) :
    ∃ now remote underLoad datagram out rng m s,
      op = .decapsulate now remote underLoad datagram out rng ∧
      parse datagram = .ok (.transportData m) ∧
      Accepted C (Machine.advance (step C) t op) m s plain := by
  cases op with
  | encapsulate now payload out rng => cases h
  | poll now out rng => cases h
  | initiateHandshake now out rng => cases h
  | setMtu mtu => cases h
  | reset => cases h
  | decapsulate now remote underLoad datagram out rng =>
    obtain ⟨o,hr,hs⟩ := step_receipt C t now remote datagram out underLoad rng
    rw [hs] at h
    cases hr with
    | rejected t' rest e ht => cases h
    | cookieReply index mac1 reply r hr hk hout => cases h
    | answered m consumed index eph rest hm hmac hc hts hd => cases h
    | completed m inflight keys hm hmac hin hx hk => cases h
    | stored cookie => cases h
    | accepted m slot s plain' hm hx hsl hcn hage hk hopen =>
      dsimp only at h
      obtain rfl := Option.some.inj ((plaintext?_delivered plain').symm.trans h)
      have hx' : t.sessionWithIndex m.receiverIndex = some slot := hx
      have hs' : t.slot slot = some s := by cases slot <;> exact hsl
      have hout : (Machine.advance (step C) t
          (.decapsulate now remote underLoad datagram out rng)).output =
          .decapsulated (.ok (delivered plain')) := congrArg Prod.snd hs
      refine ⟨now,remote,underLoad,datagram,out,rng,m,s,rfl,hm,⟨slot,hx',hs'⟩,hcn,hopen,hout,?_⟩
      rw [eventsOf_received rfl hout,receivedEvents_delivered]
      simp only [acceptedEvents,hm,Machine.advance,hx',Option.bind_some,hs']

structure Initiated (x : Transition P) (wire : List UInt8) (u : Tunnel P) (now : Now)
    (index : UInt32) (eph : Bytes 32) (jitter : ℕ) : Prop where
  path : Path x.before [] u
  enabled : (Act.initiate now index eph jitter).enabled u
  wire : wire = u.withMacs u.lastNow ((u.initiationView now eph).alpha index)
  after : x.after = (Act.initiate now index eph jitter).apply u
  events : eventsOf x = [.initiated (u.nextTimestamp now)]

theorem emission_initiation {C : ChaChaImpl} {t : Tunnel P} {plain wire : List UInt8}
    {x : Transition P} (h : Emission C t plain x.output x.after) (hb : Path x.before [] t)
    (hw : x.output.initiation? = some wire) :
    ∃ u now index eph jitter, Initiated x wire u now index eph jitter := by
  generalize ho : x.output = o at h hw
  generalize ha : x.after = t' at h
  cases h with
  | quiet hq hp => simp [quiet_initiation? hq] at hw
  | @initiation u now index eph jitter hp he h0 hi =>
    obtain rfl := Option.some.inj (hw.symm.trans hi)
    refine ⟨u,now,index,eph,jitter,hb.trans hp,he,rfl,ha,?_⟩
    simp only [eventsOf,ho,h0,hi]
    exact initiatedEvents_eq x u now index eph jitter ha
  | transport s payloadLen hp ht hc hu hi => simp [initiation?_of_transport? hi] at hw

theorem step_initiation (C : ChaChaImpl) (t : Tunnel P) (op : Op) (wire : List UInt8)
    (h : (step C t op).2.initiation? = some wire) :
    ∃ u now index eph jitter,
      Initiated (Machine.advance (step C) t op) wire u now index eph jitter := by
  obtain ⟨hencap,hpoll,hinit⟩ := step_emission C t
  have hb : ∀ now, Path t [] (t.observe now) := fun now => path_clamp now (path_refl _)
  cases op with
  | encapsulate now payload out rng =>
    exact emission_initiation
      (x := Machine.advance (step C) t (.encapsulate now payload out rng))
      (hencap now payload out rng) (hb now) h
  | decapsulate now remote underLoad datagram out rng => cases h
  | poll now out rng =>
    exact emission_initiation (x := Machine.advance (step C) t (.poll now out rng))
      (hpoll now out rng) (hb now) h
  | initiateHandshake now out rng =>
    exact emission_initiation (x := Machine.advance (step C) t (.initiateHandshake now out rng))
      (hinit now out rng) (hb now) h
  | setMtu mtu => cases h
  | reset => cases h

structure Answered (x : Transition P) (datagram wire : List UInt8) (rng : Entropy) (u : Tunnel P)
    (m : HandshakeInitiation) (consumed : ConsumedInitiation) (index : UInt32)
    (eph : Bytes 32) : Prop where
  before : ∃ now, u = x.before.observe now
  drawn : (u.drawHandshake rng).1 = .ok (index,eph)
  parsed : parse datagram = .ok (.handshakeInitiation m)
  enabled : (Act.respond m consumed index eph).enabled u
  wire : wire = u.withMacs u.lastNow (u.answerAlpha consumed index eph)
  after : x.after = (Act.respond m consumed index eph).apply u
  events : eventsOf x = (Act.respond m consumed index eph).events u

theorem step_answer (C : ChaChaImpl) (t : Tunnel P) (op : Op) (wire : List UInt8)
    (r : HandshakeResponse) (h : (step C t op).2 = .decapsulated (.ok (.reply wire)))
    (hw : parse wire = .ok (.handshakeResponse r)) :
    ∃ now remote underLoad datagram out rng u m consumed index eph,
      op = .decapsulate now remote underLoad datagram out rng ∧
      Answered (Machine.advance (step C) t op) datagram wire rng u m consumed index eph := by
  cases op with
  | encapsulate now payload out rng => cases h
  | poll now out rng => cases h
  | initiateHandshake now out rng => cases h
  | setMtu mtu => cases h
  | reset => cases h
  | decapsulate now remote underLoad datagram out rng =>
    obtain ⟨o,hr,hs⟩ := step_receipt C t now remote datagram out underLoad rng
    have ho : o.result = .ok (.reply wire) := by
      rw [hs] at h
      exact Output.decapsulated.inj h
    cases hr with
    | rejected t' rest e ht => cases ho
    | cookieReply index mac1 reply r' hr' hk hout =>
      obtain rfl := Received.reply.inj (Except.ok.inj ho)
      rw [parse_cookie_iff.mpr rfl] at hw
      cases hw
    | answered m consumed index eph rest hm hmac hc hts hd =>
      have hout := Received.reply.inj (Except.ok.inj ho)
      have ha : (Act.respond m consumed index eph).enabled (t.observe now) :=
        ⟨hmac,hc,hts,drawHandshake_fresh hd⟩
      refine ⟨now,remote,underLoad,datagram,out,rng,t.observe now,m,consumed,index,eph,rfl,
        ⟨now,rfl⟩,by rw [hd],hm,ha,hout.symm,congrArg Prod.fst hs,?_⟩
      rw [eventsOf_received rfl (r := .reply wire) h]
      have hc' : consumeInitiation P t.constants t.localStatic t.localPublic t.peerPublic
          t.precomputedSs m = .ok consumed := hc
      simp only [receivedEvents,answeredEvents,hw,hm,Machine.advance,hc']
      rw [hs]
      rfl
    | completed m inflight keys hm hmac hin hx hk => cases ho
    | stored cookie => cases ho
    | accepted m slot s plain hm hx hsl hcn hage hk hopen =>
      dsimp only [delivered] at ho
      split at ho <;> cases ho

structure Completed (x : Transition P) (datagram : List UInt8) (u : Tunnel P)
    (m : HandshakeResponse) (i : InFlightInitiation) (keys : SessionKeys) : Prop where
  before : ∃ now, u = x.before.observe now
  parsed : parse datagram = .ok (.handshakeResponse m)
  inflight : x.before.inflight = some i
  index : i.localIndex = m.receiverIndex
  consumed : consumeResponse P i u.localStatic u.psk m = .ok keys
  after : x.after = (Act.complete m keys).apply u
  events : eventsOf x = (Act.complete m keys).events u

theorem step_complete (C : ChaChaImpl) (t : Tunnel P) (op : Op)
    (h : (step C t op).2 = .decapsulated (.ok .handshakeComplete)) :
    ∃ now remote underLoad datagram out rng u m i keys,
      op = .decapsulate now remote underLoad datagram out rng ∧
      Completed (Machine.advance (step C) t op) datagram u m i keys := by
  cases op with
  | encapsulate now payload out rng => cases h
  | poll now out rng => cases h
  | initiateHandshake now out rng => cases h
  | setMtu mtu => cases h
  | reset => cases h
  | decapsulate now remote underLoad datagram out rng =>
    obtain ⟨o,hr,hs⟩ := step_receipt C t now remote datagram out underLoad rng
    have ho : o.result = .ok .handshakeComplete := by
      rw [hs] at h
      exact Output.decapsulated.inj h
    cases hr with
    | completed m i keys hm hmac hin hx hk =>
      refine ⟨now,remote,underLoad,datagram,out,rng,t.observe now,m,i,keys,rfl,
        ⟨now,rfl⟩,hm,hin,hx,hk,congrArg Prod.fst hs,?_⟩
      rw [eventsOf_received rfl h]
      simp only [receivedEvents,Machine.advance,hs]
      rfl
    | accepted m slot s plain hm hx hsl hcn hage hk hopen =>
      dsimp only [delivered] at ho
      split at ho <;> cases ho
    | _ => cases ho

end WireGuard
