import WireGuard.Operations.SendSpec
import WireGuard.Operations.Receive

/-!
# What receiving a datagram can do

`Receipt` lists every way a call of `decapsulate` can end, with the checks that
were passed on the way there; `decapsulateAt_receipt` says that the list is
complete. Facts about received datagrams are proved from the list.
-/

set_option autoImplicit false

namespace WireGuard
open ByteString

variable {P : Primitives}

namespace Tunnel

def responseKeys (v : ResponseView) (index peer : UInt32) : SessionKeys :=
  ⟨v.responderKey P,v.initiatorKey P,index,peer,false⟩

theorem answerInitiation_eq (t : Tunnel P) (now : Now) (consumed : ConsumedInitiation)
    (out : List UInt8) (rng : Entropy) :
    t.answerInitiation now consumed out rng =
      match t.drawHandshake rng with
      | (.error e,rng) => ⟨t,out,rng,.error e⟩
      | (.ok (index,eph),rng) =>
        let v := responderView P consumed t.psk (clampScalar eph)
        let alpha := v.alpha index consumed.peerIndex
        if out.length < handshakeResponseLen then ⟨t,out,rng,.error .bufferTooSmall⟩
        else if ctIsZero v.ee.toList then ⟨t,out,rng,.error .invalidPublicKey⟩
        else if ctIsZero v.se.toList then ⟨t,out,rng,.error .invalidPublicKey⟩
        else ⟨t.commitResponse now.ticks (mac P t.macKeys.mac1Send.toList [alpha])
            consumed.timestamp (responseKeys (P := P) v index consumed.peerIndex),
          t.withMacs now.ticks alpha ++ out.drop handshakeResponseLen,rng,
          .ok (.reply (t.withMacs now.ticks alpha))⟩ := by
  unfold answerInitiation
  rcases t.drawHandshake rng with ⟨_ | ⟨index,eph⟩,rest⟩
  · rfl
  · dsimp only
    rw [createResponse_eq]
    dsimp only
    by_cases hlen : out.length < handshakeResponseLen
    · simp only [if_pos hlen]
    rw [if_neg hlen,if_neg hlen]
    by_cases hee : ctIsZero (responderView P consumed t.psk (clampScalar eph)).ee.toList = true
    · simp only [if_pos hee]
    rw [if_neg hee,if_neg hee]
    by_cases hse : ctIsZero (responderView P consumed t.psk (clampScalar eph)).se.toList = true
    · simp only [if_pos hse]
    rw [if_neg hse,if_neg hse]
    obtain ⟨hl,hr,hm⟩ := applyMacs_front P t.macKeys t.cookie now.ticks
      ((responderView P consumed t.psk (clampScalar eph)).alpha index consumed.peerIndex)
      (out.drop handshakeResponseLen) handshakeResponseLen
      (by simp [handshakeResponseLen]) (Or.inr rfl)
    dsimp only
    rw [if_neg hl,hm]
    simp only [hr,Outcome.emit]
    rw [if_pos (by simp [handshakeResponseLen]; omega),
      List.take_left' (by simp [handshakeResponseLen])]
    rfl

theorem buildCookieReply_ok {keys : MacKeys} {jar : CookieJar} {now : Ticks} {rng : Entropy}
    {peer : UInt32} {mac1 : Bytes 16} {remote out : List UInt8} {n : ℕ}
    (h : (buildCookieReply P keys jar now rng peer mac1 remote out).result = .ok n) :
    n = cookieReplyLen ∧ ∃ reply : CookieReply, reply.receiverIndex = peer ∧
      (buildCookieReply P keys jar now rng peer mac1 remote out).out =
        reply.encode ++ out.drop cookieReplyLen ∧
      ∃ jar' rest, jar.rotateIfNeeded now rng = (.ok jar',rest) ∧
        (buildCookieReply P keys jar now rng peer mac1 remote out).jar = jar'.nextNonce.1 ∧
        reply.encryptedCookie =
          xseal P keys.cookieSend reply.nonce mac1.toList (mac P jar'.secret.toList [remote]) := by
  by_cases hlen : out.length < cookieReplyLen
  · simp [buildCookieReply,hlen] at h
  cases hm : jar.mint P now rng remote with
  | mk r rest =>
    cases r with
    | error e => simp [buildCookieReply,hlen,hm] at h
    | ok minted =>
      obtain ⟨jar',cookie⟩ := minted
      have hrot : jar.rotateIfNeeded now rng = (.ok jar',rest) ∧
          mac P jar'.secret.toList [remote] = cookie := by
        unfold CookieJar.mint at hm
        split at hm
        · cases hm
        · rename_i hr
          cases hm
          exact ⟨hr,rfl⟩
      rw [buildCookieReply_minted P hlen hm] at h ⊢
      refine ⟨(Except.ok.inj h).symm,⟨peer,jar'.nextNonce.2,
        xseal P keys.cookieSend jar'.nextNonce.2 mac1.toList cookie⟩,rfl,?_,jar',rest,hrot.1,rfl,?_⟩
      · simp [CookieReply.encode]
      · rw [hrot.2]

/-- The tunnels a rejected datagram can leave: the one before, up to one of the
failure counters. -/
def Rejected (t t' : Tunnel P) : Prop :=
  t' = t ∨ t' = t.countMac1Failure ∨ t' = t.countAuthFailure ∨ t' = t.countReplay

def delivered (plain : List UInt8) : Received := if plain = [] then .keepalive else .data plain

inductive Receipt (C : ChaChaImpl) (t : Tunnel P) (now : Now) (remote datagram out : List UInt8)
    (rng : Entropy) : Outcome P Received → Prop
  | rejected (t' : Tunnel P) (rest : Entropy) (e : Error) (ht : Rejected t t') :
      Receipt C t now remote datagram out rng ⟨t',out,rest,.error e⟩
  | cookieReply (index : UInt32) (mac1 : Bytes 16) (reply : CookieReply) (r : JarOutcome)
      (hr : r = buildCookieReply P t.macKeys t.cookieJar now.ticks rng index mac1 remote out)
      (hn : r.result = .ok cookieReplyLen)
      (ho : r.out = reply.encode ++ out.drop cookieReplyLen) :
      Receipt C t now remote datagram out rng
        ⟨(t.setJar r.jar).countCookieSent,r.out,r.rng,.ok (.reply reply.encode)⟩
  | answered (m : HandshakeInitiation) (consumed : ConsumedInitiation) (index : UInt32)
      (eph : Bytes 32) (rest : Entropy)
      (hm : parse datagram = .ok (.handshakeInitiation m))
      (hmac : verifyMac1 P t.macKeys m.alpha m.mac1 = true)
      (hc : consumeInitiation P t.constants t.localStatic t.localPublic t.peerPublic
        t.precomputedSs m = .ok consumed)
      (hts : t.timestampSeen consumed.timestamp = false)
      (hd : t.drawHandshake rng = (.ok (index,eph),rest)) :
      Receipt C t now remote datagram out rng
        (let v := responderView P consumed t.psk (clampScalar eph)
        let alpha := v.alpha index consumed.peerIndex
        ⟨t.commitResponse now.ticks (mac P t.macKeys.mac1Send.toList [alpha])
            consumed.timestamp (responseKeys (P := P) v index consumed.peerIndex),
          t.withMacs now.ticks alpha ++ out.drop handshakeResponseLen,rest,
          .ok (.reply (t.withMacs now.ticks alpha))⟩)
  | completed (m : HandshakeResponse) (inflight : InFlightInitiation) (keys : SessionKeys)
      (hm : parse datagram = .ok (.handshakeResponse m))
      (hmac : verifyMac1 P t.macKeys m.alpha m.mac1 = true)
      (hi : t.inflight = some inflight) (hx : inflight.localIndex = m.receiverIndex)
      (hk : consumeResponse P inflight t.localStatic t.psk m = .ok keys) :
      Receipt C t now remote datagram out rng
        ⟨t.commitCompletion now.ticks keys,out,rng,.ok .handshakeComplete⟩
  | stored (cookie : LastCookie) :
      Receipt C t now remote datagram out rng ⟨t.storeCookie cookie,out,rng,.ok .cookieStored⟩
  | accepted (m : TransportData) (slot : Slot) (s : Session) (plain : List UInt8)
      (hm : parse datagram = .ok (.transportData m))
      (hx : t.sessionWithIndex m.receiverIndex = some slot) (hs : t.slot slot = some s)
      (hn : m.counter < rejectAfterMessages) (ha : s.age now.ticks < rejectAfterTime)
      (hk : s.replay.check m.counter = true)
      (ho : openBytes P C s.keys.recv (nonceFromCounter m.counter) [] m.ciphertext = some plain) :
      Receipt C t now remote datagram out rng
        ⟨t.commitTransport now.ticks slot s (s.replay.accept m.counter).1 plain.length,
          plain ++ out.drop plain.length,rng,.ok (delivered plain)⟩

theorem replyCookie_receipt (C : ChaChaImpl) (t : Tunnel P) (now : Now)
    (remote datagram out : List UInt8) (rng : Entropy) (index : UInt32) (mac1 : Bytes 16) :
    Receipt C t now remote datagram out rng (t.replyCookie now remote index mac1 out rng) := by
  unfold replyCookie
  dsimp only
  split
  · rename_i e he
    obtain ⟨hj,ho⟩ := buildCookieReply_error P he
    rw [hj,ho]
    exact .rejected t _ e (Or.inl rfl)
  · rename_i n hn
    obtain ⟨rfl,reply,_,ho,_⟩ := buildCookieReply_ok hn
    have hl := reply.encode_length
    simp only [Outcome.emit]
    rw [ho,if_pos (by simp [hl]),List.take_left' hl,← ho]
    exact .cookieReply index mac1 reply _ rfl hn ho

theorem receiveInitiation_receipt (C : ChaChaImpl) (t : Tunnel P) (now : Now)
    (remote datagram out : List UInt8) (underLoad : Bool) (rng : Entropy)
    (m : HandshakeInitiation) (hm : parse datagram = .ok (.handshakeInitiation m)) :
    Receipt C t now remote datagram out rng
      (t.receiveInitiation now remote underLoad m out rng) := by
  unfold receiveInitiation
  split
  · exact .rejected _ _ _ (Or.inr (Or.inl rfl))
  rename_i hmac
  split
  · exact replyCookie_receipt C t now remote datagram out rng _ _
  split
  · exact .rejected _ _ _ (Or.inr (Or.inr (Or.inl rfl)))
  rename_i consumed hc
  split
  · exact .rejected _ _ _ (Or.inl rfl)
  rename_i hts
  rw [answerInitiation_eq]
  split
  · exact .rejected _ _ _ (Or.inl rfl)
  rename_i index eph rest hd
  dsimp only
  split
  · exact .rejected _ _ _ (Or.inl rfl)
  split
  · exact .rejected _ _ _ (Or.inl rfl)
  split
  · exact .rejected _ _ _ (Or.inl rfl)
  exact .answered m consumed index eph rest hm (by simpa using hmac) hc
    (Bool.eq_false_iff.mpr hts) hd

theorem pendingFor_eq_some {t : Tunnel P} {index : UInt32} {i : InFlightInitiation}
    (h : t.pendingFor index = some i) : t.inflight = some i ∧ i.localIndex = index := by
  unfold pendingFor at h
  obtain ⟨hi,hx⟩ := Option.filter_eq_some_iff.mp h
  exact ⟨hi,by simpa using hx⟩

theorem receiveResponse_receipt (C : ChaChaImpl) (t : Tunnel P) (now : Now)
    (remote datagram out : List UInt8) (underLoad : Bool) (rng : Entropy)
    (m : HandshakeResponse) (hm : parse datagram = .ok (.handshakeResponse m)) :
    Receipt C t now remote datagram out rng
      (t.receiveResponse now remote underLoad m out rng) := by
  unfold receiveResponse
  split
  · exact .rejected _ _ _ (Or.inr (Or.inl rfl))
  rename_i hmac
  split
  · exact .rejected _ _ _ (Or.inl rfl)
  rename_i inflight hi
  split
  · exact replyCookie_receipt C t now remote datagram out rng _ _
  split
  · exact .rejected _ _ _ (Or.inr (Or.inr (Or.inl rfl)))
  rename_i keys hk
  obtain ⟨hi,hx⟩ := pendingFor_eq_some hi
  exact .completed m inflight keys hm (by simpa using hmac) hi hx hk

theorem receiveCookieReply_receipt (C : ChaChaImpl) (t : Tunnel P) (now : Now)
    (remote datagram out : List UInt8) (rng : Entropy) (m : CookieReply) :
    Receipt C t now remote datagram out rng (t.receiveCookieReply now m out rng) := by
  unfold receiveCookieReply
  split
  · exact .rejected _ _ _ (Or.inl rfl)
  split
  · exact .stored _
  split
  · exact .rejected _ _ _ (Or.inl rfl)
  · exact .rejected _ _ _ (Or.inr (Or.inr (Or.inl rfl)))

theorem handleTransport_receipt (C : ChaChaImpl) (t : Tunnel P) (now : Now)
    (remote datagram out : List UInt8) (rng : Entropy) (m : TransportData)
    (hm : parse datagram = .ok (.transportData m)) :
    Receipt C t now remote datagram out rng (t.handleTransport C now m out rng) := by
  unfold handleTransport
  split
  · exact .rejected _ _ _ (Or.inl rfl)
  rename_i slot hx
  split
  · exact .rejected _ _ _ (Or.inl rfl)
  rename_i hn
  split
  · exact .rejected _ _ _ (Or.inl rfl)
  rename_i s hs
  split
  · exact .rejected _ _ _ (Or.inl rfl)
  rename_i ha
  split
  · exact .rejected _ _ _ (Or.inr (Or.inr (Or.inr rfl)))
  rename_i hk
  have hk' : s.replay.check m.counter = true := by simpa using hk
  split
  · rename_i out' ho
    obtain rfl := openWith_error P ho
    exact .rejected _ _ _ (Or.inl rfl)
  · rename_i e out' _ ho
    obtain rfl := openWith_error P ho
    exact .rejected _ _ _ (Or.inr (Or.inr (Or.inl rfl)))
  rename_i n out' ho
  obtain ⟨plain,hp,hl,hout,_⟩ := openWith_ok P ho
  subst hl hout
  have hacc : (s.replay.accept m.counter).2 = true := by
    rw [ReplayWindow.accept_result,hk']
  simp only [hacc,Bool.not_true,Bool.false_eq_true,if_false]
  have hr : Receipt C t now remote datagram out rng
      ⟨t.commitTransport now.ticks slot s (s.replay.accept m.counter).1 plain.length,
        plain ++ out.drop plain.length,rng,.ok (delivered plain)⟩ :=
    .accepted m slot s plain hm hx hs (by omega) (by omega) hk' hp
  by_cases h0 : plain = []
  · rw [if_pos (by simp [h0])]
    simpa [delivered,h0] using hr
  · rw [if_neg (by simpa using h0),if_pos (by simp),List.take_left]
    simpa [delivered,h0] using hr

/-- Every call of `decapsulate` ends in one of the listed ways. -/
theorem decapsulateAt_receipt (C : ChaChaImpl) (t : Tunnel P) (now : Now)
    (remote datagram out : List UInt8) (underLoad : Bool) (rng : Entropy) :
    Receipt C t now remote datagram out rng
      (t.decapsulateAt C now remote underLoad datagram out rng) := by
  unfold decapsulateAt
  split
  · exact .rejected _ _ _ (Or.inl rfl)
  · rename_i m hm
    exact receiveInitiation_receipt C t now remote datagram out underLoad rng m hm
  · rename_i m hm
    exact receiveResponse_receipt C t now remote datagram out underLoad rng m hm
  · exact receiveCookieReply_receipt C t now remote datagram out rng _
  · rename_i m hm
    exact handleTransport_receipt C t now remote datagram out rng m hm

end Tunnel

end WireGuard
