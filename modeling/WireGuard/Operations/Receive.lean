import WireGuard.Operations.Send

/-!
# Receiving

One function for each kind of message, then `decapsulate`. Each function makes
its checks in the source's order and commits after the last of them.
-/

set_option autoImplicit false

namespace WireGuard
open ByteString

inductive Received where
  | data (plain : List UInt8)
  | keepalive
  | reply (wire : List UInt8)
  | handshakeComplete
  | cookieStored
  deriving DecidableEq

namespace Tunnel

variable {P : Primitives}

def countMac1Failure (t : Tunnel P) : Tunnel P :=
  {t with stats := {t.stats with mac1Failures := satAdd t.stats.mac1Failures 1}}

def countAuthFailure (t : Tunnel P) : Tunnel P :=
  {t with stats := {t.stats with authFailures := satAdd t.stats.authFailures 1}}

def countReplay (t : Tunnel P) : Tunnel P :=
  {t with stats := {t.stats with replaysDropped := satAdd t.stats.replaysDropped 1}}

def setJar (t : Tunnel P) (jar : CookieJar) : Tunnel P := {t with cookieJar := jar}

def countCookieSent (t : Tunnel P) : Tunnel P :=
  {t with stats := {t.stats with cookiesSent := satAdd t.stats.cookiesSent 1}}

def replyCookie (t : Tunnel P) (now : Now) (remote : List UInt8) (senderIndex : UInt32)
    (mac1 : Bytes 16) (out : List UInt8) (rng : Entropy) : Outcome P Received :=
  let r := buildCookieReply P t.macKeys t.cookieJar now.ticks rng senderIndex mac1 remote out
  match r.result with
  | .error e => ⟨t.setJar r.jar,r.out,r.rng,.error e⟩
  | .ok n =>
    (⟨(t.setJar r.jar).countCookieSent,r.out,r.rng,.ok n⟩ : Outcome P ℕ).emit .reply

def timestampSeen (t : Tunnel P) (timestamp : Tai64N) : Bool :=
  match t.greatestTimestamp with
  | none => false
  | some g => timestamp ≤ g

def commitResponse (t : Tunnel P) (now : Ticks) (mac1 : Bytes 16) (timestamp : Tai64N)
    (keys : SessionKeys) : Tunnel P :=
  {t with
    lastRespMac1 := some mac1
    greatestTimestamp := some timestamp
    next := some (Session.new keys now t.sessionsCreated)
    stats := {t.stats with handshakesResponded := satAdd t.stats.handshakesResponded 1}
    sessionsCreated := t.sessionsCreated+1}

def answerInitiation (t : Tunnel P) (now : Now) (consumed : ConsumedInitiation)
    (out : List UInt8) (rng : Entropy) : Outcome P Received :=
  match t.drawHandshake rng with
  | (.error e,rng) => ⟨t,out,rng,.error e⟩
  | (.ok (localIndex,eph),rng) =>
    match createResponse P consumed t.psk localIndex eph out with
    | .error e => ⟨t,out,rng,.error e⟩
    | .ok (keys,out) =>
      if out.length < handshakeResponseLen then ⟨t,out,rng,.error .internal⟩
      else
        match applyMacs P t.macKeys t.cookie now.ticks (out.take handshakeResponseLen) with
        | .error e => ⟨t,out,rng,.error e⟩
        | .ok (mac1,msg) =>
          (⟨t.commitResponse now.ticks mac1 consumed.timestamp keys,
            msg ++ out.drop handshakeResponseLen,rng,.ok handshakeResponseLen⟩ :
              Outcome P ℕ).emit .reply

def receiveInitiation (t : Tunnel P) (now : Now) (remote : List UInt8) (underLoad : Bool)
    (m : HandshakeInitiation) (out : List UInt8) (rng : Entropy) : Outcome P Received :=
  if !verifyMac1 P t.macKeys m.alpha m.mac1 then
    ⟨t.countMac1Failure,out,rng,.error .invalidMac1⟩
  else if underLoad && !t.cookieJar.verifyMac2 P remote m.beta m.mac2 then
    t.replyCookie now remote m.senderIndex m.mac1 out rng
  else
    match consumeInitiation P t.constants t.localStatic t.localPublic t.peerPublic
      t.precomputedSs m with
    | .error e => ⟨t.countAuthFailure,out,rng,.error e⟩
    | .ok consumed =>
      if t.timestampSeen consumed.timestamp then ⟨t,out,rng,.error .replayedTimestamp⟩
      else t.answerInitiation now consumed out rng

def commitCompletion (t : Tunnel P) (now : Ticks) (keys : SessionKeys) : Tunnel P :=
  {t with
    inflight := none
    previous := t.current
    current := some (Session.new keys now t.sessionsCreated)
    recvRekeyDone := false
    timers := {t.timers.noteHandshakeComplete with confirmKeepaliveDue := true}
    stats := {t.stats with
      handshakesCompleted := satAdd t.stats.handshakesCompleted 1
      lastHandshakeAt := some now}
    sessionsCreated := t.sessionsCreated+1}

def pendingFor (t : Tunnel P) (index : UInt32) : Option InFlightInitiation :=
  t.inflight.filter (fun i => i.localIndex == index)

def receiveResponse (t : Tunnel P) (now : Now) (remote : List UInt8) (underLoad : Bool)
    (m : HandshakeResponse) (out : List UInt8) (rng : Entropy) : Outcome P Received :=
  if !verifyMac1 P t.macKeys m.alpha m.mac1 then
    ⟨t.countMac1Failure,out,rng,.error .invalidMac1⟩
  else
    match t.pendingFor m.receiverIndex with
    | none => ⟨t,out,rng,.error .noPendingHandshake⟩
    | some inflight =>
      if underLoad && !t.cookieJar.verifyMac2 P remote m.beta m.mac2 then
        t.replyCookie now remote m.senderIndex m.mac1 out rng
      else
        match consumeResponse P inflight t.localStatic t.psk m with
        | .error e => ⟨t.countAuthFailure,out,rng,.error e⟩
        | .ok keys => ⟨t.commitCompletion now.ticks keys,out,rng,.ok .handshakeComplete⟩

def tryOpenCookie (t : Tunnel P) (now : Ticks) (m : CookieReply) (mac1 : Option (Bytes 16)) :
    Option LastCookie :=
  mac1.bind (fun m1 => (consumeCookieReply P t.macKeys m1 m now).toOption)

def storeCookie (t : Tunnel P) (cookie : LastCookie) : Tunnel P :=
  {t with
    cookie := some cookie
    stats := {t.stats with cookiesReceived := satAdd t.stats.cookiesReceived 1}}

def receiveCookieReply (t : Tunnel P) (now : Now) (m : CookieReply) (out : List UInt8)
    (rng : Entropy) : Outcome P Received :=
  if !(t.inflightHas m.receiverIndex || (t.sessionWithIndex m.receiverIndex).isSome) then
    ⟨t,out,rng,.error .unknownReceiverIndex⟩
  else
    match (t.tryOpenCookie now.ticks m t.lastInitMac1).or
      (t.tryOpenCookie now.ticks m t.lastRespMac1) with
    | some cookie => ⟨t.storeCookie cookie,out,rng,.ok .cookieStored⟩
    | none =>
      if t.lastInitMac1.isNone && t.lastRespMac1.isNone then
        ⟨t,out,rng,.error .noPendingHandshake⟩
      else ⟨t.countAuthFailure,out,rng,.error .invalidCookie⟩

def promote (t : Tunnel P) (now : Ticks) : Tunnel P :=
  {t with
    previous := t.current
    current := t.next
    next := none
    recvRekeyDone := false
    inflight := none
    timers := t.timers.noteHandshakeComplete
    stats := {t.stats with
      handshakesCompleted := satAdd t.stats.handshakesCompleted 1
      lastHandshakeAt := some now}}

def recvRekey (t : Tunnel P) (now : Ticks) : Bool :=
  !t.recvRekeyDone &&
    match t.current with
    | none => false
    | some s => s.keys.isInitiator && rekeyAfterTimeRecv ≤ s.age now

def armRecvRekey (t : Tunnel P) (now : Ticks) : Tunnel P :=
  if t.recvRekey now then
    {t with timers := {t.timers with rekeyDue := true}, recvRekeyDone := true}
  else t

def noteReceived (t : Tunnel P) (now : Ticks) (n : ℕ) : Tunnel P :=
  {t with
    timers := t.timers.noteRx now (n == 0)
    stats := {t.stats with
      rxTransport := satAdd t.stats.rxTransport 1
      rxBytes := satAdd t.stats.rxBytes n
      rxKeepalives := if n = 0 then satAdd t.stats.rxKeepalives 1 else t.stats.rxKeepalives}}

/-- Everything that follows a successful open and replay check. -/
def commitTransport (t : Tunnel P) (now : Ticks) (slot : Slot) (session : Session)
    (replay : ReplayWindow) (n : ℕ) : Tunnel P :=
  let t := t.setSlot {session with replay := replay, confirmed := true} slot
  let t := if !session.confirmed && slot == .next then t.promote now else t
  (t.armRecvRekey now).noteReceived now n

def handleTransport (C : ChaChaImpl) (t : Tunnel P) (now : Now) (msg : TransportData)
    (out : List UInt8) (rng : Entropy) : Outcome P Received :=
  match t.sessionWithIndex msg.receiverIndex with
  | none => ⟨t,out,rng,.error .unknownReceiverIndex⟩
  | some slot =>
    if rejectAfterMessages ≤ msg.counter then ⟨t,out,rng,.error .expired⟩
    else
      match t.slot slot with
      | none => ⟨t,out,rng,.error .internal⟩
      | some session =>
        if rejectAfterTime ≤ session.age now.ticks then ⟨t,out,rng,.error .expired⟩
        else if !session.replay.check msg.counter then
          ⟨t.countReplay,out,rng,.error .replay⟩
        else
          match openWith P C session.keys.recv (nonceFromCounter msg.counter) []
            msg.ciphertext out with
          | (.error .bufferTooSmall,out) => ⟨t,out,rng,.error .bufferTooSmall⟩
          | (.error e,out) => ⟨t.countAuthFailure,out,rng,.error e⟩
          | (.ok n,out) =>
            let accepted := session.replay.accept msg.counter
            if !accepted.2 then
              ⟨t,List.replicate (min n out.length) 0 ++ out.drop n,rng,.error .internal⟩
            else
              let t := t.commitTransport now.ticks slot session accepted.1 n
              if n = 0 then ⟨t,out,rng,.ok .keepalive⟩
              else if n ≤ out.length then ⟨t,out,rng,.ok (.data (out.take n))⟩
              else ⟨t,out,rng,.error .internal⟩

def decapsulateAt (C : ChaChaImpl) (t : Tunnel P) (now : Now) (remote : List UInt8)
    (underLoad : Bool) (datagram out : List UInt8) (rng : Entropy) : Outcome P Received :=
  match parse datagram with
  | .error e => ⟨t,out,rng,.error e⟩
  | .ok (.handshakeInitiation m) => t.receiveInitiation now remote underLoad m out rng
  | .ok (.handshakeResponse m) => t.receiveResponse now remote underLoad m out rng
  | .ok (.cookieReply m) => t.receiveCookieReply now m out rng
  | .ok (.transportData m) => t.handleTransport C now m out rng

def decapsulate (C : ChaChaImpl) (t : Tunnel P) (now : Now) (remote : List UInt8)
    (underLoad : Bool) (datagram out : List UInt8) (rng : Entropy) : Outcome P Received :=
  (t.clampNow now).1.decapsulateAt C (t.clampNow now).2 remote underLoad datagram out rng

end Tunnel

end WireGuard
