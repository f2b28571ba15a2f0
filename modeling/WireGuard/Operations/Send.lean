import WireGuard.Tunnel

/-!
# Sending: initiations, keepalives and payloads

Every operation returns the tunnel, the caller's buffer and the rest of the
entropy beside its result, so that what a failed call leaves behind can be
read off. After `clampNow` the reading handed on has `ticks = lastNow`.
-/

set_option autoImplicit false

namespace WireGuard
open ByteString

structure Outcome (P : Primitives) (α : Type) where
  tunnel : Tunnel P
  out : List UInt8
  rng : Entropy
  result : Except Error α

inductive Encapsulated where
  | transport (wire : List UInt8)
  | handshakeInitiation (wire : List UInt8)
  deriving DecidableEq

variable {P : Primitives}

/-- Hand out the first `n` bytes of the buffer, as a step that got `n` as its
result does last. -/
def Outcome.emit {α : Type} (o : Outcome P ℕ) (f : List UInt8 → α) : Outcome P α :=
  match o.result with
  | .error e => ⟨o.tunnel,o.out,o.rng,.error e⟩
  | .ok n =>
    if n ≤ o.out.length then ⟨o.tunnel,o.out,o.rng,.ok (f (o.out.take n))⟩
    else ⟨o.tunnel,o.out,o.rng,.error .internal⟩

namespace Tunnel

def nextTimestamp (t : Tunnel P) (now : Now) : Tai64N :=
  match t.lastSentTai64n with
  | some last => if now.tai64n ≤ last then last.tick else now.tai64n
  | none => now.tai64n

def drawJitter (timerDriven : Bool) (rng : Entropy) : ℕ × Entropy :=
  if timerDriven then
    match rng.fill 8 with
    | (none,rng) => (0,rng)
    | (some j,rng) => (fromLe j.toList%satAdd rekeyTimeoutJitterMax 1,rng)
  else (0,rng)

def commitInitiation (t : Tunnel P) (now : Ticks) (timestamp : Tai64N) (mac1 : Bytes 16)
    (inflight : InFlightInitiation) (jitter : ℕ) : Tunnel P :=
  {t with
    lastSentTai64n := some timestamp
    lastInitMac1 := some mac1
    inflight := some inflight
    timers := t.timers.noteInitiationTx now jitter
    stats := {t.stats with handshakesInitiated := satAdd t.stats.handshakesInitiated 1}}

def sendInitiation (t : Tunnel P) (now : Now) (out : List UInt8) (rng : Entropy)
    (timerDriven : Bool) : Outcome P ℕ :=
  match t.drawHandshake rng with
  | (.error e,rng) => ⟨t,out,rng,.error e⟩
  | (.ok (localIndex,eph),rng) =>
    let (jitter,rng) := drawJitter timerDriven rng
    let timestamp := t.nextTimestamp now
    match createInitiation P t.constants t.localPublic t.peerPublic t.precomputedSs localIndex
      eph timestamp out with
    | .error e => ⟨t,out,rng,.error e⟩
    | .ok (inflight,out) =>
      if out.length < handshakeInitiationLen then ⟨t,out,rng,.error .internal⟩
      else
        match applyMacs P t.macKeys t.cookie now.ticks (out.take handshakeInitiationLen) with
        | .error e => ⟨t,out,rng,.error e⟩
        | .ok (mac1,msg) =>
          ⟨t.commitInitiation now.ticks timestamp mac1 inflight jitter,
            msg ++ out.drop handshakeInitiationLen,rng,.ok handshakeInitiationLen⟩

/-- The send-path rekey rule, on the session as it is after the counter was taken. -/
def sendRekey (t : Tunnel P) (now : Ticks) : Bool :=
  match t.current with
  | none => false
  | some s => rekeyAfterMessages ≤ s.sendCounter ||
      (s.keys.isInitiator && rekeyAfterTime ≤ s.age now)

def armSendRekey (t : Tunnel P) (now : Ticks) : Tunnel P :=
  if t.sendRekey now then {t with timers := {t.timers with rekeyDue := true}} else t

def noteKeepaliveSent (t : Tunnel P) (now : Ticks) : Tunnel P :=
  {t with
    timers := t.timers.noteKeepaliveTx now
    stats := {t.stats with
      txKeepalives := satAdd t.stats.txKeepalives 1
      txTransport := satAdd t.stats.txTransport 1}}

def noteTransportSent (t : Tunnel P) (now : Ticks) (payloadLen : ℕ) : Tunnel P :=
  {t with
    timers :=
      if payloadLen = 0 then t.timers.noteKeepaliveTx now else t.timers.noteDataTx now
    stats := {t.stats with
      txKeepalives :=
        if payloadLen = 0 then satAdd t.stats.txKeepalives 1 else t.stats.txKeepalives
      txTransport := satAdd t.stats.txTransport 1
      txBytes := satAdd t.stats.txBytes payloadLen}}

def sendKeepalive (C : ChaChaImpl) (t : Tunnel P) (now : Now) (out : List UInt8)
    (rng : Entropy) : Outcome P (List UInt8) :=
  if out.length < transportOverhead then ⟨t,out,rng,.error .bufferTooSmall⟩
  else
    match t.current with
    | none => ⟨t,out,rng,.error .internal⟩
    | some session =>
      match session.nextCounter with
      | .error e => ⟨t,out,rng,.error e⟩
      | .ok (counter,session) =>
        let t := {t with current := some session}
        match writeTransportHeader out session.keys.peerIndex counter with
        | .error e => ⟨t,out,rng,.error e⟩
        | .ok out =>
          if out.length < 16 then ⟨t,out,rng,.error .internal⟩
          else
            match sealInPlaceWith P C session.keys.send (nonceFromCounter counter) [] 0
              (out.drop 16) with
            | (.error e,body) => ⟨t,out.take 16 ++ body,rng,.error e⟩
            | (.ok _,body) =>
              let out := out.take 16 ++ body
              let t := t.noteKeepaliveSent now.ticks
              if t.current.isNone then ⟨t,out,rng,.error .internal⟩
              else
                let t := t.armSendRekey now.ticks
                if transportOverhead ≤ out.length then
                  ⟨t,out,rng,.ok (out.take transportOverhead)⟩
                else ⟨t,out,rng,.error .internal⟩

def clearGaveUp (t : Tunnel P) : Tunnel P :=
  {t with timers := {t.timers with gaveUp := false}}

def touchAttempt (t : Tunnel P) (now : Ticks) : Tunnel P :=
  {t with timers := {t.timers with attemptStarted := some now}}

def restartAttempt (t : Tunnel P) : Tunnel P :=
  {t with timers := {t.timers with attemptStarted := none}}

/-- The branch of `encapsulate` without a usable session, once `gaveUp` is cleared. -/
def encapsulateStart (t : Tunnel P) (now : Now) (out : List UInt8) (rng : Entropy) :
    Outcome P Encapsulated :=
  if t.inflight.isSome then ⟨t.touchAttempt now.ticks,out,rng,.error .notEstablished⟩
  else if !t.timers.initiationAllowed now.ticks then ⟨t,out,rng,.error .notEstablished⟩
  else (t.restartAttempt.sendInitiation now out rng false).emit .handshakeInitiation

/-- The branch of `encapsulate` that seals the payload on the current session. -/
def encapsulateSeal (C : ChaChaImpl) (t : Tunnel P) (now : Now) (payload : Payload)
    (out : List UInt8) (rng : Entropy) : Outcome P Encapsulated :=
  let padded := paddedLen payload.val.length t.mtu
  let total := satAdd padded transportOverhead
  if out.length < total then ⟨t,out,rng,.error .bufferTooSmall⟩
  else
    match t.current with
    | none => ⟨t,out,rng,.error .internal⟩
    | some session =>
      match session.nextCounter with
      | .error e => ⟨t,out,rng,.error e⟩
      | .ok (counter,session) =>
        let t := {t with current := some session}
        match writeTransportHeader out session.keys.peerIndex counter with
        | .error e => ⟨t,out,rng,.error e⟩
        | .ok out =>
          if out.length < satAdd 16 padded then ⟨t,out,rng,.error .internal⟩
          else if padded < payload.val.length then ⟨t,out,rng,.error .internal⟩
          else
            let out := out.take 16 ++ payload.val ++
              List.replicate (padded-payload.val.length) 0 ++ out.drop (16+padded)
            if out.length < 16 then ⟨t,out,rng,.error .internal⟩
            else
              match sealInPlaceWith P C session.keys.send (nonceFromCounter counter) [] padded
                (out.drop 16) with
              | (.error e,body) => ⟨t,out.take 16 ++ body,rng,.error e⟩
              | (.ok sealed,body) =>
                let out := out.take 16 ++ body
                if satAdd sealed 16 ≠ total then ⟨t,out,rng,.error .internal⟩
                else
                  let t := t.noteTransportSent now.ticks payload.val.length
                  if t.current.isNone then ⟨t,out,rng,.error .internal⟩
                  else
                    let t := t.armSendRekey now.ticks
                    if total ≤ out.length then ⟨t,out,rng,.ok (.transport (out.take total))⟩
                    else ⟨t,out,rng,.error .internal⟩

def encapsulateAt (C : ChaChaImpl) (t : Tunnel P) (now : Now) (payload : Payload)
    (out : List UInt8) (rng : Entropy) : Outcome P Encapsulated :=
  if !t.currentUsable now.ticks then t.clearGaveUp.encapsulateStart now out rng
  else t.encapsulateSeal C now payload out rng

def encapsulate (C : ChaChaImpl) (t : Tunnel P) (now : Now) (payload : Payload)
    (out : List UInt8) (rng : Entropy) : Outcome P Encapsulated :=
  (t.clampNow now).1.encapsulateAt C (t.clampNow now).2 payload out rng

def initiateHandshakeAt (t : Tunnel P) (now : Now) (out : List UInt8) (rng : Entropy) :
    Outcome P (List UInt8) :=
  if !t.timers.initiationAllowed now.ticks then ⟨t,out,rng,.error .handshakeRateLimited⟩
  else (t.clearGaveUp.restartAttempt.sendInitiation now out rng false).emit id

def initiateHandshake (t : Tunnel P) (now : Now) (out : List UInt8) (rng : Entropy) :
    Outcome P (List UInt8) :=
  (t.clampNow now).1.initiateHandshakeAt (t.clampNow now).2 out rng

end Tunnel

end WireGuard
