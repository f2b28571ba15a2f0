import WireGuard.Operations.Receive

/-!
# Timer-driven work

`poll` performs at most one action. Its blocks run in order; each ends the call
or hands the tunnel on to the next, so that reaching a block is a statement
about the blocks before it. `nextWake` announces the earliest instant at which
one of them may have work.
-/

set_option autoImplicit false

namespace WireGuard

inductive SendReason where
  | handshakeInitiation
  | handshakeRetransmit
  | keepalive
  | persistentKeepalive
  deriving DecidableEq, Repr

inductive PollOutput where
  | send (wire : List UInt8) (reason : SendReason)
  | handshakeExpired
  | sessionsExpired
  | idle
  deriving DecidableEq

inductive Flow (P : Primitives) where
  | done (o : Outcome P PollOutput)
  | next (t : Tunnel P)

variable {P : Primitives}

def Flow.andThen (f : Flow P) (k : Tunnel P → Flow P) : Flow P :=
  match f with
  | .done o => .done o
  | .next t => k t

def Outcome.sendAs (o : Outcome P (List UInt8)) (reason : SendReason) : Outcome P PollOutput :=
  ⟨o.tunnel,o.out,o.rng,o.result.map (fun wire => .send wire reason)⟩

namespace Tunnel

def expireNext (t : Tunnel P) (now : Ticks) : Tunnel P :=
  match t.next with
  | none => t
  | some s => if rejectAfterTime ≤ s.age now then {t with next := none} else t

def pollDiscard (t : Tunnel P) (now : Now) (out : List UInt8) (rng : Entropy) : Flow P :=
  match t.newestSessionCreated with
  | none => .next t
  | some newest =>
    if sessionDiscardTime ≤ now.ticks.since newest then
      .done ⟨t.discardAllSessions,out,rng,.ok .sessionsExpired⟩
    else .next t

def retransmitDue (t : Tunnel P) (now : Ticks) : Bool :=
  t.inflight.isSome &&
    match t.timers.retransmitAt with
    | none => false
    | some at' => at' ≤ now

def abandon (t : Tunnel P) : Tunnel P :=
  {t with inflight := none, timers := t.timers.noteGaveUp}

def pollRetransmit (t : Tunnel P) (now : Now) (out : List UInt8) (rng : Entropy) : Flow P :=
  if t.retransmitDue now.ticks then
    if t.timers.attemptExhausted now.ticks then
      .done ⟨t.abandon,out,rng,.ok .handshakeExpired⟩
    else .done ((t.sendInitiation now out rng true).emit (fun w => .send w .handshakeRetransmit))
  else .next t

def satisfyRekey (t : Tunnel P) : Tunnel P :=
  {t with timers := {t.timers with rekeyDue := false}}

def pollRekey (t : Tunnel P) (now : Now) (out : List UInt8) (rng : Entropy) : Flow P :=
  if t.timers.rekeyDue then
    if t.inflight.isSome then .next t.satisfyRekey
    else if t.timers.initiationAllowed now.ticks then
      .done ((t.restartAttempt.sendInitiation now out rng true).emit
        (fun w => .send w .handshakeInitiation))
    else .next t
  else .next t

def pollDeadPeer (t : Tunnel P) (now : Now) (out : List UInt8) (rng : Entropy) : Flow P :=
  if t.inflight.isNone && t.timers.deadPeerDue now.ticks &&
      t.timers.initiationAllowed now.ticks then
    .done ((t.restartAttempt.sendInitiation now out rng true).emit
      (fun w => .send w .handshakeInitiation))
  else .next t

def dropConfirm (t : Tunnel P) : Tunnel P :=
  {t with timers := {t.timers with confirmKeepaliveDue := false}}

def pollConfirm (C : ChaChaImpl) (t : Tunnel P) (now : Now) (out : List UInt8)
    (rng : Entropy) : Flow P :=
  if t.timers.confirmKeepaliveDue then
    if t.currentUsable now.ticks then .done ((t.sendKeepalive C now out rng).sendAs .keepalive)
    else .next t.dropConfirm
  else .next t

def disarmPassive (t : Tunnel P) : Tunnel P :=
  {t with timers := {t.timers with lastDataRx := none}}

def pollPassive (C : ChaChaImpl) (t : Tunnel P) (now : Now) (out : List UInt8)
    (rng : Entropy) : Flow P :=
  if t.timers.passiveKeepaliveDue now.ticks then
    if t.currentUsable now.ticks then .done ((t.sendKeepalive C now out rng).sendAs .keepalive)
    else .next t.disarmPassive
  else .next t

def intervalNs (interval : NonZeroU16) : ℕ := min (interval.get*1000000000) u64Max

def keepaliveBase (t : Tunnel P) : Ticks :=
  match t.timers.lastAnyTx with
  | some tx => tx
  | none =>
    match t.current with
    | some s => s.created
    | none => Ticks.zero

def pollPersistent (C : ChaChaImpl) (t : Tunnel P) (now : Now) (out : List UInt8)
    (rng : Entropy) : Outcome P PollOutput :=
  match t.persistentKeepalive with
  | none => ⟨t,out,rng,.ok .idle⟩
  | some interval =>
    if t.currentUsable now.ticks then
      if intervalNs interval ≤ now.ticks.since t.keepaliveBase then
        (t.sendKeepalive C now out rng).sendAs .persistentKeepalive
      else ⟨t,out,rng,.ok .idle⟩
    else if t.inflight.isNone && t.timers.initiationAllowed now.ticks &&
        t.timers.persistentReviveAllowed now.ticks (intervalNs interval) then
      (t.clearGaveUp.restartAttempt.sendInitiation now out rng true).emit
        (fun w => .send w .handshakeInitiation)
    else ⟨t,out,rng,.ok .idle⟩

def pollTimers (C : ChaChaImpl) (t : Tunnel P) (now : Now) (out : List UInt8)
    (rng : Entropy) : Flow P :=
  (Flow.next (t.expireNext now.ticks)).andThen fun t =>
  (t.pollDiscard now out rng).andThen fun t =>
  (t.pollRetransmit now out rng).andThen fun t =>
  (t.pollRekey now out rng).andThen fun t =>
  (t.pollDeadPeer now out rng).andThen fun t =>
  (t.pollConfirm C now out rng).andThen fun t =>
  t.pollPassive C now out rng

def pollAt (C : ChaChaImpl) (t : Tunnel P) (now : Now) (out : List UInt8) (rng : Entropy) :
    Outcome P PollOutput :=
  match t.pollTimers C now out rng with
  | .done o => o
  | .next t => t.pollPersistent C now out rng

def poll (C : ChaChaImpl) (t : Tunnel P) (now : Now) (out : List UInt8) (rng : Entropy) :
    Outcome P PollOutput :=
  (t.clampNow now).1.pollAt C (t.clampNow now).2 out rng

def wakeImmediate (t : Tunnel P) : Option Ticks :=
  if t.timers.rekeyDue && t.inflight.isNone then some t.timers.pacingAt
  else if t.timers.confirmKeepaliveDue then some Ticks.zero
  else none

def wakeRetransmit (t : Tunnel P) : Option Ticks :=
  if t.inflight.isSome then t.timers.retransmitAt else none

def wakeDeadPeer (t : Tunnel P) : Option Ticks :=
  if t.inflight.isNone then t.timers.deadPeerAt.map (fun at' => max at' t.timers.pacingAt)
  else none

def wakeDiscard (t : Tunnel P) : Option Ticks :=
  t.newestSessionCreated.map (fun c => c.addNanos sessionDiscardTime)

def wakeNextExpire (t : Tunnel P) : Option Ticks :=
  t.next.map (fun s => s.created.addNanos rejectAfterTime)

def wakeRevive (t : Tunnel P) (interval : NonZeroU16) : Option Ticks :=
  if t.inflight.isNone then
    some (if t.timers.gaveUp then
        match t.timers.lastInitiationTx with
        | none => Ticks.zero
        | some last => last.addNanos (intervalNs interval)
      else t.timers.pacingAt)
  else none

def wakePersistent (t : Tunnel P) : Option Ticks :=
  match t.persistentKeepalive with
  | none => none
  | some interval =>
    match t.current with
    | some s =>
      if s.usableForSend t.lastNow then
        some ((t.timers.lastAnyTx.getD s.created).addNanos (intervalNs interval))
      else t.wakeRevive interval
    | none => t.wakeRevive interval

def nextWake (t : Tunnel P) : Option Ticks :=
  ([t.wakeImmediate,t.wakeRetransmit,t.wakeDeadPeer,t.timers.passiveKeepaliveAt,
    t.wakeDiscard,t.wakeNextExpire,t.wakePersistent].filterMap id).min?

end Tunnel

end WireGuard
