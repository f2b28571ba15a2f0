import WireGuard.Run

/-!
# Atomic actions of a tunnel

Everything an operation does to a tunnel is a sequence of the actions below,
each taken only when its guard holds. After the clock action the current time
is `lastNow`, so no other action needs to be told the time.
-/

set_option autoImplicit false

namespace WireGuard
open ByteString

inductive Act where
  | clock (now : Ticks)
  | mtu (m : Option NonZeroU16)
  | count (s : Stats)
  | jar (j : CookieJar)
  | cookie (c : LastCookie)
  | initiate (now : Now) (index : UInt32) (eph : Bytes 32) (jitter : ℕ)
  | respond (m : HandshakeInitiation) (consumed : ConsumedInitiation) (index : UInt32)
      (eph : Bytes 32)
  | complete (m : HandshakeResponse) (keys : SessionKeys)
  | transmit (payloadLen : Option ℕ)
  | accept (slot : Slot) (counter n : ℕ)
  | expireNext
  | discard
  | abandon
  | satisfyRekey
  | dropConfirm
  | disarmPassive
  | clearGaveUp
  | touchAttempt
  | restartAttempt

namespace Tunnel

variable {P : Primitives}

def answerKeys (t : Tunnel P) (consumed : ConsumedInitiation) (index : UInt32)
    (eph : Bytes 32) : SessionKeys :=
  responseKeys (P := P) (responderView P consumed t.psk (clampScalar eph)) index
    consumed.peerIndex

def answerAlpha (t : Tunnel P) (consumed : ConsumedInitiation) (index : UInt32)
    (eph : Bytes 32) : List UInt8 :=
  (responderView P consumed t.psk (clampScalar eph)).alpha index consumed.peerIndex

end Tunnel

namespace Act

variable {P : Primitives}

def enabled (t : Tunnel P) : Act → Prop
  | clock now => t.lastNow ≤ now
  | mtu _ => True
  | count _ => True
  | jar _ => True
  | cookie _ => True
  | initiate now index _ _ => now.ticks = t.lastNow ∧ t.indexClash index = false ∧
      (t.timers.initiationAllowed t.lastNow = true ∨ t.retransmitDue t.lastNow = true)
  | respond m consumed index _ => verifyMac1 P t.macKeys m.alpha m.mac1 = true ∧
      consumeInitiation P t.constants t.localStatic t.localPublic t.peerPublic t.precomputedSs m =
        .ok consumed ∧ t.timestampSeen consumed.timestamp = false ∧ t.indexClash index = false
  | complete m keys => ∃ i, t.inflight = some i ∧ i.localIndex = m.receiverIndex ∧
      consumeResponse P i t.localStatic t.psk m = .ok keys
  | transmit _ => t.currentUsable t.lastNow = true
  | accept slot counter _ => ∃ s, t.slot slot = some s ∧ counter < rejectAfterMessages ∧
      s.age t.lastNow < rejectAfterTime ∧ s.replay.check counter = true
  | expireNext => True
  | discard => True
  | abandon => t.retransmitDue t.lastNow = true ∧ t.timers.attemptExhausted t.lastNow = true
  | satisfyRekey => t.inflight.isSome = true
  | dropConfirm => t.currentUsable t.lastNow = false
  | disarmPassive => t.currentUsable t.lastNow = false
  | clearGaveUp => True
  | touchAttempt => t.inflight.isSome = true
  | restartAttempt => t.timers.initiationAllowed t.lastNow = true

def apply (t : Tunnel P) : Act → Tunnel P
  | clock now => {t with lastNow := now}
  | mtu m => t.setMtu m
  | count s => {t with stats := s}
  | jar j => t.setJar j
  | cookie c => t.storeCookie c
  | initiate now index eph jitter => t.commitInitiation t.lastNow (t.nextTimestamp now)
      (mac P t.macKeys.mac1Send.toList [(t.initiationView now eph).alpha index])
      (t.initiationState now index eph) jitter
  | respond _ consumed index eph => t.commitResponse t.lastNow
      (mac P t.macKeys.mac1Send.toList [t.answerAlpha consumed index eph]) consumed.timestamp
      (t.answerKeys consumed index eph)
  | complete _ keys => t.commitCompletion t.lastNow keys
  | transmit payloadLen => t.commitSeal t.lastNow payloadLen
  | accept slot counter n =>
    match t.slot slot with
    | some s => t.commitTransport t.lastNow slot s (s.replay.accept counter).1 n
    | none => t
  | expireNext => t.expireNext t.lastNow
  | discard => t.discardAllSessions
  | abandon => t.abandon
  | satisfyRekey => t.satisfyRekey
  | dropConfirm => t.dropConfirm
  | disarmPassive => t.disarmPassive
  | clearGaveUp => t.clearGaveUp
  | touchAttempt => t.touchAttempt t.lastNow
  | restartAttempt => t.restartAttempt

def events (t : Tunnel P) : Act → List Event
  | initiate now _ _ _ => [.initiated (t.nextTimestamp now)]
  | respond _ consumed index eph => [.answered consumed.timestamp,
      .created t.sessionsCreated (t.answerKeys consumed index eph) t.lastNow]
  | complete _ keys => [.created t.sessionsCreated keys t.lastNow]
  | transmit _ =>
    match t.current with
    | some s => [.sent s.tag s.sendCounter t.lastNow]
    | none => []
  | accept slot counter _ =>
    match t.slot slot with
    | some s => [.accepted s.tag counter t.lastNow]
    | none => []
  | _ => []

end Act

def acts (P : Primitives) : Guarded (Tunnel P) Act Event := ⟨Act.enabled,Act.apply,Act.events⟩

abbrev Path {P : Primitives} (t : Tunnel P) (es : List Event) (t' : Tunnel P) : Prop :=
  Guarded.Path (acts P) t es t'

variable {P : Primitives}

theorem path_act {t t' : Tunnel P} {es : List Event} (a : Act) (ha : a.enabled t)
    (he : a.events t = es) (ht : a.apply t = t') : Path t es t' := by
  subst he ht
  exact Guarded.Path.single (G := acts P) a ha

theorem path_silent {t t' : Tunnel P} {es : List Event} (a : Act) (ha : a.enabled t)
    (he : a.events t = []) (hp : Path (a.apply t) es t') : Path t es t' :=
  Guarded.Path.silent (G := acts P) a ha he hp

theorem path_refl (t : Tunnel P) : Path t [] t := Guarded.Path.refl t

namespace Tunnel

theorem commitSeal_frame (t : Tunnel P) (now : Ticks) (payloadLen : Option ℕ) :
    t.commitSeal now payloadLen = {t with
      current := (t.commitSeal now payloadLen).current
      timers := (t.commitSeal now payloadLen).timers
      stats := (t.commitSeal now payloadLen).stats} := by
  unfold commitSeal armSendRekey
  cases payloadLen <;> dsimp only <;> split <;> rfl

theorem commitTransport_frame (t : Tunnel P) (now : Ticks) (slot : Slot) (s : Session)
    (replay : ReplayWindow) (n : ℕ) :
    t.commitTransport now slot s replay n = {t with
      inflight := (t.commitTransport now slot s replay n).inflight
      previous := (t.commitTransport now slot s replay n).previous
      current := (t.commitTransport now slot s replay n).current
      next := (t.commitTransport now slot s replay n).next
      timers := (t.commitTransport now slot s replay n).timers
      recvRekeyDone := (t.commitTransport now slot s replay n).recvRekeyDone
      stats := (t.commitTransport now slot s replay n).stats} := by
  unfold commitTransport noteReceived armRecvRekey promote
  cases slot <;> dsimp only [setSlot] <;> split_ifs <;> rfl

theorem expireNext_frame (t : Tunnel P) (now : Ticks) :
    t.expireNext now = {t with next := (t.expireNext now).next} := by
  unfold expireNext
  split
  · rfl
  · split <;> rfl

theorem traffic_frame {β : Type} (f : Tunnel P → β)
    (hf : ∀ (t : Tunnel P) i p c n tm r st,
      f {t with
        inflight := i
        previous := p
        current := c
        next := n
        timers := tm
        recvRekeyDone := r
        stats := st} = f t) (t : Tunnel P) :
    (∀ payloadLen, f ((Act.transmit payloadLen).apply t) = f t) ∧
    (∀ slot counter n, f ((Act.accept slot counter n).apply t) = f t) ∧
    f (Act.expireNext.apply t) = f t := by
  refine ⟨fun payloadLen => ?_,fun slot counter n => ?_,?_⟩
  · dsimp only [Act.apply]
    rw [commitSeal_frame]
    exact hf t ..
  · dsimp only [Act.apply]
    split
    · rw [commitTransport_frame]
      exact hf t ..
    · rfl
  · dsimp only [Act.apply]
    rw [expireNext_frame]
    exact hf t ..

theorem apply_identity (t : Tunnel P) (a : Act) : (a.apply t).toIdentity = t.toIdentity := by
  obtain ⟨hseal,haccept,hexpire⟩ := traffic_frame Tunnel.toIdentity (fun _ _ _ _ _ _ _ _ => rfl) t
  cases a with
  | transmit payloadLen => exact hseal payloadLen
  | accept slot counter n => exact haccept slot counter n
  | expireNext => exact hexpire
  | _ => rfl

theorem apply_lastSentTai64n (t : Tunnel P) (a : Act)
    (ha : ∀ now index eph jitter, a ≠ .initiate now index eph jitter) :
    (a.apply t).lastSentTai64n = t.lastSentTai64n := by
  obtain ⟨hseal,haccept,hexpire⟩ :=
    traffic_frame Tunnel.lastSentTai64n (fun _ _ _ _ _ _ _ _ => rfl) t
  cases a with
  | initiate now index eph jitter => exact absurd rfl (ha now index eph jitter)
  | transmit payloadLen => exact hseal payloadLen
  | accept slot counter n => exact haccept slot counter n
  | expireNext => exact hexpire
  | _ => rfl

theorem apply_greatestTimestamp (t : Tunnel P) (a : Act)
    (ha : ∀ m consumed index eph, a ≠ .respond m consumed index eph) :
    (a.apply t).greatestTimestamp = t.greatestTimestamp := by
  obtain ⟨hseal,haccept,hexpire⟩ :=
    traffic_frame Tunnel.greatestTimestamp (fun _ _ _ _ _ _ _ _ => rfl) t
  cases a with
  | respond m consumed index eph => exact absurd rfl (ha m consumed index eph)
  | transmit payloadLen => exact hseal payloadLen
  | accept slot counter n => exact haccept slot counter n
  | expireNext => exact hexpire
  | _ => rfl

theorem sendInitiation_emit {α : Type} (t : Tunnel P) (now : Now) (out : List UInt8)
    (rng : Entropy) (timerDriven : Bool) (f : List UInt8 → α) (hn : now.ticks = t.lastNow) :
    (∃ rest e, (t.sendInitiation now out rng timerDriven).emit f = ⟨t,out,rest,.error e⟩) ∨
    ∃ index eph jitter rest, t.indexClash index = false ∧
      (t.sendInitiation now out rng timerDriven).emit f =
        ⟨(Act.initiate now index eph jitter).apply t,
          t.withMacs t.lastNow ((t.initiationView now eph).alpha index) ++
            out.drop handshakeInitiationLen,rest,
          .ok (f (t.withMacs t.lastNow ((t.initiationView now eph).alpha index)))⟩ := by
  rw [sendInitiation_eq]
  split
  · exact Or.inl ⟨_,_,rfl⟩
  · rename_i index eph rest hd
    dsimp only
    split
    · exact Or.inl ⟨_,_,rfl⟩
    split
    · exact Or.inl ⟨_,_,rfl⟩
    · refine Or.inr ⟨index,eph,(drawJitter timerDriven rest).1,(drawJitter timerDriven rest).2,
        drawHandshake_fresh hd,?_⟩
      simp only [Outcome.emit]
      rw [if_pos (by simp [handshakeInitiationLen]),
        List.take_left' (by simp [handshakeInitiationLen]),hn]
      rfl

theorem currentUsable_some {t : Tunnel P} {now : Ticks} (h : t.currentUsable now = true) :
    ∃ s, t.current = some s ∧ s.usableForSend now = true := by
  unfold currentUsable at h
  split at h
  · cases h
  · rename_i s hs
    exact ⟨s,hs,h⟩

theorem sendKeepalive_cases (C : ChaChaImpl) (t : Tunnel P) (now : Now) (out : List UInt8)
    (rng : Entropy) (hn : now.ticks = t.lastNow) (hu : t.currentUsable t.lastNow = true) :
    t.sendKeepalive C now out rng = ⟨t,out,rng,.error .bufferTooSmall⟩ ∨
    ∃ s, t.current = some s ∧ s.sendCounter < rejectAfterMessages ∧
      t.sendKeepalive C now out rng = ⟨(Act.transmit none).apply t,
        transportWire (P := P) C s [] ++ out.drop transportOverhead,rng,
        .ok (transportWire (P := P) C s [])⟩ := by
  obtain ⟨s,hc,hs⟩ := currentUsable_some hu
  have hlt := (Session.usableForSend_iff.mp hs).2.1
  rw [sendKeepalive_eq C now out rng hc hlt]
  split
  · exact Or.inl rfl
  · refine Or.inr ⟨s,hc,hlt,?_⟩
    rw [hn]
    rfl

theorem sendCounter_le_max {s : Session} (h : s.sendCounter < rejectAfterMessages) :
    s.sendCounter ≤ u64Max := by
  have : rejectAfterMessages < u64Max := by decide
  omega

end Tunnel

theorem sentEvents_eq (C : ChaChaImpl) (x : Transition P) (s : Session) (plain : List UInt8)
    (hc : x.before.current = some s) (hs : s.sendCounter < rejectAfterMessages) :
    sentEvents x (Tunnel.transportWire (P := P) C s plain) =
      [.sent s.tag s.sendCounter x.after.lastNow] := by
  simp only [sentEvents,Tunnel.parse_transportWire C s plain (Tunnel.sendCounter_le_max hs),hc]

theorem openTimestamp_eq {K : HandshakeConstants} {v : InitiationView} {initiator : Bytes 32}
    {timestamp : Tai64N} (h : v.Sealed P K initiator timestamp) :
    v.openTimestamp P K = some timestamp := by
  unfold InitiationView.openTimestamp
  rw [(InitiationView.opens_of_sealed h).timestamp]
  rfl

theorem initiationView_sealed (t : Tunnel P) (now : Now) (eph : Bytes 32) :
    (t.initiationView now eph).Sealed P t.constants t.localPublic (t.nextTimestamp now) :=
  initiatorView_sealed P _ _ _ _ _ _

theorem initiatedEvents_eq (x : Transition P) (t : Tunnel P) (now : Now) (index : UInt32)
    (eph : Bytes 32) (jitter : ℕ)
    (ha : x.after = (Act.initiate now index eph jitter).apply t) :
    initiatedEvents x (t.withMacs t.lastNow ((t.initiationView now eph).alpha index)) =
      [.initiated (t.nextTimestamp now)] := by
  obtain ⟨mac2,hp⟩ := Tunnel.parse_initiation_withMacs t t.lastNow (t.initiationView now eph) index
  have hi : x.after.inflight = some (t.initiationState now index eph) := by rw [ha]; rfl
  have hv : ∀ m1 m2, sentView x.after (t.initiationState now index eph)
      ((t.initiationView now eph).message index m1 m2) = t.initiationView now eph := by
    intro m1 m2
    rw [ha]
    rfl
  have hk : x.after.constants = t.constants := by rw [ha]; rfl
  simp only [initiatedEvents,hp,hi,hv,hk,openTimestamp_eq (initiationView_sealed t now eph)]

end WireGuard
