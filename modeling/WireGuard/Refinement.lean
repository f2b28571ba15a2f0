import WireGuard.Acts

/-!
# Every operation is a path of actions

For each operation the state it leaves is reached from the state before it by
enabled actions, and the events of those actions are the events that the
transition shows. Whatever each action preserves, every run preserves.
-/

set_option autoImplicit false

namespace WireGuard
open ByteString

variable {P : Primitives}

theorem path_clamp {t t' : Tunnel P} {es : List Event} (now : Now)
    (h : Path (t.observe now) es t') : Path t es t' :=
  path_silent (.clock (max t.lastNow now.ticks)) (le_max_left _ _) rfl h

open Tunnel

theorem commitSeal_lastNow (t : Tunnel P) (now : Ticks) (payloadLen : Option ℕ) :
    (t.commitSeal now payloadLen).lastNow = t.lastNow := by
  rw [commitSeal_frame]

theorem commitTransport_lastNow (t : Tunnel P) (now : Ticks) (slot : Slot) (s : Session)
    (replay : ReplayWindow) (n : ℕ) :
    (t.commitTransport now slot s replay n).lastNow = t.lastNow := by
  rw [commitTransport_frame]

def Output.quiet : Output → Bool
  | .encapsulated (.error _) => true
  | .decapsulated (.error _) => true
  | .decapsulated (.ok .cookieStored) => true
  | .polled (.error _) => true
  | .polled (.ok .handshakeExpired) => true
  | .polled (.ok .sessionsExpired) => true
  | .polled (.ok .idle) => true
  | .initiated (.error _) => true
  | .none => true
  | _ => false

theorem eventsOf_quiet {x : Transition P} (h : x.output.quiet = true) : eventsOf x = [] := by
  obtain ⟨b,i,o,a⟩ := x
  dsimp only at h
  cases o with
  | encapsulated r => cases r <;> cases i <;> first | rfl | cases h
  | decapsulated r =>
    cases r with
    | error e => cases i <;> rfl
    | ok r => cases r <;> cases i <;> first | rfl | cases h
  | polled r =>
    cases r with
    | error e => cases i <;> rfl
    | ok r => cases r <;> cases i <;> first | rfl | cases h
  | initiated r => cases r <;> cases i <;> first | rfl | cases h
  | none => cases i <;> rfl

/-- What a call that may send can do behind the clock, when `plain` is what it
would seal: return nothing to send, or end with the action whose datagram it
returns. Only silent actions come before that. -/
inductive Emission (C : ChaChaImpl) (t : Tunnel P) (plain : List UInt8) :
    Output → Tunnel P → Prop
  | quiet {o : Output} {t' : Tunnel P} (hq : o.quiet = true) (hp : Path t [] t') :
      Emission C t plain o t'
  | initiation {o : Output} {u : Tunnel P} (now : Now) (index : UInt32) (eph : Bytes 32)
      (jitter : ℕ) (hp : Path t [] u) (ha : (Act.initiate now index eph jitter).enabled u)
      (h0 : o.transport? = none)
      (ho : o.initiation? = some (u.withMacs u.lastNow ((u.initiationView now eph).alpha index))) :
      Emission C t plain o ((Act.initiate now index eph jitter).apply u)
  | transport {o : Output} {u : Tunnel P} (s : Session) (payloadLen : Option ℕ)
      (hp : Path t [] u) (ht : t.current = some s) (hc : u.current = some s)
      (hu : u.currentUsable u.lastNow = true)
      (ho : o.transport? = some (transportWire (P := P) C s plain)) :
      Emission C t plain o ((Act.transmit payloadLen).apply u)

theorem Emission.after {C : ChaChaImpl} {t u t' : Tunnel P} {plain : List UInt8} {o : Output}
    (hp : Path t [] u) (hc : u.current = t.current) (h : Emission C u plain o t') :
    Emission C t plain o t' := by
  cases h with
  | quiet hq hp' => exact .quiet hq (hp.trans hp')
  | initiation now index eph jitter hp' ha h0 ho =>
    exact .initiation now index eph jitter (hp.trans hp') ha h0 ho
  | transport s payloadLen hp' ht hc' hu ho =>
    exact .transport s payloadLen (hp.trans hp') (hc.symm.trans ht) hc' hu ho

theorem emission_path {C : ChaChaImpl} {t : Tunnel P} {plain : List UInt8} {x : Transition P}
    (h : Emission C t plain x.output x.after) (hb : x.before.current = t.current) :
    Path t (eventsOf x) x.after := by
  generalize ho : x.output = o at h
  generalize ha : x.after = t' at h
  cases h with
  | quiet hq hp =>
    rw [eventsOf_quiet (by rw [ho]; exact hq)]
    exact hp
  | @initiation u now index eph jitter hp he h0 hi =>
    have hev : eventsOf x = [.initiated (u.nextTimestamp now)] := by
      simp only [eventsOf,ho,h0,hi]
      exact initiatedEvents_eq x u now index eph jitter ha
    rw [hev]
    exact hp.trans (path_act (.initiate now index eph jitter) he rfl rfl)
  | @transport u s payloadLen hp ht hc hu hi =>
    obtain ⟨s',hs',hus⟩ := currentUsable_some hu
    obtain rfl := Option.some.inj (hc.symm.trans hs')
    have hlt := (Session.usableForSend_iff.mp hus).2.1
    have hl : x.after.lastNow = u.lastNow := by
      rw [ha]
      exact commitSeal_lastNow _ _ _
    have hev : eventsOf x = [.sent s.tag s.sendCounter u.lastNow] := by
      simp only [eventsOf,ho,hi]
      rw [sentEvents_eq C x s plain (hb.trans ht) hlt,hl]
    rw [hev]
    refine hp.trans (path_act (.transmit payloadLen) hu ?_ rfl)
    simp only [Act.events,hc]

theorem initiation_emission {α : Type} (C : ChaChaImpl) {t : Tunnel P} {now : Now}
    (plain out : List UInt8) (rng : Entropy) (timerDriven : Bool) (f : List UInt8 → α)
    (g : Except Error α → Output) (hn : now.ticks = t.lastNow)
    (hp : t.timers.initiationAllowed t.lastNow = true ∨ t.retransmitDue t.lastNow = true)
    (hq : ∀ e, (g (.error e)).quiet = true)
    (hg : ∀ w, (g (.ok (f w))).transport? = none ∧ (g (.ok (f w))).initiation? = some w) :
    Emission C t plain (g ((t.sendInitiation now out rng timerDriven).emit f).result)
      ((t.sendInitiation now out rng timerDriven).emit f).tunnel := by
  obtain ⟨rest,e,h⟩ | ⟨index,eph,jitter,rest,hf,h⟩ :=
    sendInitiation_emit t now out rng timerDriven f hn
  · rw [h]
    exact .quiet (hq e) (path_refl t)
  · rw [h]
    exact .initiation now index eph jitter (path_refl t) ⟨hn,hf,hp⟩ (hg _).1 (hg _).2

theorem encapsulateStart_emission (C : ChaChaImpl) {t : Tunnel P} {now : Now}
    (plain out : List UInt8) (rng : Entropy) (hn : now.ticks = t.lastNow) :
    Emission C t plain (.encapsulated (t.encapsulateStart now out rng).result)
      (t.encapsulateStart now out rng).tunnel := by
  unfold encapsulateStart
  split
  · rename_i hi
    rw [hn]
    exact .quiet rfl (path_act .touchAttempt hi rfl rfl)
  split
  · exact .quiet rfl (path_refl t)
  · rename_i hp
    have hp' : t.timers.initiationAllowed t.lastNow = true := by simpa [hn] using hp
    refine Emission.after (path_act .restartAttempt hp' rfl rfl) rfl ?_
    exact initiation_emission (t := t.restartAttempt) C plain out rng false
      Encapsulated.handshakeInitiation .encapsulated hn (Or.inl hp') (fun _ => rfl)
      (fun _ => ⟨rfl,rfl⟩)

theorem encapsulateAt_emission (C : ChaChaImpl) {t : Tunnel P} {now : Now} (payload : Payload)
    (out : List UInt8) (rng : Entropy) (hn : now.ticks = t.lastNow) :
    Emission C t (t.stage payload)
      (.encapsulated (t.encapsulateAt C now payload out rng).result)
      (t.encapsulateAt C now payload out rng).tunnel := by
  unfold encapsulateAt
  cases hu : t.currentUsable now.ticks with
  | true =>
    rw [hn] at hu
    obtain ⟨s,hs,hus⟩ := currentUsable_some hu
    have hlt := (Session.usableForSend_iff.mp hus).2.1
    simp only [Bool.not_true,Bool.false_eq_true,if_false]
    rw [encapsulateSeal_eq C now payload out rng hs hlt,hn]
    split
    · exact .quiet rfl (path_refl t)
    · exact .transport s (some payload.val.length) (path_refl t) hs hs hu rfl
  | false =>
    simp only [Bool.not_false,if_true]
    exact Emission.after (path_act .clearGaveUp trivial rfl rfl) rfl
      (encapsulateStart_emission C (t := t.clearGaveUp) _ out rng hn)

theorem initiateHandshakeAt_emission (C : ChaChaImpl) {t : Tunnel P} {now : Now}
    (out : List UInt8) (rng : Entropy) (hn : now.ticks = t.lastNow) :
    Emission C t [] (.initiated (t.initiateHandshakeAt now out rng).result)
      (t.initiateHandshakeAt now out rng).tunnel := by
  unfold initiateHandshakeAt
  split
  · exact .quiet rfl (path_refl t)
  · rename_i hp
    have hp' : t.timers.initiationAllowed t.lastNow = true := by simpa [hn] using hp
    refine Emission.after (path_silent .clearGaveUp trivial rfl
      (path_act (t := t.clearGaveUp) .restartAttempt hp' rfl rfl)) rfl ?_
    exact initiation_emission (t := t.clearGaveUp.restartAttempt) C [] out rng false id .initiated
      hn (Or.inl hp') (fun _ => rfl) (fun _ => ⟨rfl,rfl⟩)

theorem path_count {t t' : Tunnel P} (ht : t' = {t with stats := t'.stats}) : Path t [] t' :=
  path_act (.count t'.stats) trivial rfl ht.symm

theorem eventsOf_received {x : Transition P} {now : Now} {remote datagram out : List UInt8}
    {underLoad : Bool} {rng : Entropy} {r : Received}
    (hi : x.input = .decapsulate now remote underLoad datagram out rng)
    (ho : x.output = .decapsulated (.ok r)) : eventsOf x = receivedEvents x datagram r := by
  simp only [eventsOf,ho,Output.transport?,Output.initiation?,hi]

theorem receivedEvents_delivered (x : Transition P) (datagram plain : List UInt8) :
    receivedEvents x datagram (delivered plain) = acceptedEvents x datagram := by
  unfold delivered
  split <;> rfl

theorem decapsulateAt_path (C : ChaChaImpl) {t : Tunnel P} {now : Now}
    (remote datagram out : List UInt8) (rng : Entropy) (hn : now.ticks = t.lastNow)
    {o : Outcome P Received} (hr : Receipt C t now remote datagram out rng o) (x : Transition P)
    (hb : {x.before with lastNow := t.lastNow} = t)
    (hi : ∃ now underLoad, x.input = .decapsulate now remote underLoad datagram out rng)
    (ha : x.after = o.tunnel) (ho : x.output = .decapsulated o.result) :
    Path t (eventsOf x) x.after := by
  obtain ⟨now',underLoad,hi⟩ := hi
  have he : ∀ r, o.result = .ok r → eventsOf x = receivedEvents x datagram r := by
    intro r h
    exact eventsOf_received hi (ho.trans (by rw [h]))
  cases hr with
  | rejected t' rest e ht =>
    rw [eventsOf_quiet (by rw [ho]; rfl),ha]
    apply path_count
    rcases ht with rfl | rfl | rfl | rfl <;> rfl
  | cookieReply index mac1 reply r hr hk hout =>
    rw [he _ rfl,ha]
    have hp : parse reply.encode = .ok (.cookieReply reply) := parse_cookie_iff.mpr rfl
    simp only [receivedEvents,answeredEvents,hp]
    apply path_silent (.jar r.jar) trivial rfl
    exact path_count rfl
  | answered m consumed index eph rest hm hmac hc hts hd =>
    rw [he _ rfl]
    obtain ⟨mac2,hp⟩ := parse_response_withMacs t now.ticks
      (responderView P consumed t.psk (clampScalar eph)) index consumed.peerIndex
    have hc' : consumeInitiation P x.before.constants x.before.localStatic x.before.localPublic
        x.before.peerPublic x.before.precomputedSs m = .ok consumed := by
      rw [← hb] at hc
      exact hc
    have hev : receivedEvents x datagram (.reply (t.withMacs now.ticks
        ((responderView P consumed t.psk (clampScalar eph)).alpha index consumed.peerIndex))) =
        .answered consumed.timestamp :: createdEvents x.after.next := by
      simp only [receivedEvents,answeredEvents,hp,hm,hc']
    rw [hev,ha,hn]
    exact path_act (.respond m consumed index eph) ⟨hmac,hc,hts,drawHandshake_fresh hd⟩ rfl rfl
  | completed m inflight keys hm hmac hin hx hk =>
    rw [he _ rfl]
    simp only [receivedEvents]
    rw [ha,hn]
    exact path_act (.complete m keys) ⟨inflight,hin,hx,hk⟩ rfl rfl
  | stored cookie =>
    rw [he _ rfl,ha]
    exact path_act (.cookie cookie) trivial rfl rfl
  | accepted m slot s plain hm hx hs hcn hage hk hopen =>
    have hslot : (x.before.sessionWithIndex m.receiverIndex).bind x.before.slot = some s := by
      rw [← hb] at hx hs
      have hx' : x.before.sessionWithIndex m.receiverIndex = some slot := hx
      have hs' : x.before.slot slot = some s := by cases slot <;> exact hs
      rw [hx']
      exact hs'
    rw [he _ rfl,receivedEvents_delivered]
    simp only [acceptedEvents,hm,hslot]
    rw [ha,commitTransport_lastNow]
    rw [hn] at hage ⊢
    refine path_act (.accept slot m.counter plain.length) ⟨s,hs,hcn,hage,hk⟩ ?_ ?_
    · simp only [Act.events,hs]
    · simp only [Act.apply,hs]

def Flow.Explained (C : ChaChaImpl) (t : Tunnel P) : Flow P → Prop
  | .next u => Path t [] u ∧ u.current = t.current ∧ u.lastNow = t.lastNow
  | .done o => Emission C t [] (.polled o.result) o.tunnel

theorem explained_andThen {C : ChaChaImpl} {t : Tunnel P} {f : Flow P} {k : Tunnel P → Flow P}
    (hf : Flow.Explained C t f) (hk : ∀ u, u.lastNow = t.lastNow → Flow.Explained C u (k u)) :
    Flow.Explained C t (f.andThen k) := by
  cases f with
  | done o => exact hf
  | next u =>
    obtain ⟨hp,hc,hl⟩ := hf
    have hu := hk u hl
    change Flow.Explained C t (k u)
    cases h : k u with
    | next v =>
      rw [h] at hu
      obtain ⟨hp',hc',hl'⟩ := hu
      exact ⟨hp.trans hp',hc'.trans hc,hl'.trans hl⟩
    | done o =>
      rw [h] at hu
      exact Emission.after hp hc hu

section Blocks

variable (C : ChaChaImpl) {t : Tunnel P} {now : Now} (out : List UInt8) (rng : Entropy)

theorem explained_refl : Flow.Explained C t (.next t) := ⟨path_refl t,rfl,rfl⟩

theorem explained_silent {u : Tunnel P} (a : Act) (ha : a.enabled t) (he : a.events t = [])
    (hu : a.apply t = u) (hc : u.current = t.current) (hl : u.lastNow = t.lastNow) :
    Flow.Explained C t (.next u) := ⟨path_act a ha he hu,hc,hl⟩

theorem explained_restart (hn : now.ticks = t.lastNow)
    (hp : t.timers.initiationAllowed t.lastNow = true) :
    Flow.Explained C t (.done ((t.restartAttempt.sendInitiation now out rng true).emit
      (fun w => .send w .handshakeInitiation))) :=
  Emission.after (path_act .restartAttempt hp rfl rfl) rfl
    (initiation_emission (t := t.restartAttempt) C [] out rng true _ .polled hn (Or.inl hp)
      (fun _ => rfl) (fun _ => ⟨rfl,rfl⟩))

theorem explained_keepalive (reason : SendReason)
    (hr : reason = .keepalive ∨ reason = .persistentKeepalive) (hn : now.ticks = t.lastNow)
    (hu : t.currentUsable t.lastNow = true) :
    Flow.Explained C t (.done ((t.sendKeepalive C now out rng).sendAs reason)) := by
  obtain h | ⟨s,hs,_,h⟩ := sendKeepalive_cases C t now out rng hn hu
  · rw [h]
    exact .quiet rfl (path_refl t)
  · rw [h]
    refine .transport s none (path_refl t) hs hs hu ?_
    rcases hr with rfl | rfl <;> rfl

theorem expireNext_explained (hn : now.ticks = t.lastNow) :
    Flow.Explained C t (.next (t.expireNext now.ticks)) := by
  rw [hn]
  refine explained_silent C .expireNext trivial rfl rfl ?_ ?_
  all_goals
    rw [expireNext_frame]

theorem pollDiscard_explained : Flow.Explained C t (t.pollDiscard now out rng) := by
  unfold pollDiscard
  split
  · exact explained_refl C
  split
  · exact .quiet rfl (path_act .discard trivial rfl rfl)
  · exact explained_refl C

theorem pollRetransmit_explained (hn : now.ticks = t.lastNow) :
    Flow.Explained C t (t.pollRetransmit now out rng) := by
  unfold pollRetransmit
  split
  · rename_i hd
    rw [hn] at hd
    split
    · rename_i he
      rw [hn] at he
      exact .quiet rfl (path_act .abandon ⟨hd,he⟩ rfl rfl)
    · exact initiation_emission C [] out rng true _ .polled hn (Or.inr hd) (fun _ => rfl)
        (fun _ => ⟨rfl,rfl⟩)
  · exact explained_refl C

theorem pollRekey_explained (hn : now.ticks = t.lastNow) :
    Flow.Explained C t (t.pollRekey now out rng) := by
  unfold pollRekey
  split
  · split
    · rename_i hi
      exact explained_silent C .satisfyRekey hi rfl rfl rfl rfl
    split
    · rename_i hp
      exact explained_restart C out rng hn (by rwa [hn] at hp)
    · exact explained_refl C
  · exact explained_refl C

theorem pollDeadPeer_explained (hn : now.ticks = t.lastNow) :
    Flow.Explained C t (t.pollDeadPeer now out rng) := by
  unfold pollDeadPeer
  split
  · rename_i hp
    simp only [Bool.and_eq_true] at hp
    exact explained_restart C out rng hn (by rw [← hn]; exact hp.2)
  · exact explained_refl C

theorem pollConfirm_explained (hn : now.ticks = t.lastNow) :
    Flow.Explained C t (t.pollConfirm C now out rng) := by
  unfold pollConfirm
  rw [hn]
  split
  · split
    · rename_i hu
      exact explained_keepalive C out rng .keepalive (Or.inl rfl) hn hu
    · rename_i hu
      exact explained_silent C .dropConfirm (Bool.eq_false_iff.mpr hu) rfl rfl rfl rfl
  · exact explained_refl C

theorem pollPassive_explained (hn : now.ticks = t.lastNow) :
    Flow.Explained C t (t.pollPassive C now out rng) := by
  unfold pollPassive
  rw [hn]
  split
  · split
    · rename_i hu
      exact explained_keepalive C out rng .keepalive (Or.inl rfl) hn hu
    · rename_i hu
      exact explained_silent C .disarmPassive (Bool.eq_false_iff.mpr hu) rfl rfl rfl rfl
  · exact explained_refl C

theorem pollPersistent_explained (hn : now.ticks = t.lastNow) :
    Flow.Explained C t (.done (t.pollPersistent C now out rng)) := by
  unfold pollPersistent
  rw [hn]
  split
  · exact .quiet rfl (path_refl t)
  split
  · rename_i hu
    split
    · exact explained_keepalive C out rng .persistentKeepalive (Or.inr rfl) hn hu
    · exact .quiet rfl (path_refl t)
  split
  · rename_i hp
    simp only [Bool.and_eq_true] at hp
    exact Emission.after (path_act .clearGaveUp trivial rfl rfl) rfl
      (explained_restart C (t := t.clearGaveUp) out rng hn hp.1.2)
  · exact .quiet rfl (path_refl t)

theorem pollTimers_explained (hn : now.ticks = t.lastNow) :
    Flow.Explained C t (t.pollTimers C now out rng) := by
  refine explained_andThen (expireNext_explained C hn) fun u hu => ?_
  have hu := hn.trans hu.symm
  refine explained_andThen (pollDiscard_explained C out rng) fun v hv => ?_
  have hv := hu.trans hv.symm
  refine explained_andThen (pollRetransmit_explained C out rng hv) fun w hw => ?_
  have hw := hv.trans hw.symm
  refine explained_andThen (pollRekey_explained C out rng hw) fun y hy => ?_
  have hy := hw.trans hy.symm
  refine explained_andThen (pollDeadPeer_explained C out rng hy) fun z hz => ?_
  have hz := hy.trans hz.symm
  refine explained_andThen (pollConfirm_explained C out rng hz) fun a ha => ?_
  exact pollPassive_explained C out rng (hz.trans ha.symm)

theorem pollAt_emission (hn : now.ticks = t.lastNow) :
    Emission C t [] (.polled (t.pollAt C now out rng).result)
      (t.pollAt C now out rng).tunnel := by
  have h := pollTimers_explained C out rng hn
  unfold pollAt
  cases hf : t.pollTimers C now out rng with
  | done o =>
    rw [hf] at h
    exact h
  | next u =>
    rw [hf] at h
    obtain ⟨hp,hc,hl⟩ := h
    exact Emission.after hp hc (pollPersistent_explained C out rng (hn.trans hl.symm))

end Blocks

theorem step_emission (C : ChaChaImpl) (t : Tunnel P) :
    (∀ now payload out rng, Emission C (t.observe now) (t.stage payload)
      (step C t (.encapsulate now payload out rng)).2
      (step C t (.encapsulate now payload out rng)).1) ∧
    (∀ now out rng, Emission C (t.observe now) [] (step C t (.poll now out rng)).2
      (step C t (.poll now out rng)).1) ∧
    (∀ now out rng, Emission C (t.observe now) [] (step C t (.initiateHandshake now out rng)).2
      (step C t (.initiateHandshake now out rng)).1) := by
  refine ⟨fun now payload out rng => ?_,fun now out rng => ?_,fun now out rng => ?_⟩
  · have h := encapsulateAt_emission C payload out rng (t.reading_ticks now)
    rw [step,encapsulate,clampNow_eq]
    exact h
  · have h := pollAt_emission C out rng (t.reading_ticks now)
    rw [step,poll,clampNow_eq]
    exact h
  · have h := initiateHandshakeAt_emission C out rng (t.reading_ticks now)
    rw [step,initiateHandshake,clampNow_eq]
    exact h

theorem step_receipt (C : ChaChaImpl) (t : Tunnel P) (now : Now) (remote datagram out : List UInt8)
    (underLoad : Bool) (rng : Entropy) :
    ∃ o, Receipt C (t.observe now) (t.reading now) remote datagram out rng o ∧
      step C t (.decapsulate now remote underLoad datagram out rng) =
        (o.tunnel,.decapsulated o.result) := by
  refine ⟨_,decapsulateAt_receipt C (t.observe now) (t.reading now) remote datagram out underLoad
    rng,?_⟩
  rw [step,decapsulate,clampNow_eq]

/-- The model of the source refines the guarded actions. -/
theorem step_refines (C : ChaChaImpl) :
    Guarded.Refines (acts P) (step C) (eventsOf (P := P)) := by
  intro t op
  obtain ⟨hencap,hpoll,hinit⟩ := step_emission C t
  cases op with
  | encapsulate now payload out rng =>
    exact path_clamp now (emission_path (hencap now payload out rng) rfl)
  | decapsulate now remote underLoad datagram out rng =>
    obtain ⟨o,hr,hs⟩ := step_receipt C t now remote datagram out underLoad rng
    refine path_clamp now (decapsulateAt_path C remote datagram out rng (t.reading_ticks now) hr
      (Machine.advance (step C) t _) rfl ⟨now,underLoad,rfl⟩ ?_ ?_)
    · exact congrArg Prod.fst hs
    · exact congrArg Prod.snd hs
  | poll now out rng => exact path_clamp now (emission_path (hpoll now out rng) rfl)
  | initiateHandshake now out rng =>
    exact path_clamp now (emission_path (hinit now out rng) rfl)
  | setMtu mtu => exact path_act (.mtu mtu) trivial rfl rfl
  | reset => exact path_act .discard trivial rfl rfl

end WireGuard
