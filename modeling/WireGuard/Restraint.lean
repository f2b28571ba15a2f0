import WireGuard.Attempt
import WireGuard.Keepalives
import WireGuard.Wake

/-!
# A tunnel sends for a reason

Without a persistent keepalive a tunnel sends because its caller wants something or
because its peer got through to it. Each such cause leaves it with no more than a fixed
urge to send by itself: keepalives that it owes, each with the rekeying that sealing it
may ask for, a rekeying that is due, and the search for a peer that went silent, until
the repetitions of the pending handshake run out with the time of the attempt.
-/

set_option autoImplicit false

namespace WireGuard
open ByteString Tunnel

variable {P : Primitives}

/-- A call has handed out a datagram. -/
def Output.sent : Output → Bool
  | .encapsulated (.ok _) => true
  | .decapsulated (.ok (.reply _)) => true
  | .polled (.ok (.send _ _)) => true
  | .initiated (.ok _) => true
  | _ => false

/-- The caller has asked for something, or a datagram of the peer was not refused. A cookie
that was stored is not a cause: it brings nothing about by itself. -/
def caused (x : Transition P) : Bool :=
  match x.input, x.output with
  | .encapsulate _ _ _ _, _ => true
  | .initiateHandshake _ _ _, _ => true
  | _, .decapsulated (.ok .cookieStored) => false
  | _, .decapsulated (.ok _) => true
  | _, _ => false

def Timers.repeats (tm : Timers) (now : Ticks) : ℕ :=
  match tm.retransmitAt, tm.attemptStarted with
  | none, _ => 0
  | some _, none => 18
  | some at', some t0 =>
    (t0.nanos+rekeyAttemptTime+(rekeyTimeout-1)-max at'.nanos now.nanos)/rekeyTimeout

def Tunnel.search (t : Tunnel P) : ℕ :=
  match t.inflight with
  | some _ => t.timers.repeats t.lastNow
  | none => 18*t.timers.deadPeerAt.isSome.toNat

/-- What the tunnel may still send by itself. -/
def Tunnel.urge (t : Tunnel P) : ℕ :=
  19*t.timers.debt+18*t.timers.rekeyDue.toNat+t.search

/-! ## The repetitions of an attempt -/

theorem Timers.repeats_mono (tm : Timers) {now later : Ticks} (h : now ≤ later) :
    tm.repeats later ≤ tm.repeats now := by
  have h : now.nanos ≤ later.nanos := h
  unfold repeats
  split
  · exact le_rfl
  · exact le_rfl
  · exact Nat.div_le_div_right (by omega)

theorem Timers.repeats_le {tm : Timers} {now : Ticks}
    (h : ∀ t0, tm.attemptStarted = some t0 → t0 ≤ now) : tm.repeats now ≤ 18 := by
  have h5 : rekeyTimeout = 5000000000 := rfl
  have h90 : rekeyAttemptTime = 90000000000 := rfl
  unfold repeats
  split
  · exact Nat.zero_le _
  · exact le_rfl
  · rename_i t0 _ hs
    have hle : t0.nanos ≤ now.nanos := h t0 hs
    rw [h5,h90]
    omega

theorem Timers.repeats_noteInitiationTx (tm : Timers) {now : Ticks} (jitter : ℕ)
    (hlate : now.nanos+(rekeyTimeout+rekeyTimeoutJitterMax) ≤ u64Max) :
    (tm.noteInitiationTx now jitter).repeats now ≤
      ((tm.attemptStarted.getD now).nanos+rekeyAttemptTime-1-now.nanos)/rekeyTimeout := by
  have h5 : rekeyTimeout = 5000000000 := rfl
  have hj : min jitter rekeyTimeoutJitterMax ≤ rekeyTimeoutJitterMax := Nat.min_le_right _ _
  have hat : ((now.addNanos rekeyTimeout).addNanos (min jitter rekeyTimeoutJitterMax)).nanos =
      now.nanos+(rekeyTimeout+min jitter rekeyTimeoutJitterMax) := by
    rw [Ticks.addNanos_addNanos,Ticks.addNanos_nanos_of_le]
    omega
  refine Nat.div_le_div_right ?_
  rw [hat]
  omega

theorem Timers.repeats_afresh {tm : Timers} {now : Ticks} (jitter : ℕ)
    (hlate : now.nanos+(rekeyTimeout+rekeyTimeoutJitterMax) ≤ u64Max)
    (hs : tm.attemptStarted = none) : (tm.noteInitiationTx now jitter).repeats now ≤ 17 := by
  have h5 : rekeyTimeout = 5000000000 := rfl
  have h90 : rekeyAttemptTime = 90000000000 := rfl
  have h := tm.repeats_noteInitiationTx jitter hlate
  rw [hs,Option.getD_none,h5,h90] at h
  omega

theorem Timers.repeats_again {tm : Timers} {now : Ticks} (jitter : ℕ)
    (hlate : now.nanos+(rekeyTimeout+rekeyTimeoutJitterMax) ≤ u64Max)
    (hdue : ∃ at', tm.retransmitAt = some at' ∧ at' ≤ now)
    (he : tm.attemptExhausted now = false) :
    1+(tm.noteInitiationTx now jitter).repeats now ≤ tm.repeats now := by
  have h5 : rekeyTimeout = 5000000000 := rfl
  have h90 : rekeyAttemptTime = 90000000000 := rfl
  obtain ⟨at',hat,hle⟩ := hdue
  cases hs : tm.attemptStarted with
  | none =>
    have h := repeats_afresh jitter hlate hs
    have hb : tm.repeats now = 18 := by simp only [repeats,hat,hs]
    omega
  | some t0 =>
    have hle : at'.nanos ≤ now.nanos := hle
    have h := tm.repeats_noteInitiationTx jitter hlate
    rw [hs,Option.getD_some,h5,h90] at h
    simp only [attemptExhausted,hs,Ticks.since,decide_eq_false_iff_not,not_le,h90] at he
    have hb : tm.repeats now = (t0.nanos+90000000000+4999999999-now.nanos)/5000000000 := by
      simp only [repeats,hat,hs]
      rw [max_eq_right hle]
      rfl
    omega

/-! ## What a call does to the urge -/

structure Tunnel.Steady (t : Tunnel P) : Prop where
  persistent : t.persistentKeepalive = none
  started : ∀ t0, t.timers.attemptStarted = some t0 → t0 ≤ t.lastNow
  past : t.timers.Past t.lastNow

theorem Tunnel.Steady.urge_le {t : Tunnel P} (h : t.Steady) : t.urge ≤ 74 := by
  have hd := t.timers.debt_le
  have hr := Bool.toNat_le t.timers.rekeyDue
  have hs : t.search ≤ 18 := by
    unfold search
    split
    · exact Timers.repeats_le h.started
    · have := Bool.toNat_le t.timers.deadPeerAt.isSome
      omega
  unfold urge
  omega

theorem observe_urge (t : Tunnel P) (now : Now) : (t.observe now).urge ≤ t.urge := by
  refine Nat.add_le_add_left ?_ _
  cases hi : t.inflight with
  | none => simp only [search,observe,hi,le_refl]
  | some i =>
    simp only [search,observe,hi]
    exact t.timers.repeats_mono (le_max_left _ _)

section Blocks

variable {t : Tunnel P} {now : Now} {out : List UInt8} {rng : Entropy}

structure Tunnel.Polls (t : Tunnel P) (now : Now) : Prop where
  steady : t.Steady
  clock : now.ticks = t.lastNow
  late : t.lastNow.nanos+(rekeyTimeout+rekeyTimeoutJitterMax) ≤ u64Max

def FlowPays (t : Tunnel P) (now : Now) : Flow P → Prop
  | .next u => u.Polls now ∧ u.urge ≤ t.urge
  | .done o => (Output.polled o.result).sent.toNat+o.tunnel.urge ≤ t.urge

theorem FlowPays.andThen {f : Flow P} {k : Tunnel P → Flow P} (hf : FlowPays t now f)
    (hk : ∀ u : Tunnel P, u.Polls now → FlowPays u now (k u)) : FlowPays t now (f.andThen k) := by
  cases f with
  | done o => exact hf
  | next u =>
    obtain ⟨hs,hu⟩ := hf
    have h := hk u hs
    simp only [Flow.andThen]
    cases hku : k u with
    | done o =>
      rw [hku] at h
      exact h.trans hu
    | next v =>
      rw [hku] at h
      exact ⟨h.1,h.2.trans hu⟩

theorem initiation_pays {u : Tunnel P} {reason : SendReason} (hn : now.ticks = u.lastNow)
    (hu : u.urge ≤ t.urge)
    (hpay : ∀ jitter, 1+(19*u.timers.debt+
      (u.timers.noteInitiationTx u.lastNow jitter).repeats u.lastNow) ≤ t.urge) :
    FlowPays t now
      (.done ((u.sendInitiation now out rng true).emit (fun w => .send w reason))) := by
  obtain ⟨rest,e,h⟩ | ⟨index,eph,jitter,rest,_,h⟩ :=
    sendInitiation_emit u now out rng true (fun w => PollOutput.send w reason) hn
  · rw [h]
    simpa [FlowPays,Output.sent] using hu
  · rw [h]
    exact hpay jitter

theorem keepalive_pays (C : ChaChaImpl) {reason : SendReason} (h : t.Polls now)
    (hc : t.currentUsable t.lastNow = true) (howe : 1 ≤ t.timers.debt) :
    FlowPays t now (.done ((t.sendKeepalive C now out rng).sendAs reason)) := by
  obtain ho | ⟨s,_,_,ho⟩ := sendKeepalive_cases C t now out rng h.clock hc
  · rw [ho]
    simp [FlowPays,Outcome.sendAs,Output.sent,Except.map]
  · rw [ho]
    have hd := debt_commitSeal h.steady.past none
    obtain ⟨r,hr⟩ := commitSeal_noted t t.lastNow none
    have hsearch : (t.commitSeal t.lastNow none).search = t.search := by
      have hf := commitSeal_frame t t.lastNow none
      unfold search
      rw [hf,hr]
      rfl
    have hb := Bool.toNat_le (t.commitSeal t.lastNow none).timers.rekeyDue
    change 1+(t.commitSeal t.lastNow none).urge ≤ t.urge
    unfold urge
    rw [hd,hsearch]
    omega

theorem pollDiscard_pays (h : t.Polls now) : FlowPays t now (t.pollDiscard now out rng) := by
  unfold pollDiscard
  split
  · exact ⟨h,le_rfl⟩
  split
  · exact Nat.zero_le _
  · exact ⟨h,le_rfl⟩

theorem pollRetransmit_pays (h : t.Polls now) :
    FlowPays t now (t.pollRetransmit now out rng) := by
  unfold pollRetransmit
  rw [h.clock]
  split
  · rename_i hr
    split
    · -- the search is over, and with `gaveUp` no other begins
      have hu : t.abandon.urge = 19*t.timers.debt := rfl
      change 0+t.abandon.urge ≤ t.urge
      rw [hu]
      unfold urge
      omega
    · rename_i he
      refine initiation_pays h.clock le_rfl fun jitter => ?_
      unfold retransmitDue at hr
      obtain ⟨hi,hr⟩ := Bool.and_eq_true_iff.mp hr
      obtain ⟨i,hi⟩ := Option.isSome_iff_exists.mp hi
      split at hr
      · cases hr
      rename_i at' hat
      have hpay := Timers.repeats_again jitter h.late ⟨at',hat,of_decide_eq_true hr⟩
        (Bool.eq_false_iff.mpr he)
      have hsearch : t.search = t.timers.repeats t.lastNow := by simp only [search,hi]
      unfold urge
      omega
  · exact ⟨h,le_rfl⟩

theorem afresh_pays {reason : SendReason} (h : t.Polls now) (hi : t.inflight = none)
    (hdue : t.timers.rekeyDue = true ∨ t.timers.deadPeerAt.isSome = true) :
    FlowPays t now (.done ((t.restartAttempt.sendInitiation now out rng true).emit
      (fun w => .send w reason))) := by
  have hsearch : t.search = 18*t.timers.deadPeerAt.isSome.toNat := by simp only [search,hi]
  have hu : t.restartAttempt.urge = t.urge := by
    unfold urge
    rw [hsearch]
    simp only [search,restartAttempt,hi]
    rfl
  refine initiation_pays (u := t.restartAttempt) h.clock hu.le fun jitter => ?_
  have hpay := @Timers.repeats_afresh t.restartAttempt.timers _ jitter h.late rfl
  have hd : t.restartAttempt.timers.debt = t.timers.debt := rfl
  have hl : t.restartAttempt.lastNow = t.lastNow := rfl
  rw [hd,hl]
  unfold urge
  rw [hsearch]
  rcases hdue with hr | hr
  · rw [hr,Bool.toNat_true]
    omega
  · rw [hr,Bool.toNat_true]
    omega

theorem pollRekey_pays (h : t.Polls now) : FlowPays t now (t.pollRekey now out rng) := by
  unfold pollRekey
  split
  · rename_i hr
    split
    · obtain ⟨⟨hk,hst,⟨htx,hrx,hatx,harx⟩⟩,hn,hl⟩ := h
      refine ⟨⟨⟨hk,hst,⟨htx,hrx,hatx,harx⟩⟩,hn,hl⟩,?_⟩
      have hu : t.satisfyRekey.urge = 19*t.timers.debt+18*0+t.search := rfl
      unfold urge at hu ⊢
      omega
    · rename_i hi
      split
      · exact afresh_pays h (by simpa using hi) (Or.inl hr)
      · exact ⟨h,le_rfl⟩
  · exact ⟨h,le_rfl⟩

theorem pollDeadPeer_pays (h : t.Polls now) : FlowPays t now (t.pollDeadPeer now out rng) := by
  unfold pollDeadPeer
  split
  · rename_i hp
    simp only [Bool.and_eq_true,Option.isNone_iff_eq_none] at hp
    obtain ⟨w,hw,_⟩ := Timers.deadPeerAt_le hp.1.2
    exact afresh_pays h hp.1.1 (Or.inr (by rw [hw]; rfl))
  · exact ⟨h,le_rfl⟩

theorem pollConfirm_pays (C : ChaChaImpl) (h : t.Polls now) :
    FlowPays t now (t.pollConfirm C now out rng) := by
  unfold pollConfirm
  rw [h.clock]
  split
  · rename_i hd
    split
    · rename_i hc
      refine keepalive_pays C h hc ?_
      unfold Timers.debt
      rw [hd]
      exact Nat.le_add_right _ _
    · obtain ⟨⟨hk,hst,⟨htx,hrx,hatx,harx⟩⟩,hn,hl⟩ := h
      refine ⟨⟨⟨hk,hst,⟨htx,hrx,hatx,harx⟩⟩,hn,hl⟩,?_⟩
      have hdebt : t.dropConfirm.timers.debt ≤ t.timers.debt :=
        (tidied_dropConfirm t).debt_le
      exact Nat.add_le_add_right (Nat.add_le_add_right (Nat.mul_le_mul_left _ hdebt) _) _
  · exact ⟨h,le_rfl⟩

theorem pollPassive_pays (C : ChaChaImpl) (h : t.Polls now) :
    FlowPays t now (t.pollPassive C now out rng) := by
  unfold pollPassive
  rw [h.clock]
  split
  · rename_i hp
    split
    · rename_i hc
      exact keepalive_pays C h hc (debt_of_passiveKeepaliveDue hp)
    · obtain ⟨⟨hk,hst,⟨htx,hrx,hatx,harx⟩⟩,hn,hl⟩ := h
      refine ⟨⟨⟨hk,hst,⟨htx,fun x hx => (by cases hx),hatx,harx⟩⟩,hn,hl⟩,?_⟩
      have hdebt : t.disarmPassive.timers.debt ≤ t.timers.debt :=
        Timers.debt_mono id (Or.inr rfl) rfl
      exact Nat.add_le_add_right (Nat.add_le_add_right (Nat.mul_le_mul_left _ hdebt) _) _
  · exact ⟨h,le_rfl⟩

theorem pollTimers_pays (C : ChaChaImpl) (h : t.Polls now) :
    FlowPays t now (t.pollTimers C now out rng) := by
  have hexpire : FlowPays t now (.next (t.expireNext now.ticks)) := by
    obtain ⟨⟨hk,hst,hp⟩,hn,hl⟩ := h
    rw [expireNext_frame]
    exact ⟨⟨⟨hk,hst,hp⟩,hn,hl⟩,le_rfl⟩
  refine hexpire.andThen fun u h => ?_
  refine (pollDiscard_pays h).andThen fun u h => ?_
  refine (pollRetransmit_pays h).andThen fun u h => ?_
  refine (pollRekey_pays h).andThen fun u h => ?_
  refine (pollDeadPeer_pays h).andThen fun u h => ?_
  refine (pollConfirm_pays C h).andThen fun u h => ?_
  exact pollPassive_pays C h

theorem pollAt_pays (C : ChaChaImpl) (h : t.Polls now) :
    let o := t.pollAt C now out rng
    (Output.polled o.result).sent.toNat+o.tunnel.urge ≤ t.urge := by
  have hp : FlowPays t now (t.pollTimers C now out rng) := pollTimers_pays C h
  unfold pollAt
  split
  · rename_i o ho
    rw [ho] at hp
    exact hp
  · rename_i u hu
    rw [hu] at hp
    unfold pollPersistent
    rw [hp.1.steady.persistent]
    simpa [Output.sent] using hp.2

end Blocks

/-! ## Runs -/

def Tunnel.Started (t : Tunnel P) : Prop :=
  ∀ t0, t.timers.attemptStarted = some t0 → t0 ≤ t.lastNow

theorem started_act (t : Tunnel P) (a : Act) (h : t.Started) (ha : a.enabled t) :
    (a.apply t).Started := by
  have hnone : ∀ {u : Tunnel P}, u.timers.attemptStarted = none → u.Started := by
    intro u hu t0 h0
    rw [hu] at h0
    cases h0
  cases a with
  | clock now => exact fun t0 h0 => (h t0 h0).trans ha
  | initiate now index eph jitter =>
    intro t0 h0
    obtain rfl := Option.some.inj h0
    cases hs : t.timers.attemptStarted with
    | none => exact le_rfl
    | some t0 => exact h t0 hs
  | transmit payloadLen =>
    intro t0 h0
    have hat := congrArg Prod.fst (attempt_commitSeal t t.lastNow payloadLen)
    have hl : ((Act.transmit payloadLen).apply t).lastNow = t.lastNow :=
      commitSeal_lastNow t t.lastNow payloadLen
    rw [hl]
    exact h t0 (hat.symm.trans h0)
  | accept slot counter n =>
    simp only [Act.apply]
    split
    · rename_i s hs
      obtain ⟨r,hr⟩ := commitTransport_noted t t.lastNow slot s (s.replay.accept counter).1 n
      intro t0 h0
      rw [commitTransport_lastNow]
      rw [hr] at h0
      unfold Timers.noteAccepted at h0
      split at h0
      · cases h0
      · exact h t0 h0
    · exact h
  | expireNext =>
    simp only [Act.apply]
    rw [expireNext_frame]
    exact h
  | complete m keys => exact hnone rfl
  | discard => exact hnone rfl
  | abandon => exact hnone rfl
  | restartAttempt => exact hnone rfl
  | touchAttempt =>
    intro t0 h0
    exact (Option.some.inj h0).ge
  | _ => exact h

theorem steady_reachable {C : ChaChaImpl} {config : Config} {t u : Tunnel P}
    (ht : withBackend P config = .ok t) (hk : config.persistentKeepalive = none)
    (hu : Machine.Reachable (step C) t u) : u.Steady where
  persistent := by
    rw [reachable_persistentKeepalive hu,(withBackend_ok ht).2.persistentKeepalive,hk]
  started := by
    refine (step_refines C).reachable_invariant Tunnel.Started started_act (fun t0 h0 => ?_) hu
    rw [(withBackend_ok ht).1.timers] at h0
    cases h0
  past := (past_reachable ht hu).timers

theorem receipt_urge {C : ChaChaImpl} {t : Tunnel P} {now : Now}
    {remote datagram out : List UInt8} {rng : Entropy} {r : Outcome P Received}
    (h : Receipt C t now remote datagram out rng r)
    (hr : (∃ e, r.result = .error e) ∨ r.result = .ok .cookieStored) :
    r.tunnel.urge = t.urge := by
  cases h with
  | rejected t' rest e ht => rcases ht with rfl | rfl | rfl | rfl <;> rfl
  | stored cookie => rfl
  | accepted m slot s plain hm hx hs hn ha hk ho =>
    rcases hr with ⟨e,he⟩ | he
    · cases he
    · have hd : delivered plain = .cookieStored := Except.ok.inj he
      unfold delivered at hd
      split at hd <;> cases hd
  | _ =>
    rcases hr with ⟨e,he⟩ | he
    · cases he
    · cases he

theorem Tunnel.Steady.observe {t : Tunnel P} (h : t.Steady) (now : Now) :
    (t.observe now).Steady := by
  have hl : t.lastNow ≤ (t.observe now).lastNow := le_max_left _ _
  obtain ⟨hk,hst,⟨htx,hrx,hatx,harx⟩⟩ := h
  exact ⟨hk,fun t0 h0 => (hst t0 h0).trans hl,⟨fun x hx => (htx x hx).trans hl,
    fun x hx => (hrx x hx).trans hl,fun x hx => (hatx x hx).trans hl,
    fun x hx => (harx x hx).trans hl⟩⟩

theorem uncaused_pays (C : ChaChaImpl) {t : Tunnel P} (h : t.Steady) (op : Op)
    (hlate : (step C t op).1.lastNow.nanos+(rekeyTimeout+rekeyTimeoutJitterMax) ≤ u64Max)
    (hc : caused (Machine.advance (step C) t op) = false) :
    (step C t op).2.sent.toNat+(step C t op).1.urge ≤ t.urge := by
  cases op with
  | encapsulate now payload out rng => cases hc
  | initiateHandshake now out rng => cases hc
  | setMtu mtu => exact (Nat.zero_add _).le
  | reset => exact Nat.zero_le _
  | decapsulate now remote underLoad datagram out rng =>
    obtain ⟨r,hr,hs⟩ := step_receipt C t now remote datagram out underLoad rng
    unfold Machine.advance at hc
    rw [hs] at hc ⊢
    have hkeep := fun hq => (receipt_urge hr hq).trans_le (observe_urge t now)
    rcases hres : r.result with e | x
    · exact (Nat.zero_add _).trans_le (hkeep (Or.inl ⟨e,hres⟩))
    · rw [hres] at hc
      cases x with
      | cookieStored => exact (Nat.zero_add _).trans_le (hkeep (Or.inr hres))
      | _ => cases hc
  | poll now out rng =>
    rw [(step_deed C t (.poll now out rng)).lastNow] at hlate
    have hp : (t.observe now).Polls (t.reading now) := ⟨h.observe now,t.reading_ticks now,hlate⟩
    refine le_trans ?_ (observe_urge t now)
    simp only [step,poll,clampNow_eq]
    exact pollAt_pays C hp

/-- Every call keeps the account: a cause earns what a tunnel can want, and the datagram
that may go out at once. -/
theorem step_pays (C : ChaChaImpl) {t : Tunnel P} (h : t.Steady) (op : Op)
    (h' : (step C t op).1.Steady)
    (hlate : (step C t op).1.lastNow.nanos+(rekeyTimeout+rekeyTimeoutJitterMax) ≤ u64Max) :
    (step C t op).2.sent.toNat+(step C t op).1.urge ≤
      t.urge+(caused (Machine.advance (step C) t op)).toNat*75 := by
  cases hc : caused (Machine.advance (step C) t op) with
  | false => exact (uncaused_pays C h op hlate hc).trans (Nat.le_add_right _ _)
  | true =>
    have hu := h'.urge_le
    have hs := Bool.toNat_le (step C t op).2.sent
    rw [Bool.toNat_true]
    omega

theorem run_pays (C : ChaChaImpl) {config : Config} {t u : Tunnel P}
    (ht : withBackend P config = .ok t) (hk : config.persistentKeepalive = none)
    (hu : Machine.Reachable (step C) t u) (ops : List Op)
    (hlate : ∀ x ∈ run C u ops,
      x.after.lastNow.nanos+(rekeyTimeout+rekeyTimeoutJitterMax) ≤ u64Max) :
    (run C u ops).countP (·.output.sent) ≤ u.urge+(run C u ops).countP caused*75 := by
  have hb := Machine.history_budget_countP (step C) Tunnel.urge (·.output.sent) caused 75 u ops
    (fun x hx => ?_)
  · exact (Nat.le_add_right _ _).trans hb
  · have hl := hlate x hx
    obtain ⟨v,op,hv,rfl⟩ := Machine.mem_history (step C) u ops x hx
    have hreach := hu.trans hv
    exact step_pays C (steady_reachable ht hk hreach) op
      (steady_reachable ht hk (hreach.step op)) hl

/-- A tunnel without a persistent keepalive hands out at most 75 datagrams for each cause,
and from any state on at most 74 more when no cause comes any more, however often it is
polled and whatever arrives that it refuses. The clock stays the longest retransmit time
below the end of its range. -/
theorem sends_have_causes (C : ChaChaImpl) {config : Config} {t : Tunnel P}
    (ht : withBackend P config = .ok t) (hk : config.persistentKeepalive = none)
    (ops more : List Op)
    (hlate : ∀ x ∈ run C t (ops++more),
      x.after.lastNow.nanos+(rekeyTimeout+rekeyTimeoutJitterMax) ≤ u64Max) :
    (run C t ops).countP (·.output.sent) ≤ (run C t ops).countP caused*75 ∧
      ((∀ x ∈ run C (Machine.final (step C) t ops) more, caused x = false) →
        (run C (Machine.final (step C) t ops) more).countP (·.output.sent) ≤ 74) := by
  have happ : run C t (ops++more) = run C t ops++run C (Machine.final (step C) t ops) more :=
    Machine.history_append (step C) t ops more
  rw [happ] at hlate
  constructor
  · have h := run_pays C ht hk ⟨[],rfl⟩ ops fun x hx => hlate x (List.mem_append_left _ hx)
    have hfresh : t.urge = 0 := by
      have hf := (withBackend_ok ht).1
      unfold urge search
      rw [hf.timers,hf.inflight]
      rfl
    rwa [Machine.final,hfresh,Nat.zero_add] at h
  · intro hquiet
    have hu : Machine.Reachable (step C) t (Machine.final (step C) t ops) := ⟨ops,rfl⟩
    have h := run_pays C ht hk hu more fun x hx => hlate x (List.mem_append_right _ hx)
    have hzero : (run C (Machine.final (step C) t ops) more).countP caused = 0 :=
      List.countP_eq_zero.mpr fun x hx => by simp [hquiet x hx]
    have hurge := (steady_reachable ht hk hu).urge_le
    omega

theorem sends_have_causes_specimen :
    let u := Machine.final (step (scalar specimen)) specimenTunnel (specimenConfirm.take 2)
    (∀ x ∈ run (scalar specimen) u (specimenConfirm.drop 2), caused x = false) ∧
      (run (scalar specimen) u (specimenConfirm.drop 2)).countP (·.output.sent) ≤ 74 := by
  have hquiet : ∀ x ∈ run (scalar specimen) (Machine.final (step (scalar specimen)) specimenTunnel
      (specimenConfirm.take 2)) (specimenConfirm.drop 2), caused x = false := by decide +kernel
  exact ⟨hquiet,(sends_have_causes (scalar specimen) (withBackend_build (by decide +kernel)) rfl
    (specimenConfirm.take 2) (specimenConfirm.drop 2) (by decide +kernel)).2 hquiet⟩

end WireGuard
