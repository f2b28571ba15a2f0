import WireGuard.Spacing

/-!
# Handshake attempts end

An attempt counts from the initiation that started it. While it is pending and
the caller does not send, only retransmissions touch its clock, each comes one
pacing interval after the one before, and none comes once the attempt is
exhausted. Everything else that can happen meanwhile leaves it alone or ends it.
-/

set_option autoImplicit false

namespace WireGuard
open ByteString Tunnel

variable {P : Primitives}

/-- The calls that never start an attempt while one is pending. -/
def Op.waits : Op → Bool
  | .poll _ _ _ => true
  | .decapsulate _ _ _ _ _ _ => true
  | .setMtu _ => true
  | _ => false

def retransmitted (x : Transition P) : Bool :=
  match x.output with
  | .polled (.ok (.send _ .handshakeRetransmit)) => true
  | _ => false

/-- A call has returned an initiation that is not a retransmission. -/
def startedAttempt (x : Transition P) : Bool := x.output.initiation?.isSome && !retransmitted x

def Timers.attempt (tm : Timers) : Option Ticks × Option Ticks :=
  (tm.attemptStarted,tm.retransmitAt)

/-- An attempt that started at `t0` and has been repeated `k` times. -/
structure Attempt (t0 : Ticks) (k : ℕ) (tm : Timers) : Prop where
  started : tm.attemptStarted = some t0
  count : k*rekeyTimeout < rekeyAttemptTime
  deadline : ∃ at', tm.retransmitAt = some at' ∧ t0.nanos+(k+1)*rekeyTimeout ≤ at'.nanos ∧
    at'.nanos < t0.nanos+rekeyAttemptTime+(rekeyTimeout+rekeyTimeoutJitterMax)

theorem Attempt.congr {t0 : Ticks} {k : ℕ} {tm tm' : Timers} (h : Attempt t0 k tm)
    (he : tm'.attempt = tm.attempt) : Attempt t0 k tm' := by
  simp only [Timers.attempt,Prod.mk.injEq] at he
  refine ⟨he.1.trans h.started,h.count,?_⟩
  rw [he.2]
  exact h.deadline

theorem Attempt.count_le {t0 : Ticks} {k : ℕ} {tm : Timers} (h : Attempt t0 k tm) : k ≤ 17 := by
  have hc : k*(5*1000000000) < 90*1000000000 := h.count
  omega

theorem Attempt.noteInitiationTx {t0 now : Ticks} {k : ℕ} {tm : Timers} (jitter : ℕ)
    (hmax : t0.nanos+rekeyAttemptTime+(rekeyTimeout+rekeyTimeoutJitterMax) ≤ u64Max)
    (hs : tm.attemptStarted.getD now = t0) (hle : t0.nanos+k*rekeyTimeout ≤ now.nanos)
    (hlt : now.nanos < t0.nanos+rekeyAttemptTime) :
    Attempt t0 k (tm.noteInitiationTx now jitter) := by
  have hj : min jitter rekeyTimeoutJitterMax ≤ rekeyTimeoutJitterMax := Nat.min_le_right _ _
  refine ⟨congrArg some hs,?_,_,rfl,?_⟩
  · exact Nat.lt_of_add_lt_add_left (hle.trans_lt hlt)
  rw [Ticks.addNanos_addNanos,Ticks.addNanos_nanos_of_le]
  · rw [Nat.add_mul,Nat.one_mul,← Nat.add_assoc]
    exact ⟨Nat.add_le_add hle (Nat.le_add_right _ _),
      Nat.add_lt_add_of_lt_of_le hlt (Nat.add_le_add_left hj _)⟩
  · exact (Nat.add_le_add hlt.le (Nat.add_le_add_left hj _)).trans hmax

section Pending

variable {t0 : Ticks} {k : ℕ} {t : Tunnel P}

theorem Attempt.due (h : Attempt t0 k t.timers) (hr : t.retransmitDue t.lastNow = true) :
    t0.nanos+(k+1)*rekeyTimeout ≤ t.lastNow.nanos := by
  obtain ⟨at',hat,hle,_⟩ := h.deadline
  simp only [retransmitDue,Bool.and_eq_true,hat,decide_eq_true_eq] at hr
  exact hle.trans hr.2

theorem Attempt.not_due (h : Attempt t0 k t.timers) (hi : t.inflight ≠ none)
    (hr : t.retransmitDue t.lastNow = false) :
    t.lastNow.nanos < t0.nanos+rekeyAttemptTime+(rekeyTimeout+rekeyTimeoutJitterMax) := by
  obtain ⟨at',hat,_,hlt⟩ := h.deadline
  have hsome : t.inflight.isSome = true := Option.isSome_iff_ne_none.mpr hi
  simp only [retransmitDue,hsome,Bool.true_and,hat,decide_eq_false_iff_not,not_le] at hr
  exact lt_trans hr hlt

theorem Attempt.not_exhausted (h : Attempt t0 k t.timers)
    (he : t.timers.attemptExhausted t.lastNow = false) :
    t.lastNow.nanos < t0.nanos+rekeyAttemptTime := by
  unfold Timers.attemptExhausted Ticks.since at he
  rw [h.started] at he
  have hlt := of_decide_eq_false he
  omega

end Pending

theorem attempt_tidied {t u : Tunnel P} (h : Tidied t u)
    (ha : u.timers.attemptStarted = t.timers.attemptStarted) :
    u.timers.attempt = t.timers.attempt := by
  unfold Timers.attempt
  rw [ha,h.retransmitAt]

theorem attempt_commitSeal (t : Tunnel P) (now : Ticks) (payloadLen : Option ℕ) :
    (t.commitSeal now payloadLen).timers.attempt = t.timers.attempt := by
  obtain ⟨r,hr⟩ := commitSeal_noted t now payloadLen
  rw [hr]
  unfold Timers.noteSealed
  split <;> rfl

theorem attempt_commitTransport (t : Tunnel P) (now : Ticks) (slot : Slot) (s : Session)
    (replay : ReplayWindow) (n : ℕ) :
    (t.commitTransport now slot s replay n).inflight = none ∨
      (t.commitTransport now slot s replay n).timers.attempt = t.timers.attempt := by
  have harm : ∀ u : Tunnel P, ((u.armRecvRekey now).noteReceived now n).inflight = u.inflight := by
    intro u
    unfold armRecvRekey
    split <;> rfl
  by_cases hp : s.promotedBy slot = true
  · refine Or.inl ?_
    unfold commitTransport
    rw [show (!s.confirmed && slot == .next) = true from hp]
    exact harm _
  · obtain ⟨r,hr⟩ := commitTransport_noted t now slot s replay n
    refine Or.inr ?_
    rw [hr,Timers.noteAccepted,if_neg hp]
    rfl

theorem attempt_receipt {C : ChaChaImpl} {t : Tunnel P} {now : Now}
    {remote datagram out : List UInt8} {rng : Entropy} {r : Outcome P Received}
    (h : Receipt C t now remote datagram out rng r) :
    r.tunnel.inflight = none ∨ r.tunnel.timers.attempt = t.timers.attempt := by
  cases h with
  | rejected t' rest e ht => rcases ht with rfl | rfl | rfl | rfl <;> exact Or.inr rfl
  | completed m i keys hm hmac hi hx hk => exact Or.inl rfl
  | accepted m slot s plain hm hx hs hn ha hk ho => exact attempt_commitTransport _ _ _ _ _ _
  | _ => exact Or.inr rfl

/-- What one more call does to an attempt: `x` has repeated it in time, or has
ended it or left it alone and, if it was an idle poll, came in time. -/
def Continued (t0 : Ticks) (k : ℕ) (x : Transition P) : Prop :=
  retransmitted x = true ∧ x.after.lastNow.nanos < t0.nanos+rekeyAttemptTime ∧
    Attempt t0 (k+1) x.after.timers ∨
  retransmitted x = false ∧ (x.after.inflight = none ∨ Attempt t0 k x.after.timers) ∧
    (x.output = .polled (.ok .idle) → x.after.lastNow.nanos <
      t0.nanos+rekeyAttemptTime+(rekeyTimeout+rekeyTimeoutJitterMax))

theorem continued_kept (C : ChaChaImpl) {t0 : Ticks} {k : ℕ} {t u : Tunnel P} {op : Op}
    {now : Now} {out : List UInt8} {rng : Entropy} {reason : SendReason}
    (h : Attempt t0 k u.timers) (hn : now.ticks = u.lastNow)
    (hc : u.currentUsable u.lastNow = true) (hr : reason ≠ .handshakeRetransmit) :
    let o := (u.sendKeepalive C now out rng).sendAs reason
    Continued t0 k ⟨t,op,.polled o.result,o.tunnel⟩ := by
  intro o
  refine Or.inr ⟨?_,Or.inr ?_,fun hidle => absurd (Output.polled.inj hidle) (sendAs_ne_idle _ _)⟩
  · by_contra hre
    unfold retransmitted at hre
    split at hre
    · rename_i hw
      exact hr (sendAs_reason (Output.polled.inj hw))
    · exact hre rfl
  · obtain hs | ⟨s,_,_,hs⟩ := sendKeepalive_cases C u now out rng hn hc
    · dsimp only [o,Outcome.sendAs]
      rw [hs]
      exact h
    · dsimp only [o,Outcome.sendAs]
      rw [hs]
      exact h.congr (attempt_commitSeal u u.lastNow none)

theorem continued_poll (C : ChaChaImpl) {t0 : Ticks} {k : ℕ} {t : Tunnel P}
    (hmax : t0.nanos+rekeyAttemptTime+(rekeyTimeout+rekeyTimeoutJitterMax) ≤ u64Max)
    (h : Attempt t0 k t.timers) (hi : t.inflight ≠ none) (now : Now) (out : List UInt8)
    (rng : Entropy) : Continued t0 k (Machine.advance (step C) t (.poll now out rng)) := by
  have hg := poll_polled C t now out rng
  have hn : (t.reading now).ticks = (t.observe now).lastNow := rfl
  replace h : Attempt t0 k (t.observe now).timers := h
  replace hi : (t.observe now).inflight ≠ none := hi
  have hx : Machine.advance (step C) t (.poll now out rng) =
    ⟨t,.poll now out rng,.polled (t.poll C now out rng).result,(t.poll C now out rng).tunnel⟩ := rfl
  rw [hx]
  generalize t.poll C now out rng = o at hg
  generalize t.observe now = v at hg hn h hi
  generalize t.reading now = now' at hg hn
  cases hg with
  | discarded u hu hd => exact Or.inr ⟨rfl,Or.inl rfl,fun hidle => by cases hidle⟩
  | abandoned u hu hd hr he => exact Or.inr ⟨rfl,Or.inl rfl,fun hidle => by cases hidle⟩
  | initiated u reason hu hd hl =>
    cases hl with
    | afresh hnone => exact absurd hnone hi
    | again hr he ha =>
      have hau := h.congr (attempt_tidied hu ha)
      obtain ⟨rest,e,ho⟩ | ⟨index,eph,jitter,rest,_,ho⟩ :=
        sendInitiation_emit u now' out rng true (fun w => PollOutput.send w .handshakeRetransmit)
          (hn.trans hu.lastNow.symm)
      · rw [ho]
        exact Or.inr ⟨rfl,Or.inr hau,fun hidle => by cases hidle⟩
      · rw [ho]
        have hlt := h.not_exhausted he
        have hle := h.due hr
        rw [← hu.lastNow] at hlt hle
        refine Or.inl ⟨rfl,hlt,Attempt.noteInitiationTx jitter hmax ?_ hle hlt⟩
        rw [hau.started]
        rfl
  | kept u reason hu hd ht hc howe =>
    refine continued_kept C (h.congr (attempt_tidied hu.tidied hu.attempt))
      (hn.trans hu.tidied.lastNow.symm) ?_ (by cases howe <;> simp)
    rwa [hu.tidied.currentUsable,hu.tidied.lastNow]
  | idle hp hidle =>
    have hu := pursued_settle hp
    refine Or.inr ⟨rfl,Or.inr (h.congr (attempt_tidied hu.tidied hu.attempt)),fun _ => ?_⟩
    dsimp only
    rw [hu.tidied.lastNow]
    exact h.not_due hi hp.retransmit

theorem continued_step (C : ChaChaImpl) {t0 : Ticks} {k : ℕ} {t : Tunnel P}
    (hmax : t0.nanos+rekeyAttemptTime+(rekeyTimeout+rekeyTimeoutJitterMax) ≤ u64Max)
    (h : Attempt t0 k t.timers) (hi : t.inflight ≠ none) {op : Op} (hop : op.waits = true) :
    Continued t0 k (Machine.advance (step C) t op) := by
  cases op with
  | poll now out rng => exact continued_poll C hmax h hi now out rng
  | setMtu mtu => exact Or.inr ⟨rfl,Or.inr h,fun hidle => by cases hidle⟩
  | decapsulate now remote underLoad datagram out rng =>
    obtain ⟨o,ho,hs⟩ := step_receipt C t now remote datagram out underLoad rng
    unfold Machine.advance
    rw [hs]
    refine Or.inr ⟨rfl,?_,fun hidle => by cases hidle⟩
    rcases attempt_receipt ho with hnone | hsame
    · exact Or.inl hnone
    · exact Or.inr (h.congr hsame)
  | _ => cases hop

structure Bounded (t0 : Ticks) (h : List (Transition P)) : Prop where
  count : h.countP retransmitted ≤ 17
  early : ∀ x ∈ h, retransmitted x = true → x.after.lastNow.nanos < t0.nanos+rekeyAttemptTime
  idle : ∀ x ∈ h, x.output = .polled (.ok .idle) → x.after.lastNow.nanos <
    t0.nanos+rekeyAttemptTime+(rekeyTimeout+rekeyTimeoutJitterMax)

theorem countP_retransmitted_append (l : List (Transition P)) (x : Transition P) :
    (l++[x]).countP retransmitted = l.countP retransmitted+(retransmitted x).toNat := by
  rw [List.countP_append,List.countP_singleton]
  cases retransmitted x <;> rfl

theorem Bounded.append {t0 : Ticks} {l : List (Transition P)} {x : Transition P}
    (h : Bounded t0 l) (hx : Continued t0 (l.countP retransmitted) x) :
    Bounded t0 (l++[x]) ∧
      (x.after.inflight = none ∨ Attempt t0 ((l++[x]).countP retransmitted) x.after.timers) := by
  have hmem : ∀ y ∈ l++[x], y ∈ l ∨ y = x := by
    intro y hy
    simpa using hy
  rw [countP_retransmitted_append]
  rcases hx with ⟨hr,hlt,hnext⟩ | ⟨hr,hnext,hidle⟩
  · refine ⟨⟨?_,fun y hy hyr => ?_,fun y hy hyi => ?_⟩,Or.inr (by rwa [hr])⟩
    · rw [countP_retransmitted_append,hr]
      exact hnext.count_le
    · rcases hmem y hy with hy | rfl
      · exact h.early y hy hyr
      · exact hlt
    · rcases hmem y hy with hy | rfl
      · exact h.idle y hy hyi
      · rw [retransmitted,hyi] at hr
        cases hr
  · refine ⟨⟨?_,fun y hy hyr => ?_,fun y hy hyi => ?_⟩,by rwa [hr]⟩
    · rw [countP_retransmitted_append,hr]
      exact h.count
    · rcases hmem y hy with hy | rfl
      · exact h.early y hy hyr
      · rw [hr] at hyr
        cases hyr
    · rcases hmem y hy with hy | rfl
      · exact h.idle y hy hyi
      · exact hidle hyi

theorem bounded_run (C : ChaChaImpl) {t0 : Ticks} {t : Tunnel P}
    (hmax : t0.nanos+rekeyAttemptTime+(rekeyTimeout+rekeyTimeoutJitterMax) ≤ u64Max)
    (h : Attempt t0 0 t.timers) (ops : List Op)
    (hops : ∀ x ∈ run C t ops, x.input.waits = true ∧ x.before.inflight ≠ none) :
    Bounded t0 (run C t ops) := by
  have hinv := Machine.history_invariant (step C) t
    (fun l u => (∀ x ∈ l, x.input.waits = true ∧ x.before.inflight ≠ none) →
      Bounded t0 l ∧ (u.inflight = none ∨ Attempt t0 (l.countP retransmitted) u.timers))
    (fun _ => ⟨⟨Nat.zero_le _,fun x hx => absurd hx List.not_mem_nil,
      fun x hx => absurd hx List.not_mem_nil⟩,Or.inr h⟩) ?_ ops
  · exact (hinv hops).1
  intro l u op hold hops
  obtain ⟨hb,ha⟩ := hold fun x hx => hops x (List.mem_append_left _ hx)
  obtain ⟨hwaits,hpending⟩ := hops (Machine.advance (step C) u op) (by simp)
  exact hb.append (continued_step C hmax (ha.resolve_left hpending) hpending hwaits)

theorem attempt_started {α : Type} {t : Tunnel P} {now : Now} {out : List UInt8} {rng : Entropy}
    {timerDriven : Bool} {f : List UInt8 → α} (hn : now.ticks = t.lastNow)
    (ha : t.timers.attemptStarted = none)
    (hmax : t.lastNow.nanos+rekeyAttemptTime+(rekeyTimeout+rekeyTimeoutJitterMax) ≤ u64Max)
    {a : α} (hok : ((t.sendInitiation now out rng timerDriven).emit f).result = .ok a) :
    Attempt t.lastNow 0 ((t.sendInitiation now out rng timerDriven).emit f).tunnel.timers := by
  obtain ⟨rest,e,ho⟩ | ⟨index,eph,jitter,rest,_,ho⟩ :=
    sendInitiation_emit t now out rng timerDriven f hn
  · rw [ho] at hok
    cases hok
  · rw [ho]
    refine Attempt.noteInitiationTx jitter hmax (by rw [ha]; rfl) ?_ ?_
    · rw [Nat.zero_mul,Nat.add_zero]
    · exact Nat.lt_add_of_pos_right (by decide)

theorem attempt_encapsulate {C : ChaChaImpl} {t : Tunnel P} {now : Now} {payload : Payload}
    {out w : List UInt8} {rng : Entropy} (hn : now.ticks = t.lastNow)
    (hmax : t.lastNow.nanos+rekeyAttemptTime+(rekeyTimeout+rekeyTimeoutJitterMax) ≤ u64Max)
    (hw : (t.encapsulateAt C now payload out rng).result = .ok (.handshakeInitiation w)) :
    Attempt t.lastNow 0 (t.encapsulateAt C now payload out rng).tunnel.timers := by
  unfold encapsulateAt at hw ⊢
  rw [hn] at hw ⊢
  cases hu : t.currentUsable t.lastNow with
  | true =>
    obtain ⟨s,hs,hus⟩ := currentUsable_some hu
    rw [hu,if_neg (by simp),encapsulateSeal_eq C _ payload out rng hs
      (Session.usableForSend_iff.mp hus).2.1] at hw
    split at hw <;> cases hw
  | false =>
    rw [hu] at hw
    rw [Bool.not_false,if_pos rfl,encapsulateStart] at hw ⊢
    split at hw
    · cases hw
    rename_i hi
    split at hw
    · cases hw
    rename_i hp
    rw [if_neg hi,if_neg hp]
    exact attempt_started (t := t.clearGaveUp.restartAttempt) hn rfl hmax hw

theorem attempt_initiateHandshake {t : Tunnel P} {now : Now} {out w : List UInt8} {rng : Entropy}
    (hn : now.ticks = t.lastNow)
    (hmax : t.lastNow.nanos+rekeyAttemptTime+(rekeyTimeout+rekeyTimeoutJitterMax) ≤ u64Max)
    (hw : (t.initiateHandshakeAt now out rng).result = .ok w) :
    Attempt t.lastNow 0 (t.initiateHandshakeAt now out rng).tunnel.timers := by
  unfold initiateHandshakeAt at hw ⊢
  split at hw
  · cases hw
  · rename_i hp
    rw [if_neg hp]
    exact attempt_started (t := t.clearGaveUp.restartAttempt) hn rfl hmax hw

theorem attempt_poll {C : ChaChaImpl} {t : Tunnel P} {now : Now} {out w : List UInt8}
    {rng : Entropy} {o : Outcome P PollOutput} (hn : now.ticks = t.lastNow)
    (hmax : t.lastNow.nanos+rekeyAttemptTime+(rekeyTimeout+rekeyTimeoutJitterMax) ≤ u64Max)
    (hg : Polled C t now out rng o) (hw : o.result = .ok (.send w .handshakeInitiation)) :
    Attempt t.lastNow 0 o.tunnel.timers := by
  cases hg with
  | discarded u hu hd => cases hw
  | abandoned u hu hd hr he => cases hw
  | initiated u reason hu hd hl =>
    cases emit_reason hw
    cases hl with
    | afresh hi hp hwhy ha =>
      rw [← hu.lastNow] at hn hmax ⊢
      exact attempt_started hn ha hmax hw
  | kept u reason hu hd ht hc howe =>
    cases sendAs_reason hw
    cases howe
  | idle hp hi => cases hw

theorem startedAttempt_output {x : Transition P} (h : startedAttempt x = true) :
    ∃ w, x.output = .encapsulated (.ok (.handshakeInitiation w)) ∨
      x.output = .polled (.ok (.send w .handshakeInitiation)) ∨ x.output = .initiated (.ok w) := by
  simp only [startedAttempt,Bool.and_eq_true] at h
  obtain ⟨w,hw⟩ := Option.isSome_iff_exists.mp h.1
  refine ⟨w,?_⟩
  unfold Output.initiation? at hw
  split at hw
  · rename_i ho
    exact Or.inl (Option.some.inj hw ▸ ho)
  · rename_i ho
    exact Or.inr (Or.inl (Option.some.inj hw ▸ ho))
  · rename_i ho
    rw [retransmitted,ho] at h
    cases h.2
  · rename_i ho
    exact Or.inr (Or.inr (Option.some.inj hw ▸ ho))
  · cases hw

/-- Every initiation that is not a retransmission starts an attempt. -/
theorem attempt_of_started {C : ChaChaImpl} {t : Tunnel P} {op : Op}
    (h : startedAttempt (Machine.advance (step C) t op) = true)
    (hmax : (step C t op).1.lastNow.nanos+rekeyAttemptTime+
      (rekeyTimeout+rekeyTimeoutJitterMax) ≤ u64Max) :
    Attempt (step C t op).1.lastNow 0 (step C t op).1.timers := by
  have hl : (step C t op).1.lastNow = (t.seen op).lastNow := (step_deed C t op).lastNow
  rw [hl] at hmax ⊢
  obtain ⟨w,hw⟩ := startedAttempt_output h
  unfold Machine.advance at hw
  cases op with
  | encapsulate now payload out rng =>
    have hn : (t.reading now).ticks = (t.observe now).lastNow := rfl
    rw [step,encapsulate,clampNow_eq] at hw ⊢
    exact attempt_encapsulate hn hmax (by simpa [Tunnel.seen] using hw)
  | poll now out rng =>
    have hn : (t.reading now).ticks = (t.observe now).lastNow := rfl
    exact attempt_poll hn hmax (poll_polled C t now out rng) (by simpa [step] using hw)
  | initiateHandshake now out rng =>
    have hn : (t.reading now).ticks = (t.observe now).lastNow := rfl
    rw [step,initiateHandshake,clampNow_eq] at hw ⊢
    exact attempt_initiateHandshake hn hmax (by simpa [Tunnel.seen] using hw)
  | _ => simp [step] at hw

/-- While the caller only polls, receives and changes the MTU, an attempt is
repeated at most 17 times, never once it is exhausted, and a poll that finds
nothing to do while it is pending came soon enough. -/
theorem attempt_bounded (C : ChaChaImpl) (t : Tunnel P) (op : Op)
    (hstart : startedAttempt (Machine.advance (step C) t op) = true)
    (hmax : (step C t op).1.lastNow.nanos+rekeyAttemptTime+
      (rekeyTimeout+rekeyTimeoutJitterMax) ≤ u64Max)
    (ops : List Op) (hops : ∀ x ∈ run C (step C t op).1 ops,
      x.input.waits = true ∧ x.before.inflight ≠ none) :
    let t0 := (step C t op).1.lastNow
    let h := run C (step C t op).1 ops
    h.countP retransmitted ≤ 17 ∧
      (∀ x ∈ h, retransmitted x = true → x.after.lastNow.nanos < t0.nanos+rekeyAttemptTime) ∧
      ∀ x ∈ h, x.output = .polled (.ok .idle) → x.after.lastNow.nanos <
        t0.nanos+rekeyAttemptTime+rekeyTimeout+rekeyTimeoutJitterMax := by
  intro t0 h
  have hb := bounded_run C hmax (attempt_of_started hstart hmax) ops hops
  refine ⟨hb.count,hb.early,fun x hx hi => ?_⟩
  rw [Nat.add_assoc]
  exact hb.idle x hx hi

theorem attempt_bounded_specimen :
    let op := specimenAttempts.get ⟨0,by decide⟩
    let h := run (scalar specimen) (step (scalar specimen) specimenTunnel op).1
      (specimenAttempts.drop 2)
    h.countP retransmitted = 1 ∧ h.countP retransmitted ≤ 17 :=
  ⟨by decide +kernel,(attempt_bounded (scalar specimen) specimenTunnel
    (specimenAttempts.get ⟨0,by decide⟩) (by decide +kernel) (by decide +kernel)
    (specimenAttempts.drop 2) (by decide +kernel)).1⟩

end WireGuard
