import WireGuard.Revival

/-!
# Calls with a buffer that is too small

A sending call edits the tunnel before it tries to send: the give-up mark and
the start of the attempt are cleared, `poll` drops an expired next session and
flags that cannot be served. When the send then fails for want of room, the
edits stay. The conditions below name the states in which there was nothing
to edit.
-/

set_option autoImplicit false

namespace WireGuard
open Tunnel

variable {P : Primitives}

/-- Only the clock may differ. -/
def SameButClock (t t' : Tunnel P) : Prop := t' = {t with lastNow := t'.lastNow}

/-- There is no attempt for a new initiation to start over. -/
def Tunnel.Unstarted (t : Tunnel P) : Prop :=
  t.timers.gaveUp = false ∧ t.timers.attemptStarted = none

def Tunnel.HandshakeDue (t : Tunnel P) (now : Ticks) : Prop :=
  t.inflight = none ∧ t.timers.initiationAllowed now = true ∧
    (t.timers.rekeyDue = true ∨ t.timers.deadPeerDue now = true)

/-- Nothing that `poll` edits in front of its send is there to be edited. -/
structure Tunnel.Unedited (t : Tunnel P) (now : Ticks) : Prop where
  next : ∀ s, t.next = some s → s.age now < rejectAfterTime
  attempt : t.retransmitDue now = false → t.HandshakeDue now → t.timers.attemptStarted = none
  rekey : t.retransmitDue now = false → ¬t.HandshakeDue now → t.currentUsable now = true →
    t.timers.rekeyDue = true → t.inflight = none
  revival : t.retransmitDue now = false → ¬t.HandshakeDue now → t.currentUsable now = false →
    t.Unstarted ∧ t.timers.confirmKeepaliveDue = false ∧ t.timers.passiveKeepaliveDue now = false

section Failing

variable {α : Type} {t : Tunnel P} {now : Now} {out : List UInt8} {rng : Entropy} {e : Error}

theorem sendInitiation_failed {timerDriven : Bool} {f : List UInt8 → α}
    (hn : now.ticks = t.lastNow)
    (h : ((t.sendInitiation now out rng timerDriven).emit f).result = .error e) :
    ((t.sendInitiation now out rng timerDriven).emit f).tunnel = t := by
  rcases sendInitiation_emit t now out rng timerDriven f hn with ⟨rest,e',he⟩ |
    ⟨index,eph,jitter,rest,_,he⟩
  · rw [he]
  · rw [he] at h
    cases h

theorem sendKeepalive_failed {C : ChaChaImpl} {reason : SendReason}
    (hu : t.currentUsable now.ticks = true)
    (h : ((t.sendKeepalive C now out rng).sendAs reason).result = .error e) :
    ((t.sendKeepalive C now out rng).sendAs reason).tunnel = t := by
  obtain ⟨s,hc,hus⟩ := currentUsable_some hu
  rw [sendKeepalive_eq C now out rng hc (Session.usableForSend_iff.mp hus).2.1] at h ⊢
  split at h
  · rename_i hlen
    rw [if_pos hlen]
    rfl
  · cases h

end Failing

section Clearing

variable {t : Tunnel P}

theorem clear_eq_iff : t.clearGaveUp.restartAttempt = t ↔ t.Unstarted := by
  constructor
  · intro h
    have hg := congrArg (fun u => u.timers.gaveUp) h
    have ha := congrArg (fun u => u.timers.attemptStarted) h
    exact ⟨hg.symm,ha.symm⟩
  · rintro ⟨hg,ha⟩
    unfold restartAttempt clearGaveUp
    rw [← hg,← ha]

theorem restartAttempt_eq_iff : t.restartAttempt = t ↔ t.timers.attemptStarted = none := by
  constructor
  · intro h
    exact (congrArg (fun u => u.timers.attemptStarted) h).symm
  · intro h
    unfold restartAttempt
    rw [← h]

end Clearing

theorem andThen_done {f : Flow P} {k : Tunnel P → Flow P} {o : Outcome P PollOutput} :
    f.andThen k = .done o ↔ f = .done o ∨ ∃ v, f = .next v ∧ k v = .done o := by
  cases f with
  | done o' => simp [Flow.andThen]
  | next v => simp [Flow.andThen]

section Blocks

variable {C : ChaChaImpl} {t : Tunnel P} {now : Now} {out : List UInt8} {rng : Entropy}
  {o : Outcome P PollOutput} {e : Error}

theorem pollDiscard_failed (hf : t.pollDiscard now out rng = .done o) : o.result ≠ .error e := by
  unfold pollDiscard at hf
  split at hf
  · cases hf
  split at hf
  · cases hf
    simp
  · cases hf

theorem pollRetransmit_failed (hn : now.ticks = t.lastNow)
    (hf : t.pollRetransmit now out rng = .done o) (h : o.result = .error e) :
    t.retransmitDue now.ticks = true ∧ o.tunnel = t := by
  unfold pollRetransmit at hf
  split at hf
  · rename_i hd
    split at hf
    · cases hf
      cases h
    · cases hf
      exact ⟨hd,sendInitiation_failed hn h⟩
  · cases hf

theorem pollRekey_failed (hn : now.ticks = t.lastNow)
    (hf : t.pollRekey now out rng = .done o) (h : o.result = .error e) :
    t.HandshakeDue now.ticks ∧ o.tunnel = t.restartAttempt := by
  unfold pollRekey at hf
  split at hf
  · rename_i hd
    split at hf
    · cases hf
    rename_i hi
    split at hf
    · rename_i ha
      cases hf
      exact ⟨⟨by simpa using hi,ha,Or.inl hd⟩,sendInitiation_failed (t := t.restartAttempt) hn h⟩
    · cases hf
  · cases hf

theorem pollDeadPeer_failed (hn : now.ticks = t.lastNow)
    (hf : t.pollDeadPeer now out rng = .done o) (h : o.result = .error e) :
    t.HandshakeDue now.ticks ∧ o.tunnel = t.restartAttempt := by
  unfold pollDeadPeer at hf
  split at hf
  · rename_i hd
    simp only [Bool.and_eq_true,Option.isNone_iff_eq_none] at hd
    cases hf
    exact ⟨⟨hd.1.1,hd.2,Or.inr hd.1.2⟩,sendInitiation_failed (t := t.restartAttempt) hn h⟩
  · cases hf

theorem pollConfirm_failed (hf : t.pollConfirm C now out rng = .done o) (h : o.result = .error e) :
    t.currentUsable now.ticks = true ∧ o.tunnel = t := by
  unfold pollConfirm at hf
  split at hf
  · split at hf
    · rename_i hu
      cases hf
      exact ⟨hu,sendKeepalive_failed hu h⟩
    · cases hf
  · cases hf

theorem pollPassive_failed (hf : t.pollPassive C now out rng = .done o) (h : o.result = .error e) :
    t.currentUsable now.ticks = true ∧ o.tunnel = t := by
  unfold pollPassive at hf
  split at hf
  · split at hf
    · rename_i hu
      cases hf
      exact ⟨hu,sendKeepalive_failed hu h⟩
    · cases hf
  · cases hf

theorem pollPersistent_failed (hn : now.ticks = t.lastNow)
    (h : (t.pollPersistent C now out rng).result = .error e) :
    t.currentUsable now.ticks = true ∧ (t.pollPersistent C now out rng).tunnel = t ∨
    t.currentUsable now.ticks = false ∧ t.inflight = none ∧
      (t.pollPersistent C now out rng).tunnel = t.clearGaveUp.restartAttempt := by
  unfold pollPersistent at h ⊢
  split at h
  · cases h
  split at h
  · rename_i hu
    rw [if_pos hu]
    split at h
    · rename_i hs
      rw [if_pos hs]
      exact Or.inl ⟨hu,sendKeepalive_failed hu h⟩
    · cases h
  · rename_i hu
    rw [if_neg hu]
    split at h
    · rename_i hs
      rw [if_pos hs]
      simp only [Bool.and_eq_true,Option.isNone_iff_eq_none] at hs
      exact Or.inr ⟨Bool.eq_false_iff.mpr hu,hs.1.1,
        sendInitiation_failed (t := t.clearGaveUp.restartAttempt) hn h⟩
    · cases h

/-- The tunnel that a failed `poll` leaves, by the kind of send that failed. -/
inductive Staged (t : Tunnel P) (now : Ticks) : Tunnel P → Prop
  | retransmit (hr : t.retransmitDue now = true) : Staged t now (t.expireNext now)
  | handshake (hr : t.retransmitDue now = false) (hd : t.HandshakeDue now) :
      Staged t now (t.expireNext now).restartAttempt
  | keepalive (hr : t.retransmitDue now = false) (hd : ¬t.HandshakeDue now)
      (hu : t.currentUsable now = true) : Staged t now (t.expireNext now).afterRekey
  | revival (hr : t.retransmitDue now = false) (hd : ¬t.HandshakeDue now)
      (hu : t.currentUsable now = false) (hi : t.inflight = none) :
      Staged t now (t.settle now).clearGaveUp.restartAttempt

section Expiring

variable (t : Tunnel P) (now : Ticks)

theorem expireNext_retransmitDue : (t.expireNext now).retransmitDue now = t.retransmitDue now := by
  rw [expireNext_frame]
  rfl

theorem expireNext_handshakeDue : (t.expireNext now).HandshakeDue now ↔ t.HandshakeDue now := by
  rw [expireNext_frame]
  rfl

theorem expireNext_currentUsable : (t.expireNext now).currentUsable now = t.currentUsable now := by
  rw [expireNext_frame]
  rfl

theorem expireNext_lastNow : (t.expireNext now).lastNow = t.lastNow := by
  rw [expireNext_frame]

end Expiring

theorem pollTimers_failed (hn : now.ticks = t.lastNow)
    (hf : t.pollTimers C now out rng = .done o) (h : o.result = .error e) :
    Staged t now.ticks o.tunnel := by
  have hvn : now.ticks = (t.expireNext now.ticks).lastNow := hn.trans (expireNext_lastNow _ _).symm
  have hvr := expireNext_retransmitDue t now.ticks
  have hvh := expireNext_handshakeDue t now.ticks
  have hvu := expireNext_currentUsable t now.ticks
  unfold pollTimers at hf
  simp only [andThen_done,Flow.next.injEq,reduceCtorEq,false_or,exists_eq_left'] at hf
  rcases hf with hf | ⟨_,h1,hf⟩
  · exact absurd h (pollDiscard_failed hf)
  obtain ⟨rfl,_⟩ := pollDiscard_next.mp h1
  rcases hf with hf | ⟨_,h2,hf⟩
  · obtain ⟨hr,ht⟩ := pollRetransmit_failed hvn hf h
    exact ht ▸ .retransmit (hvr.symm.trans hr)
  obtain ⟨rfl,hr⟩ := pollRetransmit_next.mp h2
  rw [hvr] at hr
  rcases hf with hf | ⟨_,h3,hf⟩
  · obtain ⟨hd,ht⟩ := pollRekey_failed hvn hf h
    exact ht ▸ .handshake hr (hvh.mp hd)
  obtain ⟨rfl,hk⟩ := pollRekey_next.mp h3
  rcases hf with hf | ⟨_,h4,hf⟩
  · -- no handshake is pending here, so the rekey flag was kept
    obtain ⟨hd,ht⟩ := pollDeadPeer_failed (t := (t.expireNext now.ticks).afterRekey) hvn hf h
    have hi : (t.expireNext now.ticks).inflight = none := hd.1
    rw [← eq_afterRekey (by simp [hi])] at hd ht
    exact ht ▸ .handshake hr (hvh.mp hd)
  obtain ⟨rfl,hp⟩ := pollDeadPeer_next.mp h4
  have hd : ¬t.HandshakeDue now.ticks := by
    rw [← hvh]
    rintro ⟨hi,ha,hr | hr⟩
    · cases ha.symm.trans (hk hr hi)
    · cases ha.symm.trans (hp hi hr)
  rcases hf with hf | ⟨_,h5,hf⟩
  · obtain ⟨hc,ht⟩ := pollConfirm_failed hf h
    exact ht ▸ .keepalive hr hd (hvu.symm.trans hc)
  obtain ⟨rfl,hcc⟩ := pollConfirm_next.mp h5
  obtain ⟨hc,ht⟩ := pollPassive_failed hf h
  have hcf : (t.expireNext now.ticks).afterRekey.timers.confirmKeepaliveDue = false := by
    by_contra hcd
    cases hc.symm.trans (hcc (by simpa using hcd))
  rw [← eq_dropConfirm hcf] at ht
  exact ht ▸ .keepalive hr hd (hvu.symm.trans hc)

theorem settle_usable (hp : t.Passed now.ticks) (hu : t.currentUsable now.ticks = true) :
    t.settle now.ticks = (t.expireNext now.ticks).afterRekey := by
  have hc : (t.expireNext now.ticks).afterRekey.timers.confirmKeepaliveDue = false := by
    rw [expireNext_frame]
    by_contra hcd
    cases hu.symm.trans (hp.confirm (Bool.eq_true_of_not_eq_false hcd))
  have hq : (t.expireNext now.ticks).afterRekey.timers.passiveKeepaliveDue now.ticks = false := by
    rw [expireNext_frame]
    by_contra hpd
    cases hu.symm.trans (hp.passive (Bool.eq_true_of_not_eq_false hpd))
  rw [settle,← eq_dropConfirm hc,afterPassive,hq]
  rfl

theorem pollAt_failed (hn : now.ticks = t.lastNow)
    (h : (t.pollAt C now out rng).result = .error e) :
    Staged t now.ticks (t.pollAt C now out rng).tunnel := by
  unfold pollAt at h ⊢
  split at h
  · rename_i o hf
    exact pollTimers_failed hn hf h
  · rename_i w hf
    obtain ⟨rfl,hp⟩ := pollTimers_next.mp hf
    have hd : ¬t.HandshakeDue now.ticks := by
      rintro ⟨hi,ha,hr | hr⟩
      · cases ha.symm.trans (hp.rekey hr hi)
      · cases ha.symm.trans (hp.deadPeer hi hr)
    have hs := settle_eq t now.ticks
    have hus : (t.settle now.ticks).currentUsable now.ticks = t.currentUsable now.ticks := by
      rw [hs]
      rfl
    rcases pollPersistent_failed (by rw [hs]; exact hn) h with ⟨hc,ht⟩ | ⟨hc,hi,ht⟩
    · rw [hus] at hc
      rw [ht,settle_usable hp hc]
      exact .keepalive hp.retransmit hd hc
    · rw [hs] at hi
      exact ht ▸ .revival hp.retransmit hd (hus.symm.trans hc) hi

end Blocks

section Comparing

variable {t u : Tunnel P} {now : Ticks}

theorem expireNext_eq_iff :
    t.expireNext now = t ↔ ∀ s, t.next = some s → s.age now < rejectAfterTime := by
  constructor
  · intro h s hs
    rw [← h] at hs
    exact expireNext_age hs
  · exact expireNext_of_young

theorem expired_eq_iff {f : Tunnel P → Tunnel P} (hf : ∀ w, (f w).next = w.next) :
    f (t.expireNext now) = t ↔ t.expireNext now = t ∧ f t = t := by
  constructor
  · intro h
    have hx : (t.expireNext now).next = t.next := by rw [← hf,h]
    have he : t.expireNext now = t := by rw [expireNext_frame,hx]
    rw [he] at h
    exact ⟨he,h⟩
  · rintro ⟨he,h⟩
    rw [he,h]

theorem afterRekey_eq_iff :
    t.afterRekey = t ↔ (t.timers.rekeyDue = true → t.inflight = none) := by
  constructor
  · intro h hr
    have hk := congrArg (fun u => u.timers.rekeyDue) h
    simpa [afterRekey,hr] using hk
  · intro h
    refine (eq_afterRekey ?_).symm
    cases hr : t.timers.rekeyDue with
    | true => simp [h hr]
    | false => rfl

theorem passiveKeepaliveDue_some (h : t.timers.passiveKeepaliveDue now = true) :
    t.timers.lastDataRx ≠ none := by
  intro hn
  simp [Timers.passiveKeepaliveDue,hn] at h

theorem revival_eq_iff (hi : t.inflight = none) :
    (t.settle now).clearGaveUp.restartAttempt = t ↔
      t.expireNext now = t ∧ t.Unstarted ∧ t.timers.confirmKeepaliveDue = false ∧
        t.timers.passiveKeepaliveDue now = false := by
  constructor
  · intro h
    rw [settle_eq] at h
    have hx := congrArg (fun u => u.next) h
    have hg := congrArg (fun u => u.timers.gaveUp) h
    have ha := congrArg (fun u => u.timers.attemptStarted) h
    have hc := congrArg (fun u => u.timers.confirmKeepaliveDue) h
    have hp := congrArg (fun u => u.timers.lastDataRx) h
    refine ⟨?_,⟨hg.symm,ha.symm⟩,hc.symm,?_⟩
    · rw [expireNext_frame,show (t.expireNext now).next = t.next from hx]
    · by_contra hd
      have hd : t.timers.passiveKeepaliveDue now = true := by simpa using hd
      simp only [clearGaveUp,restartAttempt,hd,if_true] at hp
      exact passiveKeepaliveDue_some hd hp.symm
  · rintro ⟨hx,⟨hg,ha⟩,hc,hp⟩
    rw [settle,hx,← eq_afterRekey (by simp [hi]),← eq_dropConfirm hc,afterPassive,hp,
      if_neg (by simp)]
    exact clear_eq_iff.mpr ⟨hg,ha⟩

theorem Staged.eq_iff (h : Staged t now u) : u = t ↔ t.Unedited now := by
  cases h with
  | retransmit hr =>
    rw [expireNext_eq_iff]
    exact ⟨fun h => ⟨h,fun hn => by simp [hr] at hn,fun hn => by simp [hr] at hn,
      fun hn => by simp [hr] at hn⟩,fun h => h.next⟩
  | handshake hr hd =>
    rw [expired_eq_iff (f := restartAttempt) (fun _ => rfl),expireNext_eq_iff,
      restartAttempt_eq_iff]
    exact ⟨fun h => ⟨h.1,fun _ _ => h.2,fun _ hn => absurd hd hn,fun _ hn => absurd hd hn⟩,
      fun h => ⟨h.next,h.attempt hr hd⟩⟩
  | keepalive hr hd hu =>
    rw [expired_eq_iff (f := afterRekey) (fun _ => rfl),expireNext_eq_iff,afterRekey_eq_iff]
    exact ⟨fun h => ⟨h.1,fun _ hn => absurd hn hd,fun _ _ _ => h.2,fun _ _ hn => by simp [hu] at hn⟩,
      fun h => ⟨h.next,h.rekey hr hd hu⟩⟩
  | revival hr hd hu hi =>
    rw [revival_eq_iff hi,expireNext_eq_iff]
    exact ⟨fun h => ⟨h.1,fun _ hn => absurd hn hd,fun _ _ hn => by simp [hu] at hn,
      fun _ _ _ => h.2⟩,fun h => ⟨h.next,h.revival hr hd hu⟩⟩

theorem Staged.lastNow (h : Staged t now u) : u.lastNow = t.lastNow := by
  cases h with
  | retransmit hr => exact expireNext_lastNow t now
  | handshake hr hd => exact expireNext_lastNow t now
  | keepalive hr hd hu => exact expireNext_lastNow t now
  | revival hr hd hu hi => rw [settle_eq]; rfl

end Comparing

theorem sameButClock_iff {t u : Tunnel P} {now : Now} (h : u.lastNow = (t.observe now).lastNow) :
    SameButClock t u ↔ u = t.observe now := by
  unfold SameButClock
  rw [h]
  rfl

theorem encapsulateAt_failed {C : ChaChaImpl} {t : Tunnel P} {now : Now} {payload : Payload}
    {out : List UInt8} {rng : Entropy} (hn : now.ticks = t.lastNow)
    (h : (t.encapsulateAt C now payload out rng).result = .error .bufferTooSmall) :
    t.currentUsable now.ticks = true ∧ (t.encapsulateAt C now payload out rng).tunnel = t ∨
    t.currentUsable now.ticks = false ∧
      (t.encapsulateAt C now payload out rng).tunnel = t.clearGaveUp.restartAttempt := by
  unfold encapsulateAt at h ⊢
  split at h
  · rename_i hu
    rw [if_pos hu]
    refine Or.inr ⟨by simpa using hu,?_⟩
    unfold encapsulateStart at h ⊢
    split at h
    · cases h
    rename_i hi
    rw [if_neg hi]
    split at h
    · cases h
    rename_i ha
    rw [if_neg ha]
    exact sendInitiation_failed (t := t.clearGaveUp.restartAttempt) hn h
  · rename_i hu
    rw [if_neg hu]
    have hu : t.currentUsable now.ticks = true := by simpa using hu
    obtain ⟨s,hc,hus⟩ := currentUsable_some hu
    refine Or.inl ⟨hu,?_⟩
    rw [encapsulateSeal_eq C now payload out rng hc (Session.usableForSend_iff.mp hus).2.1] at h ⊢
    split at h
    · rename_i hlen
      rw [if_pos hlen]
    · cases h

theorem initiateHandshakeAt_failed {t : Tunnel P} {now : Now} {out : List UInt8} {rng : Entropy}
    (hn : now.ticks = t.lastNow)
    (h : (t.initiateHandshakeAt now out rng).result = .error .bufferTooSmall) :
    (t.initiateHandshakeAt now out rng).tunnel = t.clearGaveUp.restartAttempt := by
  unfold initiateHandshakeAt at h ⊢
  split at h
  · cases h
  · rename_i ha
    rw [if_neg ha]
    exact sendInitiation_failed (t := t.clearGaveUp.restartAttempt) hn h

/-- A sending call that fails for want of room has changed nothing but the clock
exactly when there was nothing for it to edit: for `encapsulate` a session to
send on or no attempt to start over, for `initiateHandshake` no attempt to start
over, for `poll` none of the edits in front of its blocks. -/
theorem undersized_unchanged_iff (C : ChaChaImpl) (t : Tunnel P) (now : Now) (out : List UInt8)
    (rng : Entropy) :
    (∀ payload, (t.encapsulate C now payload out rng).result = .error .bufferTooSmall →
      (SameButClock t (t.encapsulate C now payload out rng).tunnel ↔
        t.currentUsable (t.reading now).ticks = true ∨ t.Unstarted)) ∧
    ((t.initiateHandshake now out rng).result = .error .bufferTooSmall →
      (SameButClock t (t.initiateHandshake now out rng).tunnel ↔ t.Unstarted)) ∧
    ((t.poll C now out rng).result = .error .bufferTooSmall →
      (SameButClock t (t.poll C now out rng).tunnel ↔ t.Unedited (t.reading now).ticks)) := by
  unfold encapsulate initiateHandshake poll
  rw [clampNow_eq]
  refine ⟨fun payload h => ?_,fun h => ?_,fun h => ?_⟩
  · rcases encapsulateAt_failed rfl h with ⟨hu,ht⟩ | ⟨hu,ht⟩
    · rw [sameButClock_iff (by rw [ht]),ht]
      exact ⟨fun _ => Or.inl hu,fun _ => rfl⟩
    · rw [sameButClock_iff (by rw [ht]; rfl),ht,clear_eq_iff]
      exact ⟨Or.inr,fun h => h.resolve_left (by rw [show t.currentUsable _ = false from hu]; simp)⟩
  · have ht := initiateHandshakeAt_failed rfl h
    rw [sameButClock_iff (by rw [ht]; rfl),ht,clear_eq_iff]
    rfl
  · have hs := pollAt_failed rfl h
    rw [sameButClock_iff hs.lastNow,hs.eq_iff]
    exact ⟨fun h => ⟨h.next,h.attempt,h.rekey,h.revival⟩,
      fun h => ⟨h.next,h.attempt,h.rekey,h.revival⟩⟩

/-- On a session that is to be confirmed there is nothing to edit. -/
theorem undersized_unchanged_specimen :
    let t := Machine.final (step (scalar specimen)) specimenPersistent (specimenOps.take 2)
    let now := specimenLater 6 (by decide)
    let rng : Entropy := List.replicate 3 (some (fun _ => 1))
    (t.encapsulate (scalar specimen) now specimenPayload [] rng).result =
        .error .bufferTooSmall ∧
      (t.initiateHandshake now [] rng).result = .error .bufferTooSmall ∧
      (t.poll (scalar specimen) now [] rng).result = .error .bufferTooSmall ∧
      SameButClock t (t.encapsulate (scalar specimen) now specimenPayload [] rng).tunnel ∧
      SameButClock t (t.initiateHandshake now [] rng).tunnel ∧
      SameButClock t (t.poll (scalar specimen) now [] rng).tunnel := by
  intro t now rng
  have hfail : (t.encapsulate (scalar specimen) now specimenPayload [] rng).result =
        .error .bufferTooSmall ∧
      (t.initiateHandshake now [] rng).result = .error .bufferTooSmall ∧
      (t.poll (scalar specimen) now [] rng).result = .error .bufferTooSmall := by
    decide +kernel
  have hstate : t.currentUsable (t.reading now).ticks = true ∧ t.next.isNone = true ∧
      t.timers.rekeyDue = false ∧ t.timers.gaveUp = false ∧ t.timers.attemptStarted = none := by
    decide +kernel
  obtain ⟨he,hi,hp⟩ := hfail
  obtain ⟨hu,hn,hr,hg,ha⟩ := hstate
  have hun : t.Unedited (t.reading now).ticks := by
    refine ⟨fun s hs => ?_,fun _ _ => ha,fun _ _ _ h => ?_,fun _ _ h => ?_⟩
    · rw [hs] at hn
      cases hn
    · cases hr.symm.trans h
    · cases hu.symm.trans h
  have h := undersized_unchanged_iff (scalar specimen) t now [] rng
  exact ⟨he,hi,hp,(h.1 specimenPayload he).mpr (Or.inl hu),(h.2.1 hi).mpr ⟨hg,ha⟩,
    (h.2.2 hp).mpr hun⟩

theorem giveUp_le_max : 95*second ≤ u64Max := by decide

/-- A handshake that is given up after 95 s. -/
def specimenGivenUp : List Op :=
  [.initiateHandshake ⟨Ticks.zero,0,0⟩ (List.replicate 148 0)
      (List.replicate 2 (some (fun _ => 0))),
    .poll (specimenLater 95 giveUp_le_max) [] []]

/-- Each of the three calls forgets that the last handshake was given up, though
it has sent nothing. -/
theorem undersized_forgets_give_up :
    let t := Machine.final (step (scalar specimen)) specimenPersistent specimenGivenUp
    let now := specimenLater 700 (by decide)
    let rng : Entropy := List.replicate 3 (some (fun _ => 1))
    t.timers.gaveUp = true ∧
      (t.encapsulate (scalar specimen) now specimenPayload [] rng).result =
        .error .bufferTooSmall ∧
      (t.encapsulate (scalar specimen) now specimenPayload [] rng).tunnel.timers.gaveUp = false ∧
      (t.initiateHandshake now [] rng).result = .error .bufferTooSmall ∧
      (t.initiateHandshake now [] rng).tunnel.timers.gaveUp = false ∧
      (t.poll (scalar specimen) now [] rng).result = .error .bufferTooSmall ∧
      (t.poll (scalar specimen) now [] rng).tunnel.timers.gaveUp = false := by
  decide +kernel

end WireGuard
