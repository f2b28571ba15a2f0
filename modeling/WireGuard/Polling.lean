import WireGuard.PollBlocks

/-!
# What a poll can do

A poll tidies up, and then discards the sessions, abandons the pending
handshake, sends an initiation, sends a keepalive or finds nothing to do. Which
of these it is and under which tests is stated once, for every later argument
about polls.
-/

set_option autoImplicit false

namespace WireGuard
open ByteString Tunnel

variable {P : Primitives}

def Timers.core (tm : Timers) : Timers :=
  {tm with
    lastDataRx := none
    attemptStarted := none
    rekeyDue := false
    confirmKeepaliveDue := false
    gaveUp := false}

def Tunnel.core (t : Tunnel P) : Tunnel P :=
  {t with mtu := none, next := none, timers := Timers.default, stats := Stats.default}

/-- `u` is `t` after some tidying up: an expired next session may be gone, flags
of the timers may be down, and a passive keepalive may be disarmed that could not
be sent. -/
structure Tidied (t u : Tunnel P) : Prop where
  core : u.core = t.core
  timers : u.timers.core = t.timers.core
  next : u.next = t.next ∨
    u.next = none ∧ ∃ s, t.next = some s ∧ rejectAfterTime ≤ s.age t.lastNow
  rekey : u.timers.rekeyDue = true → t.timers.rekeyDue = true
  confirm : u.timers.confirmKeepaliveDue = true → t.timers.confirmKeepaliveDue = true
  gaveUp : u.timers.gaveUp = true → t.timers.gaveUp = true
  passive : u.timers.lastDataRx = t.timers.lastDataRx ∨
    u.timers.lastDataRx = none ∧ t.currentUsable t.lastNow = false

namespace Tidied

variable {t u v : Tunnel P}

theorem refl (t : Tunnel P) : Tidied t t :=
  ⟨rfl,rfl,Or.inl rfl,id,id,id,Or.inl rfl⟩

theorem lastNow (h : Tidied t u) : u.lastNow = t.lastNow := by
  show u.core.lastNow = t.core.lastNow
  rw [h.core]

theorem inflight (h : Tidied t u) : u.inflight = t.inflight := by
  show u.core.inflight = t.core.inflight
  rw [h.core]

theorem previous (h : Tidied t u) : u.previous = t.previous := by
  show u.core.previous = t.core.previous
  rw [h.core]

theorem current (h : Tidied t u) : u.current = t.current := by
  show u.core.current = t.core.current
  rw [h.core]

theorem lastInitiationTx (h : Tidied t u) :
    u.timers.lastInitiationTx = t.timers.lastInitiationTx := by
  show u.timers.core.lastInitiationTx = t.timers.core.lastInitiationTx
  rw [h.timers]

theorem retransmitAt (h : Tidied t u) : u.timers.retransmitAt = t.timers.retransmitAt := by
  show u.timers.core.retransmitAt = t.timers.core.retransmitAt
  rw [h.timers]

theorem lastDataTx (h : Tidied t u) : u.timers.lastDataTx = t.timers.lastDataTx := by
  show u.timers.core.lastDataTx = t.timers.core.lastDataTx
  rw [h.timers]

theorem lastAnyTx (h : Tidied t u) : u.timers.lastAnyTx = t.timers.lastAnyTx := by
  show u.timers.core.lastAnyTx = t.timers.core.lastAnyTx
  rw [h.timers]

theorem lastAnyRx (h : Tidied t u) : u.timers.lastAnyRx = t.timers.lastAnyRx := by
  show u.timers.core.lastAnyRx = t.timers.core.lastAnyRx
  rw [h.timers]

theorem currentUsable (h : Tidied t u) (now : Ticks) :
    u.currentUsable now = t.currentUsable now := by
  unfold Tunnel.currentUsable
  rw [h.current]

theorem initiationAllowed (h : Tidied t u) (now : Ticks) :
    u.timers.initiationAllowed now = t.timers.initiationAllowed now := by
  unfold Timers.initiationAllowed
  rw [h.lastInitiationTx]

theorem retransmitDue (h : Tidied t u) (now : Ticks) :
    u.retransmitDue now = t.retransmitDue now := by
  unfold Tunnel.retransmitDue
  rw [h.inflight,h.retransmitAt]

theorem trans (h : Tidied t u) (h' : Tidied u v) : Tidied t v where
  core := h'.core.trans h.core
  timers := h'.timers.trans h.timers
  next := by
    rcases h'.next with hv | ⟨hv,s,hs,ha⟩
    · rw [hv]
      exact h.next
    · refine Or.inr ⟨hv,?_⟩
      rcases h.next with hu | ⟨hu,hold⟩
      · exact ⟨s,hu.symm.trans hs,h.lastNow ▸ ha⟩
      · exact hold
  rekey hr := h.rekey (h'.rekey hr)
  confirm hc := h.confirm (h'.confirm hc)
  gaveUp hg := h.gaveUp (h'.gaveUp hg)
  passive := by
    rcases h'.passive with hv | ⟨hv,hu⟩
    · rw [hv]
      exact h.passive
    · rw [h.currentUsable,h.lastNow] at hu
      exact Or.inr ⟨hv,hu⟩

end Tidied

section Tidying

variable (t : Tunnel P)

theorem tidied_expireNext : Tidied t (t.expireNext t.lastNow) := by
  have hf := expireNext_frame t t.lastNow
  refine ⟨by rw [hf]; rfl,by rw [hf],?_,by rw [hf]; exact id,by rw [hf]; exact id,
    by rw [hf]; exact id,Or.inl (by rw [hf])⟩
  unfold expireNext
  split
  · exact Or.inl rfl
  · rename_i s hs
    split
    · rename_i ha
      exact Or.inr ⟨rfl,s,hs,ha⟩
    · exact Or.inl rfl

theorem tidied_afterRekey : Tidied t t.afterRekey :=
  ⟨rfl,rfl,Or.inl rfl,fun h => (Bool.and_eq_true_iff.mp h).1,id,id,Or.inl rfl⟩

theorem tidied_dropConfirm : Tidied t t.dropConfirm :=
  ⟨rfl,rfl,Or.inl rfl,id,(fun h => by cases h),id,Or.inl rfl⟩

theorem tidied_afterPassive
    (h : t.timers.passiveKeepaliveDue t.lastNow = true → t.currentUsable t.lastNow = false) :
    Tidied t (t.afterPassive t.lastNow) := by
  unfold afterPassive
  split
  · rename_i hd
    exact ⟨rfl,rfl,Or.inl rfl,id,id,id,Or.inr ⟨rfl,h hd⟩⟩
  · exact .refl t

theorem tidied_restartAttempt : Tidied t t.restartAttempt :=
  ⟨rfl,rfl,Or.inl rfl,id,id,id,Or.inl rfl⟩

theorem tidied_touchAttempt (now : Ticks) : Tidied t (t.touchAttempt now) :=
  ⟨rfl,rfl,Or.inl rfl,id,id,id,Or.inl rfl⟩

theorem tidied_clearGaveUp : Tidied t t.clearGaveUp :=
  ⟨rfl,rfl,Or.inl rfl,id,id,(fun h => by cases h),Or.inl rfl⟩

end Tidying

/-- `u` is `t` after some tidying up in the midst of the same attempt. -/
structure Pursued (t u : Tunnel P) : Prop where
  tidied : Tidied t u
  attempt : u.timers.attemptStarted = t.timers.attemptStarted
  gaveUp : u.timers.gaveUp = t.timers.gaveUp

theorem Pursued.trans {t u v : Tunnel P} (h : Pursued t u) (h' : Pursued u v) : Pursued t v :=
  ⟨h.tidied.trans h'.tidied,h'.attempt.trans h.attempt,h'.gaveUp.trans h.gaveUp⟩

theorem pursued_expireNext (t : Tunnel P) : Pursued t (t.expireNext t.lastNow) :=
  ⟨tidied_expireNext t,by rw [expireNext_frame],by rw [expireNext_frame]⟩

namespace Tunnel

def DiscardDue (t : Tunnel P) : Prop :=
  ∃ c, (t.expireNext t.lastNow).newestSessionCreated = some c ∧
    sessionDiscardTime ≤ t.lastNow.since c

def Prompted (t : Tunnel P) : Prop :=
  t.retransmitDue t.lastNow = true ∧ t.timers.attemptExhausted t.lastNow = false ∨
  t.inflight = none ∧ t.timers.initiationAllowed t.lastNow = true ∧
    (t.timers.rekeyDue = true ∨ t.timers.deadPeerDue t.lastNow = true ∨
      ∃ interval, t.persistentKeepalive = some interval ∧ t.currentUsable t.lastNow = false ∧
        t.timers.persistentReviveAllowed t.lastNow (intervalNs interval) = true)

def Owing (t : Tunnel P) : Prop :=
  t.timers.confirmKeepaliveDue = true ∨ t.timers.passiveKeepaliveDue t.lastNow = true ∨
    ∃ interval, t.persistentKeepalive = some interval ∧
      intervalNs interval ≤ t.lastNow.since t.keepaliveBase

end Tunnel

/-- On what grounds a poll sends an initiation: a retransmission goes on with the attempt that is
pending, and any other initiation starts a fresh one and needs that none is pending. -/
inductive Launches (t u : Tunnel P) : SendReason → Prop
  | again (hr : t.retransmitDue t.lastNow = true)
      (he : t.timers.attemptExhausted t.lastNow = false)
      (ha : u.timers.attemptStarted = t.timers.attemptStarted) : Launches t u .handshakeRetransmit
  | afresh (hi : t.inflight = none) (hp : t.timers.initiationAllowed t.lastNow = true)
      (hw : t.timers.rekeyDue = true ∨ t.timers.deadPeerDue t.lastNow = true ∨
        ∃ interval, t.persistentKeepalive = some interval ∧ t.currentUsable t.lastNow = false ∧
          t.timers.persistentReviveAllowed t.lastNow (intervalNs interval) = true)
      (ha : u.timers.attemptStarted = none) : Launches t u .handshakeInitiation

/-- On what grounds a poll sends a keepalive: it is owed, or it is the persistent one. -/
inductive Owes (t : Tunnel P) : SendReason → Prop
  | once (h : t.timers.confirmKeepaliveDue = true ∨
      t.timers.passiveKeepaliveDue t.lastNow = true) : Owes t .keepalive
  | regular (h : ∃ interval, t.persistentKeepalive = some interval ∧
      intervalNs interval ≤ t.lastNow.since t.keepaliveBase) : Owes t .persistentKeepalive

/-- Every way a poll can end, with the tests that led there. -/
inductive Polled (C : ChaChaImpl) (t : Tunnel P) (now : Now) (out : List UInt8) (rng : Entropy) :
    Outcome P PollOutput → Prop
  | discarded (u : Tunnel P) (hu : Tidied t u) (hd : t.DiscardDue) :
      Polled C t now out rng ⟨u.discardAllSessions,out,rng,.ok .sessionsExpired⟩
  | abandoned (u : Tunnel P) (hu : Tidied t u) (hd : ¬t.DiscardDue)
      (hr : t.retransmitDue t.lastNow = true)
      (he : t.timers.attemptExhausted t.lastNow = true) :
      Polled C t now out rng ⟨u.abandon,out,rng,.ok .handshakeExpired⟩
  | initiated (u : Tunnel P) (reason : SendReason) (hu : Tidied t u) (hd : ¬t.DiscardDue)
      (hl : Launches t u reason) :
      Polled C t now out rng ((u.sendInitiation now out rng true).emit (fun w => .send w reason))
  | kept (u : Tunnel P) (reason : SendReason) (hu : Pursued t u) (hd : ¬t.DiscardDue)
      (ht : t.retransmitDue t.lastNow = false) (hc : t.currentUsable t.lastNow = true)
      (ho : Owes t reason) :
      Polled C t now out rng ((u.sendKeepalive C now out rng).sendAs reason)
  | idle (hp : t.Passed t.lastNow) (hi : (t.settle t.lastNow).PersistentIdle t.lastNow) :
      Polled C t now out rng ⟨t.settle t.lastNow,out,rng,.ok .idle⟩

theorem Launches.prompted {t u : Tunnel P} {reason : SendReason} (h : Launches t u reason) :
    t.Prompted := by
  cases h with
  | again hr he ha => exact Or.inl ⟨hr,he⟩
  | afresh hi hp hw ha => exact Or.inr ⟨hi,hp,hw⟩

theorem Owes.owing {t : Tunnel P} {reason : SendReason} (h : Owes t reason) : t.Owing := by
  cases h with
  | once h => exact h.imp_right Or.inl
  | regular h => exact Or.inr (Or.inr h)

def Flow.Listed (C : ChaChaImpl) (t : Tunnel P) (now : Now) (out : List UInt8) (rng : Entropy) :
    Flow P → Prop
  | .done o => Polled C t now out rng o
  | .next u => Pursued t u

section Listing

variable {C : ChaChaImpl} {t u : Tunnel P} {now : Now} {out : List UInt8} {rng : Entropy}

theorem listed_andThen {f : Flow P} {k : Tunnel P → Flow P}
    (hf : Flow.Listed C t now out rng f)
    (hk : ∀ u, Pursued t u → Flow.Listed C t now out rng (k u)) :
    Flow.Listed C t now out rng (f.andThen k) := by
  cases f with
  | done o => exact hf
  | next u => exact hk u hf

theorem Pursued.deadPeerDue (hu : Pursued t u) (now : Ticks) :
    u.timers.deadPeerDue now = t.timers.deadPeerDue now := by
  unfold Timers.deadPeerDue Timers.unansweredTx
  rw [hu.gaveUp,hu.tidied.lastDataTx,hu.tidied.lastAnyRx]

theorem pollRetransmit_due (hu : Pursued t u) (hd : ¬t.DiscardDue)
    (hr : t.retransmitDue t.lastNow = true) (hn : now.ticks = t.lastNow) :
    ∃ o, u.pollRetransmit now out rng = .done o ∧ Polled C t now out rng o := by
  have he : u.timers.attemptExhausted t.lastNow = t.timers.attemptExhausted t.lastNow := by
    unfold Timers.attemptExhausted
    rw [hu.attempt]
  unfold pollRetransmit
  rw [hn,hu.tidied.retransmitDue,he,if_pos hr]
  split
  · rename_i hx
    exact ⟨_,rfl,.abandoned u hu.tidied hd hr hx⟩
  · rename_i hx
    exact ⟨_,rfl,.initiated u _ hu.tidied hd (.again hr (Bool.eq_false_iff.mpr hx) hu.attempt)⟩

theorem pollRekey_listed (hu : Pursued t u) (hd : ¬t.DiscardDue) (hn : now.ticks = t.lastNow) :
    Flow.Listed C t now out rng (u.pollRekey now out rng) := by
  have ht := hu.tidied
  unfold pollRekey
  rw [hn,ht.inflight,ht.initiationAllowed]
  split
  · rename_i hr
    split
    · refine ⟨⟨ht.core,ht.timers,ht.next,?_,ht.confirm,ht.gaveUp,ht.passive⟩,hu.attempt,hu.gaveUp⟩
      exact fun h => by cases h
    rename_i hi
    split
    · rename_i ha
      refine .initiated _ _ (ht.trans (tidied_restartAttempt u)) hd (.afresh ?_ ha ?_ rfl)
      · simpa using hi
      · exact Or.inl (ht.rekey hr)
    · exact hu
  · exact hu

theorem pollDeadPeer_listed (hu : Pursued t u) (hd : ¬t.DiscardDue) (hn : now.ticks = t.lastNow) :
    Flow.Listed C t now out rng (u.pollDeadPeer now out rng) := by
  unfold pollDeadPeer
  rw [hn,hu.tidied.inflight,hu.tidied.initiationAllowed,hu.deadPeerDue]
  split
  · rename_i hp
    simp only [Bool.and_eq_true,Option.isNone_iff_eq_none] at hp
    exact .initiated _ _ (hu.tidied.trans (tidied_restartAttempt u)) hd
      (.afresh hp.1.1 hp.2 (Or.inr (Or.inl hp.1.2)) rfl)
  · exact hu

theorem pollConfirm_listed (hu : Pursued t u) (hd : ¬t.DiscardDue)
    (hr : t.retransmitDue t.lastNow = false) (hn : now.ticks = t.lastNow) :
    Flow.Listed C t now out rng (u.pollConfirm C now out rng) := by
  unfold pollConfirm
  rw [hn,hu.tidied.currentUsable]
  split
  · rename_i hc
    split
    · rename_i hus
      exact .kept u _ hu hd hr hus (.once (Or.inl (hu.tidied.confirm hc)))
    · exact hu.trans ⟨tidied_dropConfirm u,rfl,rfl⟩
  · exact hu

theorem passiveKeepaliveDue_tidied (hu : Tidied t u)
    (h : u.timers.passiveKeepaliveDue u.lastNow = true) :
    t.timers.passiveKeepaliveDue t.lastNow = true := by
  unfold Timers.passiveKeepaliveDue Timers.unansweredRx at h ⊢
  rw [hu.lastAnyTx,hu.lastNow] at h
  rcases hu.passive with hp | ⟨hp,_⟩
  · rwa [hp] at h
  · rw [hp] at h
    cases h

theorem pollPassive_listed (hu : Pursued t u) (hd : ¬t.DiscardDue)
    (hr : t.retransmitDue t.lastNow = false) (hn : now.ticks = t.lastNow) :
    Flow.Listed C t now out rng (u.pollPassive C now out rng) := by
  unfold pollPassive
  rw [hn,← hu.tidied.lastNow]
  split
  · rename_i hp
    split
    · rename_i hus
      rw [hu.tidied.currentUsable,hu.tidied.lastNow] at hus
      exact .kept u _ hu hd hr hus (.once (Or.inr (passiveKeepaliveDue_tidied hu.tidied hp)))
    · rename_i hus
      refine hu.trans ⟨⟨rfl,rfl,Or.inl rfl,id,id,id,Or.inr ⟨rfl,?_⟩⟩,rfl,rfl⟩
      exact Bool.eq_false_iff.mpr hus
  · exact hu

theorem pollDiscard_due (hd : t.DiscardDue) (hn : now.ticks = t.lastNow) :
    (t.expireNext t.lastNow).pollDiscard now out rng =
      .done ⟨(t.expireNext t.lastNow).discardAllSessions,out,rng,.ok .sessionsExpired⟩ := by
  obtain ⟨c,hc,ha⟩ := hd
  unfold pollDiscard
  rw [hc,hn]
  exact if_pos ha

theorem pollDiscard_young (hd : ¬t.DiscardDue) (hn : now.ticks = t.lastNow) :
    (t.expireNext t.lastNow).pollDiscard now out rng = .next (t.expireNext t.lastNow) := by
  refine pollDiscard_next.mpr ⟨rfl,fun c hc => ?_⟩
  rw [hn]
  exact not_le.mp fun ha => hd ⟨c,hc,ha⟩

theorem pollTimers_listed (hn : now.ticks = t.lastNow) :
    Flow.Listed C t now out rng (t.pollTimers C now out rng) := by
  have ht := pursued_expireNext t
  unfold pollTimers
  rw [show t.expireNext now.ticks = t.expireNext t.lastNow by rw [hn]]
  by_cases hd : t.DiscardDue
  · simp only [Flow.andThen,pollDiscard_due hd hn]
    exact .discarded _ ht.tidied hd
  simp only [Flow.andThen,pollDiscard_young hd hn]
  cases hr : t.retransmitDue t.lastNow with
  | true =>
    obtain ⟨o,ho,hl⟩ : ∃ o, (t.expireNext t.lastNow).pollRetransmit now out rng = .done o ∧
        Polled C t now out rng o := pollRetransmit_due ht hd hr hn
    simp only [ho]
    exact hl
  | false =>
    have hq : (t.expireNext t.lastNow).retransmitDue now.ticks = false := by
      rw [ht.tidied.retransmitDue,hn,hr]
    simp only [pollRetransmit_next.mpr ⟨rfl,hq⟩]
    refine listed_andThen (pollRekey_listed ht hd hn) fun u hu => ?_
    refine listed_andThen (pollDeadPeer_listed hu hd hn) fun u hu => ?_
    refine listed_andThen (pollConfirm_listed hu hd hr hn) fun u hu => ?_
    exact pollPassive_listed hu hd hr hn

theorem tidied_settle (hp : t.Passed t.lastNow) : Tidied t (t.settle t.lastNow) := by
  have hf := expireNext_frame t t.lastNow
  have he := tidied_expireNext t
  have hl := ((he.trans (tidied_afterRekey _)).trans (tidied_dropConfirm _)).lastNow
  refine ((he.trans (tidied_afterRekey _)).trans (tidied_dropConfirm _)).trans ?_
  have ha := tidied_afterPassive (t.expireNext t.lastNow).afterRekey.dropConfirm fun hd => ?_
  · rwa [hl] at ha
  · rw [hl] at hd ⊢
    rw [hf] at hd ⊢
    exact hp.passive hd

theorem pursued_settle (hp : t.Passed t.lastNow) : Pursued t (t.settle t.lastNow) :=
  ⟨tidied_settle hp,by rw [settle_eq],by rw [settle_eq]⟩

theorem pollPersistent_listed (hp : t.Passed t.lastNow) (hn : now.ticks = t.lastNow) :
    Polled C t now out rng ((t.settle t.lastNow).pollPersistent C now out rng) := by
  have hu := tidied_settle hp
  have hd : ¬t.DiscardDue := fun ⟨c,hc,ha⟩ => absurd (hp.discard c hc) (not_lt.mpr ha)
  have hk : (t.settle t.lastNow).persistentKeepalive = t.persistentKeepalive := by
    rw [settle_eq]
  have hb : (t.settle t.lastNow).keepaliveBase = t.keepaliveBase := by
    rw [settle_eq]
    rfl
  have hr : ∀ n, (t.settle t.lastNow).timers.persistentReviveAllowed t.lastNow n =
      t.timers.persistentReviveAllowed t.lastNow n := by
    intro n
    rw [settle_eq]
    rfl
  have hidle : ∀ o, (t.settle t.lastNow).pollPersistent C now out rng = o →
      o.result = .ok .idle → (t.settle t.lastNow).PersistentIdle t.lastNow := by
    rintro o rfl ho
    rw [← hn]
    exact (pollPersistent_idle (hn ▸ ho)).2
  generalize ho : (t.settle t.lastNow).pollPersistent C now out rng = o
  have hidle := hidle o ho
  unfold pollPersistent at ho
  rw [hn,hk] at ho
  split at ho
  · subst ho
    exact .idle hp (hidle rfl)
  rename_i interval hi
  rw [hu.currentUsable,hu.inflight,hu.initiationAllowed,hb,hr] at ho
  split at ho
  · rename_i hus
    split at ho
    · rename_i hs
      subst ho
      exact .kept _ _ (pursued_settle hp) hd hp.retransmit hus (.regular ⟨interval,hi,hs⟩)
    · subst ho
      exact .idle hp (hidle rfl)
  rename_i hus
  split at ho
  · rename_i hc
    subst ho
    simp only [Bool.and_eq_true,Option.isNone_iff_eq_none] at hc
    refine .initiated _ _ ((hu.trans (tidied_clearGaveUp _)).trans (tidied_restartAttempt _)) hd
      (.afresh hc.1.1 hc.1.2 (Or.inr (Or.inr ⟨interval,hi,?_,hc.2⟩)) rfl)
    exact Bool.eq_false_iff.mpr hus
  · subst ho
    exact .idle hp (hidle rfl)

/-- Every poll behind the clock ends in one of the listed ways. -/
theorem pollAt_polled (C : ChaChaImpl) (t : Tunnel P) (now : Now) (out : List UInt8)
    (rng : Entropy) (hn : now.ticks = t.lastNow) :
    Polled C t now out rng (t.pollAt C now out rng) := by
  have hl : Flow.Listed C t now out rng (t.pollTimers C now out rng) := pollTimers_listed hn
  unfold pollAt
  cases hf : t.pollTimers C now out rng with
  | done o =>
    rw [hf] at hl
    exact hl
  | next u =>
    obtain ⟨rfl,hp⟩ := pollTimers_next.mp hf
    rw [hn] at hp ⊢
    exact pollPersistent_listed hp hn

theorem poll_polled (C : ChaChaImpl) (t : Tunnel P) (now : Now) (out : List UInt8)
    (rng : Entropy) :
    Polled C (t.observe now) (t.reading now) out rng (t.poll C now out rng) := by
  unfold poll
  rw [clampNow_eq]
  exact pollAt_polled C (t.observe now) (t.reading now) out rng rfl

end Listing

theorem Polled.of_idle {C : ChaChaImpl} {t : Tunnel P} {now : Now} {out : List UInt8}
    {rng : Entropy} {o : Outcome P PollOutput} (h : Polled C t now out rng o)
    (hr : o.result = .ok .idle) :
    o.tunnel = t.settle t.lastNow ∧ t.Passed t.lastNow ∧
      (t.settle t.lastNow).PersistentIdle t.lastNow := by
  cases h with
  | discarded u hu hd => cases hr
  | abandoned u hu hd hr' he => cases hr
  | initiated u reason hu hd hl => exact absurd hr (emit_ne_idle _ _)
  | kept u reason hu hd ht hc ho => exact absurd hr (sendAs_ne_idle _ _)
  | idle hp hi => exact ⟨rfl,hp,hi⟩

theorem emit_reason {o : Outcome P ℕ} {reason reason' : SendReason} {w : List UInt8}
    (h : (o.emit (fun w => PollOutput.send w reason)).result = .ok (.send w reason')) :
    reason = reason' := by
  unfold Outcome.emit at h
  split at h
  · cases h
  · split at h
    · cases h
      rfl
    · cases h

theorem sendAs_reason {o : Outcome P (List UInt8)} {reason reason' : SendReason}
    {w : List UInt8} (h : (o.sendAs reason).result = .ok (.send w reason')) :
    reason = reason' := by
  unfold Outcome.sendAs at h
  cases hr : o.result with
  | error e =>
    rw [hr] at h
    cases h
  | ok v =>
    rw [hr] at h
    cases h
    rfl

theorem Polled.of_keepalive {C : ChaChaImpl} {t : Tunnel P} {now : Now} {out w : List UInt8}
    {rng : Entropy} {o : Outcome P PollOutput} (h : Polled C t now out rng o)
    (ho : o.result = .ok (.send w .keepalive)) :
    t.timers.confirmKeepaliveDue = true ∨ t.timers.passiveKeepaliveDue t.lastNow = true := by
  cases h with
  | discarded u hu hd => cases ho
  | abandoned u hu hd hr he => cases ho
  | initiated u reason hu hd hl =>
    cases emit_reason ho
    cases hl
  | kept u reason hu hd ht hc howe =>
    cases sendAs_reason ho
    cases howe with
    | once h => exact h
  | idle hp hi => cases ho

end WireGuard
