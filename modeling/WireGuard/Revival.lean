import WireGuard.Wake

/-!
# Persistent keepalives and the revival of a dead session

`nextWake` asks whether the current session is usable at the last call, `poll`
whether it is usable now. When the session dies in between, the deadline that
was announced is that of a keepalive which can no longer be sent, and the
revival that `poll` would start goes unannounced unless another deadline
happens to have come.
-/

set_option autoImplicit false

namespace WireGuard
open ByteString Tunnel

variable {P : Primitives}

namespace Tunnel

/-- What a poll sends from the persistent block, if it gets there. -/
def persistentSend (C : ChaChaImpl) (t : Tunnel P) (now : Now) (out : List UInt8)
    (rng : Entropy) : Option PollOutput :=
  match (t.clampNow now).1.pollTimers C (t.clampNow now).2 out rng with
  | .done _ => none
  | .next u =>
    match (u.pollPersistent C (t.clampNow now).2 out rng).result with
    | .ok (.send wire reason) => some (.send wire reason)
    | _ => none

def PersistentDue (t : Tunnel P) (now : Ticks) (interval : NonZeroU16) : Prop :=
  (t.currentUsable now = true ∧ intervalNs interval ≤ now.since t.keepaliveBase) ∨
  (t.currentUsable now = false ∧ t.inflight = none ∧ t.timers.initiationAllowed now = true ∧
    t.timers.persistentReviveAllowed now (intervalNs interval) = true)

end Tunnel

theorem pollPersistent_send {C : ChaChaImpl} {t : Tunnel P} {now : Now} {out : List UInt8}
    {rng : Entropy} {wire : List UInt8} {reason : SendReason}
    (h : (t.pollPersistent C now out rng).result = .ok (.send wire reason)) : ∃ interval,
      t.persistentKeepalive = some interval ∧ t.PersistentDue now.ticks interval := by
  unfold pollPersistent at h
  split at h
  · cases h
  rename_i interval hk
  refine ⟨interval,hk,?_⟩
  split at h
  · rename_i hu
    split at h
    · rename_i hs
      exact Or.inl ⟨hu,hs⟩
    · cases h
  · rename_i hu
    split at h
    · rename_i hs
      simp only [Bool.and_eq_true,Option.isNone_iff_eq_none] at hs
      exact Or.inr ⟨Bool.eq_false_iff.mpr hu,hs.1.1,hs.1.2,hs.2⟩
    · cases h

theorem persistentSend_some {C : ChaChaImpl} {t : Tunnel P} {now : Now} {out : List UInt8}
    {rng : Entropy} {o : PollOutput} (h : t.persistentSend C now out rng = some o) :
    (t.poll C now out rng).result = .ok o ∧
    (t.observe now).Passed (t.reading now).ticks ∧ ∃ interval,
      t.persistentKeepalive = some interval ∧
      t.PersistentDue (t.reading now).ticks interval := by
  unfold persistentSend at h
  unfold poll pollAt
  rw [clampNow_eq] at h ⊢
  dsimp only at h ⊢
  generalize hf : pollTimers C (t.observe now) (t.reading now) out rng = f at h ⊢
  cases f with
  | done outcome => cases h
  | next u =>
    obtain ⟨rfl,hp⟩ := pollTimers_next.mp hf
    dsimp only at h ⊢
    split at h
    · rename_i wire reason hr
      obtain rfl := Option.some.inj h
      obtain ⟨interval,hk,hd⟩ := pollPersistent_send hr
      rw [settle_eq] at hk hd
      exact ⟨hr,hp,interval,hk,hd⟩
    · cases h

theorem wakePersistent_eq {t : Tunnel P} {interval : NonZeroU16}
    (hk : t.persistentKeepalive = some interval) : t.wakePersistent =
      if t.currentUsable t.lastNow then some (t.keepaliveBase.addNanos (intervalNs interval))
      else t.wakeRevive interval := by
  unfold wakePersistent currentUsable keepaliveBase
  rw [hk]
  dsimp only
  split
  · rename_i s hs
    rw [hs]
    cases t.timers.lastAnyTx <;> rfl
  · rename_i hs
    rw [hs]
    rfl

theorem wakeRevive_le {t : Tunnel P} {now : Ticks} {interval : NonZeroU16}
    (hi : t.inflight = none) (ha : t.timers.initiationAllowed now = true)
    (hr : t.timers.persistentReviveAllowed now (intervalNs interval) = true) :
    ∃ w, t.wakeRevive interval = some w ∧ w ≤ now := by
  refine ⟨_,by rw [wakeRevive,hi]; rfl,?_⟩
  split
  · rename_i hg
    split
    · exact Ticks.zero_le now
    · rename_i l hl
      refine Ticks.addNanos_le_of_since ?_ (intervalNs_pos interval)
      simpa [Timers.persistentReviveAllowed,hg,hl] using hr
  · exact Timers.pacingAt_le ha

/-- Some other deadline had come, or the session was dead already, or it is
still alive. -/
def Tunnel.Covered (t : Tunnel P) (now : Ticks) (interval : NonZeroU16) : Prop :=
  t.currentUsable t.lastNow = true → t.currentUsable now = true ∨
    t.keepaliveBase.addNanos (intervalNs interval) ≤ now ∨
    t.timers.confirmKeepaliveDue = true ∨
    (∃ w, t.timers.passiveKeepaliveAt = some w ∧ w ≤ now) ∨
    (∃ s, t.next = some s ∧ s.created.addNanos rejectAfterTime ≤ now) ∨ now.nanos = u64Max

theorem announced_of_covered {t : Tunnel P} {now : Ticks} {interval : NonZeroU16}
    (hk : t.persistentKeepalive = some interval) (hl : t.lastNow ≤ now)
    (hrekey : t.timers.rekeyDue = true → t.inflight = none →
      t.timers.initiationAllowed now = false)
    (hd : t.PersistentDue now interval) (hc : t.Covered now interval) :
    ∃ w, some w ∈ t.wakes ∧ w ≤ now := by
  have hp := wakePersistent_eq hk
  have hpersist : ∀ w, t.wakePersistent = some w → w ≤ now → ∃ w, some w ∈ t.wakes ∧ w ≤ now :=
    fun w hw hle => ⟨w,by simp [wakes,hw],hle⟩
  by_cases hu : t.currentUsable t.lastNow = true
  · rw [if_pos hu] at hp
    rcases hd with ⟨_,hs⟩ | ⟨hn,hi,ha,_⟩
    · exact hpersist _ hp (Ticks.addNanos_le_of_since hs (intervalNs_pos interval))
    · rcases hc hu with h | h | h | ⟨w,hw,h⟩ | ⟨s,hs,h⟩ | h
      · rw [hn] at h
        cases h
      · exact hpersist _ hp h
      · have hr : t.timers.rekeyDue = false := by
          by_contra hr
          rw [hrekey (by simpa using hr) hi] at ha
          cases ha
        exact ⟨Ticks.zero,by simp [wakes,wakeImmediate,hr,h],Ticks.zero_le now⟩
      · exact ⟨w,by simp [wakes,hw],h⟩
      · exact ⟨_,by simp [wakes,wakeNextExpire,hs],h⟩
      · obtain ⟨s,hs,_⟩ := currentUsable_some hu
        have hne : t.newestSessionCreated.isSome = true := by simp [newestSessionCreated,hs]
        obtain ⟨c,hc⟩ := Option.isSome_iff_exists.mp hne
        refine ⟨c.addNanos sessionDiscardTime,by simp [wakes,wakeDiscard,hc],?_⟩
        rw [Ticks.le_iff,h]
        exact (c.addNanos sessionDiscardTime).nanos_le
  · rw [if_neg hu] at hp
    rcases hd with ⟨hn,_⟩ | ⟨_,hi,ha,hr⟩
    · obtain ⟨s,hs,hus⟩ := currentUsable_some hn
      have := Session.usableForSend_mono hl hus
      simp [currentUsable,hs,this] at hu
    · obtain ⟨w,hw,hle⟩ := wakeRevive_le hi ha hr
      exact hpersist w (hp.trans hw) hle

theorem passed_of_observe {t : Tunnel P} {now : Now} {at' : Ticks}
    (h : (t.observe now).Passed at') : t.Passed at' := by
  refine ⟨?_,h.retransmit,h.rekey,h.deadPeer,h.confirm,h.passive⟩
  have hd := h.discard
  unfold expireNext at hd ⊢
  rw [show (t.observe now).next = t.next from rfl] at hd
  split at hd
  · exact hd
  · split at hd
    · rename_i ha
      rw [if_pos ha]
      exact hd
    · rename_i ha
      rw [if_neg ha]
      exact hd

theorem covered_of_announced {t : Tunnel P} {now : Ticks} {interval : NonZeroU16}
    (hk : t.persistentKeepalive = some interval) (hp : t.Passed now)
    (h : ∃ w, some w ∈ t.wakes ∧ w ≤ now) : t.Covered now interval := by
  intro hu
  by_contra hc
  simp only [not_or,not_exists,not_and,not_le] at hc
  obtain ⟨_,hbase,hconfirm,hpassive,hnext,hmax⟩ := hc
  have hn : now.nanos < u64Max := lt_of_le_of_ne now.nanos_le hmax
  have hage : ∀ s, t.next = some s → s.age now < rejectAfterTime := fun s hs =>
    Ticks.since_lt_of_lt_addNanos (hnext s hs) (by decide)
  have hdiscard := hp.discard
  rw [expireNext_of_young hage] at hdiscard
  have hpdue : t.timers.passiveKeepaliveDue now = false := by
    by_contra hd
    obtain ⟨w,hw,hle⟩ := Timers.passiveKeepaliveAt_le (by simpa using hd)
    exact absurd (hpassive w hw) (not_lt.mpr hle)
  have hs : t.Settled now := ⟨hage,hdiscard,hp.retransmit,hp.rekey,hp.deadPeer,
    by simpa using hconfirm,hpdue⟩
  obtain ⟨w,hw,hle⟩ := h
  have hlt : now < w := by
    simp only [wakes,List.mem_cons,List.not_mem_nil,or_false] at hw
    rcases hw with hw | hw | hw | hw | hw | hw | hw
    · exact lt_wakeImmediate hs hn hw.symm
    · exact lt_wakeRetransmit hs hw.symm
    · exact lt_wakeDeadPeer hs hn hw.symm
    · exact hpassive w hw.symm
    · exact lt_wakeDiscard hs hn hw.symm
    · exact lt_wakeNextExpire hs hn hw.symm
    · rw [wakePersistent_eq hk,if_pos hu] at hw
      obtain rfl := Option.some.inj hw
      exact hbase
  exact absurd hle (not_le.mpr hlt)

/-- A send from the persistent block was announced by `nextWake` exactly when
the session on which the announcement was based was dead already or is alive
still, or another deadline covers the moment. -/
theorem persistent_send_announced_iff (C : ChaChaImpl) {config : Config} {t u : Tunnel P}
    {interval : NonZeroU16} (ht : withBackend P config = .ok t)
    (hk : config.persistentKeepalive = some interval) (hu : Machine.Reachable (step C) t u)
    (now : Now) (out : List UInt8) (rng : Entropy) (o : PollOutput)
    (hs : u.persistentSend C now out rng = some o) :
    (∃ w, u.nextWake = some w ∧ w ≤ (u.clampNow now).2.ticks) ↔
      u.Covered (u.clampNow now).2.ticks interval := by
  have hki : u.persistentKeepalive = some interval := by
    rw [reachable_persistentKeepalive hu,(withBackend_ok ht).2.persistentKeepalive,hk]
  obtain ⟨_,hp,interval',hk',hd⟩ := persistentSend_some hs
  obtain rfl := Option.some.inj (hki.symm.trans hk')
  rw [nextWake_le_iff,clampNow_eq]
  constructor
  · intro h
    exact covered_of_announced hki (passed_of_observe hp) h
  · exact announced_of_covered hki (le_max_left _ _) hp.rekey hd

def specimenPersistent : Tunnel specimen :=
  build specimen (specimenConfig 1 2 (some ⟨600,by decide,by decide⟩)) (by decide +kernel)

/-- A poll at 200 s revives the dead session, but a caller that waits for the
announced wake-up sleeps until 540 s. -/
theorem persistent_send_unannounced :
    let u := Machine.final (step (scalar specimen)) specimenPersistent specimenOps
    let now := specimenLater 200 (by decide)
    let out : List UInt8 := List.replicate 148 0
    let rng : Entropy := List.replicate 3 (some (fun _ => 1))
    (u.persistentSend (scalar specimen) now out rng).isSome = true ∧
      u.nextWake = some (specimenLater 540 (by decide)).ticks ∧
      (u.clampNow now).2.ticks < (specimenLater 540 (by decide)).ticks ∧
      u.currentUsable u.lastNow = true ∧ u.currentUsable (u.clampNow now).2.ticks = false := by
  decide +kernel

/-- On a live session the persistent keepalive goes out at 25 s, as announced. -/
theorem persistent_send_announced_specimen :
    let t := build specimen (specimenConfig 1 2 (some ⟨25,by decide,by decide⟩)) (by decide +kernel)
    let u := Machine.final (step (scalar specimen)) t specimenOps
    let now := specimenLater 25 (by decide)
    let out : List UInt8 := List.replicate 148 0
    u.currentUsable u.lastNow = true ∧ ∃ o, u.persistentSend (scalar specimen) now out [] = some o ∧
      ∃ w, u.nextWake = some w ∧ w ≤ (u.clampNow now).2.ticks := by
  intro t u now out
  have hs : (u.persistentSend (scalar specimen) now out []).isSome = true ∧
      u.currentUsable u.lastNow = true ∧ u.currentUsable (u.clampNow now).2.ticks = true := by
    decide +kernel
  obtain ⟨o,ho⟩ := Option.isSome_iff_exists.mp hs.1
  exact ⟨hs.2.1,o,ho,(persistent_send_announced_iff (scalar specimen)
    (withBackend_build (by decide +kernel)) rfl ⟨specimenOps,rfl⟩ now out [] o ho).mpr
      fun _ => Or.inl hs.2.2⟩

end WireGuard
