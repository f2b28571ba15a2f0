import WireGuard.Pacing
import WireGuard.PollBlocks

/-!
# Polling and the announced wake-up

`nextWake` mirrors the blocks of `poll` with deadlines. Passing a block means
that its deadline has not come, so after an idle poll every deadline lies in
the future, and before every deadline poll is idle.
-/

set_option autoImplicit false

namespace WireGuard
open ByteString Tunnel

variable {P : Primitives}

def Tunnel.wakes (t : Tunnel P) : List (Option Ticks) :=
  [t.wakeImmediate,t.wakeRetransmit,t.wakeDeadPeer,t.timers.passiveKeepaliveAt,
    t.wakeDiscard,t.wakeNextExpire,t.wakePersistent]

theorem nextWake_eq_iff {t : Tunnel P} {w : Ticks} :
    t.nextWake = some w ↔ some w ∈ t.wakes ∧ ∀ b, some b ∈ t.wakes → w ≤ b := by
  have hm : ∀ w, w ∈ t.wakes.filterMap id ↔ some w ∈ t.wakes := by simp
  have hmin : t.nextWake = some w ↔
      w ∈ t.wakes.filterMap id ∧ ∀ b ∈ t.wakes.filterMap id, w ≤ b := List.min?_eq_some_iff
  simpa only [hm] using hmin

theorem nextWake_le_iff {t : Tunnel P} {now : Ticks} :
    (∃ w, t.nextWake = some w ∧ w ≤ now) ↔ ∃ w, some w ∈ t.wakes ∧ w ≤ now := by
  constructor
  · rintro ⟨w,hw,hle⟩
    exact ⟨w,(nextWake_eq_iff.mp hw).1,hle⟩
  · rintro ⟨w,hw,hle⟩
    have hne : t.wakes.filterMap id ≠ [] := List.ne_nil_of_mem (by simpa using hw)
    obtain ⟨v,hv⟩ := Option.isSome_iff_exists.mp (List.isSome_min?_of_ne_nil hne)
    exact ⟨v,hv,((nextWake_eq_iff.mp hv).2 w hw).trans hle⟩

theorem lt_nextWake_iff {t : Tunnel P} {now : Ticks} :
    (∀ w, t.nextWake = some w → now < w) ↔ ∀ w, some w ∈ t.wakes → now < w := by
  have h : (¬∃ w, t.nextWake = some w ∧ w ≤ now) ↔ ¬∃ w, some w ∈ t.wakes ∧ w ≤ now :=
    not_congr nextWake_le_iff
  simpa using h

section Deadlines

variable {t : Tunnel P} {now w : Ticks}

theorem lt_wakeImmediate (h : t.Settled now) (hn : now.nanos < u64Max)
    (hw : t.wakeImmediate = some w) : now < w := by
  unfold wakeImmediate at hw
  split at hw
  · rename_i hr
    obtain rfl := Option.some.inj hw
    simp only [Bool.and_eq_true,Option.isNone_iff_eq_none] at hr
    exact Timers.lt_pacingAt (h.rekey hr.1 hr.2) hn
  · simp [h.confirm] at hw

theorem lt_wakeRetransmit (h : t.Settled now) (hw : t.wakeRetransmit = some w) : now < w := by
  unfold wakeRetransmit at hw
  split at hw
  · rename_i hi
    have hr := h.retransmit
    simpa [retransmitDue,hi,hw] using hr
  · cases hw

theorem lt_wakeDeadPeer (h : t.Settled now) (hn : now.nanos < u64Max)
    (hw : t.wakeDeadPeer = some w) : now < w := by
  unfold wakeDeadPeer at hw
  split at hw
  · rename_i hi
    simp only [Option.isNone_iff_eq_none] at hi
    obtain ⟨d,hd,rfl⟩ := Option.map_eq_some_iff.mp hw
    cases hp : t.timers.deadPeerDue now with
    | true => exact lt_max_of_lt_right (Timers.lt_pacingAt (h.deadPeer hi hp) hn)
    | false => exact lt_max_of_lt_left (Timers.lt_deadPeerAt hp hn hd)
  · cases hw

theorem lt_wakeDiscard (h : t.Settled now) (hn : now.nanos < u64Max)
    (hw : t.wakeDiscard = some w) : now < w := by
  obtain ⟨c,hc,rfl⟩ := Option.map_eq_some_iff.mp hw
  exact Ticks.lt_addNanos_of_since (h.discard c hc) hn

theorem lt_wakeNextExpire (h : t.Settled now) (hn : now.nanos < u64Max)
    (hw : t.wakeNextExpire = some w) : now < w := by
  obtain ⟨s,hs,rfl⟩ := Option.map_eq_some_iff.mp hw
  exact Ticks.lt_addNanos_of_since (h.next s hs) hn

theorem lt_wakeRevive (hp : Paced t) (hl : t.lastNow = now) (hn : now.nanos < u64Max)
    (interval : NonZeroU16)
    (hi : t.inflight = none → t.timers.initiationAllowed now = true →
      t.timers.persistentReviveAllowed now (intervalNs interval) = false)
    (hw : t.wakeRevive interval = some w) : now < w := by
  unfold wakeRevive at hw
  split at hw
  · rename_i hnone
    simp only [Option.isNone_iff_eq_none] at hnone
    obtain rfl := Option.some.inj hw
    split
    · rename_i hg
      obtain ⟨l,hlast,hle⟩ := hp.gaveUp hg hnone
      rw [hl,Ticks.addNanos_le_iff hn] at hle
      have ha : t.timers.initiationAllowed now = true := by
        unfold Timers.initiationAllowed
        rw [hlast]
        exact decide_eq_true (Nat.le_sub_of_add_le (by omega))
      have hr := hi hnone ha
      simp only [Timers.persistentReviveAllowed,hg,hlast,Bool.not_true,Bool.false_eq_true,
        if_false,decide_eq_false_iff_not,Nat.not_le] at hr
      rw [hlast]
      exact Ticks.lt_addNanos_of_since hr hn
    · rename_i hg
      refine Timers.lt_pacingAt ?_ hn
      by_contra ha
      have hr := hi hnone (by simpa using ha)
      simp [Timers.persistentReviveAllowed,hg] at hr
  · cases hw

theorem lt_wakePersistent (hp : Paced t) (hl : t.lastNow = now) (hn : now.nanos < u64Max)
    (hi : t.PersistentIdle now) (hw : t.wakePersistent = some w) : now < w := by
  unfold wakePersistent at hw
  split at hw
  · cases hw
  rename_i interval hk
  obtain ⟨hu,hr⟩ := hi interval hk
  split at hw
  · rename_i s hs
    split at hw
    · rename_i hus
      rw [hl] at hus
      obtain rfl := Option.some.inj hw
      have hb : t.timers.lastAnyTx.getD s.created = t.keepaliveBase := by
        unfold keepaliveBase
        cases t.timers.lastAnyTx <;> simp [hs]
      rw [hb]
      refine Ticks.lt_addNanos_of_since (hu ?_) hn
      simpa [currentUsable,hs] using hus
    · rename_i hus
      rw [hl] at hus
      refine lt_wakeRevive hp hl hn interval (hr ?_) hw
      simpa [currentUsable,hs] using hus
  · rename_i hs
    exact lt_wakeRevive hp hl hn interval (hr (by simp [currentUsable,hs])) hw

theorem lt_wakes (h : t.Settled now) (hp : Paced t) (hl : t.lastNow = now)
    (hn : now.nanos < u64Max) (hi : t.PersistentIdle now) (hw : some w ∈ t.wakes) : now < w := by
  simp only [wakes,List.mem_cons,List.not_mem_nil,or_false] at hw
  rcases hw with hw | hw | hw | hw | hw | hw | hw
  · exact lt_wakeImmediate h hn hw.symm
  · exact lt_wakeRetransmit h hw.symm
  · exact lt_wakeDeadPeer h hn hw.symm
  · exact Timers.lt_passiveKeepaliveAt h.passive hn hw.symm
  · exact lt_wakeDiscard h hn hw.symm
  · exact lt_wakeNextExpire h hn hw.symm
  · exact lt_wakePersistent hp hl hn hi hw.symm

end Deadlines

theorem lt_nextWake_of_idle (C : ChaChaImpl) {u : Tunnel P} {now : Now} {out : List UInt8}
    {rng : Entropy} (hp : Paced (u.poll C now out rng).tunnel)
    (ho : (u.reading now).ticks.nanos < u64Max) (hi : (u.poll C now out rng).result = .ok .idle) :
    ∀ w, (u.poll C now out rng).tunnel.nextWake = some w → (u.reading now).ticks < w := by
  have hb := pollTimers_busy C (u.observe now) (u.reading now) out rng
  unfold poll at hi hp ⊢
  rw [clampNow_eq] at hi hp ⊢
  unfold pollAt at hi hp ⊢
  cases hf : (u.observe now).pollTimers C (u.reading now) out rng with
  | done o =>
    rw [hf] at hb hi
    exact absurd hi hb
  | next v =>
    rw [hf] at hi hp
    dsimp only at hi hp ⊢
    obtain ⟨hv,hidle⟩ := pollPersistent_idle hi
    obtain ⟨rfl,hpass⟩ := pollTimers_next.mp hf
    rw [hv] at hp ⊢
    rw [lt_nextWake_iff]
    intro w hw
    refine lt_wakes (settle_settled hpass) hp ?_ ho hidle hw
    rw [settle_eq]
    rfl

/-- An idle poll at a time that leaves room for the longest interval is not
followed by a deadline that has already come. -/
theorem next_wake_after_idle (C : ChaChaImpl) {config : Config} {t u : Tunnel P}
    (ht : withBackend P config = .ok t) (hu : Machine.Reachable (step C) t u) (now : Now)
    (out : List UInt8) (rng : Entropy)
    (ho : (u.clampNow now).2.ticks.nanos+65535*second ≤ u64Max)
    (hi : (u.poll C now out rng).result = .ok .idle) :
    ∀ w, (u.poll C now out rng).tunnel.nextWake = some w → (u.clampNow now).2.ticks < w := by
  rw [clampNow_eq] at ho ⊢
  have hs : 0 < 65535*second := by decide
  exact lt_nextWake_of_idle C (paced_reachable ht (hu.step (.poll now out rng)))
    (by dsimp only at ho; omega) hi

def specimenLater (seconds : ℕ) (h : seconds*second ≤ u64Max) : Now := ⟨⟨seconds*second,h⟩,0,0⟩

theorem next_wake_after_idle_specimen :
    let u := Machine.final (step (scalar specimen)) specimenTunnel specimenOps
    let now := specimenLater 1 (by decide)
    (u.poll (scalar specimen) now [] []).tunnel.nextWake.isSome = true ∧
      ∀ w, (u.poll (scalar specimen) now [] []).tunnel.nextWake = some w →
        (u.clampNow now).2.ticks < w :=
  ⟨by decide +kernel,next_wake_after_idle (scalar specimen)
    (withBackend_build (by decide +kernel)) ⟨specimenOps,rfl⟩ (specimenLater 1 (by decide)) [] []
    (by decide +kernel) (by decide +kernel)⟩

/-- Before every deadline each block in front of the persistent one is passed.
A rekey that waits for pacing hides the deadline of a confirmation, but the two
are not due together while pacing blocks. -/
theorem passed_before_wake {t : Tunnel P} {now : Ticks} (hp : Paced t) (hl : t.lastNow ≤ now)
    (h : ∀ w, some w ∈ t.wakes → now < w) : t.Passed now := by
  have hpace : t.timers.rekeyDue = true → t.inflight = none → now < t.timers.pacingAt := by
    intro hr hi
    exact h _ (by simp [wakes,wakeImmediate,hr,hi])
  have hblock : now < t.timers.pacingAt → t.timers.initiationAllowed now = false := by
    intro hlt
    by_contra ha
    exact absurd (Timers.pacingAt_le (by simpa using ha)) (not_le.mpr hlt)
  have hnext : t.expireNext now = t := by
    refine expireNext_of_young fun s hs => ?_
    have hw := h _ (show some (s.created.addNanos rejectAfterTime) ∈ t.wakes by
      simp [wakes,wakeNextExpire,hs])
    exact Ticks.since_lt_of_lt_addNanos hw (by decide)
  refine ⟨fun c hc => ?_,?_,fun hr hi => hblock (hpace hr hi),fun hi hd => ?_,fun hc => ?_,
    fun hd => ?_⟩
  · rw [hnext] at hc
    exact Ticks.since_lt_of_lt_addNanos (h _ (by simp [wakes,wakeDiscard,hc])) (by decide)
  · by_contra hr
    simp only [retransmitDue,Bool.not_eq_false,Bool.and_eq_true] at hr
    obtain ⟨hi,hr⟩ := hr
    split at hr
    · cases hr
    rename_i r hat
    have hw := h r (by simp [wakes,wakeRetransmit,hi,hat])
    exact absurd (of_decide_eq_true hr) (not_le.mpr hw)
  · obtain ⟨d,hat,hle⟩ := Timers.deadPeerAt_le hd
    have hw := h (max d t.timers.pacingAt) (by simp [wakes,wakeDeadPeer,hi,hat])
    exact hblock ((lt_max_iff.mp hw).resolve_left (not_lt.mpr hle))
  · exfalso
    by_cases hr : t.timers.rekeyDue = true ∧ t.inflight = none
    · have hle := (hp.rekeying hc hr.1 hr.2).trans hl
      exact absurd (hpace hr.1 hr.2) (not_lt.mpr hle)
    · have hr' : (t.timers.rekeyDue && t.inflight.isNone) = false :=
        Bool.eq_false_iff.mpr fun hb => hr (by simpa using hb)
      have hw := h Ticks.zero (by simp [wakes,wakeImmediate,hr',hc])
      exact absurd (Ticks.zero_le now) (not_le.mpr hw)
  · obtain ⟨w,hat,hle⟩ := Timers.passiveKeepaliveAt_le hd
    exact absurd (h w (by simp [wakes,hat])) (not_lt.mpr hle)

theorem reachable_persistentKeepalive {C : ChaChaImpl} {t u : Tunnel P}
    (h : Machine.Reachable (step C) t u) : u.persistentKeepalive = t.persistentKeepalive := by
  refine (step_refines C).reachable_invariant
    (fun u => u.persistentKeepalive = t.persistentKeepalive) (fun s a hs _ => ?_) rfl h
  obtain ⟨hseal,haccept,hexpire⟩ :=
    traffic_frame Tunnel.persistentKeepalive (fun _ _ _ _ _ _ _ _ => rfl) s
  refine Eq.trans ?_ hs
  cases a with
  | transmit payloadLen => exact hseal payloadLen
  | accept slot counter n => exact haccept slot counter n
  | expireNext => exact hexpire
  | _ => rfl

/-- A tunnel without persistent keepalive does nothing before the wake-up that
it announced. -/
theorem poll_idle_before_wake (C : ChaChaImpl) {config : Config} {t u : Tunnel P}
    (ht : withBackend P config = .ok t) (hk : config.persistentKeepalive = none)
    (hu : Machine.Reachable (step C) t u) (now : Now) (out : List UInt8) (rng : Entropy)
    (hw : ∀ w, u.nextWake = some w → (u.clampNow now).2.ticks < w) :
    (u.poll C now out rng).result = .ok .idle := by
  have hn : u.persistentKeepalive = none := by
    rw [reachable_persistentKeepalive hu,(withBackend_ok ht).2.persistentKeepalive,hk]
  have hp : Paced (u.observe now) := (paced_reachable ht hu).clock (le_max_left _ _)
  have hwakes : (u.observe now).wakes = u.wakes := by
    have h1 : (u.observe now).wakePersistent = none := by
      unfold wakePersistent
      rw [show (u.observe now).persistentKeepalive = none from hn]
    have h2 : u.wakePersistent = none := by
      unfold wakePersistent
      rw [hn]
    rw [wakes,wakes,h1,h2]
    rfl
  rw [lt_nextWake_iff,clampNow_eq] at hw
  have hpass : (u.observe now).Passed (u.reading now).ticks :=
    passed_before_wake hp le_rfl (by rwa [hwakes])
  unfold poll
  rw [clampNow_eq]
  unfold pollAt
  rw [pollTimers_next.mpr ⟨rfl,hpass⟩]
  have hs : ((u.observe now).settle (u.reading now).ticks).persistentKeepalive = none := by
    rw [settle_eq]
    exact hn
  dsimp only
  unfold pollPersistent
  rw [hs]

theorem poll_idle_before_wake_specimen :
    let u := Machine.final (step (scalar specimen)) specimenTunnel specimenOps
    (u.poll (scalar specimen) (specimenLater 1 (by decide)) [] []).result = .ok .idle := by
  intro u
  refine poll_idle_before_wake (scalar specimen) (withBackend_build (by decide +kernel)) rfl
    ⟨specimenOps,rfl⟩ (specimenLater 1 (by decide)) [] [] fun w hw => ?_
  have h540 : u.nextWake = some (specimenLater 540 (by decide)).ticks := by decide +kernel
  obtain rfl := Option.some.inj (h540.symm.trans hw)
  decide +kernel

end WireGuard
