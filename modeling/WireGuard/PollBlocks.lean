import WireGuard.Acts

/-!
# The blocks of a poll

Each block of `poll` is passed exactly when its test fails, and what passing it
leaves behind is fixed. `Passed` collects the tests of the blocks in front of
the persistent one, `settle` is the tunnel behind them, and an idle poll has
passed them all.
-/

set_option autoImplicit false

namespace WireGuard
open ByteString Tunnel

variable {P : Primitives}

theorem andThen_next {f : Flow P} {k : Tunnel P → Flow P} {u : Tunnel P} :
    f.andThen k = .next u ↔ ∃ v, f = .next v ∧ k v = .next u := by
  cases f with
  | done o => simp [Flow.andThen]
  | next v => simp [Flow.andThen]

theorem next_iff {t u v : Tunnel P} {c : Prop} (hv : t = v) (hc : c) :
    Flow.next t = .next u ↔ u = v ∧ c := by
  rw [hv,Flow.next.injEq]
  exact ⟨fun h => ⟨h.symm,hc⟩,fun h => h.1.symm⟩

theorem done_iff {o : Outcome P PollOutput} {u v : Tunnel P} {c : Prop} (hc : ¬c) :
    Flow.done o = .next u ↔ u = v ∧ c :=
  ⟨(fun h => by cases h),fun h => absurd h.2 hc⟩

namespace Tunnel

def afterRekey (t : Tunnel P) : Tunnel P :=
  {t with timers := {t.timers with rekeyDue := t.timers.rekeyDue && t.inflight.isNone}}

def afterPassive (t : Tunnel P) (now : Ticks) : Tunnel P :=
  if t.timers.passiveKeepaliveDue now then t.disarmPassive else t

theorem eq_afterRekey {t : Tunnel P}
    (h : (t.timers.rekeyDue && t.inflight.isNone) = t.timers.rekeyDue) : t = t.afterRekey := by
  unfold afterRekey
  rw [h]

theorem eq_dropConfirm {t : Tunnel P} (h : t.timers.confirmKeepaliveDue = false) :
    t = t.dropConfirm := by
  unfold dropConfirm
  rw [← h]

end Tunnel

section Blocks

variable {C : ChaChaImpl} {t u : Tunnel P} {now : Now} {out : List UInt8} {rng : Entropy}

theorem pollDiscard_next : t.pollDiscard now out rng = .next u ↔ u = t ∧
    ∀ c, t.newestSessionCreated = some c → now.ticks.since c < sessionDiscardTime := by
  unfold pollDiscard
  split
  · rename_i hn
    exact next_iff rfl (by simp [hn])
  · rename_i c hc
    split
    · rename_i hd
      exact done_iff fun h => absurd (h c hc) (by omega)
    · rename_i hd
      refine next_iff rfl fun c' hc' => ?_
      obtain rfl := Option.some.inj (hc.symm.trans hc')
      omega

theorem pollRetransmit_next : t.pollRetransmit now out rng = .next u ↔
    u = t ∧ t.retransmitDue now.ticks = false := by
  unfold pollRetransmit
  split
  · rename_i hd
    have hn : ¬t.retransmitDue now.ticks = false := by simp [hd]
    split
    · exact done_iff hn
    · exact done_iff hn
  · rename_i hd
    exact next_iff rfl (Bool.eq_false_iff.mpr hd)

theorem pollRekey_next : t.pollRekey now out rng = .next u ↔ u = t.afterRekey ∧
    (t.timers.rekeyDue = true → t.inflight = none →
      t.timers.initiationAllowed now.ticks = false) := by
  unfold pollRekey
  split
  · rename_i hd
    split
    · rename_i hi
      refine next_iff ?_ fun _ hn => by simp [hn] at hi
      have hn : t.inflight.isNone = false := by simpa using hi
      rw [afterRekey,hn,Bool.and_false]
      rfl
    · rename_i hi
      have hn : t.inflight = none := by simpa using hi
      split
      · rename_i ha
        exact done_iff fun h => by simp [ha] at h; exact h hd hn
      · rename_i ha
        exact next_iff (eq_afterRekey (by simp [hn])) fun _ _ => Bool.eq_false_iff.mpr ha
  · rename_i hd
    exact next_iff (eq_afterRekey (by simp [hd])) fun h => absurd h hd

theorem pollDeadPeer_next : t.pollDeadPeer now out rng = .next u ↔ u = t ∧
    (t.inflight = none → t.timers.deadPeerDue now.ticks = true →
      t.timers.initiationAllowed now.ticks = false) := by
  unfold pollDeadPeer
  split
  · rename_i hd
    simp only [Bool.and_eq_true,Option.isNone_iff_eq_none] at hd
    exact done_iff fun h => by simp [h hd.1.1 hd.1.2] at hd
  · rename_i hd
    refine next_iff rfl fun hi hp => ?_
    simpa [hi,hp] using hd

theorem pollConfirm_next : t.pollConfirm C now out rng = .next u ↔ u = t.dropConfirm ∧
    (t.timers.confirmKeepaliveDue = true → t.currentUsable now.ticks = false) := by
  unfold pollConfirm
  split
  · rename_i hd
    split
    · rename_i hu
      exact done_iff fun h => by simp [h hd] at hu
    · rename_i hu
      exact next_iff rfl fun _ => Bool.eq_false_iff.mpr hu
  · rename_i hd
    exact next_iff (eq_dropConfirm (Bool.eq_false_iff.mpr hd)) fun h => absurd h hd

theorem pollPassive_next : t.pollPassive C now out rng = .next u ↔ u = t.afterPassive now.ticks ∧
    (t.timers.passiveKeepaliveDue now.ticks = true → t.currentUsable now.ticks = false) := by
  unfold pollPassive afterPassive
  split
  · rename_i hd
    split
    · rename_i hu
      exact done_iff fun h => by simp [h hd] at hu
    · rename_i hu
      exact next_iff rfl fun _ => Bool.eq_false_iff.mpr hu
  · rename_i hd
    exact next_iff rfl fun h => absurd h hd

end Blocks

namespace Tunnel

/-- The tunnel that is handed to the persistent block. -/
def settle (t : Tunnel P) (now : Ticks) : Tunnel P :=
  ((t.expireNext now).afterRekey.dropConfirm).afterPassive now

/-- No block in front of the persistent one has anything to do at `now`. -/
structure Passed (t : Tunnel P) (now : Ticks) : Prop where
  discard : ∀ c, (t.expireNext now).newestSessionCreated = some c →
    now.since c < sessionDiscardTime
  retransmit : t.retransmitDue now = false
  rekey : t.timers.rekeyDue = true → t.inflight = none → t.timers.initiationAllowed now = false
  deadPeer : t.inflight = none → t.timers.deadPeerDue now = true →
    t.timers.initiationAllowed now = false
  confirm : t.timers.confirmKeepaliveDue = true → t.currentUsable now = false
  passive : t.timers.passiveKeepaliveDue now = true → t.currentUsable now = false

end Tunnel

theorem pollTimers_next {C : ChaChaImpl} {t u : Tunnel P} {now : Now} {out : List UInt8}
    {rng : Entropy} : t.pollTimers C now out rng = .next u ↔
      u = t.settle now.ticks ∧ t.Passed now.ticks := by
  have he : ∃ n, t.expireNext now.ticks = {t with next := n} := ⟨_,expireNext_frame t now.ticks⟩
  unfold pollTimers
  simp only [andThen_next,Flow.next.injEq,exists_eq_left',pollDiscard_next,pollRetransmit_next,
    pollRekey_next,pollDeadPeer_next,pollConfirm_next,pollPassive_next]
  constructor
  · rintro ⟨v,⟨rfl,hd⟩,w,⟨rfl,hr⟩,x,⟨rfl,hk⟩,y,⟨rfl,hp⟩,z,⟨rfl,hc⟩,rfl,hq⟩
    refine ⟨rfl,hd,?_,?_,?_,?_,?_⟩
    all_goals
      obtain ⟨n,hn⟩ := he
      rw [hn] at hr hk hp hc hq
      assumption
  · rintro ⟨rfl,hd,hr,hk,hp,hc,hq⟩
    refine ⟨_,⟨rfl,hd⟩,_,⟨rfl,?_⟩,_,⟨rfl,?_⟩,_,⟨rfl,?_⟩,_,⟨rfl,?_⟩,rfl,?_⟩
    all_goals
      obtain ⟨n,hn⟩ := he
      rw [hn]
      assumption

theorem settle_eq (t : Tunnel P) (now : Ticks) : t.settle now = {t with
    next := (t.expireNext now).next
    timers := {t.timers with
      rekeyDue := t.timers.rekeyDue && t.inflight.isNone
      confirmKeepaliveDue := false
      lastDataRx := if t.timers.passiveKeepaliveDue now then none else t.timers.lastDataRx}} := by
  have hp : ∀ u : Tunnel P, u.afterPassive now = {u with timers := {u.timers with
      lastDataRx := if u.timers.passiveKeepaliveDue now then none else u.timers.lastDataRx}} := by
    intro u
    unfold afterPassive
    split <;> rfl
  rw [settle,hp,expireNext_frame]
  rfl

def Flow.Busy : Flow P → Prop
  | .done o => o.result ≠ .ok .idle
  | .next _ => True

theorem busy_andThen {f : Flow P} {k : Tunnel P → Flow P} (hf : f.Busy)
    (hk : ∀ u, (k u).Busy) : (f.andThen k).Busy := by
  cases f with
  | done o => exact hf
  | next u => exact hk u

theorem emit_ne_idle (o : Outcome P ℕ) (reason : SendReason) :
    (o.emit (fun w => PollOutput.send w reason)).result ≠ .ok .idle := by
  unfold Outcome.emit
  split
  · simp
  · split <;> simp

theorem sendAs_ne_idle (o : Outcome P (List UInt8)) (reason : SendReason) :
    (o.sendAs reason).result ≠ .ok .idle := by
  unfold Outcome.sendAs
  cases o.result <;> simp [Except.map]

theorem pollTimers_busy (C : ChaChaImpl) (t : Tunnel P) (now : Now) (out : List UInt8)
    (rng : Entropy) : (t.pollTimers C now out rng).Busy := by
  refine busy_andThen trivial fun t => busy_andThen ?_ fun t => busy_andThen ?_ fun t =>
    busy_andThen ?_ fun t => busy_andThen ?_ fun t => busy_andThen ?_ fun t => ?_
  · unfold pollDiscard
    split
    · trivial
    · split
      · exact fun h => by cases h
      · trivial
  · unfold pollRetransmit
    split
    · split
      · exact fun h => by cases h
      · exact emit_ne_idle _ _
    · trivial
  · unfold pollRekey
    split
    · split
      · trivial
      · split
        · exact emit_ne_idle _ _
        · trivial
    · trivial
  · unfold pollDeadPeer
    split
    · exact emit_ne_idle _ _
    · trivial
  · unfold pollConfirm
    split
    · split
      · exact sendAs_ne_idle _ _
      · trivial
    · trivial
  · unfold pollPassive
    split
    · split
      · exact sendAs_ne_idle _ _
      · trivial
    · trivial

theorem intervalNs_pos (interval : NonZeroU16) : 0 < intervalNs interval := by
  have h := interval.pos
  unfold intervalNs u64Max
  omega

def Tunnel.PersistentIdle (t : Tunnel P) (now : Ticks) : Prop :=
  ∀ interval, t.persistentKeepalive = some interval →
    (t.currentUsable now = true → now.since t.keepaliveBase < intervalNs interval) ∧
    (t.currentUsable now = false → t.inflight = none → t.timers.initiationAllowed now = true →
      t.timers.persistentReviveAllowed now (intervalNs interval) = false)

theorem pollPersistent_idle {C : ChaChaImpl} {t : Tunnel P} {now : Now} {out : List UInt8}
    {rng : Entropy} (h : (t.pollPersistent C now out rng).result = .ok .idle) :
    (t.pollPersistent C now out rng).tunnel = t ∧ t.PersistentIdle now.ticks := by
  unfold pollPersistent at h ⊢
  split at h
  · rename_i hk
    refine ⟨rfl,fun interval hi => ?_⟩
    rw [hk] at hi
    cases hi
  rename_i interval hk
  have hidle : ∀ (hu : t.currentUsable now.ticks = true →
        now.ticks.since t.keepaliveBase < intervalNs interval)
      (hr : t.currentUsable now.ticks = false → t.inflight = none →
        t.timers.initiationAllowed now.ticks = true →
        t.timers.persistentReviveAllowed now.ticks (intervalNs interval) = false),
      t.PersistentIdle now.ticks := by
    intro hu hr interval' hi
    obtain rfl := Option.some.inj (hk.symm.trans hi)
    exact ⟨hu,hr⟩
  split at h
  · rename_i hu
    split at h
    · exact absurd h (sendAs_ne_idle _ _)
    · rename_i hs
      rw [if_pos hu,if_neg hs]
      exact ⟨rfl,hidle (fun _ => by omega) fun hn => by rw [hn] at hu; cases hu⟩
  · rename_i hu
    split at h
    · exact absurd h (emit_ne_idle _ _)
    · rename_i hs
      rw [if_neg hu,if_neg hs]
      refine ⟨rfl,hidle (fun hn => absurd hn hu) fun _ hi ha => ?_⟩
      simpa [hi,ha] using hs

structure Tunnel.Settled (t : Tunnel P) (now : Ticks) : Prop where
  next : ∀ s, t.next = some s → s.age now < rejectAfterTime
  discard : ∀ c, t.newestSessionCreated = some c → now.since c < sessionDiscardTime
  retransmit : t.retransmitDue now = false
  rekey : t.timers.rekeyDue = true → t.inflight = none → t.timers.initiationAllowed now = false
  deadPeer : t.inflight = none → t.timers.deadPeerDue now = true →
    t.timers.initiationAllowed now = false
  confirm : t.timers.confirmKeepaliveDue = false
  passive : t.timers.passiveKeepaliveDue now = false

theorem expireNext_of_young {t : Tunnel P} {now : Ticks}
    (h : ∀ s, t.next = some s → s.age now < rejectAfterTime) : t.expireNext now = t := by
  unfold expireNext
  split
  · rfl
  · rename_i s hs
    rw [if_neg (not_le.mpr (h s hs))]

theorem expireNext_age {t : Tunnel P} {now : Ticks} {s : Session}
    (h : (t.expireNext now).next = some s) : s.age now < rejectAfterTime := by
  unfold expireNext at h
  split at h
  · rename_i hn
    rw [hn] at h
    cases h
  rename_i s' hs
  split at h
  · cases h
  rename_i ha
  obtain rfl := Option.some.inj (hs.symm.trans h)
  omega

theorem passiveKeepaliveDue_settled (tm : Timers) (now : Ticks) :
    Timers.passiveKeepaliveDue {tm with
      lastDataRx := if tm.passiveKeepaliveDue now then none else tm.lastDataRx} now = false := by
  cases hd : tm.passiveKeepaliveDue now with
  | true => rfl
  | false => exact hd

theorem settle_settled {t : Tunnel P} {now : Ticks} (h : t.Passed now) :
    (t.settle now).Settled now := by
  have hd := h.discard
  rw [expireNext_frame] at hd
  rw [settle_eq]
  refine ⟨fun s hs => expireNext_age hs,hd,h.retransmit,fun hr hi => ?_,h.deadPeer,rfl,
    passiveKeepaliveDue_settled t.timers now⟩
  exact h.rekey (Bool.and_eq_true_iff.mp hr).1 hi

end WireGuard
