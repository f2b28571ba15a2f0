import WireGuard.Drain
import WireGuard.Revival

/-!
# What follows a refused payload

`encapsulate` refuses a payload without a session when a handshake is pending,
and also when the pacing rule forbids a new one. In the second case nothing
remembers that a handshake is wanted. Whether one starts by itself depends on
what else is armed, and on no other deadline coming first.
-/

set_option autoImplicit false

namespace WireGuard
open ByteString Tunnel

variable {P : Primitives}

structure Refused (t : Tunnel P) : Prop where
  inflight : t.inflight = none
  gaveUp : t.timers.gaveUp = false
  unusable : t.currentUsable t.lastNow = false
  paced : t.timers.initiationAllowed t.lastNow = false

theorem sendInitiation_ne_notEstablished {α : Type} (t : Tunnel P) (now : Now)
    (out : List UInt8) (rng : Entropy) (timerDriven : Bool) (f : List UInt8 → α) :
    ((t.sendInitiation now out rng timerDriven).emit f).result ≠ .error .notEstablished := by
  rw [sendInitiation_eq]
  split
  · rename_i e rest hd
    rw [drawHandshake_error hd]
    simp [Outcome.emit]
  · dsimp only
    split
    · simp [Outcome.emit]
    · split
      · simp [Outcome.emit]
      · simp only [Outcome.emit]
        split <;> simp

theorem encapsulate_refused {C : ChaChaImpl} {t : Tunnel P} {now : Now} {payload : Payload}
    {out : List UInt8} {rng : Entropy}
    (h : (t.encapsulate C now payload out rng).result = .error .notEstablished) :
    ((t.encapsulate C now payload out rng).tunnel.inflight.isSome = true ∧
      t.inflight.isSome = true) ∨
    (t.encapsulate C now payload out rng).tunnel = (t.observe now).clearGaveUp ∧
      Refused (t.observe now).clearGaveUp := by
  have hi : (t.observe now).inflight = t.inflight := rfl
  have hn : (t.reading now).ticks = (t.observe now).lastNow := rfl
  unfold encapsulate at h ⊢
  rw [clampNow_eq] at h ⊢
  dsimp only at h ⊢
  rw [← hi]
  generalize t.observe now = v at h hn
  generalize t.reading now = now' at h hn
  unfold encapsulateAt at h ⊢
  rw [hn] at h ⊢
  cases hu : v.currentUsable v.lastNow with
  | true =>
    obtain ⟨s,hs,hus⟩ := currentUsable_some hu
    simp only [hu,Bool.not_true,Bool.false_eq_true,if_false] at h
    rw [encapsulateSeal_eq C _ payload out rng hs (Session.usableForSend_iff.mp hus).2.1] at h
    split at h <;> cases h
  | false =>
    simp only [hu,Bool.not_false,if_true] at h ⊢
    unfold encapsulateStart at h ⊢
    split at h
    · rename_i hp
      rw [if_pos hp]
      exact Or.inl ⟨hp,hp⟩
    rename_i hp
    rw [if_neg hp]
    split at h
    · rename_i ha
      rw [if_pos ha]
      refine Or.inr ⟨rfl,by simpa using hp,rfl,hu,?_⟩
      rw [hn] at ha
      show v.clearGaveUp.timers.initiationAllowed v.lastNow = false
      simpa using ha
    · exact absurd h (sendInitiation_ne_notEstablished _ _ _ _ _ _)

namespace Tunnel

def Asking (t : Tunnel P) : Prop :=
  t.timers.initiationAllowed t.lastNow = true ∧
    (t.persistentKeepalive.isSome = true ∨ t.timers.rekeyDue = true ∨
      t.timers.deadPeerDue t.lastNow = true)

/-- Polls at the present instant start a handshake; after a wipe of old
sessions only the persistent keepalive still asks for it. -/
def Starting (t : Tunnel P) : Prop :=
  t.timers.initiationAllowed t.lastNow = true ∧
    (t.persistentKeepalive.isSome = true ∨ ¬t.DiscardDue ∧
      (t.timers.rekeyDue = true ∨ t.timers.deadPeerDue t.lastNow = true))

end Tunnel

theorem Tidied.persistentKeepalive {t u : Tunnel P} (h : Tidied t u) :
    u.persistentKeepalive = t.persistentKeepalive := by
  show u.core.persistentKeepalive = t.core.persistentKeepalive
  rw [h.core]

section Waiting

variable {C : ChaChaImpl} {t : Tunnel P} {now : Now} {out : List UInt8} {rng : Entropy}
  {o : Outcome P PollOutput}

theorem prompted_iff_asking (hi : t.inflight = none) (hg : t.timers.gaveUp = false)
    (hu : t.currentUsable t.lastNow = false) : t.Prompted ↔ t.Asking := by
  have hrev : ∀ n, t.timers.persistentReviveAllowed t.lastNow n = true := by
    intro n
    simp [Timers.persistentReviveAllowed,hg]
  have hr : t.retransmitDue t.lastNow = false := by simp [retransmitDue,hi]
  unfold Prompted Asking
  simp only [hr,Bool.false_eq_true,false_and,false_or,hi,true_and,hu,hrev,and_true,
    Option.isSome_iff_exists]
  tauto

theorem not_asking_of_idle (hi : t.inflight = none) (hg : t.timers.gaveUp = false)
    (hu : t.currentUsable t.lastNow = false) (hp : t.Passed t.lastNow)
    (hq : (t.settle t.lastNow).PersistentIdle t.lastNow) : ¬t.Asking := by
  rintro ⟨ha,hk | hr | hd⟩
  · obtain ⟨interval,hk⟩ := Option.isSome_iff_exists.mp hk
    have ht := tidied_settle hp
    have hf := (hq interval (ht.persistentKeepalive.trans hk)).2
      (by rw [ht.currentUsable,hu]) (ht.inflight.trans hi) (by rw [ht.initiationAllowed,ha])
    have hg' : (t.settle t.lastNow).timers.gaveUp = false := by
      by_contra hb
      rw [ht.gaveUp (by simpa using hb)] at hg
      cases hg
    simp [Timers.persistentReviveAllowed,hg'] at hf
  · rw [hp.rekey hr hi] at ha
    cases ha
  · rw [hp.deadPeer hi hd] at ha
    cases ha

theorem polled_waiting (hi : t.inflight = none) (hg : t.timers.gaveUp = false)
    (hu : t.currentUsable t.lastNow = false) (h : Polled C t now out rng o) :
    (t.DiscardDue ∧ ∃ u, Tidied t u ∧
      o = ⟨u.discardAllSessions,out,rng,.ok .sessionsExpired⟩) ∨
    (¬t.DiscardDue ∧ t.Asking ∧ ∃ u reason, Tidied t u ∧
      (reason = .handshakeInitiation ∨ reason = .handshakeRetransmit) ∧
      o = (u.sendInitiation now out rng true).emit (fun w => .send w reason)) ∨
    ¬t.DiscardDue ∧ ¬t.Asking ∧ o.result = .ok .idle := by
  have hr : t.retransmitDue t.lastNow = false := by simp [retransmitDue,hi]
  cases h with
  | discarded u hu' hd => exact Or.inl ⟨hd,u,hu',rfl⟩
  | abandoned u hu' hd hr' he =>
    rw [hr] at hr'
    cases hr'
  | initiated u reason hu' hd hl =>
    refine Or.inr (Or.inl ⟨hd,(prompted_iff_asking hi hg hu).mp hl.prompted,u,reason,hu',?_,rfl⟩)
    cases hl with
    | again => exact Or.inr rfl
    | afresh => exact Or.inl rfl
  | kept u reason hu' hd ht hc howe =>
    rw [hu] at hc
    cases hc
  | idle hp hq =>
    refine Or.inr (Or.inr ⟨?_,not_asking_of_idle hi hg hu hp hq,rfl⟩)
    rintro ⟨c,hc,hle⟩
    exact absurd (hp.discard c hc) (not_lt.mpr hle)

end Waiting

/-- Polling until there is nothing left sends an initiation on the way. -/
def Emits (C : ChaChaImpl) (t : Tunnel P) (calls : ℕ → PollCall) : Prop :=
  ∃ n wire reason, (∀ m < n, drainResult C t calls m ≠ .ok .idle) ∧
    drainResult C t calls n = .ok (.send wire reason) ∧
    (reason = .handshakeInitiation ∨ reason = .handshakeRetransmit)

/-- The first two polls come at one instant, with entropy and a large buffer. -/
structure Working (C : ChaChaImpl) (t : Tunnel P) (now : Ticks) (calls : ℕ → PollCall) : Prop where
  now : ∀ n ≤ 1, (calls n).now.ticks = now
  room : ∀ n ≤ 1, handshakeInitiationLen ≤ (calls n).out.length
  supplied : ∀ n ≤ 1, (drained C t calls n).Supplied (calls n).rng

section Emission

variable {C : ChaChaImpl} {t : Tunnel P} {calls : ℕ → PollCall}

theorem first_poll (c : PollCall) (hi : t.inflight = none) (hg : t.timers.gaveUp = false)
    (hu : (t.observe c.now).currentUsable (t.observe c.now).lastNow = false)
    (hlen : handshakeInitiationLen ≤ c.out.length) (hs : t.Supplied c.rng) :
    ((t.observe c.now).DiscardDue ∧ ∃ u, Tidied (t.observe c.now) u ∧
      (t.poll C c.now c.out c.rng).tunnel = u.discardAllSessions ∧
      (t.poll C c.now c.out c.rng).result = .ok .sessionsExpired) ∨
    (¬(t.observe c.now).DiscardDue ∧ (t.observe c.now).Asking ∧ ∃ wire reason,
      (t.poll C c.now c.out c.rng).result = .ok (.send wire reason) ∧
      (reason = .handshakeInitiation ∨ reason = .handshakeRetransmit)) ∨
    ¬(t.observe c.now).DiscardDue ∧ ¬(t.observe c.now).Asking ∧
      (t.poll C c.now c.out c.rng).result = .ok .idle := by
  rcases polled_waiting (t := t.observe c.now) hi hg hu (poll_polled C t c.now c.out c.rng) with
    ⟨hd,u,hu',ho⟩ | ⟨hd,ha,u,reason,hu',hreason,ho⟩ | h
  · exact Or.inl ⟨hd,u,hu',by rw [ho],by rw [ho]⟩
  · obtain ⟨index,eph,jitter,wire,_,hres⟩ := sendInitiation_supplied
      (fun w => .send w reason) hu' hs hlen (show (t.reading c.now).ticks = _ from hu'.lastNow.symm)
    exact Or.inr (Or.inl ⟨hd,ha,wire,reason,by rw [ho,hres],hreason⟩)
  · exact Or.inr (Or.inr h)

theorem asking_discarded {u : Tunnel P} (hu : Tidied t u) :
    u.discardAllSessions.Asking ↔ t.timers.initiationAllowed t.lastNow = true ∧
      t.persistentKeepalive.isSome = true := by
  have ha : u.discardAllSessions.timers.initiationAllowed u.discardAllSessions.lastNow =
      t.timers.initiationAllowed t.lastNow := by
    rw [← hu.initiationAllowed,← hu.lastNow]
    rfl
  have hk : u.discardAllSessions.persistentKeepalive = t.persistentKeepalive :=
    hu.persistentKeepalive
  have hr : u.discardAllSessions.timers.rekeyDue = false := rfl
  have hd : u.discardAllSessions.timers.deadPeerDue u.discardAllSessions.lastNow = false := rfl
  unfold Asking
  rw [ha,hk,hr,hd]
  simp

/-- Draining sends an initiation exactly if one is starting at that instant. -/
theorem emits_iff {now : Ticks} (hw : Working C t now calls) (hl : t.lastNow ≤ now)
    (hi : t.inflight = none) (hg : t.timers.gaveUp = false)
    (hu : t.currentUsable now = false) :
    Emits C t calls ↔ ({t with lastNow := now} : Tunnel P).Starting := by
  have hobs : t.observe (calls 0).now = {t with lastNow := now} := by
    show ({t with lastNow := max t.lastNow (calls 0).now.ticks} : Tunnel P) = _
    rw [hw.now 0 (Nat.zero_le 1),max_eq_right hl]
  have h0 := first_poll (C := C) (calls 0) hi hg (by rw [hobs]; exact hu)
    (hw.room 0 (Nat.zero_le 1)) (hw.supplied 0 (Nat.zero_le 1))
  rw [hobs] at h0
  generalize hz : ({t with lastNow := now} : Tunnel P) = z at h0
  rcases h0 with ⟨hd,u,htid,htun,hres⟩ | ⟨hd,ha,wire,reason,hres,hreason⟩ | ⟨hd,ha,hres⟩
  · -- the sessions are wiped, and the second poll decides
    have hstart : z.Starting ↔ u.discardAllSessions.Asking := by
      rw [asking_discarded htid]
      unfold Starting
      simp [hd]
    have htun : drained C t calls 1 = u.discardAllSessions := htun
    have hstay : u.discardAllSessions.observe (calls 1).now = u.discardAllSessions := by
      refine observe_eq ?_
      have hlast : u.discardAllSessions.lastNow = now := by
        rw [← show z.lastNow = now from by rw [← hz]]
        exact htid.lastNow
      show max u.discardAllSessions.lastNow (calls 1).now.ticks = _
      rw [hw.now 1 le_rfl,hlast,max_self]
    have hs := hw.supplied 1 le_rfl
    rw [htun] at hs
    have h1 := first_poll (C := C) (calls 1) (t := u.discardAllSessions) rfl rfl rfl
      (hw.room 1 le_rfl) hs
    have hsecond : drainResult C t calls 1 = (u.discardAllSessions.poll C (calls 1).now
        (calls 1).out (calls 1).rng).result := by
      unfold drainResult
      rw [htun]
    rw [hstay,← hsecond] at h1
    rw [hstart]
    rcases h1 with ⟨⟨c,hc,_⟩,_⟩ | ⟨_,ha,wire,reason,hres',hreason⟩ | ⟨_,ha,hres'⟩
    · cases hc
    · refine iff_of_true ⟨1,wire,reason,fun m hm => ?_,hres',hreason⟩ ha
      obtain rfl : m = 0 := by omega
      show (t.poll C _ _ _).result ≠ _
      rw [hres]
      exact nofun
    · refine iff_of_false ?_ ha
      rintro ⟨n,wire,reason,hbefore,hn,_⟩
      rcases Nat.lt_trichotomy n 1 with h | rfl | h
      · obtain rfl : n = 0 := by omega
        cases hres.symm.trans hn
      · cases hres'.symm.trans hn
      · exact hbefore 1 h hres'
  · exact iff_of_true ⟨0,wire,reason,fun m hm => absurd hm (Nat.not_lt_zero m),hres,hreason⟩
      ⟨ha.1,ha.2.imp_right fun h => ⟨hd,h⟩⟩
  · refine iff_of_false ?_ fun h => ha ⟨h.1,h.2.imp_right And.right⟩
    rintro ⟨n,wire,reason,hbefore,hn,_⟩
    cases n with
    | zero => cases hres.symm.trans hn
    | succ n => exact hbefore 0 (Nat.succ_pos n) hres

end Emission

namespace Tunnel

/-- The deadline for a handshake that is already wanted for another reason than
the refused payload. -/
def startAt (t : Tunnel P) : Option Ticks :=
  if t.persistentKeepalive.isSome || t.timers.rekeyDue then some t.timers.pacingAt
  else t.timers.deadPeerAt.map (fun d => max d t.timers.pacingAt)

def sideWakes (t : Tunnel P) : List (Option Ticks) :=
  [if t.timers.confirmKeepaliveDue && !t.timers.rekeyDue then some Ticks.zero else none,
    t.timers.passiveKeepaliveAt,t.newestSessionCreated.map (fun c => c.addNanos sessionDiscardTime),
    t.next.map (fun s => s.created.addNanos rejectAfterTime)]

/-- A handshake is wanted and starts at `d`: no other deadline comes first, the
clock has room for the waits, and unless the persistent keepalive asks, the
sessions are not wiped then. -/
structure StartsAt (t : Tunnel P) (d : Ticks) : Prop where
  start : t.startAt = some d
  allowed : t.timers.initiationAllowed d = true
  asked : t.persistentKeepalive = none → t.timers.rekeyDue = false →
    t.timers.deadPeerDue d = true
  kept : t.persistentKeepalive = none → ¬({t with lastNow := d} : Tunnel P).DiscardDue
  first : ∀ b, some b ∈ t.sideWakes → d ≤ b

end Tunnel

theorem Timers.initiationAllowed_mono {tm : Timers} {now later : Ticks} (h : now ≤ later)
    (ha : tm.initiationAllowed now = true) : tm.initiationAllowed later = true := by
  unfold initiationAllowed at ha ⊢
  split at ha
  · rfl
  · exact decide_eq_true ((of_decide_eq_true ha).trans (Ticks.since_mono h))

theorem currentUsable_later {t : Tunnel P} {now later : Ticks} (h : now ≤ later)
    (hu : t.currentUsable now = false) : t.currentUsable later = false := by
  by_contra hl
  obtain ⟨s,hc,hs⟩ := currentUsable_some (by simpa using hl)
  simp [currentUsable,hc,Session.usableForSend_mono h hs] at hu

section Wakes

variable {t : Tunnel P} {b d w : Ticks}

theorem Refused.wakePersistent (h : Refused t) : t.wakePersistent =
    if t.persistentKeepalive.isSome then some t.timers.pacingAt else none := by
  have hrev : ∀ interval, t.wakeRevive interval = some t.timers.pacingAt := by
    intro interval
    simp [wakeRevive,h.inflight,h.gaveUp]
  have hu := h.unusable
  unfold currentUsable at hu
  unfold Tunnel.wakePersistent
  cases hk : t.persistentKeepalive with
  | none => rfl
  | some interval =>
    cases hc : t.current with
    | none => exact hrev interval
    | some s =>
      rw [hc] at hu
      have hu : s.usableForSend t.lastNow = false := hu
      simp [hu,hrev interval]

theorem Refused.mem_wakes (h : Refused t) : some b ∈ t.wakes ↔ some b ∈ t.sideWakes ∨
    b = t.timers.pacingAt ∧ (t.persistentKeepalive.isSome = true ∨ t.timers.rekeyDue = true) ∨
    ∃ d, t.timers.deadPeerAt = some d ∧ b = max d t.timers.pacingAt := by
  have hi := h.inflight
  have himm : some b = t.wakeImmediate ↔
      (b = t.timers.pacingAt ∧ t.timers.rekeyDue = true) ∨
      some b = if t.timers.confirmKeepaliveDue && !t.timers.rekeyDue then some Ticks.zero
        else none := by
    unfold wakeImmediate
    rw [hi]
    cases t.timers.rekeyDue <;> cases t.timers.confirmKeepaliveDue <;> simp
  have hdead : some b = t.wakeDeadPeer ↔
      ∃ d, t.timers.deadPeerAt = some d ∧ b = max d t.timers.pacingAt := by
    unfold wakeDeadPeer
    rw [hi]
    simp [eq_comm]
  have hper : some b = t.wakePersistent ↔
      b = t.timers.pacingAt ∧ t.persistentKeepalive.isSome = true := by
    rw [h.wakePersistent]
    split <;> simp_all
  have hre : t.wakeRetransmit = none := by simp [wakeRetransmit,hi]
  simp only [wakes,sideWakes,List.mem_cons,List.not_mem_nil,or_false,himm,hdead,hper,hre,
    reduceCtorEq,false_or,wakeDiscard,wakeNextExpire,and_or_left]
  exact iff_of_eq (by ac_rfl)

theorem startAt_of_asked (h : (t.persistentKeepalive.isSome || t.timers.rekeyDue) = true) :
    t.startAt = some t.timers.pacingAt := if_pos h

theorem startAt_of_dead (hk : t.persistentKeepalive = none) (hr : t.timers.rekeyDue = false) :
    t.startAt = t.timers.deadPeerAt.map (fun d => max d t.timers.pacingAt) := by
  simp [startAt,hk,hr]

theorem Refused.nextWake_of_startsAt (h : Refused t) (hd : t.StartsAt d) :
    t.nextWake = some d := by
  rw [nextWake_eq_iff,h.mem_wakes]
  by_cases hk : (t.persistentKeepalive.isSome || t.timers.rekeyDue) = true
  · obtain rfl : t.timers.pacingAt = d :=
      Option.some.inj ((startAt_of_asked hk).symm.trans hd.start)
    refine ⟨Or.inr (Or.inl ⟨rfl,by simpa using hk⟩),fun b hb => ?_⟩
    rcases h.mem_wakes.mp hb with hb | ⟨rfl,_⟩ | ⟨x,_,rfl⟩
    · exact hd.first b hb
    · exact le_rfl
    · exact le_max_right _ _
  · obtain ⟨hk,hr⟩ : t.persistentKeepalive = none ∧ t.timers.rekeyDue = false := by
      simpa using hk
    have hs := hd.start
    rw [startAt_of_dead hk hr] at hs
    obtain ⟨x,hx,rfl⟩ := Option.map_eq_some_iff.mp hs
    refine ⟨Or.inr (Or.inr ⟨x,hx,rfl⟩),fun b hb => ?_⟩
    rcases h.mem_wakes.mp hb with hb | ⟨_,hb⟩ | ⟨y,hy,rfl⟩
    · exact hd.first b hb
    · simp [hk,hr] at hb
    · obtain rfl := Option.some.inj (hx.symm.trans hy)
      exact le_rfl

theorem Refused.startsAt_of_nextWake (h : Refused t) (hw : t.nextWake = some w)
    (hs : ({t with lastNow := w} : Tunnel P).Starting) : t.StartsAt w := by
  have hmin := (nextWake_eq_iff.mp hw).2
  obtain ⟨ha,hs⟩ := hs
  refine ⟨?_,ha,fun hk hr => ?_,fun hk => ?_,fun b hb => hmin b (h.mem_wakes.mpr (Or.inl hb))⟩
  · by_cases hk : (t.persistentKeepalive.isSome || t.timers.rekeyDue) = true
    · rw [startAt_of_asked hk]
      have hle := hmin _ (h.mem_wakes.mpr (Or.inr (Or.inl ⟨rfl,by simpa using hk⟩)))
      rw [le_antisymm (Timers.pacingAt_le ha) hle]
    · obtain ⟨hk,hr⟩ : t.persistentKeepalive = none ∧ t.timers.rekeyDue = false := by
        simpa using hk
      have hdead : t.timers.deadPeerDue w = true := by simpa [hk,hr] using hs.imp_right And.right
      obtain ⟨x,hx,hle⟩ := Timers.deadPeerAt_le hdead
      rw [startAt_of_dead hk hr,hx]
      have hge := hmin _ (h.mem_wakes.mpr (Or.inr (Or.inr ⟨x,hx,rfl⟩)))
      exact congrArg some (le_antisymm (max_le hle (Timers.pacingAt_le ha)) hge)
  · simpa [hk,hr] using hs.imp_right And.right
  · exact (hs.resolve_left (by simp [hk])).1

theorem Tunnel.StartsAt.starting (hd : t.StartsAt d) :
    ({t with lastNow := d} : Tunnel P).Starting := by
  refine ⟨hd.allowed,?_⟩
  by_cases hk : t.persistentKeepalive = none
  · refine Or.inr ⟨hd.kept hk,?_⟩
    by_cases hr : t.timers.rekeyDue = true
    · exact Or.inl hr
    · exact Or.inr (hd.asked hk (by simpa using hr))
  · exact Or.inl (Option.isSome_iff_ne_none.mpr hk)

theorem Refused.lt_of_allowed (h : Refused t) (ha : t.timers.initiationAllowed d = true) :
    t.lastNow < d := by
  by_contra hle
  have hf := Timers.initiationAllowed_mono (not_lt.mp hle) ha
  rw [h.paced] at hf
  cases hf

theorem Refused.wake_starting_iff (h : Refused t) :
    (∃ w, t.nextWake = some w ∧ ({t with lastNow := max w t.lastNow} : Tunnel P).Starting) ↔
      ∃ d, t.StartsAt d := by
  constructor
  · rintro ⟨w,hw,hs⟩
    have hlt : t.lastNow < max w t.lastNow := h.lt_of_allowed hs.1
    have hlt : t.lastNow < w := (lt_max_iff.mp hlt).resolve_right (lt_irrefl _)
    rw [max_eq_left hlt.le] at hs
    exact ⟨w,h.startsAt_of_nextWake hw hs⟩
  · rintro ⟨d,hd⟩
    refine ⟨d,h.nextWake_of_startsAt hd,?_⟩
    rw [max_eq_left (h.lt_of_allowed hd.allowed).le]
    exact hd.starting

end Wakes

/-- After a refused payload a handshake is pending or starts at the announced
wake-up, if and only if it was pending before or was wanted for another reason
and no other deadline comes first. -/
theorem refusal_followed_iff (C : ChaChaImpl) (t : Tunnel P) (now : Now) (payload : Payload)
    (out : List UInt8) (rng : Entropy)
    (hr : (t.encapsulate C now payload out rng).result = .error .notEstablished)
    (calls : Ticks → ℕ → PollCall)
    (hw : ∀ w, (t.encapsulate C now payload out rng).tunnel.nextWake = some w →
      Working C (t.encapsulate C now payload out rng).tunnel
        (max w (t.encapsulate C now payload out rng).tunnel.lastNow) (calls w)) :
    ((t.encapsulate C now payload out rng).tunnel.inflight.isSome = true ∨
      ∃ w, (t.encapsulate C now payload out rng).tunnel.nextWake = some w ∧
        Emits C (t.encapsulate C now payload out rng).tunnel (calls w)) ↔
    t.inflight.isSome = true ∨ ∃ d, (t.observe now).clearGaveUp.StartsAt d := by
  rcases encapsulate_refused hr with ⟨hafter,hbefore⟩ | ⟨heq,href⟩
  · exact iff_of_true (Or.inl hafter) (Or.inl hbefore)
  · rw [heq] at hw ⊢
    have hi : t.inflight = none := href.inflight
    rw [← href.wake_starting_iff]
    refine or_congr (by rw [hi,href.inflight])
      (exists_congr fun w => and_congr_right fun hwake => ?_)
    exact emits_iff (hw w hwake) (le_max_right _ _) href.inflight href.gaveUp
      (currentUsable_later (le_max_right _ _) href.unusable)

/-- The specimen initiates and is reset at once. -/
def specimenReset : List Op :=
  specimenOps.take 1 ++ [.reset]

def specimenPolls (seconds : ℕ) (h : seconds*second ≤ u64Max) (n : ℕ) : PollCall :=
  ⟨specimenLater seconds h,List.replicate 148 0,
    List.replicate 2 (some (fun _ => UInt8.ofNat (n+2)))⟩

theorem specimenPolls_working :
    let t := Machine.final (step (scalar specimen)) specimenPersistent specimenReset
    let x := t.encapsulate (scalar specimen) (specimenLater 1 (by decide)) specimenPayload
      (List.replicate 148 0) []
    ∀ w, x.tunnel.nextWake = some w → Working (scalar specimen) x.tunnel
      (max w x.tunnel.lastNow) (specimenPolls 5 (by decide)) := by
  intro t x w hw
  have h5 : x.tunnel.nextWake = some ⟨5*second,by decide⟩ := by decide +kernel
  obtain rfl := Option.some.inj (h5.symm.trans hw)
  refine ⟨by decide +kernel,fun n _ => by simp [specimenPolls,handshakeInitiationLen],?_⟩
  intro n hn
  refine ⟨_,_,_,_,rfl,?_,rfl,?_⟩
  · revert n
    decide +kernel
  · revert n
    decide +kernel

/-- With a persistent keepalive the refused payload is followed by an initiation
as soon as the pacing rule lets it go. -/
theorem refusal_followed_specimen :
    let t := Machine.final (step (scalar specimen)) specimenPersistent specimenReset
    let x := t.encapsulate (scalar specimen) (specimenLater 1 (by decide)) specimenPayload
      (List.replicate 148 0) []
    x.tunnel.nextWake = some ⟨5*second,by decide⟩ ∧
    ((x.tunnel.inflight.isSome = true ∨ ∃ w, x.tunnel.nextWake = some w ∧
        Emits (scalar specimen) x.tunnel (specimenPolls 5 (by decide))) ↔
      t.inflight.isSome = true ∨
        ∃ d, (t.observe (specimenLater 1 (by decide))).clearGaveUp.StartsAt d) :=
  ⟨by decide +kernel,refusal_followed_iff (scalar specimen) _ (specimenLater 1 (by decide))
    specimenPayload (List.replicate 148 0) [] (by decide +kernel)
    (fun _ => specimenPolls 5 (by decide)) specimenPolls_working⟩

/-- Without one nothing is armed, and nothing is announced. -/
theorem refusal_strands_payload :
    let t := Machine.final (step (scalar specimen)) specimenTunnel specimenReset
    let x := t.encapsulate (scalar specimen) (specimenLater 1 (by decide)) specimenPayload
      (List.replicate 148 0) []
    x.result = .error .notEstablished ∧ x.tunnel.inflight = none ∧ x.tunnel.nextWake = none := by
  decide +kernel

end WireGuard
