import WireGuard.Refinement

/-!
# What the timers know about the last initiation

Timers and sessions are set by different operations, and `poll` and `nextWake`
read them with different tests. `Paced` is the relation between them that holds
in every reachable state: when the pacing interval must already have passed,
and which sessions can have been completed by an initiation of this end.
-/

set_option autoImplicit false

namespace WireGuard
open ByteString Tunnel

variable {P : Primitives}

structure Paced (t : Tunnel P) : Prop where
  past : ∀ l, t.timers.lastInitiationTx = some l → l ≤ t.lastNow
  pending : t.inflight.isSome = true → ∃ l r, t.timers.lastInitiationTx = some l ∧
    t.timers.retransmitAt = some r ∧ l.addNanos rekeyTimeout ≤ r
  gaveUp : t.timers.gaveUp = true → t.inflight = none → ∃ l,
    t.timers.lastInitiationTx = some l ∧ l.addNanos rekeyTimeout ≤ t.lastNow
  confirming : t.timers.confirmKeepaliveDue = true → t.inflight = none → ∀ s,
    t.current = some s → s.keys.isInitiator = true → ∀ l, t.timers.lastInitiationTx = some l →
      l ≤ s.created ∨ l.addNanos rekeyTimeout ≤ t.lastNow
  rekeying : t.timers.confirmKeepaliveDue = true → t.timers.rekeyDue = true →
    t.inflight = none → t.timers.pacingAt ≤ t.lastNow
  next : ∀ s, t.next = some s → s.keys.isInitiator = false

theorem Paced.clock {t : Tunnel P} (h : Paced t) {now : Ticks} (hn : t.lastNow ≤ now) :
    Paced {t with lastNow := now} where
  past l hl := (h.past l hl).trans hn
  pending := h.pending
  gaveUp hg hi := by
    obtain ⟨l,hl,hle⟩ := h.gaveUp hg hi
    exact ⟨l,hl,hle.trans hn⟩
  confirming hc hi s hs his l hl := by
    rcases h.confirming hc hi s hs his l hl with hle | hle
    · exact Or.inl hle
    · exact Or.inr (le_trans hle hn)
  rekeying hc hr hi := (h.rekeying hc hr hi).trans hn
  next := h.next

theorem Paced.initiate {t : Tunnel P} (h : Paced t) (now : Now) (index : UInt32)
    (eph : Bytes 32) (jitter : ℕ) : Paced ((Act.initiate now index eph jitter).apply t) where
  past l hl := by
    obtain rfl := Option.some.inj hl
    exact le_rfl
  pending _ := ⟨t.lastNow,_,rfl,rfl,Ticks.le_addNanos _ _⟩
  gaveUp _ hi := by cases hi
  confirming _ hi := by cases hi
  rekeying _ _ hi := by cases hi
  next := h.next

theorem Paced.complete {t : Tunnel P} (h : Paced t) (m : HandshakeResponse)
    (keys : SessionKeys) : Paced ((Act.complete m keys).apply t) where
  past := h.past
  pending hi := by cases hi
  gaveUp hg := by cases hg
  confirming _ _ s hs _ l hl := by
    obtain rfl := Option.some.inj hs
    exact Or.inl (h.past l hl)
  rekeying _ hr := by cases hr
  next := h.next

theorem Paced.abandon {t : Tunnel P} (h : Paced t)
    (hd : t.retransmitDue t.lastNow = true) : Paced t.abandon where
  past := h.past
  pending hi := by cases hi
  gaveUp _ _ := by
    simp only [retransmitDue,Bool.and_eq_true] at hd
    obtain ⟨l,r,hl,hr,hle⟩ := h.pending hd.1
    simp only [hr,decide_eq_true_eq] at hd
    exact ⟨l,hl,hle.trans hd.2⟩
  confirming _ _ s hs _ l hl := by
    simp only [retransmitDue,Bool.and_eq_true] at hd
    obtain ⟨l',r,hl',hr,hle⟩ := h.pending hd.1
    obtain rfl := Option.some.inj (hl'.symm.trans hl)
    simp only [hr,decide_eq_true_eq] at hd
    exact Or.inr (hle.trans hd.2)
  rekeying _ hr := by cases hr
  next := h.next

theorem Paced.discard {t : Tunnel P} (h : Paced t) : Paced t.discardAllSessions where
  past := h.past
  pending hi := by cases hi
  gaveUp hg := by cases hg
  confirming hc := by cases hc
  rekeying hc := by cases hc
  next s hs := by cases hs

theorem Paced.setNext {t t' : Tunnel P} (h : Paced t) (ht : t' = {t with next := t'.next})
    (hn : ∀ s, t'.next = some s → s.keys.isInitiator = false) : Paced t' := by
  rw [ht]
  exact ⟨h.past,h.pending,h.gaveUp,h.confirming,h.rekeying,hn⟩

theorem Paced.setSlot {t : Tunnel P} (h : Paced t) {a : Slot} {s s' : Session}
    (hs : t.slot a = some s) (hk : s'.keys = s.keys) (hc : s'.created = s.created) :
    Paced (t.setSlot s' a) := by
  cases a with
  | previous => exact ⟨h.past,h.pending,h.gaveUp,h.confirming,h.rekeying,h.next⟩
  | current =>
    refine ⟨h.past,h.pending,h.gaveUp,fun hf hi u hu his => ?_,h.rekeying,h.next⟩
    obtain rfl := Option.some.inj hu
    rw [hc]
    exact h.confirming hf hi s hs (by rwa [hk] at his)
  | next =>
    refine ⟨h.past,h.pending,h.gaveUp,h.confirming,h.rekeying,fun u hu => ?_⟩
    obtain rfl := Option.some.inj hu
    rw [hk]
    exact h.next s hs

theorem Paced.promote {t : Tunnel P} (h : Paced t) (now : Ticks) : Paced (t.promote now) where
  past := h.past
  pending hi := by cases hi
  gaveUp hg := by cases hg
  confirming _ _ s hs his := by
    rw [h.next s hs] at his
    cases his
  rekeying _ hr := by cases hr
  next s hs := by cases hs

theorem Paced.armRecvRekey {t : Tunnel P} (h : Paced t) : Paced (t.armRecvRekey t.lastNow) := by
  unfold Tunnel.armRecvRekey
  split
  · rename_i hr
    refine ⟨h.past,h.pending,h.gaveUp,h.confirming,fun hc _ hi => ?_,h.next⟩
    simp only [recvRekey,Bool.and_eq_true] at hr
    have hr2 := hr.2
    split at hr2
    · cases hr2
    rename_i s hs
    simp only [Bool.and_eq_true,decide_eq_true_eq] at hr2
    unfold Timers.pacingAt
    dsimp only
    split
    · exact Ticks.zero_le _
    rename_i l hl
    rcases h.confirming hc hi s hs hr2.1 l hl with hle | hle
    · have hage : t.lastNow.nanos-s.created.nanos ≥ rekeyAfterTimeRecv := hr2.2
      have hk : rekeyTimeout ≤ rekeyAfterTimeRecv ∧ 0 < rekeyTimeout := by decide
      apply Ticks.addNanos_le_of_add_le
      rw [Ticks.le_iff] at hle
      omega
    · exact hle
  · exact h

theorem Paced.noteReceived {t : Tunnel P} (h : Paced t) (now : Ticks) (n : ℕ) :
    Paced (t.noteReceived now n) where
  past := h.past
  pending := h.pending
  gaveUp hg := by cases hg
  confirming := h.confirming
  rekeying := h.rekeying
  next := h.next

def Timers.noteSealed (tm : Timers) (now : Ticks) (payloadLen : Option ℕ) : Timers :=
  if payloadLen.getD 0 = 0 then tm.noteKeepaliveTx now else tm.noteDataTx now

theorem armSendRekey_timers (t : Tunnel P) (now : Ticks) :
    ∃ r, (t.armSendRekey now).timers = {t.timers with rekeyDue := r} := by
  unfold armSendRekey
  split
  · exact ⟨true,rfl⟩
  · exact ⟨t.timers.rekeyDue,rfl⟩

theorem commitSeal_noted (t : Tunnel P) (now : Ticks) (payloadLen : Option ℕ) :
    ∃ r, (t.commitSeal now payloadLen).timers =
      {t.timers.noteSealed now payloadLen with rekeyDue := r} := by
  cases payloadLen with
  | none => exact armSendRekey_timers (t.takeCounter.noteKeepaliveSent now) now
  | some n => exact armSendRekey_timers (t.takeCounter.noteTransportSent now n) now

theorem commitSeal_timers (t : Tunnel P) (now : Ticks) (payloadLen : Option ℕ) :
    (t.commitSeal now payloadLen).timers.lastInitiationTx = t.timers.lastInitiationTx ∧
    (t.commitSeal now payloadLen).timers.retransmitAt = t.timers.retransmitAt ∧
    (t.commitSeal now payloadLen).timers.confirmKeepaliveDue = false ∧
    ((t.commitSeal now payloadLen).timers.gaveUp = true → t.timers.gaveUp = true) := by
  obtain ⟨r,hr⟩ := commitSeal_noted t now payloadLen
  rw [hr]
  unfold Timers.noteSealed
  split
  · exact ⟨rfl,rfl,rfl,id⟩
  · exact ⟨rfl,rfl,rfl,fun h => by cases h⟩

theorem Paced.transmit {t : Tunnel P} (h : Paced t) (now : Ticks) (payloadLen : Option ℕ) :
    Paced (t.commitSeal now payloadLen) := by
  obtain ⟨hlast,hretransmit,hconfirm,hgave⟩ := commitSeal_timers t now payloadLen
  rw [commitSeal_frame]
  refine ⟨fun l hl => h.past l (hlast.symm.trans hl),fun hi => ?_,fun hg hi => ?_,
    fun hc => ?_,fun hc => ?_,h.next⟩
  · dsimp only
    rw [hlast,hretransmit]
    exact h.pending hi
  · dsimp only
    rw [hlast]
    exact h.gaveUp (hgave hg) hi
  · exact absurd (hconfirm.symm.trans hc) (by simp)
  · exact absurd (hconfirm.symm.trans hc) (by simp)

theorem Paced.accept {t : Tunnel P} (h : Paced t) {a : Slot} {s : Session}
    (hs : t.slot a = some s) (replay : ReplayWindow) (n : ℕ) :
    Paced (t.commitTransport t.lastNow a s replay n) := by
  have h1 : Paced (t.setSlot {s with replay := replay, confirmed := true} a) :=
    h.setSlot hs rfl rfl
  have hl : (t.setSlot {s with replay := replay, confirmed := true} a).lastNow = t.lastNow := by
    cases a <;> rfl
  unfold commitTransport
  dsimp only
  apply Paced.noteReceived
  split
  · have h2 := (h1.promote t.lastNow).armRecvRekey
    rwa [show (Tunnel.promote _ t.lastNow).lastNow = t.lastNow from hl] at h2
  · have h2 := h1.armRecvRekey
    rwa [hl] at h2

theorem paced_act (t : Tunnel P) (a : Act) (h : Paced t) (ha : a.enabled t) :
    Paced (a.apply t) := by
  cases a with
  | clock now => exact h.clock ha
  | initiate now index eph jitter => exact h.initiate now index eph jitter
  | respond m consumed index eph =>
    refine ⟨h.past,h.pending,h.gaveUp,h.confirming,h.rekeying,fun s hs => ?_⟩
    obtain rfl := Option.some.inj hs
    rfl
  | complete m keys => exact h.complete m keys
  | transmit payloadLen => exact h.transmit t.lastNow payloadLen
  | accept slot counter n =>
    obtain ⟨s,hs,_⟩ := ha
    simp only [Act.apply,hs]
    exact h.accept hs _ n
  | expireNext =>
    refine h.setNext (expireNext_frame t t.lastNow) fun s hs => ?_
    dsimp only [Act.apply] at hs
    unfold Tunnel.expireNext at hs
    split at hs
    · exact h.next s hs
    · split at hs
      · cases hs
      · exact h.next s hs
  | discard => exact h.discard
  | abandon => exact h.abandon ha.1
  | satisfyRekey =>
    exact ⟨h.past,h.pending,h.gaveUp,h.confirming,(fun _ hr => by cases hr),h.next⟩
  | dropConfirm =>
    exact ⟨h.past,h.pending,h.gaveUp,(fun hc => by cases hc),(fun hc => by cases hc),h.next⟩
  | clearGaveUp =>
    exact ⟨h.past,h.pending,(fun hg => by cases hg),h.confirming,h.rekeying,h.next⟩
  | _ => exact ⟨h.past,h.pending,h.gaveUp,h.confirming,h.rekeying,h.next⟩

theorem paced_reachable {C : ChaChaImpl} {config : Config} {t u : Tunnel P}
    (ht : withBackend P config = .ok t) (hu : Machine.Reachable (step C) t u) : Paced u := by
  have hf := (withBackend_ok ht).1
  refine (step_refines C).reachable_invariant Paced paced_act ?_ hu
  refine ⟨?_,?_,?_,?_,?_,?_⟩ <;> simp [hf.timers,hf.inflight,hf.next,Timers.default]

end WireGuard
