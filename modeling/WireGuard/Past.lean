import WireGuard.Ledger
import WireGuard.Pacing

/-!
# Nothing is dated later than now

What accepting a message leaves in the timers, which sessions sealing and
accepting leave in the slots, and that no instant a tunnel remembers lies ahead
of its clock.
-/

set_option autoImplicit false

namespace WireGuard
open ByteString Tunnel

variable {P : Primitives}

def Session.promotedBy (s : Session) (slot : Slot) : Bool := !s.confirmed && slot == .next

def Timers.noteAccepted (tm : Timers) (now : Ticks) (promoted : Bool) (n : ℕ) : Timers :=
  (if promoted then tm.noteHandshakeComplete else tm).noteRx now (n == 0)

theorem commitTransport_noted (t : Tunnel P) (now : Ticks) (slot : Slot) (s : Session)
    (replay : ReplayWindow) (n : ℕ) : ∃ r, (t.commitTransport now slot s replay n).timers =
      {t.timers.noteAccepted now (s.promotedBy slot) n with rekeyDue := r} := by
  have harm : ∀ u : Tunnel P, ∃ r, ((u.armRecvRekey now).noteReceived now n).timers =
      {u.timers.noteRx now (n == 0) with rekeyDue := r} := by
    intro u
    unfold armRecvRekey
    split
    · exact ⟨true,rfl⟩
    · exact ⟨u.timers.rekeyDue,rfl⟩
  have hset : ∀ s', (t.setSlot s' slot).timers = t.timers := by
    intro s'
    cases slot <;> rfl
  unfold commitTransport Timers.noteAccepted Session.promotedBy
  dsimp only
  split
  · obtain ⟨r,hr⟩ := harm
      ((t.setSlot {s with replay := replay, confirmed := true} slot).promote now)
    refine ⟨r,hr.trans ?_⟩
    rw [show (Tunnel.promote _ now).timers = (Tunnel.timers _).noteHandshakeComplete from rfl,hset]
  · obtain ⟨r,hr⟩ := harm (t.setSlot {s with replay := replay, confirmed := true} slot)
    refine ⟨r,hr.trans ?_⟩
    rw [hset]

theorem slot_commitTransport (t : Tunnel P) (now : Ticks) (slot : Slot) (s : Session)
    (replay : ReplayWindow) (n : ℕ) (a : Slot) :
    (t.commitTransport now slot s replay n).slot a =
      (let u := t.setSlot {s with replay := replay, confirmed := true} slot
      if s.promotedBy slot then (u.promote now).slot a else u.slot a) := by
  have hn : ∀ u : Tunnel P, ((u.armRecvRekey now).noteReceived now n).slot a = u.slot a :=
    fun u => Eq.trans (by cases a <;> rfl) (slot_armRecvRekey u now a)
  unfold commitTransport Session.promotedBy
  dsimp only
  split
  · exact hn _
  · exact hn _

/-- Every session of `t'` has the keys, the age and the name of one of `t`. -/
def Inherited (t t' : Tunnel P) : Prop :=
  ∀ a s', t'.slot a = some s' → ∃ b s, t.slot b = some s ∧ s'.keys = s.keys ∧
    s'.created = s.created ∧ s'.tag = s.tag

theorem inherited_transmit (t : Tunnel P) (now : Ticks) (payloadLen : Option ℕ) :
    Inherited t (t.commitSeal now payloadLen) := by
  intro a s' hs'
  rw [slot_commitSeal] at hs'
  cases a with
  | previous => exact ⟨.previous,s',hs',rfl,rfl,rfl⟩
  | next => exact ⟨.next,s',hs',rfl,rfl,rfl⟩
  | current =>
    obtain ⟨s,hs,rfl⟩ := Option.map_eq_some_iff.mp hs'
    exact ⟨.current,s,hs,rfl,rfl,rfl⟩

theorem inherited_setSlot {t : Tunnel P} {slot : Slot} {s : Session} (hs : t.slot slot = some s)
    (replay : ReplayWindow) :
    Inherited t (t.setSlot {s with replay := replay, confirmed := true} slot) := by
  intro a s' hs'
  by_cases ha : a = slot
  · subst ha
    rw [slot_setSlot] at hs'
    obtain rfl := Option.some.inj hs'
    exact ⟨a,s,hs,rfl,rfl,rfl⟩
  · rw [slot_setSlot_ne t _ ha] at hs'
    exact ⟨a,s',hs',rfl,rfl,rfl⟩

theorem inherited_promote (t : Tunnel P) (now : Ticks) : Inherited t (t.promote now) := by
  intro a s' hs'
  cases a with
  | previous => exact ⟨.current,s',hs',rfl,rfl,rfl⟩
  | current => exact ⟨.next,s',hs',rfl,rfl,rfl⟩
  | next => cases hs'

theorem Inherited.trans {t u v : Tunnel P} (h : Inherited t u) (h' : Inherited u v) :
    Inherited t v := by
  intro a s' hs'
  obtain ⟨b,s,hs,hk,hc,ht⟩ := h' a s' hs'
  obtain ⟨c,r,hr,hk',hc',ht'⟩ := h b s hs
  exact ⟨c,r,hr,hk.trans hk',hc.trans hc',ht.trans ht'⟩

theorem inherited_accept {t : Tunnel P} {slot : Slot} {s : Session} (hs : t.slot slot = some s)
    (now : Ticks) (replay : ReplayWindow) (n : ℕ) :
    Inherited t (t.commitTransport now slot s replay n) := by
  have hset := inherited_setSlot hs replay
  intro a s' hs'
  rw [slot_commitTransport] at hs'
  dsimp only at hs'
  split at hs'
  · exact (hset.trans (inherited_promote _ now)) a s' hs'
  · exact hset a s' hs'

structure Timers.Past (tm : Timers) (now : Ticks) : Prop where
  dataTx : ∀ x, tm.lastDataTx = some x → x ≤ now
  dataRx : ∀ x, tm.lastDataRx = some x → x ≤ now
  anyTx : ∀ x, tm.lastAnyTx = some x → x ≤ now
  anyRx : ∀ x, tm.lastAnyRx = some x → x ≤ now

structure Past (t : Tunnel P) : Prop where
  timers : t.timers.Past t.lastNow
  created : ∀ a s, t.slot a = some s → s.created ≤ t.lastNow

theorem le_of_some {x now : Ticks} (h : some now = some x) : x ≤ now :=
  (Option.some.inj h).symm.le

theorem Timers.Past.noteSealed {tm : Timers} {now : Ticks} (h : tm.Past now)
    (payloadLen : Option ℕ) (r : Bool) :
    Timers.Past {tm.noteSealed now payloadLen with rekeyDue := r} now := by
  unfold Timers.noteSealed
  split
  · exact ⟨h.dataTx,h.dataRx,fun _ => le_of_some,h.anyRx⟩
  · exact ⟨fun _ => le_of_some,h.dataRx,fun _ => le_of_some,h.anyRx⟩

theorem Timers.Past.noteAccepted {tm : Timers} {now : Ticks} (h : tm.Past now)
    (promoted : Bool) (n : ℕ) (r : Bool) :
    Timers.Past {tm.noteAccepted now promoted n with rekeyDue := r} now := by
  have hrx : ∀ (old : Option Ticks), (∀ x, old = some x → x ≤ now) → ∀ x,
      (if (n == 0) = true then old else some now) = some x → x ≤ now := by
    intro old hold x hx
    split at hx
    · exact hold x hx
    · exact le_of_some hx
  unfold Timers.noteAccepted
  split
  · exact ⟨h.dataTx,hrx _ h.dataRx,h.anyTx,fun _ => le_of_some⟩
  · exact ⟨h.dataTx,hrx _ h.dataRx,h.anyTx,fun _ => le_of_some⟩

theorem Past.inherit {t t' : Tunnel P} (h : Past t) (hl : t'.lastNow = t.lastNow)
    (ht : t'.timers.Past t.lastNow) (hi : Inherited t t') : Past t' where
  timers := hl ▸ ht
  created a s' hs' := by
    obtain ⟨b,s,hs,_,hc,_⟩ := hi a s' hs'
    rw [hc,hl]
    exact h.created b s hs

theorem past_act (t : Tunnel P) (a : Act) (h : Past t) (ha : a.enabled t) :
    Past (a.apply t) := by
  obtain ⟨htm,hc⟩ := h
  obtain ⟨htx,hrx,hatx,harx⟩ := htm
  cases a with
  | clock now =>
    have hle : t.lastNow ≤ now := ha
    refine ⟨⟨fun x hx => (htx x hx).trans hle,fun x hx => (hrx x hx).trans hle,
      fun x hx => (hatx x hx).trans hle,fun x hx => (harx x hx).trans hle⟩,fun b s hs => ?_⟩
    exact (hc b s (by cases b <;> exact hs)).trans hle
  | respond m consumed index eph =>
    refine ⟨⟨htx,hrx,hatx,harx⟩,fun b s hs => ?_⟩
    cases b with
    | previous => exact hc .previous s hs
    | current => exact hc .current s hs
    | next =>
      obtain rfl := Option.some.inj hs
      exact le_rfl
  | complete m keys =>
    refine ⟨⟨htx,hrx,hatx,harx⟩,fun b s hs => ?_⟩
    cases b with
    | previous => exact hc .current s hs
    | current =>
      obtain rfl := Option.some.inj hs
      exact le_rfl
    | next => exact hc .next s hs
  | transmit payloadLen =>
    refine Past.inherit ⟨⟨htx,hrx,hatx,harx⟩,hc⟩ (commitSeal_lastNow _ _ _) ?_
      (inherited_transmit t t.lastNow payloadLen)
    obtain ⟨r,hr⟩ := commitSeal_noted t t.lastNow payloadLen
    dsimp only [Act.apply]
    rw [hr]
    exact Timers.Past.noteSealed ⟨htx,hrx,hatx,harx⟩ payloadLen r
  | accept slot counter n =>
    obtain ⟨s,hs,_⟩ := ha
    simp only [Act.apply,hs]
    refine Past.inherit ⟨⟨htx,hrx,hatx,harx⟩,hc⟩ (commitTransport_lastNow _ _ _ _ _ _) ?_
      (inherited_accept hs t.lastNow _ n)
    obtain ⟨r,hr⟩ := commitTransport_noted t t.lastNow slot s (s.replay.accept counter).1 n
    rw [hr]
    exact Timers.Past.noteAccepted ⟨htx,hrx,hatx,harx⟩ _ n r
  | expireNext =>
    dsimp only [Act.apply]
    rw [expireNext_frame]
    refine ⟨⟨htx,hrx,hatx,harx⟩,fun b s hs => ?_⟩
    cases b with
    | previous => exact hc .previous s hs
    | current => exact hc .current s hs
    | next =>
      change (t.expireNext t.lastNow).next = some s at hs
      unfold Tunnel.expireNext at hs
      split at hs
      · exact hc .next s hs
      · split at hs
        · cases hs
        · exact hc .next s hs
  | discard =>
    refine ⟨⟨?_,?_,?_,?_⟩,fun b s hs => by cases b <;> cases hs⟩ <;>
      exact fun x hx => by cases hx
  | disarmPassive =>
    exact ⟨⟨htx,(fun x hx => by cases hx),hatx,harx⟩,fun b s hs => hc b s (by cases b <;> exact hs)⟩
  | _ => exact ⟨⟨htx,hrx,hatx,harx⟩,fun b s hs => hc b s (by cases b <;> exact hs)⟩

theorem past_reachable {C : ChaChaImpl} {config : Config} {t u : Tunnel P}
    (ht : withBackend P config = .ok t) (hu : Machine.Reachable (step C) t u) : Past u := by
  have hf := (withBackend_ok ht).1
  refine (step_refines C).reachable_invariant Past past_act ⟨⟨?_,?_,?_,?_⟩,fun b s hs => ?_⟩ hu
  · simp [hf.timers,Timers.default]
  · simp [hf.timers,Timers.default]
  · simp [hf.timers,Timers.default]
  · simp [hf.timers,Timers.default]
  · cases b <;> simp [slot,hf.previous,hf.current,hf.next] at hs

theorem Past.observe {t : Tunnel P} (h : Past t) (now : Now) : Past (t.observe now) :=
  past_act t (.clock (max t.lastNow now.ticks)) h (le_max_left _ _)

end WireGuard
