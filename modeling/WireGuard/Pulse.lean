import WireGuard.Restraint
import WireGuard.Revival

/-!
# A tunnel with a persistent keepalive is never silent for long

What a persistent keepalive is measured from are instants that the tunnel remembers:
when it last sent a transport message or an initiation, and when its session was set up.
Each of them is the instant of a call that handed out a datagram or completed a
handshake. A poll that finds nothing to do has found one of them recent.
-/

set_option autoImplicit false

namespace WireGuard
open ByteString Tunnel

variable {P : Primitives}

/-- A call has handed out a datagram or completed a handshake. -/
def Output.signals (o : Output) : Bool :=
  o.sent || o == .decapsulated (.ok .handshakeComplete)

/-- The tunnel remembers having been active at `time`. -/
def Tunnel.Remembers (t : Tunnel P) (time : Ticks) : Prop :=
  t.timers.lastAnyTx = some time ∨ t.timers.lastInitiationTx = some time ∨
    ∃ a s, t.slot a = some s ∧ s.created = time

theorem remembers_inherited {t t' : Tunnel P} {time : Ticks} (h : t'.Remembers time)
    (htx : t'.timers.lastAnyTx = t.timers.lastAnyTx)
    (hinit : t'.timers.lastInitiationTx = t.timers.lastInitiationTx) (hs : Inherited t t') :
    t.Remembers time := by
  rcases h with h | h | ⟨a,s',hs',hc⟩
  · exact Or.inl (htx.symm.trans h)
  · exact Or.inr (Or.inl (hinit.symm.trans h))
  · obtain ⟨b,s,hb,_,hcr,_⟩ := hs a s' hs'
    exact Or.inr (Or.inr ⟨b,s,hb,hcr.symm.trans hc⟩)

theorem Tidied.inherited {t u : Tunnel P} (h : Tidied t u) : Inherited t u := by
  intro a s hs
  cases a with
  | previous => exact ⟨.previous,s,h.previous.symm.trans hs,rfl,rfl,rfl⟩
  | current => exact ⟨.current,s,h.current.symm.trans hs,rfl,rfl,rfl⟩
  | next =>
    rcases h.next with hn | ⟨hn,_⟩
    · exact ⟨.next,s,hn.symm.trans hs,rfl,rfl,rfl⟩
    · cases hn.symm.trans hs

theorem Tidied.remembers {t u : Tunnel P} {op : Op} (h : Tidied (t.seen op) u) {time : Ticks}
    (hr : u.Remembers time) : t.Remembers time := by
  have hs := remembers_inherited hr h.lastAnyTx h.lastInitiationTx h.inherited
  rw [t.seen_frame op] at hs
  exact hs

theorem signals_of_transport? {o : Output} {wire : List UInt8} (h : o.transport? = some wire) :
    o.signals = true := by
  unfold Output.transport? at h
  split at h
  · rfl
  · rfl
  · rfl
  · cases h

theorem signals_of_initiation? {o : Output} {wire : List UInt8} (h : o.initiation? = some wire) :
    o.signals = true := by
  unfold Output.initiation? at h
  split at h
  · rfl
  · rfl
  · rfl
  · rfl
  · cases h

theorem receipt_remembers {C : ChaChaImpl} {t : Tunnel P} {now : Now}
    {remote datagram out : List UInt8} {rng : Entropy} {r : Outcome P Received}
    (h : Receipt C t now remote datagram out rng r) {time : Ticks}
    (hr : r.tunnel.Remembers time) : t.Remembers time ∨
      (Output.decapsulated r.result).signals = true ∧ now.ticks = time := by
  cases h with
  | rejected t' rest e ht => rcases ht with rfl | rfl | rfl | rfl <;> exact Or.inl hr
  | cookieReply index mac1 reply j hj hn ho => exact Or.inl hr
  | stored cookie => exact Or.inl hr
  | answered m consumed index eph rest hm hmac hc hts hd =>
    rcases hr with hr | hr | ⟨a,s,hs,hcr⟩
    · exact Or.inl (Or.inl hr)
    · exact Or.inl (Or.inr (Or.inl hr))
    · cases a with
      | next =>
        obtain rfl := Option.some.inj hs
        exact Or.inr ⟨rfl,hcr⟩
      | previous => exact Or.inl (Or.inr (Or.inr ⟨.previous,s,hs,hcr⟩))
      | current => exact Or.inl (Or.inr (Or.inr ⟨.current,s,hs,hcr⟩))
  | completed m i keys hm hmac hi hx hk =>
    rcases hr with hr | hr | ⟨a,s,hs,hcr⟩
    · exact Or.inl (Or.inl hr)
    · exact Or.inl (Or.inr (Or.inl hr))
    · cases a with
      | current =>
        obtain rfl := Option.some.inj hs
        exact Or.inr ⟨rfl,hcr⟩
      | previous => exact Or.inl (Or.inr (Or.inr ⟨.current,s,hs,hcr⟩))
      | next => exact Or.inl (Or.inr (Or.inr ⟨.next,s,hs,hcr⟩))
  | accepted m slot s plain hm hx hs hn ha hk ho =>
    obtain ⟨b,hb⟩ := commitTransport_noted t now.ticks slot s (s.replay.accept m.counter).1
      plain.length
    refine Or.inl (remembers_inherited hr ?_ ?_ (inherited_accept hs now.ticks _ plain.length))
    · dsimp only
      rw [hb]
      unfold Timers.noteAccepted
      split <;> rfl
    · dsimp only
      rw [hb]
      unfold Timers.noteAccepted
      split <;> rfl

theorem deed_remembers {C : ChaChaImpl} {t t' : Tunnel P} {op : Op} {o : Output}
    (h : Deed C t op o t') {time : Ticks} (hr : t'.Remembers time) :
    t.Remembers time ∨ o.signals = true ∧ t'.lastNow = time := by
  have hlast := h.lastNow
  cases h with
  | rested hu ho hop => exact Or.inl (hu.remembers hr)
  | @launched _ u now index eph jitter hu ha h0 hw =>
    rcases hr with hr | hr | hr
    · exact Or.inl (hu.remembers (Or.inl hr))
    · exact Or.inr ⟨signals_of_initiation? hw,Option.some.inj hr⟩
    · exact Or.inl (hu.remembers (Or.inr (Or.inr hr)))
  | @posted _ u s plain hu hs hc hw =>
    have hl : ((Act.transmit op.payloadLen).apply u).lastNow = u.lastNow :=
      commitSeal_lastNow u u.lastNow op.payloadLen
    have htx : ((Act.transmit op.payloadLen).apply u).timers.lastAnyTx = some u.lastNow := by
      obtain ⟨b,hb⟩ := commitSeal_noted u u.lastNow op.payloadLen
      simp only [Act.apply,hb]
      unfold Timers.noteSealed
      split <;> rfl
    rcases hr with hr | hr | ⟨a,s',hs',hcr⟩
    · exact Or.inr ⟨signals_of_transport? hw,hl.trans (Option.some.inj (htx.symm.trans hr))⟩
    · exact Or.inl (hu.remembers (Or.inr (Or.inl
        ((commitSeal_timers u u.lastNow op.payloadLen).1.symm.trans hr))))
    · obtain ⟨b,s,hb,_,hb',_⟩ := inherited_transmit u u.lastNow op.payloadLen a s' hs'
      exact Or.inl (hu.remembers (Or.inr (Or.inr ⟨b,s,hb,hb'.symm.trans hcr⟩)))
  | discarded hu ho =>
    rcases hr with hr | hr | ⟨a,s,hs,_⟩
    · cases hr
    · exact Or.inl (hu.remembers (Or.inr (Or.inl hr)))
    · cases a <;> cases hs
  | abandoned hu hr' =>
    exact Or.inl (hu.remembers hr)
  | received now remote underLoad datagram out rng hop hr' hok =>
    subst hop
    rcases receipt_remembers hr' hr with h | ⟨hsig,htime⟩
    · exact Or.inl h
    · exact Or.inr ⟨hsig,hlast.trans htime⟩

theorem remembers_run (C : ChaChaImpl) {config : Config} {t : Tunnel P}
    (ht : withBackend P config = .ok t) (ops : List Op) {time : Ticks}
    (hr : (Machine.final (step C) t ops).Remembers time) :
    ∃ x ∈ run C t ops, x.output.signals = true ∧ x.after.lastNow = time := by
  refine Machine.history_invariant (step C) t (fun h u => ∀ time, u.Remembers time →
    ∃ x ∈ h, x.output.signals = true ∧ x.after.lastNow = time) (fun time h => ?_)
    (fun h u op ih time hr => ?_) ops time hr
  · have hf := (withBackend_ok ht).1
    rcases h with h | h | ⟨a,s,hs,_⟩
    · rw [hf.timers] at h
      cases h
    · rw [hf.timers] at h
      cases h
    · cases a <;> simp [slot,hf.previous,hf.current,hf.next] at hs
  · rcases deed_remembers (step_deed C u op) hr with hr | ⟨hsig,htime⟩
    · obtain ⟨x,hx,hp⟩ := ih time hr
      exact ⟨x,List.mem_append_left _ hx,hp⟩
    · exact ⟨_,List.mem_append_right _ (List.mem_singleton_self _),hsig,htime⟩

/-! ## The pending attempt -/

def Tunnel.Due (t : Tunnel P) : Prop :=
  t.inflight ≠ none → ∃ l r, t.timers.lastInitiationTx = some l ∧
    t.timers.retransmitAt = some r ∧ r.nanos ≤ l.nanos+(rekeyTimeout+rekeyTimeoutJitterMax)

theorem commitTransport_inflight (t : Tunnel P) (now : Ticks) (slot : Slot) (s : Session)
    (replay : ReplayWindow) (n : ℕ) : (t.commitTransport now slot s replay n).inflight =
      if s.promotedBy slot then none else t.inflight := by
  have harm : ∀ u : Tunnel P, ((u.armRecvRekey now).noteReceived now n).inflight = u.inflight := by
    intro u
    unfold armRecvRekey
    split <;> rfl
  unfold commitTransport Session.promotedBy
  dsimp only
  rw [harm]
  split
  · rfl
  · cases slot <;> rfl

theorem due_act (t : Tunnel P) (a : Act) (h : t.Due) (_ : a.enabled t) : (a.apply t).Due := by
  cases a with
  | initiate now index eph jitter =>
    intro _
    refine ⟨_,_,rfl,rfl,?_⟩
    have hj : min jitter rekeyTimeoutJitterMax ≤ rekeyTimeoutJitterMax := Nat.min_le_right _ _
    rw [Ticks.addNanos_addNanos]
    exact (Nat.min_le_left _ _).trans (by omega)
  | transmit payloadLen =>
    obtain ⟨hl,hr,_⟩ := commitSeal_timers t t.lastNow payloadLen
    have hi : ((Act.transmit payloadLen).apply t).inflight = t.inflight := by
      simp only [Act.apply]
      rw [commitSeal_frame]
    intro hpend
    rw [hi] at hpend
    simp only [Act.apply]
    rw [hl,hr]
    exact h hpend
  | accept slot counter n =>
    simp only [Act.apply]
    split
    · rename_i s hs
      obtain ⟨r,hr⟩ := commitTransport_noted t t.lastNow slot s (s.replay.accept counter).1 n
      intro hpend
      rw [commitTransport_inflight] at hpend
      cases hp : s.promotedBy slot with
      | true => exact absurd (by rw [hp]; rfl) hpend
      | false =>
        rw [hp] at hpend hr
        rw [hr]
        exact h hpend
    · exact h
  | expireNext =>
    simp only [Act.apply]
    rw [expireNext_frame]
    exact h
  | complete m keys => exact fun hpend => absurd rfl hpend
  | discard => exact fun hpend => absurd rfl hpend
  | abandon => exact fun hpend => absurd rfl hpend
  | _ => exact h

theorem due_reachable {C : ChaChaImpl} {config : Config} {t u : Tunnel P}
    (ht : withBackend P config = .ok t) (hu : Machine.Reachable (step C) t u) : u.Due :=
  (step_refines C).reachable_invariant Tunnel.Due due_act
    (fun h => absurd (withBackend_ok ht).1.inflight h) hu

theorem usable_remembers {t : Tunnel P} {n : ℕ} (hu : t.currentUsable t.lastNow = true)
    (hb : t.lastNow.since t.keepaliveBase < n) :
    ∃ time, t.Remembers time ∧ t.lastNow.since time < n := by
  obtain ⟨s,hs,_⟩ := currentUsable_some hu
  unfold keepaliveBase at hb
  cases htx : t.timers.lastAnyTx with
  | some tx =>
    rw [htx] at hb
    exact ⟨tx,Or.inl htx,hb⟩
  | none =>
    rw [htx,hs] at hb
    exact ⟨s.created,Or.inr (Or.inr ⟨.current,s,hs,rfl⟩),hb⟩

theorem pending_remembers {t : Tunnel P} {i : InFlightInitiation} (hd : t.Due)
    (hin : t.inflight = some i) (hret : t.retransmitDue t.lastNow = false) :
    ∃ time, t.Remembers time ∧ t.lastNow.since time < rekeyTimeout+rekeyTimeoutJitterMax := by
  obtain ⟨l,r,hl,hr,hle⟩ := hd (by rw [hin]; simp)
  refine ⟨l,Or.inr (Or.inl hl),?_⟩
  simp only [retransmitDue,hin,hr,Option.isSome_some,Bool.true_and,decide_eq_false_iff_not,
    not_le] at hret
  have hlt : t.lastNow.nanos < r.nanos := hret
  have hpos : 0 < rekeyTimeout := by decide
  unfold Ticks.since
  omega

theorem revive_remembers {t : Tunnel P} {n : ℕ}
    (hre : t.timers.initiationAllowed t.lastNow = true →
      t.timers.persistentReviveAllowed t.lastNow n = false) :
    ∃ time, t.Remembers time ∧
      t.lastNow.since time < max n (rekeyTimeout+rekeyTimeoutJitterMax) := by
  unfold Timers.initiationAllowed Timers.persistentReviveAllowed at hre
  cases hl : t.timers.lastInitiationTx with
  | none => cases hg : t.timers.gaveUp <;> simp [hl,hg] at hre
  | some l =>
    refine ⟨l,Or.inr (Or.inl hl),?_⟩
    by_cases ha : rekeyTimeout ≤ t.lastNow.since l
    · cases hg : t.timers.gaveUp with
      | false => simp [hl,hg,ha] at hre
      | true => exact lt_max_of_lt_left (by simpa [hl,hg,ha] using hre)
    · exact lt_max_of_lt_right (by omega)

/-- When a poll finds nothing to do, the tunnel remembers recent activity. -/
theorem idle_remembers {t : Tunnel P} {interval : NonZeroU16} (hd : t.Due)
    (hk : t.persistentKeepalive = some interval) (hp : t.Passed t.lastNow)
    (hi : (t.settle t.lastNow).PersistentIdle t.lastNow) :
    ∃ time, t.Remembers time ∧ t.lastNow.since time <
      max (intervalNs interval) (rekeyTimeout+rekeyTimeoutJitterMax) := by
  rw [settle_eq t t.lastNow] at hi
  obtain ⟨husable,hrevive⟩ := hi interval hk
  cases hu : t.currentUsable t.lastNow with
  | true =>
    obtain ⟨time,hr,hlt⟩ := usable_remembers hu (husable hu)
    exact ⟨time,hr,lt_max_of_lt_left hlt⟩
  | false =>
    cases hin : t.inflight with
    | some i =>
      obtain ⟨time,hr,hlt⟩ := pending_remembers hd hin hp.retransmit
      exact ⟨time,hr,lt_max_of_lt_right hlt⟩
    | none => exact revive_remembers (hrevive hu hin)

/-- However a tunnel with a persistent keepalive was used: when a poll finds nothing to do,
then within the interval, or within the time in which a handshake is repeated if that is
longer, it has handed out a datagram or completed a handshake. -/
theorem never_silent_for_long (C : ChaChaImpl) {config : Config} {t : Tunnel P}
    {interval : NonZeroU16} (ht : withBackend P config = .ok t)
    (hk : config.persistentKeepalive = some interval) (ops : List Op) (now : Now)
    (out : List UInt8) (rng : Entropy) :
    let u := Machine.final (step C) t ops
    (u.poll C now out rng).result = .ok .idle →
      ∃ x ∈ run C t ops, x.output.signals = true ∧
        (u.clampNow now).2.ticks.since x.after.lastNow <
          max (intervalNs interval) (rekeyTimeout+rekeyTimeoutJitterMax) := by
  intro u hidle
  have hu : Machine.Reachable (step C) t u := ⟨ops,rfl⟩
  obtain ⟨_,hp,hi⟩ := (poll_polled C u now out rng).of_idle hidle
  have hkeep : u.persistentKeepalive = some interval := by
    rw [reachable_persistentKeepalive hu,(withBackend_ok ht).2.persistentKeepalive,hk]
  have hd : (u.observe now).Due := show u.Due from due_reachable ht hu
  obtain ⟨time,hr,hlt⟩ := idle_remembers hd hkeep hp hi
  obtain ⟨x,hx,hsig,rfl⟩ := remembers_run C ht ops hr
  rw [clampNow_eq]
  exact ⟨x,hx,hsig,hlt⟩

/-- A second after the specimen's payload nothing is due. -/
theorem never_silent_for_long_specimen :
    let u := Machine.final (step (scalar specimen)) specimenPersistent specimenOps
    let now := specimenLater 1 (by decide)
    (u.poll (scalar specimen) now [] []).result = .ok .idle ∧
      ∃ x ∈ run (scalar specimen) specimenPersistent specimenOps, x.output.signals = true ∧
        (u.clampNow now).2.ticks.since x.after.lastNow <
          max (intervalNs ⟨600,by decide,by decide⟩) (rekeyTimeout+rekeyTimeoutJitterMax) := by
  have hidle : ((Machine.final (step (scalar specimen)) specimenPersistent specimenOps).poll
      (scalar specimen) (specimenLater 1 (by decide)) [] []).result = .ok .idle := by
    decide +kernel
  exact ⟨hidle,never_silent_for_long (scalar specimen) (withBackend_build (by decide +kernel)) rfl
    specimenOps _ [] [] hidle⟩

end WireGuard
