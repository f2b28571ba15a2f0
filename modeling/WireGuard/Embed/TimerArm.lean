import WireGuard.Embed.AsyncTunn
import WireGuard.Wake
import WireGuard.Spacing

/-!
# Whether the timer arm comes to rest

The loop takes the timer arm as often as a deadline has come. With an endpoint
each pass polls the core, and soon none is due. Without one a pass does nothing,
so the arm is taken forever.
-/

set_option autoImplicit false

namespace WireGuard
open ByteString Tunnel

variable {P : Primitives} {C : ChaChaImpl}

/-- The polls of the core that a stream of timer calls makes. -/
def polls (calls : ℕ → TimerCall) : ℕ → PollCall := fun n => (calls n).toPollCall

namespace AsyncTunn

def timers (C : ChaChaImpl) (fuel : ℕ) :
    ℕ → AsyncTunn P → (ℕ → TimerCall) → Option (AsyncTunn P)
  | 0, d, _ => some d
  | n+1, d, calls => (d.timer C fuel calls).bind (fun r => timers C fuel n r.1 r.2.2)

/-- No deadline has come. -/
def Rests (d : AsyncTunn P) (now : Ticks) : Prop := ∀ w, d.tunn.nextWake = some w → now < w

end AsyncTunn

structure IdleAt (C : ChaChaImpl) (t : Tunnel P) (calls : ℕ → PollCall) (n : ℕ) : Prop where
  idle : drainResult C t calls n = .ok .idle
  acts : ∀ m < n, ∃ o, drainResult C t calls m = .ok o ∧ o ≠ .idle

theorem IdleAt.next {t : Tunnel P} {calls : ℕ → PollCall} {n : ℕ} (h : IdleAt C t calls (n+1)) :
    IdleAt C (drained C t calls 1) (fun i => calls (i+1)) n where
  idle := by
    rw [← drainResult_succ]
    exact h.idle
  acts m hm := by
    rw [← drainResult_succ]
    exact h.acts (m+1) (Nat.succ_lt_succ hm)

theorem drained_lastNow (C : ChaChaImpl) (t : Tunnel P) {calls : ℕ → PollCall} {now : Ticks} {k : ℕ}
    (hn : ∀ n ≤ k, (calls n).now.ticks = now) (n : ℕ) (hk : n ≤ k) :
    ((drained C t calls n).observe (calls n).now).lastNow = max t.lastNow now := by
  induction n with
  | zero =>
    show max t.lastNow (calls 0).now.ticks = _
    rw [hn 0 hk]
  | succ n ih =>
    have hd : (drained C t calls (n+1)).lastNow = max t.lastNow now :=
      (step_deed C (drained C t calls n) (.poll (calls n).now (calls n).out
        (calls n).rng)).lastNow.trans (ih (by omega))
    show max (drained C t calls (n+1)).lastNow (calls (n+1)).now.ticks = _
    rw [hd,hn _ hk,max_assoc,max_self]

namespace Tunn

theorem timerCall_inner (t : Tunn P) (calls : ℕ → TimerCall) :
    (t.timerCall C (calls 0)).tunn.inner = drained C t.inner (polls calls) 1 := by
  unfold timerCall updateTimers
  dsimp only
  split <;> rfl

theorem timerCall_idle {t : Tunn P} {calls : ℕ → TimerCall}
    (h : drainResult C t.inner (polls calls) 0 = .ok .idle) :
    (t.timerCall C (calls 0)).result = .done := by
  have h : (t.inner.poll C (calls 0).now (calls 0).out (calls 0).rng).result = .ok .idle := h
  unfold timerCall updateTimers
  simp only [h]

theorem timerLoop_sent {t : Tunn P} {calls : ℕ → TimerCall} {wire : List UInt8} (n : ℕ)
    (h : (t.timerCall C (calls 0)).result = .writeToNetwork wire) :
    timerLoop C (n+1) t calls =
      (timerLoop C n (t.timerCall C (calls 0)).tunn (fun i => calls (i+1))).map
        (fun p => {p with wires := wire::p.wires}) := by
  rw [timerLoop]
  simp only [h]

theorem timerLoop_stopped {t : Tunn P} {calls : ℕ → TimerCall} (n : ℕ)
    (h : ∀ wire, (t.timerCall C (calls 0)).result ≠ .writeToNetwork wire) :
    timerLoop C (n+1) t calls =
      some ⟨(t.timerCall C (calls 0)).tunn,[],fun i => calls (i+1)⟩ := by
  rw [timerLoop]
  split
  · rename_i wire hw
    exact absurd hw (h wire)
  · rfl

theorem timerLoop_ends {fuel : ℕ} (n : ℕ) {t : Tunn P} {calls : ℕ → TimerCall} (hf : n < fuel)
    (h : IdleAt C t.inner (polls calls) n) :
    ∃ p, timerLoop C fuel t calls = some p ∧
      (p.tunn.inner = drained C t.inner (polls calls) (n+1) ∨
        ∃ k < n, IdleAt C p.tunn.inner (polls p.rest) k ∧
          drained C p.tunn.inner (polls p.rest) (k+1) =
            drained C t.inner (polls calls) (n+1)) := by
  induction n generalizing t calls fuel with
  | zero =>
    obtain ⟨fuel,rfl⟩ := Nat.exists_eq_succ_of_ne_zero (Nat.pos_iff_ne_zero.mp hf)
    refine ⟨_,timerLoop_stopped fuel fun wire hw => ?_,Or.inl (timerCall_inner t calls)⟩
    rw [timerCall_idle h.idle] at hw
    cases hw
  | succ n ih =>
    obtain ⟨fuel,rfl⟩ := Nat.exists_eq_succ_of_ne_zero (Nat.pos_iff_ne_zero.mp (by omega : 0 < fuel))
    have hi := timerCall_inner (C := C) t calls
    have hs : drained C t.inner (polls calls) (n+1+1) =
        drained C (t.timerCall C (calls 0)).tunn.inner (polls (fun i => calls (i+1))) (n+1) := by
      rw [hi]
      exact drained_succ C t.inner (polls calls) (n+1)
    have hnext : IdleAt C (t.timerCall C (calls 0)).tunn.inner (polls (fun i => calls (i+1))) n := by
      rw [hi]
      exact h.next
    rw [hs]
    by_cases hw : ∃ wire, (t.timerCall C (calls 0)).result = .writeToNetwork wire
    · obtain ⟨wire,hw⟩ := hw
      obtain ⟨p,hp,hr⟩ := ih (Nat.lt_of_succ_lt_succ hf) hnext
      refine ⟨{p with wires := wire::p.wires},?_,?_⟩
      · rw [timerLoop_sent fuel hw,hp]
        rfl
      · rcases hr with hr | ⟨k,hk,hr⟩
        · exact Or.inl hr
        · exact Or.inr ⟨k,hk.trans (Nat.lt_succ_self n),hr⟩
    · exact ⟨_,timerLoop_stopped fuel (not_exists.mp hw),
        Or.inr ⟨n,Nat.lt_succ_self n,hnext,rfl⟩⟩

end Tunn

namespace AsyncTunn

theorem timer_some {d : AsyncTunn P} {fuel : ℕ} {calls : ℕ → TimerCall} {dst : SocketAddr}
    {p : TimerPass P} (hd : d.peerAddr = some dst) (hp : d.tunn.timerLoop C fuel calls = some p) :
    ∃ served, d.timer C fuel calls = some (⟨p.tunn,some dst⟩,served,p.rest) := by
  unfold timer
  rw [hd,hp]
  exact ⟨_,rfl⟩

theorem timers_end (fuel : ℕ) {dst : SocketAddr} (n : ℕ) {d : AsyncTunn P}
    {calls : ℕ → TimerCall} (hd : d.peerAddr = some dst) (hf : n < fuel)
    (h : IdleAt C d.tunn.inner (polls calls) n) :
    ∃ j ≤ n+1, ∃ r, timers C fuel j d calls = some r ∧
      r.tunn.inner = drained C d.tunn.inner (polls calls) (n+1) := by
  induction n using Nat.strong_induction_on generalizing d calls with
  | _ n ih =>
    obtain ⟨p,hp,hr⟩ := Tunn.timerLoop_ends n hf h
    obtain ⟨served,ht⟩ := timer_some hd hp
    rcases hr with hr | ⟨k,hk,hi,hr⟩
    · refine ⟨1,by omega,⟨p.tunn,some dst⟩,?_,hr⟩
      rw [timers,ht]
      rfl
    · obtain ⟨j,hj,r,hjr,he⟩ := ih k hk (d := ⟨p.tunn,some dst⟩) rfl (hk.trans hf) hi
      refine ⟨j+1,by omega,r,?_,he.trans hr⟩
      rw [timers,ht]
      exact hjr

theorem timers_stuck {fuel : ℕ} {d : AsyncTunn P} {calls : ℕ → TimerCall}
    (hd : d.peerAddr = none) (j : ℕ) : timers C fuel j d calls = some d := by
  induction j with
  | zero => rfl
  | succ j ih =>
    have ht : d.timer C fuel calls = some (d,.nothing,calls) := by
      unfold timer
      rw [hd]
    rw [timers,ht]
    exact ih

/-- At an instant, with buffers and entropy, the timer arm comes to rest exactly if
there is an endpoint or no deadline has come. -/
theorem timer_arm_rests_iff (C : ChaChaImpl) {d : AsyncTunn P} (ha : d.Arises C) (now : Ticks)
    (calls : ℕ → TimerCall) (ho : (max d.tunn.inner.lastNow now).nanos+6*second ≤ u64Max)
    (hnow : ∀ n ≤ 3, (calls n).now.ticks = now)
    (hlen : ∀ n ≤ 3, handshakeInitiationLen ≤ (calls n).out.length)
    (hs : ∀ n ≤ 3, (drained C d.tunn.inner (polls calls) n).Supplied (calls n).rng) :
    (∃ j r, timers C 4 j d calls = some r ∧ r.Rests now) ↔
      d.peerAddr.isSome = true ∨ d.Rests now := by
  constructor
  · rintro ⟨j,r,hr,hrest⟩
    cases hp : d.peerAddr with
    | some dst => exact Or.inl rfl
    | none =>
      rw [timers_stuck hp] at hr
      obtain rfl := Option.some.inj hr
      exact Or.inr hrest
  · rintro (hp | hrest)
    · obtain ⟨dst,hp⟩ := Option.isSome_iff_exists.mp hp
      obtain ⟨config,t,ht,hu⟩ := ha.core
      have hle := pending_le (d.tunn.inner.observe (polls calls 0).now)
      have hl := drained_lastNow C d.tunn.inner (k := 3) (show ∀ n ≤ 3, (polls calls n).now.ticks = now
        from hnow)
      obtain ⟨n,hn,hidle,hacts⟩ := drain_within C (max d.tunn.inner.lastNow now) ho d.tunn.inner
        (polls calls) (past_reachable ht hu) (fun n hn => hl n (hn.trans hle))
        (fun n hn => hlen n (hn.trans hle)) (fun n hn => hs n (hn.trans hle))
      obtain ⟨j,-,r,hr,hi⟩ := timers_end 4 n hp (by omega) ⟨hidle,hacts⟩
      refine ⟨j,r,hr,fun w hw => ?_⟩
      have hreach : ∀ k, Machine.Reachable (WireGuard.step C) t
          (drained C d.tunn.inner (polls calls) k) := by
        intro k
        induction k with
        | zero => exact hu
        | succ k ih =>
          exact ih.step (.poll (polls calls k).now (polls calls k).out (polls calls k).rng)
      have hl := hl n (hn.trans hle)
      have hsec : 0 < 6*second := by decide
      have hw' := lt_nextWake_of_idle C (u := drained C d.tunn.inner (polls calls) n)
        (paced_reachable ht (hreach (n+1)))
        (by rw [reading_ticks,hl]; omega) hidle w (by
          rw [← hw]
          unfold Tunn.nextWake
          rw [hi]
          rfl)
      rw [reading_ticks,hl] at hw'
      exact (le_max_right _ _).trans_lt hw'
    · exact ⟨0,d,rfl,hrest⟩

end AsyncTunn

def specimenTick (n : ℕ) : TimerCall :=
  ⟨{specimenDrain n with now := ⟨⟨600*second,by decide⟩,0,0⟩},0⟩

/-- A deadline has come, the first pass reports the end of the sessions, and the
second finds nothing to do. -/
theorem timer_arm_rests_specimen :
    (¬specimenHeld.Rests ⟨600*second,by decide⟩ ∧
      drainResult (scalar specimen) specimenHeld.tunn.inner (polls specimenTick) 0 =
        .ok .sessionsExpired) ∧
    ((∃ j r, AsyncTunn.timers (scalar specimen) 4 j specimenHeld specimenTick = some r ∧
        r.Rests ⟨600*second,by decide⟩) ↔
      specimenHeld.peerAddr.isSome = true ∨ specimenHeld.Rests ⟨600*second,by decide⟩) := by
  refine ⟨⟨fun h => ?_,by decide +kernel⟩,AsyncTunn.timer_arm_rests_iff (scalar specimen)
    specimenHeld_arises ⟨600*second,by decide⟩ specimenTick (by decide +kernel) (fun _ _ => rfl)
    (fun n _ => by simp [specimenTick,specimenDrain,handshakeInitiationLen]) fun n hn => ?_⟩
  · have hw : specimenHeld.tunn.nextWake = some ⟨540*second,by decide⟩ := by decide +kernel
    exact absurd (h _ hw) (by decide)
  · refine specimenDrain_supplied _ n ?_ ?_
    · revert n
      decide +kernel
    · revert n
      decide +kernel

def specimenHomeless : AsyncTunn specimen :=
  Machine.final (AsyncTunn.step (scalar specimen)) (.new specimenTunn none)
    [.outbound specimenPayload (List.replicate 256 0) ⟨Ticks.zero,0,0⟩
      (List.replicate 2 (some (fun _ => 0)))]

theorem specimenHomeless_wake :
    specimenHomeless.peerAddr = none ∧
      specimenHomeless.tunn.nextWake = some ⟨5*second,by decide⟩ := by
  decide +kernel

/-- The initiation is to be sent again after five seconds. However often the arm is
taken then, the deadline stays in the past. -/
theorem timer_arm_spins : specimenHomeless.Arises (scalar specimen) ∧
    ∀ fuel j calls, ∃ r, AsyncTunn.timers (scalar specimen) fuel j specimenHomeless calls = some r ∧
      ¬r.Rests ⟨5*second,by decide⟩ := by
  obtain ⟨hp,hw⟩ := specimenHomeless_wake
  refine ⟨⟨_,_,_,_,_,_,specimenTunn_built,Machine.Reachable.refl _ _,_,rfl⟩,fun fuel j calls => ?_⟩
  exact ⟨_,AsyncTunn.timers_stuck hp j,fun h => lt_irrefl _ (h _ hw)⟩

end WireGuard
