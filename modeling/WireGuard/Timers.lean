import WireGuard.Time

/-!
# Timers

When things last happened, what is due at an instant, and the instant at which
it becomes due. The two readings of each rule agree except where saturating
addition meets the end of time.
-/

set_option autoImplicit false

namespace WireGuard

structure Timers where
  lastDataTx : Option Ticks
  lastDataRx : Option Ticks
  lastAnyTx : Option Ticks
  lastAnyRx : Option Ticks
  attemptStarted : Option Ticks
  retransmitAt : Option Ticks
  lastInitiationTx : Option Ticks
  rekeyDue : Bool
  confirmKeepaliveDue : Bool
  gaveUp : Bool
  deriving DecidableEq, Repr

namespace Timers

def default : Timers := ⟨none,none,none,none,none,none,none,false,false,false⟩

def noteDataTx (tm : Timers) (now : Ticks) : Timers :=
  {tm with
    lastDataTx := some now
    lastAnyTx := some now
    confirmKeepaliveDue := false
    gaveUp := false}

def noteKeepaliveTx (tm : Timers) (now : Ticks) : Timers :=
  {tm with lastAnyTx := some now, confirmKeepaliveDue := false}

def noteRx (tm : Timers) (now : Ticks) (isKeepalive : Bool) : Timers :=
  {tm with
    lastAnyRx := some now
    lastDataRx := if isKeepalive then tm.lastDataRx else some now
    gaveUp := false}

def noteInitiationTx (tm : Timers) (now : Ticks) (jitter : ℕ) : Timers :=
  {tm with
    attemptStarted := some (tm.attemptStarted.getD now)
    lastInitiationTx := some now
    retransmitAt := some ((now.addNanos rekeyTimeout).addNanos (min jitter rekeyTimeoutJitterMax))
    rekeyDue := false}

def noteHandshakeComplete (tm : Timers) : Timers :=
  {tm with attemptStarted := none, retransmitAt := none, rekeyDue := false, gaveUp := false}

def noteGaveUp (tm : Timers) : Timers :=
  {tm with attemptStarted := none, retransmitAt := none, rekeyDue := false, gaveUp := true}

def attemptExhausted (tm : Timers) (now : Ticks) : Bool :=
  match tm.attemptStarted with
  | none => false
  | some t0 => rekeyAttemptTime ≤ now.since t0

def initiationAllowed (tm : Timers) (now : Ticks) : Bool :=
  match tm.lastInitiationTx with
  | none => true
  | some t => rekeyTimeout ≤ now.since t

def unansweredRx (tm : Timers) (rx : Ticks) : Bool :=
  match tm.lastAnyTx with
  | none => true
  | some tx => tx < rx

def unansweredTx (tm : Timers) (tx : Ticks) : Bool :=
  match tm.lastAnyRx with
  | none => true
  | some rx => rx < tx

def passiveKeepaliveDue (tm : Timers) (now : Ticks) : Bool :=
  match tm.lastDataRx with
  | none => false
  | some rx => tm.unansweredRx rx && keepaliveTimeout ≤ now.since rx

def passiveKeepaliveAt (tm : Timers) : Option Ticks :=
  match tm.lastDataRx with
  | none => none
  | some rx => if tm.unansweredRx rx then some (rx.addNanos keepaliveTimeout) else none

def deadPeerDue (tm : Timers) (now : Ticks) : Bool :=
  if tm.gaveUp then false
  else
    match tm.lastDataTx with
    | none => false
    | some tx => tm.unansweredTx tx && deadPeerTimeout ≤ now.since tx

def persistentReviveAllowed (tm : Timers) (now : Ticks) (intervalNs : ℕ) : Bool :=
  if !tm.gaveUp then true
  else
    match tm.lastInitiationTx with
    | none => true
    | some t => intervalNs ≤ now.since t

def deadPeerAt (tm : Timers) : Option Ticks :=
  if tm.gaveUp then none
  else
    match tm.lastDataTx with
    | none => none
    | some tx => if tm.unansweredTx tx then some (tx.addNanos deadPeerTimeout) else none

def pacingAt (tm : Timers) : Ticks :=
  match tm.lastInitiationTx with
  | none => Ticks.zero
  | some last => last.addNanos rekeyTimeout

theorem pacingAt_le {tm : Timers} {now : Ticks} (h : tm.initiationAllowed now = true) :
    tm.pacingAt ≤ now := by
  unfold initiationAllowed at h
  unfold pacingAt
  split at h
  · exact Ticks.zero_le now
  · rename_i last _
    exact Ticks.addNanos_le_of_since (by simpa using h) (by decide)

theorem lt_pacingAt {tm : Timers} {now : Ticks} (h : tm.initiationAllowed now = false)
    (hn : now.nanos < u64Max) : now < tm.pacingAt := by
  unfold initiationAllowed at h
  unfold pacingAt
  split at h
  · cases h
  · rename_i last _
    exact Ticks.lt_addNanos_of_since (by simpa using h) hn

theorem passiveKeepaliveAt_le {tm : Timers} {now : Ticks}
    (h : tm.passiveKeepaliveDue now = true) :
    ∃ w, tm.passiveKeepaliveAt = some w ∧ w ≤ now := by
  unfold passiveKeepaliveDue at h
  unfold passiveKeepaliveAt
  split at h
  · cases h
  · rename_i rx _
    simp only [Bool.and_eq_true,decide_eq_true_eq] at h
    exact ⟨_,if_pos h.1,Ticks.addNanos_le_of_since h.2 (by decide)⟩

theorem lt_passiveKeepaliveAt {tm : Timers} {now w : Ticks}
    (h : tm.passiveKeepaliveDue now = false) (hn : now.nanos < u64Max)
    (hw : tm.passiveKeepaliveAt = some w) : now < w := by
  unfold passiveKeepaliveDue at h
  unfold passiveKeepaliveAt at hw
  split at hw
  · cases hw
  · rename_i rx hrx
    rw [hrx] at h
    split at hw
    · rename_i hu
      obtain rfl := Option.some.inj hw
      simp only [hu,Bool.true_and,decide_eq_false_iff_not,Nat.not_le] at h
      exact Ticks.lt_addNanos_of_since h hn
    · cases hw

theorem deadPeerAt_le {tm : Timers} {now : Ticks} (h : tm.deadPeerDue now = true) :
    ∃ w, tm.deadPeerAt = some w ∧ w ≤ now := by
  unfold deadPeerDue at h
  unfold deadPeerAt
  split at h
  · cases h
  · rename_i hg
    rw [if_neg hg]
    split at h
    · cases h
    · rename_i tx _
      simp only [Bool.and_eq_true,decide_eq_true_eq] at h
      exact ⟨_,if_pos h.1,Ticks.addNanos_le_of_since h.2 (by decide)⟩

theorem lt_deadPeerAt {tm : Timers} {now w : Ticks} (h : tm.deadPeerDue now = false)
    (hn : now.nanos < u64Max) (hw : tm.deadPeerAt = some w) : now < w := by
  unfold deadPeerDue at h
  unfold deadPeerAt at hw
  split at hw
  · cases hw
  · rename_i hg
    rw [if_neg hg] at h
    split at hw
    · cases hw
    · rename_i tx htx
      rw [htx] at h
      split at hw
      · rename_i hu
        obtain rfl := Option.some.inj hw
        simp only [hu,Bool.true_and,decide_eq_false_iff_not,Nat.not_le] at h
        exact Ticks.lt_addNanos_of_since h hn
      · cases hw

end Timers

end WireGuard
