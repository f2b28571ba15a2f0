import WireGuard.Noise
import WireGuard.Replay

/-!
# Sessions

One keypair with its counters. `tag` is a ghost field: the number of sessions
created before this one, so that a session keeps its name whichever slot it
moves to. No decision of the source reads it.
-/

set_option autoImplicit false

namespace WireGuard

structure Session where
  keys : SessionKeys
  sendCounter : ℕ
  replay : ReplayWindow
  created : Ticks
  confirmed : Bool
  tag : ℕ
  deriving DecidableEq

namespace Session

def new (keys : SessionKeys) (created : Ticks) (tag : ℕ) : Session :=
  ⟨keys,0,ReplayWindow.new,created,keys.isInitiator,tag⟩

def age (s : Session) (now : Ticks) : ℕ := now.since s.created

def usableForSend (s : Session) (now : Ticks) : Bool :=
  s.confirmed && s.sendCounter < rejectAfterMessages && s.age now < rejectAfterTime

def nextCounter (s : Session) : Except Error (ℕ × Session) :=
  if rejectAfterMessages ≤ s.sendCounter then .error .expired
  else if u64Max < s.sendCounter+1 then .error .internal
  else .ok (s.sendCounter,{s with sendCounter := s.sendCounter+1})

theorem usableForSend_iff {s : Session} {now : Ticks} :
    s.usableForSend now = true ↔
      s.confirmed = true ∧ s.sendCounter < rejectAfterMessages ∧ s.age now < rejectAfterTime := by
  simp [usableForSend,and_assoc]

theorem usableForSend_mono {s : Session} {t u : Ticks} (h : t ≤ u)
    (hu : s.usableForSend u = true) : s.usableForSend t = true := by
  rw [usableForSend_iff] at hu ⊢
  exact ⟨hu.1,hu.2.1,Nat.lt_of_le_of_lt (Ticks.since_mono h) hu.2.2⟩

theorem nextCounter_usable {s : Session} (h : s.sendCounter < rejectAfterMessages) :
    s.nextCounter = .ok (s.sendCounter,{s with sendCounter := s.sendCounter+1}) := by
  have hr : rejectAfterMessages < u64Max := by decide
  unfold nextCounter
  rw [if_neg (by omega),if_neg (by omega)]

end Session

end WireGuard
