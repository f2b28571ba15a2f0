import Mathlib.Algebra.Order.Floor.Div
import WireGuard.Tunnel

/-!
# Padded lengths

A payload is padded to the next multiple of 16, cut at the MTU but never below
the payload. The rounding saturates at the top of the machine word, where no
multiple of 16 is left; slices end far below it, so every payload that can be
handed in has a padded length at least its own.
-/

set_option autoImplicit false

namespace WireGuard
open Tunnel

/-- The least multiple of 16 that is not below `n`, without regard to the word. -/
def roundUp (n : ℕ) : ℕ := n ⌈/⌉ paddingMultiple*paddingMultiple

theorem roundUp_eq (n : ℕ) : roundUp n = (n+15)/16*16 := by
  rw [roundUp,Nat.ceilDiv_eq_add_pred_div]
  rfl

/-- The payload length is near the top of the word: no multiple of 16 above it fits. -/
def Unrounded (payloadLen : ℕ) : Prop := u64Max < roundUp payloadLen

theorem unrounded_iff (payloadLen : ℕ) : Unrounded payloadLen ↔ u64Max-15 < payloadLen := by
  have hu : u64Max = 18446744073709551615 := rfl
  rw [Unrounded,roundUp_eq]
  omega

theorem paddedLen_none {payloadLen : ℕ} (h : ¬Unrounded payloadLen) :
    paddedLen payloadLen none = roundUp payloadLen := by
  rw [unrounded_iff] at h
  have hp : paddingMultiple = 16 := rfl
  have hu : u64Max = 18446744073709551615 := rfl
  rw [roundUp_eq,paddedLen,hp,if_pos (by omega)]

theorem paddedLen_unrounded {payloadLen : ℕ} (h : Unrounded payloadLen) :
    paddedLen payloadLen none = u64Max-15 := by
  rw [unrounded_iff] at h
  have hp : paddingMultiple = 16 := rfl
  have hu : u64Max = 18446744073709551615 := rfl
  rw [paddedLen,hp,if_neg (by omega),hu]

theorem paddedLen_some (payloadLen : ℕ) (m : NonZeroU16) :
    paddedLen payloadLen (some m) = max (min (paddedLen payloadLen none) m.get)
      (if m.get < paddedLen payloadLen none then payloadLen else 0) := by
  simp only [paddedLen]
  split_ifs <;> omega

theorem paddedLen_mtu {payloadLen : ℕ} {m : NonZeroU16} (h : payloadLen ≤ m.get) :
    paddedLen payloadLen (some m) = min (roundUp payloadLen) m.get := by
  have hm := m.le
  have hn : ¬Unrounded payloadLen := by
    have hu : u64Max = 18446744073709551615 := rfl
    rw [unrounded_iff]
    omega
  rw [paddedLen_some,paddedLen_none hn]
  split_ifs <;> omega

theorem le_paddedLen_iff (payloadLen : ℕ) (mtu : Option NonZeroU16) :
    payloadLen ≤ paddedLen payloadLen mtu ↔ ¬(mtu = none ∧ Unrounded payloadLen) := by
  have hu : u64Max = 18446744073709551615 := rfl
  by_cases hn : Unrounded payloadLen
  · have hl := (unrounded_iff payloadLen).mp hn
    cases mtu with
    | none =>
      rw [paddedLen_unrounded hn]
      exact ⟨fun h => by omega,fun h => absurd ⟨rfl,hn⟩ h⟩
    | some m =>
      have hm := m.le
      rw [paddedLen_some,paddedLen_unrounded hn,if_pos (by omega)]
      exact ⟨fun _ h => absurd h.1 (by simp),fun _ => le_max_right _ _⟩
  · have hr := roundUp_eq payloadLen
    refine ⟨fun _ h => hn h.2,fun _ => ?_⟩
    cases mtu with
    | none =>
      rw [paddedLen_none hn]
      omega
    | some m =>
      rw [paddedLen_some,paddedLen_none hn]
      split_ifs <;> omega

/-- For every length of the word and every MTU: the padded length reaches the
payload's unless no MTU is set and the length is one of the last 15; it exceeds it by
at most 15; and it is the rounded length, cut at the MTU, wherever that is defined. -/
theorem paddedLen_exact (payloadLen : ℕ) (mtu : Option NonZeroU16) :
    (payloadLen ≤ paddedLen payloadLen mtu ↔ ¬(mtu = none ∧ u64Max-15 < payloadLen)) ∧
    paddedLen payloadLen mtu ≤ payloadLen+15 ∧
    (∀ m, mtu = some m → payloadLen ≤ m.get →
      paddedLen payloadLen mtu = min (roundUp payloadLen) m.get) ∧
    (mtu = none → roundUp payloadLen ≤ u64Max →
      paddedLen payloadLen mtu = roundUp payloadLen) ∧
    (payloadLen+32 ≤ u64Max → payloadLen+32 ≤ transportDatagramLen payloadLen) := by
  refine ⟨?_,paddedLen_le payloadLen mtu,?_,?_,fun hs => ?_⟩
  · rw [le_paddedLen_iff payloadLen,unrounded_iff]
  · rintro m rfl hm
    exact paddedLen_mtu hm
  · rintro rfl hr
    exact paddedLen_none (not_lt.mpr hr)
  · have hu : u64Max = 18446744073709551615 := rfl
    have hn : ¬Unrounded payloadLen := by
      rw [unrounded_iff]
      omega
    have hp := (le_paddedLen_iff payloadLen none).mpr fun hn' => hn hn'.2
    have ho : transportOverhead = 32 := rfl
    rw [transportDatagramLen,satAdd,ho]
    omega

theorem paddedLen_exact_seventeen :
    17 ≤ paddedLen 17 none ∧ 49 ≤ transportDatagramLen 17 :=
  ⟨(paddedLen_exact 17 none).1.mpr (by decide),
    (paddedLen_exact 17 none).2.2.2.2 (by decide)⟩

/-- The padded length of the largest word without an MTU falls short of it. -/
theorem paddedLen_truncates_max :
    paddedLen u64Max none = u64Max-15 ∧ ¬u64Max ≤ paddedLen u64Max none := by
  decide +kernel

end WireGuard
