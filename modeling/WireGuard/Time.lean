import Mathlib.Order.Basic
import WireGuard.Consts
import WireGuard.Library.ByteString

/-!
# Caller-supplied time

`Ticks` is a monotonic instant in nanoseconds with saturating arithmetic, so
its bound is part of the type. `Tai64N` is the twelve-byte handshake timestamp;
it is compared byte by byte and its successor is a carry loop over the bytes.
-/

set_option autoImplicit false

namespace WireGuard
open ByteString

structure Ticks where
  nanos : ℕ
  nanos_le : nanos ≤ u64Max
  deriving DecidableEq, Repr

namespace Ticks

theorem nanos_injective : Function.Injective Ticks.nanos := by
  intro a b h
  cases a
  cases b
  simpa using h

instance : LinearOrder Ticks := LinearOrder.lift' Ticks.nanos nanos_injective

theorem le_iff {a b : Ticks} : a ≤ b ↔ a.nanos ≤ b.nanos := Iff.rfl

theorem lt_iff {a b : Ticks} : a < b ↔ a.nanos < b.nanos := Iff.rfl

def zero : Ticks := ⟨0,Nat.zero_le _⟩

def addNanos (t : Ticks) (n : ℕ) : Ticks := ⟨satAdd t.nanos n,Nat.min_le_right _ _⟩

def since (t earlier : Ticks) : ℕ := t.nanos-earlier.nanos

theorem zero_le (t : Ticks) : zero ≤ t := Nat.zero_le _

@[simp] theorem addNanos_nanos (t : Ticks) (n : ℕ) :
    (t.addNanos n).nanos = min (t.nanos+n) u64Max := rfl

theorem addNanos_nanos_of_le {t : Ticks} {n : ℕ} (h : t.nanos+n ≤ u64Max) :
    (t.addNanos n).nanos = t.nanos+n := Nat.min_eq_left h

theorem addNanos_addNanos (t : Ticks) (m n : ℕ) : (t.addNanos m).addNanos n = t.addNanos (m+n) := by
  apply nanos_injective
  rw [addNanos_nanos,addNanos_nanos,addNanos_nanos]
  omega

theorem addNanos_le_iff {t u : Ticks} {n : ℕ} (h : u.nanos < u64Max) :
    t.addNanos n ≤ u ↔ t.nanos+n ≤ u.nanos := by
  rw [le_iff,addNanos_nanos]
  omega

theorem addNanos_le_of_add_le {t u : Ticks} {n : ℕ} (h : t.nanos+n ≤ u.nanos) :
    t.addNanos n ≤ u := by
  rw [le_iff,addNanos_nanos]
  omega

theorem le_addNanos (t : Ticks) (n : ℕ) : t ≤ t.addNanos n := by
  have := t.nanos_le
  rw [le_iff,addNanos_nanos]
  omega

theorem lt_addNanos_of_since {t u : Ticks} {n : ℕ} (h : u.since t < n)
    (ho : u.nanos < u64Max) : u < t.addNanos n := by
  unfold since at h
  rw [lt_iff,addNanos_nanos]
  omega

theorem since_lt_of_lt_addNanos {t u : Ticks} {n : ℕ} (h : u < t.addNanos n) (hn : 0 < n) :
    u.since t < n := by
  unfold since
  rw [lt_iff,addNanos_nanos] at h
  omega

theorem addNanos_le_of_since {t u : Ticks} {n : ℕ} (h : n ≤ u.since t) (hn : 0 < n) :
    t.addNanos n ≤ u := by
  unfold since at h
  rw [le_iff,addNanos_nanos]
  omega

theorem since_mono {t u v : Ticks} (h : u ≤ v) : u.since t ≤ v.since t :=
  Nat.sub_le_sub_right h _

end Ticks

structure Tai64N where
  bytes : Bytes 12
  deriving DecidableEq

namespace Tai64N

def value (t : Tai64N) : ℕ := fromBe t.bytes.toList

instance : LT Tai64N := ⟨fun a b => a.bytes.toList < b.bytes.toList⟩

instance (a b : Tai64N) : Decidable (a < b) :=
  inferInstanceAs (Decidable (a.bytes.toList < b.bytes.toList))

instance : LE Tai64N := ⟨fun a b => ¬b < a⟩

instance (a b : Tai64N) : Decidable (a ≤ b) := inferInstanceAs (Decidable (¬b < a))

theorem lt_iff {a b : Tai64N} : a < b ↔ a.value < b.value :=
  lex_lt_iff _ _ (by simp)

theorem le_iff {a b : Tai64N} : a ≤ b ↔ a.value ≤ b.value :=
  (not_congr lt_iff).trans Nat.not_lt

theorem value_injective {a b : Tai64N} (h : a.value = b.value) : a = b := by
  cases a
  cases b
  exact congrArg Tai64N.mk (toList_inj (fromBe_inj (by simp) h))

def unixBase : ℕ := 0x400000000000000a

def nanosWhitenerMask : ℕ := 0xff000000

def fromUnix (unixSecs unixNanos : ℕ) : Tai64N :=
  ⟨ofList 12 (toBe 8 (satAdd unixBase unixSecs) ++
    toBe 4 ((unixNanos &&& nanosWhitenerMask)%1000000000)) (by simp)⟩

def allOnes : Tai64N := ⟨List.Vector.replicate 12 255⟩

def tick (t : Tai64N) : Tai64N :=
  if (bump t.bytes.toList.reverse).2 then allOnes
  else ⟨ofList 12 (bump t.bytes.toList.reverse).1.reverse (by simp [bump_length])⟩

theorem value_le (t : Tai64N) : t.value ≤ 256^12-1 := by
  have h := fromBe_lt t.bytes.toList
  rw [toList_length'] at h
  unfold value
  omega

theorem allOnes_value : allOnes.value = 256^12-1 := by decide

theorem value_lt_of_ne (t : Tai64N) (h : t ≠ allOnes) : t.value < 256^12-1 := by
  rcases Nat.lt_or_ge t.value (256^12-1) with hl | hg
  · exact hl
  · exact absurd (value_injective ((Nat.le_antisymm t.value_le hg).trans allOnes_value.symm)) h

theorem le_allOnes (t : Tai64N) : t ≤ allOnes := by
  rw [le_iff,allOnes_value]
  exact t.value_le

theorem tick_value (t : Tai64N) (h : t ≠ allOnes) : t.tick.value = t.value+1 := by
  have hv := bump_value t.bytes.toList.reverse
  have hl : (t.bytes.toList.reverse).length = 12 := by simp
  have hb : t.value < 256^12-1 := t.value_lt_of_ne h
  rw [hl] at hv
  change _ = t.value+1 at hv
  cases hc : (bump t.bytes.toList.reverse).2
  · simp only [hc,Bool.false_eq_true,if_false,Nat.add_zero] at hv
    simp only [tick,hc,Bool.false_eq_true,if_false,value,ofList_toList,fromBe,
      List.reverse_reverse]
    exact hv
  · simp only [hc,if_true] at hv
    omega

theorem lt_tick (t : Tai64N) (h : t ≠ allOnes) : t < t.tick := by
  rw [lt_iff,tick_value t h]
  omega

theorem tick_allOnes : allOnes.tick = allOnes := by decide

end Tai64N

/-- A complete caller-supplied reading: the monotonic instant drives every
timer, the wall clock only the handshake timestamp. -/
structure Now where
  ticks : Ticks
  unixSecs : ℕ
  unixNanos : ℕ
  deriving DecidableEq, Repr

def Now.tai64n (now : Now) : Tai64N := Tai64N.fromUnix now.unixSecs now.unixNanos

end WireGuard
