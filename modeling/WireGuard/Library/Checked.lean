import Mathlib.Data.Nat.Bitwise
import Mathlib.Tactic.Ring

/-!
# Fixed-width arithmetic with a record of what was kept

An operation on words of `w` bits returns the wrapped result together with
whether it lost anything: a sum or product that does not fit, a difference
below zero and a narrowing that cuts a set bit all clear the mark. A
computation is marked exactly when each of its operations is. `Yields` is the
total-correctness triple: the mark stands and the value meets the condition.
-/

set_option autoImplicit false

universe u v

structure Checked (α : Type u) where
  value : α
  kept : Bool
  deriving DecidableEq, Repr

namespace Checked

variable {α : Type u} {β : Type v}

instance : Monad Checked where
  pure a := ⟨a,true⟩
  bind x f := ⟨(f x.value).value,x.kept && (f x.value).kept⟩

/-- The computation lost nothing and its value satisfies `Q`. -/
def Yields (x : Checked α) (Q : α → Prop) : Prop := x.kept = true ∧ Q x.value

theorem Yields.pure {a : α} {Q : α → Prop} (h : Q a) : (Pure.pure a : Checked α).Yields Q :=
  ⟨rfl,h⟩

theorem Yields.bind {γ δ : Type u} {x : Checked γ} {f : γ → Checked δ} {Q : γ → Prop}
    {R : δ → Prop} (hx : x.Yields Q) (hf : ∀ a, Q a → (f a).Yields R) : (x >>= f).Yields R := by
  obtain ⟨hk,hq⟩ := hf x.value hx.2
  exact ⟨Bool.and_eq_true_iff.mpr ⟨hx.1,hk⟩,hq⟩

theorem Yields.mono {x : Checked α} {Q R : α → Prop} (hx : x.Yields Q)
    (h : ∀ a, Q a → R a) : x.Yields R := ⟨hx.1,h _ hx.2⟩

theorem Yields.eq {x : Checked α} {a : α} (h : x.Yields (· = a)) : x = ⟨a,true⟩ := by
  cases x
  exact congrArg₂ Checked.mk h.2 h.1

theorem Yields.foldlM {σ τ : Type} {f : σ → τ → Checked σ} (I : List τ → σ → Prop)
    (l done : List τ) (hf : ∀ done s, ∀ x ∈ l, I done s → (f s x).Yields (I (done++[x])))
    {s : σ} (hs : I done s) : (l.foldlM f s).Yields (I (done++l)) := by
  induction l generalizing done s with
  | nil => exact .pure (by simpa using hs)
  | cons x l ih =>
    rw [List.foldlM_cons]
    refine (hf done s x List.mem_cons_self hs).bind fun t ht => ?_
    have := ih (done++[x]) (fun d s y hy => hf d s y (List.mem_cons_of_mem x hy)) ht
    simpa using this

def add (w a b : ℕ) : Checked ℕ := ⟨(a+b)%2^w,decide (a+b < 2^w)⟩

def mul (w a b : ℕ) : Checked ℕ := ⟨(a*b)%2^w,decide (a*b < 2^w)⟩

/-- The difference modulo `2^w`, for the places that mean to wrap. -/
def wrapSub (w a b : ℕ) : ℕ := (a+2^w-b)%2^w

def sub (w a b : ℕ) : Checked ℕ := ⟨wrapSub w a b,decide (b ≤ a)⟩

def narrow (w a : ℕ) : Checked ℕ := ⟨a%2^w,decide (a < 2^w)⟩

/-- The narrowing that means to cut: the low `w` bits, and the mark stands. -/
def window (w a : ℕ) : Checked ℕ := ⟨a%2^w,true⟩

variable {w a b : ℕ}

theorem yields_add (h : a+b < 2^w) : (add w a b).Yields (· = a+b) :=
  ⟨decide_eq_true h,Nat.mod_eq_of_lt h⟩

theorem yields_mul (h : a*b < 2^w) : (mul w a b).Yields (· = a*b) :=
  ⟨decide_eq_true h,Nat.mod_eq_of_lt h⟩

theorem wrapSub_of_le (ha : a < 2^w) (h : b ≤ a) : wrapSub w a b = a-b := by
  rw [wrapSub,show a+2^w-b = a-b+2^w by omega,Nat.add_mod_right]
  exact Nat.mod_eq_of_lt (by omega)

theorem wrapSub_of_lt (hb : b ≤ 2^w) (h : a < b) : wrapSub w a b = 2^w-(b-a) := by
  rw [wrapSub,Nat.mod_eq_of_lt (by omega)]
  omega

theorem yields_sub (ha : a < 2^w) (h : b ≤ a) : (sub w a b).Yields (· = a-b) :=
  ⟨decide_eq_true h,wrapSub_of_le ha h⟩

theorem yields_window (a : ℕ) : (window w a).Yields (· = a%2^w) := ⟨rfl,rfl⟩

theorem yields_narrow (h : a < 2^w) : (narrow w a).Yields (· = a) :=
  ⟨decide_eq_true h,Nat.mod_eq_of_lt h⟩

/-! ## Windows

A shift to the left drops what leaves the word. Packing joins disjoint windows
with an or, which is then a sum. -/

def shl (w a i : ℕ) : ℕ := (a<<<i)%2^w

theorem or_shl {i : ℕ} (ha : a < 2^i) (hi : i ≤ w) : a ||| shl w b i = a+2^i*(b%2^(w-i)) := by
  have hs : shl w b i = (b%2^(w-i))<<<i := by
    obtain ⟨d,rfl⟩ := Nat.exists_eq_add_of_le hi
    rw [shl,Nat.shiftLeft_eq,Nat.shiftLeft_eq,Nat.add_sub_cancel_left,Nat.pow_add,
      Nat.mul_comm (2^i),Nat.mul_mod_mul_right]
  rw [hs,Nat.or_comm,← Nat.shiftLeft_add_eq_or_of_lt ha,Nat.shiftLeft_eq,Nat.mul_comm,
    Nat.add_comm]

theorem and_join {i a b c d : ℕ} (ha : a < 2^i) (hc : c < 2^i) :
    (a+2^i*b) &&& (c+2^i*d) = (a &&& c)+2^i*(b &&& d) := by
  have hac : a &&& c < 2^i := Nat.and_lt_two_pow a hc
  refine Nat.eq_of_testBit_eq fun j => ?_
  rw [Nat.add_comm a,Nat.add_comm c,Nat.add_comm (a &&& c),Nat.testBit_and,
    Nat.testBit_two_pow_mul_add _ ha,Nat.testBit_two_pow_mul_add _ hc,
    Nat.testBit_two_pow_mul_add _ hac]
  split <;> simp

end Checked
