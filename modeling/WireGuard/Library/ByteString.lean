import Mathlib.Data.Vector.Basic
import Mathlib.Order.Basic
import Mathlib.Tactic.Ring
import Mathlib.Tactic.Linarith

/-!
# Byte strings, positional encodings and their order

Fixed arrays are length-indexed lists of bytes. A number is written least
significant byte first by `toLe`, most significant first by `toBe`. On byte
strings of one length the lexicographic order is the order of the big-endian
value, and the carry loop `bump` is the successor on that value.
-/

set_option autoImplicit false

namespace ByteString

abbrev Bytes (n : ℕ) := List.Vector UInt8 n

def zeros (n : ℕ) : Bytes n := List.Vector.replicate n 0

@[simp] theorem toList_length' {n : ℕ} (b : Bytes n) : b.toList.length = n :=
  b.toList_length

theorem toList_inj {n : ℕ} {a b : Bytes n} (h : a.toList = b.toList) : a = b :=
  Subtype.ext h

def ofList (n : ℕ) (l : List UInt8) (h : l.length = n) : Bytes n := ⟨l,h⟩

@[simp] theorem ofList_toList {n : ℕ} (l : List UInt8) (h : l.length = n) :
    (ofList n l h).toList = l := rfl

def ascii (s : String) : List UInt8 := s.toList.map (fun c => UInt8.ofNat c.toNat)

def fromLe : List UInt8 → ℕ
  | [] => 0
  | b::bs => b.toNat+256*fromLe bs

def toLe : ℕ → ℕ → List UInt8
  | 0, _ => []
  | n+1, v => UInt8.ofNat v :: toLe n (v/256)

@[simp] theorem toLe_length (n v : ℕ) : (toLe n v).length = n := by
  induction n generalizing v with
  | zero => rfl
  | succ n ih => simp [toLe,ih]

theorem fromLe_lt (bs : List UInt8) : fromLe bs < 256^bs.length := by
  induction bs with
  | nil => simp [fromLe]
  | cons b bs ih =>
    have hb := b.toNat_lt
    simp only [fromLe,List.length_cons,pow_succ]
    omega

theorem fromLe_toLe (n v : ℕ) : fromLe (toLe n v) = v%256^n := by
  induction n generalizing v with
  | zero => simp [toLe,fromLe,Nat.mod_one]
  | succ n ih =>
    have hd : v%256^(n+1) = v%256+256*(v/256%256^n) := by
      rw [pow_succ',Nat.mod_mul]
    simp only [toLe,fromLe,ih,hd,UInt8.toNat_ofNat']

theorem toLe_fromLe (bs : List UInt8) : toLe bs.length (fromLe bs) = bs := by
  induction bs with
  | nil => rfl
  | cons b bs ih =>
    have hb := b.toNat_lt
    have hd : (b.toNat+256*fromLe bs)/256 = fromLe bs := by omega
    have hm : UInt8.ofNat (b.toNat+256*fromLe bs) = b := by
      apply UInt8.toNat.inj
      simp only [UInt8.toNat_ofNat']
      omega
    simp only [List.length_cons,toLe,fromLe,hd,hm,ih]

theorem fromLe_inj {as bs : List UInt8} (hl : as.length = bs.length)
    (h : fromLe as = fromLe bs) : as = bs := by
  rw [← toLe_fromLe as,← toLe_fromLe bs,hl,h]

def leBytes (n v : ℕ) : Bytes n := ⟨toLe n v,toLe_length n v⟩

@[simp] theorem leBytes_toList (n v : ℕ) : (leBytes n v).toList = toLe n v := rfl

theorem leBytes_inj {n v w : ℕ} (hv : v < 256^n) (hw : w < 256^n)
    (h : toLe n v = toLe n w) : v = w := by
  have hf := congrArg fromLe h
  rwa [fromLe_toLe,fromLe_toLe,Nat.mod_eq_of_lt hv,Nat.mod_eq_of_lt hw] at hf

def fromBe (bs : List UInt8) : ℕ := fromLe bs.reverse

def toBe (n v : ℕ) : List UInt8 := (toLe n v).reverse

@[simp] theorem toBe_length (n v : ℕ) : (toBe n v).length = n := by simp [toBe]

theorem fromLe_append (as bs : List UInt8) :
    fromLe (as++bs) = fromLe as+256^as.length*fromLe bs := by
  induction as with
  | nil => simp [fromLe]
  | cons a as ih =>
    simp only [List.cons_append,fromLe,ih,List.length_cons,pow_succ]
    ring

theorem fromBe_cons (a : UInt8) (as : List UInt8) :
    fromBe (a::as) = a.toNat*256^as.length+fromBe as := by
  simp only [fromBe,List.reverse_cons,fromLe_append,List.length_reverse,fromLe]
  ring

theorem fromBe_lt (bs : List UInt8) : fromBe bs < 256^bs.length := by
  simpa [fromBe] using fromLe_lt bs.reverse

theorem fromBe_inj {as bs : List UInt8} (hl : as.length = bs.length)
    (h : fromBe as = fromBe bs) : as = bs :=
  List.reverse_injective (fromLe_inj (by simpa using hl) h)

theorem lex_lt_iff (as bs : List UInt8) (h : as.length = bs.length) :
    as < bs ↔ fromBe as < fromBe bs := by
  induction as generalizing bs with
  | nil =>
    have hb : bs = [] := List.length_eq_zero_iff.mp h.symm
    simp [hb,fromBe,fromLe]
  | cons a as ih =>
    cases bs with
    | nil => simp at h
    | cons b bs =>
      have hl : as.length = bs.length := by simpa using h
      have ha := fromBe_lt as
      have hb := fromBe_lt bs
      rw [List.cons_lt_cons_iff,ih bs hl,fromBe_cons,fromBe_cons,hl]
      rw [hl] at ha
      constructor
      · rintro (hab | ⟨rfl,hlt⟩)
        · have hab' : a.toNat+1 ≤ b.toNat := UInt8.lt_iff_toNat_lt.mp hab
          have hm := Nat.mul_le_mul_right (256^bs.length) hab'
          rw [Nat.add_mul] at hm
          omega
        · omega
      · intro hlt
        rcases Nat.lt_trichotomy a.toNat b.toNat with hab | hab | hab
        · exact Or.inl (UInt8.lt_iff_toNat_lt.mpr hab)
        · have he : a = b := UInt8.toNat.inj hab
          subst he
          exact Or.inr ⟨rfl,by omega⟩
        · have hm := Nat.mul_le_mul_right (256^bs.length) (Nat.succ_le_of_lt hab)
          rw [Nat.succ_mul] at hm
          omega

/-- Increment of a little-endian byte string; the flag reports a carry out of
the last byte. -/
def bump : List UInt8 → List UInt8 × Bool
  | [] => ([],true)
  | b::bs => if b = 255 then (0::(bump bs).1,(bump bs).2) else ((b+1)::bs,false)

theorem bump_length (bs : List UInt8) : (bump bs).1.length = bs.length := by
  induction bs with
  | nil => rfl
  | cons b bs ih => by_cases h : b = 255 <;> simp [bump,h,ih]

theorem bump_value (bs : List UInt8) :
    fromLe (bump bs).1+(if (bump bs).2 then 256^bs.length else 0) = fromLe bs+1 := by
  induction bs with
  | nil => simp [bump,fromLe]
  | cons b bs ih =>
    by_cases h : b = 255
    · subst h
      cases hc : (bump bs).2
      · simp only [hc,Bool.false_eq_true,if_false] at ih
        simp [bump,fromLe,hc]
        omega
      · simp only [hc,if_true] at ih
        simp only [bump,if_true,fromLe,hc,List.length_cons,pow_succ]
        simp
        omega
    · have hb : b.toNat < 255 := by
        have hlt := b.toNat_lt
        have hne : b.toNat ≠ 255 := fun he => h (UInt8.toNat.inj he)
        omega
      have hn : (b+1).toNat = b.toNat+1 := by
        rw [UInt8.toNat_add]
        simp
        omega
      simp only [bump,if_neg h,fromLe,hn,Bool.false_eq_true,if_false]
      omega

end ByteString
