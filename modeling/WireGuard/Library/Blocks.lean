import WireGuard.Library.ByteString

/-!
# Blocks of a byte string

Copying over a fixed buffer, cutting a string into blocks of one length and
writing four words out in little-endian order.
-/

set_option autoImplicit false

namespace ByteString

/-- What stands at `off` and after is overwritten as far as both sides reach. -/
def copyAt (dst : List UInt8) (off : ℕ) (src : List UInt8) : List UInt8 :=
  dst.take off++(src.take (dst.length-off)++dst.drop (off+src.length))

@[simp] theorem copyAt_length (dst : List UInt8) (off : ℕ) (src : List UInt8) :
    (copyAt dst off src).length = dst.length := by
  simp only [copyAt,List.length_append,List.length_take,List.length_drop]
  omega

theorem copyAt_take (dst : List UInt8) (off : ℕ) (src : List UInt8)
    (h : off+src.length ≤ dst.length) :
    (copyAt dst off src).take (off+src.length) = dst.take off++src := by
  have hd : (dst.take off).length = off := by simp; omega
  rw [copyAt,← List.append_assoc,List.take_of_length_le (l := src) (by omega),
    List.take_append_of_le_length (by simp [hd]),List.take_of_length_le (by simp [hd])]

theorem copyAt_full {dst src : List UInt8} (h : dst.length ≤ src.length) :
    copyAt dst 0 src = src.take dst.length := by
  rw [copyAt,List.take_zero,List.nil_append,Nat.sub_zero,Nat.zero_add,
    List.drop_eq_nil_of_le h,List.append_nil]

def overwrite {n : ℕ} (dst : Bytes n) (off : ℕ) (src : List UInt8) : Bytes n :=
  ⟨copyAt dst.toList off src,(copyAt_length _ _ _).trans dst.toList_length⟩

@[simp] theorem overwrite_toList {n : ℕ} (dst : Bytes n) (off : ℕ) (src : List UInt8) :
    (overwrite dst off src).toList = copyAt dst.toList off src := rfl

theorem fromLe_take_add {bytes : List UInt8} {n : ℕ} (m : ℕ) (h : n ≤ bytes.length) :
    fromLe (bytes.take (n+m)) = fromLe (bytes.take n)+256^n*fromLe ((bytes.drop n).take m) := by
  rw [List.take_add,fromLe_append,List.length_take,Nat.min_eq_left h]

def chunks (n : ℕ) : ℕ → List UInt8 → List (List UInt8)
  | 0, _ => []
  | k+1, l => l.take n::chunks n k (l.drop n)

theorem chunks_length {n k : ℕ} {l : List UInt8} (h : n*k ≤ l.length) :
    ∀ c ∈ chunks n k l, c.length = n := by
  induction k generalizing l with
  | zero => simp [chunks]
  | succ k ih =>
    rw [Nat.mul_succ] at h
    intro c hc
    rcases List.mem_cons.mp hc with rfl | hc
    · simp; omega
    · exact ih (by simp; omega) c hc

theorem chunks_append {n k j : ℕ} {a : List UInt8} (b : List UInt8) (h : a.length = n*k) :
    chunks n (k+j) (a++b) = chunks n k a++chunks n j b := by
  induction k generalizing a with
  | zero =>
    have ha : a = [] := List.length_eq_zero_iff.mp (by simpa using h)
    simp [ha,chunks]
  | succ k ih =>
    rw [Nat.mul_succ] at h
    have hn : n ≤ a.length := by omega
    rw [Nat.succ_add,chunks,chunks,List.take_append_of_le_length hn,
      List.drop_append_of_le_length hn,ih (by simp; omega),List.cons_append]

structure Words where
  w0 : ℕ
  w1 : ℕ
  w2 : ℕ
  w3 : ℕ
  deriving DecidableEq, Repr

namespace Words

def number (b : ℕ) (w : Words) : ℕ := w.w0+2^b*(w.w1+2^b*(w.w2+2^b*w.w3))

structure Below (b : ℕ) (w : Words) : Prop where
  w0 : w.w0 < 2^b
  w1 : w.w1 < 2^b
  w2 : w.w2 < 2^b
  w3 : w.w3 < 2^b

def bytes (n : ℕ) (w : Words) : List UInt8 := toLe n w.w0++(toLe n w.w1++(toLe n w.w2++toLe n w.w3))

@[simp] theorem bytes_length (n : ℕ) (w : Words) : (bytes n w).length = 4*n := by
  simp only [bytes,List.length_append,toLe_length]
  omega

theorem bytes_eq {n : ℕ} {w : Words} (h : w.Below (8*n)) :
    bytes n w = toLe (4*n) (number (8*n) w) := by
  have e : (256:ℕ)^n = 2^(8*n) := by rw [Nat.pow_mul]
  have hv : fromLe (bytes n w) = number (8*n) w := by
    simp only [bytes,fromLe_append,fromLe_toLe,toLe_length,e,Nat.mod_eq_of_lt h.w0,
      Nat.mod_eq_of_lt h.w1,Nat.mod_eq_of_lt h.w2,Nat.mod_eq_of_lt h.w3,number]
  rw [← hv,← bytes_length n w,toLe_fromLe]

end Words
end ByteString
