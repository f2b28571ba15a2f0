import WireGuard.Library.ByteString
import Mathlib.Logic.Function.Iterate
import Mathlib.Tactic.IntervalCases

/-!
# Words, lanes and registers

A vector holds one word of each of several independent computations. An
operation that acts on every lane alike commutes with reading a lane, and so does
every program of such operations on a file of registers. Reading a vector as
bytes, least significant first, gives shuffles and stores their meaning.
-/

set_option autoImplicit false

namespace Lanes
open ByteString

def rotateLeft (n x : UInt32) : UInt32 := (x <<< n) ||| (x >>> (32-n))

theorem sub_toNat {n : UInt32} (h : n.toNat < 32) : (32-n).toNat = 32-n.toNat := by
  rw [UInt32.toNat_sub_of_le _ _ (UInt32.le_iff_toNat_le.mpr h.le)]
  rfl

theorem shiftRight_toNat (n x : UInt32) (h0 : 0 < n.toNat) (h : n.toNat < 32) :
    (x >>> (32-n)).toNat = x.toNat/2^(32-n.toNat) ∧ x.toNat/2^(32-n.toNat) < 2^n.toNat := by
  constructor
  · rw [UInt32.toNat_shiftRight,sub_toNat h,Nat.mod_eq_of_lt (show 32-n.toNat < 32 by omega),
      Nat.shiftRight_eq_div_pow]
  · rw [Nat.div_lt_iff_lt_mul (by positivity),← pow_add,Nat.add_sub_of_le h.le]
    exact x.toNat_lt

theorem rotateLeft_toNat (n x : UInt32) (h0 : 0 < n.toNat) (h : n.toNat < 32) :
    (rotateLeft n x).toNat = x.toNat*2^n.toNat%2^32+x.toNat/2^(32-n.toNat) := by
  obtain ⟨hr,hd⟩ := shiftRight_toNat n x h0 h
  have hp : 2^32 = 2^n.toNat*2^(32-n.toNat) := by rw [← pow_add,Nat.add_sub_of_le h.le]
  have hm : x.toNat*2^n.toNat%2^32 = 2^n.toNat*(x.toNat%2^(32-n.toNat)) := by
    rw [hp,Nat.mul_comm,Nat.mul_mod_mul_left]
  unfold rotateLeft
  rw [UInt32.toNat_or,UInt32.toNat_shiftLeft,hr,Nat.mod_eq_of_lt h,Nat.shiftLeft_eq,hm,
    Nat.two_pow_add_eq_or_of_lt hd]

theorem shiftRight_mask (n x : UInt32) (h0 : 0 < n.toNat) (h : n.toNat < 32) :
    (x >>> (32-n)) &&& ((1 <<< n)-1) = x >>> (32-n) := by
  obtain ⟨hr,hd⟩ := shiftRight_toNat n x h0 h
  have hone : ((1 : UInt32) <<< n).toNat = 2^n.toNat := by
    rw [UInt32.toNat_shiftLeft,Nat.mod_eq_of_lt h,Nat.shiftLeft_eq,UInt32.toNat_one,Nat.one_mul]
    exact Nat.mod_eq_of_lt (Nat.pow_lt_pow_right (by decide) h)
  have hmask : (((1 : UInt32) <<< n)-1).toNat = 2^n.toNat-1 := by
    rw [UInt32.toNat_sub_of_le _ _ (UInt32.le_iff_toNat_le.mpr (by
      rw [hone,UInt32.toNat_one]
      exact Nat.one_le_two_pow)),hone,UInt32.toNat_one]
  apply UInt32.toNat.inj
  rw [UInt32.toNat_and,hmask,Nat.and_two_pow_sub_one_eq_mod,hr,Nat.mod_eq_of_lt hd]

def byte (w : UInt32) (j : ℕ) : UInt8 := UInt8.ofNat (w.toNat/256^j)

def word (a b c d : UInt8) : UInt32 := UInt32.ofNat (fromLe [a,b,c,d])

theorem byte_toNat (w : UInt32) (j : ℕ) : (byte w j).toNat = w.toNat/256^j%256 := by
  simp [byte]

theorem word_toNat (a b c d : UInt8) :
    (word a b c d).toNat = a.toNat+256*(b.toNat+256*(c.toNat+256*d.toNat)) := by
  have ha := a.toNat_lt
  have hb := b.toNat_lt
  have hc := c.toNat_lt
  have hd := d.toNat_lt
  simp only [word,fromLe,UInt32.toNat_ofNat']
  omega

theorem word_rotateLeft_16 (w : UInt32) :
    word (byte w 2) (byte w 3) (byte w 0) (byte w 1) = rotateLeft 16 w := by
  have hw := w.toNat_lt
  apply UInt32.toNat.inj
  rw [word_toNat,rotateLeft_toNat 16 w (by decide) (by decide)]
  simp only [byte_toNat,show (16 : UInt32).toNat = 16 from rfl]
  omega

theorem word_rotateLeft_8 (w : UInt32) :
    word (byte w 3) (byte w 0) (byte w 1) (byte w 2) = rotateLeft 8 w := by
  have hw := w.toNat_lt
  apply UInt32.toNat.inj
  rw [word_toNat,rotateLeft_toNat 8 w (by decide) (by decide)]
  simp only [byte_toNat,show (8 : UInt32).toNat = 8 from rfl]
  omega

/-- Four words side by side. -/
abbrev Vec := Vector UInt32 4

def quad (a b c d : UInt32) : Vec := #v[a,b,c,d]

def lane (v : Vec) (i : ℕ) : UInt32 := v.get (Fin.ofNat 4 i)

theorem forall_lane {p : Fin 4 → Prop} (h0 : p 0) (h1 : p 1) (h2 : p 2) (h3 : p 3) (i : Fin 4) :
    p i := by
  obtain ⟨i,hi⟩ := i
  interval_cases i
  · exact h0
  · exact h1
  · exact h2
  · exact h3

theorem get_eq {α : Type*} {n : ℕ} (v : Vector α n) (i : Fin n) : v.get i = v[i.val] := rfl

theorem get_map (f : UInt32 → UInt32) (v : Vec) (i : Fin 4) : (v.map f).get i = f (v.get i) := by
  simp [get_eq]

theorem get_zipWith (f : UInt32 → UInt32 → UInt32) (v w : Vec) (i : Fin 4) :
    (Vector.zipWith f v w).get i = f (v.get i) (w.get i) := by
  simp [get_eq]

def byteAt (v : Vec) (i : Fin 16) : UInt8 := byte v[i.val/4] (i.val%4)

def ofBytes (b : Fin 16 → UInt8) : Vec := Vector.ofFn (fun l =>
  word (b ⟨4*l.val,by omega⟩) (b ⟨4*l.val+1,by omega⟩) (b ⟨4*l.val+2,by omega⟩)
    (b ⟨4*l.val+3,by omega⟩))

def bytes (v : Vec) : List UInt8 :=
  toLe 4 v[0].toNat++toLe 4 v[1].toNat++toLe 4 v[2].toNat++toLe 4 v[3].toNat

@[simp] theorem bytes_length (v : Vec) : (bytes v).length = 16 := by simp [bytes]

section Registers

variable {α β : Type*} {n : ℕ}

def map4 (g : α → β) (r : α × α × α × α) : β × β × β × β :=
  (g r.1,g r.2.1,g r.2.2.1,g r.2.2.2)

def at4 (f : α → α → α → α → α × α × α × α) (i j k l : Fin n) (x : Vector α n) : Vector α n :=
  let r := f x[i] x[j] x[k] x[l]
  (((x.set i.val r.1).set j.val r.2.1).set k.val r.2.2.1).set l.val r.2.2.2

theorem at4_map {f : α → α → α → α → α × α × α × α} {f' : β → β → β → β → β × β × β × β}
    {g : α → β} (h : ∀ a b c d, f' (g a) (g b) (g c) (g d) = map4 g (f a b c d)) (i j k l : Fin n)
    (x : Vector α n) : at4 f' i j k l (x.map g) = (at4 f i j k l x).map g := by
  unfold at4
  simp only [Fin.getElem_fin,Vector.getElem_map,h,Vector.map_set,map4]

def at1 (f : α → α) (i : Fin n) (x : Vector α n) : Vector α n := x.set i.val (f x[i])

theorem at1_map {f : α → α} {f' : β → β} {g : α → β} (h : ∀ a, f' (g a) = g (f a)) (i : Fin n)
    (x : Vector α n) : at1 f' i (x.map g) = (at1 f i x).map g := by
  unfold at1
  simp only [Fin.getElem_fin,Vector.getElem_map,h,Vector.map_set]

theorem iterate_comp {f : α → α} {f' : β → β} {g : α → β} (h : ∀ x, f' (g x) = g (f x)) (n : ℕ)
    (x : α) : f'^[n] (g x) = g (f^[n] x) :=
  (Function.Semiconj.iterate_right (show Function.Semiconj g f f' from fun x => (h x).symm) n x).symm

end Registers

def store (out : List UInt8) (w : ℕ × List UInt8) : List UInt8 :=
  out.take w.1++w.2++out.drop (w.1+w.2.length)

def offsets : ℕ → List (List UInt8) → List (ℕ × List UInt8)
  | _, [] => []
  | off, w::ws => (off,w)::offsets (off+w.length) ws

theorem foldl_store (ws : List (List UInt8)) (done rest : List UInt8) :
    (offsets done.length ws).foldl store (done++rest) =
      done++ws.flatten++rest.drop ws.flatten.length := by
  induction ws generalizing done rest with
  | nil => simp [offsets]
  | cons w ws ih =>
    have hs : store (done++rest) (done.length,w) = (done++w)++rest.drop w.length := by
      simp [store,List.drop_append]
    rw [offsets,List.foldl_cons,hs,← List.length_append,ih]
    simp

end Lanes
