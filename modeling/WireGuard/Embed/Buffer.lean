import WireGuard.Tunnel

/-!
# Pooled buffers of the embedding crate

A pool hands out slabs of one size with whatever the last user left in them.
A pooled buffer is a slab and the length of its filled front.
-/

set_option autoImplicit false

namespace WireGuard

def maxDatagram : ℕ := 2048

/-- A stack of idle slabs, all of the pool's length. -/
structure SlabPool where
  slabLen : ℕ
  maxIdle : ℕ
  free : List Payload
  slabLen_le : slabLen ≤ isizeMax
  free_length : ∀ b ∈ free, b.val.length = slabLen

namespace SlabPool

def new (slabLen maxIdle : ℕ) (h : slabLen ≤ isizeMax) : SlabPool :=
  ⟨slabLen,maxIdle,[],h,by simp⟩

def forWireguard : SlabPool := new maxDatagram 256 (by decide)

def zeroed (p : SlabPool) : Payload :=
  ⟨List.replicate p.slabLen 0,by simpa using p.slabLen_le⟩

def top (p : SlabPool) : Payload := p.free.head?.getD p.zeroed

def popped (p : SlabPool) : SlabPool :=
  {p with free := p.free.tail, free_length := fun b hb => p.free_length b (List.mem_of_mem_tail hb)}

def take (p : SlabPool) : Payload × SlabPool := (p.top,p.popped)

def give (p : SlabPool) (b : Payload) : SlabPool :=
  if h : b.val.length = p.slabLen then
    if p.free.length < p.maxIdle then
      {p with
        free := b::p.free
        free_length := by
          intro x hx
          rcases List.mem_cons.mp hx with rfl | hx
          · exact h
          · exact p.free_length x hx}
    else p
  else p

/-- Zeroed slabs are pushed until `n` are idle, or as many as may be. -/
def prefill (p : SlabPool) (n : ℕ) : SlabPool :=
  {p with
    free := List.replicate (min n p.maxIdle-p.free.length) p.zeroed++p.free
    free_length := by
      intro b hb
      rcases List.mem_append.mp hb with hb | hb
      · rw [List.eq_of_mem_replicate hb]
        simp [zeroed]
      · exact p.free_length b hb}

theorem top_length (p : SlabPool) : p.top.val.length = p.slabLen := by
  unfold top
  cases h : p.free.head? with
  | none => simp [zeroed]
  | some b => exact p.free_length b (List.mem_of_mem_head? h)

end SlabPool

structure PooledBuf where
  storage : Payload
  len : ℕ

namespace PooledBuf

def setLen (b : PooledBuf) (len : ℕ) : PooledBuf := {b with len := min len b.storage.val.length}

def deref (b : PooledBuf) : List UInt8 :=
  if b.len ≤ b.storage.val.length then b.storage.val.take b.len else []

theorem deref_length_le (b : PooledBuf) : b.deref.length ≤ isizeMax := by
  unfold deref
  split
  · rw [List.length_take]
    exact (min_le_right _ _).trans b.storage.property
  · exact Nat.zero_le _

def payload (b : PooledBuf) : Payload := ⟨b.deref,b.deref_length_le⟩

def overwrite (storage : Payload) (data : List UInt8) : Payload :=
  ⟨data.take (min data.length storage.val.length) ++
      storage.val.drop (min data.length storage.val.length),by
    have := storage.property
    simp
    omega⟩

def copyFrom (pool : SlabPool) (data : List UInt8) : PooledBuf × SlabPool :=
  let (storage,pool) := pool.take
  let n := min data.length storage.val.length
  ((⟨overwrite storage data,0⟩ : PooledBuf).setLen n,pool)

theorem copyFrom_deref (pool : SlabPool) (data : List UInt8) :
    (copyFrom pool data).1.deref = data.take pool.slabLen := by
  have ht := pool.top_length
  have hl : (overwrite pool.top data).val.length = pool.slabLen := by
    simp [overwrite,ht]
  simp only [copyFrom,SlabPool.take,setLen,deref,hl,ht]
  rw [if_pos (min_le_right _ _),min_eq_left (min_le_right _ _)]
  simp only [overwrite,ht]
  rw [List.take_left' (by simp)]
  rcases le_total data.length pool.slabLen with h | h
  · rw [min_eq_left h,List.take_of_length_le (le_refl _),List.take_of_length_le h]
  · rw [min_eq_right h]

theorem copyFrom_whole_iff {pool : SlabPool} {data : List UInt8} :
    (copyFrom pool data).1.deref = data ↔ data.length ≤ pool.slabLen := by
  rw [copyFrom_deref,List.take_eq_self_iff]

end PooledBuf

end WireGuard
