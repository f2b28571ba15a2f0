import WireGuard.Embed.Buffer
import WireGuard.Library.Machine

/-!
# The pool under threads

Threads share a pool. A buffer is taken and returned in two atomic operations each: the
count of outstanding buffers, then the freelist under its lock. Calls of different threads
interleave between the two in any order. A slab exists while it is idle, in somebody's
hands or on its way back; an allocation is needed only when more calls want slabs than
there are slabs, and a slab is given up only when the freelist is full.
-/

set_option autoImplicit false

namespace WireGuard

def PooledBuf.write (b : PooledBuf) (data : List UInt8) (len : ℕ) : PooledBuf :=
  (⟨overwrite b.storage data,b.len⟩ : PooledBuf).setLen len

/-- The pool, the buffers in use, the calls of `get` between their two operations and the
slabs of the drops between theirs. -/
structure SharedPool where
  pool : SlabPool
  outstanding : UInt64
  taking : ℕ
  held : List PooledBuf
  giving : List Payload

namespace SharedPool

inductive Move where
  | get
  | pop
  | fill (i : ℕ) (data : List UInt8) (len : ℕ)
  | drop (i : ℕ)
  | push (i : ℕ)
  | prefill (n : ℕ)

def new (slabLen maxIdle : ℕ) (h : slabLen ≤ isizeMax) : SharedPool :=
  ⟨.new slabLen maxIdle h,0,0,[],[]⟩

/-- One atomic operation of some thread, and whether a slab was allocated for a caller. The
buffers in use and the drops under way are chosen by their places. -/
def step (s : SharedPool) : Move → SharedPool × Bool
  | .get => ({s with outstanding := s.outstanding+1, taking := s.taking+1},false)
  | .pop =>
    if s.taking = 0 then (s,false)
    else
      ({s with
        pool := s.pool.take.2
        taking := s.taking-1
        held := ⟨s.pool.take.1,0⟩::s.held},s.pool.free.isEmpty)
  | .fill i data len =>
    match s.held[i]? with
    | none => (s,false)
    | some b => ({s with held := s.held.set i (b.write data len)},false)
  | .drop i =>
    match s.held[i]? with
    | none => (s,false)
    | some b =>
      ({s with
        outstanding := s.outstanding-1
        held := s.held.eraseIdx i
        giving := b.storage::s.giving},false)
  | .push i =>
    match s.giving[i]? with
    | none => (s,false)
    | some b => ({s with pool := s.pool.give b, giving := s.giving.eraseIdx i},false)
  | .prefill n => ({s with pool := s.pool.prefill n},false)

inductive Stepped (s : SharedPool) : SharedPool → Bool → Prop
  | still : Stepped s s false
  | started : Stepped s {s with outstanding := s.outstanding+1, taking := s.taking+1} false
  | taken (n : ℕ) (hn : s.taking = n+1) :
      Stepped s {s with
        pool := s.pool.take.2
        taking := n
        held := ⟨s.pool.take.1,0⟩::s.held} s.pool.free.isEmpty
  | written (front back : List PooledBuf) (b : PooledBuf) (data : List UInt8) (len : ℕ)
      (hb : s.held = front++b::back) :
      Stepped s {s with held := front++b.write data len::back} false
  | dropped (front back : List PooledBuf) (b : PooledBuf) (hb : s.held = front++b::back) :
      Stepped s {s with
        outstanding := s.outstanding-1
        held := front++back
        giving := b.storage::s.giving} false
  | returned (front back : List Payload) (b : Payload) (hb : s.giving = front++b::back) :
      Stepped s {s with pool := s.pool.give b, giving := front++back} false
  | prefilled (n : ℕ) : Stepped s {s with pool := s.pool.prefill n} false

theorem split_at {α : Type} {l : List α} {i : ℕ} {a : α} (h : l[i]? = some a) :
    l = l.take i++a::l.drop (i+1) := by
  obtain ⟨hi,rfl⟩ := List.getElem?_eq_some_iff.mp h
  rw [List.getElem_cons_drop,List.take_append_drop]

theorem step_stepped (s : SharedPool) (m : Move) : Stepped s (s.step m).1 (s.step m).2 := by
  cases m with
  | get => exact .started
  | pop =>
    simp only [step]
    split
    · exact .still
    · exact .taken (s.taking-1) (by omega)
  | fill i data len =>
    simp only [step]
    split
    · exact .still
    · rename_i b hb
      rw [List.set_eq_take_append_cons_drop,if_pos (List.getElem?_eq_some_iff.mp hb).1]
      exact .written _ _ b data len (split_at hb)
  | drop i =>
    simp only [step]
    split
    · exact .still
    · rename_i b hb
      rw [List.eraseIdx_eq_take_drop_succ]
      exact .dropped _ _ b (split_at hb)
  | push i =>
    simp only [step]
    split
    · exact .still
    · rename_i b hb
      rw [List.eraseIdx_eq_take_drop_succ]
      exact .returned _ _ b (split_at hb)
  | prefill n => exact .prefilled n

/-- Slabs that exist. -/
def alive (s : SharedPool) : ℕ := s.pool.free.length+s.held.length+s.giving.length

/-- Buffers in use and calls under way. -/
def busy (s : SharedPool) : ℕ := s.taking+s.held.length+s.giving.length

/-- What holds of a shared pool between any two operations. -/
structure Sound (s : SharedPool) : Prop where
  outstanding : s.outstanding = UInt64.ofNat (s.taking+s.held.length)
  idle : s.pool.free.length ≤ s.pool.maxIdle
  held : ∀ b ∈ s.held, b.storage.val.length = s.pool.slabLen ∧ b.len ≤ s.pool.slabLen
  giving : ∀ b ∈ s.giving, b.val.length = s.pool.slabLen

theorem write_length (b : PooledBuf) (data : List UInt8) (len : ℕ) :
    (b.write data len).storage.val.length = b.storage.val.length := by
  simp [PooledBuf.write,PooledBuf.setLen,PooledBuf.overwrite]

theorem write_len_le (b : PooledBuf) (data : List UInt8) (len : ℕ) :
    (b.write data len).len ≤ b.storage.val.length := by
  rw [← write_length b data len]
  exact min_le_right _ _

theorem give_slabLen (p : SlabPool) (b : Payload) : (p.give b).slabLen = p.slabLen := by
  unfold SlabPool.give
  split
  · split <;> rfl
  · rfl

theorem give_maxIdle (p : SlabPool) (b : Payload) : (p.give b).maxIdle = p.maxIdle := by
  unfold SlabPool.give
  split
  · split <;> rfl
  · rfl

theorem give_idle {p : SlabPool} {b : Payload} (hb : b.val.length = p.slabLen) :
    (p.give b).free.length =
      if p.free.length < p.maxIdle then p.free.length+1 else p.free.length := by
  unfold SlabPool.give
  rw [dif_pos hb]
  split
  · simp
  · rfl

theorem prefill_idle (p : SlabPool) (n : ℕ) :
    (p.prefill n).free.length = max p.free.length (min n p.maxIdle) := by
  simp only [SlabPool.prefill,List.length_append,List.length_replicate]
  omega

theorem mem_of_rest {α : Type} {front back : List α} {b c : α} (hc : c ∈ front++back) :
    c ∈ front++b::back :=
  ((List.sublist_cons_self b back).append_left front).subset hc

theorem Sound.stepped {s s' : SharedPool} {alloc : Bool} (h : s.Sound)
    (hs : Stepped s s' alloc) : s'.Sound := by
  obtain ⟨ho,hi,hh,hg⟩ := h
  cases hs with
  | still => exact ⟨ho,hi,hh,hg⟩
  | started =>
    refine ⟨?_,hi,hh,hg⟩
    dsimp only
    rw [ho,Nat.add_right_comm,UInt64.ofNat_add _ 1]
    rfl
  | taken n hn =>
    refine ⟨?_,?_,?_,hg⟩
    · dsimp only [List.length_cons]
      rw [ho,hn,Nat.add_right_comm,Nat.add_assoc]
    · exact (List.length_tail ▸ Nat.sub_le _ _).trans hi
    · intro b hb
      rcases List.mem_cons.mp hb with rfl | hb
      · exact ⟨s.pool.top_length,Nat.zero_le _⟩
      · exact hh b hb
  | written front back b data len hb =>
    rw [hb] at ho hh
    refine ⟨?_,hi,?_,hg⟩
    · rw [ho]
      simp
    · have hlen := (hh b (by simp)).1
      intro c hc
      rcases List.mem_append.mp hc with hc | hc
      · exact hh c (List.mem_append_left _ hc)
      rcases List.mem_cons.mp hc with rfl | hc
      · exact ⟨(write_length b data len).trans hlen,(write_len_le b data len).trans_eq hlen⟩
      · exact hh c (List.mem_append_right _ (List.mem_cons_of_mem _ hc))
  | dropped front back b hb =>
    rw [hb] at ho hh
    refine ⟨?_,hi,?_,?_⟩
    · have hn : s.taking+(front++b::back).length = s.taking+(front++back).length+1 := by
        simp only [List.length_append,List.length_cons]
        omega
      dsimp only
      rw [ho,hn,UInt64.ofNat_add _ 1]
      exact UInt64.add_sub_cancel _ 1
    · exact fun c hc => hh c (mem_of_rest hc)
    · intro c hc
      rcases List.mem_cons.mp hc with rfl | hc
      · exact (hh b (by simp)).1
      · exact hg c hc
  | returned front back b hb =>
    rw [hb] at hg
    refine ⟨ho,?_,?_,?_⟩
    · dsimp only
      rw [give_maxIdle,give_idle (hg b (by simp))]
      split <;> omega
    · dsimp only
      rwa [give_slabLen]
    · intro c hc
      dsimp only
      rw [give_slabLen]
      exact hg c (mem_of_rest hc)
  | prefilled n =>
    refine ⟨ho,?_,hh,hg⟩
    dsimp only
    rw [prefill_idle]
    exact max_le hi (min_le_right _ _)

theorem Stepped.limits {s s' : SharedPool} {alloc : Bool} (hs : Stepped s s' alloc) :
    s'.pool.slabLen = s.pool.slabLen ∧ s'.pool.maxIdle = s.pool.maxIdle := by
  cases hs with
  | returned front back b hb => exact ⟨give_slabLen s.pool b,give_maxIdle s.pool b⟩
  | _ => exact ⟨rfl,rfl⟩

/-! ## Allocations -/

theorem Stepped.pays {s s' : SharedPool} {alloc : Bool} {n : ℕ} (hs : Stepped s s' alloc)
    (h : s.Sound) (hn : n ≤ s.pool.maxIdle) (hb : s.busy ≤ n) :
    alloc.toNat+(n-s'.alive) ≤ n-s.alive := by
  cases hs with
  | still => simp
  | started => simp [alive]
  | taken k hk =>
    have hfree : s.pool.take.2.free.length = s.pool.free.length-1 := List.length_tail
    unfold busy at hb
    simp only [alive,hfree,List.length_cons]
    cases hf : s.pool.free with
    | nil =>
      simp only [List.isEmpty_nil,Bool.toNat_true,List.length_nil]
      omega
    | cons b bs =>
      simp only [List.isEmpty_cons,Bool.toNat_false,List.length_cons]
      omega
  | written front back b data len he => simp [alive,he]
  | dropped front back b he =>
    simp only [alive,he,List.length_append,List.length_cons,Bool.toNat_false]
    omega
  | returned front back b he =>
    have hidle := give_idle (h.giving b (by simp [he]))
    simp only [alive,he,hidle,List.length_append,List.length_cons,Bool.toNat_false]
    split <;> omega
  | prefilled k =>
    simp only [alive,prefill_idle,Bool.toNat_false]
    omega

open Machine

theorem new_sound (slabLen maxIdle : ℕ) (h : slabLen ≤ isizeMax) :
    (new slabLen maxIdle h).Sound :=
  ⟨rfl,Nat.zero_le _,by simp [new],by simp [new]⟩

theorem reachable_sound {slabLen maxIdle : ℕ} {h : slabLen ≤ isizeMax} {s : SharedPool}
    (hs : Reachable step (new slabLen maxIdle h) s) :
    s.Sound ∧ s.pool.slabLen = slabLen ∧ s.pool.maxIdle = maxIdle := by
  refine reachable_invariant step _
    (fun s => s.Sound ∧ s.pool.slabLen = slabLen ∧ s.pool.maxIdle = maxIdle)
    ⟨new_sound slabLen maxIdle h,rfl,rfl⟩ (fun s m hs => ?_) hs
  obtain ⟨hsound,hlen,hmax⟩ := hs
  have hm := s.step_stepped m
  exact ⟨hsound.stepped hm,hm.limits.1.trans hlen,hm.limits.2.trans hmax⟩

/-- However the threads interleave: as long as no more than `n` buffers are in use or on
their way, and the freelist may hold as many, only slabs that are missing are allocated,
and none once `n` were put there beforehand. -/
theorem allocations_bounded {slabLen maxIdle n : ℕ} (h : slabLen ≤ isizeMax) (hn : n ≤ maxIdle)
    (before after : List Move) :
    let s := final step (new slabLen maxIdle h) before
    let allocations (s : SharedPool) := (history step s after).countP (·.output)
    let calm (s : SharedPool) := ∀ x ∈ history step s after, x.before.busy ≤ n
    (calm s → allocations s ≤ n-s.alive) ∧
      (calm (s.step (.prefill n)).1 → allocations (s.step (.prefill n)).1 = 0) := by
  intro s allocations calm
  have hrun : ∀ s, Reachable step (new slabLen maxIdle h) s → calm s →
      allocations s ≤ n-s.alive := by
    intro s hs hc
    have hb := history_budget_countP step (fun s => n-s.alive) (·.output) (fun _ => false) 0 s
      after (fun x hx => ?_)
    · simp only [Nat.mul_zero,Nat.add_zero] at hb
      exact (Nat.le_add_right _ _).trans hb
    · have hbusy := hc x hx
      obtain ⟨t,m,ht,rfl⟩ := mem_history step s after x hx
      obtain ⟨hsound,-,hmax⟩ := reachable_sound (hs.trans ht)
      exact (t.step_stepped m).pays hsound (hmax.symm ▸ hn) hbusy
  refine ⟨hrun s ⟨before,rfl⟩,fun hc => ?_⟩
  have hs : Reachable step (new slabLen maxIdle h) s := ⟨before,rfl⟩
  have hfull : n ≤ (s.step (.prefill n)).1.alive := by
    have hp := prefill_idle s.pool n
    have hm := (reachable_sound hs).2.2
    simp only [step,alive]
    omega
  have hzero := hrun _ (hs.step (.prefill n)) hc
  omega

def specimenMoves : List Move := [.get,.pop,.drop 0,.push 0,.get,.pop]

theorem allocations_bounded_specimen :
    (history step (new 8 4 (by decide)) specimenMoves).countP (·.output) ≤ 1 ∧
      (history step ((new 8 4 (by decide)).step (.prefill 1)).1 specimenMoves).countP (·.output) =
        0 :=
  have h := allocations_bounded (n := 1) (by decide) (by decide) [] specimenMoves
  ⟨h.1 (by decide),h.2 (by decide)⟩

example : (history step (new 8 4 (by decide)) [.get,.pop,.drop 0,.get,.pop]).countP (·.output) =
    2 := by decide

/-- The two diagnostics of a pool: what is outstanding are the buffers that callers hold or
are about to get, modulo the width of the count, and never more than `maxIdle` slabs are
idle. A buffer has a whole slab behind it and derefs to its length. -/
theorem diagnostics_exact {slabLen maxIdle : ℕ} (h : slabLen ≤ isizeMax) (moves : List Move) :
    let s := final step (new slabLen maxIdle h) moves
    s.outstanding.toNat = (s.taking+s.held.length)%2^64 ∧ s.pool.free.length ≤ maxIdle ∧
      ∀ b ∈ s.held, b.storage.val.length = slabLen ∧ b.deref.length = b.len := by
  intro s
  have hr : Reachable step (new slabLen maxIdle h) s := ⟨moves,rfl⟩
  obtain ⟨⟨ho,hidle,hheld,_⟩,hlen,hmax⟩ := reachable_sound hr
  refine ⟨?_,hmax ▸ hidle,fun b hb => ?_⟩
  · rw [ho,UInt64.toNat_ofNat']
  · obtain ⟨hstorage,hl⟩ := hheld b hb
    refine ⟨hstorage.trans hlen,?_⟩
    rw [PooledBuf.deref,if_pos (hl.trans_eq hstorage.symm),List.length_take,
      min_eq_left (hl.trans_eq hstorage.symm)]

theorem diagnostics_exact_specimen :
    (final step (new 8 4 (by decide)) specimenMoves).outstanding.toNat = 1 :=
  (diagnostics_exact (by decide) specimenMoves).1

end SharedPool

end WireGuard
