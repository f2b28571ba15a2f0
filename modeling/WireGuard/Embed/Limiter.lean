import Mathlib.Algebra.Order.BigOperators.Group.Finset
import WireGuard.Embed.Tunn

/-!
# The limiter under threads

The limiter is shared without a lock. Each thread goes through the atomic operations of
its call one by one, and the operations of different threads interleave in any order.
A handshake is admitted when it is not reported as load. Admissions are paid for out of
the current window, out of the windows that the clock still allows to open, and out of
the windows that a thread has won and not yet opened.
-/

set_option autoImplicit false

namespace WireGuard
namespace RateLimiter

/-- Where a thread stands in `maybe_reset` or `reset`. -/
inductive Pc where
  | idle
  | timed (nowNs : ℕ)
  | due (nowNs last : ℕ)
  | won
  | cleared
  | stamping (nowNs : ℕ)
  deriving DecidableEq

structure Threads (ι : Type) where
  limiter : RateLimiter
  pc : ι → Pc

inductive Move (ι : Type) where
  | note (i : ι)
  | look (i : ι)
  | start (i : ι) (nowNs : ℕ)
  | clear (i : ι)
  | next (i : ι) (nowNs : ℕ)

variable {ι : Type}

def Threads.new (limit : ℕ) : Threads ι := ⟨RateLimiter.new limit,fun _ => .idle⟩

section Steps

variable [DecidableEq ι]

namespace Threads

def goto (s : Threads ι) (i : ι) (pc : Pc) (r : RateLimiter) : Threads ι :=
  ⟨r,Function.update s.pc i pc⟩

/-- The next atomic operation of a call under way. The clock is read here only by `reset`. -/
def proceed (s : Threads ι) (i : ι) (nowNs : ℕ) : Threads ι :=
  match s.pc i with
  | .idle => s
  | .timed now =>
    let last := s.limiter.lastResetNs
    s.goto i (if resetPeriod ≤ now-last then .due now last else .idle) s.limiter
  | .due now last =>
    if s.limiter.lastResetNs = last then
      s.goto i .won {s.limiter with lastResetNs := now}
    else s.goto i .idle s.limiter
  | .won => s.goto i .idle {s.limiter with count := 0}
  | .cleared => s.goto i (.stamping nowNs) s.limiter
  | .stamping now => s.goto i .idle {s.limiter with lastResetNs := now}

/-- A thread between calls may start one; the answer is the load that it reports. -/
def step (s : Threads ι) : Move ι → Threads ι × Option Bool
  | .note i =>
    if s.pc i = .idle then
      ({s with limiter := s.limiter.noteHandshake.2},some s.limiter.noteHandshake.1)
    else (s,none)
  | .look i => if s.pc i = .idle then (s,some (s.limiter.limit ≤ s.limiter.count)) else (s,none)
  | .start i nowNs => if s.pc i = .idle then (s.goto i (.timed nowNs) s.limiter,none) else (s,none)
  | .clear i =>
    if s.pc i = .idle then (s.goto i .cleared {s.limiter with count := 0},none) else (s,none)
  | .next i nowNs => (s.proceed i nowNs,none)

end Threads

theorem maybeReset_uninterrupted (s : Threads ι) (i : ι) (hi : s.pc i = .idle) (nowNs : ℕ)
    (a b c : ℕ) : Machine.final Threads.step s
      [.start i nowNs,.next i a,.next i b,.next i c] =
        {s with limiter := s.limiter.maybeReset nowNs} := by
  have hpc : Function.update s.pc i .idle = s.pc := by rw [← hi,Function.update_eq_self]
  by_cases hd : resetPeriod ≤ nowNs-s.limiter.lastResetNs
  · simp [Machine.final,Threads.step,Threads.proceed,Threads.goto,maybeReset,hi,hd,hpc]
  · simp [Machine.final,Threads.step,Threads.proceed,Threads.goto,maybeReset,hi,hd,hpc]

end Steps

/-! ## What a run admits -/

def Move.nowNs : Move ι → ℕ
  | .start _ nowNs => nowNs
  | .next _ nowNs => nowNs
  | _ => 0

abbrev Event (ι : Type) := Machine.Transition (Threads ι) (Move ι) (Option Bool)

def Event.noted (x : Event ι) : Bool :=
  match x.input with
  | .note _ => x.output.isSome
  | _ => false

/-- The handshake was counted and not reported as load. -/
def Event.admitted (x : Event ι) : Bool :=
  match x.input with
  | .note _ => x.output = some false
  | _ => false

def Event.reset (x : Event ι) : Bool :=
  match x.input with
  | .clear i => x.before.pc i = .idle
  | _ => false

/-- What a thread may still do to the window, in admissions. -/
def Pc.weight (limit windows : ℕ) : Pc → ℕ
  | .won => limit
  | .cleared => limit*windows
  | .stamping _ => limit*windows
  | _ => 0

def Threads.credit [Fintype ι] (bound : ℕ) (s : Threads ι) : ℕ :=
  (s.limiter.limit-s.limiter.count)+
    s.limiter.limit*((bound-s.limiter.lastResetNs)/resetPeriod)+
    ∑ i, (s.pc i).weight s.limiter.limit (bound/resetPeriod)

def Pc.Timely (bound : ℕ) : Pc → Prop
  | .timed nowNs => nowNs ≤ bound
  | .due nowNs last => nowNs ≤ bound ∧ resetPeriod ≤ nowNs-last
  | _ => True

theorem credit_new [Fintype ι] (limit bound : ℕ) :
    (Threads.new limit : Threads ι).credit bound = limit*(bound/resetPeriod+1) := by
  have hsum : ∑ i, ((Threads.new limit : Threads ι).pc i).weight limit (bound/resetPeriod) = 0 :=
    Finset.sum_const_zero
  have h : (Threads.new limit : Threads ι).credit bound =
      limit-0+limit*((bound-0)/resetPeriod)+0 := congrArg (_+·) hsum
  rw [h,Nat.sub_zero,Nat.sub_zero,Nat.mul_add]
  omega

variable [DecidableEq ι]

theorem sum_update_add [Fintype ι] {α : Type} (w : α → ℕ) (f : ι → α) (i : ι) (a : α) :
    ∑ j, w (Function.update f i a j)+w (f i) = ∑ j, w (f j)+w a := by
  rw [← Finset.add_sum_erase _ (fun j => w (Function.update f i a j)) (Finset.mem_univ i),
    ← Finset.add_sum_erase _ (fun j => w (f j)) (Finset.mem_univ i)]
  have hrest : ∑ j ∈ Finset.univ.erase i, w (Function.update f i a j) =
      ∑ j ∈ Finset.univ.erase i, w (f j) := by
    refine Finset.sum_congr rfl fun j hj => ?_
    rw [Function.update_of_ne (Finset.ne_of_mem_erase hj)]
  rw [hrest,Function.update_self]
  omega

theorem timely_goto {bound : ℕ} {s : Threads ι} (h : ∀ j, (s.pc j).Timely bound) {i : ι} {pc : Pc}
    (hp : pc.Timely bound) (r : RateLimiter) : ∀ j, ((s.goto i pc r).pc j).Timely bound := by
  intro j
  show (Function.update s.pc i pc j).Timely bound
  by_cases hj : j = i
  · subst hj
    rwa [Function.update_self]
  · rw [Function.update_of_ne hj]
    exact h j

theorem step_timely {bound : ℕ} {s : Threads ι} (h : ∀ j, (s.pc j).Timely bound) {m : Move ι}
    (hm : m.nowNs ≤ bound) : ∀ j, ((s.step m).1.pc j).Timely bound := by
  cases m with
  | note i =>
    rw [Threads.step]
    split_ifs <;> exact h
  | look i =>
    rw [Threads.step]
    split_ifs <;> exact h
  | start i nowNs =>
    rw [Threads.step]
    split_ifs
    · refine timely_goto h ?_ _
      exact hm
    · exact h
  | clear i =>
    rw [Threads.step]
    split_ifs
    · refine timely_goto h ?_ _
      trivial
    · exact h
  | next i nowNs =>
    rw [Threads.step,Threads.proceed]
    have hi := h i
    split
    · exact h
    · rename_i now hpc
      rw [hpc] at hi
      refine timely_goto h ?_ _
      split_ifs with hd
      · exact ⟨hi,hd⟩
      · trivial
    · split_ifs
      · refine timely_goto h ?_ _
        trivial
      · refine timely_goto h ?_ _
        trivial
    · refine timely_goto h ?_ _
      trivial
    · refine timely_goto h ?_ _
      trivial
    · refine timely_goto h ?_ _
      trivial

theorem credit_moved [Fintype ι] (bound : ℕ) (s : Threads ι) (i : ι) (pc : Pc) (r : RateLimiter)
    (hr : r.limit = s.limiter.limit) :
    (s.goto i pc r).credit bound+
        (s.limiter.limit-s.limiter.count+
          s.limiter.limit*((bound-s.limiter.lastResetNs)/resetPeriod)+
          (s.pc i).weight s.limiter.limit (bound/resetPeriod)) =
      s.credit bound+(s.limiter.limit-r.count+
        s.limiter.limit*((bound-r.lastResetNs)/resetPeriod)+
        pc.weight s.limiter.limit (bound/resetPeriod)) := by
  have hsum := sum_update_add (Pc.weight s.limiter.limit (bound/resetPeriod)) s.pc i pc
  simp only [Threads.credit,Threads.goto,hr]
  omega

theorem window_opened {bound nowNs last : ℕ} (hn : nowNs ≤ bound) (hd : resetPeriod ≤ nowNs-last) :
    (bound-nowNs)/resetPeriod+1 ≤ (bound-last)/resetPeriod := by
  have hp : 0 < resetPeriod := by decide
  rw [← Nat.add_div_right _ hp]
  exact Nat.div_le_div_right (by omega)

theorem proceed_credit [Fintype ι] {bound : ℕ} {s : Threads ι}
    (h : ∀ j, (s.pc j).Timely bound) (i : ι) (nowNs : ℕ) :
    (s.proceed i nowNs).credit bound ≤ s.credit bound := by
  have hi := h i
  have hw := credit_moved bound s i
  rw [Threads.proceed]
  split
  · exact le_rfl
  · rename_i now hpc
    rw [hpc] at hw
    have h0 := hw (if resetPeriod ≤ now-s.limiter.lastResetNs then
      .due now s.limiter.lastResetNs else .idle) s.limiter rfl
    dsimp only
    split_ifs at h0 ⊢ <;> simp only [Pc.weight] at h0 <;> omega
  · rename_i now last hpc
    rw [hpc] at hw hi
    split_ifs with hl
    · -- the winner gives up one of the windows ahead for the one it will open
      have hopen := Nat.mul_le_mul_left s.limiter.limit (window_opened hi.1 hi.2)
      have h0 := hw .won {s.limiter with lastResetNs := now} rfl
      rw [Nat.mul_add,mul_one,← hl] at hopen
      simp only [Pc.weight] at h0
      dsimp only
      omega
    · have h0 := hw .idle s.limiter rfl
      simp only [Pc.weight] at h0
      omega
  · rename_i hpc
    rw [hpc] at hw
    have h0 := hw .idle {s.limiter with count := 0} rfl
    simp only [Pc.weight] at h0
    dsimp only
    omega
  · rename_i hpc
    rw [hpc] at hw
    have h0 := hw (.stamping nowNs) s.limiter rfl
    simp only [Pc.weight] at h0
    omega
  · rename_i now hpc
    rw [hpc] at hw
    have h0 := hw .idle {s.limiter with lastResetNs := now} rfl
    have hle := Nat.mul_le_mul_left s.limiter.limit
      (Nat.div_le_div_right (c := resetPeriod) (Nat.sub_le bound now))
    simp only [Pc.weight] at h0
    dsimp only
    omega

/-- One move: an admission is paid for, and only `reset` brings new credit. -/
theorem step_budget [Fintype ι] {bound : ℕ} {s : Threads ι} (h : ∀ j, (s.pc j).Timely bound)
    (m : Move ι) (hc : (Event.noted (Machine.advance Threads.step s m)) = true →
      s.limiter.count+1 < 2^64) :
    (Event.admitted (Machine.advance Threads.step s m)).toNat+(s.step m).1.credit bound ≤
      s.credit bound+(Event.reset (Machine.advance Threads.step s m)).toNat*
        (s.limiter.limit*(bound/resetPeriod+1)) := by
  cases m with
  | note i =>
    by_cases hi : s.pc i = .idle
    · have hcount := hc (by simp [Event.noted,Machine.advance,Threads.step,hi])
      simp only [Event.admitted,Event.reset,Machine.advance,Threads.step,hi,Threads.credit,
        noteHandshake,if_true,Nat.mod_eq_of_lt hcount]
      by_cases hl : s.limiter.limit ≤ s.limiter.count
      · simp [hl]
        omega
      · simp [hl]
        omega
    · simp [Event.admitted,Event.reset,Machine.advance,Threads.step,hi]
  | look i =>
    simp only [Event.admitted,Event.reset,Machine.advance,Threads.step]
    split_ifs <;> simp
  | start i nowNs =>
    simp only [Event.admitted,Event.reset,Machine.advance,Threads.step]
    split_ifs with hi
    · have h0 := credit_moved bound s i (.timed nowNs) s.limiter rfl
      simp only [hi,Pc.weight] at h0
      simp only [Bool.toNat_false]
      omega
    · simp
  | clear i =>
    simp only [Event.admitted,Event.reset,Machine.advance,Threads.step]
    split_ifs with hi
    · have h0 := credit_moved bound s i .cleared {s.limiter with count := 0} rfl
      simp only [hi,Pc.weight] at h0
      simp only [hi,decide_true,Bool.toNat_true,Bool.toNat_false,one_mul,Nat.mul_add,mul_one]
      omega
    · simp [hi]
  | next i nowNs =>
    simpa [Event.admitted,Event.reset,Machine.advance,Threads.step] using
      proceed_credit h i nowNs

theorem step_limit (s : Threads ι) (m : Move ι) :
    (s.step m).1.limiter.limit = s.limiter.limit := by
  cases m with
  | next i nowNs =>
    rw [Threads.step,Threads.proceed]
    split
    · rfl
    · rfl
    · split_ifs <;> rfl
    · rfl
    · rfl
    · rfl
  | _ =>
    rw [Threads.step]
    split_ifs <;> rfl

theorem step_count (s : Threads ι) (m : Move ι) : (s.step m).1.limiter.count ≤
    s.limiter.count+(Event.noted (Machine.advance Threads.step s m)).toNat := by
  cases m with
  | note i =>
    by_cases hi : s.pc i = .idle
    · simp only [Event.noted,Machine.advance,Threads.step,hi,if_true,noteHandshake,
        Option.isSome_some,Bool.toNat_true]
      exact Nat.mod_le _ _
    · simp [Event.noted,Machine.advance,Threads.step,hi]
  | next i nowNs =>
    rw [Threads.step,Threads.proceed]
    split
    · exact Nat.le_add_right _ _
    · exact Nat.le_add_right _ _
    · split_ifs <;> exact Nat.le_add_right _ _
    · exact Nat.zero_le _
    · exact Nat.le_add_right _ _
    · exact Nat.le_add_right _ _
  | clear i =>
    rw [Threads.step]
    split_ifs
    · exact Nat.zero_le _
    · exact Nat.le_add_right _ _
  | _ =>
    rw [Threads.step]
    split_ifs <;> exact Nat.le_add_right _ _

section Run

variable {limit bound : ℕ} {moves : List (Move ι)}

theorem history_before (hb : ∀ m ∈ moves, m.nowNs ≤ bound) {x : Event ι}
    (hx : x ∈ Machine.history Threads.step (Threads.new limit) moves) :
    x = Machine.advance Threads.step x.before x.input ∧ x.before.limiter.limit = limit ∧
      (∀ j, (x.before.pc j).Timely bound) ∧ (x.noted = true → x.before.limiter.count+1 ≤
        (Machine.history Threads.step (Threads.new limit) moves).countP Event.noted) := by
  obtain ⟨before,after,he⟩ := List.append_of_mem hx
  obtain ⟨js,i,ks,hi,hbefore,hx'⟩ := Machine.history_split _ _ _ before after x he
  have hcount : ∀ is : List (Move ι),
      (Machine.final Threads.step (Threads.new limit) is).limiter.count ≤
        (Machine.history Threads.step (Threads.new limit) is).countP Event.noted :=
    Machine.history_invariant Threads.step (Threads.new limit)
      (fun h s => s.limiter.count ≤ h.countP Event.noted) le_rfl fun h s m ih => by
        have hs := step_count s m
        rw [List.countP_append,List.countP_singleton]
        cases hn : Event.noted (Machine.advance Threads.step s m) <;> rw [hn] at hs <;>
          simp only [Bool.toNat_true,Bool.toNat_false,if_true,if_false,Bool.false_eq_true]
            at hs ⊢ <;>
          omega
  have htimely : ∀ is : List (Move ι), (∀ m ∈ is, m.nowNs ≤ bound) →
      ∀ j, ((Machine.final Threads.step (Threads.new limit) is).pc j).Timely bound := by
    intro is
    induction is using List.reverseRecOn with
    | nil => exact fun _ _ => trivial
    | append_singleton is m ih =>
      intro hm
      rw [Machine.final_append]
      exact step_timely (ih fun m hm' => hm m (List.mem_append_left _ hm'))
        (hm m (List.mem_append_right _ (List.mem_singleton_self m)))
  have hlimit : (Machine.final Threads.step (Threads.new limit) js).limiter.limit = limit :=
    Machine.reachable_invariant Threads.step (Threads.new limit : Threads ι)
      (fun s => s.limiter.limit = limit) rfl (fun s m ih => (step_limit s m).trans ih) ⟨js,rfl⟩
  subst hx'
  refine ⟨rfl,hlimit,htimely js fun m hm => hb m (hi ▸ List.mem_append_left _ hm),fun hn => ?_⟩
  rw [he,List.countP_append,List.countP_cons,if_pos hn,hbefore]
  have := hcount js
  simp only [Machine.advance]
  omega

/-- However the threads interleave, as long as the clock reads at most `bound`, no more
handshakes are admitted than the limit for each period begun, and as many again for each
call of `reset`. -/
theorem admissions_bounded [Fintype ι] (hb : ∀ m ∈ moves, m.nowNs ≤ bound)
    (hn : (Machine.history Threads.step (Threads.new limit) moves).countP Event.noted < 2^64) :
    (Machine.history Threads.step (Threads.new limit) moves).countP Event.admitted ≤
      limit*(bound/resetPeriod+1)*
        ((Machine.history Threads.step (Threads.new limit) moves).countP Event.reset+1) := by
  have hbudget := Machine.history_budget_countP Threads.step (Threads.credit bound) Event.admitted
    Event.reset (limit*(bound/resetPeriod+1)) (Threads.new limit) moves fun x hx => by
      obtain ⟨he,hlimit,htimely,hcount⟩ := history_before hb hx
      have h := step_budget htimely x.input fun hx' => by
        rw [← he] at hx'
        exact (hcount hx').trans_lt hn
      rwa [← he,hlimit,show (x.before.step x.input).1 = x.after from
        congrArg Machine.Transition.after he.symm] at h
  rw [credit_new] at hbudget
  rw [Nat.mul_add,mul_one,Nat.mul_comm]
  omega

/-- Two threads, a limit of one: the bound is reached. -/
theorem admissions_bounded_specimen :
    let moves : List (Move Bool) := [.note true,.note false,.start true resetPeriod,.next true 0,
      .note false,.next true 0,.next true 0,.note false]
    (Machine.history Threads.step (Threads.new 1) moves).countP Event.admitted = 2 ∧
      (Machine.history Threads.step (Threads.new 1) moves).countP Event.admitted ≤
        1*(resetPeriod/resetPeriod+1)*
          ((Machine.history Threads.step (Threads.new 1) moves).countP Event.reset+1) :=
  ⟨by decide,admissions_bounded (by decide) (by decide)⟩

end Run

/-! ## Who resets -/

section Won

variable {ι : Type}

/-- The value that a winning exchange replaced and the one that it put there. -/
def Event.won? (x : Event ι) : Option (ℕ × ℕ) :=
  match x.input with
  | .next i _ =>
    match x.before.pc i with
    | .due now last => if x.before.limiter.lastResetNs = last then some (last,now) else none
    | _ => none
  | _ => none

def wins (h : List (Event ι)) : List (ℕ × ℕ) := h.filterMap Event.won?

def Move.clears : Move ι → Bool
  | .clear _ => true
  | _ => false

/-- The windows won so far, and that every value loaded was the end of one of them. -/
structure Windows (h : List (Event ι)) (s : Threads ι) : Prop where
  length : ∀ w ∈ wins h, w.1+resetPeriod ≤ w.2
  ends : ∀ w ∈ wins h, w.2 ≤ s.limiter.lastResetNs
  apart : (wins h).Pairwise (fun a b => a.2 ≤ b.1)
  due : ∀ i now last, s.pc i = .due now last → resetPeriod ≤ now-last ∧
    (last = s.limiter.lastResetNs ∨ ∃ w ∈ wins h, w.1 = last)
  quiet : ∀ i, s.pc i ≠ .cleared ∧ ∀ now, s.pc i ≠ .stamping now

theorem Windows.kept {h : List (Event ι)} {s : Threads ι} (hw : Windows h s) {x : Event ι}
    (hx : x.won? = none) : Windows (h++[x]) s := by
  have hwins : wins (h++[x]) = wins h := by simp [wins,hx]
  exact ⟨hwins ▸ hw.length,hwins ▸ hw.ends,hwins ▸ hw.apart,hwins ▸ hw.due,hw.quiet⟩

end Won

theorem Windows.goto {h : List (Event ι)} {s : Threads ι} (hw : Windows h s) {x : Event ι}
    (hx : x.won? = none) (i : ι) (pc : Pc) (r : RateLimiter)
    (hr : r.lastResetNs = s.limiter.lastResetNs)
    (hdue : ∀ now last, pc = .due now last → resetPeriod ≤ now-last ∧
      last = s.limiter.lastResetNs)
    (hquiet : pc ≠ .cleared ∧ ∀ now, pc ≠ .stamping now) : Windows (h++[x]) (s.goto i pc r) := by
  have hwins : wins (h++[x]) = wins h := by simp [wins,hx]
  refine ⟨hwins ▸ hw.length,?_,hwins ▸ hw.apart,fun j now last hj => ?_,fun j => ?_⟩
  · rw [hwins,Threads.goto,hr]
    exact hw.ends
  · rw [hwins,Threads.goto,hr]
    by_cases hji : j = i
    · subst hji
      obtain ⟨hp,hl⟩ := hdue now last ((Function.update_self ..).symm.trans hj)
      exact ⟨hp,Or.inl hl⟩
    · exact hw.due j now last ((Function.update_of_ne hji ..).symm.trans hj)
  · show Function.update s.pc i pc j ≠ _ ∧ ∀ now, Function.update s.pc i pc j ≠ _
    by_cases hji : j = i
    · subst hji
      rwa [Function.update_self]
    · rw [Function.update_of_ne hji]
      exact hw.quiet j

theorem goto_idle {s : Threads ι} {i : ι} (hi : s.pc i = .idle) (r : RateLimiter) :
    s.goto i .idle r = ⟨r,s.pc⟩ := by
  rw [Threads.goto,← hi,Function.update_eq_self]

theorem Windows.win {h : List (Event ι)} {s : Threads ι} (hw : Windows h s) {x : Event ι}
    {i : ι} {now : ℕ} (hx : x.won? = some (s.limiter.lastResetNs,now))
    (hi : s.pc i = .due now s.limiter.lastResetNs) :
    Windows (h++[x]) (s.goto i .won {s.limiter with lastResetNs := now}) := by
  have hwins : wins (h++[x]) = wins h++[(s.limiter.lastResetNs,now)] := by simp [wins,hx]
  have hp := (hw.due i now _ hi).1
  have hpos : 0 < resetPeriod := by decide
  refine ⟨fun w hmem => ?_,fun w hmem => ?_,?_,fun j now' last hj => ?_,fun j => ?_⟩
  · rw [hwins,List.mem_append,List.mem_singleton] at hmem
    rcases hmem with hmem | rfl
    · exact hw.length w hmem
    · show s.limiter.lastResetNs+resetPeriod ≤ now
      omega
  · rw [hwins,List.mem_append,List.mem_singleton] at hmem
    show w.2 ≤ now
    rcases hmem with hmem | rfl
    · have := hw.ends w hmem
      omega
    · exact le_rfl
  · rw [hwins,List.pairwise_append]
    refine ⟨hw.apart,List.pairwise_singleton _ _,fun a ha b hb => ?_⟩
    obtain rfl := List.mem_singleton.mp hb
    exact hw.ends a ha
  · have hj : Function.update s.pc i .won j = .due now' last := hj
    by_cases hji : j = i
    · subst hji
      rw [Function.update_self] at hj
      cases hj
    · rw [Function.update_of_ne hji] at hj
      obtain ⟨hp',hl⟩ := hw.due j now' last hj
      refine ⟨hp',Or.inr ?_⟩
      rw [hwins]
      rcases hl with rfl | ⟨w,hmem,hl⟩
      · exact ⟨_,List.mem_append_right _ (List.mem_singleton_self _),rfl⟩
      · exact ⟨w,List.mem_append_left _ hmem,hl⟩
  · show Function.update s.pc i .won j ≠ _ ∧ ∀ now, Function.update s.pc i .won j ≠ _
    by_cases hji : j = i
    · subst hji
      rw [Function.update_self]
      exact ⟨by simp,by simp⟩
    · rw [Function.update_of_ne hji]
      exact hw.quiet j

theorem proceed_windows {h : List (Event ι)} {s : Threads ι} (hw : Windows h s) (i : ι)
    (nowNs : ℕ) : Windows (h++[Machine.advance Threads.step s (.next i nowNs)])
      (s.proceed i nowNs) := by
  cases hpc : s.pc i with
  | idle =>
    have hx : Event.won? (Machine.advance Threads.step s (.next i nowNs)) = none := by
      simp [Event.won?,Machine.advance,hpc]
    simpa only [Threads.proceed,hpc] using hw.kept hx
  | timed now =>
    have hx : Event.won? (Machine.advance Threads.step s (.next i nowNs)) = none := by
      simp [Event.won?,Machine.advance,hpc]
    simp only [Threads.proceed,hpc]
    refine hw.goto hx i _ _ rfl ?_ ?_
    · intro now' last hd
      split_ifs at hd with hp
      obtain ⟨rfl,rfl⟩ := Pc.due.inj hd
      exact ⟨hp,rfl⟩
    · split_ifs <;> exact ⟨by simp,by simp⟩
  | due now last =>
    by_cases hl : s.limiter.lastResetNs = last
    · subst hl
      have hx : Event.won? (Machine.advance Threads.step s (.next i nowNs)) =
          some (s.limiter.lastResetNs,now) := by simp [Event.won?,Machine.advance,hpc]
      simpa only [Threads.proceed,hpc,if_true] using hw.win hx hpc
    · have hx : Event.won? (Machine.advance Threads.step s (.next i nowNs)) = none := by
        simp [Event.won?,Machine.advance,hpc,hl]
      simpa only [Threads.proceed,hpc,if_neg hl] using
        hw.goto hx i .idle s.limiter rfl (by simp) ⟨by simp,by simp⟩
  | won =>
    have hx : Event.won? (Machine.advance Threads.step s (.next i nowNs)) = none := by
      simp [Event.won?,Machine.advance,hpc]
    simpa only [Threads.proceed,hpc] using
      hw.goto hx i .idle {s.limiter with count := 0} rfl (by simp) ⟨by simp,by simp⟩
  | cleared => exact absurd hpc (hw.quiet i).1
  | stamping now => exact absurd hpc ((hw.quiet i).2 now)

theorem step_windows {h : List (Event ι)} {s : Threads ι} (hw : Windows h s) (m : Move ι)
    (hm : m.clears = false) :
    Windows (h++[Machine.advance Threads.step s m]) (s.step m).1 := by
  cases m with
  | note i =>
    rw [Threads.step]
    split_ifs with hi
    · rw [← goto_idle hi]
      exact hw.goto rfl i .idle _ rfl (by simp) ⟨by simp,by simp⟩
    · exact hw.kept rfl
  | look i =>
    rw [Threads.step]
    split_ifs <;> exact hw.kept rfl
  | start i nowNs =>
    rw [Threads.step]
    split_ifs
    · exact hw.goto rfl i (.timed nowNs) _ rfl (by simp) ⟨by simp,by simp⟩
    · exact hw.kept rfl
  | clear i => cases hm
  | next i nowNs => exact proceed_windows hw i nowNs

theorem run_windows (limit : ℕ) {moves : List (Move ι)} (hm : ∀ m ∈ moves, m.clears = false) :
    Windows (Machine.history Threads.step (Threads.new limit) moves)
      (Machine.final Threads.step (Threads.new limit) moves) := by
  induction moves using List.reverseRecOn with
  | nil =>
    refine ⟨by simp [wins,Machine.history],by simp [wins,Machine.history],List.Pairwise.nil,
      fun i now last hd => ?_,fun i => ?_⟩
    · cases hd
    · exact ⟨by simp [Machine.final,Threads.new],by simp [Machine.final,Threads.new]⟩
  | append_singleton moves m ih =>
    rw [Machine.history_append,Machine.final_append]
    exact step_windows (ih fun m hm' => hm m (List.mem_append_left _ hm')) m
      (hm m (List.mem_append_right _ (List.mem_singleton_self m)))

/-- Without calls of `reset`: every window lasts a period or longer, windows do not
overlap, and a thread that is due fails to close a window exactly if another one has
closed it before. -/
theorem window_closed_once (limit : ℕ) {moves : List (Move ι)}
    (hm : ∀ m ∈ moves, m.clears = false) :
    let h := Machine.history Threads.step (Threads.new limit) moves
    (∀ w ∈ wins h, w.1+resetPeriod ≤ w.2) ∧ (wins h).Pairwise (fun a b => a.2 ≤ b.1) ∧
    ∀ before x after i nowNs now last, h = before++x::after → x.input = .next i nowNs →
      x.before.pc i = .due now last → (Event.won? x = none ↔ ∃ w ∈ wins before, w.1 = last) := by
  intro h
  have hw := run_windows limit hm
  refine ⟨hw.length,hw.apart,fun before x after i nowNs now last he hi hpc => ?_⟩
  obtain ⟨js,m,ks,hjs,hbefore,hx⟩ := Machine.history_split _ _ _ before after x he
  have hwj : Windows (Machine.history Threads.step (Threads.new limit) js)
      (Machine.final Threads.step (Threads.new limit) js) :=
    run_windows limit fun m hm' => hm m (hjs ▸ List.mem_append_left _ hm')
  rw [← hbefore] at hwj
  have hxb : x.before = Machine.final Threads.step (Threads.new limit) js := by rw [hx]; rfl
  rw [← hxb] at hwj
  have hwon : Event.won? x =
      if x.before.limiter.lastResetNs = last then some (last,now) else none := by
    simp only [Event.won?,hi,hpc]
  constructor
  · intro hnone
    rcases (hwj.due i now last hpc).2 with hl | hw'
    · rw [hwon,if_pos hl.symm] at hnone
      cases hnone
    · exact hw'
  · rintro ⟨w,hmem,rfl⟩
    have hpos : 0 < resetPeriod := by decide
    have hlen := hwj.length w hmem
    have hend := hwj.ends w hmem
    rw [hwon,if_neg (by omega)]

/-- Two threads are due at once, and one of them closes the window. -/
theorem window_closed_once_specimen :
    let moves : List (Move Bool) := [.start true resetPeriod,.start false (2*resetPeriod),
      .next true 0,.next false 0,.next true 0,.next false 0]
    wins (Machine.history Threads.step (Threads.new 1) moves) = [(0,resetPeriod)] ∧
      (wins (Machine.history Threads.step (Threads.new 1) moves)).Pairwise
        (fun a b => a.2 ≤ b.1) :=
  ⟨by decide,(window_closed_once 1 (by decide)).2.1⟩

end RateLimiter
end WireGuard
