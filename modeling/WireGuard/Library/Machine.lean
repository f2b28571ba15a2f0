import Mathlib.Algebra.BigOperators.Group.List.Basic
import Mathlib.Algebra.GroupWithZero.Nat
import Mathlib.Data.List.Induction
import Mathlib.Logic.Function.Basic
import Mathlib.Order.Basic

/-!
# Deterministic machines, their histories and their products

A machine is a step function from a state and an input to the next state and
an output. A history lists every transition of a run in order. An invariant
may depend on the whole history, so facts about what has already happened are
proved by the same rule as facts about the state. The product runs several
machines in any interleaving, and each component's part of a joint history is
a history of that component alone.
-/

set_option autoImplicit false

namespace Machine

universe u v w

structure Transition (σ : Type u) (ι : Type v) (ο : Type w) where
  before : σ
  input : ι
  output : ο
  after : σ

variable {σ : Type u} {ι : Type v} {ο : Type w}

def advance (step : σ → ι → σ × ο) (s : σ) (i : ι) : Transition σ ι ο :=
  ⟨s,i,(step s i).2,(step s i).1⟩

def final (step : σ → ι → σ × ο) : σ → List ι → σ
  | s, [] => s
  | s, i::is => final step (step s i).1 is

def history (step : σ → ι → σ × ο) : σ → List ι → List (Transition σ ι ο)
  | _, [] => []
  | s, i::is => advance step s i :: history step (step s i).1 is

def Reachable (step : σ → ι → σ × ο) (s t : σ) : Prop := ∃ is, t = final step s is

theorem final_append (step : σ → ι → σ × ο) (s : σ) (is js : List ι) :
    final step s (is++js) = final step (final step s is) js := by
  induction is generalizing s with
  | nil => rfl
  | cons i is ih => exact ih _

theorem history_append (step : σ → ι → σ × ο) (s : σ) (is js : List ι) :
    history step s (is++js) = history step s is++history step (final step s is) js := by
  induction is generalizing s with
  | nil => rfl
  | cons i is ih =>
    simp only [List.cons_append,history,final]
    rw [ih]

theorem history_length (step : σ → ι → σ × ο) (s : σ) (is : List ι) :
    (history step s is).length = is.length := by
  induction is generalizing s with
  | nil => rfl
  | cons i is ih => simp [history,ih]

theorem Reachable.refl (step : σ → ι → σ × ο) (s : σ) : Reachable step s s := ⟨[],rfl⟩

theorem Reachable.step {step : σ → ι → σ × ο} {s t : σ} (h : Reachable step s t) (i : ι) :
    Reachable step s (step t i).1 := by
  obtain ⟨is,rfl⟩ := h
  exact ⟨is++[i],by rw [final_append]; rfl⟩

theorem Reachable.trans {step : σ → ι → σ × ο} {s t u : σ} (h : Reachable step s t)
    (h' : Reachable step t u) : Reachable step s u := by
  obtain ⟨is,rfl⟩ := h
  obtain ⟨js,rfl⟩ := h'
  exact ⟨is++js,(final_append ..).symm⟩

/-- The rule behind every statement about whole runs: what holds at the start
and is kept by one more transition holds of every history. -/
theorem history_invariant (step : σ → ι → σ × ο) (s : σ)
    (Inv : List (Transition σ ι ο) → σ → Prop) (h0 : Inv [] s)
    (hs : ∀ h t i, Inv h t → Inv (h++[advance step t i]) (step t i).1) (is : List ι) :
    Inv (history step s is) (final step s is) := by
  induction is using List.reverseRecOn with
  | nil => exact h0
  | append_singleton is i ih =>
    rw [history_append,final_append]
    exact hs _ _ i ih

theorem reachable_invariant (step : σ → ι → σ × ο) (s : σ) (Inv : σ → Prop) (h0 : Inv s)
    (hs : ∀ t i, Inv t → Inv (step t i).1) {t : σ} (ht : Reachable step s t) : Inv t := by
  obtain ⟨is,rfl⟩ := ht
  exact history_invariant step s (fun _ t => Inv t) h0 (fun _ t i h => hs t i h) is

/-- The rule for queues: if in every transition what leaves comes off the front of
the contents and what enters goes behind them, then over a whole run what left and
what is still there is what was there and what entered, in order. -/
theorem history_conveys {α : Type*} (step : σ → ι → σ × ο) (contents : σ → List α)
    (entered left : Transition σ ι ο → List α) (s : σ) (is : List ι)
    (hs : ∀ x ∈ history step s is,
      left x++contents x.after = contents x.before++entered x) :
    (history step s is).flatMap left++contents (final step s is) =
      contents s++(history step s is).flatMap entered := by
  induction is generalizing s with
  | nil => simp [history,final]
  | cons i is ih =>
    have hx := hs _ List.mem_cons_self
    have hr := ih (step s i).1 (fun x hx => hs x (List.mem_cons_of_mem _ hx))
    simp only [history,final,List.flatMap_cons]
    rw [List.append_assoc,hr,← List.append_assoc,← List.append_assoc]
    exact congrArg (· ++ _) hx

/-- The rule for counters: if every transition adds to a counter and stops at a limit, then
a whole run adds the sum and stops there. -/
theorem history_saturates (step : σ → ι → σ × ο) (count : σ → ℕ)
    (gain : Transition σ ι ο → ℕ) (limit : ℕ) (s : σ) (is : List ι) (h0 : count s ≤ limit)
    (hs : ∀ t i, count t ≤ limit → count (step t i).1 =
      min (count t+gain (advance step t i)) limit) :
    count (final step s is) = min (count s+((history step s is).map gain).sum) limit := by
  refine history_invariant step s (fun h t => count t = min (count s+(h.map gain).sum) limit)
    (by simp [h0]) (fun h t i ih => ?_) is
  rw [hs t i (ih ▸ Nat.min_le_right _ _),ih,List.map_append,List.sum_append,List.map_singleton,
    List.sum_singleton]
  omega

theorem history_latest {α : Type*} (step : σ → ι → σ × ο) (field : σ → Option α)
    (noted : Transition σ ι ο → Option α) (s : σ) (is : List ι)
    (hs : ∀ t i, field (step t i).1 = (noted (advance step t i)).or (field t)) :
    field (final step s is) = ((history step s is).filterMap noted).getLast?.or (field s) := by
  refine history_invariant step s (fun h t => field t = (h.filterMap noted).getLast?.or (field s))
    rfl (fun h t i ih => ?_) is
  rw [hs,ih,List.filterMap_append,List.getLast?_append,Option.or_assoc]
  congr 1
  cases hn : noted (advance step t i) <;> simp [hn]

/-- The rule for budgets: if every transition is paid for out of a potential and
out of what it earns, then so is a whole run. -/
theorem history_budget (step : σ → ι → σ × ο) (potential : σ → ℕ)
    (spent earned : Transition σ ι ο → ℕ) (s : σ) (is : List ι)
    (hs : ∀ x ∈ history step s is,
      spent x+potential x.after ≤ potential x.before+earned x) :
    ((history step s is).map spent).sum+potential (final step s is) ≤
      potential s+((history step s is).map earned).sum := by
  induction is generalizing s with
  | nil => simp [history,final]
  | cons i is ih =>
    have hx : spent (advance step s i)+potential (step s i).1 ≤
      potential s+earned (advance step s i) := hs _ List.mem_cons_self
    have hr := ih (step s i).1 (fun x hx => hs x (List.mem_cons_of_mem _ hx))
    simp only [history,final,List.map_cons,List.sum_cons]
    omega

theorem history_budget_countP (step : σ → ι → σ × ο) (potential : σ → ℕ)
    (spent earned : Transition σ ι ο → Bool) (gain : ℕ) (s : σ) (is : List ι)
    (hs : ∀ x ∈ history step s is,
      (spent x).toNat+potential x.after ≤ potential x.before+(earned x).toNat*gain) :
    (history step s is).countP spent+potential (final step s is) ≤
      potential s+(history step s is).countP earned*gain := by
  induction is generalizing s with
  | nil => simp [history,final]
  | cons i is ih =>
    have hx : (spent (advance step s i)).toNat+potential (step s i).1 ≤
      potential s+(earned (advance step s i)).toNat*gain := hs _ List.mem_cons_self
    have hr := ih (step s i).1 (fun x hx => hs x (List.mem_cons_of_mem _ hx))
    simp only [history,final,List.countP_cons]
    cases hsp : spent (advance step s i) <;> cases hea : earned (advance step s i) <;>
      simp only [hsp,hea,Bool.toNat_true,Bool.toNat_false,if_true,if_false,Bool.false_eq_true,
        one_mul,zero_mul,Nat.add_mul] at hx ⊢ <;> omega

theorem history_split (step : σ → ι → σ × ο) (s : σ) (is : List ι)
    (before after : List (Transition σ ι ο)) (x : Transition σ ι ο)
    (h : history step s is = before++x::after) :
    ∃ js i ks, is = js++i::ks ∧ before = history step s js ∧
      x = advance step (final step s js) i := by
  induction is generalizing s before with
  | nil => simp [history] at h
  | cons i is ih =>
    cases before with
    | nil =>
      simp only [history,List.nil_append,List.cons.injEq] at h
      exact ⟨[],i,is,rfl,rfl,h.1.symm⟩
    | cons y before =>
      simp only [history,List.cons_append,List.cons.injEq] at h
      obtain ⟨js,j,ks,hi,hb,hx⟩ := ih _ before h.2
      exact ⟨i::js,j,ks,by simp [hi],by simp [history,h.1,hb],by simpa [final] using hx⟩

theorem run_congr {step : σ → ι → σ × ο} {R : ι → ι → Prop}
    (hR : ∀ s i j, R i j → step s j = step s i) {is js : List ι} (h : List.Forall₂ R is js)
    (s : σ) :
    final step s js = final step s is ∧
      (history step s js).map Transition.output = (history step s is).map Transition.output := by
  induction h generalizing s with
  | nil => exact ⟨rfl,rfl⟩
  | cons hij _ ih =>
    simp only [final,history,List.map_cons,advance,hR s _ _ hij]
    exact ⟨(ih _).1,congrArg _ (ih _).2⟩

theorem mem_history (step : σ → ι → σ × ο) (s : σ) (is : List ι) (x : Transition σ ι ο)
    (h : x ∈ history step s is) : ∃ t i, Reachable step s t ∧ x = advance step t i := by
  obtain ⟨before,after,he⟩ := List.append_of_mem h
  obtain ⟨js,i,_,_,_,hx⟩ := history_split step s is before after x he
  exact ⟨_,i,⟨js,rfl⟩,hx⟩

theorem history_getElem? (step : σ → ι → σ × ο) (s : σ) (is : List ι) (n : ℕ) :
    (history step s is)[n]? = is[n]?.map (advance step (final step s (is.take n))) := by
  induction is generalizing s n with
  | nil => rfl
  | cons i is ih =>
    cases n with
    | zero => rfl
    | succ n => exact ih _ n

theorem history_take (step : σ → ι → σ × ο) (s : σ) (is : List ι) (n : ℕ) :
    (history step s is).take n = history step s (is.take n) := by
  induction is generalizing s n with
  | nil => simp [history]
  | cons i is ih =>
    cases n with
    | zero => rfl
    | succ n => simp [history,ih]

theorem history_at {step : σ → ι → σ × ο} {s : σ} {is : List ι} {n : ℕ}
    {x : Transition σ ι ο} (h : (history step s is)[n]? = some x) :
    x = advance step (final step s (is.take n)) x.input ∧
      x.after = final step s (is.take (n+1)) := by
  rw [history_getElem?,Option.map_eq_some_iff] at h
  obtain ⟨i,hi,rfl⟩ := h
  refine ⟨rfl,?_⟩
  rw [List.take_add_one,hi,final_append]
  rfl

theorem history_since (step : σ → ι → σ × ο) (s : σ) (is : List ι) (Q : σ → Prop)
    (E : Transition σ ι ο → Prop) (h0 : ¬Q s)
    (hs : ∀ t i, Q (step t i).1 → Q t ∨ E (advance step t i)) (n : ℕ) (hn : n ≤ is.length)
    (hq : Q (final step s (is.take n))) :
    ∃ l x, l < n ∧ (history step s is)[l]? = some x ∧ E x ∧
      ∀ m, l < m → m ≤ n → Q (final step s (is.take m)) := by
  induction n with
  | zero => exact absurd hq h0
  | succ n ih =>
    have hx : (history step s is)[n]? = some (advance step (final step s (is.take n)) is[n]) := by
      rw [history_getElem?,List.getElem?_eq_getElem hn]
      rfl
    have hnext := (history_at hx).2
    rw [← hnext] at hq
    have hlast : ∀ m, n < m → m ≤ n+1 → Q (final step s (is.take m)) := by
      intro m hm hm'
      rw [show m = n+1 by omega,← hnext]
      exact hq
    by_cases he : E (advance step (final step s (is.take n)) is[n])
    · exact ⟨n,_,Nat.lt_succ_self n,hx,he,hlast⟩
    · obtain ⟨l,x,hl,hlx,hex,hkeep⟩ := ih (by omega) ((hs _ _ hq).resolve_right he)
      refine ⟨l,x,by omega,hlx,hex,fun m hm hm' => ?_⟩
      by_cases hmn : m ≤ n
      · exact hkeep m hm hmn
      · exact hlast m (by omega) hm'

/-- Some inputs lead from `s` to `t` and give these outputs. -/
def Traces (step : σ → ι → σ × ο) (s : σ) (os : List ο) (t : σ) : Prop :=
  ∃ is, final step s is = t ∧ (history step s is).map Transition.output = os

namespace Traces

variable {step : σ → ι → σ × ο} {s t u : σ} {os os' : List ο}

theorem refl (step : σ → ι → σ × ο) (s : σ) : Traces step s [] s := ⟨[],rfl,rfl⟩

theorem single (step : σ → ι → σ × ο) (s : σ) (i : ι) :
    Traces step s [(step s i).2] (step s i).1 :=
  ⟨[i],rfl,rfl⟩

theorem trans (h : Traces step s os t) (h' : Traces step t os' u) :
    Traces step s (os++os') u := by
  obtain ⟨is,rfl,rfl⟩ := h
  obtain ⟨js,rfl,rfl⟩ := h'
  exact ⟨is++js,final_append step s is js,by rw [history_append,List.map_append]⟩

end Traces

section Product

variable {κ : Type*} [DecidableEq κ]

def product (step : κ → σ → ι → σ × ο) (s : κ → σ) (i : κ × ι) : (κ → σ) × ο :=
  (Function.update s i.1 (step i.1 (s i.1) i.2).1,(step i.1 (s i.1) i.2).2)

/-- A joint transition as the machine that moved sees it. -/
def own (x : Transition (κ → σ) (κ × ι) ο) : Transition σ ι ο :=
  ⟨x.before x.input.1,x.input.2,x.output,x.after x.input.1⟩

def component (k : κ) (x : Transition (κ → σ) (κ × ι) ο) : Option (Transition σ ι ο) :=
  if x.input.1 = k then some (own x) else none

def inputsOf (k : κ) (is : List (κ × ι)) : List ι :=
  is.filterMap (fun i => if i.1 = k then some i.2 else none)

theorem own_advance (step : κ → σ → ι → σ × ο) (s : κ → σ) (i : κ × ι) :
    own (advance (product step) s i) = advance (step i.1) (s i.1) i.2 := by
  simp [own,advance,product]

theorem component_advance (step : κ → σ → ι → σ × ο) (s : κ → σ) (k : κ) (i : ι) :
    component k (advance (product step) s (k,i)) = some (advance (step k) (s k) i) := by
  unfold component
  rw [own_advance]
  exact if_pos rfl

theorem product_frame (step : κ → σ → ι → σ × ο) (s : κ → σ) (k : κ) (i : κ × ι)
    (h : i.1 ≠ k) : (product step s i).1 k = s k := by
  simp [product,Function.update_of_ne h.symm]

theorem component_history (step : κ → σ → ι → σ × ο) (s : κ → σ) (k : κ)
    (is : List (κ × ι)) :
    (history (product step) s is).filterMap (component k) =
      history (step k) (s k) (inputsOf k is) ∧
    final (product step) s is k = final (step k) (s k) (inputsOf k is) := by
  induction is generalizing s with
  | nil => exact ⟨rfl,rfl⟩
  | cons i is ih =>
    obtain ⟨k',i⟩ := i
    obtain ⟨hh,hf⟩ := ih (product step s (k',i)).1
    by_cases hk : k' = k
    · subst hk
      have hu : (product step s (k',i)).1 k' = (step k' (s k') i).1 := by simp [product]
      rw [hu] at hh hf
      have hi : inputsOf k' ((k',i)::is) = i::inputsOf k' is := by simp [inputsOf]
      rw [hi]
      constructor
      · simp only [history,List.filterMap_cons,component_advance,hh]
      · exact hf
    · have hu := product_frame step s k (k',i) hk
      rw [hu] at hh hf
      have hi : inputsOf k ((k',i)::is) = inputsOf k is := by simp [inputsOf,hk]
      have hc : component k (advance (product step) s (k',i)) = none := by
        simp [component,advance,hk]
      rw [hi]
      constructor
      · simp only [history,List.filterMap_cons,hc,hh]
      · exact hf

theorem own_at {step : κ → σ → ι → σ × ο} {s : κ → σ} {is : List (κ × ι)} {n : ℕ}
    {x : Transition (κ → σ) (κ × ι) ο} (h : (history (product step) s is)[n]? = some x) :
    own x = advance (step x.input.1) (x.before x.input.1) x.input.2 := by
  rw [(history_at h).1]
  exact own_advance ..

theorem component_between {step : κ → σ → ι → σ × ο} {s : κ → σ} {is : List (κ × ι)} (k : κ)
    (Q : σ → Prop) {i m : ℕ} (him : i ≤ m) (hm : m ≤ is.length)
    (h0 : Q (final (product step) s (is.take i) k))
    (hs : ∀ n x, i ≤ n → n < m → (history (product step) s is)[n]? = some x → x.input.1 = k →
      Q (x.before k) → Q (x.after k)) : Q (final (product step) s (is.take m) k) := by
  induction him with
  | refl => exact h0
  | @step n hn ih =>
    have hq := ih (by omega) fun n' x h h' => hs n' x h (by omega)
    have hx : (history (product step) s is)[n]? =
        some (advance (product step) (final (product step) s (is.take n)) is[n]) := by
      rw [history_getElem?,List.getElem?_eq_getElem hm]
      rfl
    rw [← (history_at hx).2]
    by_cases hk : (is[n]).1 = k
    · exact hs n _ hn (Nat.lt_succ_self n) hx hk hq
    · show Q ((product step (final (product step) s (is.take n)) is[n]).1 k)
      rwa [product_frame _ _ k _ hk]

end Product

end Machine
