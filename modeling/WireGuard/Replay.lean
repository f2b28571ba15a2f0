import WireGuard.Consts
import WireGuard.Library.Machine
import Mathlib.Data.Set.Insert
import Mathlib.Order.Bounds.Defs

/-!
# The anti-replay window

The bitmap holds one redundant word beyond the window. The abstract window is
the set of accepted counters; the ring bitmap is proved to answer every query
as that set does.
-/

set_option autoImplicit false

namespace WireGuard

def windowBits : ℕ := 8128
def words : ℕ := windowBits/64+1

abbrev Bitmap := Vector (BitVec 64) words

structure ReplayWindow where
  greatest : ℕ
  primed : Bool
  bitmap : Bitmap
  deriving DecidableEq

namespace ReplayWindow

def emptyBitmap : Bitmap := Vector.replicate words 0

def new : ReplayWindow := ⟨0,false,emptyBitmap⟩

theorem word_lt (w : ℕ) : w%words < words := Nat.mod_lt w (by decide)

def wordAt (b : Bitmap) (w : ℕ) : BitVec 64 :=
  have := word_lt w
  b[w%words]

def mask (counter : ℕ) : BitVec 64 := 1#64 <<< (counter%64)

def bit (b : Bitmap) (counter : ℕ) : Bool := (wordAt b (counter/64) &&& mask counter) != 0

def setWord (b : Bitmap) (w : ℕ) (v : BitVec 64) : Bitmap :=
  have := word_lt w
  b.set (w%words) v

def setBit (b : Bitmap) (counter : ℕ) : Bitmap :=
  setWord b (counter/64) (wordAt b (counter/64) ||| mask counter)

/-- The loop that clears the words between the old and the new top: it starts
at `w` and runs `n` times. -/
def clearWords (b : Bitmap) (w : ℕ) : ℕ → Bitmap
  | 0 => b
  | n+1 => clearWords (setWord b w 0) (w+1) n

def check (r : ReplayWindow) (counter : ℕ) : Bool :=
  if rejectAfterMessages ≤ counter then false
  else if !r.primed || r.greatest < counter then true
  else if windowBits ≤ r.greatest-counter then false
  else !bit r.bitmap counter

def accept (r : ReplayWindow) (counter : ℕ) : ReplayWindow × Bool :=
  if !r.check counter then (r,false)
  else if !r.primed then (⟨counter,true,setBit emptyBitmap counter⟩,true)
  else if r.greatest < counter then
    let bitmap :=
      if windowBits ≤ counter-r.greatest then emptyBitmap
      else clearWords r.bitmap (r.greatest/64+1) (counter/64-r.greatest/64)
    ({r with greatest := counter, bitmap := setBit bitmap counter},true)
  else ({r with bitmap := setBit r.bitmap counter},true)

theorem wordAt_setWord (b : Bitmap) (w v : ℕ) (x : BitVec 64) :
    wordAt (setWord b w x) v = if v%words = w%words then x else wordAt b v := by
  unfold wordAt setWord
  rw [Vector.getElem_set]
  simp only [eq_comm]

theorem wordAt_emptyBitmap (w : ℕ) : wordAt emptyBitmap w = 0 := by
  simp [wordAt,emptyBitmap]

theorem bit_iff (b : Bitmap) (c : ℕ) :
    bit b c = (wordAt b (c/64)).getLsbD (c%64) := by
  have hc : c%64 < 64 := Nat.mod_lt c (by decide)
  have hm : mask c = BitVec.twoPow 64 (c%64) := rfl
  have hz : BitVec.twoPow 64 (c%64) ≠ 0 := by
    intro h
    have h1 := congrArg (fun v => BitVec.getLsbD v (c%64)) h
    simp [hc] at h1
  unfold bit
  rw [hm,BitVec.and_twoPow]
  cases (wordAt b (c/64)).getLsbD (c%64) <;> simp_all

theorem bit_setBit (b : Bitmap) (c d : ℕ) :
    bit (setBit b c) d =
      (bit b d || decide ((d/64)%words = (c/64)%words ∧ d%64 = c%64)) := by
  have hd : d%64 < 64 := Nat.mod_lt d (by decide)
  have hm : mask c = BitVec.twoPow 64 (c%64) := rfl
  rw [bit_iff,bit_iff,setBit,wordAt_setWord]
  by_cases hw : (d/64)%words = (c/64)%words
  · have he : wordAt b (c/64) = wordAt b (d/64) := by simp [wordAt,hw]
    have hc : c%64 < 64 := Nat.mod_lt c (by decide)
    rw [if_pos hw,hm,BitVec.getLsbD_or,BitVec.getLsbD_twoPow,he]
    simp [hw,hc,eq_comm]
  · simp [hw]

theorem bit_emptyBitmap (c : ℕ) : bit emptyBitmap c = false := by
  rw [bit_iff,wordAt_emptyBitmap]
  simp

theorem wordAt_clearWords (b : Bitmap) (w n v : ℕ) :
    wordAt (clearWords b w n) v =
      if ∃ k < n, v%words = (w+k)%words then 0 else wordAt b v := by
  induction n generalizing b w with
  | zero => simp [clearWords]
  | succ n ih =>
    rw [clearWords,ih,wordAt_setWord]
    by_cases h0 : v%words = w%words
    · rw [if_pos h0,ite_self]
      exact (if_pos ⟨0,by omega,h0⟩).symm
    · rw [if_neg h0]
      apply if_congr _ rfl rfl
      constructor
      · rintro ⟨k,hk,he⟩
        exact ⟨k+1,by omega,by rw [he]; congr 1; omega⟩
      · rintro ⟨k,hk,he⟩
        cases k with
        | zero => exact absurd he h0
        | succ k => exact ⟨k,by omega,by rw [he]; congr 1; omega⟩

end ReplayWindow

/-- What the window is for, over the set of accepted counters: a counter is
admitted when it is in range, new, and not too far behind any accepted one. -/
def Admits (seen : Set ℕ) (c : ℕ) : Prop :=
  c < rejectAfterMessages ∧ c ∉ seen ∧ ∀ g ∈ seen, g < c+windowBits

namespace ReplayWindow

/-- The bitmap answers for the counters from the bottom of the window to the
top of the newest word, including those above `greatest` in that word. -/
structure Tracks (r : ReplayWindow) (seen : Set ℕ) : Prop where
  unprimed : r.primed = false → seen = ∅
  top : r.primed = true → r.greatest ∈ seen
  bound : ∀ c ∈ seen, c ≤ r.greatest
  bits : r.primed = true → ∀ c, c/64 ≤ r.greatest/64 → r.greatest < c+windowBits →
    (bit r.bitmap c = true ↔ c ∈ seen)

theorem tracks_new : Tracks new ∅ where
  unprimed := fun _ => rfl
  top := by simp [new]
  bound := by simp
  bits := by simp [new]

theorem slot_inj {c d g : ℕ} (hc : c/64 ≤ g/64) (hcw : g < c+windowBits)
    (hd : d/64 ≤ g/64) (hdw : g < d+windowBits)
    (hw : (d/64)%words = (c/64)%words) (hb : d%64 = c%64) : d = c := by
  have h1 : words = 128 := by decide
  have h2 : windowBits = 8128 := by decide
  rw [h1] at hw
  rw [h2] at hcw hdw
  omega

theorem bits_setBit {b : Bitmap} {seen : Set ℕ} {g c : ℕ}
    (hb : ∀ d, d/64 ≤ g/64 → g < d+windowBits → (bit b d = true ↔ d ∈ seen))
    (hc : c/64 ≤ g/64) (hcw : g < c+windowBits) (d : ℕ) (hd : d/64 ≤ g/64)
    (hdw : g < d+windowBits) : bit (setBit b c) d = true ↔ d ∈ insert c seen := by
  rw [bit_setBit,Bool.or_eq_true,decide_eq_true_eq,hb d hd hdw,Set.mem_insert_iff]
  constructor
  · rintro (h | ⟨hw,hk⟩)
    · exact Or.inr h
    · exact Or.inl (slot_inj hc hcw hd hdw hw hk)
  · rintro (rfl | h)
    · exact Or.inr ⟨rfl,rfl⟩
    · exact Or.inl h

theorem bits_clearWords {r : ReplayWindow} {seen : Set ℕ} (h : Tracks r seen)
    (hp : r.primed = true) {g : ℕ} (hg : r.greatest < g) (d : ℕ) (hd : d/64 ≤ g/64)
    (hdw : g < d+windowBits) :
    bit (clearWords r.bitmap (r.greatest/64+1) (g/64-r.greatest/64)) d = true ↔ d ∈ seen := by
  have h1 : words = 128 := by decide
  have h2 : windowBits = 8128 := by decide
  rw [bit_iff,wordAt_clearWords]
  by_cases hold : d/64 ≤ r.greatest/64
  · rw [if_neg,← bit_iff]
    · exact h.bits hp d hold (by omega)
    · rintro ⟨k,hk,he⟩
      rw [h1] at he
      rw [h2] at hdw
      omega
  · have hnot : d ∉ seen := fun hm => by
      have := h.bound d hm
      omega
    rw [if_pos ⟨d/64-(r.greatest/64+1),by omega,by congr 1; omega⟩]
    simp [hnot]

theorem bits_emptyBitmap {r : ReplayWindow} {seen : Set ℕ} (h : Tracks r seen) {g : ℕ}
    (hg : windowBits ≤ g-r.greatest) (d : ℕ) (hdw : g < d+windowBits) :
    bit emptyBitmap d = true ↔ d ∈ seen := by
  have h2 : windowBits = 8128 := by decide
  have hnot : d ∉ seen := fun hm => by
    have := h.bound d hm
    omega
  simp [bit_emptyBitmap,hnot]

theorem check_iff {r : ReplayWindow} {seen : Set ℕ} (h : Tracks r seen) (c : ℕ) :
    r.check c = true ↔ Admits seen c := by
  unfold check Admits
  by_cases hr : rejectAfterMessages ≤ c
  · simp [hr]
  rw [if_neg hr]
  cases hp : r.primed with
  | false =>
    rw [h.unprimed hp]
    simpa using hr
  | true =>
    by_cases hgt : r.greatest < c
    · have hnot : c ∉ seen := fun hm => by
        have := h.bound c hm
        omega
      simp only [Bool.not_true,Bool.false_or,decide_eq_true_eq,hgt,if_true,true_iff]
      exact ⟨by omega,hnot,fun g hm => by have := h.bound g hm; omega⟩
    · by_cases hold : windowBits ≤ r.greatest-c
      · simp only [Bool.not_true,Bool.false_or,decide_eq_true_eq,hgt,if_false,hold,if_true,
          Bool.false_eq_true,false_iff]
        rintro ⟨_,_,hw⟩
        have := hw _ (h.top hp)
        omega
      · have hb := h.bits hp c (by omega) (by omega)
        simp only [Bool.not_true,Bool.false_or,decide_eq_true_eq,hgt,if_false,hold,
          Bool.not_eq_true',← Bool.not_eq_true,hb]
        constructor
        · intro hn
          exact ⟨by omega,hn,fun g hm => by have := h.bound g hm; omega⟩
        · exact fun hn => hn.2.1

theorem accept_result (r : ReplayWindow) (c : ℕ) : (r.accept c).2 = r.check c := by
  unfold accept
  cases hc : r.check c with
  | false => rfl
  | true =>
    simp only [Bool.not_true,Bool.false_eq_true,if_false]
    split
    · rfl
    · split <;> rfl

theorem tracks_accept {r : ReplayWindow} {seen : Set ℕ} (h : Tracks r seen) {c : ℕ}
    (hc : r.check c = true) : Tracks (r.accept c).1 (insert c seen) := by
  obtain ⟨_,_,hwin⟩ := (check_iff h c).mp hc
  unfold accept
  rw [hc]
  simp only [Bool.not_true,Bool.false_eq_true,if_false]
  cases hp : r.primed with
  | false =>
    rw [h.unprimed hp]
    refine ⟨by simp,by simp,by simp,fun _ d hd hdw => ?_⟩
    exact bits_setBit (by simp [bit_emptyBitmap]) (le_refl _) (by simp [windowBits]) d hd hdw
  | true =>
    simp only [Bool.not_true,Bool.false_eq_true,if_false]
    split
    · rename_i hgt
      refine ⟨by simp,by simp,?_,fun _ d hd hdw => ?_⟩
      · rintro d (rfl | hd)
        · exact le_refl _
        · have := h.bound d hd
          dsimp only
          omega
      · apply bits_setBit _ (le_refl _) (by simp [windowBits]) d hd hdw
        intro d hd hdw
        split
        · exact bits_emptyBitmap h (by assumption) d hdw
        · exact bits_clearWords h hp hgt d hd hdw
    · rename_i hle
      have hg := hwin _ (h.top hp)
      refine ⟨by simp,fun _ => Or.inr (h.top hp),?_,fun _ d hd hdw => ?_⟩
      · rintro d (rfl | hd)
        · dsimp only
          omega
        · exact h.bound d hd
      · exact bits_setBit (h.bits hp) (by omega) hg d hd hdw

theorem accept_rejected {r : ReplayWindow} {c : ℕ} (h : (r.accept c).2 = false) :
    (r.accept c).1 = r := by
  rw [accept_result] at h
  unfold accept
  rw [h]
  rfl

/-- The counters that a sequence of calls of `accept` on a new window has let in. -/
def acceptedOf (cs : List ℕ) : Set ℕ :=
  {c | ∃ x ∈ Machine.history accept new cs, x.input = c ∧ x.output = true}

theorem acceptedOf_concat (cs : List ℕ) (c : ℕ) :
    acceptedOf (cs++[c]) = if (Machine.final accept new cs).check c then insert c (acceptedOf cs)
      else acceptedOf cs := by
  have hh : Machine.history accept new (cs++[c]) = Machine.history accept new cs++
      [Machine.advance accept (Machine.final accept new cs) c] := Machine.history_append ..
  have ho : (Machine.advance accept (Machine.final accept new cs) c).output =
      (Machine.final accept new cs).check c := accept_result _ c
  ext d
  simp only [acceptedOf,hh,List.mem_append,List.mem_singleton,or_and_right,exists_or,exists_eq_left,
    ho,Set.mem_ofPred_eq]
  cases hc : (Machine.final accept new cs).check c with
  | false => simp
  | true =>
    simp only [if_true,Set.mem_insert_iff,Set.mem_ofPred_eq,and_true]
    exact or_comm.trans (or_congr_left eq_comm)

theorem tracks_run (cs : List ℕ) : Tracks (Machine.final accept new cs) (acceptedOf cs) := by
  induction cs using List.reverseRecOn with
  | nil =>
    have h0 : acceptedOf [] = ∅ := by simp [acceptedOf,Machine.history]
    rw [h0]
    exact tracks_new
  | append_singleton cs c ih =>
    have hf : Machine.final accept new (cs++[c]) =
        ((Machine.final accept new cs).accept c).1 := Machine.final_append ..
    rw [hf,acceptedOf_concat]
    split
    · rename_i hc
      exact tracks_accept ih hc
    · rename_i hc
      rw [accept_rejected (by rw [accept_result]; simpa using hc)]
      exact ih

/-- The window in terms of its greatest member. -/
theorem admits_iff {r : ReplayWindow} {seen : Set ℕ} (h : Tracks r seen) (c : ℕ) :
    Admits seen c ↔ c < rejectAfterMessages ∧ c ∉ seen ∧
      (seen = ∅ ∨ ∃ g, IsGreatest seen g ∧ (g < c ∨ g-c < windowBits)) := by
  have h2 : windowBits = 8128 := by decide
  refine and_congr_right fun _ => and_congr_right fun _ => ?_
  cases hp : r.primed with
  | false => simp [h.unprimed hp]
  | true =>
    have hg : IsGreatest seen r.greatest := ⟨h.top hp,h.bound⟩
    constructor
    · intro hw
      have := hw _ hg.1
      exact Or.inr ⟨_,hg,by omega⟩
    · rintro (he | ⟨g,hg',hc⟩) d hd
      · simp [he] at hd
      · have := hg'.2 hd
        omega

/-- The ring bitmap answers every query, after any sequence of calls, as the set
of accepted counters does, and a refused counter leaves no trace. -/
theorem window_refines_set (cs : List ℕ) (c : ℕ) :
    let w : ReplayWindow := Machine.final accept new cs
    let seen := acceptedOf cs
    let admitted := c < rejectAfterMessages ∧ c ∉ seen ∧
      (seen = ∅ ∨ ∃ g, IsGreatest seen g ∧ (g < c ∨ g-c < windowBits))
    (w.check c = true ↔ admitted) ∧ ((w.accept c).2 = true ↔ admitted) ∧
      ((w.accept c).2 = false → (w.accept c).1 = w) := by
  intro w seen admitted
  have hc : w.check c = true ↔ admitted :=
    (check_iff (tracks_run cs) c).trans (admits_iff (tracks_run cs) c)
  refine ⟨hc,?_,accept_rejected⟩
  rw [accept_result]
  exact hc

end ReplayWindow

end WireGuard
