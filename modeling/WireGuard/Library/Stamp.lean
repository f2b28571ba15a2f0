import WireGuard.Library.Machine

/-!
# Clocks and stamps

A machine with a clock that never goes back may keep a stamp: the instant of
the latest transition of some kind. Over a history the stamp stays where it was
exactly as long as no later transition of that kind moves it.
-/

set_option autoImplicit false

namespace Machine

universe u v w x

variable {σ : Type u} {ι : Type v} {ο : Type w} {step : σ → ι → σ × ο} {s : σ} {is : List ι}

theorem history_concat (step : σ → ι → σ × ο) (s : σ) (is : List ι) (i : ι) :
    history step s (is++[i]) = history step s is++[advance step (final step s is) i] :=
  history_append step s is [i]

theorem final_concat (step : σ → ι → σ × ο) (s : σ) (is : List ι) (i : ι) :
    final step s (is++[i]) = (step (final step s is) i).1 :=
  final_append step s is [i]

theorem final_kept {β : Type x} (f : σ → β)
    (hf : ∀ x ∈ history step s is, f x.after = f x.before) : f (final step s is) = f s := by
  induction is using List.reverseRecOn with
  | nil => rfl
  | append_singleton is i ih =>
    rw [history_concat] at hf
    rw [final_concat]
    exact (hf (advance step (final step s is) i) (by simp)).trans
      (ih fun x hx => hf x (List.mem_append_left _ hx))

variable {τ : Type x} [PartialOrder τ] {clock : σ → τ}

theorem clock_final (hc : ∀ s i, clock s ≤ clock (step s i).1) (s : σ) (is : List ι) :
    clock s ≤ clock (final step s is) := by
  induction is using List.reverseRecOn with
  | nil => exact le_rfl
  | append_singleton is i ih =>
    rw [final_concat]
    exact ih.trans (hc _ i)

theorem clock_mem (hc : ∀ s i, clock s ≤ clock (step s i).1) {x : Transition σ ι ο}
    (hx : x ∈ history step s is) :
    clock s ≤ clock x.after ∧ clock x.after ≤ clock (final step s is) := by
  induction is using List.reverseRecOn with
  | nil => cases hx
  | append_singleton is i ih =>
    rw [history_concat] at hx
    rw [final_concat]
    rcases List.mem_append.mp hx with hx | hx
    · exact ⟨(ih hx).1,(ih hx).2.trans (hc _ i)⟩
    · rw [List.mem_singleton.mp hx]
      exact ⟨(clock_final hc s is).trans (hc _ i),le_rfl⟩

theorem stamp_latest (clock : σ → τ) (hc : ∀ s i, clock s ≤ clock (step s i).1)
    {stamp : σ → Option τ} {mark : Transition σ ι ο → Bool}
    (hs : ∀ x ∈ history step s is,
      stamp x.after = if mark x then some (clock x.after) else stamp x.before)
    (h0 : stamp s = some (clock s)) :
    ∃ latest, stamp (final step s is) = some latest ∧ clock s ≤ latest ∧
      (latest = clock s ↔ ∀ x ∈ history step s is, mark x = true → clock x.after = clock s) := by
  induction is using List.reverseRecOn with
  | nil => exact ⟨clock s,h0,le_rfl,⟨nofun,fun _ => rfl⟩⟩
  | append_singleton is i ih =>
    rw [history_concat] at hs ⊢
    rw [final_concat]
    obtain ⟨latest,hl,hle,hiff⟩ := ih fun x hx => hs x (List.mem_append_left _ hx)
    have hlast := hs (advance step (final step s is) i) (by simp)
    have hnow := (clock_final hc s is).trans (hc _ i)
    change stamp (step (final step s is) i).1 = _ at hlast
    cases hm : mark (advance step (final step s is) i) with
    | false =>
      rw [hm] at hlast
      refine ⟨latest,hlast.trans hl,hle,hiff.trans ⟨fun h x hx hx' => ?_,fun h x hx => ?_⟩⟩
      · rcases List.mem_append.mp hx with hx | hx
        · exact h x hx hx'
        · rw [List.mem_singleton.mp hx,hm] at hx'
          cases hx'
      · exact h x (List.mem_append_left _ hx)
    | true =>
      rw [hm] at hlast
      refine ⟨_,hlast,hnow,fun h x hx _ => ?_,fun h => h _ (by simp) hm⟩
      -- Every clock of the history lies between the start and the last mark.
      rcases List.mem_append.mp hx with hx | hx
      · have hb := clock_mem hc hx
        exact le_antisymm ((hb.2.trans (hc _ i)).trans h.le) hb.1
      · rw [List.mem_singleton.mp hx]
        exact h

end Machine
