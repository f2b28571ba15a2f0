import WireGuard.Library.Machine

/-!
# Guarded actions and refinement by paths

A guarded system has small actions, each with the condition under which it may
be taken and the events it leaves behind. A machine refines it when every step
of the machine is a path of enabled actions with the same events. Invariants
of events and states are then proved one action at a time and hold of every
run of the machine.
-/

set_option autoImplicit false

universe u v w x y

structure Guarded (σ : Type u) (α : Type v) (ε : Type w) where
  enabled : σ → α → Prop
  apply : σ → α → σ
  events : σ → α → List ε

namespace Guarded

variable {σ : Type u} {α : Type v} {ε : Type w} {ι : Type x} {ο : Type y}

inductive Path (G : Guarded σ α ε) : σ → List ε → σ → Prop
  | refl (s : σ) : Path G s [] s
  | act {s t : σ} {es : List ε} (a : α) (ha : G.enabled s a) (hp : Path G (G.apply s a) es t) :
      Path G s (G.events s a++es) t

theorem Path.single {G : Guarded σ α ε} {s : σ} (a : α) (ha : G.enabled s a) :
    Path G s (G.events s a) (G.apply s a) := by
  simpa using Path.act a ha (Path.refl _)

theorem Path.trans {G : Guarded σ α ε} {s t u : σ} {es fs : List ε} (h : Path G s es t)
    (h' : Path G t fs u) : Path G s (es++fs) u := by
  induction h with
  | refl s => exact h'
  | act a ha _ ih =>
    rw [List.append_assoc]
    exact .act a ha (ih h')

theorem Path.silent {G : Guarded σ α ε} {s t : σ} {es : List ε} (a : α) (ha : G.enabled s a)
    (he : G.events s a = []) (hp : Path G (G.apply s a) es t) : Path G s es t := by
  simpa [he] using Path.act a ha hp

theorem Path.invariant {G : Guarded σ α ε} (Inv : List ε → σ → Prop)
    (hs : ∀ es s a, Inv es s → G.enabled s a → Inv (es++G.events s a) (G.apply s a))
    {s t : σ} {fs : List ε} (h : Path G s fs t) (es : List ε) (h0 : Inv es s) :
    Inv (es++fs) t := by
  induction h generalizing es with
  | refl s => simpa using h0
  | act a ha _ ih =>
    rw [← List.append_assoc]
    exact ih _ (hs es _ a h0 ha)

/-- `step` refines the guarded system, `observe` reading the events off a step. -/
def Refines (G : Guarded σ α ε) (step : σ → ι → σ × ο)
    (observe : Machine.Transition σ ι ο → List ε) : Prop :=
  ∀ s i, Path G s (observe (Machine.advance step s i)) (step s i).1

theorem Refines.history_invariant {G : Guarded σ α ε} {step : σ → ι → σ × ο}
    {observe : Machine.Transition σ ι ο → List ε} (hr : Refines G step observe)
    (Inv : List ε → σ → Prop)
    (hs : ∀ es s a, Inv es s → G.enabled s a → Inv (es++G.events s a) (G.apply s a))
    {s : σ} (h0 : Inv [] s) (is : List ι) :
    Inv ((Machine.history step s is).flatMap observe) (Machine.final step s is) := by
  refine Machine.history_invariant step s (fun h t => Inv (h.flatMap observe) t) h0 ?_ is
  intro h t i hi
  rw [List.flatMap_append,List.flatMap_singleton]
  exact (hr t i).invariant Inv hs _ hi

theorem Refines.step_invariant {G : Guarded σ α ε} {step : σ → ι → σ × ο}
    {observe : Machine.Transition σ ι ο → List ε} (hr : Refines G step observe)
    (Inv : σ → Prop) (hs : ∀ s a, Inv s → G.enabled s a → Inv (G.apply s a))
    {s : σ} (h : Inv s) (i : ι) : Inv (step s i).1 :=
  (hr s i).invariant (fun _ t => Inv t) (fun _ s a h ha => hs s a h ha) [] h

theorem Refines.reachable_invariant {G : Guarded σ α ε} {step : σ → ι → σ × ο}
    {observe : Machine.Transition σ ι ο → List ε} (hr : Refines G step observe)
    (Inv : σ → Prop) (hs : ∀ s a, Inv s → G.enabled s a → Inv (G.apply s a))
    {s t : σ} (h0 : Inv s) (ht : Machine.Reachable step s t) : Inv t :=
  Machine.reachable_invariant step s Inv h0 (fun _ i h => hr.step_invariant Inv hs h i) ht

end Guarded
