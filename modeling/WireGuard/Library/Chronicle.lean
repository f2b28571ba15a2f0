import Mathlib.Data.List.Induction
import Mathlib.Data.Set.Function
import Mathlib.Tactic.Choose

/-!
# Chronicles

A list of events is a chronicle of a judgement when every entry is justified by
the entries before it. Chronicles grow at the end, and a judgement that compares
an entry with all earlier ones makes the list pairwise related. Where each entry
rests on another one and no two on the same, there is an injective map between
them.
-/

set_option autoImplicit false

universe u

variable {ε : Type u}

theorem mem_take_iff {l : List ε} {n : ℕ} {e : ε} :
    e ∈ l.take n ↔ ∃ j, j < n ∧ l[j]? = some e := by
  rw [List.mem_take_iff_getElem]
  constructor
  · rintro ⟨j,hj,rfl⟩
    exact ⟨j,by omega,List.getElem?_eq_getElem _⟩
  · rintro ⟨j,hn,hj⟩
    obtain ⟨hl,rfl⟩ := List.getElem?_eq_some_iff.mp hj
    exact ⟨j,by omega,rfl⟩

def Chronicle (J : List ε → ε → Prop) (es : List ε) : Prop :=
  ∀ before e after, es = before++e::after → J before e

namespace Chronicle

variable {J : List ε → ε → Prop} {es : List ε}

theorem nil : Chronicle J [] := by
  intro before e after h
  simp at h

theorem concat {e : ε} (h : Chronicle J es) (he : J es e) : Chronicle J (es++[e]) := by
  intro before d after hd
  rcases List.eq_nil_or_concat after with rfl | ⟨after,a,rfl⟩
  · obtain ⟨rfl,hde⟩ := List.append_inj' hd rfl
    obtain rfl := List.head_eq_of_cons_eq hde
    exact he
  · have hc : es++[e] = (before++d::after)++[a] := by simpa using hd
    exact h before d after (List.append_inj' hc rfl).1

theorem pairwise {R : ε → ε → Prop} (hR : ∀ before e, J before e → ∀ d ∈ before, R d e)
    (h : Chronicle J es) : es.Pairwise R := by
  induction es using List.reverseRecOn with
  | nil => exact List.Pairwise.nil
  | append_singleton es e ih =>
    rw [List.pairwise_append]
    refine ⟨ih ?_,List.pairwise_singleton R e,fun d hd e' he' => ?_⟩
    · intro before d after hd
      exact h before d (after++[e]) (by simp [hd])
    · obtain rfl := List.mem_singleton.mp he'
      exact hR es e' (h es e' [] rfl) d hd

theorem iff_getElem? :
    Chronicle J es ↔ ∀ (n : ℕ) e, es[n]? = some e → J (es.take n) e := by
  constructor
  · intro h n e he
    obtain ⟨hn,rfl⟩ := List.getElem?_eq_some_iff.mp he
    exact h (es.take n) es[n] (es.drop (n+1))
      (by rw [← List.drop_eq_getElem_cons hn,List.take_append_drop])
  · intro h before e after hes
    have he := h before.length e (by simp [hes])
    rwa [hes,List.take_left] at he

instance [∀ before e, Decidable (J before e)] : Decidable (Chronicle J es) :=
  decidable_of_iff (∀ n : Fin es.length, J (es.take n) (es.get n)) <| by
    rw [iff_getElem?]
    constructor
    · intro h n e he
      obtain ⟨hn,rfl⟩ := List.getElem?_eq_some_iff.mp he
      exact h ⟨n,hn⟩
    · intro h n
      exact h n _ (List.getElem?_eq_getElem n.isLt)

end Chronicle

theorem exists_injOn {S : Set ℕ} {R : ℕ → ℕ → Prop} (hR : ∀ i ∈ S, ∃ j, R i j)
    (honce : ∀ i i' j, i < i' → R i j → R i' j → False) :
    ∃ f : ℕ → ℕ, Set.InjOn f S ∧ ∀ i ∈ S, R i (f i) := by
  choose! f hf using hR
  refine ⟨f,fun i hi i' hi' he => ?_,hf⟩
  have h := hf i hi
  have h' := hf i' hi'
  rw [he] at h
  rcases Nat.lt_trichotomy i i' with hlt | heq | hlt
  · exact (honce i i' _ hlt h h').elim
  · exact heq
  · exact (honce i' i _ hlt h' h).elim
