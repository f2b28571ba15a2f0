import WireGuard.Calls
import WireGuard.Deeds
import WireGuard.KeyUse

/-!
# Two peers and the network between them

Two tunnels configured for one another run in any interleaving, and every
datagram they are handed is the network's choice. What is assumed of the
cryptography is only assumed of the calls that the run makes.
-/

set_option autoImplicit false

namespace WireGuard
open ByteString Tunnel

inductive Side where
  | a
  | b
  deriving DecidableEq

def Side.other : Side → Side
  | a => b
  | b => a

@[simp] theorem Side.other_other (k : Side) : k.other.other = k := by cases k <;> rfl

instance {q : Side → Prop} [DecidablePred q] : Decidable (∀ k, q k) :=
  decidable_of_iff (q .a ∧ q .b) ⟨fun h k => by cases k; exacts [h.1,h.2],fun h => ⟨h .a,h .b⟩⟩

theorem Side.eq_or_other (k k' : Side) : k' = k ∨ k' = k.other := by
  cases k <;> cases k' <;> simp [other]

abbrev Joint (P : Primitives) := Machine.Transition (Side → Tunnel P) (Side × Op) Output

/-- Two tunnels whose static keys are crossed, each with a backend that computes
the keystream it is documented to compute. -/
structure Peers (P : Primitives) where
  backend : Side → ChaChaImpl
  meets : ∀ k, (backend k).Meets P
  config : Side → Config
  tunnel : Side → Tunnel P
  built : ∀ k, withBackend P (config k) = .ok (tunnel k)
  crossed : ∀ k, (config k).peerPublic = x25519Base P (config k.other).localStatic

variable {P : Primitives}

def sideEvents (k : Side) (h : List (Joint P)) : List Event :=
  (h.filterMap (Machine.component k)).flatMap eventsOf

theorem mem_sideEvents {k : Side} {h : List (Joint P)} {e : Event} :
    e ∈ sideEvents k h ↔ ∃ x ∈ h, x.input.1 = k ∧ e ∈ eventsOf (Machine.own x) := by
  simp only [sideEvents,List.mem_flatMap,List.mem_filterMap,Machine.component,
    Option.ite_none_right_eq_some,Option.some.injEq]
  constructor
  · rintro ⟨_,⟨x,hx,hk,rfl⟩,he⟩
    exact ⟨x,hx,hk,he⟩
  · rintro ⟨x,hx,hk,he⟩
    exact ⟨_,⟨x,hx,hk,rfl⟩,he⟩

theorem sideEvents_concat {h : List (Joint P)} {x : Joint P} :
    sideEvents x.input.1 (h++[x]) = sideEvents x.input.1 h++eventsOf (Machine.own x) := by
  simp [sideEvents,Machine.component]

namespace Peers

variable (p : Peers P) {ops : List (Side × Op)} {n : ℕ} {x : Joint P}

def step (k : Side) : Tunnel P → Op → Tunnel P × Output := WireGuard.step (p.backend k)

def run (ops : List (Side × Op)) : List (Joint P) :=
  Machine.history (Machine.product p.step) p.tunnel ops

def final (ops : List (Side × Op)) : Side → Tunnel P :=
  Machine.final (Machine.product p.step) p.tunnel ops

theorem peerPublic_eq (k : Side) : (p.tunnel k).peerPublic = (p.tunnel k.other).localPublic := by
  rw [(withBackend_ok (p.built k)).2.peerPublic,p.crossed,(p.tunnel k.other).localPublic_eq,
    (withBackend_ok (p.built k.other)).2.localStatic]

/-- Each end of a joint run is a run of its own. -/
theorem side_run (ops : List (Side × Op)) (k : Side) :
    sideEvents k (p.run ops) =
      events (p.backend k) (p.tunnel k) (Machine.inputsOf k ops) ∧
    p.final ops k =
      Machine.final (WireGuard.step (p.backend k)) (p.tunnel k) (Machine.inputsOf k ops) := by
  obtain ⟨hh,hf⟩ := Machine.component_history p.step p.tunnel k ops
  exact ⟨congrArg (List.flatMap eventsOf) hh,hf⟩

theorem final_identity (ops : List (Side × Op)) (k : Side) :
    (p.final ops k).toIdentity = (p.tunnel k).toIdentity := by
  exact reachable_identity ⟨Machine.inputsOf k ops,(p.side_run ops k).2⟩

theorem ledger_final (ops : List (Side × Op)) (k : Side) :
    Ledger (sideEvents k (p.run ops)) (p.final ops k) := by
  obtain ⟨he,hf⟩ := p.side_run ops k
  rw [he,hf]
  exact ledger_run (p.backend k) (p.built k) _

theorem ratchets_final (ops : List (Side × Op)) (k : Side) :
    Ratchets (sideEvents k (p.run ops)) (p.final ops k) := by
  obtain ⟨he,hf⟩ := p.side_run ops k
  rw [he,hf]
  exact ratchets_run (p.backend k) (p.built k) _

theorem at_index (h : (p.run ops)[n]? = some x) :
    x.before = p.final (ops.take n) ∧ x.after = p.final (ops.take (n+1)) ∧
      (p.run ops).take n = p.run (ops.take n) ∧
      Machine.own x = Machine.advance (p.step x.input.1) (x.before x.input.1) x.input.2 := by
  obtain ⟨hx,ha⟩ := Machine.history_at h
  exact ⟨by rw [hx]; rfl,ha,Machine.history_take ..,Machine.own_at h⟩

theorem step_at {k : Side} (h : (p.run ops)[n]? = some x) (hk : x.input.1 = k) :
    x.output = (WireGuard.step (p.backend k) (x.before k) x.input.2).2 ∧
      x.after k = (WireGuard.step (p.backend k) (x.before k) x.input.2).1 := by
  subst hk
  have hown := (p.at_index h).2.2.2
  exact ⟨congrArg Machine.Transition.output hown,congrArg Machine.Transition.after hown⟩

theorem other_at (h : (p.run ops)[n]? = some x) :
    x.after x.input.1.other = x.before x.input.1.other := by
  have hne : x.input.1 ≠ x.input.1.other := by cases x.input.1 <;> nofun
  have hx := (Machine.history_at h).1
  have ha : x.after = (Machine.product p.step x.before x.input).1 := by
    rw [hx]
    rfl
  rw [ha]
  exact Machine.product_frame _ _ _ _ hne

theorem take_succ (h : (p.run ops)[n]? = some x) :
    (p.run ops).take (n+1) = (p.run ops).take n++[x] := by
  rw [List.take_add_one,h]
  rfl

theorem deed_at {k : Side} (h : (p.run ops)[n]? = some x) (hk : x.input.1 = k) :
    Deed (p.backend k) (x.before k) x.input.2 x.output (x.after k) := by
  obtain ⟨ho,ha⟩ := p.step_at h hk
  rw [ho,ha]
  exact step_deed _ _ _

theorem kept_between {k : Side} (Q : Tunnel P → Prop) {i : ℕ} {y : Joint P}
    (hy : (p.run ops)[i]? = some y) (hx : (p.run ops)[n]? = some x) (hin : i < n)
    (hQ : Q (y.after k))
    (hs : ∀ n' v, i < n' → n' < n → (p.run ops)[n']? = some v → v.input.1 = k →
      Q (v.before k) → Q (v.after k)) : Q (x.before k) := by
  have hn : n ≤ ops.length := by
    have hlt := (List.getElem?_eq_some_iff.mp hx).1
    rw [run,Machine.history_length] at hlt
    exact hlt.le
  rw [(p.at_index hx).1]
  rw [(p.at_index hy).2.1] at hQ
  exact Machine.component_between k Q hin hn hQ fun n' v h h' => hs n' v h h'

theorem before_identity (h : (p.run ops)[n]? = some x) (k : Side) :
    (x.before k).toIdentity = (p.tunnel k).toIdentity := by
  rw [(p.at_index h).1]
  exact p.final_identity _ k

theorem ledger_at (h : (p.run ops)[n]? = some x) (k : Side) :
    Ledger (sideEvents k ((p.run ops).take n)) (x.before k) := by
  obtain ⟨hb,_,ht,_⟩ := p.at_index h
  rw [hb,ht]
  exact p.ledger_final _ k

theorem judged_at {J : List Event → Event → Prop}
    (hJ : ∀ ops, Chronicle J (sideEvents x.input.1 (p.run ops)))
    (h : (p.run ops)[n]? = some x) {e : Event} (he : eventsOf (Machine.own x) = [e]) :
    J (sideEvents x.input.1 ((p.run ops).take n)) e := by
  have ht : p.run (ops.take (n+1)) = (p.run ops).take n++[x] := by
    rw [← p.take_succ h]
    exact (Machine.history_take ..).symm
  refine hJ (ops.take (n+1)) _ e [] ?_
  rw [ht,← he]
  exact sideEvents_concat

end Peers

/-- The datagram that a call returned, of whatever kind. -/
def Output.wire? : Output → Option (List UInt8)
  | .encapsulated (.ok (.transport wire)) => some wire
  | .encapsulated (.ok (.handshakeInitiation wire)) => some wire
  | .decapsulated (.ok (.reply wire)) => some wire
  | .polled (.ok (.send wire _)) => some wire
  | .initiated (.ok wire) => some wire
  | _ => Option.none

def specimenPeers : Peers mixing where
  backend _ := scalar mixing
  meets _ := scalar_meets mixing
  config
    | .a => specimenConfig 1 2 none
    | .b => specimenConfig 2 1 none
  tunnel
    | .a => build mixing (specimenConfig 1 2 none) (by decide +kernel)
    | .b => build mixing (specimenConfig 2 1 none) (by decide +kernel)
  built
    | .a => withBackend_build (by decide +kernel)
    | .b => withBackend_build (by decide +kernel)
  crossed
    | .a => rfl
    | .b => rfl

def specimenRelay (ops : List (Side × Op)) (k : Side) (rng : Entropy) : List (Side × Op) :=
  let wire := ((specimenPeers.run ops).getLast?.bind (fun x => x.output.wire?)).getD []
  ops++[(k,.decapsulate ⟨Ticks.zero,0,0⟩ [] false wire (List.replicate 148 0) rng)]

def specimenHandshake : List (Side × Op) :=
  let rng (n : ℕ) : Entropy := List.replicate 2 (some (fun i => UInt8.ofNat (n+i)))
  let initiated := [(.a,.initiateHandshake ⟨Ticks.zero,0,0⟩ (List.replicate 148 0) (rng 3))]
  specimenRelay (specimenRelay initiated .b (rng 5)) .a []

def specimenExchange : List (Side × Op) :=
  let sent := specimenHandshake++
    [(.a,.encapsulate ⟨Ticks.zero,0,0⟩ specimenPayload (List.replicate 148 0) [])]
  specimenRelay sent .b []

end WireGuard
