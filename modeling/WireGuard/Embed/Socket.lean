import WireGuard.Embed.Conversation
import WireGuard.Embed.Driver
import WireGuard.Embed.Endpoint
import WireGuard.KeyUse

/-!
# What goes over the socket

The loop is a run of its core, so what is known of the core's calls holds of the
datagrams on the wire. No two of them were sealed by one session under one counter.
-/

set_option autoImplicit false

namespace WireGuard
open ByteString Tunnel

variable {P : Primitives}

def isTransport (wire : List UInt8) : Bool :=
  match parse wire with
  | .ok (.transportData _) => true
  | _ => false

theorem isTransport_of_initiation {C : ChaChaImpl} {t : Tunnel P} {op : Op} {wire : List UInt8}
    (h : (step C t op).2.initiation? = some wire) : isTransport wire = false := by
  obtain ⟨u,now,index,eph,jitter,hi⟩ := step_initiation C t op wire h
  obtain ⟨mac2,hp⟩ := parse_initiation_withMacs u u.lastNow (u.initiationView now eph) index
  rw [← hi.wire] at hp
  simp only [isTransport,hp]

theorem isTransport_of_transport {C : ChaChaImpl} {t : Tunnel P} {op : Op} {wire : List UInt8}
    (h : (step C t op).2.transport? = some wire) : isTransport wire = true := by
  obtain ⟨s,plain,hs,-⟩ := step_transport C t op wire h
  have hp := parse_transportWire (P := P) C s plain (sendCounter_le_max hs.counter)
  rw [← hs.wire] at hp
  simp only [isTransport,hp]

theorem isTransport_of_reply {C : ChaChaImpl} {t : Tunnel P} {op : Op} {wire : List UInt8}
    (h : (step C t op).2 = .decapsulated (.ok (.reply wire))) : isTransport wire = false := by
  cases op with
  | decapsulate now remote underLoad datagram out rng =>
    rcases decapsulate_reply (Output.decapsulated.inj h) with ⟨r,hr⟩ | ⟨c,hc⟩
    · simp only [isTransport,hr]
    · simp only [isTransport,hc]
  | _ => cases h

theorem output_wire_cases (o : Output) : (o.wire? = none ∧ o.transport? = none) ∨
    ∃ wire, o.wire? = some wire ∧ (o.transport? = some wire ∨
      o.transport? = none ∧
        (o.initiation? = some wire ∨ o = .decapsulated (.ok (.reply wire)))) := by
  match o with
  | .encapsulated (.ok (.transport wire)) => exact .inr ⟨wire,rfl,.inl rfl⟩
  | .encapsulated (.ok (.handshakeInitiation wire)) => exact .inr ⟨wire,rfl,.inr ⟨rfl,.inl rfl⟩⟩
  | .encapsulated (.error _) => exact .inl ⟨rfl,rfl⟩
  | .decapsulated (.ok (.reply wire)) => exact .inr ⟨wire,rfl,.inr ⟨rfl,.inr rfl⟩⟩
  | .decapsulated (.ok (.data _)) => exact .inl ⟨rfl,rfl⟩
  | .decapsulated (.ok .keepalive) => exact .inl ⟨rfl,rfl⟩
  | .decapsulated (.ok .handshakeComplete) => exact .inl ⟨rfl,rfl⟩
  | .decapsulated (.ok .cookieStored) => exact .inl ⟨rfl,rfl⟩
  | .decapsulated (.error _) => exact .inl ⟨rfl,rfl⟩
  | .polled (.ok (.send wire .handshakeInitiation)) =>
    exact .inr ⟨wire,rfl,.inr ⟨rfl,.inl rfl⟩⟩
  | .polled (.ok (.send wire .handshakeRetransmit)) =>
    exact .inr ⟨wire,rfl,.inr ⟨rfl,.inl rfl⟩⟩
  | .polled (.ok (.send wire .keepalive)) => exact .inr ⟨wire,rfl,.inl rfl⟩
  | .polled (.ok (.send wire .persistentKeepalive)) => exact .inr ⟨wire,rfl,.inl rfl⟩
  | .polled (.ok .handshakeExpired) => exact .inl ⟨rfl,rfl⟩
  | .polled (.ok .sessionsExpired) => exact .inl ⟨rfl,rfl⟩
  | .polled (.ok .idle) => exact .inl ⟨rfl,rfl⟩
  | .polled (.error _) => exact .inl ⟨rfl,rfl⟩
  | .initiated (.ok wire) => exact .inr ⟨wire,rfl,.inr ⟨rfl,.inl rfl⟩⟩
  | .initiated (.error _) => exact .inl ⟨rfl,rfl⟩
  | .none => exact .inl ⟨rfl,rfl⟩

theorem wires_filter (C : ChaChaImpl) (t : Tunnel P) (op : Op) :
    (step C t op).2.wires.filter isTransport = (step C t op).2.transport?.toList := by
  unfold Output.wires
  rcases output_wire_cases (step C t op).2 with ⟨hw,ht⟩ | ⟨wire,hw,ht | ⟨ht,hi | hr⟩⟩
  · rw [hw,ht]
    rfl
  · rw [hw,ht]
    simp [isTransport_of_transport ht]
  · rw [hw,ht]
    simp [isTransport_of_initiation hi]
  · rw [hw,ht]
    simp [isTransport_of_reply hr]

theorem run_wires_filter (C : ChaChaImpl) (t : Tunnel P) (ops : List Op) :
    ((run C t ops).flatMap (fun x => x.output.wires)).filter isTransport =
      (run C t ops).filterMap (fun x => x.output.transport?) := by
  rw [List.filter_flatMap,List.filterMap_eq_flatMap_toList]
  refine List.flatMap_congr fun x hx => ?_
  obtain ⟨u,op,_,rfl⟩ := Machine.mem_history _ _ _ _ hx
  exact wires_filter C u op

theorem forall₂_sublist {α β : Type} {R : α → β → Prop} {l l' : List α} {m : List β}
    (h : List.Forall₂ R l m) (hs : l'.Sublist l) : ∃ m', m'.Sublist m ∧ List.Forall₂ R l' m' := by
  induction hs generalizing m with
  | slnil => exact ⟨m,List.Sublist.refl _,h⟩
  | cons a _ ih =>
    cases h with
    | cons _ ht =>
      obtain ⟨m',hm,hf⟩ := ih ht
      exact ⟨m',hm.cons _,hf⟩
  | cons_cons a _ ih =>
    cases h with
    | cons hr ht =>
      obtain ⟨m',hm,hf⟩ := ih ht
      exact ⟨_::m',hm.cons_cons _,hf.cons hr⟩

theorem Tunn.withPool_inner {config : Config} {limiter : Option RateLimiter} {pool : SlabPool}
    {u : Tunn P} (h : Tunn.withPool P config limiter pool = .ok u) :
    withBackend P config = .ok u.inner := by
  unfold Tunn.withPool at h
  split at h
  · cases h
  · rename_i inner hi
    obtain rfl := Except.ok.inj h
    exact hi

/-- On the socket of a loop, whatever arms it takes, each transport datagram was sealed
by a session of the core, and those of one session carry increasing counters: no session
uses a counter twice. -/
theorem AsyncTunn.socket_nonces_unique (C : ChaChaImpl) {config : Config}
    {limiter : Option RateLimiter} {pool : SlabPool} {u : Tunn P}
    (hu : Tunn.withPool P config limiter pool = .ok u) (peer : Option SocketAddr)
    (arms : List Arm) :
    ∃ ops labels,
      Machine.final (WireGuard.step C) u.inner ops =
        (Machine.final (step C) (new u peer) arms).tunn.inner ∧
      ((events C u.inner ops).filterMap Event.createdTag?).Nodup ∧
      List.Forall₂ (SealedBy P C (events C u.inner ops))
        ((((new u peer).sentBy C arms).map Prod.fst).filter isTransport) labels ∧
      labels.Pairwise (fun a b => a.1 = b.1 → a.2 < b.2) := by
  have ht := Tunn.withPool_inner hu
  obtain ⟨_,⟨_,⟨ops,hf,rfl⟩,rfl,_⟩,hr⟩ := run_yields C (new u peer) arms
  have hc := (ledger_run C ht ops).chronicle
  have hsub := hr.lossy.filter isTransport
  rw [List.flatMap_map] at hsub
  rw [show Machine.history (WireGuard.step C) (new u peer).tunn.inner ops =
    run C u.inner ops from rfl,run_wires_filter] at hsub
  obtain ⟨labels,hl,hs⟩ := forall₂_sublist (run_sealed C ht ops) hsub
  exact ⟨ops,labels,hf,createdTags_nodup hc,hs,(sentPairs_increase hc).sublist hl⟩

/-- A packet waits, the peer answers, and a confirmation and the packet leave. -/
def specimenArms : List Arm :=
  let now : Now := ⟨Ticks.zero,0,0⟩
  let buffer : List UInt8 := List.replicate 256 0
  let rng : Entropy := List.replicate 2 (some (fun _ => 0))
  [.outbound specimenPayload buffer now rng,
    .inbound ⟨specimenHome,2::List.replicate 91 0,buffer,now,now,rng,fun _ => specimenAsk⟩]

theorem AsyncTunn.socket_nonces_unique_specimen :
    let sent := ((AsyncTunn.sentBy (scalar specimen) (new specimenTunn (some specimenHome))
      specimenArms).map Prod.fst).filter isTransport
    sent.length = 2 ∧ ∃ es labels,
      List.Forall₂ (SealedBy specimen (scalar specimen) es) sent labels ∧
      labels.Pairwise (fun a b => a.1 = b.1 → a.2 < b.2) := by
  obtain ⟨ops,labels,_,_,hs,hl⟩ := socket_nonces_unique (scalar specimen) specimenTunn_built
    (some specimenHome) specimenArms
  exact ⟨by decide +kernel,_,labels,hs,hl⟩

end WireGuard
