import Mathlib.Data.Set.Function
import WireGuard.Noise

/-!
# What the key schedule hashes

Everything in a handshake is built from `digest`. For each step of the schedule
we list the byte strings it hashes, and show that the step can be inverted when
`digest` has no collision on a set that contains them. Collision freedom is
only ever assumed on such a set: no digest of fixed length is injective.
-/

set_option autoImplicit false

namespace WireGuard
open ByteString

variable (P : Primitives)

def mixInput (h : Bytes 32) (part : List UInt8) : List UInt8 := h.toList++part

theorem mixHash_eq (h : Bytes 32) (part : List UInt8) :
    mixHash P h part = P.digest (mixInput h part) := by
  simp [mixHash,hash,mixInput]

def innerInput (key : List UInt8) (parts : List (List UInt8)) : List UInt8 :=
  (padKey P key).map (fun k => k ^^^ 0x36)++parts.flatten

def outerInput (key : List UInt8) (parts : List (List UInt8)) : List UInt8 :=
  (padKey P key).map (fun k => k ^^^ 0x5c)++(P.digest (innerInput P key parts)).toList

def hmacInputs (key : List UInt8) (parts : List (List UInt8)) : List (List UInt8) :=
  [innerInput P key parts,outerInput P key parts]

theorem hmac_eq (key : List UInt8) (parts : List (List UInt8)) :
    hmac P key parts = P.digest (outerInput P key parts) := by
  simp [hmac,hash,outerInput,innerInput]

def kdf1Inputs (key : Bytes 32) (input : List UInt8) : List (List UInt8) :=
  let t0 := hmac P key.toList [input]
  hmacInputs P key.toList [input]++hmacInputs P t0.toList [[0x01]]

def kdf3Inputs (key : Bytes 32) (input : List UInt8) : List (List UInt8) :=
  let t0 := hmac P key.toList [input]
  let t1 := hmac P t0.toList [[0x01]]
  let t2 := hmac P t0.toList [t1.toList,[0x02]]
  hmacInputs P key.toList [input]++hmacInputs P t0.toList [[0x01]]++
    hmacInputs P t0.toList [t1.toList,[0x02]]++hmacInputs P t0.toList [t2.toList,[0x03]]

section Injective

variable {P} {S : Set (List UInt8)}

theorem mixHash_inj (hS : Set.InjOn P.digest S) {h h' : Bytes 32} {part part' : List UInt8}
    (hm : mixInput h part ∈ S) (hm' : mixInput h' part' ∈ S)
    (he : mixHash P h part = mixHash P h' part') : h = h' ∧ part = part' := by
  rw [mixHash_eq,mixHash_eq] at he
  have hl := List.append_inj (hS hm hm' he) (by simp)
  exact ⟨toList_inj hl.1,hl.2⟩

theorem padKey_eq (key : Bytes 32) : padKey P key.toList = key.toList++List.replicate 32 0 := by
  simp [padKey]

theorem xor_right_injective (c : UInt8) : Function.Injective (fun k : UInt8 => k ^^^ c) := by
  intro a b h
  have h' : (a ^^^ c) ^^^ c = (b ^^^ c) ^^^ c := congrArg (fun k => k ^^^ c) h
  simpa [UInt8.xor_assoc] using h'

theorem blockKey_inj {key key' : Bytes 32} {c : UInt8}
    (h : (padKey P key.toList).map (fun k => k ^^^ c) =
      (padKey P key'.toList).map (fun k => k ^^^ c)) : key = key' := by
  have hp := List.map_injective_iff.mpr (xor_right_injective c) h
  rw [padKey_eq,padKey_eq] at hp
  exact toList_inj (List.append_cancel_right hp)

theorem hmac_inj (hS : Set.InjOn P.digest S) {key key' : Bytes 32}
    {parts parts' : List (List UInt8)} (hm : ∀ i ∈ hmacInputs P key.toList parts, i ∈ S)
    (hm' : ∀ i ∈ hmacInputs P key'.toList parts', i ∈ S)
    (he : hmac P key.toList parts = hmac P key'.toList parts') :
    key = key' ∧ parts.flatten = parts'.flatten := by
  simp only [hmacInputs,List.mem_cons,List.not_mem_nil,or_false,forall_eq_or_imp,
    forall_eq] at hm hm'
  rw [hmac_eq,hmac_eq] at he
  have hl : ∀ (k : Bytes 32) (c : UInt8),
      ((padKey P k.toList).map (fun b => b ^^^ c)).length = 64 := by
    intro k c
    rw [List.length_map,padKey_eq]
    simp
  have ho := List.append_inj (hS hm.2 hm'.2 he) (by rw [hl,hl])
  have hi := List.append_inj (hS hm.1 hm'.1 (toList_inj ho.2)) (by rw [hl,hl])
  exact ⟨blockKey_inj ho.1,hi.2⟩

theorem kdf1_inj (hS : Set.InjOn P.digest S) {key key' : Bytes 32} {input input' : List UInt8}
    (hm : ∀ i ∈ kdf1Inputs P key input, i ∈ S) (hm' : ∀ i ∈ kdf1Inputs P key' input', i ∈ S)
    (he : kdf1 P key input = kdf1 P key' input') : key = key' ∧ input = input' := by
  simp only [kdf1Inputs,List.mem_append,or_imp,forall_and] at hm hm'
  have h0 := hmac_inj hS hm.2 hm'.2 he
  have h1 := hmac_inj hS hm.1 hm'.1 h0.1
  simpa using h1

theorem kdf3_inj (hS : Set.InjOn P.digest S) {key key' : Bytes 32} {input input' : List UInt8}
    (hm : ∀ i ∈ kdf3Inputs P key input, i ∈ S) (hm' : ∀ i ∈ kdf3Inputs P key' input', i ∈ S)
    (he : (kdf3 P key input).2.2 = (kdf3 P key' input').2.2) : key = key' ∧ input = input' := by
  simp only [kdf3Inputs,List.mem_append,or_imp,forall_and] at hm hm'
  have h0 := hmac_inj hS hm.2 hm'.2 he
  have h1 := hmac_inj hS hm.1.1.1 hm'.1.1.1 h0.1
  simpa using h1

end Injective

def InitiationView.digests (K : HandshakeConstants) (v : InitiationView) : List (List UInt8) :=
  [mixInput K.h0 v.responder.toList,mixInput (v.hashResponder P K) v.ephemeral.toList,
    mixInput (v.hashEphemeral P K) v.encryptedStatic.toList,
    mixInput (v.hashStatic P K) v.encryptedTimestamp.toList]

def ResponseView.digests (v : ResponseView) : List (List UInt8) :=
  let c1 := kdf1 P v.chain v.ephemeral.toList
  let c2 := kdf1 P c1 v.ee.toList
  [mixInput v.hash v.ephemeral.toList,mixInput (v.hashEphemeral P) (v.tau P).toList]++
    kdf1Inputs P v.chain v.ephemeral.toList++kdf1Inputs P c1 v.ee.toList++
    kdf1Inputs P c2 v.se.toList++kdf3Inputs P (v.chainSe P) v.psk.toList

section Transcripts

variable {P} {S : Set (List UInt8)} {K : HandshakeConstants}

theorem hashStatic_inj (hS : Set.InjOn P.digest S) {v v' : InitiationView}
    (hm : ∀ i ∈ v.digests P K, i ∈ S) (hm' : ∀ i ∈ v'.digests P K, i ∈ S)
    (he : v.hashStatic P K = v'.hashStatic P K) : v.responder = v'.responder ∧
      v.ephemeral = v'.ephemeral ∧ v.encryptedStatic = v'.encryptedStatic := by
  simp only [InitiationView.digests,List.mem_cons,List.not_mem_nil,or_false,forall_eq_or_imp,
    forall_eq] at hm hm'
  obtain ⟨h1,h2,h3,_⟩ := hm
  obtain ⟨h1',h2',h3',_⟩ := hm'
  obtain ⟨he2,hs⟩ := mixHash_inj hS h3 h3' he
  obtain ⟨he1,hx⟩ := mixHash_inj hS h2 h2' he2
  obtain ⟨_,hr⟩ := mixHash_inj hS h1 h1' he1
  exact ⟨toList_inj hr,toList_inj hx,toList_inj hs⟩

theorem initiationHash_inj (hS : Set.InjOn P.digest S) {v v' : InitiationView}
    (hm : ∀ i ∈ v.digests P K, i ∈ S) (hm' : ∀ i ∈ v'.digests P K, i ∈ S)
    (he : v.hash P K = v'.hash P K) : v.responder = v'.responder ∧
      v.ephemeral = v'.ephemeral ∧ v.encryptedStatic = v'.encryptedStatic ∧
      v.encryptedTimestamp = v'.encryptedTimestamp := by
  have h4 := hm (mixInput (v.hashStatic P K) v.encryptedTimestamp.toList)
    (by simp [InitiationView.digests])
  have h4' := hm' (mixInput (v'.hashStatic P K) v'.encryptedTimestamp.toList)
    (by simp [InitiationView.digests])
  obtain ⟨hs,ht⟩ := mixHash_inj hS h4 h4' he
  obtain ⟨hr,hx,hc⟩ := hashStatic_inj hS hm hm' hs
  exact ⟨hr,hx,hc,toList_inj ht⟩

theorem response_inj (hS : Set.InjOn P.digest S) {v v' : ResponseView}
    (hm : ∀ i ∈ v.digests P, i ∈ S) (hm' : ∀ i ∈ v'.digests P, i ∈ S)
    (hk : v.key P = v'.key P) (hh : v.hashTau P = v'.hashTau P) : v.chain = v'.chain ∧
      v.hash = v'.hash ∧ v.ephemeral = v'.ephemeral ∧ v.ee = v'.ee ∧ v.se = v'.se ∧
      v.psk = v'.psk := by
  simp only [ResponseView.digests,List.mem_append,or_imp,forall_and,List.mem_cons,
    List.not_mem_nil,or_false,forall_eq] at hm hm'
  obtain ⟨⟨⟨⟨⟨hx,ht⟩,h1⟩,h2⟩,h3⟩,h4⟩ := hm
  obtain ⟨⟨⟨⟨⟨hx',ht'⟩,h1'⟩,h2'⟩,h3'⟩,h4'⟩ := hm'
  obtain ⟨hse,hp⟩ := kdf3_inj hS h4 h4' hk
  obtain ⟨hc2,hs⟩ := kdf1_inj hS h3 h3' hse
  obtain ⟨hc1,he⟩ := kdf1_inj hS h2 h2' hc2
  obtain ⟨hc,hy⟩ := kdf1_inj hS h1 h1' hc1
  obtain ⟨hhe,_⟩ := mixHash_inj hS ht ht' hh
  obtain ⟨hh0,_⟩ := mixHash_inj hS hx hx' hhe
  exact ⟨hc,hh0,toList_inj hy,toList_inj he,toList_inj hs,toList_inj hp⟩

end Transcripts

end WireGuard
