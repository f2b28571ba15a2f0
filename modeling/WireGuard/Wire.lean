import WireGuard.Message

/-!
# The wire format as a whole

Which byte strings are messages, that building from the fields of a parsed
message gives its bytes back, that parsing what was built gives the fields back,
and that the slots where the macs are written are the fields they are read from.
-/

set_option autoImplicit false

namespace WireGuard
open ByteString

/-- The four forms of a message. -/
def WellFormed (d : List UInt8) : Prop :=
  (d.take 4 = [1,0,0,0] ∧ d.length = 148) ∨ (d.take 4 = [2,0,0,0] ∧ d.length = 92) ∨
  (d.take 4 = [3,0,0,0] ∧ d.length = 64) ∨ (d.take 4 = [4,0,0,0] ∧ 32 ≤ d.length)

instance (d : List UInt8) : Decidable (WellFormed d) :=
  inferInstanceAs (Decidable (_ ∨ _))

theorem exists_field (n : ℕ) (l : List UInt8) (h : n ≤ l.length) :
    ∃ (a : Bytes n) (r : List UInt8), l = a.toList++r ∧ r.length = l.length-n :=
  ⟨ofList n (l.take n) (by simp [h]),l.drop n,by simp,by simp⟩

theorem exists_last_field (n : ℕ) (l : List UInt8) (h : l.length = n) :
    ∃ a : Bytes n, l = a.toList :=
  ⟨ofList n l h,rfl⟩

theorem eq_header_append {d : List UInt8} {t : UInt8} (h : d.take 4 = header t) :
    d = header t++d.drop 4 := by
  rw [← h,List.take_append_drop]

theorem exists_initiation {d : List UInt8} (h : d.take 4 = header 1) (hl : d.length = 148) :
    ∃ m, parse d = .ok (.handshakeInitiation m) := by
  have hd := eq_header_append h
  obtain ⟨s,r1,h1,l1⟩ := exists_field 4 (d.drop 4) (by simp; omega)
  obtain ⟨e,r2,h2,l2⟩ := exists_field 32 r1 (by simp at l1; omega)
  obtain ⟨st,r3,h3,l3⟩ := exists_field 48 r2 (by simp at l1; omega)
  obtain ⟨ts,r4,h4,l4⟩ := exists_field 28 r3 (by simp at l1; omega)
  obtain ⟨m1,r5,h5,l5⟩ := exists_field 16 r4 (by simp at l1; omega)
  obtain ⟨m2,h6⟩ := exists_last_field 16 r5 (by simp at l1; omega)
  refine ⟨⟨leU32 s,e,st,ts,m1,m2,d.take 116,d.take 132⟩,parse_initiation_iff.mpr ⟨?_,rfl,rfl⟩⟩
  rw [HandshakeInitiation.encode,u32Le_leU32]
  rw [hd,h1,h2,h3,h4,h5,h6]

theorem exists_response {d : List UInt8} (h : d.take 4 = header 2) (hl : d.length = 92) :
    ∃ m, parse d = .ok (.handshakeResponse m) := by
  have hd := eq_header_append h
  obtain ⟨s,r1,h1,l1⟩ := exists_field 4 (d.drop 4) (by simp; omega)
  obtain ⟨i,r2,h2,l2⟩ := exists_field 4 r1 (by simp at l1; omega)
  obtain ⟨e,r3,h3,l3⟩ := exists_field 32 r2 (by simp at l1; omega)
  obtain ⟨n,r4,h4,l4⟩ := exists_field 16 r3 (by simp at l1; omega)
  obtain ⟨m1,r5,h5,l5⟩ := exists_field 16 r4 (by simp at l1; omega)
  obtain ⟨m2,h6⟩ := exists_last_field 16 r5 (by simp at l1; omega)
  refine ⟨⟨leU32 s,leU32 i,e,n,m1,m2,d.take 60,d.take 76⟩,parse_response_iff.mpr ⟨?_,rfl,rfl⟩⟩
  rw [HandshakeResponse.encode,u32Le_leU32,u32Le_leU32]
  rw [hd,h1,h2,h3,h4,h5,h6]

theorem exists_cookieReply {d : List UInt8} (h : d.take 4 = header 3) (hl : d.length = 64) :
    ∃ m, parse d = .ok (.cookieReply m) := by
  have hd := eq_header_append h
  obtain ⟨i,r1,h1,l1⟩ := exists_field 4 (d.drop 4) (by simp; omega)
  obtain ⟨n,r2,h2,l2⟩ := exists_field 24 r1 (by simp at l1; omega)
  obtain ⟨k,h3⟩ := exists_last_field 32 r2 (by simp at l1; omega)
  refine ⟨⟨leU32 i,n,k⟩,parse_cookie_iff.mpr ?_⟩
  rw [CookieReply.encode,u32Le_leU32]
  rw [hd,h1,h2,h3]

theorem exists_transport {d : List UInt8} (h : d.take 4 = header 4) (hl : 32 ≤ d.length) :
    ∃ m, parse d = .ok (.transportData m) := by
  have hd := eq_header_append h
  obtain ⟨i,r1,h1,l1⟩ := exists_field 4 (d.drop 4) (by simp; omega)
  obtain ⟨k,r2,h2,l2⟩ := exists_field 8 r1 (by simp at l1; omega)
  have hb := fromLe_lt k.toList
  rw [toList_length'] at hb
  have hk : toLe 8 (fromLe k.toList) = k.toList := by simpa using toLe_fromLe k.toList
  refine ⟨⟨leU32 i,fromLe k.toList,r2⟩,parse_transport_iff.mpr ⟨?_,?_,?_⟩⟩
  · rw [TransportData.encode,u32Le_leU32,hk]
    rw [hd,h1,h2]
  · simp at l1
    dsimp only
    omega
  · unfold u64Max
    dsimp only
    omega

theorem wellFormed_of_parse {d : List UInt8} {p : Packet} (h : parse d = .ok p) :
    WellFormed d := by
  cases p with
  | handshakeInitiation m =>
    obtain ⟨rfl,_,_⟩ := parse_initiation_iff.mp h
    exact Or.inl ⟨rfl,m.encode_length⟩
  | handshakeResponse m =>
    obtain ⟨rfl,_,_⟩ := parse_response_iff.mp h
    exact Or.inr (Or.inl ⟨rfl,m.encode_length⟩)
  | cookieReply m =>
    obtain rfl := parse_cookie_iff.mp h
    exact Or.inr (Or.inr (Or.inl ⟨rfl,m.encode_length⟩))
  | transportData m =>
    obtain ⟨rfl,hc,_⟩ := parse_transport_iff.mp h
    refine Or.inr (Or.inr (Or.inr ⟨rfl,?_⟩))
    simp [TransportData.encode,header]
    omega

theorem parse_of_wellFormed {d : List UInt8} (h : WellFormed d) : ∃ p, parse d = .ok p := by
  rcases h with ⟨ht,hl⟩ | ⟨ht,hl⟩ | ⟨ht,hl⟩ | ⟨ht,hl⟩
  · exact (exists_initiation ht hl).imp' _ fun _ => id
  · exact (exists_response ht hl).imp' _ fun _ => id
  · exact (exists_cookieReply ht hl).imp' _ fun _ => id
  · exact (exists_transport ht hl).imp' _ fun _ => id

theorem parse_of_not_wellFormed {d : List UInt8} (h : ¬WellFormed d) :
    parse d = .error .invalidPacket := by
  unfold parse
  by_cases hlen : 4 ≤ d.length
  · obtain ⟨w,r,hd,_⟩ := exists_field 4 d hlen
    have ht : take 4 d = .ok (w,r) := take_ok.mpr hd
    have hhead : ∀ t : UInt8, leU32 w = UInt32.ofNat t.toNat → d.take 4 = header t := by
      intro t hw
      rw [typeWord_eq ht t hw]
      rfl
    rw [ht]
    dsimp only [bind,Except.bind]
    split
    · rename_i hw
      exact if_pos fun hl => h (Or.inl ⟨hhead 1 hw,hl⟩)
    split
    · rename_i hw
      exact if_pos fun hl => h (Or.inr (Or.inl ⟨hhead 2 hw,hl⟩))
    split
    · rename_i hw
      exact if_pos fun hl => h (Or.inr (Or.inr (Or.inl ⟨hhead 3 hw,hl⟩)))
    split
    · rename_i hw
      exact if_pos (not_le.mp fun hl => h (Or.inr (Or.inr (Or.inr ⟨hhead 4 hw,hl⟩))))
    · rfl
  · have ht : take 4 d = .error .invalidPacket := dif_neg hlen
    rw [ht]
    rfl

/-- A handshake message with its macs written into the slots. -/
def fillMacs (msg : List UInt8) (mac1 mac2 : Bytes 16) : Except Error (List UInt8) := do
  let slots ← macSlots msg
  .ok (slots.alpha ++ mac1.toList ++ mac2.toList)

/-- The message that the builders make of the fields in the buffer `out`, with the
macs or the ciphertext filled in. -/
def Packet.rebuild (out : List UInt8) : Packet → Except Error (List UInt8)
  | .handshakeInitiation m => do
    let out ← buildInitiation out m.senderIndex m.ephemeral m.encryptedStatic
      m.encryptedTimestamp
    fillMacs (out.take handshakeInitiationLen) m.mac1 m.mac2
  | .handshakeResponse m => do
    let out ← buildResponse out m.senderIndex m.receiverIndex m.ephemeral m.encryptedNothing
    fillMacs (out.take handshakeResponseLen) m.mac1 m.mac2
  | .cookieReply m => do
    let out ← buildCookieReplyMessage out m.receiverIndex m.nonce m.encryptedCookie
    .ok (out.take cookieReplyLen)
  | .transportData m => do
    let out ← writeTransportHeader out m.receiverIndex m.counter
    .ok (out.take 16 ++ m.ciphertext)

def Packet.room : Packet → ℕ
  | .handshakeInitiation _ => handshakeInitiationLen
  | .handshakeResponse _ => handshakeResponseLen
  | .cookieReply _ => cookieReplyLen
  | .transportData _ => transportOverhead

/-- The same fields, with the authenticated prefixes cut from `d`. -/
def Packet.viewing (d : List UInt8) : Packet → Packet
  | .handshakeInitiation m => .handshakeInitiation {m with alpha := d.take 116, beta := d.take 132}
  | .handshakeResponse m => .handshakeResponse {m with alpha := d.take 60, beta := d.take 76}
  | .cookieReply m => .cookieReply m
  | .transportData m => .transportData m

/-- Field values that a message can have: the counter is a 64-bit word and the
ciphertext holds at least its tag. -/
def Packet.Valid : Packet → Prop
  | .transportData m => 16 ≤ m.ciphertext.length ∧ m.counter ≤ u64Max
  | _ => True

def Packet.encode : Packet → List UInt8
  | .handshakeInitiation m => m.encode
  | .handshakeResponse m => m.encode
  | .cookieReply m => m.encode
  | .transportData m => m.encode

theorem macSlots_eq {msg alpha : List UInt8} {mac1 mac2 : Bytes 16}
    (hm : msg = alpha++(mac1.toList++mac2.toList))
    (hl : msg.length = handshakeInitiationLen ∨ msg.length = handshakeResponseLen) :
    macSlots msg = .ok ⟨alpha,mac1.toList,mac2.toList⟩ := by
  have hlen : msg.length = alpha.length+32 := by simp [hm]
  have h1 : splitAtChecked (msg.length-16) msg = .ok (alpha++mac1.toList,mac2.toList) := by
    rw [splitAtChecked_eq (by omega),hlen,hm,← List.append_assoc,
      List.take_left' (by simp),List.drop_left' (by simp)]
  have h2 : splitAtChecked (msg.length-32) (alpha++mac1.toList) = .ok (alpha,mac1.toList) := by
    rw [hlen,Nat.add_sub_cancel,splitAtChecked_eq (by simp),List.take_left,List.drop_left]
  unfold macSlots
  rw [if_neg (by tauto),if_neg (by omega),if_neg (by omega),h1]
  dsimp only [bind,Except.bind]
  rw [h2]
  simp

theorem fillMacs_front (alpha rest : List UInt8) (n : ℕ) (mac1 mac2 : Bytes 16)
    (hn : alpha.length+32 = n) (hk : n = handshakeInitiationLen ∨ n = handshakeResponseLen) :
    fillMacs ((alpha ++ List.replicate 32 0 ++ rest).take n) mac1 mac2 =
      .ok (alpha ++ (mac1.toList ++ mac2.toList)) := by
  have hl : (alpha ++ List.replicate 32 (0 : UInt8)).length = n := by simp [hn]
  have hz : List.replicate 32 (0 : UInt8) = (zeros 16).toList++(zeros 16).toList := by decide
  have hs : macSlots (alpha ++ List.replicate 32 0) =
      .ok ⟨alpha,(zeros 16).toList,(zeros 16).toList⟩ := by
    refine macSlots_eq (by rw [hz]) ?_
    rwa [hl]
  rw [List.take_left' hl,fillMacs,hs]
  simp [bind,Except.bind]

theorem rebuild_eq (p : Packet) (out : List UInt8) (h : p.room ≤ out.length) :
    p.rebuild out = .ok p.encode := by
  cases p with
  | handshakeInitiation m =>
    have h : handshakeInitiationLen ≤ out.length := h
    have hb := buildInitiation_eq out m.senderIndex m.ephemeral m.encryptedStatic
      m.encryptedTimestamp
    rw [if_neg (not_lt.mpr h)] at hb
    simp only [Packet.rebuild,hb,bind,Except.bind]
    rw [fillMacs_front _ _ _ _ _ (by simp [header,handshakeInitiationLen]) (Or.inl rfl)]
    simp [Packet.encode,HandshakeInitiation.encode]
  | handshakeResponse m =>
    have h : handshakeResponseLen ≤ out.length := h
    have hb := buildResponse_eq out m.senderIndex m.receiverIndex m.ephemeral m.encryptedNothing
    rw [if_neg (not_lt.mpr h)] at hb
    simp only [Packet.rebuild,hb,bind,Except.bind]
    rw [fillMacs_front _ _ _ _ _ (by simp [header,handshakeResponseLen]) (Or.inr rfl)]
    simp [Packet.encode,HandshakeResponse.encode]
  | cookieReply m =>
    have h : cookieReplyLen ≤ out.length := h
    have hb := buildCookieReplyMessage_eq out m.receiverIndex m.nonce m.encryptedCookie
    rw [if_neg (not_lt.mpr h)] at hb
    simp only [Packet.rebuild,hb,bind,Except.bind]
    rw [List.take_left' (by simp [header,cookieReplyLen])]
    simp [Packet.encode,CookieReply.encode]
  | transportData m =>
    simp only [Packet.rebuild,writeTransportHeader_eq out m.receiverIndex m.counter h,bind,
      Except.bind]
    rw [List.take_left' (by simp [header])]
    simp [Packet.encode,TransportData.encode]

theorem parse_encode {p : Packet} (h : p.Valid) : parse p.encode = .ok (p.viewing p.encode) := by
  cases p with
  | handshakeInitiation m => exact parse_initiation_iff.mpr ⟨rfl,rfl,rfl⟩
  | handshakeResponse m => exact parse_response_iff.mpr ⟨rfl,rfl,rfl⟩
  | cookieReply m => exact parse_cookie_iff.mpr rfl
  | transportData m => exact parse_transport_iff.mpr ⟨rfl,h⟩

theorem encode_of_parse {d : List UInt8} {p : Packet} (h : parse d = .ok p) : p.encode = d := by
  cases p with
  | handshakeInitiation m => exact (parse_initiation_iff.mp h).1.symm
  | handshakeResponse m => exact (parse_response_iff.mp h).1.symm
  | cookieReply m => exact (parse_cookie_iff.mp h).symm
  | transportData m => exact (parse_transport_iff.mp h).1.symm

theorem initiation_slots {d : List UInt8} {m : HandshakeInitiation}
    (h : parse d = .ok (.handshakeInitiation m)) :
    macSlots d = .ok ⟨m.alpha,m.mac1.toList,m.mac2.toList⟩ ∧
      m.beta = m.alpha++m.mac1.toList := by
  obtain ⟨rfl,ha,hb⟩ := parse_initiation_iff.mp h
  have he : m.encode = (header 1 ++ (u32Le m.senderIndex).toList ++ m.ephemeral.toList ++
      m.encryptedStatic.toList ++ m.encryptedTimestamp.toList)++
        (m.mac1.toList++m.mac2.toList) := by
    simp [HandshakeInitiation.encode]
  have ha' : m.alpha = header 1 ++ (u32Le m.senderIndex).toList ++ m.ephemeral.toList ++
      m.encryptedStatic.toList ++ m.encryptedTimestamp.toList := by
    rw [ha,he]
    exact List.take_left' (by simp [header])
  rw [← ha'] at he
  have hl : m.alpha.length = 116 := by simp [ha',header]
  refine ⟨macSlots_eq he (Or.inl m.encode_length),?_⟩
  rw [hb,he,← List.append_assoc]
  exact List.take_left' (by simp [hl])

theorem response_slots {d : List UInt8} {m : HandshakeResponse}
    (h : parse d = .ok (.handshakeResponse m)) :
    macSlots d = .ok ⟨m.alpha,m.mac1.toList,m.mac2.toList⟩ ∧
      m.beta = m.alpha++m.mac1.toList := by
  obtain ⟨rfl,ha,hb⟩ := parse_response_iff.mp h
  have he : m.encode = (header 2 ++ (u32Le m.senderIndex).toList ++
      (u32Le m.receiverIndex).toList ++ m.ephemeral.toList ++ m.encryptedNothing.toList)++
        (m.mac1.toList++m.mac2.toList) := by
    simp [HandshakeResponse.encode]
  have ha' : m.alpha = header 2 ++ (u32Le m.senderIndex).toList ++
      (u32Le m.receiverIndex).toList ++ m.ephemeral.toList ++ m.encryptedNothing.toList := by
    rw [ha,he]
    exact List.take_left' (by simp [header])
  rw [← ha'] at he
  have hl : m.alpha.length = 60 := by simp [ha',header]
  refine ⟨macSlots_eq he (Or.inr m.encode_length),?_⟩
  rw [hb,he,← List.append_assoc]
  exact List.take_left' (by simp [hl])

/-- A byte string is accepted exactly if it has one of the four forms, and is
otherwise an invalid packet; parsing inverts building and building inverts
parsing; and the slots of the macs are the fields that parsing reads. -/
theorem wire_format_exact :
    (∀ d, ((∃ p, parse d = .ok p) ↔ WellFormed d) ∧
      (¬WellFormed d → parse d = .error .invalidPacket)) ∧
    (∀ (p : Packet) (out : List UInt8), p.Valid → p.room ≤ out.length →
      ∃ d, p.rebuild out = .ok d ∧ parse d = .ok (p.viewing d)) ∧
    (∀ (d : List UInt8) (p : Packet) (out : List UInt8), parse d = .ok p →
      p.room ≤ out.length → p.rebuild out = .ok d) ∧
    (∀ d m, parse d = .ok (.handshakeInitiation m) →
      macSlots d = .ok ⟨m.alpha,m.mac1.toList,m.mac2.toList⟩ ∧
        m.beta = m.alpha++m.mac1.toList) ∧
    ∀ d m, parse d = .ok (.handshakeResponse m) →
      macSlots d = .ok ⟨m.alpha,m.mac1.toList,m.mac2.toList⟩ ∧
        m.beta = m.alpha++m.mac1.toList := by
  refine ⟨fun d => ⟨⟨fun ⟨p,hp⟩ => wellFormed_of_parse hp,parse_of_wellFormed⟩,
    parse_of_not_wellFormed⟩,fun p out hv hr => ?_,fun d p out hp hr => ?_,
    fun d m => initiation_slots,fun d m => response_slots⟩
  · exact ⟨p.encode,rebuild_eq p out hr,parse_encode hv⟩
  · rw [rebuild_eq p out hr,encode_of_parse hp]

end WireGuard
