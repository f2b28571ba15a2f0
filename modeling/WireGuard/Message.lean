import WireGuard.Primitives

/-!
# Wire formats

Parsing is a chain of fixed-size splits; building writes the fields behind the
type word. `parse_initiation_iff` and its companions say that a datagram parses
as a message exactly when it is that message's encoding.
-/

set_option autoImplicit false

namespace WireGuard
open ByteString

structure HandshakeInitiation where
  senderIndex : UInt32
  ephemeral : Bytes 32
  encryptedStatic : Bytes 48
  encryptedTimestamp : Bytes 28
  mac1 : Bytes 16
  mac2 : Bytes 16
  alpha : List UInt8
  beta : List UInt8
  deriving DecidableEq

structure HandshakeResponse where
  senderIndex : UInt32
  receiverIndex : UInt32
  ephemeral : Bytes 32
  encryptedNothing : Bytes 16
  mac1 : Bytes 16
  mac2 : Bytes 16
  alpha : List UInt8
  beta : List UInt8
  deriving DecidableEq

structure CookieReply where
  receiverIndex : UInt32
  nonce : Bytes 24
  encryptedCookie : Bytes 32
  deriving DecidableEq

structure TransportData where
  receiverIndex : UInt32
  counter : ℕ
  ciphertext : List UInt8
  deriving DecidableEq

inductive Packet where
  | handshakeInitiation (m : HandshakeInitiation)
  | handshakeResponse (m : HandshakeResponse)
  | cookieReply (m : CookieReply)
  | transportData (m : TransportData)
  deriving DecidableEq

def take (n : ℕ) (bytes : List UInt8) : Except Error (Bytes n × List UInt8) :=
  if h : n ≤ bytes.length then
    .ok (ofList n (bytes.take n) (by simp [h]),bytes.drop n)
  else .error .invalidPacket

def getTo (n : ℕ) (bytes : List UInt8) : Except Error (List UInt8) :=
  if n ≤ bytes.length then .ok (bytes.take n) else .error .invalidPacket

def getFrom (n : ℕ) (bytes : List UInt8) : Except Error (List UInt8) :=
  if n ≤ bytes.length then .ok (bytes.drop n) else .error .invalidPacket

def leU32 (bytes : Bytes 4) : UInt32 := UInt32.ofNat (fromLe bytes.toList)

def u32Le (i : UInt32) : Bytes 4 := leBytes 4 i.toNat

def parseInitiation (datagram : List UInt8) : Except Error Packet := do
  if datagram.length ≠ handshakeInitiationLen then .error .invalidPacket
  else
    let alpha ← getTo 116 datagram
    let beta ← getTo 132 datagram
    let rest ← getFrom 4 datagram
    let (sender,rest) ← take 4 rest
    let (ephemeral,rest) ← take 32 rest
    let (encryptedStatic,rest) ← take 48 rest
    let (encryptedTimestamp,rest) ← take 28 rest
    let (mac1,rest) ← take 16 rest
    let (mac2,rest) ← take 16 rest
    if rest ≠ [] then .error .internal
    else .ok (.handshakeInitiation
      ⟨leU32 sender,ephemeral,encryptedStatic,encryptedTimestamp,mac1,mac2,alpha,beta⟩)

def parseResponse (datagram : List UInt8) : Except Error Packet := do
  if datagram.length ≠ handshakeResponseLen then .error .invalidPacket
  else
    let alpha ← getTo 60 datagram
    let beta ← getTo 76 datagram
    let rest ← getFrom 4 datagram
    let (sender,rest) ← take 4 rest
    let (receiver,rest) ← take 4 rest
    let (ephemeral,rest) ← take 32 rest
    let (encryptedNothing,rest) ← take 16 rest
    let (mac1,rest) ← take 16 rest
    let (mac2,rest) ← take 16 rest
    if rest ≠ [] then .error .internal
    else .ok (.handshakeResponse
      ⟨leU32 sender,leU32 receiver,ephemeral,encryptedNothing,mac1,mac2,alpha,beta⟩)

def parseCookieReply (datagram : List UInt8) : Except Error Packet := do
  if datagram.length ≠ cookieReplyLen then .error .invalidPacket
  else
    let rest ← getFrom 4 datagram
    let (receiver,rest) ← take 4 rest
    let (nonce,rest) ← take 24 rest
    let (encryptedCookie,rest) ← take 32 rest
    if rest ≠ [] then .error .internal
    else .ok (.cookieReply ⟨leU32 receiver,nonce,encryptedCookie⟩)

def parseTransport (datagram : List UInt8) : Except Error Packet := do
  if datagram.length < transportOverhead then .error .invalidPacket
  else
    let rest ← getFrom 4 datagram
    let (receiver,rest) ← take 4 rest
    let (counter,ciphertext) ← take 8 rest
    .ok (.transportData ⟨leU32 receiver,fromLe counter.toList,ciphertext⟩)

def parse (datagram : List UInt8) : Except Error Packet := do
  let (typeWord,_) ← take 4 datagram
  if leU32 typeWord = 1 then parseInitiation datagram
  else if leU32 typeWord = 2 then parseResponse datagram
  else if leU32 typeWord = 3 then parseCookieReply datagram
  else if leU32 typeWord = 4 then parseTransport datagram
  else .error .invalidPacket

def header (msgType : UInt8) : List UInt8 := [msgType,0,0,0]

/-- Write fields one behind the other at the front of a message, each over the chunk
that is split off what is left of it. -/
def putFields : List (List UInt8) → List UInt8 → Except Error (List UInt8)
  | [], rest => .ok rest
  | field::fields, rest =>
    if rest.length < field.length then .error .internal
    else do
      let tail ← putFields fields (rest.drop field.length)
      .ok (field ++ tail)

theorem putFields_eq (fields : List (List UInt8)) (rest : List UInt8)
    (h : fields.flatten.length ≤ rest.length) :
    putFields fields rest = .ok (fields.flatten ++ rest.drop fields.flatten.length) := by
  induction fields generalizing rest with
  | nil => rfl
  | cons field fields ih =>
    simp only [List.flatten_cons,List.length_append] at h
    rw [putFields,if_neg (by omega),ih _ (by rw [List.length_drop]; omega)]
    simp [bind,Except.bind]

def buildInitiation (out : List UInt8) (senderIndex : UInt32) (ephemeral : Bytes 32)
    (encryptedStatic : Bytes 48) (encryptedTimestamp : Bytes 28) :
    Except Error (List UInt8) := do
  if out.length < handshakeInitiationLen then .error .bufferTooSmall
  else
    let msg ← putFields [header 1,(u32Le senderIndex).toList,ephemeral.toList,
      encryptedStatic.toList,encryptedTimestamp.toList] (List.replicate handshakeInitiationLen 0)
    .ok (msg ++ out.drop handshakeInitiationLen)

def buildResponse (out : List UInt8) (senderIndex receiverIndex : UInt32)
    (ephemeral : Bytes 32) (encryptedNothing : Bytes 16) : Except Error (List UInt8) := do
  if out.length < handshakeResponseLen then .error .bufferTooSmall
  else
    let msg ← putFields [header 2,(u32Le senderIndex).toList,(u32Le receiverIndex).toList,
      ephemeral.toList,encryptedNothing.toList] (List.replicate handshakeResponseLen 0)
    .ok (msg ++ out.drop handshakeResponseLen)

def buildCookieReplyMessage (out : List UInt8) (receiverIndex : UInt32) (nonce : Bytes 24)
    (encryptedCookie : Bytes 32) : Except Error (List UInt8) := do
  if out.length < cookieReplyLen then .error .bufferTooSmall
  else
    let msg ← putFields [header 3,(u32Le receiverIndex).toList,nonce.toList,
      encryptedCookie.toList] (List.replicate cookieReplyLen 0)
    .ok (msg ++ out.drop cookieReplyLen)

def writeTransportHeader (out : List UInt8) (receiverIndex : UInt32) (counter : ℕ) :
    Except Error (List UInt8) :=
  if out.length < transportOverhead then .error .bufferTooSmall
  else putFields [header 4,(u32Le receiverIndex).toList,toLe 8 counter] out

theorem buildInitiation_eq (out : List UInt8) (senderIndex : UInt32) (ephemeral : Bytes 32)
    (encryptedStatic : Bytes 48) (encryptedTimestamp : Bytes 28) :
    buildInitiation out senderIndex ephemeral encryptedStatic encryptedTimestamp =
      if out.length < handshakeInitiationLen then .error .bufferTooSmall
      else .ok (header 1 ++ (u32Le senderIndex).toList ++ ephemeral.toList ++
        encryptedStatic.toList ++ encryptedTimestamp.toList ++ List.replicate 32 0 ++
        out.drop handshakeInitiationLen) := by
  unfold buildInitiation
  rw [putFields_eq _ _ (by simp [header,handshakeInitiationLen])]
  simp [bind,Except.bind,header,handshakeInitiationLen]

theorem buildResponse_eq (out : List UInt8) (senderIndex receiverIndex : UInt32)
    (ephemeral : Bytes 32) (encryptedNothing : Bytes 16) :
    buildResponse out senderIndex receiverIndex ephemeral encryptedNothing =
      if out.length < handshakeResponseLen then .error .bufferTooSmall
      else .ok (header 2 ++ (u32Le senderIndex).toList ++ (u32Le receiverIndex).toList ++
        ephemeral.toList ++ encryptedNothing.toList ++ List.replicate 32 0 ++
        out.drop handshakeResponseLen) := by
  unfold buildResponse
  rw [putFields_eq _ _ (by simp [header,handshakeResponseLen])]
  simp [bind,Except.bind,header,handshakeResponseLen]

theorem buildCookieReplyMessage_eq (out : List UInt8) (receiverIndex : UInt32)
    (nonce : Bytes 24) (encryptedCookie : Bytes 32) :
    buildCookieReplyMessage out receiverIndex nonce encryptedCookie =
      if out.length < cookieReplyLen then .error .bufferTooSmall
      else .ok (header 3 ++ (u32Le receiverIndex).toList ++ nonce.toList ++
        encryptedCookie.toList ++ out.drop cookieReplyLen) := by
  unfold buildCookieReplyMessage
  rw [putFields_eq _ _ (by simp [header,cookieReplyLen])]
  simp [bind,Except.bind,header,cookieReplyLen]

theorem writeTransportHeader_eq (out : List UInt8) (receiverIndex : UInt32) (counter : ℕ)
    (h : transportOverhead ≤ out.length) :
    writeTransportHeader out receiverIndex counter =
      .ok (header 4 ++ (u32Le receiverIndex).toList ++ toLe 8 counter ++ out.drop 16) := by
  have hb : transportOverhead = 32 := rfl
  have hl : [header 4,(u32Le receiverIndex).toList,toLe 8 counter].flatten.length = 16 := by
    simp [header]
  rw [writeTransportHeader,if_neg (by omega),putFields_eq _ _ (by omega),hl]
  simp

structure MacSlots where
  alpha : List UInt8
  mac1 : List UInt8
  mac2 : List UInt8

def macSlots (msg : List UInt8) : Except Error MacSlots := do
  if msg.length ≠ handshakeInitiationLen ∧ msg.length ≠ handshakeResponseLen then
    .error .invalidPacket
  else if msg.length < 16 then .error .internal
  else if msg.length < 32 then .error .internal
  else
    let (body,mac2) ← splitAtChecked (msg.length-16) msg
    let (alpha,mac1) ← splitAtChecked (msg.length-32) body
    if mac1.length ≠ 16 then .error .internal
    else if mac2.length ≠ 16 then .error .internal
    else .ok ⟨alpha,mac1,mac2⟩

theorem leU32_u32Le (i : UInt32) : leU32 (u32Le i) = i := by
  have h := i.toNat_lt
  simp only [leU32,u32Le,leBytes_toList,fromLe_toLe]
  rw [Nat.mod_eq_of_lt (by simpa using h)]
  exact UInt32.ofNat_toNat

theorem u32Le_leU32 (b : Bytes 4) : u32Le (leU32 b) = b := by
  have h := fromLe_lt b.toList
  rw [toList_length'] at h
  apply toList_inj
  simp only [leU32,u32Le,leBytes_toList,UInt32.toNat_ofNat']
  rw [Nat.mod_eq_of_lt (by simpa using h)]
  simpa using toLe_fromLe b.toList

theorem bind_ok {ε α β : Type} {x : Except ε α} {f : α → Except ε β} {b : β} :
    (x >>= f) = .ok b ↔ ∃ a, x = .ok a ∧ f a = .ok b := by
  cases x with
  | error e => simp [bind,Except.bind]
  | ok a => simp [bind,Except.bind]

theorem take_ok {n : ℕ} {l r : List UInt8} {a : Bytes n} :
    take n l = .ok (a,r) ↔ l = a.toList++r := by
  unfold take
  constructor
  · intro h
    split at h
    · obtain ⟨rfl,rfl⟩ := Prod.mk.inj (Except.ok.inj h)
      simp
    · cases h
  · rintro rfl
    rw [dif_pos (by simp)]
    congr 2
    · apply toList_inj
      simp [List.take_left']
    · simp [List.drop_left']

@[simp] theorem take_append {n : ℕ} (a : Bytes n) (r : List UInt8) :
    take n (a.toList++r) = .ok (a,r) := take_ok.mpr rfl

theorem getTo_ok {n : ℕ} {l a : List UInt8} :
    getTo n l = .ok a ↔ n ≤ l.length ∧ a = l.take n := by
  unfold getTo
  split <;> rename_i h <;> simp [h,eq_comm]

theorem getFrom_ok {n : ℕ} {l a : List UInt8} :
    getFrom n l = .ok a ↔ n ≤ l.length ∧ a = l.drop n := by
  unfold getFrom
  split <;> rename_i h <;> simp [h,eq_comm]

def HandshakeInitiation.encode (m : HandshakeInitiation) : List UInt8 :=
  header 1 ++ ((u32Le m.senderIndex).toList ++ (m.ephemeral.toList ++
    (m.encryptedStatic.toList ++ (m.encryptedTimestamp.toList ++
      (m.mac1.toList ++ m.mac2.toList)))))

def HandshakeResponse.encode (m : HandshakeResponse) : List UInt8 :=
  header 2 ++ ((u32Le m.senderIndex).toList ++ ((u32Le m.receiverIndex).toList ++
    (m.ephemeral.toList ++ (m.encryptedNothing.toList ++
      (m.mac1.toList ++ m.mac2.toList)))))

def CookieReply.encode (m : CookieReply) : List UInt8 :=
  header 3 ++ ((u32Le m.receiverIndex).toList ++ (m.nonce.toList ++ m.encryptedCookie.toList))

def TransportData.encode (m : TransportData) : List UInt8 :=
  header 4 ++ ((u32Le m.receiverIndex).toList ++ (toLe 8 m.counter ++ m.ciphertext))

theorem typeWord_eq {d rest : List UInt8} {w : Bytes 4} (h : take 4 d = .ok (w,rest))
    (t : UInt8) (ht : leU32 w = UInt32.ofNat t.toNat) : d = header t++rest := by
  have hw : w = u32Le (UInt32.ofNat t.toNat) := by rw [← ht,u32Le_leU32]
  have hb := t.toNat_lt
  have hn : (UInt32.ofNat t.toNat).toNat = t.toNat := by
    rw [UInt32.toNat_ofNat']
    omega
  have hl : (u32Le (UInt32.ofNat t.toNat)).toList = header t := by
    have hd : t.toNat/256 = 0 := by omega
    simp only [u32Le,leBytes_toList,hn,toLe,hd,header]
    simp
  rw [take_ok.mp h,hw,hl]

def headerWord (t : UInt8) : Bytes 4 := ofList 4 (header t) rfl

theorem take_header (t : UInt8) (r : List UInt8) :
    take 4 (header t++r) = .ok (headerWord t,r) := take_ok.mpr rfl

theorem drop_header (t : UInt8) (r : List UInt8) : (header t++r).drop 4 = r := rfl

theorem parse_cases {d : List UInt8} {p : Packet} (h : parse d = .ok p) :
    ∃ r, (d = header 1++r ∧ parseInitiation d = .ok p) ∨
      (d = header 2++r ∧ parseResponse d = .ok p) ∨
      (d = header 3++r ∧ parseCookieReply d = .ok p) ∨
      (d = header 4++r ∧ parseTransport d = .ok p) := by
  simp only [parse,bind_ok] at h
  obtain ⟨⟨w,r⟩,ht,h⟩ := h
  refine ⟨r,?_⟩
  dsimp only at h
  split at h
  · rename_i hw
    exact Or.inl ⟨typeWord_eq ht 1 hw,h⟩
  split at h
  · rename_i hw
    exact Or.inr (Or.inl ⟨typeWord_eq ht 2 hw,h⟩)
  split at h
  · rename_i hw
    exact Or.inr (Or.inr (Or.inl ⟨typeWord_eq ht 3 hw,h⟩))
  split at h
  · rename_i hw
    exact Or.inr (Or.inr (Or.inr ⟨typeWord_eq ht 4 hw,h⟩))
  · cases h

theorem parseInitiation_ok {r : List UInt8} {p : Packet}
    (h : parseInitiation (header 1++r) = .ok p) :
    ∃ m : HandshakeInitiation, p = .handshakeInitiation m ∧ header 1++r = m.encode ∧
      m.alpha = m.encode.take 116 ∧ m.beta = m.encode.take 132 := by
  simp only [parseInitiation] at h
  split at h
  · cases h
  simp only [bind_ok,getTo_ok,getFrom_ok] at h
  obtain ⟨alpha,⟨_,ha⟩,beta,⟨_,hb⟩,_,⟨_,h0⟩,⟨s,_⟩,h1,⟨e,_⟩,h2,⟨st,_⟩,h3,⟨ts,_⟩,h4,⟨m1,_⟩,h5,
    ⟨m2,_⟩,h6,h⟩ := h
  dsimp only at h1 h2 h3 h4 h5 h6 h
  rw [drop_header] at h0
  split at h
  · cases h
  · rename_i hr
    have hr' := not_not.mp hr
    have he : header 1++r = (HandshakeInitiation.mk (leU32 s) e st ts m1 m2 alpha beta).encode := by
      simp only [HandshakeInitiation.encode,u32Le_leU32]
      rw [← h0,take_ok.mp h1,take_ok.mp h2,take_ok.mp h3,take_ok.mp h4,take_ok.mp h5,
        take_ok.mp h6,hr',List.append_nil]
    refine ⟨_,(Except.ok.inj h).symm,he,?_,?_⟩
    · rw [← he,ha]
    · rw [← he,hb]

theorem parseResponse_ok {r : List UInt8} {p : Packet}
    (h : parseResponse (header 2++r) = .ok p) :
    ∃ m : HandshakeResponse, p = .handshakeResponse m ∧ header 2++r = m.encode ∧
      m.alpha = m.encode.take 60 ∧ m.beta = m.encode.take 76 := by
  simp only [parseResponse] at h
  split at h
  · cases h
  simp only [bind_ok,getTo_ok,getFrom_ok] at h
  obtain ⟨alpha,⟨_,ha⟩,beta,⟨_,hb⟩,_,⟨_,h0⟩,⟨s,_⟩,h1,⟨i,_⟩,h2,⟨e,_⟩,h3,⟨n,_⟩,h4,⟨m1,_⟩,h5,
    ⟨m2,_⟩,h6,h⟩ := h
  dsimp only at h1 h2 h3 h4 h5 h6 h
  rw [drop_header] at h0
  split at h
  · cases h
  · rename_i hr
    have hr' := not_not.mp hr
    have he : header 2++r =
        (HandshakeResponse.mk (leU32 s) (leU32 i) e n m1 m2 alpha beta).encode := by
      simp only [HandshakeResponse.encode,u32Le_leU32]
      rw [← h0,take_ok.mp h1,take_ok.mp h2,take_ok.mp h3,take_ok.mp h4,take_ok.mp h5,
        take_ok.mp h6,hr',List.append_nil]
    refine ⟨_,(Except.ok.inj h).symm,he,?_,?_⟩
    · rw [← he,ha]
    · rw [← he,hb]

theorem parseCookieReply_ok {r : List UInt8} {p : Packet}
    (h : parseCookieReply (header 3++r) = .ok p) :
    ∃ m : CookieReply, p = .cookieReply m ∧ header 3++r = m.encode := by
  simp only [parseCookieReply] at h
  split at h
  · cases h
  simp only [bind_ok,getFrom_ok] at h
  obtain ⟨_,⟨_,h0⟩,⟨i,_⟩,h1,⟨n,_⟩,h2,⟨c,_⟩,h3,h⟩ := h
  dsimp only at h1 h2 h3 h
  rw [drop_header] at h0
  split at h
  · cases h
  · rename_i hr
    have hr' := not_not.mp hr
    refine ⟨_,(Except.ok.inj h).symm,?_⟩
    simp only [CookieReply.encode,u32Le_leU32]
    rw [← h0,take_ok.mp h1,take_ok.mp h2,take_ok.mp h3,hr',List.append_nil]

theorem parseTransport_ok {r : List UInt8} {p : Packet}
    (h : parseTransport (header 4++r) = .ok p) :
    ∃ m : TransportData, p = .transportData m ∧ header 4++r = m.encode ∧
      16 ≤ m.ciphertext.length ∧ m.counter ≤ u64Max := by
  simp only [parseTransport] at h
  split at h
  · cases h
  rename_i hlen
  simp only [bind_ok,getFrom_ok] at h
  obtain ⟨_,⟨_,h0⟩,⟨i,_⟩,h1,⟨c,ct⟩,h2,h⟩ := h
  dsimp only at h1 h2 h
  rw [drop_header] at h0
  have he : header 4++r = (TransportData.mk (leU32 i) (fromLe c.toList) ct).encode := by
    have hc : toLe 8 (fromLe c.toList) = c.toList := by simpa using toLe_fromLe c.toList
    simp only [TransportData.encode,u32Le_leU32,hc]
    rw [← h0,take_ok.mp h1,take_ok.mp h2]
  have hb := fromLe_lt c.toList
  rw [toList_length'] at hb
  refine ⟨_,(Except.ok.inj h).symm,he,?_,?_⟩
  · have hl := congrArg List.length he
    simp only [TransportData.encode,header,List.length_append,List.length_cons,
      List.length_nil,toList_length',toLe_length] at hl
    simp only [transportOverhead,header,List.length_append,List.length_cons,
      List.length_nil] at hlen
    dsimp only
    omega
  · unfold u64Max
    dsimp only
    omega

theorem headerWord_values : leU32 (headerWord 1) = 1 ∧ leU32 (headerWord 2) = 2 ∧
    leU32 (headerWord 3) = 3 ∧ leU32 (headerWord 4) = 4 := by decide

theorem HandshakeInitiation.encode_length (m : HandshakeInitiation) :
    m.encode.length = handshakeInitiationLen := by
  simp [HandshakeInitiation.encode,header,handshakeInitiationLen]

theorem HandshakeResponse.encode_length (m : HandshakeResponse) :
    m.encode.length = handshakeResponseLen := by
  simp [HandshakeResponse.encode,header,handshakeResponseLen]

theorem CookieReply.encode_length (m : CookieReply) : m.encode.length = cookieReplyLen := by
  simp [CookieReply.encode,header,cookieReplyLen]

/-- A datagram parses as an initiation exactly when it is the encoding of that
initiation, with the two authenticated prefixes cut from the datagram. -/
theorem parse_initiation_iff {d : List UInt8} {m : HandshakeInitiation} :
    parse d = .ok (.handshakeInitiation m) ↔
      d = m.encode ∧ m.alpha = d.take 116 ∧ m.beta = d.take 132 := by
  constructor
  · intro h
    obtain ⟨r,⟨rfl,h⟩ | ⟨rfl,h⟩ | ⟨rfl,h⟩ | ⟨rfl,h⟩⟩ := parse_cases h
    · obtain ⟨m',hm,he,ha,hb⟩ := parseInitiation_ok h
      cases hm
      rw [he]
      exact ⟨rfl,ha,hb⟩
    · obtain ⟨_,hm,_⟩ := parseResponse_ok h
      cases hm
    · obtain ⟨_,hm,_⟩ := parseCookieReply_ok h
      cases hm
    · obtain ⟨_,hm,_⟩ := parseTransport_ok h
      cases hm
  · rintro ⟨rfl,ha,hb⟩
    have hl := m.encode_length
    obtain ⟨s,e,st,ts,m1,m2,alpha,beta⟩ := m
    dsimp only at ha hb
    simp only [parse,HandshakeInitiation.encode,take_header,bind,Except.bind,
      headerWord_values.1,if_true] at hl ⊢
    have h116 : 116 ≤ handshakeInitiationLen := by decide
    have h132 : 132 ≤ handshakeInitiationLen := by decide
    have h4 : 4 ≤ handshakeInitiationLen := by decide
    simp only [parseInitiation,hl,ne_eq,not_true_eq_false,if_false,getTo,h116,h132,h4,getFrom,
      if_true,drop_header,bind,Except.bind,take_append]
    have h16 : take 16 m2.toList = .ok (m2,[]) := by simpa using take_append m2 []
    simp only [h16,not_true_eq_false,if_false,leU32_u32Le]
    rw [ha,hb]
    rfl

theorem parse_response_iff {d : List UInt8} {m : HandshakeResponse} :
    parse d = .ok (.handshakeResponse m) ↔
      d = m.encode ∧ m.alpha = d.take 60 ∧ m.beta = d.take 76 := by
  constructor
  · intro h
    obtain ⟨r,⟨rfl,h⟩ | ⟨rfl,h⟩ | ⟨rfl,h⟩ | ⟨rfl,h⟩⟩ := parse_cases h
    · obtain ⟨_,hm,_⟩ := parseInitiation_ok h
      cases hm
    · obtain ⟨m',hm,he,ha,hb⟩ := parseResponse_ok h
      cases hm
      rw [he]
      exact ⟨rfl,ha,hb⟩
    · obtain ⟨_,hm,_⟩ := parseCookieReply_ok h
      cases hm
    · obtain ⟨_,hm,_⟩ := parseTransport_ok h
      cases hm
  · rintro ⟨rfl,ha,hb⟩
    have hl := m.encode_length
    obtain ⟨s,i,e,n,m1,m2,alpha,beta⟩ := m
    dsimp only at ha hb
    have hne : (2 : UInt32) ≠ 1 := by decide
    simp only [parse,HandshakeResponse.encode,take_header,bind,Except.bind,
      headerWord_values.2.1,if_true,hne,if_false] at hl ⊢
    have h60 : 60 ≤ handshakeResponseLen := by decide
    have h76 : 76 ≤ handshakeResponseLen := by decide
    have h4 : 4 ≤ handshakeResponseLen := by decide
    simp only [parseResponse,hl,ne_eq,not_true_eq_false,if_false,getTo,h60,h76,h4,getFrom,
      if_true,drop_header,bind,Except.bind,take_append]
    have h16 : take 16 m2.toList = .ok (m2,[]) := by simpa using take_append m2 []
    simp only [h16,not_true_eq_false,if_false,leU32_u32Le]
    rw [ha,hb]
    rfl

theorem parse_cookie_iff {d : List UInt8} {m : CookieReply} :
    parse d = .ok (.cookieReply m) ↔ d = m.encode := by
  constructor
  · intro h
    obtain ⟨r,⟨rfl,h⟩ | ⟨rfl,h⟩ | ⟨rfl,h⟩ | ⟨rfl,h⟩⟩ := parse_cases h
    · obtain ⟨_,hm,_⟩ := parseInitiation_ok h
      cases hm
    · obtain ⟨_,hm,_⟩ := parseResponse_ok h
      cases hm
    · obtain ⟨m',hm,he⟩ := parseCookieReply_ok h
      cases hm
      exact he
    · obtain ⟨_,hm,_⟩ := parseTransport_ok h
      cases hm
  · rintro rfl
    have hl := m.encode_length
    obtain ⟨i,n,c⟩ := m
    have hne : (3 : UInt32) ≠ 1 ∧ (3 : UInt32) ≠ 2 := by decide
    simp only [parse,CookieReply.encode,take_header,bind,Except.bind,
      headerWord_values.2.2.1,if_true,hne.1,hne.2,if_false] at hl ⊢
    have h4 : 4 ≤ cookieReplyLen := by decide
    have h32 : take 32 c.toList = .ok (c,[]) := by simpa using take_append c []
    simp only [parseCookieReply,hl,ne_eq,not_true_eq_false,if_false,h4,getFrom,
      if_true,drop_header,bind,Except.bind,take_append,h32,leU32_u32Le]

theorem parse_transport_iff {d : List UInt8} {m : TransportData} :
    parse d = .ok (.transportData m) ↔
      d = m.encode ∧ 16 ≤ m.ciphertext.length ∧ m.counter ≤ u64Max := by
  constructor
  · intro h
    obtain ⟨r,⟨rfl,h⟩ | ⟨rfl,h⟩ | ⟨rfl,h⟩ | ⟨rfl,h⟩⟩ := parse_cases h
    · obtain ⟨_,hm,_⟩ := parseInitiation_ok h
      cases hm
    · obtain ⟨_,hm,_⟩ := parseResponse_ok h
      cases hm
    · obtain ⟨_,hm,_⟩ := parseCookieReply_ok h
      cases hm
    · obtain ⟨m',hm,he,hc,hn⟩ := parseTransport_ok h
      cases hm
      exact ⟨he,hc,hn⟩
  · rintro ⟨rfl,hc,hn⟩
    obtain ⟨i,c,ct⟩ := m
    dsimp only at hc hn
    have hne : (4 : UInt32) ≠ 1 ∧ (4 : UInt32) ≠ 2 ∧ (4 : UInt32) ≠ 3 := by decide
    have hlen : ¬(header 4++((u32Le i).toList++(toLe 8 c++ct))).length < transportOverhead := by
      simp [header,transportOverhead]
      omega
    have h4 : 4 ≤ (header 4++((u32Le i).toList++(toLe 8 c++ct))).length := by
      simp [header]
    have h8 : take 8 (toLe 8 c++ct) = .ok (leBytes 8 c,ct) := take_ok.mpr rfl
    have hv : fromLe (toLe 8 c) = c := by
      unfold u64Max at hn
      rw [fromLe_toLe,Nat.mod_eq_of_lt (by omega)]
    simp only [parse,TransportData.encode,take_header,bind,Except.bind,
      headerWord_values.2.2.2,if_true,hne.1,hne.2.1,hne.2.2,if_false]
    simp only [parseTransport,hlen,if_false,h4,getFrom,if_true,drop_header,bind,Except.bind,
      take_append,h8,leU32_u32Le,leBytes_toList,hv]

inductive PacketKind where
  | handshakeInitiation (senderIndex : UInt32)
  | handshakeResponse (senderIndex receiverIndex : UInt32)
  | cookieReply (receiverIndex : UInt32)
  | transportData (receiverIndex : UInt32) (counter : ℕ)
  deriving DecidableEq

def Packet.kind : Packet → PacketKind
  | .handshakeInitiation m => .handshakeInitiation m.senderIndex
  | .handshakeResponse m => .handshakeResponse m.senderIndex m.receiverIndex
  | .cookieReply m => .cookieReply m.receiverIndex
  | .transportData m => .transportData m.receiverIndex m.counter

def peek (datagram : List UInt8) : Except Error PacketKind := (parse datagram).map Packet.kind

def be16At (i : ℕ) (bytes : List UInt8) : Option ℕ :=
  match bytes.drop i with
  | a::b::_ => some (a.toNat*256+b.toNat)
  | _ => none

def ipPacketLen (payload : List UInt8) : Option ℕ := do
  let first ← payload.head?
  let claimed ←
    if first >>> 4 = 4 then do
      let ihlBytes := (first &&& 0x0f).toNat*4
      let total ← be16At 2 payload
      if 20 ≤ ihlBytes ∧ ihlBytes ≤ total then some total else none
    else if first >>> 4 = 6 then
      if 40 ≤ payload.length then (be16At 4 payload).map (fun n => n+40) else none
    else none
  if claimed ≤ payload.length then some claimed else none

end WireGuard
