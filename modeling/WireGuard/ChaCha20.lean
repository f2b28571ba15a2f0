import WireGuard.Aead
import WireGuard.Library.Lanes
import Mathlib.Tactic.IntervalCases

/-!
# ChaCha20, one block and several at a time

The rounds are written over any kind of word, so that the scalar cipher and the
vector backends run the same program. A backend with four lanes computes four
blocks at once and then turns its registers, which hold one word of each block,
into rows, which hold four words of one block.
-/

set_option autoImplicit false

namespace WireGuard.ChaCha20
open ByteString Lanes

/-- What the rounds do with a word, or with a vector of words. -/
structure WordOps (α : Type) where
  add : α → α → α
  xor : α → α → α
  rotl16 : α → α
  rotl12 : α → α
  rotl8 : α → α
  rotl7 : α → α

section Rounds

variable {α : Type} (W : WordOps α)

def qr (a b c d : α) : α × α × α × α :=
  let a := W.add a b
  let d := W.rotl16 (W.xor d a)
  let c := W.add c d
  let b := W.rotl12 (W.xor b c)
  let a := W.add a b
  let d := W.rotl8 (W.xor d a)
  let c := W.add c d
  let b := W.rotl7 (W.xor b c)
  (a,b,c,d)

def doubleRound (x : Vector α 16) : Vector α 16 :=
  let x := at4 (qr W) 0 4 8 12 x
  let x := at4 (qr W) 1 5 9 13 x
  let x := at4 (qr W) 2 6 10 14 x
  let x := at4 (qr W) 3 7 11 15 x
  let x := at4 (qr W) 0 5 10 15 x
  let x := at4 (qr W) 1 6 11 12 x
  let x := at4 (qr W) 2 7 8 13 x
  at4 (qr W) 3 4 9 14 x

def permute (state : Vector α 16) : Vector α 16 := (doubleRound W)^[10] state

def worked (state : Vector α 16) : Vector α 16 := Vector.zipWith W.add (permute W state) state

end Rounds

def u32 : WordOps UInt32 where
  add a b := a+b
  xor a b := a ^^^ b
  rotl16 := rotateLeft 16
  rotl12 := rotateLeft 12
  rotl8 := rotateLeft 8
  rotl7 := rotateLeft 7

def sigma : Vector UInt32 4 := #v[0x61707865,0x3320646e,0x79622d32,0x6b206574]

def words {n : ℕ} (bytes : Bytes (4*n)) : Vector UInt32 n := Vector.ofFn (fun i =>
  word (bytes.get ⟨4*i.val,by omega⟩) (bytes.get ⟨4*i.val+1,by omega⟩)
    (bytes.get ⟨4*i.val+2,by omega⟩) (bytes.get ⟨4*i.val+3,by omega⟩))

def keyWords (key : Bytes 32) : Vector UInt32 8 := words (n := 8) key

def nonceWords (nonce : Bytes 12) : Vector UInt32 3 := words (n := 3) nonce

/-- The state before the rounds, from the registers for a constant and for the
counters. -/
def initial {α : Type} (splat : UInt32 → α) (ctrs : α) (key : Vector UInt32 8)
    (nonce : Vector UInt32 3) : Vector α 16 :=
  #v[splat (lane sigma 0),splat (lane sigma 1),splat (lane sigma 2),splat (lane sigma 3),
    splat (key.get 0),splat (key.get 1),splat (key.get 2),splat (key.get 3),
    splat (key.get 4),splat (key.get 5),splat (key.get 6),splat (key.get 7),
    ctrs,splat (nonce.get 0),splat (nonce.get 1),splat (nonce.get 2)]

def blockWords (key : Vector UInt32 8) (nonce : Vector UInt32 3) (counter : UInt32) :
    Vector UInt32 16 :=
  worked u32 (initial id counter key nonce)

def serialize (x : Vector UInt32 16) : List UInt8 :=
  x.toList.flatMap (fun w => toLe 4 w.toNat)

@[simp] theorem serialize_length (x : Vector UInt32 16) : (serialize x).length = 64 := by
  simp [serialize]

def block (key : Bytes 32) (counter : UInt32) (nonce : Bytes 12) : Bytes 64 :=
  ofList 64 (serialize (blockWords (keyWords key) (nonceWords nonce) counter))
    (serialize_length _)

-- RFC 8439, section 2.3.2.
set_option maxRecDepth 10000 in
example : (block (.ofFn (fun i => UInt8.ofNat i.val)) 1
    ⟨[0,0,0,9,0,0,0,0x4a,0,0,0,0],rfl⟩).toList =
    [0x10,0xf1,0xe7,0xe4,0xd1,0x3b,0x59,0x15,0x50,0x0f,0xdd,0x1f,0xa3,0x20,0x71,0xc4,
      0xc7,0xd1,0xf4,0xc7,0x33,0xc0,0x68,0x03,0x04,0x22,0xaa,0x9a,0xc3,0xd4,0x6c,0x4e,
      0xd2,0x82,0x64,0x46,0x07,0x9f,0xaa,0x09,0x14,0xc2,0xd7,0x05,0xd9,0x8b,0x02,0xa2,
      0xb5,0x12,0x9c,0xd1,0xde,0x16,0x4e,0xb9,0xcb,0xd0,0x83,0xe8,0xa2,0x50,0x3c,0x4e] := by
  decide +kernel

def suite (P : Primitives) : Primitives := {P with block := block}

section Homomorphism

variable {α β : Type}

/-- The function turns the operations of one kind of word into those of another. -/
structure WordOps.Hom (W : WordOps α) (V : WordOps β) (g : α → β) : Prop where
  add : ∀ a b, g (W.add a b) = V.add (g a) (g b)
  xor : ∀ a b, g (W.xor a b) = V.xor (g a) (g b)
  rotl16 : ∀ a, g (W.rotl16 a) = V.rotl16 (g a)
  rotl12 : ∀ a, g (W.rotl12 a) = V.rotl12 (g a)
  rotl8 : ∀ a, g (W.rotl8 a) = V.rotl8 (g a)
  rotl7 : ∀ a, g (W.rotl7 a) = V.rotl7 (g a)

variable {W : WordOps α} {V : WordOps β} {g : α → β}

theorem qr_comp (h : W.Hom V g) (a b c d : α) :
    qr V (g a) (g b) (g c) (g d) = map4 g (qr W a b c d) := by
  simp only [qr,map4,h.add,h.xor,h.rotl16,h.rotl12,h.rotl8,h.rotl7]

theorem doubleRound_map (h : W.Hom V g) (x : Vector α 16) :
    doubleRound V (x.map g) = (doubleRound W x).map g := by
  simp only [doubleRound,at4_map (qr_comp h)]

theorem permute_map (h : W.Hom V g) (x : Vector α 16) :
    permute V (x.map g) = (permute W x).map g :=
  iterate_comp (doubleRound_map h) 10 x

theorem worked_map (h : W.Hom V g) (x : Vector α 16) : worked V (x.map g) = (worked W x).map g := by
  ext i hi
  simp [worked,permute_map h,h.add]

theorem initial_map {splat : UInt32 → α} {splat' : UInt32 → β} (h : ∀ x, g (splat x) = splat' x)
    (ctrs : α) (key : Vector UInt32 8) (nonce : Vector UInt32 3) :
    initial splat' (g ctrs) key nonce = (initial splat ctrs key nonce).map g := by
  simp [initial,h]

end Homomorphism

def transposed {α : Type} (f : α → α → α → α → α × α × α × α) (x : Vector α 16) : Vector α 16 :=
  let x := at4 f 0 1 2 3 x
  let x := at4 f 4 5 6 7 x
  let x := at4 f 8 9 10 11 x
  at4 f 12 13 14 15 x

theorem transposed_map {α β : Type} {f : α → α → α → α → α × α × α × α}
    {f' : β → β → β → β → β × β × β × β} {g : α → β}
    (h : ∀ a b c d, f' (g a) (g b) (g c) (g d) = map4 g (f a b c d)) (x : Vector α 16) :
    transposed f' (x.map g) = (transposed f x).map g := by
  simp only [transposed,at4_map h]

/-- The blocks of `n` counters in a row; the counter wraps. -/
def blocks (n : ℕ) (key : Vector UInt32 8) (nonce : Vector UInt32 3) (counter : UInt32) :
    List UInt8 :=
  (List.range n).flatMap (fun i => serialize (blockWords key nonce (counter+UInt32.ofNat i)))

theorem blocks_add (m n : ℕ) (key : Vector UInt32 8) (nonce : Vector UInt32 3) (ctr : UInt32) :
    blocks (m+n) key nonce ctr =
      blocks m key nonce ctr++blocks n key nonce (ctr+UInt32.ofNat m) := by
  unfold blocks
  rw [List.range_add,List.flatMap_append,List.flatMap_map]
  simp only [UInt32.ofNat_add,UInt32.add_assoc]

def reg {α : Type} (x : Vector α 16) (i : ℕ) : α := x.get (Fin.ofNat 16 i)

/-- What a backend with four lanes takes from its instruction set. -/
structure Four where
  ops : WordOps Vec
  splat : UInt32 → Vec
  ctrs : UInt32 → Vec
  transpose4 : Vec → Vec → Vec → Vec → Vec × Vec × Vec × Vec

def Four.fourBlocks (V : Four) (key : Vector UInt32 8) (nonce : Vector UInt32 3) (ctr : UInt32) :
    List UInt8 :=
  let x := transposed V.transpose4 (worked V.ops (initial V.splat (V.ctrs ctr) key nonce))
  [(0,bytes (reg x 0)),(16,bytes (reg x 4)),(32,bytes (reg x 8)),(48,bytes (reg x 12)),
    (64,bytes (reg x 1)),(80,bytes (reg x 5)),(96,bytes (reg x 9)),(112,bytes (reg x 13)),
    (128,bytes (reg x 2)),(144,bytes (reg x 6)),(160,bytes (reg x 10)),(176,bytes (reg x 14)),
    (192,bytes (reg x 3)),(208,bytes (reg x 7)),(224,bytes (reg x 11)),(240,bytes (reg x 15))].foldl store
      (List.replicate 256 0)

/-- The lanes are independent and hold consecutive counters, and transposing is
what its name says. -/
structure Four.Lawful (V : Four) : Prop where
  lanewise : ∀ i : Fin 4, V.ops.Hom u32 (fun v => v.get i)
  splat : ∀ x, ∀ i : Fin 4, (V.splat x).get i = x
  ctrs : ∀ c, ∀ i : Fin 4, (V.ctrs c).get i = c+UInt32.ofNat i.val
  transpose4 : ∀ p q r s, V.transpose4 p q r s =
    (quad (lane p 0) (lane q 0) (lane r 0) (lane s 0),
      quad (lane p 1) (lane q 1) (lane r 1) (lane s 1),
      quad (lane p 2) (lane q 2) (lane r 2) (lane s 2),
      quad (lane p 3) (lane q 3) (lane r 3) (lane s 3))

def rows (x : Vector Vec 16) : List (List UInt8) :=
  [bytes (reg x 0),bytes (reg x 4),bytes (reg x 8),bytes (reg x 12),
    bytes (reg x 1),bytes (reg x 5),bytes (reg x 9),bytes (reg x 13),
    bytes (reg x 2),bytes (reg x 6),bytes (reg x 10),bytes (reg x 14),
    bytes (reg x 3),bytes (reg x 7),bytes (reg x 11),bytes (reg x 15)]

theorem serialize_eq (y : Vector UInt32 16) : serialize y =
    toLe 4 y[0].toNat++toLe 4 y[1].toNat++toLe 4 y[2].toNat++toLe 4 y[3].toNat++
    toLe 4 y[4].toNat++toLe 4 y[5].toNat++toLe 4 y[6].toNat++toLe 4 y[7].toNat++
    toLe 4 y[8].toNat++toLe 4 y[9].toNat++toLe 4 y[10].toNat++toLe 4 y[11].toNat++
    toLe 4 y[12].toNat++toLe 4 y[13].toNat++toLe 4 y[14].toNat++toLe 4 y[15].toNat := by
  have hy : y = #v[y[0],y[1],y[2],y[3],y[4],y[5],y[6],y[7],y[8],y[9],y[10],y[11],y[12],y[13],
      y[14],y[15]] := by
    ext i hi
    interval_cases i <;> rfl
  unfold serialize
  rw [hy]
  simp

theorem rows_length (x : Vector Vec 16) : (rows x).flatten.length = 256 := by simp [rows]

theorem store_rows (x : Vector Vec 16) :
    [(0,bytes (reg x 0)),(16,bytes (reg x 4)),(32,bytes (reg x 8)),(48,bytes (reg x 12)),
      (64,bytes (reg x 1)),(80,bytes (reg x 5)),(96,bytes (reg x 9)),(112,bytes (reg x 13)),
      (128,bytes (reg x 2)),(144,bytes (reg x 6)),(160,bytes (reg x 10)),(176,bytes (reg x 14)),
      (192,bytes (reg x 3)),(208,bytes (reg x 7)),(224,bytes (reg x 11)),(240,bytes (reg x 15))].foldl store
        (List.replicate 256 0) = (rows x).flatten := by
  have hf := foldl_store (rows x) [] (List.replicate 256 0)
  rw [rows_length,List.drop_replicate,Nat.sub_self,List.replicate_zero,List.append_nil,
    List.nil_append,List.nil_append] at hf
  rw [← hf]
  simp only [offsets,rows,bytes_length,List.length_nil]

section Lanes

variable {V : Four} (h : V.Lawful)

include h

theorem Four.Lawful.rows_transposed (x : Vector Vec 16) :
    (rows (transposed V.transpose4 x)).flatten =
      serialize (x.map (fun v => v.get 0))++serialize (x.map (fun v => v.get 1))++
        serialize (x.map (fun v => v.get 2))++serialize (x.map (fun v => v.get 3)) := by
  simp [rows,transposed,at4,serialize_eq,bytes,h.transpose4,reg,lane,get_eq,quad]

theorem Four.Lawful.lane_worked (key : Vector UInt32 8) (nonce : Vector UInt32 3) (ctr : UInt32)
    (i : Fin 4) : (worked V.ops (initial V.splat (V.ctrs ctr) key nonce)).map (fun v => v.get i) =
      blockWords key nonce (ctr+UInt32.ofNat i.val) := by
  rw [← worked_map (h.lanewise i),
    ← initial_map (fun x => show (V.splat x).get i = id x from h.splat x i),h.ctrs]
  rfl

theorem Four.Lawful.rows_worked (key : Vector UInt32 8) (nonce : Vector UInt32 3)
    (ctr : UInt32) : (rows (transposed V.transpose4
      (worked V.ops (initial V.splat (V.ctrs ctr) key nonce)))).flatten =
        blocks 4 key nonce ctr := by
  have h0 := h.lane_worked key nonce ctr 0
  have h1 := h.lane_worked key nonce ctr 1
  have h2 := h.lane_worked key nonce ctr 2
  have h3 := h.lane_worked key nonce ctr 3
  rw [h.rows_transposed,h0,h1,h2,h3]
  simp [blocks,List.range_succ]

theorem Four.Lawful.fourBlocks_eq (key : Vector UInt32 8) (nonce : Vector UInt32 3)
    (ctr : UInt32) : V.fourBlocks key nonce ctr = blocks 4 key nonce ctr := by
  rw [← h.rows_worked]
  unfold fourBlocks
  exact store_rows _

end Lanes

end WireGuard.ChaCha20
