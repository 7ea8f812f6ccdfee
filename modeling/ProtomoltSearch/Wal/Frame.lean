import Mathlib

/-!
# Frames of the write-ahead log

A frame is `[u32 length][u32 crc32][payload]`, little-endian (`wal.rs`). Reading one ends in one of
three ways: a frame, a clean end of the file, or a torn tail. A frame whose checksum does not match
its payload is an error at its offset.
-/

namespace ProtomoltSearch.Wal

open List

abbrev Bytes := List UInt8

/-- One entry of `CRC_TABLE`. -/
def crcTable (i : BitVec 8) : BitVec 32 :=
  (List.range 8).foldl
    (fun c _ => if c &&& 1#32 ≠ 0#32 then 0xEDB88320#32 ^^^ (c >>> 1) else c >>> 1)
    (i.setWidth 32)

def lowByte (c : BitVec 32) : BitVec 8 := c.setWidth 8

/-- One entry of `SLICE_TABLE`. -/
def sliceTable : ℕ → BitVec 8 → BitVec 32
  | 0, i => crcTable i
  | k + 1, i =>
    let c := sliceTable k i
    crcTable (lowByte c) ^^^ (c >>> 8)

def word (a b c d : UInt8) : BitVec 32 :=
  BitVec.ofNat 32 (a.toNat + 256 * b.toNat + 65536 * c.toNat + 16777216 * d.toNat)

/-- The running checksum over the rest of the data: eight bytes at a time, then one. -/
def crcFrom : BitVec 32 → Bytes → BitVec 32
  | c, b₀ :: b₁ :: b₂ :: b₃ :: b₄ :: b₅ :: b₆ :: b₇ :: rest =>
    let lo := word b₀ b₁ b₂ b₃ ^^^ c
    let hi := word b₄ b₅ b₆ b₇
    crcFrom (sliceTable 7 (lowByte lo) ^^^ sliceTable 6 (lowByte (lo >>> 8)) ^^^
      sliceTable 5 (lowByte (lo >>> 16)) ^^^ sliceTable 4 (lowByte (lo >>> 24)) ^^^
      sliceTable 3 (lowByte hi) ^^^ sliceTable 2 (lowByte (hi >>> 8)) ^^^
      sliceTable 1 (lowByte (hi >>> 16)) ^^^ sliceTable 0 (lowByte (hi >>> 24))) rest
  | c, b :: rest => crcFrom (crcTable (lowByte (c ^^^ b.toBitVec.setWidth 32)) ^^^ (c >>> 8)) rest
  | c, [] => c

/-- CRC32 of `data`, with the IEEE 802.3 polynomial, reflected. -/
def crc32 (data : Bytes) : BitVec 32 := ~~~ crcFrom (~~~ 0#32) data

/-- The check value of the polynomial. -/
example : crc32 "123456789".toUTF8.data.toList = 0xCBF43926#32 := by decide +kernel

/-- The four bytes of a word, little-endian. -/
def toLeBytes (x : BitVec 32) : Bytes :=
  [UInt8.ofNat x.toNat, UInt8.ofNat (x.toNat / 256), UInt8.ofNat (x.toNat / 65536),
    UInt8.ofNat (x.toNat / 16777216)]

/-- The word of four bytes. -/
def fromLeBytes : Bytes → BitVec 32
  | [a, b, c, d] => word a b c d
  | _ => 0

/-- The bytes written for a payload; the length is cast to 32 bits. -/
def writeFrame (payload : Bytes) : Bytes :=
  toLeBytes (BitVec.ofNat 32 payload.length) ++ toLeBytes (crc32 payload) ++ payload

inductive FrameRead where
  | frame (payload rest : Bytes)
  | done
  | torn
  deriving DecidableEq

/-- What the log's readers refuse. -/
inductive WalError where
  | crcMismatch (offset : ℕ)
  | undecodable (offset : ℕ)
  | seqGap (offset expected got : ℕ)
  | legacyUnclocked
  | clockGap (expected got : ℕ)
  deriving DecidableEq

/-- Read one frame at `offset`. -/
def readFrame (offset : ℕ) (bytes : Bytes) : Except WalError FrameRead :=
  if bytes.isEmpty then .ok .done
  else if bytes.length < 4 then .ok .torn
  else
    let len := (fromLeBytes (bytes.take 4)).toNat
    let afterLen := bytes.drop 4
    if afterLen.length < 4 then .ok .torn
    else
      let body := afterLen.drop 4
      if body.length < len then .ok .torn
      else
        let payload := body.take len
        if crc32 payload ≠ fromLeBytes (afterLen.take 4) then .error (.crcMismatch offset)
        else .ok (.frame payload (body.drop len))

@[simp] lemma length_toLeBytes (x : BitVec 32) : (toLeBytes x).length = 4 := rfl

@[simp] lemma length_writeFrame (payload : Bytes) :
    (writeFrame payload).length = 8 + payload.length := by
  simp [writeFrame]
  omega

@[simp] lemma fromLeBytes_toLeBytes (x : BitVec 32) : fromLeBytes (toLeBytes x) = x := by
  apply BitVec.eq_of_toNat_eq
  simp only [toLeBytes, fromLeBytes, word, BitVec.toNat_ofNat, UInt8.toNat_ofNat']
  omega

/-- **A written frame is read back**, whatever follows it. -/
theorem readFrame_writeFrame {payload : Bytes} (h : payload.length < 2 ^ 32) (offset : ℕ)
    (rest : Bytes) : readFrame offset (writeFrame payload ++ rest) = .ok (.frame payload rest) := by
  have hlen : (BitVec.ofNat 32 payload.length).toNat = payload.length := by
    exact Nat.mod_eq_of_lt h
  have hbytes : writeFrame payload ++ rest = toLeBytes (BitVec.ofNat 32 payload.length) ++
      (toLeBytes (crc32 payload) ++ (payload ++ rest)) := by
    simp [writeFrame]
  unfold readFrame
  rw [hbytes, if_neg (by simp [toLeBytes]), if_neg (by simp)]
  simp only [take_left' (length_toLeBytes _), drop_left' (length_toLeBytes _),
    fromLeBytes_toLeBytes, hlen]
  rw [if_neg (by simp), if_neg (by simp), take_left, drop_left, if_neg (by simp)]

/-- A proper part of a frame reads as a torn tail, or as the end when nothing is left of it. -/
lemma readFrame_of_torn {payload torn : Bytes} (h : payload.length < 2 ^ 32) (offset : ℕ)
    (hp : torn <+: writeFrame payload) (hlt : torn.length < (writeFrame payload).length) :
    readFrame offset torn = .ok .done ∨ readFrame offset torn = .ok .torn := by
  have hlen : (BitVec.ofNat 32 payload.length).toNat = payload.length := by
    exact Nat.mod_eq_of_lt h
  rw [length_writeFrame] at hlt
  unfold readFrame
  split
  · exact .inl rfl
  · split
    · exact .inr rfl
    · -- the length is there whole, so it is the payload's, and the body is short of it
      have htake : torn.take 4 = toLeBytes (BitVec.ofNat 32 payload.length) := by
        obtain ⟨t, ht⟩ := hp
        have := congrArg (List.take 4) ht
        rw [take_append_of_le_length (by omega)] at this
        rw [this, writeFrame, append_assoc, take_left' (length_toLeBytes _)]
      dsimp only
      rw [htake, fromLeBytes_toLeBytes]
      right
      split
      · rfl
      · rename_i h8
        rw [length_drop] at h8
        rw [if_pos]
        simp only [length_drop]
        omega

lemma readFrame_nil (offset : ℕ) : readFrame offset [] = .ok .done := rfl

end ProtomoltSearch.Wal
