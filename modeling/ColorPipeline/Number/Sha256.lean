-- SHA-256, the fingerprint of long number lists. A message is padded to whole
-- blocks of 64 bytes, and each block is mixed into eight words of state.

namespace ColorPipeline

namespace Sha256

/-- The first 32 bits of the fractions of the cube roots of the first 64
primes: one word for each round. -/
def roundWords : Array UInt32 :=
  #[
    0x428a2f98, 0x71374491, 0xb5c0fbcf, 0xe9b5dba5, 0x3956c25b, 0x59f111f1,
    0x923f82a4, 0xab1c5ed5, 0xd807aa98, 0x12835b01, 0x243185be, 0x550c7dc3,
    0x72be5d74, 0x80deb1fe, 0x9bdc06a7, 0xc19bf174, 0xe49b69c1, 0xefbe4786,
    0x0fc19dc6, 0x240ca1cc, 0x2de92c6f, 0x4a7484aa, 0x5cb0a9dc, 0x76f988da,
    0x983e5152, 0xa831c66d, 0xb00327c8, 0xbf597fc7, 0xc6e00bf3, 0xd5a79147,
    0x06ca6351, 0x14292967, 0x27b70a85, 0x2e1b2138, 0x4d2c6dfc, 0x53380d13,
    0x650a7354, 0x766a0abb, 0x81c2c92e, 0x92722c85, 0xa2bfe8a1, 0xa81a664b,
    0xc24b8b70, 0xc76c51a3, 0xd192e819, 0xd6990624, 0xf40e3585, 0x106aa070,
    0x19a4c116, 0x1e376c08, 0x2748774c, 0x34b0bcb5, 0x391c0cb3, 0x4ed8aa4a,
    0x5b9cca4f, 0x682e6ff3, 0x748f82ee, 0x78a5636f, 0x84c87814, 0x8cc70208,
    0x90befffa, 0xa4506ceb, 0xbef9a3f7, 0xc67178f2]

/-- The eight words that each block is mixed into. -/
structure State where
  a : UInt32
  b : UInt32
  c : UInt32
  d : UInt32
  e : UInt32
  f : UInt32
  g : UInt32
  h : UInt32

/-- The first 32 bits of the fractions of the square roots of the first eight
primes. -/
def State.first : State :=
  ⟨0x6a09e667, 0xbb67ae85, 0x3c6ef372, 0xa54ff53a,
    0x510e527f, 0x9b05688c, 0x1f83d9ab, 0x5be0cd19⟩

/-- The words added one by one. -/
def State.add (s t : State) : State :=
  ⟨s.a + t.a, s.b + t.b, s.c + t.c, s.d + t.d, s.e + t.e, s.f + t.f, s.g + t.g, s.h + t.h⟩

def rotateRight (x n : UInt32) : UInt32 := (x >>> n) ||| (x <<< (32 - n))

/-- One round, with a word of the schedule and the word of the round. -/
def State.round (s : State) (w k : UInt32) : State :=
  let s1 := rotateRight s.e 6 ^^^ rotateRight s.e 11 ^^^ rotateRight s.e 25
  let choice := (s.e &&& s.f) ^^^ (s.e.complement &&& s.g)
  let t1 := s.h + s1 + choice + k + w
  let s0 := rotateRight s.a 2 ^^^ rotateRight s.a 13 ^^^ rotateRight s.a 22
  let majority := (s.a &&& s.b) ^^^ (s.a &&& s.c) ^^^ (s.b &&& s.c)
  ⟨t1 + (s0 + majority), s.a, s.b, s.c, s.d + t1, s.e, s.f, s.g⟩

/-- The message, a byte 0x80, zeros up to eight bytes before the end of a
block, and the number of bits of the message in eight bytes. -/
def pad (message : ByteArray) : ByteArray :=
  let zeros := (119 - message.size % 64) % 64
  let ended := zeros.fold (fun _ _ bytes => bytes.push 0) (message.push 0x80)
  Nat.fold 8 (fun i _ bytes => bytes.push (UInt8.ofNat ((message.size * 8) >>> (8 * (7 - i))))) ended

/-- The byte at `i`, and 0 beyond the end. -/
def byteAt (bytes : ByteArray) (i : Nat) : UInt32 := (bytes[i]?.getD 0).toUInt32

/-- The four bytes from `i` on as one word, the first byte on top. -/
def wordAt (bytes : ByteArray) (i : Nat) : UInt32 :=
  (byteAt bytes i <<< 24) ||| (byteAt bytes (i + 1) <<< 16) |||
    (byteAt bytes (i + 2) <<< 8) ||| byteAt bytes (i + 3)

/-- The 64 words of the schedule of the block that starts at `start`: its 16
words, and 48 more, each mixed from four before it. -/
def schedule (bytes : ByteArray) (start : Nat) : Array UInt32 :=
  let words := Nat.fold 16 (fun i _ ws => ws.push (wordAt bytes (start + 4 * i))) (#[] : Array UInt32)
  Nat.fold 48
    (fun i _ ws =>
      let near := ws.getD (i + 14) 0
      let far := ws.getD (i + 1) 0
      let s1 := rotateRight near 17 ^^^ rotateRight near 19 ^^^ (near >>> 10)
      let s0 := rotateRight far 7 ^^^ rotateRight far 18 ^^^ (far >>> 3)
      ws.push (ws.getD i 0 + s0 + ws.getD (i + 9) 0 + s1))
    words

/-- The state after the block that starts at `start`. -/
def State.block (bytes : ByteArray) (s : State) (start : Nat) : State :=
  let ws := schedule bytes start
  s.add (Nat.fold 64 (fun i _ t => t.round (ws.getD i 0) (roundWords.getD i 0)) s)

/-- A word as eight hex digits. -/
def hexWord (w : UInt32) : List Char :=
  (List.range 8).map fun i => Nat.digitChar ((w.toNat >>> (4 * (7 - i))) % 16)

/-- The digest of a message as 64 hex digits. -/
def hex (message : ByteArray) : String :=
  let bytes := pad message
  let s := Nat.fold (bytes.size / 64) (fun i _ t => State.block bytes t (64 * i)) State.first
  String.ofList ([s.a, s.b, s.c, s.d, s.e, s.f, s.g, s.h].flatMap hexWord)

end Sha256

end ColorPipeline
