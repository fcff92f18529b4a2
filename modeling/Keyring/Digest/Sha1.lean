import Keyring.Bytes
/-!
This module contains the digest SHA-1 of byte strings.
-/

namespace Keyring.Digest.Sha1

def size : Nat := 20

/-- The size of the blocks that a message is cut into, in bytes. -/
def blockSize : Nat := 64

def rotateLeft (n : UInt32) (w : UInt32) : UInt32 :=
  (w <<< n) ||| (w >>> (32 - n))

structure State where
  a : UInt32
  b : UInt32
  c : UInt32
  d : UInt32
  e : UInt32

namespace State

def initial : State :=
  ⟨0x67452301, 0xefcdab89, 0x98badcfe, 0x10325476, 0xc3d2e1f0⟩

def add (s t : State) : State :=
  ⟨s.a + t.a, s.b + t.b, s.c + t.c, s.d + t.d, s.e + t.e⟩

def toBytes (s : State) : Bytes :=
  [s.a, s.b, s.c, s.d, s.e].flatMap fun w => Bytes.bigEndian 4 w.toNat

end State

/-- The big-endian words of a block. -/
def words : Bytes → List UInt32
  | a :: b :: c :: d :: rest =>
    ((a.toUInt32 <<< 24) ||| (b.toUInt32 <<< 16) ||| (c.toUInt32 <<< 8) ||| d.toUInt32) ::
      words rest
  | _ => []

def extend : Nat → List UInt32 → List UInt32
  | 0, ws => ws
  | n + 1, ws =>
    let w := ws.getD 2 0 ^^^ ws.getD 7 0 ^^^ ws.getD 13 0 ^^^ ws.getD 15 0
    extend n (rotateLeft 1 w :: ws)

/-- The 80 words that a block feeds into the rounds. -/
def schedule (block : Bytes) : List UInt32 :=
  (extend 64 (words block).reverse).reverse

/-- The mixing function of a round and its constant. -/
def mix (round : Nat) (s : State) : UInt32 × UInt32 :=
  if round < 20 then
    ((s.b &&& s.c) ||| (~~~s.b &&& s.d), 0x5a827999)
  else if round < 40 then
    (s.b ^^^ s.c ^^^ s.d, 0x6ed9eba1)
  else if round < 60 then
    ((s.b &&& s.c) ||| (s.b &&& s.d) ||| (s.c &&& s.d), 0x8f1bbcdc)
  else
    (s.b ^^^ s.c ^^^ s.d, 0xca62c1d6)

def step (s : State) (w : UInt32 × Nat) : State :=
  let (f, k) := mix w.2 s
  ⟨rotateLeft 5 s.a + f + s.e + k + w.1, s.a, rotateLeft 30 s.b, s.c, s.d⟩

def compress (s : State) (block : Bytes) : State :=
  ((schedule block).zipIdx.foldl step s).add s

/-- A message followed by a one bit, zeros and its length in bits, up to whole blocks. -/
def pad (message : Bytes) : Bytes :=
  message ++ 0x80 :: List.replicate ((119 - message.length % 64) % 64) 0 ++
    Bytes.bigEndian 8 (8 * message.length)

def digest (message : Bytes) : Bytes :=
  (((pad message).blocks blockSize).foldl compress State.initial).toBytes

@[simp]
theorem length_digest (message : Bytes) : (digest message).length = size := by
  simp [digest, State.toBytes, size]

end Keyring.Digest.Sha1
