import Keyring.Error
import Keyring.Digest.Sha1
/-!
This module contains the source of all randomness: an endless stream of bytes and a position in it
that carries over from one draw to the next.
-/

namespace Keyring

/-- An endless stream of bytes, some of which have been drawn. -/
structure RandomSource where
  byteAt : Nat → UInt8
  drawn : Nat := 0

/-- A computation that draws randomness and may fail. What it drew before it fails stays drawn. -/
abbrev Drawing := EStateM Error RandomSource

namespace RandomSource

def draw (n : Nat) (source : RandomSource) : Bytes × RandomSource :=
  ((List.range' source.drawn n).map source.byteAt, { source with drawn := source.drawn + n })

/-- Hands out some bytes in order and starts over at their end. Without any, all bytes are zero. -/
def cycle (bs : Array UInt8) : RandomSource :=
  ⟨fun i => bs.getD (i % bs.size) 0, 0⟩

/-- The digests of a seed and a counter, one after another. -/
def ofSeed (seed : Nat) : RandomSource :=
  ⟨fun i =>
    let block := Digest.Sha1.digest (Bytes.bigEndian 8 seed ++ Bytes.bigEndian 8 (i / 20))
    block.getD (i % 20) 0, 0⟩

@[simp]
theorem length_draw (n : Nat) (source : RandomSource) : (source.draw n).1.length = n := by
  simp [draw]

end RandomSource

namespace Drawing

def bytes (n : Nat) : Drawing Bytes :=
  fun source =>
    let (bs, source) := source.draw n
    .ok bs source

end Drawing

end Keyring
