import Keyring.Deflate.Compress
import Keyring.Deflate.Inflate
import Keyring.Digest.Checksum
import Keyring.Error
/-!
This module contains the compression of plaintexts. A ciphertext does not tell which compression it
was made under, so both sides have to agree on one.
-/

namespace Keyring

/-- What is done to a plaintext before it is encrypted. -/
inductive Compression where
  | none
  | gzip
  | zlib
deriving DecidableEq, Repr

namespace Compression

instance : Choice Compression where
  all := [.none, .gzip, .zlib]
  name
    | .none => "none"
    | .gzip => "gzip"
    | .zlib => "zlib"

namespace Zlib

/-- Compressed data between two bytes that tell its method and its checksum. -/
def wrap (data : Bytes) : Bytes :=
  0x78 :: 0x9c :: Deflate.compress data ++
    Bytes.bigEndian 4 (Digest.Adler32.checksum data).toNat

def isHeader (method flags : UInt8) : Bool :=
  (method.toNat * 256 + flags.toNat) % 31 = 0 ∧ method.toNat % 16 = 8 ∧ method.toNat / 16 ≤ 7 ∧
    flags &&& 0x20 = 0

/-- Data after a header without a dictionary. What follows its checksum does not matter. -/
def unwrap? : Bytes → Option Bytes
  | method :: flags :: rest => do
    if isHeader method flags then
      let (data, rest) ← Deflate.inflate? rest
      if rest.take 4 = Bytes.bigEndian 4 (Digest.Adler32.checksum data).toNat then
        return data
      else
        Option.none
    else
      Option.none
  | _ => Option.none

end Zlib

namespace Gzip

def header : Bytes :=
  [0x1f, 0x8b, 0x08, 0, 0, 0, 0, 0, 0, 0xff]

def trailer (data : Bytes) : Bytes :=
  Bytes.littleEndian 4 (Digest.Crc32.checksum data).toNat ++ Bytes.littleEndian 4 data.length

def wrap (data : Bytes) : Bytes :=
  header ++ Deflate.compress data ++ trailer data

/-- Skips the additional bytes of a header, which follow their number. -/
def skipExtra? : Bytes → Option Bytes
  | low :: high :: rest =>
    let n := low.toNat + 256 * high.toNat
    if n ≤ rest.length then some (rest.drop n) else Option.none
  | _ => Option.none

/-- Skips a text that ends in a zero byte. -/
def skipText? (bs : Bytes) : Option Bytes :=
  match bs.dropWhile (· ≠ 0) with
  | _ :: rest => some rest
  | [] => Option.none

/-- Skips what a header has beyond its ten bytes, as its flags tell. -/
def skipOptional? (flags : UInt8) (whole rest : Bytes) : Option Bytes := do
  let rest ← if flags &&& 4 = 0 then some rest else skipExtra? rest
  let rest ← if flags &&& 8 = 0 then some rest else skipText? rest
  let rest ← if flags &&& 16 = 0 then some rest else skipText? rest
  if flags &&& 2 = 0 then
    return rest
  else
    let check := Digest.Crc32.checksum (whole.take (whole.length - rest.length))
    if rest.length ≥ 2 ∧ rest.take 2 = Bytes.littleEndian 2 check.toNat then
      return rest.drop 2
    else
      Option.none

def unwrap? (bs : Bytes) : Option Bytes := do
  match bs with
  | 0x1f :: 0x8b :: 0x08 :: flags :: _ =>
    if bs.length < 10 ∨ flags &&& 0xe0 ≠ 0 then
      Option.none
    else
      let rest ← skipOptional? flags bs (bs.drop 10)
      let (data, rest) ← Deflate.inflate? rest
      if rest.take 8 = trailer data then return data else Option.none
  | _ => Option.none

end Gzip

/-- What an encoder makes of data. Memory takes all that it writes. -/
def compress? (c : Compression) (data : Bytes) : Option Bytes :=
  match c with
  | .none => some data
  | .gzip => some (Gzip.wrap data)
  | .zlib => some (Zlib.wrap data)

def compress (c : Compression) (data : Bytes) : Except Error Bytes :=
  match c.compress? data with
  | some packed => .ok packed
  | Option.none => .error (.compressionFailed "couldn't compress plaintext")

def decompress? (c : Compression) (data : Bytes) : Option Bytes :=
  match c with
  | .none => some data
  | .gzip => Gzip.unwrap? data
  | .zlib => Zlib.unwrap? data

def decompress (c : Compression) (data : Bytes) : Except Error Bytes :=
  match c.decompress? data with
  | some data => .ok data
  | Option.none =>
    .error (.compressionFailed "plaintext doesn't decompress with the configured compression")

end Compression

end Keyring
