import Keyring.Compression
import Keyring.Proofs.Deflate.Compress
/-!
This module contains the proof that decompression undoes compression, whichever blocks and matches
the compressor chooses, and that data compressed in one format is never taken for data in the other:
the formats differ in their first byte.
-/

namespace Keyring.Compression

/-- What data may be compressed to. Compressed data between header and checksum is left free. -/
inductive Packs : Compression → Bytes → Bytes → Prop where
  | none {data : Bytes} : Packs .none data data
  | gzip {data packed : Bytes} (hpacked : Deflate.Compressed data packed) :
    Packs .gzip data (Gzip.header ++ packed ++ Gzip.trailer data)
  | zlib {data packed : Bytes} (hpacked : Deflate.Compressed data packed) :
    Packs .zlib data (0x78 :: 0x9c :: packed ++
      Bytes.bigEndian 4 (Digest.Adler32.checksum data).toNat)

/-- No data is refused. -/
theorem exists_compress (c : Compression) (data : Bytes) :
    ∃ packed, c.compress data = .ok packed ∧ c.Packs data packed := by
  cases c with
  | none => exact ⟨data, rfl, .none⟩
  | gzip => exact ⟨Gzip.wrap data, rfl, .gzip (Deflate.compressed_compress data)⟩
  | zlib => exact ⟨Zlib.wrap data, rfl, .zlib (Deflate.compressed_compress data)⟩

theorem Gzip.length_trailer (data : Bytes) : (trailer data).length = 8 := by
  rw [trailer, List.length_append, Bytes.length_littleEndian, Bytes.length_littleEndian]

theorem Gzip.header_append (rest : Bytes) :
    header ++ rest = 0x1f :: 0x8b :: 0x08 :: 0 :: ([0, 0, 0, 0, 0, 0xff] ++ rest) := by
  rfl

theorem Gzip.unwrap?_append {data packed : Bytes} (h : Deflate.Compressed data packed) :
    unwrap? (header ++ packed ++ trailer data) = some data := by
  have hinflate := Deflate.inflate?_append h (trailer data)
  have hlong : ¬((header ++ (packed ++ trailer data)).length < 10 ∨ (0 : UInt8) &&& 0xe0 ≠ 0) := by
    rw [List.length_append]
    simp [header]
  have hskip : skipOptional? 0 (header ++ (packed ++ trailer data))
      ((header ++ (packed ++ trailer data)).drop 10) = some (packed ++ trailer data) := by
    rfl
  have htrailer : (trailer data).take 8 = trailer data :=
    List.take_of_length_le (Nat.le_of_eq (length_trailer data))
  rw [header_append] at hlong hskip
  rw [List.append_assoc, header_append, unwrap?, if_neg hlong, hskip, Option.bind_eq_bind,
    Option.bind_some, hinflate, Option.bind_eq_bind, Option.bind_some]
  dsimp only
  rw [if_pos htrailer]
  rfl

theorem Zlib.unwrap?_append {data packed : Bytes} (h : Deflate.Compressed data packed) :
    unwrap? (0x78 :: 0x9c :: packed ++ Bytes.bigEndian 4 (Digest.Adler32.checksum data).toNat) =
      some data := by
  let checksum := Bytes.bigEndian 4 (Digest.Adler32.checksum data).toNat
  have hinflate := Deflate.inflate?_append h checksum
  have hchecksum : checksum.take 4 = checksum :=
    List.take_of_length_le (Nat.le_of_eq (Bytes.length_bigEndian _ _))
  rw [List.cons_append, List.cons_append, unwrap?, if_pos (by decide), hinflate,
    Option.bind_eq_bind, Option.bind_some]
  dsimp only
  rw [if_pos hchecksum]
  rfl

theorem decompress?_of_packs {c : Compression} {data packed : Bytes} (h : c.Packs data packed) :
    c.decompress? packed = some data := by
  unfold decompress?
  cases h with
  | none => rfl
  | gzip hpacked => exact Gzip.unwrap?_append hpacked
  | zlib hpacked => exact Zlib.unwrap?_append hpacked

/-- The two formats with a header, in either order. -/
def Differs (c c' : Compression) : Prop :=
  c = .gzip ∧ c' = .zlib ∨ c = .zlib ∧ c' = .gzip

theorem Zlib.unwrap?_header_append (rest : Bytes) :
    unwrap? (Gzip.header ++ rest) = Option.none := by
  rw [Gzip.header_append, unwrap?, if_neg (by decide)]

theorem Gzip.unwrap?_cons_of_ne {b : UInt8} (hb : b ≠ 0x1f) (rest : Bytes) :
    unwrap? (b :: rest) = Option.none := by
  unfold unwrap?
  split
  . next heq =>
    rw [List.cons.injEq] at heq
    exact absurd heq.1 hb
  . rfl

theorem decompress?_of_differs {c c' : Compression} (hdiffers : c.Differs c')
    {data packed : Bytes} (h : c.Packs data packed) : c'.decompress? packed = Option.none := by
  rcases hdiffers with ⟨rfl, rfl⟩ | ⟨rfl, rfl⟩
  . cases h
    rw [decompress?, List.append_assoc, Zlib.unwrap?_header_append]
  . cases h
    rw [decompress?, List.cons_append, Gzip.unwrap?_cons_of_ne (by decide)]

/-- How data fails to decompress. -/
def mismatch : Error :=
  .compressionFailed "plaintext doesn't decompress with the configured compression"

theorem decompress_eq_ok {c : Compression} {data packed : Bytes}
    (h : c.decompress? packed = some data) : c.decompress packed = .ok data := by
  rw [decompress, h]

theorem decompress_eq_error {c : Compression} {packed : Bytes}
    (h : c.decompress? packed = Option.none) : c.decompress packed = .error mismatch := by
  rw [decompress, h]
  rfl

end Keyring.Compression
