import Keyring.Deflate.Symbol
/-!
This module contains the reading of compressed data. Data is a sequence of blocks, each of which is
stored as it is or says its bytes in symbols, under fixed codes or under codes of its own.
-/

namespace Keyring.Deflate

/-- The bytes that symbols say, up to the end of a block. -/
def inflateSymbols (codes : BlockCodes) (bits : Bits) (out : Array UInt8) :
    Option (Array UInt8 × Bits) :=
  match _ : Symbol.read codes bits with
  | some (.literal byte, rest) => inflateSymbols codes rest (out.push byte)
  | some (.copy length distance, rest) =>
    if distance ≤ out.size then
      inflateSymbols codes rest (Symbol.copyBack distance length out)
    else
      none
  | some (.endOfBlock, rest) => some (out, rest)
  | none => none
termination_by bits.length
decreasing_by all_goals exact Symbol.length_of_read (by assumption)

/-- A stored block starts at a byte and tells its size twice, the second time inverted. -/
def inflateStored (bits : Bits) (out : Array UInt8) : Option (Array UInt8 × Bits) := do
  let bits := bits.drop (bits.length % 8)
  let (size, bits) ← Bits.readNumber 16 bits
  let (check, bits) ← Bits.readNumber 16 bits
  if size + check = 65535 then
    let (bytes, bits) ← Bits.readNumbers 8 size bits
    return (out ++ (bytes.map UInt8.ofNat).toArray, bits)
  else
    none

/-- The order in which the word lengths of the code for word lengths come. -/
def codeLengthOrder : List Nat :=
  [16, 17, 18, 0, 8, 7, 9, 6, 10, 5, 11, 4, 12, 3, 13, 2, 14, 1, 15]

/-- Reads how often a word length repeats, for a symbol of the code for word lengths, and which it
is, where `last` is the one before. -/
def readRun (symbol : Nat) (last : Option Nat) (bits : Bits) :
    Option ((Nat × Nat) × Bits) := do
  if symbol < 16 then
    return ((1, symbol), bits)
  else if symbol = 16 then
    let (n, bits) ← Bits.readNumber 2 bits
    return ((n + 3, ← last), bits)
  else if symbol = 17 then
    let (n, bits) ← Bits.readNumber 3 bits
    return ((n + 3, 0), bits)
  else
    let (n, bits) ← Bits.readNumber 7 bits
    return ((n + 11, 0), bits)

theorem length_of_readRun {symbol : Nat} {last : Option Nat} {bits rest : Bits} {run : Nat × Nat}
    (h : readRun symbol last bits = some (run, rest)) : rest.length ≤ bits.length := by
  unfold readRun at h
  split at h
  · simp_all
  · split at h
    · simp only [Option.bind_eq_bind, Option.bind_eq_some_iff] at h
      obtain ⟨⟨_, rest'⟩, h₁, _, _, h₂⟩ := h
      obtain ⟨_, rfl⟩ : _ ∧ rest' = rest := by simpa using h₂
      exact Bits.length_of_readNumber h₁
    · split at h <;>
      · simp only [Option.bind_eq_bind, Option.bind_eq_some_iff] at h
        obtain ⟨⟨_, rest'⟩, h₁, h₂⟩ := h
        obtain ⟨_, rfl⟩ : _ ∧ rest' = rest := by simpa using h₂
        exact Bits.length_of_readNumber h₁

/-- Reads word lengths, newest first, until there are `count` of them and not more. -/
def readLengths (code : PrefixCode) (count : Nat) (bits : Bits) (lengths : List Nat) :
    Option (List Nat × Bits) :=
  if lengths.length = count then
    some (lengths, bits)
  else if lengths.length > count then
    none
  else
    match _ : code.read bits with
    | none => none
    | some (symbol, rest) =>
      match _ : readRun symbol lengths.head? rest with
      | none => none
      | some ((n, length), rest) =>
        readLengths code count rest (List.replicate n length ++ lengths)
termination_by bits.length
decreasing_by
  exact Nat.lt_of_le_of_lt (length_of_readRun (by assumption))
    (PrefixCode.length_of_read (by assumption))

theorem length_of_readLengths {code : PrefixCode} {count : Nat} {bits rest : Bits}
    {lengths all : List Nat} (h : readLengths code count bits lengths = some (all, rest)) :
    rest.length ≤ bits.length := by
  fun_induction readLengths code count bits lengths with
  | case1 => simp_all
  | case2 => simp_all
  | case3 => simp_all
  | case4 => simp_all
  | case5 bits lengths _ _ symbol rest₁ h₁ n length rest₂ h₂ ih =>
    have := ih h
    have := length_of_readRun h₂
    have := PrefixCode.length_of_read h₁
    omega

/-- Reads the codes of a block that has its own. -/
def readCodes (bits : Bits) : Option (BlockCodes × Bits) := do
  let (literals, bits) ← Bits.readNumber 5 bits
  let (distances, bits) ← Bits.readNumber 5 bits
  let (count, bits) ← Bits.readNumber 4 bits
  let literals := literals + 257
  let distances := distances + 1
  if literals ≤ 286 ∧ distances ≤ 30 then
    let (given, bits) ← Bits.readNumbers 3 (count + 4) bits
    let given := codeLengthOrder.zip given
    let code ← PrefixCode.ofLengths? ((List.range 19).map fun i => (given.lookup i).getD 0)
    let (lengths, bits) ← readLengths code (literals + distances) bits []
    let lengths := lengths.reverse
    let literalCode ← PrefixCode.ofLengths? (lengths.take literals)
    let distanceCode ← PrefixCode.ofLengths? (lengths.drop literals)
    return (⟨literalCode, distanceCode⟩, bits)
  else
    none

/-- Reads a block of the kind that two bits tell. -/
def inflateBlock (kind : Nat) (bits : Bits) (out : Array UInt8) :
    Option (Array UInt8 × Bits) := do
  if kind = 0 then
    inflateStored bits out
  else if kind = 1 then
    inflateSymbols .fixed bits out
  else if kind = 2 then
    let (codes, bits) ← readCodes bits
    inflateSymbols codes bits out
  else
    none

theorem length_of_inflateSymbols {codes : BlockCodes} {bits rest : Bits} {out all : Array UInt8}
    (h : inflateSymbols codes bits out = some (all, rest)) : rest.length ≤ bits.length := by
  fun_induction inflateSymbols codes bits out with
  | case1 bits out byte rest' h' ih =>
    have := ih h
    have := Symbol.length_of_read h'
    omega
  | case2 bits out length distance rest' h' _ ih =>
    have := ih h
    have := Symbol.length_of_read h'
    omega
  | case3 => simp_all
  | case4 bits out rest' h' =>
    have := Symbol.length_of_read h'
    simp_all only [Option.some.injEq, Prod.mk.injEq]
    omega
  | case5 => simp_all

theorem length_of_inflateStored {bits rest : Bits} {out all : Array UInt8}
    (h : inflateStored bits out = some (all, rest)) : rest.length ≤ bits.length := by
  simp only [inflateStored, Option.bind_eq_bind, Option.bind_eq_some_iff] at h
  obtain ⟨⟨size, rest₁⟩, h₁, ⟨check, rest₂⟩, h₂, h₃⟩ := h
  have h₁ := Bits.length_of_readNumber h₁
  have h₂ := Bits.length_of_readNumber h₂
  dsimp only at h₂ h₃
  split at h₃
  · obtain ⟨⟨_, rest₃⟩, h₄, h₅⟩ := Option.bind_eq_some_iff.mp h₃
    obtain ⟨_, rfl⟩ : _ ∧ rest₃ = rest := by simpa using h₅
    have h₄ := Bits.length_of_readNumbers h₄
    simp only [List.length_drop] at h₁
    omega
  · simp at h₃

theorem length_of_readCodes {bits rest : Bits} {codes : BlockCodes}
    (h : readCodes bits = some (codes, rest)) : rest.length ≤ bits.length := by
  simp only [readCodes, Option.bind_eq_bind, Option.bind_eq_some_iff] at h
  obtain ⟨⟨_, rest₁⟩, h₁, ⟨_, rest₂⟩, h₂, ⟨_, rest₃⟩, h₃, h₄⟩ := h
  have h₁ := Bits.length_of_readNumber h₁
  have h₂ := Bits.length_of_readNumber h₂
  have h₃ := Bits.length_of_readNumber h₃
  dsimp only at h₂ h₃ h₄
  split at h₄
  · simp only [Option.bind_eq_some_iff] at h₄
    obtain ⟨⟨_, rest₄⟩, h₅, _, _, ⟨_, rest₅⟩, h₆, _, _, _, _, h₇⟩ := h₄
    obtain ⟨_, rfl⟩ : _ ∧ rest₅ = rest := by simpa using h₇
    have h₅ := Bits.length_of_readNumbers h₅
    have h₆ := length_of_readLengths h₆
    dsimp only at h₅ h₆
    omega
  · simp at h₄

theorem length_of_inflateBlock {kind : Nat} {bits rest : Bits} {out all : Array UInt8}
    (h : inflateBlock kind bits out = some (all, rest)) : rest.length ≤ bits.length := by
  unfold inflateBlock at h
  split at h
  · exact length_of_inflateStored h
  · split at h
    · exact length_of_inflateSymbols h
    · split at h
      · obtain ⟨⟨codes, rest'⟩, h₁, h₂⟩ := Option.bind_eq_some_iff.mp h
        exact Nat.le_trans (length_of_inflateSymbols h₂) (length_of_readCodes h₁)
      · simp at h

def inflateBlocks (bits : Bits) (out : Array UInt8) : Option (Array UInt8 × Bits) :=
  match bits with
  | isLast :: k₀ :: k₁ :: bits =>
    match _ : inflateBlock (k₀.toNat + 2 * k₁.toNat) bits out with
    | none => none
    | some (out, rest) => if isLast then some (out, rest) else inflateBlocks rest out
  | _ => none
termination_by bits.length
decreasing_by
  have := length_of_inflateBlock (by assumption)
  simp only [List.length_cons]
  omega

/-- Reads compressed data to its end and returns the bytes that follow it as well. -/
def inflate? (data : Bytes) : Option (Bytes × Bytes) := do
  let (out, rest) ← inflateBlocks (Bits.ofBytes data) #[]
  return (out.toList, data.drop (data.length - rest.length / 8))

end Keyring.Deflate
