import Keyring.Deflate.Symbol
import Std.Data.HashMap
/-!
This module contains the search for repetitions. Data is factored into single bytes and copies of
earlier bytes. Each copy is found by the three bytes that it starts with and is checked byte by
byte, so which earlier place is proposed decides only how well data is compressed.
-/

namespace Keyring.Deflate

/-- How many bytes from `i` on equal those from `j` on, at most `limit`. -/
def matchLength (data : Array UInt8) (i j : Nat) : Nat → Nat
  | 0 => 0
  | limit + 1 =>
    match data[i]?, data[j]? with
    | some a, some b => if a = b then matchLength data (i + 1) (j + 1) limit + 1 else 0
    | _, _ => 0

def maxLength : Nat := 258

def minLength : Nat := 3

def maxDistance : Nat := 32768

/-- The three bytes from `i` on as one number. -/
def startAt (data : Array UInt8) (i : Nat) : UInt32 :=
  ((data.getD i 0).toUInt32 <<< 16) ||| ((data.getD (i + 1) 0).toUInt32 <<< 8) |||
    (data.getD (i + 2) 0).toUInt32

/-- The symbols for the data from `i` on after those in `acc`. The map leads from three bytes to the
last place where a factor started with them. -/
def factorFrom (data : Array UInt8) (i : Nat) (seen : Std.HashMap UInt32 Nat)
    (acc : Array Symbol) : Array Symbol :=
  if h : i < data.size then
    let start := startAt data i
    let j := seen.getD start i
    let n := matchLength data j i maxLength
    let seen := seen.insert start i
    if j < i ∧ i - j ≤ maxDistance ∧ minLength ≤ n then
      factorFrom data (i + max 1 n) seen (acc.push (.copy n (i - j)))
    else
      factorFrom data (i + 1) seen (acc.push (.literal data[i]))
  else
    acc
termination_by data.size - i

def factor (data : Array UInt8) : List Symbol :=
  (factorFrom data 0 ∅ #[]).toList

end Keyring.Deflate
