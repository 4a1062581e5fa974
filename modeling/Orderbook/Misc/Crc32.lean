import Mathlib.Logic.Function.Iterate

/-!
# CRC-32

The reflected CRC-32 with polynomial `0xEDB88320`, bit by bit over natural numbers.
-/

namespace Orderbook

namespace Crc32

/-- One bit of the division. -/
def bitStep (crc : Nat) : Nat :=
  if crc % 2 = 1 then (crc / 2) ^^^ 0xEDB88320 else crc / 2

def byteStep (crc : Nat) (byte : UInt8) : Nat :=
  bitStep^[8] (crc ^^^ byte.toNat)

/-- The checksum of a byte string. -/
def hash (bytes : List UInt8) : UInt32 :=
  UInt32.ofNat (bytes.foldl byteStep 0xFFFFFFFF ^^^ 0xFFFFFFFF)

end Crc32

end Orderbook
