import Mathlib.Init

/-! CRC-32 with the reflected polynomial 0xEDB88320, one bit at a time, as the
common implementations compute it over a whole byte string. -/
namespace Trtp.Lib.Crc

def shiftBit (crc : UInt32) : UInt32 :=
  if crc &&& 1 = 1 then (crc >>> 1) ^^^ 0xEDB88320 else crc >>> 1

def feedByte (crc : UInt32) (b : UInt8) : UInt32 :=
  (List.range 8).foldl (fun crc _ => shiftBit crc) (crc ^^^ b.toUInt32)

def crc32 (data : List UInt8) : UInt32 := data.foldl feedByte 0xFFFFFFFF ^^^ 0xFFFFFFFF

-- The check value of this CRC: the digits 1 to 9.
example : crc32 [49,50,51,52,53,54,55,56,57] = 0xCBF43926 := by decide +kernel

end Trtp.Lib.Crc
