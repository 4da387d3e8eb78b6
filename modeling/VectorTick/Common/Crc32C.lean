import VectorTick.Common.Status

/-! CRC-32C: the table, the byte-by-byte software loop, and `compute` around it.

`compute` dispatches to a hardware instruction where there is one. The instruction's bytewise
meaning is the table step below, so the model runs the table step in either case.
-/

set_option autoImplicit false

namespace VectorTick.Crc32C

open Foundation

/-- The reflected Castagnoli polynomial. -/
def polynomial : UInt32 := 0x82F63B78

def tableStep (crc : UInt32) : UInt32 :=
  if crc &&& 1 ≠ 0 then (crc >>> 1) ^^^ polynomial else crc >>> 1

/-- `table_[index]` as `init` fills it. -/
def table (index : UInt32) : UInt32 :=
  tableStep
    (tableStep (tableStep (tableStep (tableStep (tableStep (tableStep (tableStep index)))))))

def byteStep (crc : UInt32) (byte : UInt8) : UInt32 :=
  table ((crc ^^^ byte.toUInt32) &&& 0xFF) ^^^ (crc >>> 8)

def computeSw (initCrc : UInt32) (data : Bytes) : UInt32 := data.foldl byteStep initCrc

def computeFrom (initCrc : UInt32) (data : Bytes) : UInt32 :=
  if data = [] then initCrc
  else computeSw (initCrc ^^^ 0xFFFFFFFF) data ^^^ 0xFFFFFFFF

def compute (data : Bytes) : UInt32 := computeFrom 0 data

end VectorTick.Crc32C

namespace VectorTick

def crc32c (data : Foundation.Bytes) : UInt32 := Crc32C.compute data

end VectorTick
