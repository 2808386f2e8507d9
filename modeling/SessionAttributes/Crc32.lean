import SessionAttributes.Bytes

namespace SessionAttributes.Crc32

def generator : UInt32 := 0xEDB88320

def shift (remainder : UInt32) : UInt32 :=
  if remainder &&& 1 = 1 then (remainder >>> 1) ^^^ generator else remainder >>> 1

def absorb (remainder : UInt32) (byte : UInt8) : UInt32 :=
  Nat.repeat shift 8 (remainder ^^^ byte.toUInt32)

/-- The reflected CRC-32 of a byte string, with generator `0x04C11DB7`. -/
def checksum (bytes : Bytes) : UInt32 :=
  bytes.foldl absorb 0xFFFFFFFF ^^^ 0xFFFFFFFF

end SessionAttributes.Crc32
