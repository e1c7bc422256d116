import SecureBoot.Bytes

/-!
The CRC-32 of the descriptors: polynomial 0x04C11DB7, most significant bit first, all bits set
at the start and inverted at the end.
-/

namespace SecureBoot.Bytes.Crc

/-- The generator polynomial without its leading term. -/
def polynomial : UInt32 := 0x04C11DB7

/-- One division step: shift one bit out and subtract the polynomial if that bit was set. -/
def stepBit (register : UInt32) : UInt32 :=
  if register &&& 0x80000000 = 0 then register <<< 1 else (register <<< 1) ^^^ polynomial

/-- Eight division steps. -/
def stepByte (register : UInt32) : UInt32 :=
  stepBit (stepBit (stepBit (stepBit (stepBit (stepBit (stepBit (stepBit register)))))))

/-- The register after one more byte of the message. -/
def feed (register : UInt32) (byte : UInt8) : UInt32 :=
  stepByte (register ^^^ (byte.toUInt32 <<< 24))

/-- The register after a whole message, all bits set at its start. -/
def run (bytes : Bytes) : UInt32 :=
  bytes.foldl feed 0xFFFFFFFF

end Crc

/-- The checksum of a byte string. -/
def crc32 (bytes : Bytes) : UInt32 :=
  Crc.run bytes ^^^ 0xFFFFFFFF

end SecureBoot.Bytes
