import TrackerWire.Bytes

/-!
# The 16-bit cyclic redundancy check of a frame

The register is the remainder of a polynomial division over the field of two elements: bits enter
high bit first, the generator is `x¹⁶ + x¹² + x⁵ + 1`, the register starts with all bits set, and
it is the check without a final change (specification, §4.1).
-/

namespace TrackerWire.Crc16

/-- The generator polynomial without its leading term. -/
def generator : BitVec 16 := 0x1021#16

/-- The register before the first bit. -/
def start : BitVec 16 := 0xFFFF#16

/-- One message bit enters the register. -/
def shiftIn (register : BitVec 16) (bit : Bool) : BitVec 16 :=
  if register.msb ^^ bit then (register <<< 1) ^^^ generator else register <<< 1

/-- The bits of a byte, high bit first. -/
def bits (b : UInt8) : List Bool :=
  [b.toNat.testBit 7, b.toNat.testBit 6, b.toNat.testBit 5, b.toNat.testBit 4,
   b.toNat.testBit 3, b.toNat.testBit 2, b.toNat.testBit 1, b.toNat.testBit 0]

/-- Eight message bits enter the register. -/
def shiftInByte (register : BitVec 16) (b : UInt8) : BitVec 16 := (bits b).foldl shiftIn register

/-- The register after a message. -/
def remainder (register : BitVec 16) (message : Bytes) : BitVec 16 :=
  message.foldl shiftInByte register

end TrackerWire.Crc16

namespace TrackerWire

/-- The check of a message. -/
def crc16 (message : Bytes) : UInt16 := UInt16.ofBitVec (Crc16.remainder Crc16.start message)

end TrackerWire
