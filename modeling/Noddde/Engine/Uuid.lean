import Mathlib.Data.Rat.Floor
import Noddde.Data.Json
/-!
# uuidv7

The number of milliseconds is split by divisions, whose quotients the bitwise operators
take as signed numbers of 32 bits.
-/

namespace Noddde.Uuid

/-- `ToInt32`: the integral part modulo `2 ** 32`, as a signed number. -/
def toInt32 (x : ℚ) : Int32 := Int32.ofInt (if 0 ≤ x then ⌊x⌋ else ⌈x⌉)

/-- A number as an element of a `Uint8Array`. -/
def toUint8 (n : Int32) : UInt8 := UInt8.ofInt n.toInt

/-- A byte as the operand of a bitwise operator. -/
def ofUint8 (byte : UInt8) : Int32 := toInt32 byte.toNat

def lowByte (x : ℚ) : UInt8 := toUint8 (toInt32 x &&& 0xff)

def uuidBytes (now : ℤ) (bytes : Vector UInt8 16) : Vector UInt8 16 :=
  let bytes := bytes.set 0 (lowByte (now / 2 ^ 40))
  let bytes := bytes.set 1 (lowByte (now / 2 ^ 32))
  let bytes := bytes.set 2 (lowByte (now / 2 ^ 24))
  let bytes := bytes.set 3 (lowByte (now / 2 ^ 16))
  let bytes := bytes.set 4 (lowByte (now / 2 ^ 8))
  let bytes := bytes.set 5 (lowByte now)
  let bytes := bytes.set 6 (toUint8 ((ofUint8 bytes[6] &&& 0x0f) ||| 0x70))
  bytes.set 8 (toUint8 ((ofUint8 bytes[8] &&& 0x3f) ||| 0x80))

def byteHex (byte : UInt8) : JsString :=
  [Json.hexDigit (byte.toNat / 16), Json.hexDigit (byte.toNat % 16)]

/-- `toString("hex")` -/
def toHex (bytes : Vector UInt8 16) : JsString := bytes.toList.flatMap byteHex

def slice (text : JsString) (start stop : Nat) : JsString := (text.take stop).drop start

def dash : UInt16 := 0x2D

def uuidv7 (now : ℤ) (bytes : Vector UInt8 16) : JsString :=
  let hex := toHex (uuidBytes now bytes)
  slice hex 0 8 ++ dash :: (slice hex 8 12 ++ dash :: (slice hex 12 16 ++
    dash :: (slice hex 16 20 ++ dash :: hex.drop 20)))

end Noddde.Uuid
