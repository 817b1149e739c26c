import ChainSocket.NetStruct
import Mathlib.Data.Vector.Basic
import Mathlib.Data.List.Basic

/-!
# Frames of WebSocketPoller.hpp

One iteration of the frame loop of `onRecv`, up to what it does with the frame, and the encoders
`sendMsg1`, `sendMsg2`, `sendMsg`, `makeFrameHead` and `mask`.
-/

namespace ChainSocket

/-- `enum wsFrameType`. -/
inductive WsFrameType where
  | empty | error | incomplete | continuation | text | binary | ping | pong | opening | closing
  deriving DecidableEq, Repr

def WsFrameType.code : WsFrameType → UInt8
  | empty => 0xF0
  | error => 0xF1
  | incomplete => 0xF2
  | continuation => 0x0
  | text => 0x01
  | binary => 0x02
  | ping => 0x09
  | pong => 0x0A
  | opening => 0xF3
  | closing => 0x08

abbrev MaskingKey := Vector UInt8 4

/-- `mask`, and the loops that unmask: the index into the key is `i & 0x3`. -/
def mask (key : MaskingKey) (buffer : List UInt8) : List UInt8 :=
  buffer.mapIdx fun i b => b ^^^ key[i % 4]

/-- What an iteration does: leave the loop, close the session and return, abort, or handle a
frame whose payload, unmasked in place, follows `headerSize` bytes. -/
inductive FrameStep where
  | leave
  | close (type : CloseType)
  | abort
  | data (headerSize : Nat) (payload : List UInt8)
  | control (headerSize : Nat) (payload : List UInt8)
  deriving DecidableEq, Repr

/-- The opcodes the loop looks at; at any other it leaves. -/
def handledOpcodes : List UInt8 :=
  [WsFrameType.text.code, WsFrameType.binary.code, WsFrameType.closing.code,
    WsFrameType.ping.code, WsFrameType.pong.code]

/-- The locals an iteration reads out of a frame's first bytes. -/
structure FrameHead where
  opcode : UInt8
  useMask : Bool
  n0 : UInt8
  headerSize : Nat
  n : Nat
  maskingKey : MaskingKey
  deriving DecidableEq, Repr

/-- What lies behind the data is read only where the lengths have been checked. -/
def frameHead (inputFrame : List UInt8) : FrameHead :=
  let byte := fun i : Nat => inputFrame.getD i 0
  let useMask := decide (byte 1 &&& 0x80 = 0x80)
  let n0 := byte 1 &&& 0x7f
  let i := if n0 < 126 then 2 else 4
  { opcode := byte 0 &&& 0x0F
    useMask
    n0
    headerSize :=
      2 + (if n0 = 126 then 2 else 0) + (if n0 = 127 then 8 else 0) + (if useMask then 4 else 0)
    n := if n0 < 126 then n0.toNat else (byte 2).toNat * 256 + (byte 3).toNat
    maskingKey :=
      if useMask then #v[byte i, byte (i + 1), byte (i + 2), byte (i + 3)]
      else Vector.replicate 4 0 }

/-- One iteration, on the bytes from `inputFrame` to the end of the data. -/
def frameStep (inputFrame : List UInt8) : FrameStep :=
  let inputLength := inputFrame.length
  let h := frameHead inputFrame
  let payload := (inputFrame.drop h.headerSize).take h.n
  let unmasked := if h.useMask then mask h.maskingKey payload else payload
  if inputLength < 2 then .leave
  else if inputFrame.getD 0 0 &&& 0x70 ≠ 0 then .close .websocketExtensionOn
  else if inputFrame.getD 0 0 &&& 0x80 ≠ 0x80 then .close .websocketContinuationOn
  else if h.opcode ∉ handledOpcodes then .leave
  else if inputLength < h.headerSize then .leave
  else if h.n0 = 127 then .abort
  else if inputLength < h.headerSize + h.n then .leave
  else if h.opcode = WsFrameType.continuation.code ∨ h.opcode = WsFrameType.text.code ∨
      h.opcode = WsFrameType.binary.code then .data h.headerSize unmasked
  else if h.opcode = WsFrameType.ping.code then .control h.headerSize unmasked
  else if h.opcode = WsFrameType.pong.code ∨ h.opcode = WsFrameType.closing.code then
    .control h.headerSize payload
  else .abort

/-! ## Encoders -/

/-- The two bytes of a length that does not fit the first length byte. -/
def lengthBytes (msgSize : Nat) : List UInt8 := [(msgSize / 256).toUInt8, msgSize.toUInt8]

/-- `makeFrameHead`: the `frameHeadLen` bytes it writes. -/
def makeFrameHead (msgSize : Nat) (useMask : Bool) (maskingKey : MaskingKey) :
    Except Fault (List UInt8) :=
  let maskBit : UInt8 := if useMask then 0x80 else 0
  let keyBytes := if useMask then maskingKey.toList else []
  if msgSize ≤ 125 then
    .ok ([0x80 ||| WsFrameType.text.code, msgSize.toUInt8 ||| maskBit] ++ keyBytes)
  else if msgSize ≤ 0xFFFF then
    .ok ([0x80 ||| WsFrameType.text.code, 126 ||| maskBit] ++ lengthBytes msgSize ++ keyBytes)
  else .error .abort

/-- `sendMsg1`: the buffers it hands to `sendTo`, in order. -/
def sendMsg1 (curBuffer : List UInt8) : Except Fault (List (List UInt8)) :=
  let msgSize := curBuffer.length
  if msgSize ≤ 125 then
    .ok [[0x80 ||| WsFrameType.text.code, msgSize.toUInt8], curBuffer]
  else if msgSize ≤ 0xFFFF then
    .ok [[0x80 ||| WsFrameType.text.code, 126] ++ lengthBytes msgSize, curBuffer]
  else .error .abort

/-- The key of `sendMsg2`. -/
def sendMsg2Key : MaskingKey := #v[0x12, 0x34, 0x56, 0x78]

/-- `sendMsg2`: the buffers it hands to `sendTo`, and what it leaves in `curBuffer`. Its header is
put together as in `makeFrameHead`. -/
def sendMsg2 (curBuffer : List UInt8) (useMask : Bool) :
    Except Fault (List (List UInt8) × List UInt8) := do
  let head ← makeFrameHead curBuffer.length useMask sendMsg2Key
  let masked := if useMask then mask sendMsg2Key curBuffer else curBuffer
  return ([head, masked], masked)

end ChainSocket
