import ChainSocket.Lib.CString
import ChainSocket.WebSocket.Frame
import ChainSocket.WebSocket.Sha1

/-!
# The handshake of websocket.cpp

`wsParseHandshake` on the memory from `inputFrame` on, and the reply `onRecv` makes to an accepted
request. A C string held by `struct handshake` is the list of its characters.
-/

namespace ChainSocket

open CString

structure Handshake where
  host : Option (List UInt8)
  origin : Option (List UInt8)
  key : Option (List UInt8)
  resource : Option (List UInt8)
  frameType : WsFrameType
  deriving DecidableEq, Repr

def nullHandshake : Handshake := ⟨none, none, none, none, .empty⟩

def rn : List UInt8 := ascii "\r\n"

/-- What `startFrom` holds up to the line feed, its length kept in a `uint8_t`. Without a line
feed the copy has any length, but the search at the end of the loop body, which starts at the
same place, then leaves `inputPtr` near NULL. -/
def getUptoLinefeed (startFrom : List UInt8) : Except Fault (List UInt8) :=
  match strstr rn startFrom with
  | .found i => if i % 256 = 0 then .error .abort else .ok (startFrom.take (i % 256))
  | .null => .error .null
  | .off => .error .unmapped

/-- The header fields `wsParseHandshake` knows. -/
inductive Field where
  | host | origin | protocol | key | version | connection | upgrade
  deriving DecidableEq, Repr

namespace Field

def name : Field → List UInt8
  | host => ascii "Host: "
  | origin => ascii "Origin: "
  | protocol => ascii "Sec-WebSocket-Protocol: "
  | key => ascii "Sec-WebSocket-Key: "
  | version => ascii "Sec-WebSocket-Version: "
  | connection => ascii "Connection: "
  | upgrade => ascii "Upgrade: "

/-- In the order the lines are compared with them. -/
def all : List Field := [host, origin, protocol, key, version, connection, upgrade]

end Field

def upgrade2 : List UInt8 := ascii "Upgrade"
def websocket : List UInt8 := ascii "websocket"
def version : List UInt8 := ascii "13"
def secret : List UInt8 := ascii "258EAFA5-E914-47DA-95CA-C5AB0DC85B11"

/-- The locals of the line loop. -/
structure Lines where
  hs : Handshake
  connectionFlag : Bool
  upgradeFlag : Bool
  subprotocolFlag : Bool
  versionMismatch : Bool
  deriving DecidableEq, Repr

/-- What the loop does with the value of a field. -/
def Lines.store (s : Lines) (value : List UInt8) : Field → Lines
  | .host => { s with hs := { s.hs with host := some value } }
  | .origin => { s with hs := { s.hs with origin := some value } }
  | .protocol => { s with subprotocolFlag := true }
  | .key => { s with hs := { s.hs with key := some value } }
  | .version =>
    { s with versionMismatch :=
        s.versionMismatch || decide (memcmp version (value ++ [0]) ≠ some true) }
  | .connection =>
    { s with connectionFlag :=
        s.connectionFlag || decide (strstr (ascii "upgrade") (value.map tolower ++ [0]) ≠ .null) }
  | .upgrade =>
    { s with upgradeFlag :=
        s.upgradeFlag || decide (memcmp websocket (value.map tolower ++ [0]) = some true) }

/-- The first of the fields whose name stands at `inputPtr`. -/
def matchField (inputPtr : List UInt8) : List Field → Except Fault (Option Field)
  | [] => .ok none
  | f :: fields =>
    match memcmp f.name inputPtr with
    | none => .error .unmapped
    | some true => .ok (some f)
    | some false => matchField inputPtr fields

/-- The `if` chain of the line loop: how far it moves `inputPtr`, and the locals behind it. The
value of `Sec-WebSocket-Protocol` is not read. -/
def parseField (inputPtr : List UInt8) (s : Lines) : Except Fault (Nat × Lines) :=
  match matchField inputPtr Field.all with
  | .error e => .error e
  | .ok none => .ok (0, s)
  | .ok (some .protocol) => .ok (Field.protocol.name.length, s.store [] .protocol)
  | .ok (some f) =>
    match getUptoLinefeed (inputPtr.drop f.name.length) with
    | .error e => .error e
    | .ok value => .ok (f.name.length, s.store value f)

/-- `inputPtr[0] != '\r' && inputPtr[1] != '\n'`. -/
def atLine : List UInt8 → Except Fault Bool
  | [] => .error .unmapped
  | b :: m =>
    if b = 13 then .ok false
    else
      match m with
      | [] => .error .unmapped
      | c :: _ => .ok (c != 10)

/-- The line loop, with `room` bytes from `inputPtr` to `endPtr`. -/
def parseLines (room : Nat) (inputPtr : List UInt8) (s : Lines) : Except Fault Lines :=
  if 0 < room then
    match atLine inputPtr with
    | .error e => .error e
    | .ok false => .ok s
    | .ok true =>
      match parseField inputPtr s with
      | .error e => .error e
      | .ok (k, s') =>
        match strstr rn (inputPtr.drop k) with
        | .found i => parseLines (room - (k + i + 2)) (inputPtr.drop (k + i + 2)) s'
        | .null => .error .null
        | .off => .error .unmapped
  else .ok s
termination_by room
decreasing_by omega

/-- The request line: `false` where `wsParseHandshake` returns `WS_ERROR_FRAME`. The `sscanf`
conversion writes its token and a NUL to the `second - first + 1` bytes of `resource`; without a
token they stay as `malloc` left them, and nothing reads them. -/
def parseRequest (inputFrame : List UInt8) (hs : Handshake) : Except Fault (Bool × Handshake) :=
  match memcmp (ascii "GET ") inputFrame with
  | none => .error .unmapped
  | some false => .ok (false, hs)
  | some true =>
    match strchr 32 inputFrame with
    | .off => .error .unmapped
    | .null => .ok (false, hs)
    | .found i =>
      match strchr 32 (inputFrame.drop (i + 1)) with
      | .off => .error .unmapped
      | .null => .ok (false, hs)
      | .found n =>
        match scanWord (inputFrame.drop 3) with
        | none => .error .unmapped
        | some token =>
          if token = [] then .ok (false, { hs with resource := some [] })
          else if n < token.length then .error .outOfBounds
          else .ok (true, { hs with resource := some token })

/-- The check behind the line loop. -/
def Lines.verdict (s : Lines) : WsFrameType :=
  if s.hs.host.isNone ∨ s.hs.key.isNone ∨ s.connectionFlag = false ∨ s.upgradeFlag = false ∨
      s.subprotocolFlag = true ∨ s.versionMismatch = true then .error
  else .opening

def wsParseHandshake (inputFrame : List UInt8) (inputLength : Nat) (hs : Handshake) :
    Except Fault (WsFrameType × Handshake) :=
  match parseRequest inputFrame hs with
  | .error e => .error e
  | .ok (false, hs) => .ok (.error, hs)
  | .ok (true, hs) =>
    match strstr rn inputFrame with
    | .off => .error .unmapped
    | .null => .error .null
    | .found i =>
      match parseLines (inputLength - (i + 2)) (inputFrame.drop (i + 2))
          ⟨hs, false, false, false, false⟩ with
      | .error e => .error e
      | .ok s => .ok (s.verdict, { s.hs with frameType := s.verdict })

/-- The answer to a request with this key. Its length is kept in a `uint8_t`, and `responseKey`
has that many bytes. -/
def handshakeReply (key : List UInt8) : Except Fault (List UInt8) :=
  let length := (strlen key + secret.length) % 256
  if length < strlen key + secret.length then .error .outOfBounds
  else
    let shaHash := sha1 (key.take (strlen key) ++ secret)
    if length ≤ base64len shaHash.length then .error .outOfBounds
    else .ok (ascii "HTTP/1.1 101 Switching Protocols\r\n" ++
      Field.upgrade.name ++ websocket ++ rn ++ Field.connection.name ++ upgrade2 ++ rn ++
      ascii "Sec-WebSocket-Accept: " ++ base64 length shaHash ++ rn ++ rn)

end ChainSocket
