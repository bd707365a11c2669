import WolfMqtt.Lib.Buffer
import WolfMqtt.Packet.Decode

/-! Reading packets off the wire: `MqttSocket_Read` and `MqttPacket_Read`.

The transport is the bytes still to come and a script for its next calls. A call hands
over a piece of what is asked for, or says that there is nothing now. When the script
has run out, each call hands over all that is asked for, as far as there is any.

`nonblock` is `WOLFMQTT_NONBLOCK`: without it a read asks the transport again until it
has everything or is told to stop. -/
namespace WolfMqtt

/-! ### The transport -/

/-- The results of a transport that has nothing to give now. -/
inductive Pause
  | «continue»
  | timeout
deriving Repr, DecidableEq

def Pause.code : Pause → Int
  | .continue => Code.continue
  | .timeout => Code.timeout

/-- What the transport does at one call. -/
inductive NetCall
  /-- Hand over up to `more + 1` bytes. -/
  | give (more : Nat)
  /-- Hand over nothing. -/
  | pause (why : Pause)
deriving Repr, DecidableEq

structure Net where
  /-- The bytes still to come. -/
  stream : Bytes
  script : List NetCall := []
deriving Repr, DecidableEq

/-- `MqttNet::read` of up to `want` bytes. -/
def Net.read (net : Net) (idle : Pause) (want : Nat) : Except Pause Bytes × Net :=
  match net.script with
  | .pause why :: script => (.error why, {net with script})
  | .give more :: script =>
    match net.stream.take (min (more + 1) want) with
    | [] => (.error idle, {net with script})
    | b :: piece => (.ok (b :: piece), {stream := net.stream.drop (piece.length + 1), script})
  | [] =>
    match net.stream.take want with
    | [] => (.error idle, net)
    | b :: piece => (.ok (b :: piece), {net with stream := net.stream.drop (piece.length + 1)})

/-! ### The reader -/

/-- `MqttPkStat` -/
inductive PkStat
  | begin
  | readHead
  | read
deriving Repr, DecidableEq

/-- The client's read state, its buffer and its transport. -/
structure Reader where
  stat : PkStat := .begin
  headerLen : Nat := 0
  remainLen : Nat := 0
  /-- `client->read.pos` -/
  pos : Nat := 0
  /-- `client->read.total` -/
  total : Nat := 0
  rxBuf : Bytes
  net : Net
  /-- Ghost: where each piece was written, and its bytes. -/
  written : List (Nat × Bytes) := []
deriving Repr, DecidableEq

/-- A piece handed over by the transport goes behind what this read has so far. -/
def Reader.accept (r : Reader) (off : Nat) (piece : Bytes) : Reader :=
  {r with
    rxBuf := Buffer.writeAt r.rxBuf (off + r.pos) piece
    pos := r.pos + piece.length
    total := r.total + piece.length
    written := r.written ++ [(off + r.pos, piece)]}

/-- The loop of a blocking `MqttSocket_Read`, at most `fuel` calls of the transport. -/
def socketReadLoop (off bufLen : Nat) : Nat → Reader → Int × Reader
  | 0, r => (r.pos, r)
  | fuel + 1, r =>
    match r.net.read .timeout (bufLen - r.pos) with
    | (.error why, net) => (why.code, {r with net})
    | (.ok piece, net) =>
      let r := Reader.accept {r with net} off piece
      if r.pos < bufLen then socketReadLoop off bufLen fuel r else (piece.length, r)

/-- `MqttSocket_Read` of `bufLen` bytes to `&rx_buf[off]`. -/
def socketRead (nonblock : Bool) (off bufLen : Nat) (r : Reader) : Int × Reader :=
  if bufLen = 0 then (Code.badArg, r)
  else if r.pos ≥ bufLen then (Code.outOfBuffer, r)
  else
    let (rc, r) :=
      if nonblock then
        match r.net.read .continue (bufLen - r.pos) with
        | (.error why, net) => (why.code, {r with net})
        | (.ok piece, net) =>
          let r := Reader.accept {r with net} off piece
          if r.pos < bufLen then (Code.continue, r) else ((piece.length : Int), r)
      else socketReadLoop off bufLen (bufLen - r.pos) r
    if rc > 0 then ((min r.pos bufLen : Nat), {r with pos := 0}) else (rc, r)

/-- `MQTT_PACKET_HEADER_MIN_SIZE` -/
def headerMinSize : Nat := 2

/-- `rx_buf_len` -/
def Reader.rxBufLen (r : Reader) : Nat := r.rxBuf.length

/-- `header->len[i]` -/
def Reader.lenByte (r : Reader) (i : Nat) : UInt8 := r.rxBuf.getD (1 + i) 0

/-- What is made of the read of the rest, and the return value. -/
def finishRemain (remainRead : Nat) (got : Int × Reader) : Int × Reader :=
  if got.1 ≤ 0 then got
  else if got.1 > remainRead then (Code.network, got.2)
  else (min ((got.2.headerLen : Int) + got.1) got.2.rxBufLen, {got.2 with stat := .begin})

/-- The `MQTT_PK_READ` case. -/
def readRemain (nonblock : Bool) (r : Reader) : Int × Reader :=
  if r.rxBufLen < r.headerLen then (Code.outOfBuffer, {r with stat := .read})
  else
    let remainRead := min r.remainLen (r.rxBufLen - r.headerLen)
    if r.remainLen > 0 then
      finishRemain remainRead (socketRead nonblock r.headerLen remainRead {r with stat := .read})
    else ((min (r.headerLen + remainRead) r.rxBufLen : Nat), {r with stat := .begin})

/-- Decoding the Remaining Length once its last byte, `header->len[i]`, is there. -/
def decodeRemain (nonblock : Bool) (i : Nat) (r : Reader) : Int × Reader :=
  if r.rxBufLen < r.headerLen - (i + 1) then (Code.outOfBuffer, r)
  else
    match decodeVbi ((r.rxBuf.drop 1).take (r.rxBufLen - (r.headerLen - (i + 1)))) with
    | .error e => (e, r)
    | .ok (remainLen, n) =>
      if remainLen > maxRemainLen then (Code.malformedData, r)
      else readRemain nonblock {r with remainLen, headerLen := n + 1}

/-- The loop over the length bytes from `header->len[i]` on; `left` of the four are left. -/
def readHeadLoop (nonblock : Bool) : Nat → Nat → Reader → Int × Reader
  | 0, i, r => decodeRemain nonblock i r
  | left + 1, i, r =>
    if (r.lenByte i).toNat < 128 then decodeRemain nonblock i r
    else if i = maxLenBytes - 1 then (Code.malformedData, r)
    else if r.headerLen ≥ r.rxBufLen then (Code.outOfBuffer, r)
    else
      let (rc, r) := socketRead nonblock r.headerLen 1 r
      if rc < 0 then (rc, r)
      else if rc ≠ 1 then (Code.network, r)
      else readHeadLoop nonblock left (i + 1) {r with headerLen := r.headerLen + 1}

/-- The `MQTT_PK_READ_HEAD` case, and what it falls through to. -/
def readHead (nonblock : Bool) (r : Reader) : Int × Reader :=
  let i := r.headerLen - headerMinSize
  readHeadLoop nonblock (maxLenBytes - i) i {r with stat := .readHead}

/-- The `MQTT_PK_BEGIN` case, and what it falls through to. -/
def readBegin (nonblock : Bool) (r : Reader) : Int × Reader :=
  let (rc, r) := socketRead nonblock 0 headerMinSize {r with headerLen := headerMinSize, remainLen := 0}
  if rc < 0 then (rc, r)
  else if rc ≠ headerMinSize then (Code.network, r)
  else readHead nonblock r

/-- `MqttPacket_Read`: a length when positive, or a code. -/
def packetRead (nonblock : Bool) (r : Reader) : Int × Reader :=
  if r.rxBufLen < maxLenBytes + 1 then (Code.outOfBuffer, r)
  else
    match r.stat with
    | .begin => readBegin nonblock r
    | .readHead => readHead nonblock r
    | .read => readRemain nonblock r

/-! ### Repeated calls -/

/-- What a caller makes of one return: a packet, an error, or nothing yet. -/
def outcome (result : Int × Reader) : Option (Except Int Bytes) :=
  if result.1 > 0 then some (.ok (result.2.rxBuf.take result.1.toNat))
  else if result.1 = Code.continue ∨ result.1 = Code.timeout then none
  else some (.error result.1)

/-- The packets and errors of `n` calls in a row, and the reader after them. -/
def packetReads (nonblock : Bool) : Nat → Reader → List (Except Int Bytes) × Reader
  | 0, r => ([], r)
  | n + 1, r =>
    let result := packetRead nonblock r
    let rest := packetReads nonblock n result.2
    ((outcome result).toList ++ rest.1, rest.2)

/-- A reader on a fresh connection: `rx_buf` holds anything. -/
def Reader.fresh (rxBuf : Bytes) (stream : Bytes) (script : List NetCall) : Reader :=
  {rxBuf, net := {stream, script}}

end WolfMqtt
