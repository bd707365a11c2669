import WolfMqtt.Client.Tables

/-! Writing: `MqttSocket_Write`, `MqttPacket_Write`, the start and stop of a read or a write, and
`MqttClient_CancelMessage`. -/
namespace WolfMqtt
namespace Writer

/-- One answer of the transport is used up. -/
def next (w : Writer) : Writer := {w with turn := w.turn + 1}

/-- The transport takes `n` bytes from the current position of `buf`. -/
def accept (w : Writer) (buf : Bytes) (n : Nat) : Writer :=
  {w with
    pos := w.pos + n
    turn := w.turn + 1
    wire := w.wire ++ (buf.drop w.pos).take n}

/-- The loop of a blocking `MqttSocket_Write`, at most `fuel` calls of the transport. -/
def writeLoop (net : Nat → Int) (buf : Bytes) : Nat → Writer → Int × Writer
  | 0, w => (w.pos, w)
  | fuel + 1, w =>
    let rc := net w.turn
    if rc ≤ 0 then (rc, w.next)
    else
      let n := min rc.toNat (buf.length - w.pos)
      let w := w.accept buf n
      if w.pos < buf.length then writeLoop net buf fuel w else (n, w)

/-- `MqttSocket_Write` of `buf`. -/
def socketWrite (nonblock : Bool) (net : Nat → Int) (buf : Bytes) (w : Writer) : Int × Writer :=
  if buf.length = 0 then (Code.badArg, w)
  else if w.pos ≥ buf.length then (Code.outOfBuffer, w)
  else
    let (rc, w) :=
      if nonblock then
        let rc := net w.turn
        if rc ≥ 0 then
          let n := min rc.toNat (buf.length - w.pos)
          let w := w.accept buf n
          if w.pos < buf.length then (Code.continue, w) else ((n : Int), w)
        else (rc, w.next)
      else writeLoop net buf (buf.length - w.pos) w
    if rc > 0 then (w.pos, {w with pos := 0}) else (rc, w)

end Writer
namespace MqttClient

/-- `MqttPacket_Write` of the first `len` bytes of `tx_buf`. -/
def packetWrite (c : MqttClient) (len : Nat) : Int × MqttClient :=
  if c.packetSzMax > 0 ∧ len > 0 ∧ len > c.packetSzMax then (Code.serverProp, c)
  else
    let (rc, writer) := c.writer.socketWrite c.nonblock c.netWrite (c.writer.txBuf.take len)
    (rc, {c with writer})

/-- What goes into the front of `tx_buf`. -/
def fill (c : MqttClient) (bytes : Bytes) : MqttClient := {c with writer := {c.writer with txBuf := bytes}}

def setLen (c : MqttClient) (len : Nat) : MqttClient := {c with writer := {c.writer with len}}

/-- `MqttWriteStart` -/
def writeStart (c : MqttClient) (stat : MqttMsgStat) : Int × MqttClient × MqttMsgStat :=
  if c.writer.isActive then (Code.continue, c, stat)
  else
    (Code.success, {c with writer := {c.writer with isActive := true}}, {stat with isWriteActive := true})

/-- `MqttWriteStop` -/
def writeStop (c : MqttClient) (stat : MqttMsgStat) : MqttClient × MqttMsgStat :=
  ({c with writer := {c.writer with pos := 0, len := 0, isActive := false}}, {stat with isWriteActive := false})

/-- `MqttReadStart` -/
def readStart (c : MqttClient) (stat : MqttMsgStat) : Int × MqttClient × MqttMsgStat :=
  if c.readActive then (Code.continue, c, stat)
  else
    (Code.success, {c with readActive := true, reader := {c.reader with stat := .begin}},
      {stat with isReadActive := true})

/-- `MqttReadStop` -/
def readStop (c : MqttClient) (stat : MqttMsgStat) : MqttClient × MqttMsgStat :=
  ({c with readActive := false, reader := {c.reader with pos := 0, total := 0}}, {stat with isReadActive := false})

/-- `MqttClient_CancelMessage` of the message object `owner`. -/
def cancelMessage (c : MqttClient) (owner : Owner) (stat : MqttMsgStat) : MqttClient × MqttMsgStat :=
  let onWire := stat.write = .wait
  let stat := {stat with write := .begin, read := .begin}
  let c :=
    {c with
      sendInflight :=
        if onWire then SendIds.disown c.sendInflight owner else SendIds.releaseOwner c.sendInflight owner}
  let stat := {stat with recvQuotaHeld := false}
  let (c, stat) := if stat.isReadActive then c.readStop stat else (c, stat)
  if stat.isWriteActive then c.writeStop stat else (c, stat)

/-- `MqttClient_CheckConnectSent` -/
def checkConnectSent (c : MqttClient) : Int :=
  if !c.connectSent then Code.stat
  else if c.disconnectSent then Code.stat
  else Code.success

end MqttClient
end WolfMqtt
