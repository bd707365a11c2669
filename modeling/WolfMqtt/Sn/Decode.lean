import WolfMqtt.Sn.Encode

/-! The decoders of `mqtt_sn_packet.c` that this development reads packets back with.

A decoder is given the `rx_buf_len` bytes of its buffer. A length it works with is a `word16`. -/
namespace WolfMqtt.Sn

/-! ### The header -/

structure Header where
  totalLen : Nat
  type : UInt8
  packetId : Nat
deriving Repr, DecidableEq

/-- The length of a packet, and how many bytes its length field takes. -/
def decodeLength : Bytes → Except Int (Nat × Nat)
  | [] => .error Code.badArg
  | b :: rest =>
    if b = lenInd then
      match decodeNum rest with
      | .error e => .error e
      | .ok totalLen => .ok (totalLen, 3)
    else .ok (b.toNat, 1)

/-- Where the message id of a packet stands behind its type, in the packets that have one. -/
def idOffset (type : UInt8) : Option Nat :=
  if type = MsgType.regAck ∨ type = MsgType.pubAck then some 2
  else if type = MsgType.pubComp ∨ type = MsgType.pubRec ∨ type = MsgType.pubRel ∨ type = MsgType.unsubAck then some 0
  else if type = MsgType.subAck then some 3
  else none

/-- The message id, in a packet of which `avail` bytes follow the type. -/
def decodeId (type : UInt8) (rest : Bytes) (avail : Nat) : Except Int Nat :=
  match idOffset type with
  | none => .ok 0
  | some offset =>
    let idAvail : Int := avail - offset
    if idAvail < 2 then .error Code.badArg else decodeNum ((rest.drop offset).take idAvail.toNat)

/-- `SN_Decode_Header`, asked for the message id as well. -/
def decodeHeader (rx : Bytes) : Except Int Header :=
  if rx.length < 2 then .error Code.badArg
  else
    match decodeLength rx with
    | .error e => .error e
    | .ok (totalLen, n) =>
      if totalLen > rx.length then .error Code.outOfBuffer
      else if totalLen < n + 1 then .error Code.malformedData
      else
        match rx.drop n with
        | [] => .error Code.outOfBuffer -- the two checks leave a byte
        | type :: rest =>
          match decodeId type rest (totalLen - (n + 1)) with
          | .error e => .error e
          | .ok packetId => .ok {totalLen, type, packetId}

/-! ### PUBLISH -/

/-- What `SN_Decode_Publish` fills in, and the length it returns. -/
structure DecodedPublish where
  totalLen : Nat
  duplicate : UInt8
  qos : UInt8
  retain : UInt8
  topicType : UInt8
  topicName : Bytes
  packetId : Nat
  payload : Bytes
deriving Repr, DecidableEq

/-- The rest of a PUBLISH behind its flags, `used` bytes into a packet of `totalLen`. -/
def decodePublishFields (flags : UInt8) (totalLen used : Nat) : Bytes → Except Int DecodedPublish
  | t₀ :: t₁ :: rest =>
    match decodeNum rest with
    | .error e => .error e
    | .ok packetId =>
      let qos := (flags &&& Flag.qosMask) >>> Flag.qosShift
      let topicType := flags &&& Flag.topicIdTypeMask
      if (qos = 1 ∨ qos = 2) ∧ packetId = 0 then .error Code.packetId
      else if topicType > TopicIdType.short then .error Code.malformedData
      else if totalLen < used + 4 then .error Code.malformedData
      else
        .ok {totalLen, duplicate := flags &&& Flag.duplicate, qos, retain := flags &&& Flag.retain, topicType,
             topicName := [t₀, t₁], packetId, payload := (rest.drop 2).take (totalLen - (used + 4))}
  | _ => .error Code.outOfBuffer

def decodePublish (rx : Bytes) : Except Int DecodedPublish :=
  if rx.length < 2 then .error Code.badArg
  else
    match decodeLength rx with
    | .error e => .error e
    | .ok (totalLen, n) =>
      if totalLen > rx.length then .error Code.outOfBuffer
      else if totalLen < 7 then .error Code.malformedData
      else
        match rx.drop n with
        | type :: flags :: rest =>
          if type ≠ MsgType.publish then .error Code.packetType
          else decodePublishFields flags totalLen (n + 2) rest
        | _ => .error Code.outOfBuffer -- the two checks leave the bytes

/-! ### REGISTER -/

/-- What `SN_Decode_Register` fills in, the length it returns, and the buffer as it leaves it. The
name is where `topicName` points in that buffer. -/
structure DecodedRegister where
  totalLen : Nat
  topicId : Nat
  packetId : Nat
  topicName : Nat
  rx : Bytes
deriving Repr, DecidableEq

/-- The C string `topicName` points at. -/
def DecodedRegister.name (d : DecodedRegister) : Bytes := copied (d.rx.drop d.topicName) (strLen (d.rx.drop d.topicName))

def decodeRegister (rx : Bytes) : Except Int DecodedRegister :=
  match decodeLength rx with
  | .error e => .error e
  | .ok (totalLen, n) =>
    if totalLen ≥ rx.length then .error Code.outOfBuffer
    else if totalLen < 7 then .error Code.malformedData
    else
      match rx.drop n with
      | [] => .error Code.outOfBuffer -- the two checks leave a byte
      | type :: rest =>
        if type ≠ MsgType.register then .error Code.packetType
        else
          match decodeNum rest with
          | .error e => .error e
          | .ok topicId =>
            match decodeNum (rest.drop 2) with
            | .error e => .error e
            | .ok packetId =>
              if totalLen < n + 5 then .error Code.malformedData
              else .ok {totalLen, topicId, packetId, topicName := n + 5, rx := rx.set totalLen 0}

end WolfMqtt.Sn
