import WolfMqtt.Packet.Encode

/-! Decoders: what `mqtt_packet.c` reads back.

A decoder is given what is left of its buffer. Property records come from a pool of
fixed size, shared with whatever else is being decoded; `room` says how many of them
are free. -/
namespace WolfMqtt

/-! ### Integers, strings and binary data -/

/-- The loop of `MqttDecode_Vbi`, with `rc` bytes read so far. -/
def decodeVbiLoop (rc value multiplier : Nat) : Bytes → Except Int (Nat × Nat)
  | [] => .error Code.outOfBuffer
  | b :: rest =>
    if rc ≥ maxLenBytes then .error Code.malformedData
    else if b.toNat ≥ 128 then
      decodeVbiLoop (rc + 1) (value + b.toNat % 128 * multiplier) (multiplier * 128) rest
    else if rc + 1 > 1 && b = 0 then .error Code.malformedData
    else .ok (value + b.toNat * multiplier, rc + 1)

/-- `MqttDecode_Vbi`: the value, and how many bytes it takes. -/
def decodeVbi (buf : Bytes) : Except Int (Nat × Nat) := decodeVbiLoop 0 0 1 buf

def decodeNum : Bytes → Except Int Nat
  | hi :: lo :: _ => .ok (hi.toNat * 256 + lo.toNat)
  | _ => .error Code.outOfBuffer

def decodeInt : Bytes → Except Int Nat
  | a :: b :: c :: d :: _ => .ok (a.toNat * 16777216 + b.toNat * 65536 + c.toNat * 256 + d.toNat)
  | _ => .error Code.outOfBuffer

/-- `MqttDecode_String`. Its second look for a NUL byte finds none after the first. -/
def decodeString (buf : Bytes) : Except Int Bytes :=
  match decodeNum buf with
  | .error e => .error e
  | .ok len =>
    if len > buf.length - 2 then .error Code.outOfBuffer
    else if !utf8WellFormed ((buf.drop 2).take len) then .error Code.malformedData
    else .ok ((buf.drop 2).take len)

/-! ### Properties -/

def PropType.all : List PropType :=
  [.payloadFormatInd, .msgExpiryInterval, .contentType, .respTopic, .correlationData, .subscriptionId,
    .sessionExpiryInterval, .assignedClientId, .serverKeepAlive, .authMethod, .authData, .reqProbInfo,
    .willDelayInterval, .reqRespInfo, .respInfo, .serverRef, .reasonStr, .receiveMax, .topicAliasMax,
    .topicAlias, .maxQos, .retainAvail, .userProp, .maxPacketSz, .wildcardSubAvail, .subscriptionIdAvail,
    .sharedSubscriptionAvail]

/-- The row of `gPropMatrix` for an identifier; a row without a property allows no packet. -/
def PropType.ofNat? (n : Nat) : Option PropType := PropType.all.find? (fun t => t.toNat = n)

/-- The number of rows of `gPropMatrix`. -/
def propMatrixSize : Nat := 44

/-- The value of one property, `propLen` bytes of the list being left: the property, and how
many bytes the value takes. -/
def decodePropValue (type : PropType) (buf : Bytes) (propLen : Nat) : Except Int (MqttProp × Nat) :=
  match type.dataType with
  | .byte =>
    match buf with
    | [] => .error Code.outOfBuffer
    | b :: _ =>
      if propLen < 1 then .error Code.outOfBuffer
      else if b > 1 then .error Code.property
      else .ok ({type, dataByte := b}, 1)
  | .short => do
    let value ← decodeNum buf
    if 2 > propLen then .error Code.malformedData
    else if type = .topicAlias && value = 0 then .error Code.malformedData
    else .ok ({type, dataShort := value}, 2)
  | .int => do
    if propLen < 4 then .error Code.outOfBuffer
    else
      let value ← decodeInt buf
      if type = .maxPacketSz && value = 0 then .error Code.malformedData
      else .ok ({type, dataInt := value}, 4)
  | .string => do
    let s ← decodeString buf
    if 2 + s.length > propLen then .error Code.malformedData
    else if type = .respTopic && !topicNameValid s level5 then .error Code.malformedData
    else .ok ({type, dataStr := s}, 2 + s.length)
  | .varInt => do
    let (value, n) ← decodeVbi buf
    if n > propLen then .error Code.malformedData
    else if type = .subscriptionId && value = 0 then .error Code.malformedData
    else .ok ({type, dataInt := value}, n)
  | .binary => do
    let len ← decodeNum buf
    if 2 > propLen then .error Code.malformedData
    else if len > buf.length - 2 then .error Code.property
    else if len > propLen - 2 then .error Code.malformedData
    else .ok ({type, dataBin := (buf.drop 2).take len}, 2 + len)
  | .stringPair => do
    let s ← decodeString buf
    if 2 + s.length > propLen then .error Code.malformedData
    else if buf.length - (2 + s.length) = 0 then .error Code.property
    else
      let s₂ ← decodeString (buf.drop (2 + s.length))
      if 2 + s₂.length > propLen - (2 + s.length) then .error Code.malformedData
      else .ok ({type, dataStr := s, dataStr2 := s₂}, 2 + s.length + (2 + s₂.length))

/-- The loop of `MqttDecode_Props`, with `left` properties still allowed. -/
def decodePropsLoop (packet : PacketType) (seen : List PropType) (room : Nat) (buf : Bytes) (propLen : Nat) :
    Nat → Except Int (List MqttProp)
  | 0 => if propLen = 0 then .ok [] else .error Code.property
  | left + 1 =>
    if propLen = 0 then .ok []
    else if room = 0 then .error Code.memory
    else
      match decodeVbi buf with
      | .error e => .error e
      | .ok (id, n) =>
        if id ≥ propMatrixSize then .error Code.property
        else
          match PropType.ofNat? id with
          | none => .error Code.propertyMismatch
          | some type =>
            if !type.allowedIn packet then .error Code.propertyMismatch
            else if !propRepeats packet type && seen.contains type then .error Code.property
            else
              match decodePropValue type (buf.drop n) (propLen - n) with
              | .error e => .error e
              | .ok (p, k) =>
                match decodePropsLoop packet (type :: seen) (room - 1) (buf.drop (n + k)) (propLen - n - k) left with
                | .error e => .error e
                | .ok rest => .ok (p :: rest)

/-- `MqttDecode_Props`: on success it has read all of the `propLen` bytes. -/
def decodeProps (packet : PacketType) (room : Nat) (buf : Bytes) (propLen : Nat) : Except Int (List MqttProp) :=
  match decodePropsLoop packet [] room buf propLen maxProps with
  | .error e => .error e
  | .ok props =>
    if props.any (·.type = .authData) && !props.any (·.type = .authMethod) then .error Code.property
    else .ok props

end WolfMqtt
