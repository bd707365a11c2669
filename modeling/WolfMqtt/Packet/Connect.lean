import WolfMqtt.Packet.PropScan

/-! CONNECT, written and read: `MqttEncode_Connect` and `MqttDecode_Connect`.

The encoder works on the caller's `MqttConnect`, whose strings end where their NUL stands; the decoder
fills one in with pointers into the receive buffer. Between the two there is nothing but bytes: which
sections a packet has is up to its flags. -/
namespace WolfMqtt

/-! ### What the encoder takes -/

/-- The members of `MqttMessage` a will has. `none` is a NULL pointer; `buffer` is the memory from the
pointer on. -/
structure LwtMsg where
  topicName : Option Bytes
  buffer : Option Bytes
  totalLen : Nat
  qos : Nat := 0
  retain : UInt8 := 0
  props : List MqttProp := []
deriving Repr, DecidableEq

/-- `MqttConnect` as a client fills it in. `password` is the memory from the pointer on. -/
structure MqttConnect where
  protocolLevel : UInt8
  cleanSession : UInt8 := 0
  keepAliveSec : UInt16 := 0
  clientId : Option Bytes
  enableLwt : UInt8 := 0
  lwtMsg : Option LwtMsg := none
  username : Option Bytes := none
  password : Option Bytes := none
  passwordLen : UInt16 := 0
  props : List MqttProp := []
deriving Repr, DecidableEq

namespace MqttConnect

/-- Level 0 stands for the build's own, which is 5. -/
def level (c : MqttConnect) : UInt8 := if c.protocolLevel = 0 then 5 else c.protocolLevel

/-- The bytes of the password: as many as `password_len` says, or those in front of the first NUL. -/
def passwordBytes (c : MqttConnect) (password : Bytes) : Bytes :=
  if c.passwordLen > 0 then password.take c.passwordLen.toNat else password.takeWhile (· ≠ 0)

end MqttConnect

/-- `MqttWillProps_ValidateType` -/
def willPropsValidateType (type : PropType) : Bool :=
  type = .willDelayInterval || type = .payloadFormatInd || type = .msgExpiryInterval || type = .contentType ||
    type = .respTopic || type = .correlationData || type = .userProp

/-! ### The encoder -/

/-- An MQTT string: short enough, and well formed. -/
def connectString (s : Bytes) : Except Int Bytes :=
  if s.length > 0xFFFF then .error Code.badArg
  else if !utf8WellFormed s then .error Code.malformedData
  else .ok (encodeData s)

/-- The will's Will Properties. -/
def connectWillProps (level : UInt8) (w : LwtMsg) : Except Int Bytes :=
  if level ≥ 5 then
    if w.props.length > maxProps || !w.props.all (fun p => willPropsValidateType p.type) then .error Code.property
    else encodePropBlock .connect w.props
  else .ok []

/-- The section of the will: properties, topic, payload. -/
def connectWill (level : UInt8) (w : Option LwtMsg) : Except Int Bytes :=
  match w with
  | none => .error Code.badArg
  | some w =>
    match w.topicName with
    | none => .error Code.badArg
    | some topic =>
      if w.buffer.isNone && w.totalLen ≠ 0 then .error Code.badArg
      else if topic.length > 0xFFFF then .error Code.badArg
      else if !topicNameValid topic level.toNat then .error Code.malformedData
      else if !utf8WellFormed topic then .error Code.malformedData
      else if w.qos > 2 then .error Code.badArg
      else if w.totalLen > 0xFFFF then .error Code.badArg
      else do
        let props ← connectWillProps level w
        .ok (props ++ encodeData topic ++ encodeData ((w.buffer.getD []).take w.totalLen))

def connectFlags (c : MqttConnect) : UInt8 :=
  let clean : UInt8 := if c.cleanSession ≠ 0 then 0x02 else 0
  let will : UInt8 :=
    match c.lwtMsg with
    | some w =>
      if c.enableLwt ≠ 0 then
        (0x04 : UInt8) ||| (UInt8.ofNat w.qos <<< 3 &&& 0x18) ||| (if w.retain ≠ 0 then 0x20 else 0)
      else 0
    | none => 0
  clean ||| will ||| (if c.username.isSome then 0x80 else 0) ||| (if c.password.isSome then 0x40 else 0)

/-- The ten bytes in front: protocol name, level, flags, keep-alive. -/
def connectFront (level flags : UInt8) (keepAlive : Nat) : Bytes :=
  [0, 4, 0x4D, 0x51, 0x54, 0x54, level, flags] ++ encodeNum keepAlive

def connectProps (c : MqttConnect) : Except Int Bytes :=
  if c.level ≥ 5 then encodePropBlock .connect c.props else .ok []

/-- The client id, which may be empty at level 4 only if the session is clean. -/
def connectClientId (c : MqttConnect) (id : Bytes) : Except Int Bytes :=
  match connectString id with
  | .error e => .error e
  | .ok bytes =>
    if id.length = 0 && c.cleanSession = 0 && c.level = 4 then .error Code.badArg else .ok bytes

def connectLwt (c : MqttConnect) : Except Int Bytes :=
  if c.enableLwt ≠ 0 then connectWill c.level c.lwtMsg else .ok []

def connectUsername (c : MqttConnect) : Except Int Bytes :=
  match c.username with
  | none => .ok []
  | some name => connectString name

def connectPassword (c : MqttConnect) : Except Int Bytes :=
  match c.password with
  | none => .ok []
  | some memory =>
    if (c.passwordBytes memory).length > 0xFFFF then .error Code.badArg
    else .ok (encodeData (c.passwordBytes memory))

/-- All of a CONNECT behind its fixed header. -/
def connectBody (c : MqttConnect) : Except Int Bytes :=
  match c.clientId with
  | none => .error Code.badArg
  | some id =>
    if c.level ≠ 4 && c.level ≠ 5 then .error Code.badArg
    else if c.level = 4 && c.password.isSome && c.username.isNone then .error Code.badArg
    else do
      let props ← connectProps c
      let clientId ← connectClientId c id
      let will ← connectLwt c
      let username ← connectUsername c
      let password ← connectPassword c
      .ok (connectFront c.level (connectFlags c) c.keepAliveSec.toNat ++ props ++ clientId ++ will ++ username ++
        password)

/-- `MqttEncode_Connect` -/
def encodeConnect (txLen : Nat) (c : MqttConnect) : Encoded :=
  match connectBody c with
  | .error e => .fail e
  | .ok body => encodePacket txLen .connect .qos0 body

/-! ### What the decoder gives -/

/-- The will as it is decoded: `total_len` is the length of `buffer`. -/
structure LwtView where
  qos : Nat
  retain : UInt8
  props : List PropView
  topicName : Slice
  buffer : Slice
deriving Repr, DecidableEq

/-- `MqttConnect` as the decoder fills it in. The lengths of the client id and of the user name are not
kept, they stand in the buffer in front of them. -/
structure ConnectView where
  protocolLevel : UInt8
  cleanSession : UInt8
  keepAliveSec : Nat
  props : List PropView
  clientId : Slice
  lwtMsg : Option LwtView
  username : Option Slice
  password : Option Slice
deriving Repr, DecidableEq

/-! ### The decoder -/

/-- `MqttDecode_FixedHeader` for a packet type whose flags must be zero: the header's length and the
Remaining Length. -/
def scanFixedHeader (rx : Bytes) (type : PacketType) : Except Fault (Nat × Nat) :=
  if rx.length < 2 then .error (.code Code.outOfBuffer)
  else do
    let (remainLen, n) ← scanVbi rx 1 (rx.length - 1)
    if remainLen > maxRemainLen then .error (.code Code.malformedData)
    else
      let first ← readByte rx 0
      if first.toNat / 16 ≠ type.toNat then .error (.code Code.packetType)
      else if first.toNat % 16 ≠ 0 then .error (.code Code.malformedData)
      else .ok (n + 1, remainLen)

/-- The rules for the connect flags, [MQTT-3.1.2-3], -13, -14, -15 and -22. -/
def connectFlagsValid (level flags : UInt8) : Bool :=
  if flags &&& 0x01 ≠ 0 then false
  else if flags &&& 0x04 = 0 && flags &&& (0x18 ||| 0x20) ≠ 0 then false
  else if flags &&& 0x04 ≠ 0 && (flags &&& 0x18) >>> 3 = 3 then false
  else !(level = 4 && flags &&& 0x40 ≠ 0 && flags &&& 0x80 = 0)

/-- The properties of a CONNECT or of its will, and where they end. -/
def scanPropSection (room : Nat) (rx : Bytes) (pos : Nat) : Except Fault (List PropView × Nat) :=
  if rx.length < pos then .error (.code Code.outOfBuffer)
  else do
    let (len, n) ← scanVbi rx pos (wordDiff rx.length pos)
    if len > 0 then do
      let (props, total) ← scanProps .connect room rx (pos + n) (wordDiff rx.length (pos + n)) len
      .ok (props, pos + n + total)
    else .ok ([], pos + n)

/-- Properties that only level 5 has. -/
def scanLevelProps (level : UInt8) (scan : Nat → Except Fault (List PropView × Nat)) (pos : Nat) :
    Except Fault (List PropView × Nat) :=
  if level = 5 then scan pos else .ok ([], pos)

/-- A section that a flag selects. -/
def scanOptional {α : Type} (present : Bool) (scan : Nat → Except Fault (α × Nat)) (pos : Nat) :
    Except Fault (Option α × Nat) :=
  if present then do
    let (x, pos) ← scan pos
    .ok (some x, pos)
  else .ok (none, pos)

/-- A string that must end in front of `limit`, and where it ends. -/
def scanField (rx : Bytes) (limit pos : Nat) : Except Fault (Slice × Nat) := do
  let s ← scanString rx pos (wordDiff rx.length pos)
  if pos + (2 + s.len) > limit then .error (.code Code.outOfBuffer)
  else .ok (s, pos + (2 + s.len))

/-- The Will Properties, of the types a will may have. -/
def scanWillProps (room : Nat) (rx : Bytes) (pos : Nat) : Except Fault (List PropView × Nat) := do
  let (props, pos) ← scanPropSection room rx pos
  if !props.all (fun p => willPropsValidateType p.type) then .error (.code Code.property)
  else .ok (props, pos)

/-- The will's payload, and where it ends. -/
def scanWillPayload (rx : Bytes) (limit pos : Nat) : Except Fault (Slice × Nat) := do
  let len ← scanNum rx pos (wordDiff rx.length pos)
  if pos + 2 + len > limit then .error (.code Code.outOfBuffer)
  else .ok (⟨pos + 2, len⟩, pos + 2 + len)

/-- The section of the will, and where it ends. -/
def scanWill (hasLwt : Bool) (level flags : UInt8) (room : Nat) (rx : Bytes) (limit pos : Nat) :
    Except Fault (LwtView × Nat) :=
  if !hasLwt then .error (.code Code.badArg)
  else do
    let (props, pos) ← scanLevelProps level (scanWillProps room rx) pos
    let (topic, pos) ← scanField rx limit pos
    if topic.len = 0 || !topicNameValid (topic.get rx) level.toNat then .error (.code Code.malformedData)
    else
      let (buffer, pos) ← scanWillPayload rx limit pos
      .ok ({ qos := ((flags &&& 0x18) >>> 3).toNat
             retain := if flags &&& 0x20 ≠ 0 then 1 else 0
             props
             topicName := topic
             buffer }, pos)

/-- The password, and where it ends. -/
def scanPassword (rx : Bytes) (limit pos : Nat) : Except Fault (Slice × Nat) := do
  let len ← scanNum rx pos (wordDiff rx.length pos)
  if len > wordDiff rx.length (pos + 2) then .error (.code Code.outOfBuffer)
  else if pos + 2 + len > limit then .error (.code Code.outOfBuffer)
  else .ok (⟨pos + 2, len⟩, pos + 2 + len)

/-- The payload: the sections that the flags select, up to the end of the packet. -/
def scanPayload (hasLwt : Bool) (room : Nat) (level flags : UInt8) (keepAlive : Nat) (rx : Bytes) (limit pos : Nat) :
    Except Fault ConnectView := do
  let (props, pos) ← scanLevelProps level (scanPropSection room rx) pos
  let (clientId, pos) ← scanField rx limit pos
  let (lwtMsg, pos) ←
    scanOptional (flags &&& 0x04 ≠ 0) (scanWill hasLwt level flags (room - props.length) rx limit) pos
  let (username, pos) ← scanOptional (flags &&& 0x80 ≠ 0) (scanField rx limit) pos
  let (password, pos) ← scanOptional (flags &&& 0x40 ≠ 0) (scanPassword rx limit) pos
  if pos ≠ limit then .error (.code Code.malformedData)
  else
    .ok { protocolLevel := level
          cleanSession := if flags &&& 0x02 ≠ 0 then 1 else 0
          keepAliveSec := keepAlive
          props
          clientId
          lwtMsg
          username
          password }

/-- `MqttDecode_Connect`, with or without a `lwt_msg` to fill in and with `room` free properties: the
length of the packet, and what it says. -/
def decodeConnect (hasLwt : Bool) (room : Nat) (rx : Bytes) : Except Fault (Nat × ConnectView) :=
  if rx.length = 0 then .error (.code Code.badArg)
  else do
    let (headerLen, remainLen) ← scanFixedHeader rx .connect
    let limit := headerLen + remainLen
    if rx.length < limit then .error (.code Code.outOfBuffer)
    else if 10 > remainLen || rx.length < headerLen + 10 then .error (.code Code.outOfBuffer)
    else
      let packet ← readBytes rx headerLen 10
      match packet with
      | [len₁, len₀, m, q, t, t', level, flags, keep₁, keep₀] =>
        if len₁.toNat * 256 + len₀.toNat ≠ 4 || [m, q, t, t'] ≠ [0x4D, 0x51, 0x54, 0x54] then
          .error (.code Code.malformedData)
        else if !connectFlagsValid level flags then .error (.code Code.malformedData)
        else
          let keepAlive := keep₁.toNat * 256 + keep₀.toNat
          let c ← scanPayload hasLwt room level flags keepAlive rx limit (headerLen + 10)
          .ok (limit, c)
      | _ => .error .overrun

end WolfMqtt
