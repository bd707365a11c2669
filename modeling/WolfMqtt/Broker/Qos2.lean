import WolfMqtt.Broker.Write

/-! Inbound QoS 2 identifiers: received and answered with PUBREC, not yet released.

The set is a list with a count beside it, at most `maxInboundQos2` long. It belongs to
the session: a takeover or a resumption moves it whole. -/
namespace WolfMqtt.Broker

/-- `BrokerInboundQos2_Contains` -/
def qos2Contains (c : BrokerClient) (packetId : Nat) : Bool :=
  packetId ≠ 0 && c.qos2Pending.contains packetId

/-- `BrokerInboundQos2_Add` -/
def qos2Add (L : Limits) (packetId : Nat) : ClientM Int := fun s =>
  if packetId = 0 then (Code.badArg, s)
  else if qos2Contains s.c packetId then (Code.success, s)
  else if s.c.qos2PendingCount ≥ L.maxInboundQos2 then (Code.outOfBuffer, s)
  else
    match s.env.alloc with
    | (none, env) => (Code.memory, {s with env := env})
    | (some _, env) =>
      (Code.success, {c := {s.c with qos2Pending := packetId :: s.c.qos2Pending,
                                     qos2PendingCount := s.c.qos2PendingCount + 1},
                      env := env})

/-- `BrokerInboundQos2_Remove` -/
def qos2Remove (packetId : Nat) : ClientM Unit :=
  modifyClient (fun c =>
    if packetId ≠ 0 ∧ packetId ∈ c.qos2Pending then
      {c with qos2Pending := c.qos2Pending.erase packetId,
              qos2PendingCount := if c.qos2PendingCount > 0 then c.qos2PendingCount - 1 else c.qos2PendingCount}
    else c)

/-- `BrokerInboundQos2_HasPending` -/
def qos2HasPending (c : BrokerClient) : Bool := c.qos2PendingCount > 0

/-- Does the session of a connection outlive it, as `BrokerInboundQos2_Takeover` reads it? -/
def oldPersists (old : BrokerClient) : Bool :=
  if old.protocolLevel ≥ level5 then decide (old.sessionExpirySec ≠ 0) else !old.cleanSession

/-- `BrokerInboundQos2_Takeover`, on the two records: the state moves when the old session
survives its connection and there is any. -/
def qos2Takeover (new old : BrokerClient) : Bool × BrokerClient × BrokerClient :=
  if !oldPersists old || !qos2HasPending old then (false, new, old)
  else
    (true,
      {new with qos2Pending := old.qos2Pending, qos2PendingCount := old.qos2PendingCount},
      {old with qos2Pending := [], qos2PendingCount := 0})

end WolfMqtt.Broker
