import WolfMqtt.Static.Reach

/-! The interval of a message that has been sent decides nothing.

`undated` takes its expiry mark from every entry that has been sent, also from those in the notes.
The broker acts the same with it as without: what it writes, what it keeps and what it drops. So
nothing that has been sent is dropped for its expiry. -/
namespace WolfMqtt.Static
open Broker Row

/-- An entry that has been sent, without its expiry mark. -/
def undate (e : StaticOutPub) : StaticOutPub := {e with hasExpiry := !e.wasSent && e.hasExpiry}

def Carrier.undated (o : Carrier) : Carrier := {o with outQ := {o.outQ with cells := o.outQ.cells.map undate}}

def Sending.undated (τ : Sending) : Sending := {τ with entry := undate τ.entry}

def Mark.undated : Mark → Mark
  | .queued k m id t => .queued k m id t
  | .sent k τ => .sent k τ.undated

def StaticBroker.undated (b : StaticBroker) : StaticBroker :=
  {b with orphans := b.orphans.map (Option.map Carrier.undated), notes := b.notes.map Mark.undated}

def Link.undated (s : Link) : Link := {s with o := s.o.undated, sent := s.sent.map Sending.undated}

def Desk.undated (s : Desk) : Desk := {s with o := s.o.undated}

/-! ### Entries -/

@[simp]
theorem undate_undate (e : StaticOutPub) : undate (undate e) = undate e := by
  unfold undate
  cases e.wasSent <;> rfl

theorem map_undated_undated (l : List Sending) : (l.map Sending.undated).map Sending.undated = l.map Sending.undated := by
  rw [List.map_map]
  exact List.map_congr_left fun τ _ => congrArg (fun e => {τ with entry := e}) (undate_undate τ.entry)

theorem map_undated_undated_mark (l : List Mark) : (l.map Mark.undated).map Mark.undated = l.map Mark.undated := by
  rw [List.map_map]
  refine List.map_congr_left fun μ _ => ?_
  cases μ with
  | queued k m id t => rfl
  | sent k τ => exact congrArg (fun e => Mark.sent k {τ with entry := e}) (undate_undate τ.entry)

theorem undate_packetId (e : StaticOutPub) : (undate e).packetId = e.packetId := rfl

theorem undate_state (e : StaticOutPub) : (undate e).state = e.state := rfl

theorem undate_duplicate (e : StaticOutPub) : (undate e).duplicate = e.duplicate := rfl

theorem entryExpired_undate (now : Nat) (e : StaticOutPub) : entryExpired now (undate e) = entryExpired now e := by
  unfold entryExpired undate
  cases e.wasSent <;> rfl

theorem resetEntry_undate (e : StaticOutPub) : resetEntry (undate e) = undate (resetEntry e) := by
  cases hstate : e.state <;> simp only [resetEntry, undate, hstate]

theorem sentEntry_undate (props : List MqttProp) (e : StaticOutPub) :
    undate (sentEntry props (undate e)) = undate (sentEntry props e) := rfl

/-! ### Carriers -/

section carrier
variable {o : Carrier} {i : Nat}

@[simp]
theorem live_undated (o : Carrier) : o.undated.outQ.live = o.outQ.live.map undate := List.map_take.symm

@[simp]
theorem count_undated (o : Carrier) : o.undated.outQ.count = o.outQ.count := rfl

@[simp]
theorem undated_undated (o : Carrier) : o.undated.undated = o.undated := by
  unfold Carrier.undated
  dsimp only
  rw [List.map_map]
  congr 2
  refine List.map_congr_left fun e _ => undate_undate e

theorem shiftDown_map {α β : Type} (f : α → β) (cells : List α) (i n : Nat) :
    shiftDown (cells.map f) i n = (shiftDown cells i n).map f := by
  induction n generalizing cells i with
  | zero => rfl
  | succ n ih =>
    rw [shiftDown, shiftDown, List.getElem?_map]
    cases cells[i + 1]? with
    | none => rfl
    | some x =>
      show shiftDown ((cells.map f).set i (f x)) (i + 1) n = _
      rw [← List.map_set]
      exact ih ..

@[simp]
theorem removeAt_undated (i : Nat) (o : Carrier) : removeAt i o.undated = (removeAt i o).undated := by
  unfold removeAt Carrier.undated Cells.removeAt
  dsimp only
  split
  · rfl
  · rw [shiftDown_map, List.map_set]
    rfl

/-- An entry is changed by something that does not look at the mark. -/
theorem modify_undated {f : StaticOutPub → StaticOutPub} (hf : ∀ e, f (undate e) = undate (f e)) (i : Nat) (o : Carrier) :
    {o.undated with outQ := o.undated.outQ.modify i f} = ({o with outQ := o.outQ.modify i f} : Carrier).undated := by
  have hcells : (o.outQ.cells.map undate).modify i f = (o.outQ.cells.modify i f).map undate := by
    apply List.ext_getElem?
    intro j
    rw [List.getElem?_modify, List.getElem?_map, List.getElem?_map, List.getElem?_modify]
    cases o.outQ.cells[j]? with
    | none => rfl
    | some e =>
      show some (if i = j then f (undate e) else undate e) = some (undate (if i = j then f e else e))
      split
      · exact congrArg some (hf e)
      · rfl
  unfold Carrier.undated Cells.modify
  dsimp only
  rw [hcells]

/-- An entry is changed by something that shows no mark. -/
theorem modify_cells_undate {f : StaticOutPub → StaticOutPub} (hf : ∀ e, undate (f (undate e)) = undate (f e)) (i : Nat)
    (cells : List StaticOutPub) : ((cells.map undate).modify i f).map undate = (cells.modify i f).map undate := by
  apply List.ext_getElem?
  intro j
  rw [List.getElem?_map, List.getElem?_modify, List.getElem?_map, List.getElem?_map, List.getElem?_modify]
  cases cells[j]? with
  | none => rfl
  | some e =>
    show some (undate (if i = j then f (undate e) else undate e)) = some (undate (if i = j then f e else e))
    split
    · exact congrArg some (hf e)
    · exact congrArg some (undate_undate e)

theorem removeExpiredFrom_undated (now i : Nat) (o : Carrier) (fuel : Nat) :
    removeExpiredFrom now i o.undated fuel = (removeExpiredFrom now i o fuel).undated := by
  induction fuel generalizing i o with
  | zero => rfl
  | succ fuel ih =>
    rw [removeExpiredFrom, removeExpiredFrom, live_undated, List.getElem?_map]
    cases o.outQ.live[i]? with
    | none => rfl
    | some e =>
      dsimp only [Option.map_some]
      rw [entryExpired_undate, removeAt_undated, ih, ih]
      show (if e.state = .queued ∧ entryExpired now e then _ else _) = _
      split <;> rfl

@[simp]
theorem removeExpiredQueued_undated (now : Nat) (o : Carrier) :
    removeExpiredQueued now o.undated = (removeExpiredQueued now o).undated := removeExpiredFrom_undated ..

@[simp]
theorem isExpired_undated (now : Nat) (o : Carrier) : isExpired now o.undated = isExpired now o := rfl

@[simp]
theorem resetDelivery_undated (o : Carrier) : resetDelivery o.undated = (resetDelivery o).undated := by
  have hlive : (o.outQ.live.map undate).map resetEntry = (o.outQ.live.map resetEntry).map undate := by
    rw [List.map_map, List.map_map]
    exact List.map_congr_left fun e _ => resetEntry_undate e
  have hcells : (o.undated.outQ.map resetEntry).cells = (o.outQ.map resetEntry).cells.map undate := by
    show o.undated.outQ.live.map resetEntry ++ (o.outQ.cells.map undate).drop o.outQ.count.toNat = _
    rw [live_undated, hlive, ← List.map_drop, ← List.map_append]
    rfl
  have hcount : o.undated.outQ.live.countP (fun e => decide (e.state = .pubrelSent)) =
      o.outQ.live.countP (fun e => decide (e.state = .pubrelSent)) := by
    rw [live_undated, List.countP_map]
    rfl
  show ({o with outQ := ⟨(o.undated.outQ.map resetEntry).cells, o.outQ.count⟩, outQInflight := _} : Carrier) = _
  rw [hcells, hcount]
  rfl

theorem searchPacketId_undate (live : List StaticOutPub) (packetId fuel next : Nat) :
    searchPacketId (live.map undate) packetId fuel next = searchPacketId live packetId fuel next := by
  induction fuel generalizing next with
  | zero => rfl
  | succ fuel ih =>
    have hany (id : Nat) : (live.map undate).any (fun e => decide (e.packetId = id)) = live.any (fun e => decide (e.packetId = id)) := by
      rw [List.any_map]
      rfl
    unfold searchPacketId
    dsimp only
    rw [hany, ih]

theorem enqueue_undated (L : StaticLimits) (m : Message) (s : Desk) :
    enqueue L m s.undated = (enqueue L m s).map (fun r => (r.1, r.2.undated)) := by
  unfold enqueue
  cases enqueueProps L m with
  | error e => rfl
  | ok props =>
    unfold Desk.undated
    dsimp only
    rw [removeExpiredQueued_undated, live_undated, searchPacketId_undate, count_undated]
    split
    · rfl
    split
    · rfl
    · rfl
    · next id next _ =>
      show some _ = some _
      congr 3
      unfold Carrier.undated Cells.push
      dsimp only
      rw [List.map_set]
      rfl

@[simp]
theorem findPub_undated (packetId : Nat) (state : OutPubState) (o : Carrier) :
    findPub packetId state o.undated = findPub packetId state o := by
  unfold findPub
  rw [live_undated, List.findIdx?_map]
  rfl

theorem any_qos_undate (x : Option StaticOutPub) (qos : QoS) :
    (x.map undate).any (fun e => decide (e.qos = qos)) = x.any (fun e => decide (e.qos = qos)) := by
  cases x with
  | none => rfl
  | some e => rfl

theorem complete_undated (i : Nat) (o : Carrier) : complete i o.undated = (complete i o).undated := by
  unfold complete
  rw [removeAt_undated]
  rfl

theorem completeSent_undated (qos : QoS) (packetId : Nat) (o : Carrier) :
    completeSent qos packetId o.undated = (completeSent qos packetId o).undated := by
  unfold completeSent
  rw [findPub_undated]
  cases findPub packetId .publishSent o with
  | none => rfl
  | some i =>
    dsimp only
    rw [live_undated, List.getElem?_map, any_qos_undate, complete_undated]
    split <;> rfl

theorem onPubComp_undated (packetId : Nat) (o : Carrier) : onPubComp packetId o.undated = (onPubComp packetId o).undated := by
  unfold onPubComp
  rw [findPub_undated]
  cases findPub packetId .pubrelSent o with
  | none => rfl
  | some i => exact complete_undated i o

theorem onPubRec_undated (packetId : Nat) (o : Carrier) :
    onPubRec packetId o.undated = ((onPubRec packetId o).1, (onPubRec packetId o).2.undated) := by
  unfold onPubRec
  rw [findPub_undated, findPub_undated]
  cases (findPub packetId .publishSent o).or (findPub packetId .pubrelSent o) with
  | none => rfl
  | some i =>
    dsimp only
    rw [live_undated, List.getElem?_map, any_qos_undate]
    split
    · exact congrArg (Prod.mk true) (modify_undated (f := fun e => {e with state := .pubrelSent, duplicate := true}) (fun _ => rfl) i o)
    · rfl

theorem pubRelWritten_undated (packetId : Nat) (o : Carrier) :
    pubRelWritten packetId o.undated = (pubRelWritten packetId o).undated := by
  unfold pubRelWritten
  rw [findPub_undated]
  cases findPub packetId .pubrelSent o with
  | none => rfl
  | some i =>
    dsimp only
    rw [live_undated, List.getElem?_map, any_qos_undate]
    split
    · exact modify_undated (f := fun e => {e with duplicate := false}) (fun _ => rfl) i o
    · rfl

theorem saveInboundQos2_undated (c : StaticClient) (o : Carrier) :
    saveInboundQos2 c o.undated = ((saveInboundQos2 c o).1, (saveInboundQos2 c o).2.undated) := by
  unfold saveInboundQos2
  split <;> rfl

end carrier

/-! ### Lookups and slots -/

section slots
variable {L : StaticLimits} {b : StaticBroker}

theorem undated_undated_broker (b : StaticBroker) : b.undated.undated = b.undated := by
  have horphans : (b.orphans.map (Option.map Carrier.undated)).map (Option.map Carrier.undated) =
      b.orphans.map (Option.map Carrier.undated) := by
    rw [List.map_map]
    refine List.map_congr_left fun s _ => ?_
    cases s with
    | none => rfl
    | some o => exact congrArg some (undated_undated o)
  exact congrArg₂ (fun orphans notes => {b with orphans := orphans, notes := notes}) horphans (map_undated_undated_mark b.notes)

@[simp]
theorem client?_undated (b : StaticBroker) (i : Nat) : b.undated.client? i = b.client? i := rfl

@[simp]
theorem orphan?_undated (b : StaticBroker) (k : Nat) : b.undated.orphan? k = (b.orphan? k).map Carrier.undated := by
  unfold StaticBroker.orphan? StaticBroker.undated
  dsimp only
  rw [List.getElem?_map]
  cases b.orphans[k]? with
  | none => rfl
  | some s => rfl

@[simp]
theorem findOrphan_undated (b : StaticBroker) (clientId : Option Bytes) : findOrphan b.undated clientId = findOrphan b clientId := by
  unfold findOrphan
  cases clientId with
  | none => rfl
  | some id =>
    show (b.orphans.map (Option.map Carrier.undated)).findIdx? _ = _
    rw [List.findIdx?_map]
    congr 1
    funext s
    cases s with
    | none => rfl
    | some o => rfl

@[simp]
theorem findByClientId_undated (b : StaticBroker) (clientId : Option Bytes) (i : Nat) :
    findByClientId b.undated clientId i = findByClientId b clientId i := rfl

@[simp]
theorem setClient_undated (i : Nat) (c : Option StaticClient) (b : StaticBroker) :
    b.undated.setClient i c = (b.setClient i c).undated := rfl

@[simp]
theorem setOrphan_undated (k : Nat) (o : Option Carrier) (b : StaticBroker) :
    b.undated.setOrphan k (o.map Carrier.undated) = (b.setOrphan k o).undated := by
  unfold StaticBroker.setOrphan StaticBroker.undated
  dsimp only
  rw [List.map_set]

theorem modifyOrphan_undated {f : Carrier → Carrier} (hf : ∀ o, f o.undated = (f o).undated) (k : Nat) (b : StaticBroker) :
    b.undated.orphans.modify k (Option.map f) = (b.orphans.modify k (Option.map f)).map (Option.map Carrier.undated) := by
  apply List.ext_getElem?
  intro j
  show ((b.orphans.map (Option.map Carrier.undated)).modify k (Option.map f))[j]? = _
  rw [List.getElem?_modify, List.getElem?_map, List.getElem?_map, List.getElem?_modify]
  cases b.orphans[j]? with
  | none => rfl
  | some s =>
    show some (if k = j then (s.map Carrier.undated).map f else s.map Carrier.undated) =
      some ((if k = j then s.map f else s).map Carrier.undated)
    split
    · cases s with
      | none => rfl
      | some o => exact congrArg (fun o => some (some o)) (hf o)
    · rfl

theorem withOrphan_undated {f : Carrier → Carrier} (hf : ∀ o, f o.undated = (f o).undated) (clientId : Option Bytes)
    (b : StaticBroker) : withOrphan clientId f b.undated = (withOrphan clientId f b).undated := by
  unfold withOrphan
  rw [findOrphan_undated]
  cases findOrphan b clientId with
  | none => rfl
  | some k =>
    dsimp only
    rw [modifyOrphan_undated hf]
    rfl

@[simp]
theorem dropOrphan_undated (clientId : Option Bytes) (b : StaticBroker) :
    dropOrphan clientId b.undated = (dropOrphan clientId b).undated := by
  unfold dropOrphan
  rw [findOrphan_undated]
  cases findOrphan b clientId with
  | none => rfl
  | some k => exact setOrphan_undated k none b

@[simp]
theorem sweep_undated (b : StaticBroker) : sweep b.undated = (sweep b).undated := by
  have hslot (s : Option Carrier) : sweepSlot b.clients b.env.getTime.1 (s.map Carrier.undated) =
      (sweepSlot b.clients b.env.getTime.1 s).map Carrier.undated := by
    cases s with
    | none => rfl
    | some o =>
      show (if _ then _ else _) = Option.map _ (if _ then _ else _)
      rw [removeExpiredQueued_undated, isExpired_undated]
      show (if isExpired b.env.getTime.1 (removeExpiredQueued b.env.getTime.1 o) &&
        !hasLiveClient b.clients (removeExpiredQueued b.env.getTime.1 o).clientId then _ else _) = _
      split <;> rfl
  have horphans : (b.orphans.map (Option.map Carrier.undated)).map (sweepSlot b.clients b.env.getTime.1) =
      (b.orphans.map (sweepSlot b.clients b.env.getTime.1)).map (Option.map Carrier.undated) := by
    rw [List.map_map, List.map_map]
    exact List.map_congr_left fun s _ => hslot s
  exact congrArg (fun orphans => ({b.undated with orphans := orphans, env := b.env.getTime.2} : StaticBroker)) horphans

theorem takeOrphan_undated (c : StaticClient) (b : StaticBroker) :
    takeOrphan L c b.undated = ((takeOrphan L c b).1, (takeOrphan L c b).2.undated) := by
  unfold takeOrphan
  cases c.clientId with
  | none => rfl
  | some id =>
    dsimp only
    rw [sweep_undated, findOrphan_undated]
    cases findOrphan (sweep b) (some id) with
    | some k =>
      dsimp only
      rw [modifyOrphan_undated fun o => ?_]
      · rfl
      · rw [resetDelivery_undated]
        rfl
    | none =>
      have hempty : (sweep b).undated.orphans.findIdx? Option.isNone = (sweep b).orphans.findIdx? Option.isNone := by
        show ((sweep b).orphans.map (Option.map Carrier.undated)).findIdx? _ = _
        rw [List.findIdx?_map]
        congr 1
        funext s
        cases s <;> rfl
      dsimp only
      rw [hempty]
      cases (sweep b).orphans.findIdx? Option.isNone with
      | none => rfl
      | some k =>
        have hfresh : (adoptCarrier c b.env.getTime.1 (freshCarrier L id)).undated =
            adoptCarrier c b.env.getTime.1 (freshCarrier L id) := by
          unfold Carrier.undated adoptCarrier freshCarrier
          dsimp only
          rw [List.map_replicate]
          rfl
        refine congrArg (Prod.mk true) ?_
        rw [← setOrphan_undated, Option.map_some, hfresh]
        rfl

/-! ### Connections -/

theorem onClient_undated {α : Type} (i : Nat) (default : α) (m : ClientM α) (b : StaticBroker) :
    onClient i default m b.undated = ((onClient i default m b).1, (onClient i default m b).2.undated) := by
  unfold onClient
  rw [client?_undated]
  cases b.client? i with
  | none => rfl
  | some c => rfl

@[simp]
theorem clientClose_undated (i : Nat) (b : StaticBroker) : clientClose i b.undated = (clientClose i b).undated := by
  unfold clientClose
  rw [client?_undated]
  cases b.client? i with
  | none => rfl
  | some c =>
    dsimp only
    rw [findOrphan_undated]
    cases findOrphan b c.clientId with
    | none => rfl
    | some k =>
      dsimp only
      rw [orphan?_undated]
      cases b.orphan? k with
      | none => rfl
      | some o =>
        have hset := setOrphan_undated k (some (closeLink {c, o, env := b.env}).o) (b.setClient i (some (closeLink {c, o, env := b.env}).c))
        exact congrArg (fun b' : StaticBroker => {b' with env := b.env.getTime.2}) hset

@[simp]
theorem quotaClose_undated (i : Nat) (b : StaticBroker) : quotaClose L i b.undated = (quotaClose L i b).undated := by
  unfold quotaClose
  rw [onClient_undated, clientClose_undated]

theorem saveInboundQos2_after (c : StaticClient) (o : Carrier) :
    (saveInboundQos2 c o.undated).2 = (saveInboundQos2 c o).2.undated := by rw [saveInboundQos2_undated]

@[simp]
theorem orphanClient_undated (hasSubs : Bool) (i : Nat) (b : StaticBroker) :
    orphanClient L hasSubs i b.undated = (orphanClient L hasSubs i b).undated := by
  unfold orphanClient
  rw [client?_undated]
  cases b.client? i with
  | none => rfl
  | some c =>
    dsimp only
    split
    · rw [takeOrphan_undated, withOrphan_undated fun o => saveInboundQos2_after c o]
      split <;> rfl
    · rw [findOrphan_undated]
      cases findOrphan b c.clientId with
      | none => rfl
      | some k =>
        have hwith := withOrphan_undated (f := fun o => {(saveInboundQos2 c (resetDelivery o)).2 with
            sessionExpirySec := c.sessionExpirySec, orphanSince := b.env.getTime.1}) (fun o => by
          rw [resetDelivery_undated, saveInboundQos2_after]
          rfl) c.clientId b
        exact congrArg (fun b' : StaticBroker => {b' with env := b.env.getTime.2}) hwith

@[simp]
theorem leave_undated (hasSubs : Bool) (i : Nat) (b : StaticBroker) : leave L hasSubs i b.undated = (leave L hasSubs i b).undated := by
  unfold leave endClientSession
  rw [client?_undated]
  cases hc : b.client? i with
  | none => rfl
  | some c =>
    dsimp only
    rw [dropOrphan_undated, orphanClient_undated]
    split <;> rfl

@[simp]
theorem addClient_undated (b : StaticBroker) : addClient L b.undated = (addClient L b).undated := by
  have hclients : b.undated.clients = b.clients := rfl
  unfold addClient
  rw [hclients]
  cases b.clients.findIdx? Option.isNone <;> rfl

/-! ### Acknowledgements -/

@[simp]
theorem handlePubAck_undated (i packetId : Nat) (b : StaticBroker) :
    handlePubAck i packetId b.undated = (handlePubAck i packetId b).undated := by
  unfold handlePubAck
  rw [client?_undated]
  cases b.client? i with
  | none => rfl
  | some c => exact withOrphan_undated (fun o => completeSent_undated .qos1 packetId o) c.clientId (b.setClient i _)

@[simp]
theorem handlePubComp_undated (i packetId : Nat) (b : StaticBroker) :
    handlePubComp i packetId b.undated = (handlePubComp i packetId b).undated := by
  unfold handlePubComp
  rw [client?_undated]
  cases b.client? i with
  | none => rfl
  | some c => exact withOrphan_undated (fun o => onPubComp_undated packetId o) c.clientId (b.setClient i _)

theorem tracked_undated (packetId : Nat) (clientId : Option Bytes) (b : StaticBroker) :
    tracked packetId clientId b.undated = tracked packetId clientId b := by
  unfold tracked
  rw [findOrphan_undated]
  cases findOrphan b clientId with
  | none => rfl
  | some k =>
    dsimp only
    rw [orphan?_undated]
    cases b.orphan? k with
    | none => rfl
    | some o =>
      show (onPubRec packetId o.undated).1 = (onPubRec packetId o).1
      rw [onPubRec_undated]

@[simp]
theorem handlePublishRec_undated (i packetId : Nat) (reason : UInt8) (b : StaticBroker) :
    handlePublishRec L i packetId reason b.undated = (handlePublishRec L i packetId reason b).undated := by
  unfold handlePublishRec
  rw [client?_undated]
  cases b.client? i with
  | none => rfl
  | some c =>
    dsimp only
    have hrec (o : Carrier) : (onPubRec packetId o.undated).2 = (onPubRec packetId o).2.undated := by rw [onPubRec_undated]
    have hreject (o : Carrier) : onPubReject packetId o.undated = (onPubReject packetId o).undated := completeSent_undated ..
    rw [setClient_undated, withOrphan_undated hreject, tracked_undated,
      withOrphan_undated hrec, onClient_undated]
    split
    · rfl
    generalize onClient i 0 (encodeInto (encodePublishResp L.txBufSz .publishRel
      {packetId, protocolLevel := c.protocolLevel})) (withOrphan c.clientId (fun o => (onPubRec packetId o).2) b) = enc
    dsimp only
    rw [onClient_undated]
    generalize onClient i 0 (Static.writeResp L.toLimits enc.1) enc.2 = wr
    dsimp only
    rw [withOrphan_undated fun o => pubRelWritten_undated packetId o, clientClose_undated, client?_undated]
    split
    · rfl
    split
    · rfl
    split <;> rfl

/-! ### Deliveries -/

@[simp]
theorem deliverDirect_undated (d : Delivery) (i : Nat) (b : StaticBroker) :
    deliverDirect L d i b.undated = (deliverDirect L d i b).undated := by
  unfold deliverDirect
  rw [client?_undated]
  cases b.client? i with
  | none => rfl
  | some c =>
    have hend (stays : Bool) (b : StaticBroker) : (if stays then b.undated else clientClose i b.undated) =
        (if stays then b else clientClose i b).undated := by
      rw [clientClose_undated]
      split <;> rfl
    dsimp only
    split
    · exact hend _ {b.setClient i (some (writeDelivery L d 0 c b.env).2.1) with env := (writeDelivery L d 0 c b.env).2.2}
    · have hnext : b.undated.nextPacketId = b.nextPacketId := rfl
      rw [hnext]
      cases outIdTake d.qos c.outInflight b.nextPacketId with
      | none => rfl
      | some r => exact hend _ {b.setClient i _ with env := _, nextPacketId := _}

theorem enqueueAt_undated (k : Nat) (m : Message) (b : StaticBroker) :
    enqueueAt L k m b.undated = (enqueueAt L k m b).map StaticBroker.undated := by
  unfold enqueueAt
  rw [orphan?_undated]
  cases b.orphan? k with
  | none => rfl
  | some o =>
    have henq : enqueue L m {o := o.undated, next := b.undated.nextPacketId, env := b.undated.env} = _ :=
      enqueue_undated L m {o, next := b.nextPacketId, env := b.env}
    dsimp only [Option.map_some]
    rw [henq]
    cases enqueue L m {o, next := b.nextPacketId, env := b.env} with
    | none => rfl
    | some r =>
      have hset := setOrphan_undated k (some r.2.o) b
      have hnotes : b.notes.map Mark.undated ++ r.2.taken.toList.map (fun p => Mark.queued k m p.1 p.2) =
          (b.notes ++ r.2.taken.toList.map (fun p => Mark.queued k m p.1 p.2)).map Mark.undated := by
        rw [List.map_append, List.map_map]
        rfl
      exact congrArg₂ (fun (b' : StaticBroker) notes => some {b' with nextPacketId := r.2.next, env := r.2.env, notes := notes})
        hset hnotes

theorem deliver_undated (t : Target) (d : Delivery) (b : StaticBroker) :
    deliver L t d b.undated = (deliver L t d b).map StaticBroker.undated := by
  unfold deliver
  cases t with
  | offline id =>
    dsimp only [deliverOffline]
    rw [findOrphan_undated]
    split
    · rfl
    · cases findOrphan b (some id) with
      | none => rfl
      | some k => exact enqueueAt_undated ..
  | live i =>
    dsimp only [deliverLive]
    rw [client?_undated]
    cases b.client? i with
    | none => rfl
    | some c =>
      dsimp only
      rw [findOrphan_undated]
      split
      · rfl
      cases (if d.qos = .qos0 then none else findOrphan b c.clientId) with
      | none => exact congrArg some (deliverDirect_undated d i b)
      | some k =>
        have hexpired : {b.undated with
              orphans := b.undated.orphans.modify k (Option.map (removeExpiredQueued b.env.getTime.1)), env := b.env.getTime.2} =
            ({b with orphans := b.orphans.modify k (Option.map (removeExpiredQueued b.env.getTime.1)), env := b.env.getTime.2} :
              StaticBroker).undated := by
          rw [modifyOrphan_undated fun o => removeExpiredQueued_undated _ o]
          rfl
        dsimp only
        show (if Option.any _ (StaticBroker.orphan? {b.undated with
            orphans := b.undated.orphans.modify k (Option.map (removeExpiredQueued b.env.getTime.1)), env := b.env.getTime.2} k)
          then some (quotaClose L i {b.undated with
            orphans := b.undated.orphans.modify k (Option.map (removeExpiredQueued b.env.getTime.1)), env := b.env.getTime.2})
          else enqueueAt L k d.message {b.undated with
            orphans := b.undated.orphans.modify k (Option.map (removeExpiredQueued b.env.getTime.1)), env := b.env.getTime.2}) = _
        rw [hexpired]
        generalize ({b with
          orphans := b.orphans.modify k (Option.map (removeExpiredQueued b.env.getTime.1)), env := b.env.getTime.2} :
            StaticBroker) = b₁
        have hfull : (b₁.undated.orphan? k).any (fun o => decide (o.outQ.count ≥ (L.maxStaticOfflineMsgsPerSub : Int))) =
            (b₁.orphan? k).any (fun o => decide (o.outQ.count ≥ (L.maxStaticOfflineMsgsPerSub : Int))) := by
          rw [orphan?_undated]
          cases b₁.orphan? k with
          | none => rfl
          | some o => rfl
        rw [hfull, quotaClose_undated, enqueueAt_undated]
        split <;> rfl

theorem deliverAll_undated (all : List (Target × Delivery)) (b : StaticBroker) :
    deliverAll L all b.undated = (deliverAll L all b).map StaticBroker.undated := by
  induction all generalizing b with
  | nil => rfl
  | cons p rest ih =>
    rw [deliverAll, deliverAll, deliver_undated]
    cases deliver L p.1 p.2 b with
    | none => rfl
    | some b₁ => exact ih b₁

/-! ### CONNECT -/

theorem takeover_undated (req : ConnectReq) (i j : Nat) (new old : StaticClient) (b : StaticBroker) :
    takeover L req i j new old b.undated = (takeover L req i j new old b).map StaticBroker.undated := by
  have htold : (if old.protocolLevel < level5 then deliverAll L req.oldWill b.undated
      else some (onClient j 0 (sendDisconnect L.toLimits Reason.sessionTakenOver) b.undated).2) =
      (if old.protocolLevel < level5 then deliverAll L req.oldWill b
      else some (onClient j 0 (sendDisconnect L.toLimits Reason.sessionTakenOver) b).2).map StaticBroker.undated := by
    rw [deliverAll_undated, onClient_undated]
    split <;> rfl
  unfold takeover
  dsimp only
  rw [htold]
  cases (if old.protocolLevel < level5 then deliverAll L req.oldWill b
      else some (onClient j 0 (sendDisconnect L.toLimits Reason.sessionTakenOver) b).2) with
  | none => rfl
  | some b₁ =>
    dsimp only [Option.map_some]
    rw [setClient_undated, withOrphan_undated resetDelivery_undated, dropOrphan_undated]
    split
    · rfl
    split <;> rfl

@[simp]
theorem resumeCarrier_undated (i k : Nat) (b : StaticBroker) : resumeCarrier i k b.undated = (resumeCarrier i k b).undated := by
  unfold resumeCarrier
  rw [client?_undated, orphan?_undated]
  cases b.client? i with
  | none => rfl
  | some c =>
    cases b.orphan? k with
    | none => rfl
    | some o =>
      have hset := setOrphan_undated k (some {o with
        protocolLevel := c.protocolLevel, qos2Pending := (reclaimQos2 c.qos2Pending o.qos2Pending).2}) b
      exact congrArg (fun b' : StaticBroker => b'.setClient i (some {c with
        qos2Pending := (reclaimQos2 c.qos2Pending o.qos2Pending).1})) hset

@[simp]
theorem openSession_undated (req : ConnectReq) (i : Nat) (c : StaticClient) (b : StaticBroker) :
    openSession L req i c b.undated = (openSession L req i c b).undated := by
  unfold openSession
  split
  · dsimp only
    rw [dropOrphan_undated, takeOrphan_undated]
    split <;> rfl
  · have hfound : (if (findOrphan b.undated c.clientId).isNone ∧ c.sessionExpirySec ≠ 0 then (takeOrphan L c b.undated).2 else b.undated) =
        (if (findOrphan b c.clientId).isNone ∧ c.sessionExpirySec ≠ 0 then (takeOrphan L c b).2 else b).undated := by
      rw [findOrphan_undated, takeOrphan_undated]
      split <;> rfl
    dsimp only
    rw [hfound, findOrphan_undated]
    generalize (if (findOrphan b c.clientId).isNone ∧ c.sessionExpirySec ≠ 0 then (takeOrphan L c b).2 else b) = b₁
    cases findOrphan b₁ c.clientId with
    | none => rfl
    | some k => exact resumeCarrier_undated i k b₁

@[simp]
theorem answerConnect_undated (req : ConnectReq) (i : Nat) (b : StaticBroker) :
    answerConnect L req i b.undated = (answerConnect L req i b).undated := by
  unfold answerConnect
  rw [client?_undated]
  cases b.client? i with
  | none => rfl
  | some c =>
    have hassign : (if req.assignFails then b.undated.setClient i (some {c with sessionExpirySec := 0}) else b.undated) =
        (if req.assignFails then b.setClient i (some {c with sessionExpirySec := 0}) else b).undated := by split <;> rfl
    dsimp only
    rw [hassign]
    generalize (if req.assignFails then b.setClient i (some {c with sessionExpirySec := 0}) else b) = b₁
    rw [onClient_undated]
    generalize onClient i 0 (encodeInto (encodeConnectAck L.txBufSz req.ack)) b₁ = enc
    have hwr : (if enc.1 ≤ 0 then (enc.1, enc.2.undated) else onClient i 0 (packetWrite L.toLimits enc.1.toNat) enc.2.undated) =
        ((if enc.1 ≤ 0 then enc else onClient i 0 (packetWrite L.toLimits enc.1.toNat) enc.2).1,
          (if enc.1 ≤ 0 then enc else onClient i 0 (packetWrite L.toLimits enc.1.toNat) enc.2).2.undated) := by
      rw [onClient_undated]
      split <;> rfl
    dsimp only
    rw [hwr]
    generalize (if enc.1 ≤ 0 then enc else onClient i 0 (packetWrite L.toLimits enc.1.toNat) enc.2) = wr
    dsimp only
    rw [leave_undated, client?_undated]
    split
    · rfl
    · cases wr.2.client? i <;> rfl

theorem acceptConnect_undated (req : ConnectReq) (i : Nat) (c : StaticClient) (b : StaticBroker) :
    acceptConnect L req i c b.undated = (acceptConnect L req i c b).map StaticBroker.undated := by
  unfold acceptConnect
  dsimp only
  rw [findByClientId_undated]
  cases findByClientId b c.clientId i with
  | none => simp
  | some j =>
    dsimp only
    rw [client?_undated]
    cases b.client? j with
    | none => simp
    | some old =>
      dsimp only
      rw [takeover_undated]
      cases takeover L req i j c old b with
      | none => rfl
      | some b₁ => simp

theorem handleConnect_undated (req : ConnectReq) (i : Nat) (b : StaticBroker) :
    handleConnect L req i b.undated = (handleConnect L req i b).map StaticBroker.undated := by
  unfold handleConnect
  rw [client?_undated]
  cases b.client? i with
  | none => rfl
  | some c =>
    dsimp only
    rw [sweep_undated]
    split
    · rfl
    split
    · rfl
    rw [setClient_undated]
    generalize (sweep b).setClient i (some (readConnect L req c)) = b₁
    have hreserved : (if (readConnect L req c).sessionExpirySec ≠ 0 then takeOrphan L (readConnect L req c) b₁.undated
        else (true, sweep b₁.undated)) =
        ((if (readConnect L req c).sessionExpirySec ≠ 0 then takeOrphan L (readConnect L req c) b₁ else (true, sweep b₁)).1,
          (if (readConnect L req c).sessionExpirySec ≠ 0 then takeOrphan L (readConnect L req c) b₁ else (true, sweep b₁)).2.undated) := by
      rw [takeOrphan_undated, sweep_undated]
      split <;> rfl
    rw [hreserved]
    generalize (if (readConnect L req c).sessionExpirySec ≠ 0 then takeOrphan L (readConnect L req c) b₁
      else (true, sweep b₁)) = reserved
    dsimp only
    rw [setClient_undated, setClient_undated, acceptConnect_undated]
    split <;> rfl

theorem endConnection_undated (expirySec : Option Nat) (will : List (Target × Delivery)) (hasSubs : Bool) (i : Nat)
    (b : StaticBroker) :
    endConnection L expirySec will hasSubs i b.undated = (endConnection L expirySec will hasSubs i b).map StaticBroker.undated := by
  unfold endConnection
  rw [client?_undated]
  cases b.client? i with
  | none => rfl
  | some c =>
    dsimp only
    rw [setClient_undated, deliverAll_undated]
    cases deliverAll L will (b.setClient i (some {c with sessionExpirySec := expirySec.getD c.sessionExpirySec})) with
    | none => rfl
    | some b₁ => simp

end slots

/-! ### The drain -/

section drain
variable {L : StaticLimits}

theorem undated_undated_link (s : Link) : s.undated.undated = s.undated :=
  congrArg₂ (fun o sent => {s with o := o, sent := sent}) (undated_undated s.o) (map_undated_undated s.sent)

theorem linkOnConn_undated {α : Type} (m : ClientM α) (s : Link) :
    s.undated.onConn m = ((s.onConn m).1, (s.onConn m).2.undated) := rfl

theorem drainPubrel_undated (i : Nat) (s : Link) :
    drainPubrel L i s.undated = ((drainPubrel L i s).1, (drainPubrel L i s).2.undated) := by
  have hlevel : s.undated.c.protocolLevel = s.c.protocolLevel := rfl
  have hlive : s.undated.o.outQ.live[i]? = (s.o.outQ.live[i]?).map undate := by
    rw [← List.getElem?_map]
    exact congrArg (fun l : List StaticOutPub => l[i]?) (live_undated s.o)
  unfold drainPubrel
  rw [hlive, hlevel]
  cases s.o.outQ.live[i]? with
  | none => rfl
  | some e =>
    dsimp only [Option.map_some]
    rw [undate_state, undate_duplicate, undate_packetId]
    split
    · rfl
    rw [linkOnConn_undated]
    have ho : (s.onConn (encodeInto (encodePublishResp L.txBufSz .publishRel
      {packetId := e.packetId, protocolLevel := s.c.protocolLevel}))).2.o = s.o := rfl
    generalize s.onConn (encodeInto (encodePublishResp L.txBufSz .publishRel
      {packetId := e.packetId, protocolLevel := s.c.protocolLevel})) = enc at ho ⊢
    dsimp only
    split
    · rfl
    rw [linkOnConn_undated]
    split
    · rfl
    · refine congrArg (Prod.mk true) ?_
      have hmark := modify_undated (f := fun e => {e with duplicate := false}) (fun _ => rfl) i enc.2.o
      exact congrArg (fun o => {((enc.2.onConn (Static.writeDirect L.toLimits enc.1)).2.onConn (zeroTxBuf enc.1.toNat)).2.undated with
        o := o}) hmark

theorem drainPubrels_undated (i left : Nat) (s : Link) :
    drainPubrels L i left s.undated = ((drainPubrels L i left s).1, (drainPubrels L i left s).2.undated) := by
  induction left generalizing i s with
  | zero => rfl
  | succ left ih =>
    unfold drainPubrels
    dsimp only
    rw [drainPubrel_undated, ih]
    split <;> rfl

/-- Alike, but for the marks of what has been sent. -/
def SameDrain (r r' : Bool × Link) : Prop := r.1 = r'.1 ∧ r.2.undated = r'.2.undated

theorem drainPublish_undated (i : Nat) (e : StaticOutPub) (now : Nat) (props : List MqttProp) (s : Link) :
    SameDrain (drainPublish L i (undate e) now props s.undated) (drainPublish L i e now props s) := by
  have hlevel : s.undated.c.protocolLevel = s.c.protocolLevel := rfl
  have hpublish : entryPublish s.c.protocolLevel props (undate e) = entryPublish s.c.protocolLevel props e := rfl
  unfold drainPublish
  dsimp only
  rw [hlevel, hpublish, linkOnConn_undated]
  generalize s.onConn (encodeInto (encodePublish L.txBufSz (entryPublish s.c.protocolLevel props e))) = enc
  have hdrop (n : Nat) : SameDrain
      (true, {(enc.2.undated.onConn (zeroTxBuf n)).2 with o := removeAt i enc.2.o.undated})
      (true, {(enc.2.onConn (zeroTxBuf n)).2 with o := removeAt i enc.2.o}) := by
    refine ⟨rfl, ?_⟩
    rw [removeAt_undated]
    exact undated_undated_link {(enc.2.onConn (zeroTxBuf n)).2 with o := removeAt i enc.2.o}
  dsimp only
  split
  · exact hdrop _
  split
  · exact hdrop _
  rw [linkOnConn_undated]
  generalize enc.2.onConn (Static.writeDirect L.toLimits enc.1) = wr
  dsimp only
  split
  · refine ⟨rfl, ?_⟩
    have hcells := modify_cells_undate (f := fun e => {e with duplicate := true}) (fun e => by cases e; simp [undate]) i wr.2.o.outQ.cells
    exact congrArg₂ (fun cells sent => closeLink {wr.2 with
      o := {wr.2.o with outQ := {wr.2.o.outQ with cells := cells}}, sent := sent}) hcells (map_undated_undated wr.2.sent)
  · refine ⟨rfl, ?_⟩
    have hcells := modify_cells_undate (f := sentEntry props) (sentEntry_undate props) i wr.2.o.outQ.cells
    have hsent (τ : Sending) : (wr.2.sent.map Sending.undated ++ [τ.undated]).map Sending.undated =
        (wr.2.sent ++ [τ]).map Sending.undated := by
      have happend : (wr.2.sent ++ [τ]).map Sending.undated = wr.2.sent.map Sending.undated ++ [τ.undated] := List.map_append
      rw [← map_undated_undated (wr.2.sent ++ [τ]), happend]
    exact congrArg₂ (fun cells sent => ({(wr.2.onConn (zeroTxBuf enc.1.toNat)).2 with
      o := {wr.2.o with outQ := {wr.2.o.outQ with cells := cells}, outQInflight := wr.2.o.outQInflight + 1}
      c := {(wr.2.onConn (zeroTxBuf enc.1.toNat)).2.c with
        unacked := (wr.2.onConn (zeroTxBuf enc.1.toNat)).2.c.unacked ++ [(e.packetId, e.qos)]}
      sent := sent} : Link)) hcells (hsent ⟨e, s.c.protocolLevel, now, props⟩)

theorem firstQueued_undated (o : Carrier) : firstQueued o.undated = (firstQueued o).map (fun p => (p.1, undate p.2)) := by
  unfold firstQueued
  have hstate : (fun e : StaticOutPub => decide (e.state = .queued)) ∘ undate = fun e => decide (e.state = .queued) := rfl
  rw [live_undated, List.findIdx?_map, hstate]
  cases o.outQ.live.findIdx? (fun e => decide (e.state = .queued)) with
  | none => rfl
  | some i =>
    dsimp only
    rw [List.getElem?_map]
    cases o.outQ.live[i]? <;> rfl

theorem drainTurn_undated (s : Link) : SameDrain (drainTurn L s.undated) (drainTurn L s) := by
  have hdrop (i : Nat) : SameDrain (true, {s.undated with env := s.env.getTime.2, o := removeAt i s.o.undated})
      (true, {s with env := s.env.getTime.2, o := removeAt i s.o}) := by
    refine ⟨rfl, ?_⟩
    rw [removeAt_undated]
    exact undated_undated_link {s with env := s.env.getTime.2, o := removeAt i s.o}
  have hsame (env : Env) : SameDrain (false, {s.undated with env := env}) (false, {s with env := env}) :=
    ⟨rfl, undated_undated_link {s with env := env}⟩
  have hinflight : s.o.undated.outQInflight = s.o.outQInflight := rfl
  show SameDrain (drainTurn L {s with o := s.o.undated, sent := s.sent.map Sending.undated}) (drainTurn L s)
  unfold drainTurn
  dsimp only
  rw [firstQueued_undated, hinflight]
  cases firstQueued s.o with
  | none => exact hsame s.env
  | some p =>
    obtain ⟨i, e⟩ := p
    dsimp only [Option.map_some]
    rw [entryExpired_undate]
    by_cases hexp : entryExpired s.env.getTime.1 e = true
    · rw [if_pos hexp, if_pos hexp]
      exact hdrop i
    rw [if_neg hexp, if_neg hexp]
    by_cases hcap : s.o.outQInflight ≥ (L.maxInflightPerSub : Int)
    · rw [if_pos hcap, if_pos hcap]
      exact hsame _
    rw [if_neg hcap, if_neg hcap]
    by_cases hmax : s.c.clientReceiveMax ≠ 0 ∧ s.o.outQInflight ≥ (s.c.clientReceiveMax : Int)
    · rw [if_pos hmax, if_pos hmax]
      exact hsame _
    rw [if_neg hmax, if_neg hmax, show entryProps s.c.protocolLevel s.env.getTime.1 (undate e) =
        entryProps s.c.protocolLevel s.env.getTime.1 e from rfl]
    cases entryProps s.c.protocolLevel s.env.getTime.1 e with
    | error rc => exact hdrop i
    | ok props => exact drainPublish_undated i e s.env.getTime.1 props {s with env := s.env.getTime.2}

theorem drainLoop_undated (fuel : Nat) (s : Link) : (drainLoop L fuel s.undated).undated = (drainLoop L fuel s).undated := by
  induction fuel generalizing s with
  | zero => exact undated_undated_link s
  | succ fuel ih =>
    obtain ⟨hgoes, hleft⟩ := drainTurn_undated (L := L) s
    unfold drainLoop
    dsimp only
    rw [hgoes]
    split
    · rw [← ih, hleft, ih]
    · exact hleft

theorem drainLink_undated (s : Link) : (drainLink L s.undated).undated = (drainLink L s).undated := by
  unfold drainLink
  have hcount : s.undated.o.outQ.count = s.o.outQ.count := rfl
  dsimp only
  rw [hcount, drainPubrels_undated]
  dsimp only
  split
  · exact drainLoop_undated _ _
  · exact undated_undated_link _

theorem drain_undated (i : Nat) (b : StaticBroker) : (drain L i b.undated).undated = (drain L i b).undated := by
  have hsame := undated_undated_broker b
  unfold drain
  rw [client?_undated]
  cases b.client? i with
  | none => exact hsame
  | some c =>
    dsimp only
    rw [findOrphan_undated]
    split
    · exact hsame
    cases findOrphan b c.clientId with
    | none => exact hsame
    | some k =>
      dsimp only
      rw [orphan?_undated]
      cases b.orphan? k with
      | none => exact hsame
      | some o =>
        have hlink : (drainLink L {c, o := o.undated, env := b.env}).undated = (drainLink L {c, o, env := b.env}).undated :=
          drainLink_undated {c, o, env := b.env}
        have henv : b.undated.env = b.env := rfl
        rw [henv]
        dsimp only [Option.map_some]
        generalize drainLink L {c, o := o.undated, env := b.env} = s at hlink ⊢
        generalize drainLink L {c, o, env := b.env} = s' at hlink ⊢
        have hc : s.c = s'.c := (congrArg Link.c hlink :)
        have henv : s.env = s'.env := (congrArg Link.env hlink :)
        have horphans : ((b.undated.orphans.set k (some s.o)).map (Option.map Carrier.undated)) =
            (b.orphans.set k (some s'.o)).map (Option.map Carrier.undated) := by
          rw [List.map_set, List.map_set]
          exact congrArg₂ (fun l o => List.set l k (some o)) (congrArg StaticBroker.orphans hsame) (congrArg Link.o hlink)
        have hsent (l : List Sending) : (l.map (Mark.sent k)).map Mark.undated = (l.map Sending.undated).map (Mark.sent k) := by
          rw [List.map_map, List.map_map]
          rfl
        have hnotes : (b.undated.notes ++ s.sent.map (Mark.sent k)).map Mark.undated =
            (b.notes ++ s'.sent.map (Mark.sent k)).map Mark.undated := by
          rw [List.map_append, List.map_append, hsent, hsent]
          exact congrArg₂ (fun l l' => l ++ l'.map (Mark.sent k)) (congrArg StaticBroker.notes hsame) (congrArg Link.sent hlink)
        show ({b with clients := b.clients.set i (some s.c), orphans := _, env := s.env, notes := _} : StaticBroker) =
          {b with clients := b.clients.set i (some s'.c), orphans := _, env := s'.env, notes := _}
        rw [hc, henv]
        exact congrArg₂ (fun orphans notes => ({b with
          clients := b.clients.set i (some s'.c), orphans := orphans, env := s'.env, notes := notes} : StaticBroker)) horphans hnotes

end drain

/-! ### Events -/

section events
variable {L : StaticLimits} {b : StaticBroker}

/-- What happens to a broker happens to it without the marks. -/
theorem step_undated (b : StaticBroker) (ev : Event) :
    (step L b.undated ev).map StaticBroker.undated = (step L b ev).map StaticBroker.undated := by
  have hagain (x : Option StaticBroker) : (x.map StaticBroker.undated).map StaticBroker.undated = x.map StaticBroker.undated := by
    cases x with
    | none => rfl
    | some b => exact congrArg some (undated_undated_broker b)
  have hsome (b : StaticBroker) : (some b.undated).map StaticBroker.undated = (some b).map StaticBroker.undated := hagain (some b)
  cases ev with
  | accept => exact (congrArg (fun b => Option.map StaticBroker.undated (some b)) (addClient_undated b)).trans (hsome _)
  | connect i req => exact (congrArg (Option.map StaticBroker.undated) (handleConnect_undated req i b)).trans (hagain _)
  | deliver t d => exact (congrArg (Option.map StaticBroker.undated) (deliver_undated t d b)).trans (hagain _)
  | drain i => exact congrArg some (drain_undated i b)
  | puback i id => exact (congrArg (fun b => Option.map StaticBroker.undated (some b)) (handlePubAck_undated i id b)).trans (hsome _)
  | pubrec i id reason =>
    exact (congrArg (fun b => Option.map StaticBroker.undated (some b)) (handlePublishRec_undated i id reason b)).trans (hsome _)
  | pubcomp i id => exact (congrArg (fun b => Option.map StaticBroker.undated (some b)) (handlePubComp_undated i id b)).trans (hsome _)
  | close i => exact (congrArg (fun b => Option.map StaticBroker.undated (some b)) (clientClose_undated i b)).trans (hsome _)
  | leave i expirySec will hasSubs =>
    exact (congrArg (Option.map StaticBroker.undated) (endConnection_undated expirySec will hasSubs i b)).trans (hagain _)
  | sweep => exact (congrArg (fun b => Option.map StaticBroker.undated (some b)) (sweep_undated b)).trans (hsome _)

/-- So of a whole run. -/
theorem run_undated (evs : List Event) (b : StaticBroker) :
    (run L evs b.undated).map StaticBroker.undated = (run L evs b).map StaticBroker.undated := by
  induction evs generalizing b with
  | nil => exact congrArg some (undated_undated_broker b)
  | cons ev rest ih =>
    have hstep := step_undated (L := L) b ev
    unfold run
    cases h : step L b ev with
    | none =>
      rw [h] at hstep
      cases h' : step L b.undated ev with
      | none => rfl
      | some b' =>
        rw [h'] at hstep
        cases hstep
    | some b₁ =>
      rw [h] at hstep
      cases h' : step L b.undated ev with
      | none =>
        rw [h'] at hstep
        cases hstep
      | some b₂ =>
        rw [h'] at hstep
        have heq : b₂.undated = b₁.undated := Option.some.inj hstep
        show (run L rest b₂).map StaticBroker.undated = (run L rest b₁).map StaticBroker.undated
        rw [← ih b₂, heq, ih]

end events

end WolfMqtt.Static
