import WolfMqtt.Lib.History
import WolfMqtt.Static.Clock
import WolfMqtt.Static.Reach

/-! Where the entries of the carriers come from.

Everything but the drain leaves an entry what it is (`Kept`), or makes it of a message that it
notes. `Flow` says so of one operation and composes; with it come the readings of the clock, for a
message is noted at the time the clock shows. A slot and an identifier name a message from one note
that it was taken to the next, for no two entries of a carrier share an identifier. -/
namespace WolfMqtt.Static
open Broker Row History

/-! ### Notes -/

def Sending.publish (τ : Sending) : Publish := entryPublish τ.level τ.props τ.entry

/-- A message is taken under this identifier. -/
def Mark.Queues (k packetId : Nat) : Mark → Prop
  | .queued slot _ id _ => slot = k ∧ id = packetId
  | .sent .. => False

/-- The message with this identifier is sent. -/
def Mark.Sends (k packetId : Nat) : Mark → Prop
  | .queued .. => False
  | .sent slot τ => slot = k ∧ τ.entry.packetId = packetId

/-! ### The clock -/

/-- Every reading of the clock is followed by readings that are no smaller. -/
def ForwardClock (env : Env) : Prop := (env.clock ++ [env.now]).Pairwise (· ≤ ·)

instance (env : Env) : Decidable (ForwardClock env) := inferInstanceAs (Decidable (List.Pairwise _ _))

/-- Some readings later. -/
structure After (env env' : Env) : Prop where
  now : env'.now = env.now
  clock : env'.clock <:+ env.clock

section clock
variable {env env₁ env' : Env} {n : Nat}

theorem After.refl : After env env := ⟨rfl, List.suffix_rfl⟩

theorem After.trans (h : After env env₁) (h' : After env₁ env') : After env env' :=
  ⟨h'.now.trans h.now, h'.clock.trans h.clock⟩

theorem After.reads (h : After env env') (hn : Reads env' n) : Reads env n :=
  hn.imp (fun hn => h.clock.subset hn) (fun hn => hn.trans h.now)

theorem After.forward (h : After env env') (hf : ForwardClock env) : ForwardClock env' := by
  refine hf.sublist ?_
  rw [h.now]
  exact h.clock.sublist.append_right _

theorem getTime_after (env : Env) : After env env.getTime.2 := by
  unfold Env.getTime
  split
  · exact .refl
  · next t rest hclock => exact ⟨rfl, hclock ▸ List.suffix_cons t rest⟩

/-- A reading is followed by no smaller one. -/
theorem getTime_le (hf : ForwardClock env) (hn : Reads env.getTime.2 n) : env.getTime.1 ≤ n := by
  unfold ForwardClock at hf
  unfold Env.getTime at hn ⊢
  cases hclock : env.clock with
  | nil =>
    simp only [hclock, Reads, List.not_mem_nil, false_or] at hn
    exact hn ▸ Nat.le_refl _
  | cons t rest =>
    simp only [hclock] at hf hn ⊢
    rw [List.cons_append, List.pairwise_cons] at hf
    refine hf.1 n ?_
    rcases hn with hn | hn
    · exact List.mem_append_left _ hn
    · exact List.mem_append_right _ (List.mem_singleton.mpr hn)

theorem onConn_after {α : Type} {m : ClientM α} (hm : Moves Writes m) (c : StaticClient) (env : Env) :
    After env (onConn m c env).2.2 := by
  have hw : Conn.quiet ⟨c.toBrokerClient, env⟩ = (m ⟨c.toBrokerClient, env⟩).2.quiet := hm ⟨c.toBrokerClient, env⟩
  have hnow : env.now = (m ⟨c.toBrokerClient, env⟩).2.env.now := congrArg (fun s : Conn => s.env.now) hw
  have hclock : env.clock = (m ⟨c.toBrokerClient, env⟩).2.env.clock := congrArg (fun s : Conn => s.env.clock) hw
  exact ⟨hnow.symm, hclock ▸ List.suffix_rfl⟩

end clock

/-! ### Entries -/

/-- The same message, sent as often: only how far its delivery has got has changed. -/
structure Kept (e e' : StaticOutPub) : Prop where
  same : e' = {e with state := e'.state, duplicate := e'.duplicate}
  repeats : (e.wasSent = true → e.state = .queued → e.duplicate = true) →
    e'.wasSent = true → e'.state = .queued → e'.duplicate = true

/-- Every entry of a carrier is one it had. -/
def Keeps (o o' : Carrier) : Prop := ∀ e' ∈ o'.outQ.live, ∃ e ∈ o.outQ.live, Kept e e'

section entries
variable {e e₁ e' : StaticOutPub} {o o₁ o' : Carrier} {i now id : Nat}

theorem Kept.refl : Kept e e := ⟨rfl, fun h => h⟩

theorem Kept.trans (h : Kept e e₁) (h' : Kept e₁ e') : Kept e e' := by
  refine ⟨?_, fun hr => h'.repeats (h.repeats hr)⟩
  rw [h'.same, h.same]

theorem Kept.packetId (h : Kept e e') : e'.packetId = e.packetId := (congrArg StaticOutPub.packetId h.same :)

theorem Kept.wasSent (h : Kept e e') : e'.wasSent = e.wasSent := (congrArg StaticOutPub.wasSent h.same :)

theorem Kept.enqTime (h : Kept e e') : e'.enqTime = e.enqTime := (congrArg StaticOutPub.enqTime h.same :)

theorem Keeps.refl : Keeps o o := fun e he => ⟨e, he, .refl⟩

theorem Keeps.trans (h : Keeps o o₁) (h' : Keeps o₁ o') : Keeps o o' := by
  intro e' he'
  obtain ⟨e₁, he₁, hkept'⟩ := h' e' he'
  obtain ⟨e, he, hkept⟩ := h e₁ he₁
  exact ⟨e, he, hkept.trans hkept'⟩

theorem keeps_of_outQ (h : o'.outQ = o.outQ) : Keeps o o' := by
  intro e he
  rw [h] at he
  exact ⟨e, he, .refl⟩

theorem keeps_of_subset (h : ∀ e ∈ o'.outQ.live, e ∈ o.outQ.live) : Keeps o o' := fun e he => ⟨e, h e he, .refl⟩

theorem removeAt_keeps : Keeps o (removeAt i o) := keeps_of_subset fun _ => Cells.mem_of_mem_removeAt

theorem removeExpiredQueued_keeps : Keeps o (removeExpiredQueued now o) :=
  keeps_of_subset fun _ => mem_of_mem_removeExpiredFrom

/-- One entry is changed in place. -/
theorem modify_keeps {f : StaticOutPub → StaticOutPub} (hf : ∀ e, o.outQ.live[i]? = some e → Kept e (f e))
    (h : o'.outQ = o.outQ.modify i f) : Keeps o o' := by
  intro e' he'
  rw [h, Cells.live_modify] at he'
  obtain ⟨j, hj⟩ := List.mem_iff_getElem?.mp he'
  rw [List.getElem?_modify] at hj
  obtain ⟨e, he, rfl⟩ := Option.map_eq_some_iff.mp hj
  refine ⟨e, List.mem_of_getElem? he, ?_⟩
  split
  · next hij => exact hf e (hij ▸ he)
  · exact .refl

theorem resetEntry_kept (e : StaticOutPub) : Kept e (resetEntry e) := by
  unfold resetEntry
  split
  · exact .refl
  · exact ⟨rfl, fun _ _ _ => rfl⟩
  · exact ⟨rfl, fun _ _ _ => rfl⟩

theorem resetDelivery_keeps : Keeps o (resetDelivery o) := by
  intro e' he'
  obtain ⟨e, he, rfl⟩ := List.mem_map.mp (Cells.mem_of_mem_map he')
  exact ⟨e, he, resetEntry_kept e⟩

theorem complete_keeps : Keeps o (complete i o) := removeAt_keeps

theorem completeSent_keeps {qos : QoS} : Keeps o (completeSent qos id o) := by
  unfold completeSent
  split
  · exact .refl
  · split
    · exact complete_keeps
    · exact .refl

theorem onPubComp_keeps : Keeps o (onPubComp id o) := by
  unfold onPubComp
  split
  · exact .refl
  · exact complete_keeps

theorem onPubRec_keeps : Keeps o (onPubRec id o).2 := by
  unfold onPubRec
  split
  · exact .refl
  · split
    · exact modify_keeps (fun e _ => ⟨rfl, fun _ _ (hqueued : OutPubState.pubrelSent = .queued) => nomatch hqueued⟩) rfl
    · exact .refl

theorem pubRelWritten_keeps : Keeps o (pubRelWritten id o) := by
  unfold pubRelWritten
  split
  · exact .refl
  · next i hfind =>
    obtain ⟨e, he, -, hstate⟩ := findPub_some hfind
    split
    · refine modify_keeps (fun e' he' => ⟨rfl, fun _ _ hqueued => ?_⟩) rfl
      rw [he] at he'
      cases he'
      have hnot : OutPubState.pubrelSent = .queued := hstate.symm.trans hqueued
      cases hnot
    · exact .refl

theorem closeLink_keeps {s : Link} : Keeps s.o (closeLink s).o := keeps_of_outQ rfl

theorem saveInboundQos2_keeps {c : StaticClient} : Keeps o (saveInboundQos2 c o).2 := by
  unfold saveInboundQos2
  split
  · exact keeps_of_outQ rfl
  · exact .refl

end entries

/-! ### One operation -/

/-- An entry stands in the carrier in slot `k`. -/
def Holds (b : StaticBroker) (k : Nat) (e : StaticOutPub) : Prop := ∃ o, b.orphans[k]? = some (some o) ∧ e ∈ o.outQ.live

/-- An operation that is not a drain, with what it notes. -/
structure FlowOf (L : StaticLimits) (ms : List Mark) (b b' : StaticBroker) : Prop where
  after : After b.env b'.env
  notes : b'.notes = b.notes ++ ms
  /-- An entry was there, and nothing else was taken under its identifier, or it is of the last
  message that was. -/
  back : ∀ k e', Holds b' k e' → (∃ e, Holds b k e ∧ Kept e e' ∧ ∀ μ ∈ ms, ¬μ.Queues k e.packetId) ∨
    ∃ m id t later props, Last (Mark.Queues k id) ms (.queued k m id t) later ∧ enqueueProps L m = .ok props ∧
      Kept (newEntry m props id t) e'
  unsent : ∀ μ ∈ ms, ∀ k id, ¬μ.Sends k id
  timely : ∀ k m id t, Mark.queued k m id t ∈ ms → ForwardClock b.env → ∀ n, Reads b'.env n → t ≤ n

/-- An operation that is not a drain. -/
def Flow (L : StaticLimits) (b b' : StaticBroker) : Prop := ∃ ms, FlowOf L ms b b'

section flow
variable {L : StaticLimits} {b b₁ b' : StaticBroker} {ms ms' : List Mark} {k i : Nat} {o o' : Carrier}

theorem FlowOf.trans (h : FlowOf L ms b b₁) (h' : FlowOf L ms' b₁ b') : FlowOf L (ms ++ ms') b b' := by
  refine ⟨h.after.trans h'.after, ?_, fun k e' he' => ?_, fun μ hμ => ?_, fun k m id t hμ hf n hn => ?_⟩
  · rw [h'.notes, h.notes, List.append_assoc]
  · rcases h'.back k e' he' with ⟨e₁, he₁, hkept', hnone'⟩ | ⟨m, id, t, later, props, hlast, hprops, hkept⟩
    · rcases h.back k e₁ he₁ with ⟨e, he, hkept, hnone⟩ | ⟨m, id, t, later, props, hlast, hprops, hkept⟩
      · refine .inl ⟨e, he, hkept.trans hkept', fun μ hμ => ?_⟩
        rw [hkept.packetId] at hnone'
        exact (List.mem_append.mp hμ).elim (hnone μ) (hnone' μ)
      · have hid : e₁.packetId = id := hkept.packetId
        rw [hid] at hnone'
        exact .inr ⟨m, id, t, later ++ ms', props, hlast.append hnone', hprops, hkept.trans hkept'⟩
    · exact .inr ⟨m, id, t, later, props, hlast.behind ms, hprops, hkept⟩
  · exact (List.mem_append.mp hμ).elim (h.unsent μ) (h'.unsent μ)
  · rcases List.mem_append.mp hμ with hμ | hμ
    · exact h.timely k m id t hμ hf n (h'.after.reads hn)
    · exact h'.timely k m id t hμ (h.after.forward hf) n hn

theorem Flow.trans (h : Flow L b b₁) (h' : Flow L b₁ b') : Flow L b b' := by
  obtain ⟨ms, hms⟩ := h
  obtain ⟨ms', hms'⟩ := h'
  exact ⟨ms ++ ms', hms.trans hms'⟩

/-- Nothing is taken, and every slot keeps what it has. -/
theorem Flow.quiet (hafter : After b.env b'.env) (hnotes : b'.notes = b.notes)
    (h : ∀ (k : Nat) (o' : Carrier), b'.orphans[k]? = some (some o') →
      o'.outQ.live = [] ∨ ∃ o, b.orphans[k]? = some (some o) ∧ Keeps o o') : Flow L b b' := by
  refine ⟨[], hafter, hnotes.trans (List.append_nil _).symm, fun k e' he' => ?_, nofun, nofun⟩
  obtain ⟨o', ho', he'⟩ := he'
  rcases h k o' ho' with hnil | ⟨o, ho, hkeeps⟩
  · rw [hnil] at he'
    cases he'
  · obtain ⟨e, he, hkept⟩ := hkeeps e' he'
    exact .inl ⟨e, ⟨o, ho, he⟩, hkept, nofun⟩

theorem Flow.of_orphans (hafter : After b.env b'.env) (h : b'.orphans = b.orphans) (hnotes : b'.notes = b.notes) :
    Flow L b b' := .quiet hafter hnotes fun _ o' ho' => .inr ⟨o', h ▸ ho', .refl⟩

theorem Flow.refl : Flow L b b := .of_orphans .refl rfl rfl

theorem setClient_flow (i : Nat) (x : Option StaticClient) : Flow L b (b.setClient i x) := .of_orphans .refl rfl rfl

/-- One slot is written. -/
theorem setOrphan_flow {x : Option Carrier}
    (h : ∀ o', x = some o' → o'.outQ.live = [] ∨ ∃ o, b.orphans[k]? = some (some o) ∧ Keeps o o') :
    Flow L b (b.setOrphan k x) := by
  refine .quiet .refl rfl fun j o' ho' => ?_
  have ho' : (b.orphans.set k x)[j]? = some (some o') := ho'
  rw [List.getElem?_set] at ho'
  split at ho'
  · next hkj =>
    split at ho'
    · exact hkj ▸ h o' (Option.some.inj ho')
    · cases ho'
  · exact .inr ⟨o', ho', .refl⟩

theorem modifyOrphan_flow {f : Carrier → Carrier} (hf : ∀ o, Keeps o (f o)) :
    Flow L b {b with orphans := b.orphans.modify k (Option.map f)} := by
  refine .quiet .refl rfl fun j o' ho' => ?_
  have ho' : (b.orphans.modify k (Option.map f))[j]? = some (some o') := ho'
  rw [List.getElem?_modify] at ho'
  obtain ⟨s, hs, heq⟩ := Option.map_eq_some_iff.mp ho'
  split at heq
  · obtain ⟨o, rfl, rfl⟩ := Option.map_eq_some_iff.mp heq
    exact .inr ⟨o, hs, hf o⟩
  · cases heq
    exact .inr ⟨o', hs, .refl⟩

theorem withOrphan_flow {clientId : Option Bytes} {f : Carrier → Carrier} (hf : ∀ o, Keeps o (f o)) :
    Flow L b (withOrphan clientId f b) := by
  unfold withOrphan
  split
  · exact .refl
  · exact modifyOrphan_flow hf

theorem env_withOrphan (clientId : Option Bytes) (f : Carrier → Carrier) : (withOrphan clientId f b).env = b.env := by
  unfold withOrphan
  split <;> rfl

theorem dropOrphan_flow (clientId : Option Bytes) : Flow L b (dropOrphan clientId b) := by
  unfold dropOrphan
  split
  · exact .refl
  · exact setOrphan_flow nofun

theorem sweep_flow : Flow L b (sweep b) := by
  refine .quiet (getTime_after b.env) rfl fun k o' ho' => ?_
  have ho' : (b.orphans.map (sweepSlot b.clients b.env.getTime.1))[k]? = some (some o') := ho'
  rw [List.getElem?_map] at ho'
  obtain ⟨s, hs, heq⟩ := Option.map_eq_some_iff.mp ho'
  unfold sweepSlot at heq
  split at heq
  · cases heq
  · next o =>
    dsimp only at heq
    split at heq
    · cases heq
    · cases heq
      exact .inr ⟨o, hs, removeExpiredQueued_keeps⟩

theorem takeOrphan_flow (c : StaticClient) : Flow L b (takeOrphan L c b).2 := by
  unfold takeOrphan
  split
  · exact .refl
  dsimp only
  split
  · exact sweep_flow.trans (modifyOrphan_flow fun o => resetDelivery_keeps.trans (keeps_of_outQ rfl))
  split
  · exact sweep_flow
  · refine sweep_flow.trans (setOrphan_flow fun o' ho' => .inl ?_)
    cases ho'
    exact List.take_zero

/-! ### Connections -/

theorem onClient_flow {α : Type} (default : α) {m : ClientM α} (hm : Moves Writes m) :
    Flow L b (onClient i default m b).2 := by
  unfold onClient
  split
  · exact .refl
  · next c _ => exact .of_orphans (onConn_after hm c b.env) rfl rfl

theorem clientClose_flow : Flow L b (clientClose i b) := by
  unfold clientClose
  split
  · exact .refl
  split
  · exact setClient_flow ..
  next c _ _ k hk =>
  obtain ⟨o, ho, -⟩ := findOrphan_some hk
  rw [orphan?_of_getElem? ho]
  dsimp only
  have hset : Flow L b ((b.setClient i (some (closeLink {c, o, env := b.env}).c)).setOrphan k (some (closeLink {c, o, env := b.env}).o)) :=
    (setClient_flow i _).trans (setOrphan_flow fun o' ho' => .inr ⟨o, ho, Option.some.inj ho' ▸ closeLink_keeps⟩)
  exact hset.trans (.of_orphans (getTime_after b.env) rfl rfl)

theorem quotaClose_flow : Flow L b (quotaClose L i b) :=
  (onClient_flow 0 (sendDisconnect_moves L.toLimits _)).trans clientClose_flow

theorem orphanClient_flow (hasSubs : Bool) : Flow L b (orphanClient L hasSubs i b) := by
  unfold orphanClient
  split
  · exact .refl
  next c _ =>
  split
  · dsimp only
    split
    · exact (takeOrphan_flow c).trans (withOrphan_flow fun o => saveInboundQos2_keeps)
    · exact takeOrphan_flow c
  · dsimp only
    split
    · exact .refl
    · have hkeeps (o : Carrier) : Keeps o {(saveInboundQos2 c (resetDelivery o)).2 with
          sessionExpirySec := c.sessionExpirySec, orphanSince := b.env.getTime.1} :=
        (resetDelivery_keeps.trans saveInboundQos2_keeps).trans (keeps_of_outQ rfl)
      exact (withOrphan_flow hkeeps).trans (.of_orphans ((env_withOrphan ..).symm ▸ getTime_after b.env) rfl rfl)

theorem leave_flow (hasSubs : Bool) : Flow L b (leave L hasSubs i b) := by
  unfold leave
  split
  · exact .refl
  · refine .trans ?_ (setClient_flow i none)
    split
    · unfold endClientSession
      split
      · exact .refl
      · exact dropOrphan_flow _
    · exact orphanClient_flow hasSubs

theorem addClient_flow : Flow L b (addClient L b) := by
  unfold addClient
  split
  · exact .refl
  · exact .of_orphans (getTime_after b.env) rfl rfl

/-! ### Acknowledgements -/

theorem handlePubAck_flow (packetId : Nat) : Flow L b (handlePubAck i packetId b) := by
  unfold handlePubAck
  split
  · exact .refl
  · exact (setClient_flow i _).trans (withOrphan_flow fun o => completeSent_keeps)

theorem handlePubComp_flow (packetId : Nat) : Flow L b (handlePubComp i packetId b) := by
  unfold handlePubComp
  split
  · exact .refl
  · exact (setClient_flow i _).trans (withOrphan_flow fun o => onPubComp_keeps)

theorem handlePublishRec_flow (packetId : Nat) (reason : UInt8) : Flow L b (handlePublishRec L i packetId reason b) := by
  unfold handlePublishRec
  split
  · exact .refl
  next c _ =>
  split
  · exact (setClient_flow i _).trans (withOrphan_flow fun o => completeSent_keeps)
  dsimp only
  have hrec : Flow L b (withOrphan c.clientId (fun o => (onPubRec packetId o).2) b) := withOrphan_flow fun o => onPubRec_keeps
  have henc := hrec.trans (onClient_flow (i := i) 0 (encodeInto_writes (encodePublishResp L.txBufSz .publishRel
    {packetId, protocolLevel := c.protocolLevel})))
  generalize onClient i 0 (encodeInto (encodePublishResp L.txBufSz .publishRel
    {packetId, protocolLevel := c.protocolLevel})) (withOrphan c.clientId (fun o => (onPubRec packetId o).2) b) = enc at henc ⊢
  split
  · exact henc
  have hwr := henc.trans (onClient_flow (i := i) 0 (writeResp_moves L.toLimits enc.1))
  split
  · exact hwr.trans (withOrphan_flow fun o => pubRelWritten_keeps)
  split
  · exact hwr.trans clientClose_flow
  · exact hwr

/-! ### Deliveries -/

/-- The identifier that a search finds is free. -/
theorem searchPacketId_free {live : List StaticOutPub} {packetId fuel next id next' : Nat}
    (h : searchPacketId live packetId fuel next = some ⟨some id, next'⟩) : ∀ e ∈ live, e.packetId ≠ id := by
  induction fuel generalizing next with
  | zero => cases h
  | succ fuel ih =>
    unfold searchPacketId at h
    generalize (if packetId = 0 then nextPacketId next else (packetId, next)) = candidate at h
    dsimp only at h
    split at h
    · split at h
      · cases h
      · exact ih h
    · next hfree =>
      cases h
      intro e he heq
      exact hfree (List.any_eq_true.mpr ⟨e, he, by simpa using heq⟩)

/-- A carrier that takes a message keeps what it had, and the message comes to it as an entry under
an identifier of its own. -/
theorem enqueue_takes {m : Message} {s : Desk} {r : Int × Desk} (hs : s.taken = none) (h : enqueue L m s = some r) :
    After s.env r.2.env ∧ ((r.2.taken = none ∧ Keeps s.o r.2.o) ∨ ∃ id props, r.2.taken = some (id, s.env.getTime.1) ∧
      enqueueProps L m = .ok props ∧ r.2.env = s.env.getTime.2 ∧ ∀ e ∈ r.2.o.outQ.live,
        e ∈ s.o.outQ.live ∧ e.packetId ≠ id ∨ e = newEntry m props id s.env.getTime.1) := by
  unfold enqueue at h
  split at h
  · cases h
    exact ⟨.refl, .inl ⟨hs, .refl⟩⟩
  next props hprops =>
  dsimp only at h
  split at h
  · cases h
    exact ⟨getTime_after _, .inl ⟨rfl, removeExpiredQueued_keeps⟩⟩
  split at h
  · cases h
  · cases h
    exact ⟨getTime_after _, .inl ⟨rfl, removeExpiredQueued_keeps⟩⟩
  next id next hsearch =>
  cases h
  refine ⟨getTime_after _, .inr ⟨id, props, rfl, hprops, rfl, fun e he => ?_⟩⟩
  rcases Cells.mem_of_mem_push he with he | rfl
  · exact .inl ⟨mem_of_mem_removeExpiredFrom he, searchPacketId_free hsearch e he⟩
  · exact .inr rfl

theorem enqueueAt_flow {m : Message} (h : enqueueAt L k m b = some b') : Flow L b b' := by
  unfold enqueueAt at h
  split at h
  · cases h
    exact .refl
  next o ho =>
  split at h
  · cases h
  next r hr =>
  cases h
  have hslot : b.orphans[k]? = some (some o) := Option.join_eq_some_iff.mp ho
  obtain ⟨hafter, ⟨hnone, hkeeps⟩ | ⟨id, props, hsome, hprops, henv, hlive⟩⟩ := enqueue_takes rfl hr
  · rw [hnone]
    have hset : Flow L b (b.setOrphan k (some r.2.o)) :=
      setOrphan_flow fun o' ho' => .inr ⟨o, hslot, Option.some.inj ho' ▸ hkeeps⟩
    exact hset.trans (.of_orphans hafter rfl (List.append_nil _))
  · rw [hsome]
    refine ⟨[.queued k m id b.env.getTime.1], hafter, rfl, fun j e' he' => ?_, fun μ hμ => ?_, fun j m' id' t hμ hf n hn => ?_⟩
    · obtain ⟨o', ho', he'⟩ := he'
      replace ho' : (b.orphans.set k (some r.2.o))[j]? = some (some o') := ho'
      rw [List.getElem?_set] at ho'
      split at ho'
      · next hkj =>
        cases hkj
        split at ho'
        · cases ho'
          rcases hlive e' he' with ⟨he, hne⟩ | rfl
          · refine .inl ⟨e', ⟨o, hslot, he⟩, .refl, fun μ hμ hq => ?_⟩
            rw [List.mem_singleton.mp hμ] at hq
            exact hne hq.2.symm
          · have hq : Mark.Queues k id (.queued k m id b.env.getTime.1) := ⟨rfl, rfl⟩
            exact .inr ⟨m, id, b.env.getTime.1, [], props, last_singleton hq, hprops, .refl⟩
        · cases ho'
      · next hkj =>
        refine .inl ⟨e', ⟨o', ho', he'⟩, .refl, fun μ hμ hq => ?_⟩
        rw [List.mem_singleton.mp hμ] at hq
        exact hkj hq.1
    · rw [List.mem_singleton.mp hμ]
      exact fun _ _ h => h
    · cases List.mem_singleton.mp hμ
      have hn : Reads r.2.env n := hn
      rw [henv] at hn
      exact getTime_le hf hn

theorem deliverDirect_flow (d : Delivery) : Flow L b (deliverDirect L d i b) := by
  have hwritten (d : Delivery) (packetId : Nat) (c : StaticClient) : After b.env (writeDelivery L d packetId c b.env).2.2 := by
    unfold writeDelivery
    dsimp only
    have henc := onConn_after (encodeInto_writes (encodePublish L.txBufSz (directPublish d packetId c.protocolLevel))) c b.env
    generalize onConn (encodeInto (encodePublish L.txBufSz (directPublish d packetId c.protocolLevel))) c b.env = enc at henc ⊢
    split
    · exact henc
    · have hwr := henc.trans (onConn_after (writeDirect_moves L.toLimits enc.1) enc.2.1 enc.2.2)
      generalize onConn (Static.writeDirect L.toLimits enc.1) enc.2.1 enc.2.2 = wr at hwr ⊢
      split
      · exact hwr
      · exact hwr.trans (onConn_after (zeroTxBuf_writes enc.1.toNat) wr.2.1 _)
  have hend {b' : StaticBroker} (h : Flow L b b') (stays : Bool) : Flow L b (if stays then b' else clientClose i b') := by
    split
    · exact h
    · exact h.trans clientClose_flow
  unfold deliverDirect
  split
  · exact .refl
  dsimp only
  split
  · refine hend ?_ _
    exact .of_orphans (hwritten ..) rfl rfl
  split
  · exact .refl
  · refine hend ?_ _
    exact .of_orphans (hwritten ..) rfl rfl

theorem deliver_flow {t : Target} {d : Delivery} (h : deliver L t d b = some b') : Flow L b b' := by
  unfold deliver at h
  cases t with
  | offline id =>
    dsimp only [deliverOffline] at h
    split at h
    · cases h
      exact .refl
    split at h
    · cases h
      exact .refl
    · exact enqueueAt_flow h
  | live i =>
    dsimp only [deliverLive] at h
    split at h
    · cases h
      exact .refl
    split at h
    · cases h
      exact .refl
    split at h
    · cases h
      exact deliverDirect_flow d
    next k _ =>
    have hexpired : Flow L b {b with
        orphans := b.orphans.modify k (Option.map (removeExpiredQueued b.env.getTime.1)), env := b.env.getTime.2} :=
      (modifyOrphan_flow fun o => removeExpiredQueued_keeps).trans (.of_orphans (getTime_after b.env) rfl rfl)
    split at h
    · cases h
      exact hexpired.trans quotaClose_flow
    · exact hexpired.trans (enqueueAt_flow h)

theorem deliverAll_flow {all : List (Target × Delivery)} (h : deliverAll L all b = some b') : Flow L b b' := by
  induction all generalizing b with
  | nil =>
    cases h
    exact .refl
  | cons p rest ih =>
    unfold deliverAll at h
    split at h
    · cases h
    · next b₁ h₁ => exact (deliver_flow h₁).trans (ih h)

/-! ### CONNECT -/

theorem takeover_flow {req : ConnectReq} {j : Nat} {new old : StaticClient} (h : takeover L req i j new old b = some b') :
    Flow L b b' := by
  unfold takeover at h
  dsimp only at h
  split at h
  · cases h
  next b₁ htold =>
  cases h
  have hfirst : Flow L b b₁ := by
    split at htold
    · exact deliverAll_flow htold
    · cases htold
      exact onClient_flow 0 (sendDisconnect_moves L.toLimits _)
  refine (hfirst.trans ?_).trans (setClient_flow j none)
  split
  · exact (setClient_flow i _).trans (withOrphan_flow fun o => resetDelivery_keeps)
  split
  · exact dropOrphan_flow _
  · exact .refl

theorem resumeCarrier_flow : Flow L b (resumeCarrier i k b) := by
  unfold resumeCarrier
  split
  · next c o _ ho =>
    refine (setOrphan_flow fun o' ho' => .inr ⟨o, Option.join_eq_some_iff.mp ho, ?_⟩).trans (setClient_flow i _)
    cases ho'
    exact keeps_of_outQ rfl
  · exact .refl

theorem openSession_flow {req : ConnectReq} {c : StaticClient} : Flow L b (openSession L req i c b) := by
  unfold openSession
  split
  · dsimp only
    split
    · exact (dropOrphan_flow _).trans (takeOrphan_flow c)
    · exact dropOrphan_flow _
  dsimp only
  have hfound : Flow L b (if (findOrphan b c.clientId).isNone ∧ c.sessionExpirySec ≠ 0 then (takeOrphan L c b).2 else b) := by
    split
    · exact takeOrphan_flow c
    · exact .refl
  generalize (if (findOrphan b c.clientId).isNone ∧ c.sessionExpirySec ≠ 0 then (takeOrphan L c b).2 else b) = b₁ at hfound ⊢
  split
  · exact hfound
  · exact hfound.trans resumeCarrier_flow

theorem answerConnect_flow {req : ConnectReq} : Flow L b (answerConnect L req i b) := by
  unfold answerConnect
  split
  · exact .refl
  next c _ =>
  dsimp only
  have hassign : Flow L b (if req.assignFails then b.setClient i (some {c with sessionExpirySec := 0}) else b) := by
    split
    · exact setClient_flow i _
    · exact .refl
  generalize (if req.assignFails then b.setClient i (some {c with sessionExpirySec := 0}) else b) = b₁ at hassign ⊢
  have henc := hassign.trans (onClient_flow (i := i) 0 (encodeInto_writes (encodeConnectAck L.txBufSz req.ack)))
  generalize onClient i 0 (encodeInto (encodeConnectAck L.txBufSz req.ack)) b₁ = enc at henc ⊢
  have hwr : Flow L b (if enc.1 ≤ 0 then enc else onClient i 0 (packetWrite L.toLimits enc.1.toNat) enc.2).2 := by
    split
    · exact henc
    · exact henc.trans (onClient_flow 0 (packetWrite_writes L.toLimits _))
  generalize (if enc.1 ≤ 0 then enc else onClient i 0 (packetWrite L.toLimits enc.1.toNat) enc.2) = wr at hwr ⊢
  split
  · exact hwr.trans (leave_flow _)
  split
  · exact hwr
  · exact hwr.trans (setClient_flow i _)

theorem acceptConnect_flow {req : ConnectReq} {c : StaticClient} (h : acceptConnect L req i c b = some b') : Flow L b b' := by
  unfold acceptConnect at h
  dsimp only at h
  split at h
  · cases h
  next b₁ htaken =>
  cases h
  have htakeover : Flow L b b₁ := by
    split at htaken
    · cases htaken
      exact .refl
    split at htaken
    · cases htaken
      exact .refl
    · exact takeover_flow htaken
  exact htakeover.trans (openSession_flow.trans answerConnect_flow)

theorem handleConnect_flow {req : ConnectReq} (h : handleConnect L req i b = some b') : Flow L b b' := by
  unfold handleConnect at h
  split at h
  · cases h
    exact .refl
  next c _ =>
  split at h
  · cases h
    exact .refl
  split at h
  · cases h
    exact sweep_flow.trans (setClient_flow i none)
  dsimp only at h
  have hread : Flow L b ((sweep b).setClient i (some (readConnect L req c))) := sweep_flow.trans (setClient_flow i _)
  generalize (sweep b).setClient i (some (readConnect L req c)) = b₁ at hread h
  have hreserved : Flow L b (if (readConnect L req c).sessionExpirySec ≠ 0 then takeOrphan L (readConnect L req c) b₁
      else (true, sweep b₁)).2 := by
    split
    · exact hread.trans (takeOrphan_flow _)
    · exact hread.trans sweep_flow
  generalize (if (readConnect L req c).sessionExpirySec ≠ 0 then takeOrphan L (readConnect L req c) b₁
    else (true, sweep b₁)) = reserved at hreserved h
  split at h
  · cases h
    exact hreserved.trans (setClient_flow i none)
  · exact (hreserved.trans (setClient_flow i _)).trans (acceptConnect_flow h)

theorem endConnection_flow {expirySec : Option Nat} {will : List (Target × Delivery)} {hasSubs : Bool}
    (h : endConnection L expirySec will hasSubs i b = some b') : Flow L b b' := by
  unfold endConnection at h
  split at h
  · cases h
    exact .refl
  split at h
  · cases h
  · next b₁ hwill =>
    cases h
    exact ((setClient_flow i _).trans (deliverAll_flow hwill)).trans (leave_flow hasSubs)

end flow

end WolfMqtt.Static
