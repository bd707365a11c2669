import WolfMqtt.Client.ThreadSteps
import WolfMqtt.Lib.Slots
import Mathlib.Data.List.Nodup

/-! Packet Identifiers of several senders.

A Packet Identifier is in use from the reservation to the acknowledgement that ends the exchange.
An acknowledgement is decoded twice, and each time the identifier is given back; a request that is
reserved in between, or reserved and not yet written when the acknowledgement is read, loses its
reservation to an exchange that was over before it began. -/
namespace WolfMqtt
namespace Threads

/-! ### Exchanges and what ends them -/

/-- A packet that gives a Packet Identifier back. -/
def Incoming.ends (level : Nat) (p : Incoming) : Bool := isFinalAck p.packetType || p.rejects level

/-- The terminal acknowledgement of a request: of its own type, or a rejecting PUBREC for a PUBLISH
of QoS 2. -/
def Incoming.Answers (level : Nat) (p : Incoming) (e : Sent) : Prop :=
  p.packetId = e.packetId ∧ (p.packetType = e.ackType ∨ (p.rejects level ∧ e.ackType = .publishComp))

/-- The request a call has reserved and not yet written or given up. -/
def Place.sender : Place → Option Request
  | .reserved r | .listed r | .refused r => some r
  | _ => none

/-- The request a call has reserved and is going to write. -/
def Place.writes : Place → Option Request
  | .reserved r | .listed r => some r
  | _ => none

/-- The places of a request that hold `lockSend`, and that of an acknowledgement. -/
def Place.sends : Place → Bool
  | .claimed _ | .reserved _ | .listed _ | .acking _ _ _ => true
  | _ => false

/-- The packet a call has read, while it may still give a Packet Identifier back. -/
def Place.holding : Place → Option Hold
  | .received h | .looked h | .located h _ | .rejecting h | .rejected h => some h
  | _ => none

/-- The object whose pending response a call has found and not yet marked done, and the place of the
packet it was found for. -/
def Place.found : Place → Option (Nat × Nat)
  | .located h f | .handled h f _ => f.pend.map (fun o => (o, h.index))
  | _ => none

namespace Sys

/-- The request has been acknowledged. -/
def Acked (s : Sys) (e : Sent) : Prop :=
  ∃ n p, e.since ≤ n ∧ s.reads[n]? = some p ∧ p.Answers s.protocolLevel e

/-- No new request was written under the Packet Identifier of one that had not been acknowledged; no
Packet Identifier is reserved twice; and no acknowledgement has ended an exchange that began after
it was read. -/
structure Exclusive (s : Sys) : Prop where
  unused : s.sent.Pairwise (fun e e' => e.packetId = e'.packetId → e'.packetId ≠ 0 → e'.duplicate = false →
    ∃ n p, e.since ≤ n ∧ n < e'.since ∧ s.reads[n]? = some p ∧ p.Answers s.protocolLevel e)
  distinct : Slots.Distinct MqttSendId.packetId s.sendInflight
  hit : ∀ x ∈ s.hits, ∃ m, x.since = some m ∧ m ≤ x.index

/-! ### The steps that keep identifiers apart -/

/-- `MqttClient_RespList_Add` would take the request of `k`. -/
def Unlisted (s : Sys) (k : Nat) (r : Request) : Prop :=
  ∀ x ∈ s.pendResps, x.object ≠ k ∧ (r.packetId ≠ 0 → x.packetId ≠ r.packetId)

/-- A reservation is made in good order: no thread is between reading and giving back the same Packet
Identifier; there is an entry for it; the object owns no other; and a retransmission repeats its own
exchange, which nobody waits for any more. -/
structure Reserves (s : Sys) (k : Nat) (r : Request) : Prop where
  apart : ∀ j h, (s.place j).holding = some h → h.packet.ends s.protocolLevel → h.packet.packetId ≠ r.packetId
  room : (SendIds.find s.sendInflight r.packetId).isSome ∨ (SendIds.find s.sendInflight 0).isSome
  own : ∀ t ∈ s.sendInflight, t.packetId ≠ 0 → t.owner = some (.object k) → t.packetId = r.packetId
  again : r.duplicate → ∀ t ∈ s.sendInflight, t.packetId = r.packetId → t.ackType = some r.ackType ∧ s.Unlisted k r

/-- What each step has to keep to. Besides the reservations: no final acknowledgement is read for a
Packet Identifier that is reserved for a packet not yet written; a rejecting PUBREC is read only for
an exchange that ends with a PUBCOMP; an object a reader has found is not put on the list again; a
wait starts on an object that an earlier one has left in order; and an object is cancelled while its
call waits, or when it owns no Packet Identifier. -/
def IdsApart (s : Sys) (ka : Nat × Act) : Prop :=
  match ka.2 with
  | .next _ =>
    (∀ r, s.place ka.1 = .claimed r → r.packetId ≠ 0 → s.Reserves ka.1 r) ∧
      (∀ r, s.place ka.1 = .reserved r → ∀ j o n, (s.place j).found = some (o, n) → o ≠ ka.1)
  | .read p =>
    (p.ends s.protocolLevel → ∀ j r, (s.place j).sender = some r → r.packetId ≠ 0 → p.packetId ≠ r.packetId) ∧
      (p.rejects s.protocolLevel → ∀ t ∈ s.sendInflight, t.packetId = p.packetId → t.ackType = some .publishComp)
  | .resume => (s.task ka.1).read = .ack ∧ (s.task ka.1).ack = .begin
  | .cancel => (∀ r, s.place ka.1 ≠ .waiting (some r)) →
      ∀ t ∈ s.sendInflight, t.packetId ≠ 0 → t.owner ≠ some (.object ka.1)
  | _ => True

/-! ### The invariant -/

/-- Every request under a Packet Identifier has been acknowledged. -/
def Spent (s : Sys) (packetId : Nat) : Prop := ∀ e ∈ s.sent, e.packetId = packetId → s.Acked e

structure Ids (s : Sys) : Prop extends Exclusive s where
  -- senders
  sends : ∀ k, (s.place k).sends → s.lockSend = some k
  encodable : ∀ k r, s.place k = .claimed r ∨ (s.place k).sender = some r → r.encodable
  entry : ∀ k r, (s.place k).writes = some r → r.packetId ≠ 0 →
    {packetId := r.packetId, owner := some (.object k), ackType := some r.ackType} ∈ s.sendInflight
  owned : ∀ k r, (s.place k).sender = some r → r.packetId ≠ 0 →
    ∀ t ∈ s.sendInflight, t.packetId ≠ 0 → t.owner = some (.object k) → t.packetId = r.packetId
  reserved : ∀ k r, s.place k = .reserved r → r.packetId ≠ 0 → s.Spent r.packetId ∨ (r.duplicate ∧ s.Unlisted k r)
  listed : ∀ k r, s.place k = .listed r → r.packetId ≠ 0 → s.Spent r.packetId ∨ r.duplicate
  refused : ∀ k r, s.place k = .refused r → r.packetId ≠ 0 →
    ∀ t ∈ s.sendInflight, t.packetId ≠ 0 → t.owner = some (.object k) → s.Spent t.packetId
  -- the table and what was written
  inTable : ∀ e ∈ s.sent, e.packetId ≠ 0 →
    s.Acked e ∨ ∃ t ∈ s.sendInflight, t.packetId = e.packetId ∧ t.ackType = some e.ackType
  begun : ∀ t ∈ s.sendInflight, t.packetId ≠ 0 →
    (s.since t.packetId).isSome ∨
      ∃ k r, (s.place k).sender = some r ∧ r.packetId = t.packetId ∧ t.owner = some (.object k)
  sinceLe : ∀ i m, s.since i = some m → m ≤ s.reads.length
  sentLe : ∀ e ∈ s.sent, e.since ≤ s.reads.length
  -- the pending responses
  objects : (s.pendResps.map PendResp.object).Nodup
  kinds : ∀ x ∈ s.pendResps, x.packetId ≠ 0 → isFinalAck x.packetType
  pending : ∀ x ∈ s.pendResps, (∃ m, x.since = some m ∧ m ≤ s.reads.length) ∨
    (x.since = none ∧ ∃ r, s.place x.object = .listed r ∧ r.packetId = x.packetId)
  fresh : ∀ k r, s.place k = .listed r → ∀ x ∈ s.pendResps, x.object = k → x.since = none ∧ x.packetId = r.packetId
  -- readers
  held : ∀ j h, (s.place j).holding = some h →
    h.stale = false ∧ h.packet.decodable s.protocolLevel ∧ s.reads[h.index]? = some h.packet
  apart : ∀ j h, (s.place j).holding = some h → h.packet.ends s.protocolLevel →
    ∀ k r, (s.place k).sender = some r → r.packetId ≠ 0 → h.packet.packetId ≠ r.packetId
  heldSent : ∀ j h, (s.place j).holding = some h → h.packet.ends s.protocolLevel →
    ∀ e ∈ s.sent, e.packetId ≠ 0 → e.packetId = h.packet.packetId → e.since ≤ h.index
  heldEntry : ∀ j h, (s.place j).holding = some h → h.packet.ends s.protocolLevel →
    ∀ t ∈ s.sendInflight, t.packetId ≠ 0 → t.packetId = h.packet.packetId →
      ∃ m, s.since t.packetId = some m ∧ m ≤ h.index
  heldPend : ∀ j h, (s.place j).holding = some h → h.packet.ends s.protocolLevel →
    ∀ x ∈ s.pendResps, x.packetId ≠ 0 → x.packetId = h.packet.packetId → ∃ m, x.since = some m ∧ m ≤ h.index
  heldReject : ∀ j h, (s.place j).holding = some h → h.packet.rejects s.protocolLevel →
    ∀ t ∈ s.sendInflight, t.packetId = h.packet.packetId → t.ackType = some .publishComp
  found : ∀ j o n, (s.place j).found = some (o, n) →
    ∀ x ∈ s.pendResps, x.object = o → x.packetId ≠ 0 → ∃ m, x.since = some m ∧ m ≤ n

variable {s s' : Sys} {k : Nat}

theorem sender_of_writes {p : Place} {r : Request} (h : p.writes = some r) : p.sender = some r := by
  cases p <;> first | exact h | cases h

theorem sends_of_writes {p : Place} {r : Request} (h : p.writes = some r) : p.sends := by
  cases p <;> first | rfl | cases h

/-! ### Steps that leave the table alone -/

/-- Nothing that is known of Packet Identifiers has changed, and the list of pending responses has
lost entries or marked them at most. -/
structure Calm (s s' : Sys) : Prop where
  level : s'.protocolLevel = s.protocolLevel
  table : s'.sendInflight = s.sendInflight
  sent : s'.sent = s.sent
  reads : s'.reads = s.reads
  since : s'.since = s.since
  objects : (s'.pendResps.map PendResp.object).Nodup
  pend : ∀ x' ∈ s'.pendResps, ∃ x ∈ s.pendResps,
    x'.object = x.object ∧ x'.packetId = x.packetId ∧ x'.packetType = x.packetType ∧ x'.since = x.since

theorem Calm.acked (hc : Calm s s') (e : Sent) : s'.Acked e ↔ s.Acked e := by
  simp only [Acked, hc.reads, hc.level]

theorem Calm.spent (hc : Calm s s') (i : Nat) : s'.Spent i ↔ s.Spent i := by
  simp only [Spent, hc.sent, hc.acked]

theorem Calm.unlisted (hc : Calm s s') {k : Nat} {r : Request} (h : s.Unlisted k r) : s'.Unlisted k r := by
  intro x' hx'
  obtain ⟨x, hx, hobj, hid, -, -⟩ := hc.pend x' hx'
  rw [hobj, hid]
  exact h x hx

/-- The call on `k` goes on, no further in reserving and with no packet it did not have. -/
theorem Ids.calm (h : Ids s) (hc : Calm s s') (hsends : ∀ j, (s'.place j).sends → s'.lockSend = some j)
    (hclaimed : ∀ j r, s'.place j = .claimed r → s.place j = .claimed r ∨ r.encodable)
    (hsender : ∀ j r, (s'.place j).sender = some r ↔ (s.place j).sender = some r)
    (hplaces : ∀ j r, (s'.place j).sender = some r → s'.place j = s.place j)
    (hheld : ∀ j g, (s'.place j).holding = some g → (s.place j).holding = some g)
    (hfound : ∀ j o n, (s'.place j).found = some (o, n) →
      ∀ x ∈ s.pendResps, x.object = o → x.packetId ≠ 0 → ∃ m, x.since = some m ∧ m ≤ n)
    (hhits : ∀ x ∈ s'.hits, x ∈ s.hits ∨ ∃ m, x.since = some m ∧ m ≤ x.index) : Ids s' := by
  have hsame : ∀ {j p}, s'.place j = p → p.sender.isSome → s.place j = p := by
    intro j p hp hs
    obtain ⟨r, hr⟩ := Option.isSome_iff_exists.mp hs
    rw [← hplaces j r (hp ▸ hr)]
    exact hp
  refine ⟨⟨?_, ?_, ?_⟩, hsends, ?_, ?_, ?_, ?_, ?_, ?_, ?_, ?_, ?_, ?_, hc.objects, ?_, ?_, ?_, ?_, ?_, ?_, ?_, ?_, ?_, ?_⟩
  · rw [hc.sent, hc.reads, hc.level]
    exact h.unused
  · rw [hc.table]
    exact h.distinct
  · intro x hx
    rcases hhits x hx with hold | hnew
    · exact h.hit x hold
    · exact hnew
  · rintro j r (hp | hp)
    · rcases hclaimed j r hp with hold | hnew
      · exact h.encodable j r (.inl hold)
      · exact hnew
    · exact h.encodable j r (.inr ((hsender j r).mp hp))
  · intro j r hr
    rw [hc.table]
    refine h.entry j r ?_
    rw [← hplaces j r (sender_of_writes hr)]
    exact hr
  · intro j r hr
    rw [hc.table]
    exact h.owned j r ((hsender j r).mp hr)
  · intro j r hp hid
    rw [hc.spent]
    exact (h.reserved j r (hsame hp rfl) hid).imp_right (fun hu => ⟨hu.1, hc.unlisted hu.2⟩)
  · intro j r hp hid
    rw [hc.spent]
    exact h.listed j r (hsame hp rfl) hid
  · intro j r hp hid t ht
    rw [hc.spent]
    rw [hc.table] at ht
    exact h.refused j r (hsame hp rfl) hid t ht
  · intro e he hid
    rw [hc.sent] at he
    rw [hc.acked, hc.table]
    exact h.inTable e he hid
  · intro t ht hid
    rw [hc.table] at ht
    rw [hc.since]
    simp only [hsender]
    exact h.begun t ht hid
  · rw [hc.since, hc.reads]
    exact h.sinceLe
  · rw [hc.sent, hc.reads]
    exact h.sentLe
  · intro x' hx'
    obtain ⟨x, hx, -, hid, htype, -⟩ := hc.pend x' hx'
    rw [hid, htype]
    exact h.kinds x hx
  · intro x' hx'
    obtain ⟨x, hx, hobj, hid, -, hsince⟩ := hc.pend x' hx'
    rw [hsince, hobj, hid, hc.reads]
    refine (h.pending x hx).imp_right ?_
    rintro ⟨hnone, r, hr, hrid⟩
    refine ⟨hnone, r, ?_, hrid⟩
    rw [hplaces _ r ((hsender _ r).mpr (by rw [hr]; rfl)), hr]
  · intro j r hp x' hx'
    obtain ⟨x, hx, hobj, hid, -, hsince⟩ := hc.pend x' hx'
    rw [hobj, hid, hsince]
    exact h.fresh j r (hsame hp rfl) x hx
  · intro j g hg
    rw [hc.reads, hc.level]
    exact h.held j g (hheld j g hg)
  · intro j g hg hends k r hr
    rw [hc.level] at hends
    exact h.apart j g (hheld j g hg) hends k r ((hsender k r).mp hr)
  · intro j g hg hends
    rw [hc.level] at hends
    rw [hc.sent]
    exact h.heldSent j g (hheld j g hg) hends
  · intro j g hg hends
    rw [hc.level] at hends
    rw [hc.table, hc.since]
    exact h.heldEntry j g (hheld j g hg) hends
  · intro j g hg hends x' hx'
    rw [hc.level] at hends
    obtain ⟨x, hx, -, hid, -, hsince⟩ := hc.pend x' hx'
    rw [hid, hsince]
    exact h.heldPend j g (hheld j g hg) hends x hx
  · intro j g hg hrej
    rw [hc.level] at hrej
    rw [hc.table]
    exact h.heldReject j g (hheld j g hg) hrej
  · intro j o n hf x' hx'
    obtain ⟨x, hx, hobj, hid, -, hsince⟩ := hc.pend x' hx'
    rw [hobj, hid, hsince]
    exact hfound j o n hf x hx

/-! ### The table -/

theorem release_cases (ids : List MqttSendId) (packetId : Nat) (ackType : Option PacketType) :
    SendIds.release ids packetId ackType = (false, ids) ∨
      ∃ i t, ids[i]? = some t ∧ t.packetId = packetId ∧ packetId ≠ 0 ∧ SendIds.ends t ackType ∧
        SendIds.release ids packetId ackType = (true, ids.set i {}) := by
  unfold SendIds.release
  split
  case isTrue => exact .inl rfl
  case isFalse hid =>
    split
    case h_1 i hi =>
      obtain ⟨t, ht, hkey⟩ := (Slots.find_some hi : ∃ t, _ ∧ MqttSendId.packetId t = _)
      rw [List.getD_eq_getElem?_getD, ht, Option.getD_some]
      split
      case isTrue hends => exact .inr ⟨i, t, ht, hkey, hid, hends, rfl⟩
      case isFalse => exact .inl rfl
    case h_2 => exact .inl rfl

/-- What becomes of a reservation: it is refused for an identifier in use, taken over by a
retransmission, made in a free entry, or not recorded where there is none. -/
theorem reserve_cases (ids : List MqttSendId) {packetId : Nat} (hid : packetId ≠ 0) (owner : Owner) (again : Bool)
    (ackType : PacketType) :
    (SendIds.reserve ids packetId owner again ackType = (Code.packetId, ids)) ∨
      (again ∧ ∃ i t, ids[i]? = some t ∧ t.packetId = packetId ∧
        SendIds.reserve ids packetId owner again ackType =
          (Code.success, ids.set i {t with owner := some owner, ackType := some ackType})) ∨
      ((∀ t ∈ ids, t.packetId ≠ packetId) ∧ SendIds.find ids packetId = none ∧
        ((∃ i t, ids[i]? = some t ∧ t.packetId = 0 ∧
          SendIds.reserve ids packetId owner again ackType =
            (Code.success, ids.set i {packetId, owner := some owner, ackType := some ackType})) ∨
          (SendIds.find ids 0 = none ∧ SendIds.reserve ids packetId owner again ackType = (Code.success, ids)))) := by
  unfold SendIds.reserve
  rw [if_neg hid]
  split
  case h_1 i hi =>
    obtain ⟨t, ht, hkey⟩ := (Slots.find_some hi : ∃ t, _ ∧ MqttSendId.packetId t = _)
    cases again with
    | false => exact .inl rfl
    | true =>
      refine .inr (.inl ⟨rfl, i, t, ht, hkey, ?_⟩)
      rw [if_neg (by decide), Slots.modify_eq_set ht]
  case h_2 hnone =>
    refine .inr (.inr ⟨(Slots.find_none hnone : ∀ t ∈ ids, MqttSendId.packetId t ≠ _), hnone, ?_⟩)
    split
    case h_1 i hi =>
      obtain ⟨t, ht, hkey⟩ := (Slots.find_some hi : ∃ t, _ ∧ MqttSendId.packetId t = _)
      exact .inl ⟨i, t, ht, hkey, rfl⟩
    case h_2 hfull => exact .inr ⟨hfull, rfl⟩

/-! ### Giving back -/

theorem rejects_id {p : Incoming} {level : Nat} (hdec : p.decodable level) (hrej : p.rejects level) : p.packetId ≠ 0 := by
  unfold Incoming.rejects at hrej
  simp only [Bool.and_eq_true, decide_eq_true_eq] at hrej
  unfold Incoming.decodable at hdec
  rw [hrej.1.1] at hdec
  simp only [Bool.and_eq_true, decide_eq_true_eq] at hdec
  exact hdec.1

/-- Entries leave the table, or are no longer an object's; those of the senders stay. -/
theorem Ids.retable (h : Ids s) (ids : List MqttSendId) (hits : List Hit)
    (hdistinct : Slots.Distinct MqttSendId.packetId ids)
    (hmem : ∀ t ∈ ids, t.packetId ≠ 0 → ∃ t₀ ∈ s.sendInflight, t₀.packetId = t.packetId ∧ t₀.ackType = t.ackType ∧
      (∀ o, t.owner = some o → t₀.owner = some o) ∧
        ∀ k r, (s.place k).sender = some r → t₀.owner = some (.object k) → t.owner = some (.object k))
    (hentry : ∀ k r, (s.place k).writes = some r → r.packetId ≠ 0 →
      {packetId := r.packetId, owner := some (.object k), ackType := some r.ackType} ∈ ids)
    (hopen : ∀ e ∈ s.sent, e.packetId ≠ 0 → s.Acked e ∨ ∃ t ∈ ids, t.packetId = e.packetId ∧ t.ackType = some e.ackType)
    (hhits : ∀ x ∈ hits, ∃ m, x.since = some m ∧ m ≤ x.index) :
    Ids {s with sendInflight := ids, hits} where
  unused := h.unused
  distinct := hdistinct
  hit := hhits
  sends := h.sends
  encodable := h.encodable
  entry := hentry
  owned k r hr hid t ht hused howner := by
    obtain ⟨t₀, ht₀, hkey, -, hown, -⟩ := hmem t ht hused
    rw [← hkey]
    exact h.owned k r hr hid t₀ ht₀ (hkey ▸ hused) (hown _ howner)
  reserved := h.reserved
  listed := h.listed
  refused k r hp hid t ht hused howner := by
    obtain ⟨t₀, ht₀, hkey, -, hown, -⟩ := hmem t ht hused
    rw [← hkey]
    exact h.refused k r hp hid t₀ ht₀ (hkey ▸ hused) (hown _ howner)
  inTable := hopen
  begun t ht hused := by
    obtain ⟨t₀, ht₀, hkey, -, -, hown⟩ := hmem t ht hused
    rw [← hkey]
    refine (h.begun t₀ ht₀ (hkey ▸ hused)).imp_right ?_
    rintro ⟨k, r, hr, hid, howner⟩
    exact ⟨k, r, hr, hid, hown k r hr howner⟩
  sinceLe := h.sinceLe
  sentLe := h.sentLe
  objects := h.objects
  kinds := h.kinds
  pending := h.pending
  fresh := h.fresh
  held := h.held
  apart := h.apart
  heldSent := h.heldSent
  heldEntry j g hg hends t ht hused hid := by
    obtain ⟨t₀, ht₀, hkey, -, -⟩ := hmem t ht hused
    rw [← hkey] at hid ⊢
    exact h.heldEntry j g hg hends t₀ ht₀ (hkey ▸ hused) hid
  heldPend := h.heldPend
  heldReject j g hg hrej t ht hid := by
    obtain ⟨-, hdec, -⟩ := h.held j g hg
    obtain ⟨t₀, ht₀, hkey, htype, -⟩ := hmem t ht (by rw [hid]; exact rejects_id hdec hrej)
    rw [← htype]
    exact h.heldReject j g hg hrej t₀ ht₀ (hkey.trans hid)
  found := h.found

/-- An acknowledgement gives a Packet Identifier back only if it ends the exchange. -/
theorem Ids.release {g : Hold} {ackType : Option PacketType} (h : Ids s) (hheld : (s.place k).holding = some g)
    (hends : g.packet.ends s.protocolLevel)
    (htype : ackType = some g.packet.packetType ∨ (ackType = none ∧ g.packet.rejects s.protocolLevel)) :
    Ids (s.release g ackType) := by
  rcases release_cases s.sendInflight g.packet.packetId ackType with heq | ⟨i, t, ht, hkey, hid, hmatch, heq⟩
  · have hs : s.release g ackType = s := by
      unfold Sys.release
      rw [heq]
      rfl
    rw [hs]
    exact h
  have hs : s.release g ackType =
      {s with
        sendInflight := s.sendInflight.set i {}
        hits := s.hits ++ [Hit.mk (s.since g.packet.packetId) g.index]} := by
    unfold Sys.release
    rw [heq]
    rfl
  rw [hs]
  have htmem : t ∈ s.sendInflight := List.mem_of_getElem? ht
  refine h.retable _ _ (h.distinct.set_free rfl) ?_ ?_ ?_ ?_
  · intro x hx hused
    rcases List.mem_or_eq_of_mem_set hx with hold | hfree
    · exact ⟨x, hold, rfl, rfl, fun _ ho => ho, fun _ _ _ ho => ho⟩
    · rw [hfree] at hused
      exact absurd rfl hused
  · intro j r hr hrid
    refine Slots.mem_set_of_ne (h.entry j r hr hrid) ht ?_ _
    rintro rfl
    exact h.apart k g hheld hends j r (sender_of_writes hr) hrid hkey.symm
  · intro e he hused
    rcases h.inTable e he hused with hold | ⟨x, hx, hxid, hxtype⟩
    · exact .inl hold
    · by_cases hxt : x = t
      · subst hxt
        -- the exchange ends here: its acknowledgement was read after it began
        have hsame : e.packetId = g.packet.packetId := hxid.symm.trans hkey
        have hle := h.heldSent k g hheld hends e he hused hsame
        obtain ⟨-, -, hread⟩ := h.held k g hheld
        refine .inl ⟨g.index, g.packet, hle, hread, hsame.symm, ?_⟩
        rcases htype with rfl | ⟨rfl, hrej⟩
        · left
          simpa [SendIds.ends, hxtype, eq_comm] using hmatch
        · have hcomp := h.heldReject k g hheld hrej x hx hkey
          rw [hxtype] at hcomp
          exact .inr ⟨hrej, Option.some.inj hcomp⟩
      · exact .inr ⟨x, Slots.mem_set_of_ne hx ht hxt _, hxid, hxtype⟩
  · intro x hx
    rcases List.mem_append.mp hx with hold | hnew
    · exact h.hit x hold
    · rw [List.mem_singleton.mp hnew, ← hkey]
      exact h.heldEntry k g hheld hends t htmem (hkey ▸ hid) hkey

theorem Ids.decode {g : Hold} (h : Ids s) (hheld : (s.place k).holding = some g) : Ids (s.decode g) := by
  unfold Sys.decode
  split
  case isTrue hfinal =>
    refine h.release hheld ?_ (.inl rfl)
    unfold Incoming.ends
    rw [hfinal, Bool.true_or]
  case isFalse => exact h

/-- An object that waits for its answer gives up its Packet Identifiers without giving them back. -/
theorem Ids.disown {w : Wait} (h : Ids s) (hplace : s.place k = .waiting w) :
    Ids {s with sendInflight := SendIds.disown s.sendInflight (.object k)} := by
  obtain ⟨f, hf⟩ : ∃ f : MqttSendId → MqttSendId,
      f = fun t => if t.packetId ≠ 0 ∧ t.owner = some (.object k) then {t with owner := none} else t := ⟨_, rfl⟩
  have hkeep : ∀ t, (f t).packetId = t.packetId ∧ (f t).ackType = t.ackType ∧ (∀ o, (f t).owner = some o → t.owner = some o) ∧
      (t.owner ≠ some (.object k) → f t = t) := by
    intro t
    rw [hf]
    dsimp only
    split
    case isTrue ht => exact ⟨rfl, rfl, fun o ho => (by cases ho), fun hne => absurd ht.2 hne⟩
    case isFalse => exact ⟨rfl, rfl, fun _ ho => ho, fun _ => rfl⟩
  have hids : SendIds.disown s.sendInflight (.object k) = s.sendInflight.map f := by rw [hf]; rfl
  rw [hids]
  refine h.retable _ s.hits (h.distinct.map fun t => .inl (hkeep t).1) ?_ ?_ ?_ h.hit
  · intro x hx hused
    obtain ⟨t, ht, rfl⟩ := List.mem_map.mp hx
    refine ⟨t, ht, (hkeep t).1.symm, (hkeep t).2.1.symm, (hkeep t).2.2.1, fun j r hr howner => ?_⟩
    have hjk : j ≠ k := by
      rintro rfl
      rw [hplace] at hr
      cases hr
    rw [(hkeep t).2.2.2 (by rw [howner]; exact fun heq => hjk (Owner.object.inj (Option.some.inj heq)))]
    exact howner
  · intro j r hr hid
    have hjk : j ≠ k := by
      rintro rfl
      rw [hplace] at hr
      cases hr
    refine List.mem_map.mpr ⟨_, h.entry j r hr hid, (hkeep _).2.2.2 ?_⟩
    rintro heq
    exact hjk (Owner.object.inj (Option.some.inj heq))
  · intro e he hused
    rcases h.inTable e he hused with hold | ⟨t, ht, hid, htype⟩
    · exact .inl hold
    · exact .inr ⟨f t, List.mem_map_of_mem ht, (hkeep t).1.trans hid, (hkeep t).2.1.trans htype⟩

/-! ### Where a call gets to -/

theorem sends_unlock (h : Ids s) (hother : ∀ j, j ≠ k → s'.place j = s.place j) (hlock : s'.lockSend = (s.unlockSend k).lockSend)
    (hk : (s'.place k).sends = false) : ∀ j, (s'.place j).sends → s'.lockSend = some j := by
  intro j hj
  by_cases hjk : j = k
  · rw [hjk, hk] at hj
    cases hj
  · have hheld := h.sends j (hother j hjk ▸ hj)
    rw [hlock, unlockSend, if_neg (by rw [hheld]; exact fun heq => hjk (Option.some.inj heq))]
    exact hheld

/-- Only the acting thread has moved: what is seen at another place, or is not what the acting thread shows, was there before. -/
theorem place_elsewhere (hother : ∀ j, j ≠ k → s'.place j = s.place j) {p₀ p : Place} {j : Nat} (hself : s'.place k = p₀)
    (hp : s'.place j = p) (hne : p ≠ p₀) : j ≠ k ∧ s.place j = p := by
  have hj : j ≠ k := by
    rintro rfl
    exact hne (hp.symm.trans hself)
  exact ⟨hj, hother j hj ▸ hp⟩

theorem view_elsewhere {α : Type} {f : Place → Option α} (hother : ∀ j, j ≠ k → s'.place j = s.place j) {j : Nat} {q : α}
    (hself : f (s'.place k) = none) (hq : f (s'.place j) = some q) : j ≠ k ∧ f (s.place j) = some q := by
  have hj : j ≠ k := by
    rintro rfl
    cases hself.symm.trans hq
  exact ⟨hj, hother j hj ▸ hq⟩

theorem sends_keep (h : Ids s) (hother : ∀ j, j ≠ k → s'.place j = s.place j) (hlock : s'.lockSend = s.lockSend)
    (hk : (s'.place k).sends → (s.place k).sends) : ∀ j, (s'.place j).sends → s'.lockSend = some j := by
  intro j hj
  rw [hlock]
  by_cases hjk : j = k
  · subst hjk
    exact h.sends j (hk hj)
  · exact h.sends j (hother j hjk ▸ hj)

/-- Only one thread is at a place that holds `lockSend`. -/
theorem Ids.only_sender (h : Ids s) {j : Nat} (hk : (s.place k).sends) (hj : (s.place j).sends) : j = k := by
  have hheld := h.sends j hj
  rw [h.sends k hk] at hheld
  exact (Option.some.inj hheld).symm

theorem Calm.of_eq (h : Ids s) (hlevel : s'.protocolLevel = s.protocolLevel) (htable : s'.sendInflight = s.sendInflight)
    (hsent : s'.sent = s.sent) (hreads : s'.reads = s.reads) (hsince : s'.since = s.since)
    (hpend : s'.pendResps = s.pendResps) : Calm s s' where
  level := hlevel
  table := htable
  sent := hsent
  reads := hreads
  since := hsince
  objects := by rw [hpend]; exact h.objects
  pend x hx := ⟨x, hpend ▸ hx, rfl, rfl, rfl, rfl⟩

/-- The call on `k` gets to a place where it neither sends nor reads on: nothing is asked of it. -/
theorem Ids.rest (h : Ids s) (hc : Calm s s') (hother : ∀ j, j ≠ k → s'.place j = s.place j)
    (hsends : ∀ j, (s'.place j).sends → s'.lockSend = some j) (hwas : (s.place k).sender = none)
    (hsender : (s'.place k).sender = none) (hholding : (s'.place k).holding = none ∨ (s'.place k).holding = (s.place k).holding)
    (hfound : (s'.place k).found = none ∨ (s'.place k).found = (s.place k).found)
    (hclaimed : ∀ r, s'.place k = .claimed r → r.encodable)
    (hhits : ∀ x ∈ s'.hits, x ∈ s.hits ∨ ∃ m, x.since = some m ∧ m ≤ x.index) : Ids s' := by
  refine h.calm hc hsends ?_ ?_ ?_ ?_ ?_ hhits
  · intro j r hr
    by_cases hj : j = k
    · subst hj
      exact .inr (hclaimed r hr)
    · exact .inl (hother j hj ▸ hr)
  · intro j r
    by_cases hj : j = k
    · rw [hj, hsender, hwas]
    · rw [hother j hj]
  · intro j r hr
    by_cases hj : j = k
    · rw [hj, hsender] at hr
      cases hr
    · exact hother j hj
  · intro j g hg
    by_cases hj : j = k
    · subst hj
      rcases hholding with hnone | heq
      · rw [hnone] at hg
        cases hg
      · rwa [← heq]
    · rwa [← hother j hj]
  · intro j o n hf
    by_cases hj : j = k
    · subst hj
      rcases hfound with hnone | heq
      · rw [hnone] at hf
        cases hf
      · exact h.found j o n (heq ▸ hf)
    · exact h.found j o n (hother j hj ▸ hf)

/-! ### Sending -/

/-- A request has its reservation: the entry under its Packet Identifier is its own, and the others
are as they were. -/
structure Claims (s s' : Sys) (k : Nat) (r : Request) : Prop where
  level : s'.protocolLevel = s.protocolLevel
  sent : s'.sent = s.sent
  reads : s'.reads = s.reads
  pend : s'.pendResps = s.pendResps
  hits : s'.hits = s.hits
  lock : s'.lockSend = s.lockSend
  place : s'.place k = .reserved r
  others : ∀ j, j ≠ k → s'.place j = s.place j
  distinct : Slots.Distinct MqttSendId.packetId s'.sendInflight
  old : ∀ t ∈ s'.sendInflight, t.packetId ≠ 0 → t.packetId ≠ r.packetId → t ∈ s.sendInflight
  kept : ∀ t ∈ s.sendInflight, t.packetId ≠ 0 → t.packetId ≠ r.packetId → t ∈ s'.sendInflight
  entry : r.packetId ≠ 0 →
    {packetId := r.packetId, owner := some (.object k), ackType := some r.ackType} ∈ s'.sendInflight
  sinceSame : ∀ i, i ≠ r.packetId → s'.since i = s.since i
  sinceLe : ∀ i m, s'.since i = some m → s.since i = some m
  -- what was written under the identifier before
  settled : r.packetId ≠ 0 → s.Spent r.packetId ∨ (r.duplicate ∧ s.Unlisted k r)
  same : r.packetId ≠ 0 → ∀ e ∈ s.sent, e.packetId = r.packetId → s.Acked e ∨ e.ackType = r.ackType

theorem Ids.claims {r : Request} (h : Ids s) (hc : Claims s s' k r) (hplace : s.place k = .claimed r)
    (hgood : r.packetId ≠ 0 → s.Reserves k r) : Ids s' := by
  have hacked : ∀ e, s'.Acked e ↔ s.Acked e := fun e => by simp only [Acked, hc.reads, hc.level]
  have hspent : ∀ i, s'.Spent i ↔ s.Spent i := fun i => by simp only [Spent, hc.sent, hacked]
  have hunlisted : ∀ j q, s'.Unlisted j q ↔ s.Unlisted j q := fun j q => by simp only [Unlisted, hc.pend]
  have hother : ∀ {j p}, s'.place j = p → p ≠ .reserved r → j ≠ k ∧ s.place j = p :=
    fun hp hne => place_elsewhere hc.others hc.place hp hne
  have hsender : ∀ {j q}, (s'.place j).sender = some q → (j = k ∧ q = r) ∨ (j ≠ k ∧ (s.place j).sender = some q) := by
    intro j q hq
    by_cases hj : j = k
    · rw [hj, hc.place] at hq
      exact .inl ⟨hj, (Option.some.inj hq).symm⟩
    · exact .inr ⟨hj, hc.others j hj ▸ hq⟩
  have hholding : ∀ {j g}, (s'.place j).holding = some g → (s.place j).holding = some g :=
    fun hg => (view_elsewhere hc.others (by rw [hc.place]; rfl) hg).2
  -- an entry of the new table is the new one or an old one under another identifier
  have hmem : ∀ {t}, t ∈ s'.sendInflight → t.packetId ≠ 0 →
      t = {packetId := r.packetId, owner := some (.object k), ackType := some r.ackType} ∨
        (t ∈ s.sendInflight ∧ t.packetId ≠ r.packetId) := by
    intro t ht hused
    by_cases hid : t.packetId = r.packetId
    · exact .inl (hc.distinct.eq ht (hc.entry (hid ▸ hused)) hid hused)
    · exact .inr ⟨hc.old t ht hused hid, hid⟩
  -- no other call is about to write: this one has `lockSend`
  have halone : ∀ {j q}, (s.place j).writes = some q → False := by
    intro j q hq
    have hjk := h.only_sender (k := k) (by rw [hplace]; rfl) (sends_of_writes hq)
    rw [hjk, hplace] at hq
    cases hq
  have hself : (s.place k).sender = none ∧ (s.place k).holding = none ∧ (s.place k).found = none := by
    rw [hplace]
    exact ⟨rfl, rfl, rfl⟩
  refine ⟨⟨?_, hc.distinct, ?_⟩, ?_, ?_, ?_, ?_, ?_, ?_, ?_, ?_, ?_, ?_, ?_, ?_, ?_, ?_, ?_, ?_, ?_, ?_, ?_, ?_, ?_, ?_⟩
  · rw [hc.sent, hc.reads, hc.level]
    exact h.unused
  · rw [hc.hits]
    exact h.hit
  · refine sends_keep h hc.others hc.lock fun _ => ?_
    rw [hplace]
    rfl
  · rintro j q (hp | hq)
    · exact h.encodable j q (.inl (hother hp (by rintro ⟨⟩)).2)
    · rcases hsender hq with ⟨rfl, rfl⟩ | ⟨-, hq⟩
      · exact h.encodable j q (.inl hplace)
      · exact h.encodable j q (.inr hq)
  · intro j q hq hid
    rcases hsender (sender_of_writes hq) with ⟨rfl, rfl⟩ | ⟨hj, -⟩
    · exact hc.entry hid
    · rw [hc.others j hj] at hq
      exact absurd hq halone
  · intro j q hq hid t ht hused howner
    rcases hsender hq with ⟨rfl, rfl⟩ | ⟨hj, hq⟩
    · rcases hmem ht hused with rfl | ⟨ht, -⟩
      · rfl
      · exact (hgood hid).own t ht hused howner
    · rcases hmem ht hused with rfl | ⟨ht, -⟩
      · exact absurd (Owner.object.inj (Option.some.inj howner)).symm hj
      · exact h.owned j q hq hid t ht hused howner
  · intro j q hp hid
    rw [hspent, hunlisted]
    by_cases hj : j = k
    · rw [hj, hc.place] at hp
      cases hp
      rw [hj]
      exact hc.settled hid
    · rw [hc.others j hj] at hp
      exact h.reserved j q hp hid
  · intro j q hp hid
    rw [hspent]
    exact h.listed j q (hother hp (by rintro ⟨⟩)).2 hid
  · intro j q hp hid t ht hused howner
    rw [hspent]
    obtain ⟨hj, hold⟩ := hother hp (by rintro ⟨⟩)
    rcases hmem ht hused with rfl | ⟨ht, -⟩
    · exact absurd (Owner.object.inj (Option.some.inj howner)).symm hj
    · exact h.refused j q hold hid t ht hused howner
  · intro e he hid
    rw [hc.sent] at he
    rw [hacked]
    by_cases heq : e.packetId = r.packetId
    · refine (hc.same (heq ▸ hid) e he heq).imp_right fun htype => ?_
      exact ⟨_, hc.entry (heq ▸ hid), heq.symm, by rw [htype]⟩
    · refine (h.inTable e he hid).imp_right ?_
      rintro ⟨t, ht, hkey, htype⟩
      exact ⟨t, hc.kept t ht (by rw [hkey]; exact hid) (by rw [hkey]; exact heq), hkey, htype⟩
  · intro t ht hused
    rcases hmem ht hused with rfl | ⟨ht, hne⟩
    · exact .inr ⟨k, r, by rw [hc.place]; rfl, rfl, rfl⟩
    · rw [hc.sinceSame _ hne]
      refine (h.begun t ht hused).imp_right ?_
      rintro ⟨j, q, hq, hid, howner⟩
      have hj : j ≠ k := by
        rintro rfl
        rw [hself.1] at hq
        cases hq
      exact ⟨j, q, by rw [hc.others j hj]; exact hq, hid, howner⟩
  · intro i m hm
    rw [hc.reads]
    exact h.sinceLe i m (hc.sinceLe i m hm)
  · rw [hc.sent, hc.reads]
    exact h.sentLe
  · rw [hc.pend]
    exact h.objects
  · rw [hc.pend]
    exact h.kinds
  · intro x hx
    rw [hc.pend] at hx
    rw [hc.reads]
    refine (h.pending x hx).imp_right ?_
    rintro ⟨hnone, q, hq, hid⟩
    have hj : x.object ≠ k := by
      intro heq
      rw [heq, hplace] at hq
      cases hq
    exact ⟨hnone, q, by rw [hc.others _ hj]; exact hq, hid⟩
  · intro j q hp x hx
    rw [hc.pend] at hx
    exact h.fresh j q (hother hp (by rintro ⟨⟩)).2 x hx
  · intro j g hg
    rw [hc.reads, hc.level]
    exact h.held j g (hholding hg)
  · intro j g hg hends i q hq hid
    rw [hc.level] at hends
    rcases hsender hq with ⟨rfl, rfl⟩ | ⟨-, hq⟩
    · exact (hgood hid).apart j g (hholding hg) hends
    · exact h.apart j g (hholding hg) hends i q hq hid
  · intro j g hg hends
    rw [hc.level] at hends
    rw [hc.sent]
    exact h.heldSent j g (hholding hg) hends
  · intro j g hg hends t ht hused hid
    rw [hc.level] at hends
    rcases hmem ht hused with rfl | ⟨ht, hne⟩
    · exact absurd hid.symm ((hgood hused).apart j g (hholding hg) hends)
    · rw [hc.sinceSame _ hne]
      exact h.heldEntry j g (hholding hg) hends t ht hused hid
  · intro j g hg hends
    rw [hc.level] at hends
    rw [hc.pend]
    exact h.heldPend j g (hholding hg) hends
  · intro j g hg hrej t ht hid
    rw [hc.level] at hrej
    have hheld := hholding hg
    obtain ⟨-, hdec, -⟩ := h.held j g hheld
    have hused : t.packetId ≠ 0 := by rw [hid]; exact rejects_id hdec hrej
    rcases hmem ht hused with rfl | ⟨ht, -⟩
    · refine absurd hid.symm ((hgood hused).apart j g hheld ?_)
      rw [Incoming.ends, hrej, Bool.or_true]
    · exact h.heldReject j g hheld hrej t ht hid
  · intro j o n hf
    rw [hc.pend]
    by_cases hj : j = k
    · rw [hj, hc.place] at hf
      cases hf
    · exact h.found j o n (hc.others j hj ▸ hf)

/-- The state after a reservation that was granted. -/
theorem reserve_granted {r : Request} {ids : List MqttSendId}
    (heq : SendIds.reserve s.sendInflight r.packetId (.object k) r.duplicate r.ackType = (Code.success, ids)) :
    s.reserve k r =
      Sys.go {s with
        sendInflight := ids
        since :=
          if (SendIds.find s.sendInflight r.packetId).isSome then s.since
          else Function.update s.since r.packetId none} k (.reserved r) := by
  unfold Sys.reserve
  rw [heq]
  rfl

theorem Ids.reserve {r : Request} (h : Ids s) (hplace : s.place k = .claimed r)
    (hgood : r.packetId ≠ 0 → s.Reserves k r) : Ids (s.reserve k r) := by
  have hothers : ∀ (s₁ : Sys) (p : Place), s₁.task = s.task → ∀ j, j ≠ k → (s₁.go k p).place j = s.place j := by
    intro s₁ p htask j hj
    rw [place_go, if_neg hj, place, place, htask]
  have hsince : ∀ (b : Bool) (i : Nat), i ≠ r.packetId →
      (if b then s.since else Function.update s.since r.packetId none) i = s.since i := by
    intro b i hi
    split
    · rfl
    · exact Function.update_of_ne hi _ _
  have hsinceLe : ∀ (b : Bool) (i m : Nat),
      (if b then s.since else Function.update s.since r.packetId none) i = some m → s.since i = some m := by
    intro b i m hm
    by_cases hi : i = r.packetId
    · split at hm
      · exact hm
      · rw [hi, Function.update_self] at hm
        cases hm
    · rwa [hsince b i hi] at hm
  by_cases hid : r.packetId = 0
  · have heq : SendIds.reserve s.sendInflight r.packetId (.object k) r.duplicate r.ackType = (Code.success, s.sendInflight) := by
      rw [SendIds.reserve, if_pos hid]
    rw [reserve_granted heq]
    exact h.claims
      { level := rfl, sent := rfl, reads := rfl, pend := rfl, hits := rfl, lock := rfl
        place := by rw [place_go, if_pos rfl]
        others := hothers _ _ rfl
        distinct := h.distinct
        old := fun _ ht _ _ => ht
        kept := fun _ ht _ _ => ht
        entry := fun hne => absurd hid hne
        sinceSame := hsince _
        sinceLe := hsinceLe _
        settled := fun hne => absurd hid hne
        same := fun hne => absurd hid hne } hplace hgood
  have hg := hgood hid
  rcases reserve_cases s.sendInflight hid (.object k) r.duplicate r.ackType with
    heq | ⟨hagain, i, t, ht, hkey, heq⟩ | ⟨hnew, hnone, ⟨i, t, ht, hfree, heq⟩ | ⟨hfull, heq⟩⟩
  -- refused: the identifier is in use
  · have hs : s.reserve k r = (s.unlockSend k).go k .idle := by
      unfold Sys.reserve
      rw [heq]
      rfl
    rw [hs]
    refine h.rest (k := k) (.of_eq h rfl rfl rfl rfl rfl rfl) (hothers _ _ rfl)
      (sends_unlock h (hothers _ _ rfl) rfl (by rw [place_go, if_pos rfl]; rfl)) (by rw [hplace]; rfl) ?_ (.inl ?_) (.inl ?_) ?_
      (fun x hx => .inl hx)
    · rw [place_go, if_pos rfl]; rfl
    · rw [place_go, if_pos rfl]; rfl
    · rw [place_go, if_pos rfl]; rfl
    · intro q hq
      rw [place_go, if_pos rfl] at hq
      cases hq
  -- taken over by a retransmission
  · have htmem : t ∈ s.sendInflight := List.mem_of_getElem? ht
    obtain ⟨htype, hunlisted⟩ := hg.again hagain t htmem hkey
    rw [reserve_granted heq]
    exact h.claims
      { level := rfl, sent := rfl, reads := rfl, pend := rfl, hits := rfl, lock := rfl
        place := by rw [place_go, if_pos rfl]
        others := hothers _ _ rfl
        distinct := h.distinct.set_same ht rfl
        old := fun x hx _ hne => by
          rcases List.mem_or_eq_of_mem_set hx with hold | rfl
          · exact hold
          · exact absurd hkey hne
        kept := fun x hx _ hne => Slots.mem_set_of_ne hx ht (by rintro rfl; exact hne hkey) _
        entry := fun _ => by
          rw [← hkey]
          exact Slots.mem_set_self ht _
        sinceSame := hsince _
        sinceLe := hsinceLe _
        settled := fun _ => .inr ⟨hagain, hunlisted⟩
        same := fun _ e he heid => by
          rcases h.inTable e he (heid ▸ hid) with hacked | ⟨x, hx, hxid, hxtype⟩
          · exact .inl hacked
          · have hxt := h.distinct.eq hx htmem ((hxid.trans heid).trans hkey.symm) (by rw [hxid, heid]; exact hid)
            rw [hxt, htype] at hxtype
            exact .inr (Option.some.inj hxtype).symm } hplace hgood
  -- a free entry
  · have hspent : s.Spent r.packetId := by
      intro e he heid
      rcases h.inTable e he (heid ▸ hid) with hacked | ⟨x, hx, hxid, -⟩
      · exact hacked
      · exact absurd (hxid.trans heid) (hnew x hx)
    rw [reserve_granted heq]
    exact h.claims
      { level := rfl, sent := rfl, reads := rfl, pend := rfl, hits := rfl, lock := rfl
        place := by rw [place_go, if_pos rfl]
        others := hothers _ _ rfl
        distinct := h.distinct.set_new hnew
        old := fun x hx _ hne => by
          rcases List.mem_or_eq_of_mem_set hx with hold | rfl
          · exact hold
          · exact absurd rfl hne
        kept := fun x hx hused _ => Slots.mem_set_of_ne hx ht (by rintro rfl; exact hused hfree) _
        entry := fun _ => Slots.mem_set_self ht _
        sinceSame := hsince _
        sinceLe := hsinceLe _
        settled := fun _ => .inl hspent
        same := fun _ e he heid => .inl (hspent e he heid) } hplace hgood
  -- no entry is free, against the condition
  · rcases hg.room with hsome | hsome
    · rw [hnone] at hsome
      cases hsome
    · rw [hfull] at hsome
      cases hsome

/-- What `MqttClient_RespList_Add` does: it refuses what is on the list, or appends. -/
theorem respListAdd_cases (s : Sys) (k : Nat) (r : Request) :
    (¬s.Unlisted k r ∧ respListAdd s.pendResps k r = none) ∨
      (s.Unlisted k r ∧
        respListAdd s.pendResps k r =
          some (s.pendResps ++ [{packetType := r.ackType, packetId := r.packetId, object := k}])) := by
  unfold respListAdd
  by_cases hany : s.pendResps.any (fun x => x.object = k || (r.packetId ≠ 0 && x.packetId = r.packetId)) = true
  · refine .inl ⟨fun hun => ?_, if_pos hany⟩
    obtain ⟨x, hx, hor⟩ := List.any_eq_true.mp hany
    obtain ⟨hobj, hid⟩ := hun x hx
    simp only [Bool.or_eq_true, Bool.and_eq_true, decide_eq_true_eq] at hor
    rcases hor with heq | ⟨hne, heq⟩
    · exact hobj heq
    · exact hid hne heq
  · refine .inr ⟨fun x hx => ⟨fun heq => hany ?_, fun hne heq => hany ?_⟩, if_neg hany⟩
    · exact List.any_eq_true.mpr ⟨x, hx, by simp [heq]⟩
    · exact List.any_eq_true.mpr ⟨x, hx, by simp [heq, hne]⟩

/-- `MqttClient_RespList_Add` refuses a new request only, and its identifier is spent. -/
theorem Ids.refuse {r : Request} (h : Ids s) (hplace : s.place k = .reserved r) (hun : ¬s.Unlisted k r) :
    Ids ((s.unlockSend k).go k (.refused r)) := by
  obtain ⟨s', hs'⟩ : ∃ s', s' = (s.unlockSend k).go k (.refused r) := ⟨_, rfl⟩
  rw [← hs']
  have hothers : ∀ j, j ≠ k → s'.place j = s.place j := by
    intro j hj
    rw [hs', place_go, if_neg hj]
    rfl
  have hself : s'.place k = .refused r := by rw [hs', place_go, if_pos rfl]
  have hview : ∀ j, (s'.place j).sender = (s.place j).sender ∧ (s'.place j).holding = (s.place j).holding ∧
      (s'.place j).found = (s.place j).found := by
    intro j
    by_cases hj : j = k
    · rw [hj, hself, hplace]
      exact ⟨rfl, rfl, rfl⟩
    · rw [hothers j hj]
      exact ⟨rfl, rfl, rfl⟩
  have hother : ∀ {j p}, s'.place j = p → p ≠ .refused r → s.place j = p :=
    fun hp hne => (place_elsewhere hothers hself hp hne).2
  have hkeep : s'.sendInflight = s.sendInflight ∧ s'.sent = s.sent ∧ s'.reads = s.reads ∧ s'.since = s.since ∧
      s'.pendResps = s.pendResps ∧ s'.hits = s.hits ∧ s'.protocolLevel = s.protocolLevel := by
    rw [hs']
    exact ⟨rfl, rfl, rfl, rfl, rfl, rfl, rfl⟩
  obtain ⟨htable, hsent, hreads, hsince, hpend, hhits, hlevel⟩ := hkeep
  have hacked : ∀ e, s'.Acked e ↔ s.Acked e := fun e => by simp only [Acked, hreads, hlevel]
  have hspent : ∀ i, s'.Spent i ↔ s.Spent i := fun i => by simp only [Spent, hsent, hacked]
  have hunlisted : ∀ j q, s'.Unlisted j q ↔ s.Unlisted j q := fun j q => by simp only [Unlisted, hpend]
  refine ⟨⟨?_, ?_, ?_⟩, ?_, ?_, ?_, ?_, ?_, ?_, ?_, ?_, ?_, ?_, ?_, ?_, ?_, ?_, ?_, ?_, ?_, ?_, ?_, ?_, ?_, ?_⟩
  · rw [hsent, hreads, hlevel]
    exact h.unused
  · rw [htable]
    exact h.distinct
  · rw [hhits]
    exact h.hit
  · exact sends_unlock h hothers (by rw [hs']; rfl) (by rw [hself]; rfl)
  · rintro j q (hp | hq)
    · exact h.encodable j q (.inl (hother hp (by rintro ⟨⟩)))
    · rw [(hview j).1] at hq
      exact h.encodable j q (.inr hq)
  · intro j q hq hid
    rw [htable]
    by_cases hj : j = k
    · rw [hj, hself] at hq
      cases hq
    · exact h.entry j q (hothers j hj ▸ hq) hid
  · intro j q hq
    rw [(hview j).1] at hq
    rw [htable]
    exact h.owned j q hq
  · intro j q hp hid
    rw [hspent, hunlisted]
    exact h.reserved j q (hother hp (by rintro ⟨⟩)) hid
  · intro j q hp hid
    rw [hspent]
    exact h.listed j q (hother hp (by rintro ⟨⟩)) hid
  · intro j q hp hid t ht hused howner
    rw [htable] at ht
    rw [hspent]
    by_cases hj : j = k
    · rw [hj, hself] at hp
      cases hp
      rw [h.owned k r (by rw [hplace]; rfl) hid t ht hused (hj ▸ howner)]
      exact (h.reserved k r hplace hid).resolve_right fun hu => hun hu.2
    · rw [hothers j hj] at hp
      exact h.refused j q hp hid t ht hused howner
  · simp only [hsent, hacked, htable]
    exact h.inTable
  · intro t ht hused
    rw [htable] at ht
    rw [hsince]
    simp only [(hview _).1]
    exact h.begun t ht hused
  · rw [hsince, hreads]
    exact h.sinceLe
  · rw [hsent, hreads]
    exact h.sentLe
  · rw [hpend]
    exact h.objects
  · rw [hpend]
    exact h.kinds
  · intro x hx
    rw [hpend] at hx
    rw [hreads]
    refine (h.pending x hx).imp_right ?_
    rintro ⟨hnone, q, hq, hid⟩
    have hj : x.object ≠ k := by
      intro heq
      rw [heq, hplace] at hq
      cases hq
    exact ⟨hnone, q, by rw [hothers _ hj]; exact hq, hid⟩
  · intro j q hp
    rw [hpend]
    exact h.fresh j q (hother hp (by rintro ⟨⟩))
  · intro j g hg
    rw [(hview j).2.1] at hg
    rw [hreads, hlevel]
    exact h.held j g hg
  · intro j g hg hends i q hq
    rw [(hview j).2.1] at hg
    rw [hlevel] at hends
    rw [(hview i).1] at hq
    exact h.apart j g hg hends i q hq
  · intro j g hg hends
    rw [(hview j).2.1] at hg
    rw [hlevel] at hends
    rw [hsent]
    exact h.heldSent j g hg hends
  · intro j g hg hends
    rw [(hview j).2.1] at hg
    rw [hlevel] at hends
    rw [htable, hsince]
    exact h.heldEntry j g hg hends
  · intro j g hg hends
    rw [(hview j).2.1] at hg
    rw [hlevel] at hends
    rw [hpend]
    exact h.heldPend j g hg hends
  · intro j g hg hrej
    rw [(hview j).2.1] at hg
    rw [hlevel] at hrej
    rw [htable]
    exact h.heldReject j g hg hrej
  · intro j o n hf
    rw [(hview j).2.2] at hf
    rw [hpend]
    exact h.found j o n hf

theorem isFinalAck_of_encodable {r : Request} (henc : r.encodable) (hid : r.packetId ≠ 0) : isFinalAck r.ackType := by
  unfold Request.encodable at henc
  split at henc
  case isTrue hfinal => exact hfinal
  case isFalse =>
    simp only [Bool.and_eq_true, decide_eq_true_eq] at henc
    exact absurd henc.2 hid

/-- The request is put on the list of pending responses. -/
theorem Ids.enlist {r : Request} (h : Ids s) (hplace : s.place k = .reserved r) (hun : s.Unlisted k r)
    (hunfound : ∀ j o n, (s.place j).found = some (o, n) → o ≠ k) :
    Ids (Sys.go {s with
      pendResps := s.pendResps ++ [{packetType := r.ackType, packetId := r.packetId, object := k}]} k (.listed r)) := by
  obtain ⟨x₀, hx₀⟩ : ∃ x₀ : PendResp, x₀ = {packetType := r.ackType, packetId := r.packetId, object := k} := ⟨_, rfl⟩
  have hnew : x₀.object = k ∧ x₀.packetId = r.packetId ∧ x₀.packetType = r.ackType ∧ x₀.since = none := by
    rw [hx₀]
    exact ⟨rfl, rfl, rfl, rfl⟩
  obtain ⟨hnewObj, hnewId, hnewType, hnewSince⟩ := hnew
  obtain ⟨s', hs'⟩ : ∃ s', s' = Sys.go {s with pendResps := s.pendResps ++ [x₀]} k (.listed r) := ⟨_, rfl⟩
  rw [← hx₀, ← hs']
  have hothers : ∀ j, j ≠ k → s'.place j = s.place j := by
    intro j hj
    rw [hs', place_go, if_neg hj]
    rfl
  have hself : s'.place k = .listed r := by rw [hs', place_go, if_pos rfl]
  have hview : ∀ j, (s'.place j).sender = (s.place j).sender ∧ (s'.place j).writes = (s.place j).writes ∧
      (s'.place j).holding = (s.place j).holding ∧ (s'.place j).found = (s.place j).found := by
    intro j
    by_cases hj : j = k
    · rw [hj, hself, hplace]
      exact ⟨rfl, rfl, rfl, rfl⟩
    · rw [hothers j hj]
      exact ⟨rfl, rfl, rfl, rfl⟩
  have hother : ∀ {j p}, s'.place j = p → p ≠ .listed r → s.place j = p :=
    fun hp hne => (place_elsewhere hothers hself hp hne).2
  have hkeep : s'.sendInflight = s.sendInflight ∧ s'.sent = s.sent ∧ s'.reads = s.reads ∧ s'.since = s.since ∧
      s'.hits = s.hits ∧ s'.protocolLevel = s.protocolLevel ∧ s'.lockSend = s.lockSend ∧
      s'.pendResps = s.pendResps ++ [x₀] := by
    rw [hs']
    exact ⟨rfl, rfl, rfl, rfl, rfl, rfl, rfl, rfl⟩
  obtain ⟨htable, hsent, hreads, hsince, hhits, hlevel, hlock, hpend⟩ := hkeep
  have hmem : ∀ {x}, x ∈ s'.pendResps → x ∈ s.pendResps ∨ x = x₀ := by
    intro x hx
    rw [hpend] at hx
    exact (List.mem_append.mp hx).imp_right List.mem_singleton.mp
  have hacked : ∀ e, s'.Acked e ↔ s.Acked e := fun e => by simp only [Acked, hreads, hlevel]
  have hspent : ∀ i, s'.Spent i ↔ s.Spent i := fun i => by simp only [Spent, hsent, hacked]
  -- no other call is about to write: this one has `lockSend`
  have halone : ∀ {j q}, (s.place j).writes = some q → j = k := fun hq =>
    h.only_sender (k := k) (by rw [hplace]; rfl) (sends_of_writes hq)
  refine ⟨⟨?_, ?_, ?_⟩, ?_, ?_, ?_, ?_, ?_, ?_, ?_, ?_, ?_, ?_, ?_, ?_, ?_, ?_, ?_, ?_, ?_, ?_, ?_, ?_, ?_, ?_⟩
  · rw [hsent, hreads, hlevel]
    exact h.unused
  · rw [htable]
    exact h.distinct
  · rw [hhits]
    exact h.hit
  · refine sends_keep h hothers hlock fun _ => ?_
    rw [hplace]
    rfl
  · rintro j q (hp | hq)
    · exact h.encodable j q (.inl (hother hp (by rintro ⟨⟩)))
    · rw [(hview j).1] at hq
      exact h.encodable j q (.inr hq)
  · intro j q hq
    rw [(hview j).2.1] at hq
    rw [htable]
    exact h.entry j q hq
  · intro j q hq
    rw [(hview j).1] at hq
    rw [htable]
    exact h.owned j q hq
  · intro j q hp
    have hold := hother hp (by rintro ⟨⟩)
    have hjk := halone (j := j) (q := q) (by rw [hold]; rfl)
    rw [hjk, hself] at hp
    cases hp
  · intro j q hp hid
    rw [hspent]
    by_cases hj : j = k
    · rw [hj, hself] at hp
      cases hp
      exact (h.reserved k r hplace hid).imp_right And.left
    · rw [hothers j hj] at hp
      exact h.listed j q hp hid
  · intro j q hp hid t ht
    rw [htable] at ht
    rw [hspent]
    exact h.refused j q (hother hp (by rintro ⟨⟩)) hid t ht
  · simp only [hsent, hacked, htable]
    exact h.inTable
  · intro t ht hused
    rw [htable] at ht
    rw [hsince]
    simp only [(hview _).1]
    exact h.begun t ht hused
  · rw [hsince, hreads]
    exact h.sinceLe
  · rw [hsent, hreads]
    exact h.sentLe
  · rw [hpend, List.map_append, List.nodup_append]
    refine ⟨h.objects, List.nodup_singleton _, ?_⟩
    intro o ho o' ho' heq
    obtain ⟨x, hx, rfl⟩ := List.mem_map.mp ho
    rw [List.map_cons, List.map_nil, List.mem_singleton, hnewObj] at ho'
    exact (hun x hx).1 (heq.trans ho')
  · intro x hx hid
    rcases hmem hx with hold | rfl
    · exact h.kinds x hold hid
    · rw [hnewType]
      exact isFinalAck_of_encodable (h.encodable k r (.inr (by rw [hplace]; rfl))) (hnewId ▸ hid)
  · intro x hx
    rw [hreads]
    rcases hmem hx with hold | rfl
    · refine (h.pending x hold).imp_right ?_
      rintro ⟨hnone, q, hq, hid⟩
      exact ⟨hnone, q, by rw [hothers _ (hun x hold).1]; exact hq, hid⟩
    · exact .inr ⟨hnewSince, r, by rw [hnewObj]; exact hself, hnewId.symm⟩
  · intro j q hp x hx hobj
    by_cases hj : j = k
    · rw [hj, hself] at hp
      cases hp
      rcases hmem hx with hold | rfl
      · exact absurd (hobj.trans hj) (hun x hold).1
      · exact ⟨hnewSince, hnewId⟩
    · rw [hothers j hj] at hp
      rcases hmem hx with hold | rfl
      · exact h.fresh j q hp x hold hobj
      · exact absurd (hobj.symm.trans hnewObj) hj
  · intro j g hg
    rw [(hview j).2.2.1] at hg
    rw [hreads, hlevel]
    exact h.held j g hg
  · intro j g hg hends i q hq
    rw [(hview j).2.2.1] at hg
    rw [hlevel] at hends
    rw [(hview i).1] at hq
    exact h.apart j g hg hends i q hq
  · intro j g hg hends
    rw [(hview j).2.2.1] at hg
    rw [hlevel] at hends
    rw [hsent]
    exact h.heldSent j g hg hends
  · intro j g hg hends
    rw [(hview j).2.2.1] at hg
    rw [hlevel] at hends
    rw [htable, hsince]
    exact h.heldEntry j g hg hends
  · intro j g hg hends x hx hused hid
    rw [(hview j).2.2.1] at hg
    rw [hlevel] at hends
    rcases hmem hx with hold | rfl
    · exact h.heldPend j g hg hends x hold hused hid
    · refine absurd (hid.symm.trans hnewId) (h.apart j g hg hends k r (by rw [hplace]; rfl) ?_)
      exact hnewId ▸ hused
  · intro j g hg hrej
    rw [(hview j).2.2.1] at hg
    rw [hlevel] at hrej
    rw [htable]
    exact h.heldReject j g hg hrej
  · intro j o n hf x hx hobj hused
    rw [(hview j).2.2.2] at hf
    rcases hmem hx with hold | rfl
    · exact h.found j o n hf x hold hobj hused
    · exact absurd (hobj.symm.trans hnewObj) (hunfound j o n hf)

theorem Ids.list {r : Request} (h : Ids s) (hplace : s.place k = .reserved r)
    (hunfound : ∀ j o n, (s.place j).found = some (o, n) → o ≠ k) : Ids (s.list k r) := by
  unfold Sys.list
  rcases respListAdd_cases s k r with ⟨hun, heq⟩ | ⟨hun, heq⟩
  · rw [heq]
    exact h.refuse hplace hun
  · rw [heq]
    exact h.enlist hplace hun hunfound

/-- The request is written: from now on its acknowledgement may come. -/
theorem Ids.write {r : Request} (h : Ids s) (hplace : s.place k = .listed r) : Ids (s.write k r) := by
  obtain ⟨s', hs'⟩ : ∃ s', s' = s.write k r := ⟨_, rfl⟩
  rw [← hs']
  obtain ⟨e₀, he₀⟩ : ∃ e₀ : Sent, e₀ = {ackType := r.ackType, packetId := r.packetId, duplicate := r.duplicate, since := s.reads.length} :=
    ⟨_, rfl⟩
  have hnew : e₀.ackType = r.ackType ∧ e₀.packetId = r.packetId ∧ e₀.duplicate = r.duplicate ∧ e₀.since = s.reads.length := by
    rw [he₀]
    exact ⟨rfl, rfl, rfl, rfl⟩
  obtain ⟨hnewType, hnewId, hnewDup, hnewSince⟩ := hnew
  have hothers : ∀ j, j ≠ k → s'.place j = s.place j := by
    intro j hj
    rw [hs', Sys.write, place_go, if_neg hj]
    rfl
  have hself : s'.place k = .waiting (some r) := by rw [hs', Sys.write, place_go, if_pos rfl]
  have hkeep : s'.sendInflight = s.sendInflight ∧ s'.sent = s.sent ++ [e₀] ∧ s'.reads = s.reads ∧ s'.hits = s.hits ∧
      s'.protocolLevel = s.protocolLevel ∧ s'.lockSend = (s.unlockSend k).lockSend ∧
      s'.since = Function.update s.since r.packetId (some ((s.since r.packetId).getD s.reads.length)) ∧
      s'.pendResps = s.pendResps.map (fun x => if x.object = k then {x with since := some s.reads.length} else x) := by
    rw [hs', he₀]
    exact ⟨rfl, rfl, rfl, rfl, rfl, rfl, rfl, rfl⟩
  obtain ⟨htable, hsent, hreads, hhits, hlevel, hlock, hsince, hpend⟩ := hkeep
  have hwrites : (s.place k).writes = some r := by rw [hplace]; rfl
  have hsenderk : (s.place k).sender = some r := sender_of_writes hwrites
  have hmem : ∀ {x'}, x' ∈ s'.pendResps → ∃ x ∈ s.pendResps, x'.object = x.object ∧ x'.packetId = x.packetId ∧
      x'.packetType = x.packetType ∧ ((x.object = k ∧ x'.since = some s.reads.length) ∨ (x.object ≠ k ∧ x'.since = x.since)) := by
    intro x' hx'
    rw [hpend] at hx'
    obtain ⟨x, hx, rfl⟩ := List.mem_map.mp hx'
    refine ⟨x, hx, ?_⟩
    split
    case isTrue hk => exact ⟨rfl, rfl, rfl, .inl ⟨hk, rfl⟩⟩
    case isFalse hk => exact ⟨rfl, rfl, rfl, .inr ⟨hk, rfl⟩⟩
  have hacked : ∀ e, s'.Acked e ↔ s.Acked e := fun e => by simp only [Acked, hreads, hlevel]
  -- no call is about to write any more: this one had `lockSend`
  have halone : ∀ {j q}, (s'.place j).writes = some q → False := by
    intro j q hq
    by_cases hj : j = k
    · rw [hj, hself] at hq
      cases hq
    · rw [hothers j hj] at hq
      exact hj (h.only_sender (k := k) (sends_of_writes hwrites) (sends_of_writes hq))
  have hsender : ∀ {j q}, (s'.place j).sender = some q → j ≠ k ∧ (s.place j).sender = some q :=
    fun hq => view_elsewhere hothers (by rw [hself]; rfl) hq
  have hholding : ∀ {j g}, (s'.place j).holding = some g → (s.place j).holding = some g :=
    fun hg => (view_elsewhere hothers (by rw [hself]; rfl) hg).2
  have hsinceOther : ∀ i, i ≠ r.packetId → s'.since i = s.since i := by
    intro i hi
    rw [hsince, Function.update_of_ne hi]
  refine ⟨⟨?_, ?_, ?_⟩, ?_, ?_, ?_, ?_, ?_, ?_, ?_, ?_, ?_, ?_, ?_, ?_, ?_, ?_, ?_, ?_, ?_, ?_, ?_, ?_, ?_, ?_⟩
  · rw [hsent, hreads, hlevel, List.pairwise_append]
    refine ⟨h.unused, List.pairwise_singleton _ _, ?_⟩
    intro e he e' he' hsame hid hdup
    rw [List.mem_singleton.mp he'] at hsame hid hdup ⊢
    rw [hnewId] at hsame hid
    obtain ⟨n, p, hle, hread, hans⟩ :=
      ((h.listed k r hplace hid).resolve_right (by rw [← hnewDup, hdup]; decide)) e he hsame
    exact ⟨n, p, hle, by rw [hnewSince]; exact (List.getElem?_eq_some_iff.mp hread).1, hread, hans⟩
  · rw [htable]
    exact h.distinct
  · rw [hhits]
    exact h.hit
  · exact sends_unlock h hothers hlock (by rw [hself]; rfl)
  · rintro j q (hp | hq)
    · by_cases hj : j = k
      · rw [hj, hself] at hp
        cases hp
      · exact h.encodable j q (.inl (hothers j hj ▸ hp))
    · exact h.encodable j q (.inr (hsender hq).2)
  · intro j q hq
    exact absurd hq halone
  · intro j q hq
    rw [htable]
    exact h.owned j q (hsender hq).2
  · intro j q hp
    exact absurd (show (s'.place j).writes = some q by rw [hp]; rfl) halone
  · intro j q hp
    exact absurd (show (s'.place j).writes = some q by rw [hp]; rfl) halone
  · intro j q hp hid t ht hused howner
    rw [htable] at ht
    have hq := (hsender (j := j) (q := q) (by rw [hp]; rfl))
    intro e he heid
    rw [hacked]
    rw [hsent] at he
    rcases List.mem_append.mp he with hold | hlast
    · exact h.refused j q (by rw [← hothers j hq.1]; exact hp) hid t ht hused howner e hold heid
    · -- the entry under this request's identifier is its own
      rw [List.mem_singleton.mp hlast, hnewId] at heid
      have htr := h.distinct.eq ht (h.entry k r hwrites (heid ▸ hused)) heid.symm hused
      rw [htr] at howner
      exact absurd (Owner.object.inj (Option.some.inj howner)).symm hq.1
  · intro e he hid
    rw [hacked, htable]
    rw [hsent] at he
    rcases List.mem_append.mp he with hold | hlast
    · exact h.inTable e hold hid
    · rw [List.mem_singleton.mp hlast] at hid ⊢
      rw [hnewId] at hid
      exact .inr ⟨_, h.entry k r hwrites hid, hnewId.symm, by rw [hnewType]⟩
  · intro t ht hused
    rw [htable] at ht
    by_cases heq : t.packetId = r.packetId
    · left
      rw [heq, hsince, Function.update_self]
      rfl
    · rw [hsinceOther _ heq]
      refine (h.begun t ht hused).imp_right ?_
      rintro ⟨j, q, hq, hid, howner⟩
      have hj : j ≠ k := by
        rintro rfl
        rw [hsenderk] at hq
        exact heq (by rw [← hid, ← Option.some.inj hq])
      exact ⟨j, q, by rw [hothers j hj]; exact hq, hid, howner⟩
  · intro i m hm
    rw [hreads]
    by_cases hi : i = r.packetId
    · rw [hi, hsince, Function.update_self] at hm
      rw [← Option.some.inj hm]
      cases hold : s.since r.packetId with
      | none => exact Nat.le_refl _
      | some m' => exact h.sinceLe _ m' hold
    · rw [hsinceOther i hi] at hm
      exact h.sinceLe i m hm
  · intro e he
    rw [hsent] at he
    rw [hreads]
    rcases List.mem_append.mp he with hold | hlast
    · exact h.sentLe e hold
    · refine Nat.le_of_eq ?_
      rw [List.mem_singleton.mp hlast, hnewSince]
  · rw [hpend, List.map_map]
    have hobj : (PendResp.object ∘ fun x => if x.object = k then {x with since := some s.reads.length} else x) = PendResp.object := by
      funext x
      dsimp only [Function.comp_apply]
      split <;> rfl
    rw [hobj]
    exact h.objects
  · intro x' hx'
    obtain ⟨x, hx, -, hid, htype, -⟩ := hmem hx'
    rw [hid, htype]
    exact h.kinds x hx
  · intro x' hx'
    obtain ⟨x, hx, hobj, hid, -, hor⟩ := hmem hx'
    rw [hreads]
    rcases hor with ⟨-, hnow⟩ | ⟨hne, hsame⟩
    · exact .inl ⟨_, hnow, Nat.le_refl _⟩
    · rw [hsame, hobj, hid, hothers _ hne]
      exact h.pending x hx
  · intro j q hp
    exact absurd (show (s'.place j).writes = some q by rw [hp]; rfl) halone
  · intro j g hg
    rw [hreads, hlevel]
    exact h.held j g (hholding hg)
  · intro j g hg hends i q hq
    rw [hlevel] at hends
    exact h.apart j g (hholding hg) hends i q (hsender hq).2
  · intro j g hg hends e he hid heid
    rw [hlevel] at hends
    rw [hsent] at he
    rcases List.mem_append.mp he with hold | hlast
    · exact h.heldSent j g (hholding hg) hends e hold hid heid
    · rw [List.mem_singleton.mp hlast, hnewId] at hid heid
      exact absurd heid.symm (h.apart j g (hholding hg) hends k r hsenderk hid)
  · intro j g hg hends t ht hused hid
    rw [hlevel] at hends
    rw [htable] at ht
    by_cases heq : t.packetId = r.packetId
    · exact absurd (hid.symm.trans heq) (h.apart j g (hholding hg) hends k r hsenderk (heq ▸ hused))
    · rw [hsinceOther _ heq]
      exact h.heldEntry j g (hholding hg) hends t ht hused hid
  · intro j g hg hends x' hx' hused hxid
    rw [hlevel] at hends
    obtain ⟨x, hx, -, hid, -, hor⟩ := hmem hx'
    rw [hid] at hused hxid
    rcases hor with ⟨hk, -⟩ | ⟨-, hsame⟩
    · have hxr := (h.fresh k r hplace x hx hk).2
      exact absurd (hxid.symm.trans hxr) (h.apart j g (hholding hg) hends k r hsenderk (hxr ▸ hused))
    · rw [hsame]
      exact h.heldPend j g (hholding hg) hends x hx hused hxid
  · intro j g hg hrej
    rw [hlevel] at hrej
    rw [htable]
    exact h.heldReject j g (hholding hg) hrej
  · intro j o n hf x' hx' hobj' hused
    have hfound : (s.place j).found = some (o, n) := by
      by_cases hj : j = k
      · rw [hj, hself] at hf
        cases hf
      · exact hothers j hj ▸ hf
    obtain ⟨x, hx, hobj, hid, -, hor⟩ := hmem hx'
    rw [hobj] at hobj'
    rw [hid] at hused
    rcases hor with ⟨hk, -⟩ | ⟨-, hsame⟩
    · -- a reader has found an entry of this request before it was written
      obtain ⟨m, hm, -⟩ := h.found j o n hfound x hx hobj' hused
      rw [(h.fresh k r hplace x hx hk).1] at hm
      cases hm
    · rw [hsame]
      exact h.found j o n hfound x hx hobj' hused

/-- The entries `MqttClient_SendIdReleaseOwner` leaves. -/
theorem mem_releaseOwner {ids : List MqttSendId} {o : Owner} {t : MqttSendId} (hused : t.packetId ≠ 0) :
    t ∈ SendIds.releaseOwner ids o ↔ t ∈ ids ∧ t.owner ≠ some o := by
  unfold SendIds.releaseOwner
  rw [List.mem_map]
  constructor
  · rintro ⟨x, hx, rfl⟩
    split at hused
    case isTrue => exact absurd rfl hused
    case isFalse hn =>
      rw [if_neg hn]
      exact ⟨hx, fun howner => hn ⟨hused, howner⟩⟩
  · rintro ⟨ht, hne⟩
    exact ⟨t, ht, if_neg fun hc => hne hc.2⟩

/-- A request that was refused is given up, and its reservation with it. -/
theorem Ids.giveUp {r : Request} (h : Ids s) (hplace : s.place k = .refused r) :
    Ids ((if r.packetId = 0 then s else s.releaseOwner k).go k .leaving) := by
  obtain ⟨s', hs'⟩ : ∃ s', s' = (if r.packetId = 0 then s else s.releaseOwner k).go k .leaving := ⟨_, rfl⟩
  rw [← hs']
  have hkeep : s'.sent = s.sent ∧ s'.reads = s.reads ∧ s'.hits = s.hits ∧ s'.protocolLevel = s.protocolLevel ∧
      s'.lockSend = s.lockSend ∧ s'.since = s.since ∧ s'.pendResps = s.pendResps ∧
      (∀ j, j ≠ k → s'.place j = s.place j) ∧ s'.place k = .leaving := by
    rw [hs']
    split
    · exact ⟨rfl, rfl, rfl, rfl, rfl, rfl, rfl, fun j hj => by rw [place_go, if_neg hj], by rw [place_go, if_pos rfl]⟩
    · exact ⟨rfl, rfl, rfl, rfl, rfl, rfl, rfl, fun j hj => by rw [place_go, if_neg hj]; rfl, by rw [place_go, if_pos rfl]⟩
  obtain ⟨hsent, hreads, hhits, hlevel, hlock, hsince, hpend, hothers, hself⟩ := hkeep
  have htable : (r.packetId = 0 ∧ s'.sendInflight = s.sendInflight) ∨
      (r.packetId ≠ 0 ∧ s'.sendInflight = SendIds.releaseOwner s.sendInflight (.object k)) := by
    rw [hs']
    split
    case isTrue hid => exact .inl ⟨hid, rfl⟩
    case isFalse hid => exact .inr ⟨hid, rfl⟩
  have hmem : ∀ {t}, t.packetId ≠ 0 → (t ∈ s'.sendInflight ↔
      t ∈ s.sendInflight ∧ (r.packetId ≠ 0 → t.owner ≠ some (.object k))) := by
    intro t hused
    rcases htable with ⟨hid, heq⟩ | ⟨hid, heq⟩
    · rw [heq]
      exact ⟨fun ht => ⟨ht, fun hne => absurd hid hne⟩, And.left⟩
    · rw [heq, mem_releaseOwner hused]
      exact ⟨fun ht => ⟨ht.1, fun _ => ht.2⟩, fun ht => ⟨ht.1, ht.2 hid⟩⟩
  have hdistinct : Slots.Distinct MqttSendId.packetId s'.sendInflight := by
    rcases htable with ⟨-, heq⟩ | ⟨-, heq⟩
    · rw [heq]
      exact h.distinct
    · rw [heq]
      refine h.distinct.map fun t => ?_
      split
      · exact .inr rfl
      · exact .inl rfl
  have hacked : ∀ e, s'.Acked e ↔ s.Acked e := fun e => by simp only [Acked, hreads, hlevel]
  have hspent : ∀ i, s'.Spent i ↔ s.Spent i := fun i => by simp only [Spent, hsent, hacked]
  have hunlisted : ∀ j q, s'.Unlisted j q ↔ s.Unlisted j q := fun j q => by simp only [Unlisted, hpend]
  have hother : ∀ {j p}, s'.place j = p → p ≠ .leaving → j ≠ k ∧ s.place j = p :=
    fun hp hne => place_elsewhere hothers hself hp hne
  have hsender : ∀ {j q}, (s'.place j).sender = some q → j ≠ k ∧ (s.place j).sender = some q :=
    fun hq => view_elsewhere hothers (by rw [hself]; rfl) hq
  have hholding : ∀ {j g}, (s'.place j).holding = some g → (s.place j).holding = some g :=
    fun hg => (view_elsewhere hothers (by rw [hself]; rfl) hg).2
  refine ⟨⟨?_, hdistinct, ?_⟩, ?_, ?_, ?_, ?_, ?_, ?_, ?_, ?_, ?_, ?_, ?_, ?_, ?_, ?_, ?_, ?_, ?_, ?_, ?_, ?_, ?_, ?_⟩
  · rw [hsent, hreads, hlevel]
    exact h.unused
  · rw [hhits]
    exact h.hit
  · refine sends_keep h hothers hlock fun hk => ?_
    rw [hself] at hk
    cases hk
  · rintro j q (hp | hq)
    · exact h.encodable j q (.inl (hother hp (by rintro ⟨⟩)).2)
    · exact h.encodable j q (.inr (hsender hq).2)
  · intro j q hq hid
    have hj := (hsender (sender_of_writes hq)).1
    rw [hothers j hj] at hq
    refine (hmem hid).mpr ⟨h.entry j q hq hid, fun _ howner => hj ?_⟩
    exact Owner.object.inj (Option.some.inj howner)
  · intro j q hq hid t ht hused
    exact h.owned j q (hsender hq).2 hid t ((hmem hused).mp ht).1 hused
  · intro j q hp hid
    rw [hspent, hunlisted]
    exact h.reserved j q (hother hp (by rintro ⟨⟩)).2 hid
  · intro j q hp hid
    rw [hspent]
    exact h.listed j q (hother hp (by rintro ⟨⟩)).2 hid
  · intro j q hp hid t ht hused
    rw [hspent]
    exact h.refused j q (hother hp (by rintro ⟨⟩)).2 hid t ((hmem hused).mp ht).1 hused
  · intro e he hid
    rw [hsent] at he
    rw [hacked]
    rcases h.inTable e he hid with hold | ⟨t, ht, htid, htype⟩
    · exact .inl hold
    · by_cases howner : t.owner = some (.object k)
      · by_cases hrid : r.packetId = 0
        · exact .inr ⟨t, (hmem (by rw [htid]; exact hid)).mpr ⟨ht, fun hne => absurd hrid hne⟩, htid, htype⟩
        · exact .inl (h.refused k r hplace hrid t ht (by rw [htid]; exact hid) howner e he htid.symm)
      · exact .inr ⟨t, (hmem (by rw [htid]; exact hid)).mpr ⟨ht, fun _ => howner⟩, htid, htype⟩
  · intro t ht hused
    obtain ⟨ht, hnot⟩ := (hmem hused).mp ht
    rw [hsince]
    refine (h.begun t ht hused).imp_right ?_
    rintro ⟨j, q, hq, hid, howner⟩
    have hj : j ≠ k := by
      rintro rfl
      rw [hplace] at hq
      cases hq
      exact hnot (hid ▸ hused) howner
    exact ⟨j, q, by rw [hothers j hj]; exact hq, hid, howner⟩
  · rw [hsince, hreads]
    exact h.sinceLe
  · rw [hsent, hreads]
    exact h.sentLe
  · rw [hpend]
    exact h.objects
  · rw [hpend]
    exact h.kinds
  · intro x hx
    rw [hpend] at hx
    rw [hreads]
    refine (h.pending x hx).imp_right ?_
    rintro ⟨hnone, q, hq, hid⟩
    have hj : x.object ≠ k := by
      intro heq
      rw [heq, hplace] at hq
      cases hq
    exact ⟨hnone, q, by rw [hothers _ hj]; exact hq, hid⟩
  · intro j q hp
    rw [hpend]
    exact h.fresh j q (hother hp (by rintro ⟨⟩)).2
  · intro j g hg
    rw [hreads, hlevel]
    exact h.held j g (hholding hg)
  · intro j g hg hends i q hq
    rw [hlevel] at hends
    exact h.apart j g (hholding hg) hends i q (hsender hq).2
  · intro j g hg hends
    rw [hlevel] at hends
    rw [hsent]
    exact h.heldSent j g (hholding hg) hends
  · intro j g hg hends t ht hused
    rw [hlevel] at hends
    rw [hsince]
    exact h.heldEntry j g (hholding hg) hends t ((hmem hused).mp ht).1 hused
  · intro j g hg hends
    rw [hlevel] at hends
    rw [hpend]
    exact h.heldPend j g (hholding hg) hends
  · intro j g hg hrej t ht hid
    rw [hlevel] at hrej
    obtain ⟨-, hdec, -⟩ := h.held j g (hholding hg)
    have hused : t.packetId ≠ 0 := by rw [hid]; exact rejects_id hdec hrej
    exact h.heldReject j g (hholding hg) hrej t ((hmem hused).mp ht).1 hid
  · intro j o n hf
    rw [hpend]
    by_cases hj : j = k
    · rw [hj, hself] at hf
      cases hf
    · exact h.found j o n (hothers j hj ▸ hf)

/-! ### Reading -/

/-- A packet is read: it was sent after everything that was written before. -/
theorem Ids.read {w : Wait} {p : Incoming} (h : Ids s) (hplace : s.place k = .reading w)
    (hdec : p.decodable s.protocolLevel)
    (hapart : p.ends s.protocolLevel → ∀ j r, (s.place j).sender = some r → r.packetId ≠ 0 → p.packetId ≠ r.packetId)
    (hreject : p.rejects s.protocolLevel →
      ∀ t ∈ s.sendInflight, t.packetId = p.packetId → t.ackType = some .publishComp) :
    Ids (Sys.go {s with rxBuf := some p, reads := s.reads ++ [p]} k
      (.received {wait := w, packet := p, index := s.reads.length})) := by
  obtain ⟨s', hs'⟩ : ∃ s', s' = Sys.go {s with rxBuf := some p, reads := s.reads ++ [p]} k
      (.received {wait := w, packet := p, index := s.reads.length}) := ⟨_, rfl⟩
  rw [← hs']
  have hkeep : s'.sendInflight = s.sendInflight ∧ s'.sent = s.sent ∧ s'.since = s.since ∧ s'.pendResps = s.pendResps ∧
      s'.hits = s.hits ∧ s'.protocolLevel = s.protocolLevel ∧ s'.lockSend = s.lockSend ∧ s'.reads = s.reads ++ [p] := by
    rw [hs']
    exact ⟨rfl, rfl, rfl, rfl, rfl, rfl, rfl, rfl⟩
  obtain ⟨htable, hsent, hsince, hpend, hhits, hlevel, hlock, hreads⟩ := hkeep
  have hlen : s.reads.length ≤ s'.reads.length := by rw [hreads, List.length_append]; exact Nat.le_add_right _ _
  have hold : ∀ {n : Nat} {q : Incoming}, s.reads[n]? = some q → s'.reads[n]? = some q := by
    intro n q hn
    rw [hreads, List.getElem?_append_left (List.getElem?_eq_some_iff.mp hn).1]
    exact hn
  have hothers : ∀ j, j ≠ k → s'.place j = s.place j := by
    intro j hj
    rw [hs', place_go, if_neg hj]
    rfl
  have hself : s'.place k = .received {wait := w, packet := p, index := s.reads.length} := by
    rw [hs', place_go, if_pos rfl]
  have hview : ∀ j, (s'.place j).sender = (s.place j).sender ∧ (s'.place j).writes = (s.place j).writes ∧
      (s'.place j).found = (s.place j).found := by
    intro j
    by_cases hj : j = k
    · rw [hj, hself, hplace]
      exact ⟨rfl, rfl, rfl⟩
    · rw [hothers j hj]
      exact ⟨rfl, rfl, rfl⟩
  have hother : ∀ {j q}, s'.place j = q → q.holding = none → s.place j = q := by
    intro j q hq hnone
    by_cases hj : j = k
    · rw [hj, hself] at hq
      rw [← hq] at hnone
      cases hnone
    · exact hothers j hj ▸ hq
  -- the packet in hand is the new one, or was there before
  have hholding : ∀ {j g}, (s'.place j).holding = some g →
      (g.packet = p ∧ g.index = s.reads.length ∧ g.stale = false) ∨ (s.place j).holding = some g := by
    intro j g hg
    by_cases hj : j = k
    · rw [hj, hself] at hg
      rw [← Option.some.inj hg]
      exact .inl ⟨rfl, rfl, rfl⟩
    · exact .inr (hothers j hj ▸ hg)
  have hacked : ∀ e, s.Acked e → s'.Acked e := by
    rintro e ⟨n, q, hle, hread, hans⟩
    exact ⟨n, q, hle, hold hread, hlevel ▸ hans⟩
  have hspent : ∀ i, s.Spent i → s'.Spent i := fun i hi e he heid => hacked e (hi e (hsent ▸ he) heid)
  have hunlisted : ∀ j q, s'.Unlisted j q ↔ s.Unlisted j q := fun j q => by simp only [Unlisted, hpend]
  refine ⟨⟨?_, ?_, ?_⟩, ?_, ?_, ?_, ?_, ?_, ?_, ?_, ?_, ?_, ?_, ?_, ?_, ?_, ?_, ?_, ?_, ?_, ?_, ?_, ?_, ?_, ?_⟩
  · rw [hsent, hlevel]
    refine h.unused.imp ?_
    intro e e' hunused heid hid hdup
    obtain ⟨n, q, hle, hlt, hread, hans⟩ := hunused heid hid hdup
    exact ⟨n, q, hle, hlt, hold hread, hans⟩
  · rw [htable]
    exact h.distinct
  · rw [hhits]
    exact h.hit
  · refine sends_keep h hothers hlock fun hk => ?_
    rw [hself] at hk
    cases hk
  · rintro j q (hp | hq)
    · exact h.encodable j q (.inl (hother hp rfl))
    · rw [(hview j).1] at hq
      exact h.encodable j q (.inr hq)
  · intro j q hq
    rw [(hview j).2.1] at hq
    rw [htable]
    exact h.entry j q hq
  · intro j q hq
    rw [(hview j).1] at hq
    rw [htable]
    exact h.owned j q hq
  · intro j q hp hid
    rw [hunlisted]
    exact (h.reserved j q (hother hp rfl) hid).imp_left (hspent _)
  · intro j q hp hid
    exact (h.listed j q (hother hp rfl) hid).imp_left (hspent _)
  · intro j q hp hid t ht hused howner
    rw [htable] at ht
    exact hspent _ (h.refused j q (hother hp rfl) hid t ht hused howner)
  · intro e he hid
    rw [hsent] at he
    rw [htable]
    exact (h.inTable e he hid).imp_left (hacked e)
  · intro t ht hused
    rw [htable] at ht
    rw [hsince]
    simp only [(hview _).1]
    exact h.begun t ht hused
  · intro i m hm
    rw [hsince] at hm
    exact Nat.le_trans (h.sinceLe i m hm) hlen
  · intro e he
    rw [hsent] at he
    exact Nat.le_trans (h.sentLe e he) hlen
  · rw [hpend]
    exact h.objects
  · rw [hpend]
    exact h.kinds
  · intro x hx
    rw [hpend] at hx
    rcases h.pending x hx with ⟨m, hm, hle⟩ | ⟨hnone, q, hq, hid⟩
    · exact .inl ⟨m, hm, Nat.le_trans hle hlen⟩
    · have hj : x.object ≠ k := by
        intro heq
        rw [heq, hplace] at hq
        cases hq
      exact .inr ⟨hnone, q, by rw [hothers _ hj]; exact hq, hid⟩
  · intro j q hp
    rw [hpend]
    exact h.fresh j q (hother hp rfl)
  · intro j g hg
    rw [hlevel]
    rcases hholding hg with ⟨hpacket, hindex, hstale⟩ | hg
    · refine ⟨hstale, hpacket ▸ hdec, ?_⟩
      rw [hpacket, hindex, hreads]
      exact List.getElem?_concat_length
    · obtain ⟨hstale, hd, hread⟩ := h.held j g hg
      exact ⟨hstale, hd, hold hread⟩
  · intro j g hg hends i q hq hid
    rw [hlevel] at hends
    rw [(hview i).1] at hq
    rcases hholding hg with ⟨hpacket, -, -⟩ | hg
    · rw [hpacket] at hends ⊢
      exact hapart hends i q hq hid
    · exact h.apart j g hg hends i q hq hid
  · intro j g hg hends e he hid heid
    rw [hlevel] at hends
    rw [hsent] at he
    rcases hholding hg with ⟨-, hindex, -⟩ | hg
    · rw [hindex]
      exact h.sentLe e he
    · exact h.heldSent j g hg hends e he hid heid
  · intro j g hg hends t ht hused hid
    rw [hlevel] at hends
    rw [htable] at ht
    rw [hsince]
    rcases hholding hg with ⟨hpacket, hindex, -⟩ | hg
    · rw [hpacket] at hends hid
      rcases h.begun t ht hused with hsome | ⟨i, q, hq, hqid, -⟩
      · obtain ⟨m, hm⟩ := Option.isSome_iff_exists.mp hsome
        exact ⟨m, hm, by rw [hindex]; exact h.sinceLe _ m hm⟩
      · exact absurd (hid.symm.trans hqid.symm) (hapart hends i q hq (hqid ▸ hused))
    · exact h.heldEntry j g hg hends t ht hused hid
  · intro j g hg hends x hx hused hid
    rw [hlevel] at hends
    rw [hpend] at hx
    rcases hholding hg with ⟨hpacket, hindex, -⟩ | hg
    · rw [hpacket] at hends hid
      rcases h.pending x hx with ⟨m, hm, hle⟩ | ⟨-, q, hq, hqid⟩
      · exact ⟨m, hm, by rw [hindex]; exact hle⟩
      · exact absurd (hid.symm.trans hqid.symm) (hapart hends _ q (by rw [hq]; rfl) (hqid ▸ hused))
    · exact h.heldPend j g hg hends x hx hused hid
  · intro j g hg hrej t ht hid
    rw [hlevel] at hrej
    rw [htable] at ht
    rcases hholding hg with ⟨hpacket, -, -⟩ | hg
    · rw [hpacket] at hrej hid
      exact hreject hrej t ht hid
    · exact h.heldReject j g hg hrej t ht hid
  · intro j o n hf
    rw [(hview j).2.2] at hf
    rw [hpend]
    exact h.found j o n hf

/-! ### Handling -/

/-- Nothing that is known of Packet Identifiers has changed. -/
structure Known (s s' : Sys) : Prop where
  level : s'.protocolLevel = s.protocolLevel
  table : s'.sendInflight = s.sendInflight
  sent : s'.sent = s.sent
  reads : s'.reads = s.reads
  since : s'.since = s.since
  pend : s'.pendResps = s.pendResps
  hits : s'.hits = s.hits

/-- The call on `k` has got to `p`, and nothing else is known of Packet Identifiers. -/
structure Steps (s s' : Sys) (k : Nat) (p : Place) : Prop extends Known s s' where
  others : ∀ j, j ≠ k → s'.place j = s.place j
  place : s'.place k = p

theorem Steps.go (s₁ : Sys) (p : Place) (htask : s₁.task = s.task) (hkeep : Known s s₁) : Steps s (s₁.go k p) k p where
  level := hkeep.level
  table := hkeep.table
  sent := hkeep.sent
  reads := hkeep.reads
  since := hkeep.since
  pend := hkeep.pend
  hits := hkeep.hits
  others j hj := by rw [place_go, if_neg hj, Sys.place, Sys.place, htask]
  place := by rw [place_go, if_pos rfl]

theorem Steps.abandon (s : Sys) (k : Nat) (r : MsgState) : Steps s (s.abandon k r) k .leaving where
  level := rfl
  table := rfl
  sent := rfl
  reads := rfl
  since := rfl
  pend := rfl
  hits := rfl
  others j hj := by rw [place_abandon, if_neg hj]
  place := by rw [place_abandon, if_pos rfl]

theorem Ids.steps {p : Place} (h : Ids s) (hst : Steps s s' k p) (hsends : ∀ j, (s'.place j).sends → s'.lockSend = some j)
    (hwas : (s.place k).sender = none) (hsender : p.sender = none)
    (hholding : p.holding = none ∨ p.holding = (s.place k).holding)
    (hfound : p.found = none ∨ p.found = (s.place k).found) (hclaimed : ∀ r, p = .claimed r → r.encodable) : Ids s' := by
  refine h.rest (.of_eq h hst.level hst.table hst.sent hst.reads hst.since hst.pend) hst.others hsends hwas ?_ ?_ ?_ ?_ ?_
  · rw [hst.place]
    exact hsender
  · rw [hst.place]
    exact hholding
  · rw [hst.place]
    exact hfound
  · intro r hr
    exact hclaimed r (hst.place ▸ hr)
  · intro x hx
    rw [hst.hits] at hx
    exact .inl hx

/-- A step of a reader, which has nothing to do with `lockSend`. -/
theorem Ids.reads_on {p : Place} (h : Ids s) (hst : Steps s s' k p) (hlock : s'.lockSend = s.lockSend)
    (hwas : (s.place k).sender = none) (hsends : p.sends = false) (hsender : p.sender = none)
    (hholding : p.holding = none ∨ p.holding = (s.place k).holding)
    (hfound : p.found = none ∨ p.found = (s.place k).found) : Ids s' := by
  refine h.steps hst (sends_keep h hst.others hlock fun hk => ?_) hwas hsender hholding hfound fun r hr => ?_
  · rw [hst.place, hsends] at hk
    cases hk
  · rw [hr] at hsends
    cases hsends

theorem decode_kept (s : Sys) (g : Hold) : (s.decode g).place = s.place ∧ (s.decode g).lockSend = s.lockSend := by
  unfold Sys.decode
  split
  · exact ⟨rfl, rfl⟩
  · exact ⟨rfl, rfl⟩

theorem Ids.look {g : Hold} (h : Ids s) (hplace : s.place k = .received g) : Ids ((s.decode g).go k (.looked g)) := by
  have hd := h.decode (k := k) (g := g) (by rw [hplace]; rfl)
  have hpl : (s.decode g).place k = .received g := by rw [(decode_kept s g).1, hplace]
  refine hd.reads_on (k := k) (.go _ _ rfl ⟨rfl, rfl, rfl, rfl, rfl, rfl, rfl⟩) rfl ?_ rfl rfl ?_ (.inl rfl)
  · rw [hpl]; rfl
  · rw [hpl]; exact .inr rfl

/-- The pending response of an acknowledgement is of an exchange that had begun. -/
theorem Ids.locate {g : Hold} (h : Ids s) (hplace : s.place k = .looked g) :
    Ids (s.go k (.located g (s.locate k g))) := by
  have hst : Steps s (s.go k (.located g (s.locate k g))) k _ := .go s _ rfl ⟨rfl, rfl, rfl, rfl, rfl, rfl, rfl⟩
  have hheld : (s.place k).holding = some g := by rw [hplace]; rfl
  refine h.calm (.of_eq h rfl rfl rfl rfl rfl rfl) ?_ ?_ ?_ ?_ ?_ ?_ fun x hx => .inl hx
  · refine sends_keep h hst.others rfl fun hk => ?_
    rw [hst.place] at hk
    cases hk
  · intro j r hr
    by_cases hj : j = k
    · rw [hj, hst.place] at hr
      cases hr
    · exact .inl (hst.others j hj ▸ hr)
  · intro j r
    by_cases hj : j = k
    · rw [hj, hst.place, hplace]
      exact Iff.rfl
    · rw [hst.others j hj]
  · intro j r hr
    by_cases hj : j = k
    · rw [hj, hst.place] at hr
      cases hr
    · exact hst.others j hj
  · intro j g' hg'
    by_cases hj : j = k
    · rw [hj, hst.place] at hg'
      rw [hj, hplace]
      exact hg'
    · exact hst.others j hj ▸ hg'
  · intro j o n hf x hx hobj hused
    by_cases hj : j = k
    · rw [hj, hst.place] at hf
      obtain ⟨o', ho', heq⟩ := Option.map_eq_some_iff.mp hf
      obtain ⟨rfl, rfl⟩ := Prod.mk.inj heq
      obtain ⟨hstale, -, -⟩ := h.held k g hheld
      simp only [Sys.locate, hstale, Bool.false_eq_true, if_false] at ho'
      obtain ⟨x₀, hx₀, rfl⟩ := Option.map_eq_some_iff.mp ho'
      have hmatch := List.find?_some hx₀
      simp only [Bool.and_eq_true, decide_eq_true_eq] at hmatch
      have hxx : x = x₀ := List.inj_on_of_nodup_map h.objects hx (List.mem_of_find?_eq_some hx₀) hobj
      rw [← hxx] at hmatch
      refine h.heldPend k g hheld ?_ x hx hused hmatch.2
      rw [Incoming.ends, ← hmatch.1, h.kinds x hx hused, Bool.true_or]
    · exact h.found j o n (hst.others j hj ▸ hf) x hx hobj hused

theorem Ids.handle {g : Hold} {f : Found} {cb : Option UInt8} (h : Ids s) (hplace : s.place k = .located g f) :
    Ids (s.handle k g f cb) := by
  have hd := h.decode (k := k) (g := g) (by rw [hplace]; rfl)
  have hpl : (s.decode g).place k = .located g f := by rw [(decode_kept s g).1, hplace]
  have hgo : ∀ (s₁ : Sys) (ack : Option Ack), s₁.task = (s.decode g).task → s₁.lockSend = (s.decode g).lockSend →
      Known (s.decode g) s₁ → Ids (s₁.go k (.handled g f ack)) := by
    intro s₁ ack htask hlock hkeep
    refine hd.reads_on (k := k) (.go s₁ _ htask hkeep) hlock ?_ rfl rfl (.inl rfl) (.inr ?_)
    · rw [hpl]; rfl
    · rw [hpl]; rfl
  unfold Sys.handle
  dsimp only
  split
  case h_1 =>
    unfold Sys.handlePublish
    split
    · refine hd.reads_on (k := k) (.abandon _ k _) rfl ?_ rfl rfl (.inl rfl) (.inl rfl)
      rw [hpl]; rfl
    · split
      · exact hgo _ none rfl rfl ⟨rfl, rfl, rfl, rfl, rfl, rfl, rfl⟩
      · exact hgo {s.decode g with accepted := _} _ rfl rfl ⟨rfl, rfl, rfl, rfl, rfl, rfl, rfl⟩
      · exact hgo {s.decode g with recvQos2 := _, accepted := _} _ rfl rfl ⟨rfl, rfl, rfl, rfl, rfl, rfl, rfl⟩
  case h_2 =>
    split
    · refine hd.reads_on (k := k) (.go _ _ rfl ⟨rfl, rfl, rfl, rfl, rfl, rfl, rfl⟩) rfl ?_ rfl rfl (.inr ?_) (.inl rfl)
      · rw [hpl]; rfl
      · rw [hpl]; rfl
    · exact hgo {s.decode g with accepted := _} _ rfl rfl ⟨rfl, rfl, rfl, rfl, rfl, rfl, rfl⟩
  case h_3 => exact hgo {s.decode g with recvQos2 := _, accepted := _} _ rfl rfl ⟨rfl, rfl, rfl, rfl, rfl, rfl, rfl⟩
  case h_4 => exact hgo {s.decode g with rxBuf := none} none rfl rfl ⟨rfl, rfl, rfl, rfl, rfl, rfl, rfl⟩
  case h_5 => exact hgo _ none rfl rfl ⟨rfl, rfl, rfl, rfl, rfl, rfl, rfl⟩

/-! ### Completing -/

theorem mem_markDone {pend : List PendResp} {o : Nat} {rc : Int} {x' : PendResp} (hx' : x' ∈ markDone pend o rc) :
    ∃ x ∈ pend, x'.object = x.object ∧ x'.packetId = x.packetId ∧ x'.packetType = x.packetType ∧ x'.since = x.since := by
  obtain ⟨x, hx, rfl⟩ := List.mem_map.mp hx'
  refine ⟨x, hx, ?_⟩
  split
  · exact ⟨rfl, rfl, rfl, rfl⟩
  · exact ⟨rfl, rfl, rfl, rfl⟩

theorem objects_markDone (pend : List PendResp) (o : Nat) (rc : Int) :
    (markDone pend o rc).map PendResp.object = pend.map PendResp.object := by
  rw [markDone, List.map_map]
  refine List.map_congr_left fun x _ => ?_
  rw [Function.comp_apply]
  split <;> rfl

theorem Calm.marked (h : Ids s) (o : Nat) (rc : Int) (hits : List Hit) (p : Place) :
    Calm s (Sys.go {s with pendResps := markDone s.pendResps o rc, hits} k p) where
  level := rfl
  table := rfl
  sent := rfl
  reads := rfl
  since := rfl
  objects := by
    show ((markDone s.pendResps o rc).map PendResp.object).Nodup
    rw [objects_markDone]
    exact h.objects
  pend _ hx' := mem_markDone hx'

theorem Ids.reject {g : Hold} (h : Ids s) (hplace : s.place k = .rejecting g) (hrej : g.packet.rejects s.protocolLevel) :
    Ids (s.reject k g) := by
  have hheld : (s.place k).holding = some g := by rw [hplace]; rfl
  obtain ⟨-, hdec, -⟩ := h.held k g hheld
  unfold Sys.reject
  split
  case h_1 =>
    refine h.reads_on (k := k) (.go s _ rfl ⟨rfl, rfl, rfl, rfl, rfl, rfl, rfl⟩) rfl ?_ rfl rfl (.inr ?_) (.inl rfl)
    · rw [hplace]; rfl
    · rw [hplace]; rfl
  case h_2 x hx =>
    have hothers : ∀ (s₁ : Sys) (p : Place), s₁.task = s.task → ∀ j, j ≠ k → (s₁.go k p).place j = s.place j := by
      intro s₁ p htask j hj
      rw [place_go, if_neg hj, Sys.place, Sys.place, htask]
    have hmatch := List.find?_some hx
    simp only [Bool.and_eq_true, decide_eq_true_eq] at hmatch
    refine h.rest (k := k) (.marked h x.object _ _ _) (hothers _ _ rfl) (sends_keep h (hothers _ _ rfl) rfl ?_) ?_ ?_ (.inr ?_)
      (.inl ?_) ?_ ?_
    · rw [place_go, if_pos rfl]
      exact fun hk => by cases hk
    · rw [hplace]; rfl
    · rw [place_go, if_pos rfl]; rfl
    · rw [place_go, if_pos rfl, hplace]; rfl
    · rw [place_go, if_pos rfl]; rfl
    · intro r hr
      rw [place_go, if_pos rfl] at hr
      cases hr
    · intro y hy
      rcases List.mem_append.mp hy with hold | hnew
      · exact .inl hold
      · rw [List.mem_singleton.mp hnew]
        refine .inr (h.heldPend k g hheld ?_ x (List.mem_of_find?_eq_some hx) ?_ hmatch.2)
        · rw [Incoming.ends, hrej, Bool.or_true]
        · rw [hmatch.2]
          exact rejects_id hdec hrej

theorem Ids.complete {g : Hold} {f : Found} {ack : Option Ack} (h : Ids s) (hplace : s.place k = .handled g f ack) :
    Ids (s.complete k g f ack) := by
  have hothers : ∀ (s₁ : Sys) (p : Place), s₁.task = s.task → ∀ j, j ≠ k → (s₁.go k p).place j = s.place j := by
    intro s₁ p htask j hj
    rw [place_go, if_neg hj, Sys.place, Sys.place, htask]
  have hhits : ∀ y ∈ s.hits ++ (s.pendResps.filter (fun x => f.pend = some x.object && x.packetId ≠ 0)).map
      (fun x : PendResp => Hit.mk x.since g.index), y ∈ s.hits ∨ ∃ m, y.since = some m ∧ m ≤ y.index := by
    intro y hy
    refine (List.mem_append.mp hy).imp_right fun hnew => ?_
    obtain ⟨x, hx, rfl⟩ := List.mem_map.mp hnew
    obtain ⟨hmem, hcond⟩ := List.mem_filter.mp hx
    simp only [Bool.and_eq_true, decide_eq_true_eq] at hcond
    refine h.found k x.object g.index ?_ x hmem rfl hcond.2
    rw [hplace, Place.found, hcond.1]
    rfl
  have hcalm : ∀ pend hits, (pend = s.pendResps ∨ ∃ o rc, pend = markDone s.pendResps o rc) →
      Calm s (Sys.go {s with pendResps := pend, hits} k (.completed g f ack)) := by
    rintro pend hits (rfl | ⟨o, rc, rfl⟩)
    · exact .of_eq h rfl rfl rfl rfl rfl rfl
    · exact .marked h o rc hits _
  unfold Sys.complete
  refine h.rest (k := k) (hcalm _ _ ?_) (hothers _ _ rfl) (sends_keep h (hothers _ _ rfl) rfl ?_) ?_ ?_ (.inl ?_) (.inl ?_) ?_ hhits
  · cases f.pend with
    | none => exact .inl rfl
    | some o => exact .inr ⟨o, _, rfl⟩
  · rw [place_go, if_pos rfl]
    exact fun hk => by cases hk
  · rw [hplace]; rfl
  · rw [place_go, if_pos rfl]; rfl
  · rw [place_go, if_pos rfl]; rfl
  · rw [place_go, if_pos rfl]; rfl
  · intro r hr
    rw [place_go, if_pos rfl] at hr
    cases hr

/-- An entry leaves the list of pending responses. -/
theorem Ids.unlist {p : Place} (h : Ids s) (o : Nat) (hwas : (s.place k).sender = none) (hp : p.sender = none ∧ p.holding = none ∧
    p.found = none ∧ p.sends = false) : Ids (Sys.go {s with pendResps := respListRemove s.pendResps o} k p) := by
  obtain ⟨hsender, hholding, hfound, hsends⟩ := hp
  have hothers : ∀ j, j ≠ k → (Sys.go {s with pendResps := respListRemove s.pendResps o} k p).place j = s.place j := by
    intro j hj
    rw [place_go, if_neg hj]
    rfl
  refine h.rest (k := k) ⟨rfl, rfl, rfl, rfl, rfl, ?_, ?_⟩ hothers (sends_keep h hothers rfl ?_) hwas ?_ (.inl ?_) (.inl ?_) ?_
    fun x hx => .inl hx
  · exact (h.objects.sublist (List.filter_sublist.map _))
  · intro x hx
    exact ⟨x, (List.mem_filter.mp hx).1, rfl, rfl, rfl, rfl⟩
  · rw [place_go, if_pos rfl, hsends]
    exact fun hk => by cases hk
  · rw [place_go, if_pos rfl, hsender]
  · rw [place_go, if_pos rfl, hholding]
  · rw [place_go, if_pos rfl, hfound]
  · intro r hr
    rw [place_go, if_pos rfl] at hr
    rw [hr] at hsends
    cases hsends

/-! ### Runs -/

theorem ids_start (level txLen sends recvs : Nat) : Ids (start level txLen sends recvs) where
  unused := List.Pairwise.nil
  distinct := Slots.Distinct.replicate sends rfl
  hit := by intro x hx; cases hx
  sends := by intro k hk; cases hk
  encodable := by rintro k r (hk | hk) <;> cases hk
  entry := by intro k r hk; cases hk
  owned := by intro k r hk; cases hk
  reserved := by intro k r hk; cases hk
  listed := by intro k r hk; cases hk
  refused := by intro k r hk; cases hk
  inTable := by intro e he; cases he
  begun := by
    intro t ht hused
    rw [List.eq_of_mem_replicate ht] at hused
    exact absurd rfl hused
  sinceLe := by intro i m hm; cases hm
  sentLe := by intro e he; cases he
  objects := List.nodup_nil
  kinds := by intro x hx; cases hx
  pending := by intro x hx; cases hx
  fresh := by intro k r hk; cases hk
  held := by intro j h hj; cases hj
  apart := by intro j h hj; cases hj
  heldSent := by intro j h hj; cases hj
  heldEntry := by intro j h hj; cases hj
  heldPend := by intro j h hj; cases hj
  heldReject := by intro j h hj; cases hj
  found := by intro j o n hj; cases hj

theorem releaseOwner_idle {ids : List MqttSendId} {o : Owner} (h : ∀ t ∈ ids, t.packetId ≠ 0 → t.owner ≠ some o) :
    SendIds.releaseOwner ids o = ids := by
  unfold SendIds.releaseOwner
  conv_rhs => rw [← List.map_id ids]
  refine List.map_congr_left fun t ht => ?_
  rw [if_neg fun hc => h t ht hc.1 hc.2, id]

/-- A step of a call that gives `lockSend` back, or takes it. -/
theorem Ids.steps_on {p : Place} (h : Ids s) (hst : Steps s s' k p) (hsends : ∀ j, (s'.place j).sends → s'.lockSend = some j)
    (hwas : (s.place k).sender = none) (hp : p.sender = none ∧ p.holding = none ∧ p.found = none)
    (hclaimed : ∀ r, p = .claimed r → r.encodable) : Ids s' :=
  h.steps hst hsends hwas hp.1 (.inl hp.2.1) (.inl hp.2.2) hclaimed

theorem sends_take (h : Ids s) (hfree : s.lockSend = none) (hothers : ∀ j, j ≠ k → s'.place j = s.place j)
    (hlock : s'.lockSend = some k) : ∀ j, (s'.place j).sends → s'.lockSend = some j := by
  intro j hj
  by_cases hjk : j = k
  · rw [hjk, hlock]
  · have hheld := h.sends j (hothers j hjk ▸ hj)
    rw [hfree] at hheld
    cases hheld

theorem Ids.resume {w : Wait} (h : Ids s) (hplace : s.place k = .waiting w) (hread : (s.task k).read = .ack)
    (hack : (s.task k).ack = .begin) : Ids (s.resume k w) := by
  unfold Sys.resume
  rw [hread, hack]
  refine h.reads_on (k := k) (p := .waiting w) ⟨⟨rfl, rfl, rfl, rfl, rfl, rfl, rfl⟩, fun j hj => ?_, ?_⟩ rfl
    (by rw [hplace]; rfl) rfl rfl (.inl rfl) (.inl rfl)
  · rw [place_set, if_neg hj]
  · rw [place_set, if_pos rfl]
    exact hplace

theorem Ids.stage {g : Hold} {f : Found} {ack : Option Ack} (h : Ids s) (hplace : s.place k = .completed g f ack) :
    Ids (s.stage k g f ack) := by
  have hset : ∀ t : Task, t.place.sends = false → t.place.sender = none → t.place.holding = none → t.place.found = none →
      Ids ((s.unlockRecv k).set k t) := by
    intro t hsends hsender hholding hfound
    refine h.reads_on (k := k) (p := t.place) ⟨⟨rfl, rfl, rfl, rfl, rfl, rfl, rfl⟩, fun j hj => ?_, ?_⟩ rfl
      (by rw [hplace]; rfl) hsends hsender (.inl hholding) (.inl hfound)
    · rw [place_set, if_neg hj]
      rfl
    · rw [place_set, if_pos rfl]
  cases ack with
  | some a =>
    simp only [Sys.stage]
    split
    · exact hset _ rfl rfl rfl rfl
    · exact hset _ rfl rfl rfl rfl
  | none =>
    simp only [Sys.stage]
    split
    · exact hset _ rfl rfl rfl rfl
    · exact hset _ rfl rfl rfl rfl

theorem Ids.sendAck {g : Hold} {m : Bool} {ack : Ack} (h : Ids s) (hplace : s.place k = .acking g m ack) :
    Ids (s.sendAck k g m ack) := by
  have hset : ∀ (s₁ : Sys) (t : Task), Known s s₁ → s₁.task = s.task → s₁.lockSend = (s.unlockSend k).lockSend →
      t.place.sends = false → t.place.sender = none → t.place.holding = none → t.place.found = none → Ids (s₁.set k t) := by
    intro s₁ t hkeep htask hlock hsends hsender hholding hfound
    have hothers : ∀ j, j ≠ k → (s₁.set k t).place j = s.place j := by
      intro j hj
      rw [place_set, if_neg hj, place_of_task htask]
    have hself : (s₁.set k t).place k = t.place := by rw [place_set, if_pos rfl]
    refine h.steps_on (k := k) (p := t.place) ⟨⟨hkeep.level, hkeep.table, hkeep.sent, hkeep.reads, hkeep.since, hkeep.pend,
      hkeep.hits⟩, hothers, hself⟩ (sends_unlock h hothers hlock (by rw [hself]; exact hsends)) (by rw [hplace]; rfl)
      ⟨hsender, hholding, hfound⟩ fun r hr => ?_
    rw [hr] at hsends
    cases hsends
  unfold Sys.sendAck
  dsimp only
  split
  · cases m
    · exact hset {s.unlockSend k with acked := _} _ ⟨rfl, rfl, rfl, rfl, rfl, rfl, rfl⟩ rfl rfl rfl rfl rfl rfl
    · exact hset {s.unlockSend k with acked := _} _ ⟨rfl, rfl, rfl, rfl, rfl, rfl, rfl⟩ rfl rfl rfl rfl rfl rfl
  · exact hset (s.unlockSend k) _ ⟨rfl, rfl, rfl, rfl, rfl, rfl, rfl⟩ rfl rfl rfl rfl rfl rfl

theorem Ids.cancels {ids : List MqttSendId} (h : Ids {s with sendInflight := ids}) (hwas : (s.place k).sender = none) :
    Ids (Sys.set {s with sendInflight := ids} k {s.task k with place := .leaving, read := .begin}) := by
  refine h.reads_on (k := k) (p := .leaving) ⟨⟨rfl, rfl, rfl, rfl, rfl, rfl, rfl⟩, fun j hj => ?_, ?_⟩ rfl hwas rfl rfl
    (.inl rfl) (.inl rfl)
  · rw [place_set, if_neg hj]
  · rw [place_set, if_pos rfl]

theorem Ids.step {ka : Nat × Act} (h : Ids s) (hrejecting : s.Rejecting) (hgood : s.IdsApart ka)
    (hstep : s.stepOf ka = some s') : Ids s' := by
  obtain ⟨k, a⟩ := ka
  cases step_cases hstep with
  | @send r hplace hfree henc =>
    have hst : Steps s (Sys.go {s with lockSend := some k} k (.claimed r)) k _ := .go _ _ rfl ⟨rfl, rfl, rfl, rfl, rfl, rfl, rfl⟩
    exact h.steps_on hst (sends_take h hfree hst.others rfl) (by rw [hplace]; rfl) ⟨rfl, rfl, rfl⟩ fun q hq =>
      Place.claimed.inj hq ▸ henc
  | wait hplace =>
    exact h.reads_on (k := k) (.go s _ rfl ⟨rfl, rfl, rfl, rfl, rfl, rfl, rfl⟩) rfl (by rw [hplace]; rfl) rfl rfl (.inl rfl)
      (.inl rfl)
  | answered hplace => exact h.unlist _ (by rw [hplace]; rfl) ⟨rfl, rfl, rfl, rfl⟩
  | resume hplace => exact h.resume hplace hgood.1 hgood.2
  | lock hplace hfree =>
    exact h.reads_on (k := k) (.go {s with lockRecv := _} _ rfl ⟨rfl, rfl, rfl, rfl, rfl, rfl, rfl⟩) rfl (by rw [hplace]; rfl)
      rfl rfl (.inl rfl) (.inl rfl)
  | read hplace hp => exact h.read hplace hp hgood.1 hgood.2
  | fails hplace => exact h.reads_on (k := k) (.abandon s k _) rfl (by rw [hplace]; rfl) rfl rfl (.inl rfl) (.inl rfl)
  | reserve hplace => exact h.reserve hplace (hgood.1 _ hplace)
  | list hplace => exact h.list hplace (hgood.2 _ hplace)
  | write hplace => exact h.write hplace
  | giveUp hplace => exact h.giveUp hplace
  | look hplace => exact h.look hplace
  | locate hplace => exact h.locate hplace
  | handle hplace => exact h.handle hplace
  | reject hplace => exact h.reject hplace (hrejecting k _ (.inl hplace))
  | @giveBack g cb hplace =>
    have hrej := hrejecting k g (.inr hplace)
    have hr : Ids (s.release g none) :=
      h.release (k := k) (by rw [hplace]; rfl) (by rw [Incoming.ends, hrej, Bool.or_true]) (.inr ⟨rfl, hrej⟩)
    exact hr.reads_on (k := k) (.abandon _ k _) rfl (show (s.place k).sender = none by rw [hplace]; rfl) rfl rfl (.inl rfl)
      (.inl rfl)
  | complete hplace => exact h.complete hplace
  | stage hplace => exact h.stage hplace
  | @claimAck g m ack cb hplace hfree =>
    have hst : Steps s (Sys.go {s with lockSend := some k} k (.acking g m ack)) k _ :=
      .go _ _ rfl ⟨rfl, rfl, rfl, rfl, rfl, rfl, rfl⟩
    exact h.steps_on hst (sends_take h hfree hst.others rfl) (by rw [hplace]; rfl) ⟨rfl, rfl, rfl⟩ fun q hq => by cases hq
  | sendAck hplace => exact h.sendAck hplace
  | leave hplace => exact h.unlist _ (by rw [hplace]; rfl) ⟨rfl, rfl, rfl, rfl⟩
  | @cancel w hplace =>
    cases w with
    | some r => exact (h.disown hplace).cancels (by rw [hplace]; rfl)
    | none =>
      refine Ids.cancels ?_ (by rw [hplace]; rfl)
      rw [if_neg (by decide), releaseOwner_idle (hgood fun r => by rw [hplace]; rintro ⟨⟩)]
      exact h
  | cancelIdle hplace =>
    refine Ids.cancels ?_ (by rw [hplace]; rfl)
    rw [if_neg (by decide), releaseOwner_idle (hgood fun r => by rw [hplace]; rintro ⟨⟩)]
    exact h
  | auth =>
    exact h.calm (.of_eq h rfl rfl rfl rfl rfl rfl) h.sends (fun _ _ hp => .inl hp) (fun _ _ => Iff.rfl) (fun _ _ _ => rfl)
      (fun _ _ hg => hg) h.found fun x hx => .inl hx

/-- A PUBLISH of QoS 1 up to the wait for its PUBACK. -/
def sendsPublish (packetId : Nat) : List Act :=
  [.send {ackType := .publishAck, packetId}, .next none, .next none, .next none]

/-- A step that keeps identifiers apart, as far as the calls are on `ks`; none that cancels passes. -/
def checkApart (ks : List Nat) (s : Sys) (ka : Nat × Act) : Bool :=
  ks.contains ka.1 &&
    match ka.2 with
    | .next _ =>
      match s.place ka.1 with
      | .claimed r =>
        ks.all (fun j => (s.place j).holding.all fun h => h.packet.packetId ≠ r.packetId) &&
          (SendIds.find s.sendInflight 0).isSome && !r.duplicate &&
          s.sendInflight.all fun t => t.owner ≠ some (.object ka.1) || t.packetId = r.packetId
      | .reserved _ => ks.all fun j => (s.place j).found.all fun x => x.1 ≠ ka.1
      | _ => true
    | .read p => ks.all (fun j => (s.place j).sender.all fun r => p.packetId ≠ r.packetId) && !p.rejects s.protocolLevel
    | .resume => (s.task ka.1).read = .ack && (s.task ka.1).ack = .begin
    | .cancel => false
    | _ => true

theorem Only.idsApart {ks : List Nat} {s : Sys} {ka : Nat × Act} (h : s.Only ks) (hcheck : checkApart ks s ka) : s.IdsApart ka := by
  obtain ⟨k, a⟩ := ka
  obtain ⟨-, hcheck⟩ := Bool.and_eq_true_iff.mp hcheck
  cases a with
  | next cb =>
    refine ⟨fun r hr _ => ?_, fun r hr j o n hfound => ?_⟩
    · dsimp only at hr hcheck
      rw [hr] at hcheck
      simp only [Bool.and_eq_true, Bool.not_eq_true'] at hcheck
      obtain ⟨⟨⟨hapart, hroom⟩, hnew⟩, hown⟩ := hcheck
      refine ⟨fun j g hg _ => ?_, .inr hroom, fun t ht _ howner => ?_, fun hdup => ?_⟩
      · have hj := h.all_places (P := fun p => p.holding.all fun h => h.packet.packetId ≠ r.packetId) rfl hapart j
        simp only [hg, Option.all_some, decide_eq_true_eq] at hj
        exact hj
      · have ht := List.all_eq_true.mp hown t ht
        simpa [howner] using ht
      · rw [hnew] at hdup
        cases hdup
    · dsimp only at hr hcheck
      rw [hr] at hcheck
      have hj := h.all_places (P := fun p => p.found.all fun x => x.1 ≠ k) rfl hcheck j
      simp only [hfound, Option.all_some, decide_eq_true_eq] at hj
      exact hj
  | read p =>
    obtain ⟨hsender, hrejects⟩ := Bool.and_eq_true_iff.mp hcheck
    refine ⟨fun _ j r hr _ => ?_, fun hrej => ?_⟩
    · have hj := h.all_places (P := fun q => q.sender.all fun r => p.packetId ≠ r.packetId) rfl hsender j
      simp only [hr, Option.all_some, decide_eq_true_eq] at hj
      exact hj
    · rw [hrej] at hrejects
      cases hrejects
  | resume =>
    obtain ⟨hread, hack⟩ := Bool.and_eq_true_iff.mp hcheck
    exact ⟨of_decide_eq_true hread, of_decide_eq_true hack⟩
  | cancel => cases hcheck
  | _ => exact True.intro

/-- What a reader does for a PUBACK. -/
def readsPubAck (packetId : Nat) : List Act :=
  [.lock, .read {packetType := .publishAck, packetId}, .next none, .next none, .next none, .next none, .next none]

end Sys
end Threads
end WolfMqtt
