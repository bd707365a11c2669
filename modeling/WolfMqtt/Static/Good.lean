import WolfMqtt.Static.CarrierInv
import WolfMqtt.Static.Serve

/-! The invariant of the static-memory broker.

Carriers are sound and belong to different sessions, and so do connections. A
connection that is up is paced in one of two ways: what it has outstanding is in flight
in its carrier, or stands in its own table when it has none. While a CONNECT is handled
its own connection and the one it takes over share a client id and nothing is known of
how they are paced; `Good` names the slots that are exempt. -/
namespace WolfMqtt.Static
open Broker Row

/-! ### Pacing -/

/-- The table of a connection, as identifiers with their QoS. -/
def StaticClient.table (c : StaticClient) : List (Nat × QoS) := c.outInflight.map (fun x => (x.packetId, x.qos))

/-- The connection is fed from a carrier. -/
structure Held (L : StaticLimits) (c : StaticClient) (o : Carrier) : Prop where
  owner : c.clientId = some o.clientId
  nodup : c.unacked.Nodup
  sent : c.unacked ⊆ sentPairs o
  /-- The window is kept from the first message sent on this connection. -/
  window : c.unacked = [] ∨ o.outQInflight ≤ c.clientReceiveMax ∧ o.outQInflight ≤ L.maxInflightPerSub

/-- The connection is sent its messages directly. -/
structure Direct (L : StaticLimits) (c : StaticClient) : Prop where
  nodup : c.unacked.Nodup
  nonzero : ∀ p ∈ c.unacked, p.1 ≠ 0
  sent : c.unacked ⊆ c.table
  size : c.outInflight.length = L.maxInflightPerSub

/-- A connection that is up, with the carriers there are. -/
inductive Paced (L : StaticLimits) (carriers : List Carrier) (c : StaticClient) : Prop
  | held {o : Carrier} (mem : o ∈ carriers) (held : Held L c o)
  | direct (none : ∀ o ∈ carriers, c.clientId ≠ some o.clientId) (direct : Direct L c)

/-- A connection before its CONNECT. -/
structure Fresh (L : StaticLimits) (c : StaticClient) : Prop where
  clientId : c.clientId = none
  unacked : c.unacked = []
  size : c.outInflight.length = L.maxInflightPerSub

/-- What holds of a connection outside its CONNECT. -/
structure Served (L : StaticLimits) (carriers : List Carrier) (c : StaticClient) : Prop where
  receiveMax : c.connected = true → c.clientReceiveMax ≠ 0
  paced : c.connected = true → Paced L carriers c
  fresh : c.connected = false → c.sockOpen = true → Fresh L c

/-- The invariant, but for what the slots in `X` are served. -/
structure Good (L : StaticLimits) (X : List Nat) (b : StaticBroker) : Prop where
  carriers : ∀ o ∈ b.carriers, CarrierOk L o
  distinct : (b.carriers.map (·.clientId)).Nodup
  next : b.nextPacketId ≤ 65535
  fits : ∀ i c, b.client? i = some c → ∀ id, c.clientId = some id → id.take (L.maxClientIdLen - 1) = id
  apart : ∀ i j c d, b.client? i = some c → b.client? j = some d → i ≠ j → c.clientId = d.clientId →
    c.clientId = none ∨ i ∈ X ∧ j ∈ X
  served : ∀ i c, b.client? i = some c → i ∉ X → Served L b.carriers c

/-! ### Slots -/

section slots
variable {b : StaticBroker} {i j : Nat} {c d : StaticClient}

theorem mem_carriers {o : Carrier} : o ∈ b.carriers ↔ some o ∈ b.orphans := by
  simp [StaticBroker.carriers]

theorem client?_setClient_self {x : Option StaticClient} (h : b.client? i = some c) : (b.setClient i x).client? i = x := by
  have hi : i < b.clients.length := by
    by_contra hle
    have hnone : b.clients[i]? = none := List.getElem?_eq_none (by omega)
    rw [StaticBroker.client?, hnone] at h
    cases h
  show ((b.clients.set i x)[i]?).join = x
  rw [List.getElem?_set_self hi]
  rfl

theorem client?_setClient_ne {x : Option StaticClient} (h : j ≠ i) : (b.setClient i x).client? j = b.client? j := by
  show ((b.clients.set i x)[j]?).join = _
  rw [List.getElem?_set_ne (Ne.symm h)]
  rfl

/-- A connection after a slot was written is the one written, or an old one. -/
theorem client?_setClient {x : Option StaticClient} (h : (b.setClient i x).client? j = some d) :
    (j = i ∧ x = some d) ∨ (j ≠ i ∧ b.client? j = some d) := by
  by_cases hj : j = i
  · subst hj
    refine .inl ⟨rfl, ?_⟩
    have hset : ((b.clients.set j x)[j]?).join = some d := h
    rw [List.getElem?_set] at hset
    split at hset
    · split at hset
      · exact hset
      · cases hset
    · exact absurd rfl ‹_›
  · exact .inr ⟨hj, client?_setClient_ne hj ▸ h⟩

end slots

/-! ### Carriers change -/

/-- No connection that is up, outside `X`, belongs to this session. -/
def Unwatched (X : List Nat) (b : StaticBroker) (clientId : Bytes) : Prop :=
  ∀ i c, b.client? i = some c → i ∉ X → c.connected = true → c.clientId ≠ some clientId

/-- What may happen to a slot of the carriers: what is in flight for a connection that is up does
not change. -/
inductive SlotMove (L : StaticLimits) (X : List Nat) (b : StaticBroker) : Option Carrier → Option Carrier → Prop
  | empty : SlotMove L X b none none
  | calm {o o' : Carrier} (h : Calm L o o') : SlotMove L X b (some o) (some o')
  | lost {o : Carrier} (h : Unwatched X b o.clientId) : SlotMove L X b (some o) none
  | changed {o o' : Carrier} (h : Preserves L o o') (hun : Unwatched X b o.clientId) : SlotMove L X b (some o) (some o')

section moves
variable {L : StaticLimits} {X : List Nat} {b : StaticBroker} {s s' : Option Carrier} {orphans' : List (Option Carrier)}

theorem SlotMove.refl (s : Option Carrier) : SlotMove L X b s s := by
  cases s with
  | none => exact .empty
  | some o => exact .calm .refl

theorem SlotMove.some {o' : Carrier} (h : SlotMove L X b s (some o')) : ∃ o, s = some o ∧ Preserves L o o' := by
  cases h with
  | calm h => exact ⟨_, rfl, h.toPreserves⟩
  | changed h _ => exact ⟨_, rfl, h⟩

theorem slotMoves_ids {orphans : List (Option Carrier)} (hm : List.Forall₂ (SlotMove L X b) orphans orphans') :
    ((orphans'.filterMap id).map (·.clientId)).Sublist ((orphans.filterMap id).map (·.clientId)) := by
  induction hm with
  | nil => exact List.Sublist.refl _
  | cons h _ ih =>
    cases h with
    | empty => exact ih
    | calm h =>
      show ((_ :: _ : List Carrier).map _).Sublist ((_ :: _ : List Carrier).map _)
      rw [List.map_cons, List.map_cons, h.clientId]
      exact ih.cons_cons _
    | lost _ => exact ih.cons _
    | changed h _ =>
      show ((_ :: _ : List Carrier).map _).Sublist ((_ :: _ : List Carrier).map _)
      rw [List.map_cons, List.map_cons, h.clientId]
      exact ih.cons_cons _

theorem slotMoves_mem {orphans : List (Option Carrier)} (hm : List.Forall₂ (SlotMove L X b) orphans orphans')
    {s' : Option Carrier} (hs : s' ∈ orphans') : ∃ s ∈ orphans, SlotMove L X b s s' := by
  induction hm with
  | nil => cases hs
  | cons h _ ih =>
    rcases List.mem_cons.mp hs with rfl | hs
    · exact ⟨_, List.mem_cons_self, h⟩
    · obtain ⟨s, hmem, hmove⟩ := ih hs
      exact ⟨s, List.mem_cons_of_mem _ hmem, hmove⟩

theorem slotMoves_mem_left {orphans : List (Option Carrier)} (hm : List.Forall₂ (SlotMove L X b) orphans orphans')
    {s : Option Carrier} (hs : s ∈ orphans) : ∃ s' ∈ orphans', SlotMove L X b s s' := by
  induction hm with
  | nil => cases hs
  | cons h _ ih =>
    rcases List.mem_cons.mp hs with rfl | hs
    · exact ⟨_, List.mem_cons_self, h⟩
    · obtain ⟨s', hmem, hmove⟩ := ih hs
      exact ⟨s', List.mem_cons_of_mem _ hmem, hmove⟩

theorem Held.calm {c : StaticClient} {o o' : Carrier} (h : Held L c o) (hok : CarrierOk L o) (hcalm : Calm L o o') :
    Held L c o' := by
  refine ⟨hcalm.clientId ▸ h.owner, h.nodup, ?_, ?_⟩
  · rw [hcalm.sent hok]
    exact h.sent
  · rw [hcalm.inflight]
    exact h.window

/-- The invariant survives what may happen to the carriers. -/
theorem Good.slots (h : Good L X b) (hm : List.Forall₂ (SlotMove L X b) b.orphans orphans') :
    Good L X {b with orphans := orphans'} := by
  refine ⟨fun o' ho' => ?_, h.distinct.sublist (slotMoves_ids hm), h.next, h.fits, h.apart, fun i c hc hi => ?_⟩
  · obtain ⟨s, hs, hmove⟩ := slotMoves_mem hm (mem_carriers.mp ho')
    obtain ⟨o, rfl, hkeeps⟩ := hmove.some
    exact hkeeps.ok (h.carriers o (mem_carriers.mpr hs))
  · have hserved := h.served i c hc hi
    refine ⟨hserved.receiveMax, fun hup => ?_, hserved.fresh⟩
    cases hserved.paced hup with
    | held mem held =>
      obtain ⟨s', hs', hmove⟩ := slotMoves_mem_left hm (mem_carriers.mp mem)
      cases hmove with
      | calm hcalm => exact .held (mem_carriers.mpr hs') (held.calm (h.carriers _ mem) hcalm)
      | lost hun => exact absurd held.owner (hun i c hc hi hup)
      | changed _ hun => exact absurd held.owner (hun i c hc hi hup)
    | direct none direct =>
      refine .direct (fun o' ho' => ?_) direct
      obtain ⟨s, hs, hmove⟩ := slotMoves_mem hm (mem_carriers.mp ho')
      obtain ⟨o, rfl, hkeeps⟩ := hmove.some
      rw [hkeeps.clientId]
      exact none o (mem_carriers.mpr hs)

theorem Good.env (h : Good L X b) (env : Env) : Good L X {b with env := env} :=
  ⟨h.carriers, h.distinct, h.next, h.fits, h.apart, h.served⟩

theorem Good.noted (h : Good L X b) (notes : List Mark) : Good L X {b with notes := notes} :=
  ⟨h.carriers, h.distinct, h.next, h.fits, h.apart, h.served⟩

theorem Good.nextPacketId (h : Good L X b) {next : Nat} (hnext : next ≤ 65535) : Good L X {b with nextPacketId := next} :=
  ⟨h.carriers, h.distinct, hnext, h.fits, h.apart, h.served⟩

theorem Good.modifyOrphan (h : Good L X b) {k : Nat} {f : Option Carrier → Option Carrier}
    (hf : ∀ s, b.orphans[k]? = some s → SlotMove L X b s (f s)) : Good L X {b with orphans := b.orphans.modify k f} :=
  h.slots (forall₂_modify .refl hf)

theorem Good.setOrphan (h : Good L X b) {k : Nat} {s' : Option Carrier}
    (hf : ∀ s, b.orphans[k]? = some s → SlotMove L X b s s') : Good L X (b.setOrphan k s') := by
  have hset := h.modifyOrphan (f := fun _ => s') hf
  rw [StaticBroker.setOrphan, List.set_eq_modify]
  exact hset

end moves

/-! ### Connections change -/

section clients
variable {L : StaticLimits} {X : List Nat} {b : StaticBroker} {i : Nat} {c c' : StaticClient}

/-- A connection changes, but not the session it belongs to. -/
theorem Good.setClient (h : Good L X b) (hc : b.client? i = some c) (hid : c'.clientId = c.clientId)
    (hserved : i ∉ X → Served L b.carriers c') : Good L X (b.setClient i (some c')) := by
  -- every connection afterwards has the client id of one before, in the same slot
  have hback : ∀ {j d}, (b.setClient i (some c')).client? j = some d →
      ∃ d', b.client? j = some d' ∧ d.clientId = d'.clientId ∧ (d = d' ∨ j = i ∧ d = c') := by
    intro j d hd
    rcases client?_setClient hd with ⟨rfl, hx⟩ | ⟨-, hd⟩
    · cases hx
      exact ⟨c, hc, hid, .inr ⟨rfl, rfl⟩⟩
    · exact ⟨d, hd, rfl, .inl rfl⟩
  refine ⟨h.carriers, h.distinct, h.next, fun j d hd id hdid => ?_, fun j k d e hd he hne heq => ?_, fun j d hd hj => ?_⟩
  · obtain ⟨d', hd', heq, -⟩ := hback hd
    exact h.fits j d' hd' id (heq ▸ hdid)
  · obtain ⟨d', hd', heqd, -⟩ := hback hd
    obtain ⟨e', he', heqe, -⟩ := hback he
    rw [heqd] at heq ⊢
    exact h.apart j k d' e' hd' he' hne (heq.trans heqe)
  · obtain ⟨d', hd', -, rfl | ⟨rfl, rfl⟩⟩ := hback hd
    · exact h.served j d hd' hj
    · exact hserved hj

theorem Held.same {o : Carrier} (h : Held L c o) (hs : SameConn c c') : Held L c' o :=
  ⟨hs.clientId ▸ h.owner, hs.unacked ▸ h.nodup, hs.unacked ▸ h.sent, hs.unacked ▸ hs.receiveMax ▸ h.window⟩

theorem Direct.same (h : Direct L c) (hs : SameConn c c') : Direct L c' := by
  refine ⟨hs.unacked ▸ h.nodup, hs.unacked ▸ h.nonzero, ?_, hs.outInflight ▸ h.size⟩
  rw [StaticClient.table, hs.unacked, hs.outInflight]
  exact h.sent

/-- A connection that was written to or closed is served as before. -/
theorem Served.same {carriers : List Carrier} (h : Served L carriers c) (hs : SameConn c c') : Served L carriers c' := by
  refine ⟨fun hup => hs.receiveMax ▸ h.receiveMax (hs.connected hup), fun hup => ?_, fun hdown hopen => ?_⟩
  · cases h.paced (hs.connected hup) with
    | held mem held => exact .held mem (held.same hs)
    | direct none direct => exact .direct (hs.clientId ▸ none) (direct.same hs)
  · rcases hs.socket with ⟨hsock, hsame⟩ | ⟨hgone, -⟩
    · have hfresh := h.fresh (hsame ▸ hdown) (hsock ▸ hopen)
      exact ⟨hs.clientId.trans hfresh.clientId, hs.unacked.trans hfresh.unacked, hs.outInflight ▸ hfresh.size⟩
    · rw [hgone] at hopen
      cases hopen

theorem Good.same (h : Good L X b) (hc : b.client? i = some c) (hs : SameConn c c') : Good L X (b.setClient i (some c')) :=
  h.setClient hc hs.clientId (fun hi => (h.served i c hc hi).same hs)

theorem Good.onClient (h : Good L X b) {α : Type} (default : α) {m : ClientM α} (hm : Moves Writes m) :
    Good L X (onClient i default m b).2 := by
  unfold Static.onClient
  split
  · exact h
  · rename_i c hc
    exact (h.same hc (onConn_sameConn hm c b.env)).env _

/-- A connection leaves. -/
theorem Good.remove (h : Good L X b) (i : Nat) : Good L X (b.setClient i none) := by
  have hback : ∀ {j d}, (b.setClient i none).client? j = some d → b.client? j = some d := by
    intro j d hd
    rcases client?_setClient hd with ⟨-, hx⟩ | ⟨-, hd⟩
    · cases hx
    · exact hd
  exact ⟨h.carriers, h.distinct, h.next, fun j d hd => h.fits j d (hback hd),
    fun j k d e hd he => h.apart j k d e (hback hd) (hback he), fun j d hd => h.served j d (hback hd)⟩

end clients

end WolfMqtt.Static
