import WolfMqtt.Static.Good

/-! Deliveries keep the invariant.

None of them changes what is in flight in a carrier. A direct one takes an identifier
that is in no slot of its table, so what a connection has outstanding always fits the
table. -/
namespace WolfMqtt.Static
open Broker Row

section find
variable {b : StaticBroker} {clientId : Option Bytes} {k : Nat}

theorem findOrphan_some (h : findOrphan b clientId = some k) :
    ∃ o, b.orphans[k]? = some (some o) ∧ clientId = some o.clientId := by
  unfold findOrphan at h
  split at h
  · cases h
  · rename_i id
    obtain ⟨s, hs, hany⟩ := split_findIdx? h
    obtain ⟨o, rfl, ho⟩ := (Option.any_eq_true _ _).mp hany
    exact ⟨o, hs, congrArg some (of_decide_eq_true ho).symm⟩

theorem findOrphan_none (h : findOrphan b clientId = none) : ∀ o ∈ b.carriers, clientId ≠ some o.clientId := by
  intro o ho heq
  subst heq
  have hall := List.findIdx?_eq_none_iff.mp h (some o) (mem_carriers.mp ho)
  simp at hall

theorem orphan?_of_getElem? {o : Carrier} (h : b.orphans[k]? = some (some o)) : b.orphan? k = some o := by
  rw [StaticBroker.orphan?, h]
  rfl

theorem mem_carriers_of_getElem? {o : Carrier} (h : b.orphans[k]? = some (some o)) : o ∈ b.carriers :=
  mem_carriers.mpr (List.mem_of_getElem? h)

end find

/-! ### Carriers alone -/

section carriers
variable {L : StaticLimits} {X : List Nat} {b : StaticBroker} {clientId : Option Bytes}

theorem hasLiveClient_false {id : Bytes} (h : hasLiveClient b.clients id = false) : Unwatched X b id := by
  intro i c hc _ hup heq
  have hmem : some c ∈ b.clients := by
    unfold StaticBroker.client? at hc
    cases hs : b.clients[i]? with
    | none =>
      rw [hs] at hc
      cases hc
    | some s =>
      rw [hs] at hc
      exact List.mem_of_getElem? (hs.trans (congrArg some hc))
  have hlive : hasLiveClient b.clients id = true := by
    refine List.any_eq_true.mpr ⟨some c, hmem, ?_⟩
    simp [hup, heq]
  rw [h] at hlive
  cases hlive

/-- A sweep that knows of every connection that is up. -/
theorem Good.sweepSlots (h : Good L X b) {clients : List (Option StaticClient)}
    (hall : ∀ id, hasLiveClient clients id = false → Unwatched X b id) (now : Nat) :
    Good L X {b with orphans := b.orphans.map (sweepSlot clients now)} := by
  refine h.slots ?_
  rw [List.forall₂_map_right_iff]
  refine List.forall₂_same.mpr fun s _ => ?_
  cases s with
  | none => exact .empty
  | some o =>
    have hcalm : Calm L o (removeExpiredQueued now o) := removeExpiredQueued_calm _
    show SlotMove L X b (some o) (if _ then none else some _)
    split
    · rename_i hgone
      rw [Bool.and_eq_true, Bool.not_eq_true'] at hgone
      exact .lost (hall o.clientId (hcalm.clientId ▸ hgone.2))
    · exact .calm hcalm

theorem Good.sweep (h : Good L X b) : Good L X (sweep b) :=
  (h.sweepSlots (fun _ => hasLiveClient_false) _).env _

theorem Good.withOrphan (h : Good L X b) {f : Carrier → Carrier}
    (hf : ∀ o ∈ b.carriers, clientId = some o.clientId → SlotMove L X b (some o) (some (f o))) :
    Good L X (withOrphan clientId f b) := by
  unfold Static.withOrphan
  split
  · exact h
  · rename_i k hk
    obtain ⟨o, ho, hid⟩ := findOrphan_some hk
    refine h.modifyOrphan fun s hs => ?_
    rw [ho] at hs
    cases hs
    exact hf o (mem_carriers_of_getElem? ho) hid

theorem Good.withOrphan_calm (h : Good L X b) {f : Carrier → Carrier} (hf : ∀ o, Calm L o (f o)) :
    Good L X (Static.withOrphan clientId f b) := h.withOrphan fun o _ _ => .calm (hf o)

theorem Good.dropOrphan (h : Good L X b) (hun : ∀ id, clientId = some id → Unwatched X b id) :
    Good L X (dropOrphan clientId b) := by
  unfold Static.dropOrphan
  split
  · exact h
  · rename_i k hk
    obtain ⟨o, ho, hid⟩ := findOrphan_some hk
    refine h.setOrphan fun s hs => ?_
    rw [ho] at hs
    cases hs
    exact .lost (hun _ hid)

@[simp]
theorem client?_withOrphan (f : Carrier → Carrier) (i : Nat) : (withOrphan clientId f b).client? i = b.client? i := by
  unfold withOrphan
  split <;> rfl

@[simp]
theorem client?_dropOrphan (i : Nat) : (dropOrphan clientId b).client? i = b.client? i := by
  unfold dropOrphan
  split <;> rfl

end carriers

/-! ### Closing -/

section close
variable {L : StaticLimits} {X : List Nat} {b : StaticBroker}

theorem Good.clientClose (h : Good L X b) (i : Nat) : Good L X (clientClose i b) := by
  unfold Static.clientClose
  split
  · exact h
  · rename_i c hc
    split
    · exact h.same hc (closeSocket_sameConn c)
    · rename_i k hk
      obtain ⟨o, ho, -⟩ := findOrphan_some hk
      rw [orphan?_of_getElem? ho]
      have hclose : SameConn c _ ∧ Calm L o _ := closeLink_calm (s := {c, o, env := b.env}) rfl
      refine Good.env ?_ _
      refine (h.same hc hclose.1).setOrphan fun s hs => ?_
      rw [show b.orphans[k]? = some s from hs] at ho
      cases ho
      exact .calm hclose.2

theorem Good.quotaClose (h : Good L X b) (i : Nat) : Good L X (quotaClose L i b) :=
  (h.onClient 0 (sendDisconnect_moves L.toLimits _)).clientClose i

end close

/-! ### The table of a connection -/

section table
variable {L : StaticLimits} {c : StaticClient} {packetId : Nat} {qos : QoS} {table : List StaticOutId}

theorem length_outIdRelease (packetId : Nat) (qos : QoS) (table : List StaticOutId) :
    (outIdRelease packetId qos table).length = table.length := by
  unfold outIdRelease
  split
  · rfl
  · split
    · rfl
    · exact List.length_set

/-- Giving an identifier back leaves every other pair in the table. -/
theorem mem_outIdRelease {p : Nat × QoS} (hp : p ∈ table.map (fun x => (x.packetId, x.qos))) (hne : p ≠ (packetId, qos)) :
    p ∈ (outIdRelease packetId qos table).map (fun x => (x.packetId, x.qos)) := by
  unfold outIdRelease
  split
  · exact hp
  · split
    · exact hp
    · rename_i i hi
      obtain ⟨x, hx, hmatch⟩ := split_findIdx? hi
      have hmatch : x.packetId = packetId ∧ x.qos = qos := by simpa using hmatch
      obtain ⟨pre, post, hsplit, -, hmodify⟩ := split_at hx
      rw [List.set_eq_modify, hmodify]
      rw [hsplit] at hp
      simp only [List.map_append, List.map_cons, List.mem_append, List.mem_cons] at hp ⊢
      rcases hp with hp | rfl | hp
      · exact .inl hp
      · exact absurd (Prod.ext hmatch.1 hmatch.2) hne
      · exact .inr (.inr hp)

theorem Direct.release (h : Direct L c) (packetId : Nat) (qos : QoS) : Direct L (release packetId qos c) := by
  refine ⟨h.nodup.erase _, fun p hp => h.nonzero p (List.mem_of_mem_erase hp), fun p hp => ?_, ?_⟩
  · obtain ⟨hne, hp⟩ := h.nodup.mem_erase_iff.mp hp
    exact mem_outIdRelease (h.sent hp) hne
  · exact (length_outIdRelease ..).trans h.size

/-- An identifier that nothing outstanding uses is given back. -/
theorem Direct.giveBack (h : Direct L c) (hnew : (packetId, qos) ∉ c.unacked) :
    Direct L {c with outInflight := outIdRelease packetId qos c.outInflight} := by
  refine ⟨h.nodup, h.nonzero, fun p hp => ?_, (length_outIdRelease ..).trans h.size⟩
  exact mem_outIdRelease (h.sent hp) (fun heq => hnew (heq ▸ hp))

theorem scanOutId_some {fuel candidate id : Nat} (h : scanOutId table fuel candidate = some id) (hc : candidate ≠ 0) :
    id ≠ 0 ∧ outIdInUse table id = false := by
  induction fuel generalizing candidate with
  | zero => cases h
  | succ fuel ih =>
    unfold scanOutId at h
    split at h
    · exact ih h (succPacketId_ne candidate)
    · rename_i hfree
      cases h
      exact ⟨hc, by simpa using hfree⟩

/-- Taking an identifier: it is new, and in the table now. -/
theorem Direct.take (h : Direct L c) {next next' id : Nat} {table : List StaticOutId}
    (ht : outIdTake qos c.outInflight next = some (id, table, next')) :
    Direct L {c with outInflight := table} ∧ id ≠ 0 ∧ (id, qos) ∉ c.unacked ∧
      (id, qos) ∈ StaticClient.table {c with outInflight := table} := by
  unfold outIdTake at ht
  split at ht
  · cases ht
  · rename_i i hi
    split at ht
    · cases ht
    · rename_i found hscan
      cases ht
      obtain ⟨hne, hfree⟩ := scanOutId_some hscan (by split <;> omega)
      obtain ⟨x, hx, hzero⟩ := split_findIdx? hi
      have hzero : x.packetId = 0 := by simpa using hzero
      obtain ⟨pre, post, hsplit, -, hmodify⟩ := split_at hx
      have htable : c.outInflight.set i ⟨id, qos⟩ = pre ++ ⟨id, qos⟩ :: post := by rw [List.set_eq_modify, hmodify]
      refine ⟨⟨h.nodup, h.nonzero, fun p hp => ?_, ?_⟩, hne, fun hin => ?_, ?_⟩
      · have hin := h.sent hp
        rw [StaticClient.table, hsplit] at hin
        show p ∈ (c.outInflight.set i ⟨id, qos⟩).map _
        rw [htable]
        simp only [List.map_append, List.map_cons, List.mem_append, List.mem_cons] at hin ⊢
        rcases hin with hin | rfl | hin
        · exact .inl hin
        · exact absurd hzero (h.nonzero _ hp)
        · exact .inr (.inr hin)
      · exact List.length_set.trans h.size
      · obtain ⟨y, hy, hpair⟩ := List.mem_map.mp (h.sent hin)
        have hid : y.packetId = id := congrArg Prod.fst hpair
        have hused : outIdInUse c.outInflight id = true := List.any_eq_true.mpr ⟨y, hy, by simpa using hid⟩
        rw [hfree] at hused
        cases hused
      · show (id, qos) ∈ (c.outInflight.set i ⟨id, qos⟩).map _
        rw [htable]
        simp

theorem outIdTake_next {next id next' : Nat} {table' : List StaticOutId}
    (ht : outIdTake qos table next = some (id, table', next')) : next' ≤ 65535 := by
  unfold outIdTake at ht
  split at ht
  · cases ht
  · split at ht
    · cases ht
    · cases ht
      unfold succPacketId
      split <;> omega

end table

/-! ### Sending directly -/

/-- The connection with another table and other messages outstanding. -/
def rebook (table : List StaticOutId) (unacked : List (Nat × QoS)) (c : StaticClient) : StaticClient :=
  {c with outInflight := table, unacked := unacked}

theorem SameConn.rebook {c c' : StaticClient} (h : SameConn c c') (table : List StaticOutId) (unacked : List (Nat × QoS)) :
    SameConn (rebook table unacked c) (rebook table unacked c') :=
  ⟨congrArg (Static.rebook table unacked) h.still, h.socket⟩

section direct
variable {L : StaticLimits} {X : List Nat} {b : StaticBroker} {c : StaticClient} {d : Delivery}

/-- A direct delivery gives its identifier back, leaves it taken without the message having gone
out, or has the message outstanding. -/
theorem writeDelivery_spec (L : StaticLimits) (d : Delivery) (packetId : Nat) (c : StaticClient) (env : Env) :
    ∃ table unacked, SameConn (rebook table unacked c) (writeDelivery L d packetId c env).2.1 ∧
      ((table = outIdRelease packetId d.qos c.outInflight ∧ unacked = c.unacked) ∨
        (table = c.outInflight ∧ unacked = c.unacked) ∨
        (d.qos ≠ .qos0 ∧ table = c.outInflight ∧ unacked = c.unacked ++ [(packetId, d.qos)])) := by
  unfold writeDelivery
  dsimp only
  have henc := onConn_sameConn (encodeInto_writes (encodePublish L.txBufSz (directPublish d packetId c.protocolLevel))) c env
  generalize onConn (encodeInto (encodePublish L.txBufSz (directPublish d packetId c.protocolLevel))) c env = enc at henc ⊢
  split
  · refine ⟨_, _, ?_, .inl ⟨rfl, rfl⟩⟩
    rw [← henc.outInflight, ← henc.unacked]
    exact henc.rebook _ _
  · have hwr := onConn_sameConn (writeDirect_moves L.toLimits enc.1) enc.2.1 enc.2.2
    generalize onConn (Static.writeDirect L.toLimits enc.1) enc.2.1 enc.2.2 = wr at hwr ⊢
    have hzero : SameConn c (if wr.1 = Code.continue ∧ d.site ≠ .publish then wr
        else (wr.1, (onConn (zeroTxBuf enc.1.toNat) wr.2.1 wr.2.2).2)).2.1 := by
      split
      · exact henc.trans hwr
      · exact (henc.trans hwr).trans (onConn_sameConn (zeroTxBuf_writes _) _ _)
    generalize (if wr.1 = Code.continue ∧ d.site ≠ .publish then wr
      else (wr.1, (onConn (zeroTxBuf enc.1.toNat) wr.2.1 wr.2.2).2)) = zeroed at hzero ⊢
    unfold afterDirect
    rw [hzero.outInflight, hzero.unacked]
    split
    · by_cases hq : d.qos = .qos0
      · refine ⟨_, _, ?_, .inr (.inl ⟨rfl, rfl⟩)⟩
        rw [if_pos hq]
        exact hzero.rebook _ _
      · refine ⟨_, _, ?_, .inr (.inr ⟨hq, rfl, rfl⟩)⟩
        rw [if_neg hq]
        exact hzero.rebook _ _
    · split
      · exact ⟨_, _, hzero, .inr (.inl ⟨rfl, rfl⟩)⟩
      · by_cases hq : d.qos = .qos0
        · refine ⟨_, _, ?_, .inr (.inl ⟨rfl, rfl⟩)⟩
          rw [if_pos hq]
          exact hzero.rebook _ _
        · refine ⟨_, _, ?_, .inl ⟨rfl, rfl⟩⟩
          rw [if_neg hq]
          exact hzero.rebook _ _

/-- A message at QoS 0 is nothing to keep. -/
theorem writeDelivery_qos0 (hq : d.qos = .qos0) (env : Env) : SameConn c (writeDelivery L d 0 c env).2.1 := by
  obtain ⟨table, unacked, hsame, hcase⟩ := writeDelivery_spec L d 0 c env
  rcases hcase with ⟨rfl, rfl⟩ | ⟨rfl, rfl⟩ | ⟨hne, -⟩
  · exact hsame
  · exact hsame
  · exact absurd hq hne

theorem Direct.write (h : Direct L c) {packetId : Nat} (hne : packetId ≠ 0) (hnew : (packetId, d.qos) ∉ c.unacked)
    (hmem : (packetId, d.qos) ∈ c.table) (env : Env) : Direct L (writeDelivery L d packetId c env).2.1 := by
  obtain ⟨table, unacked, hsame, hcase⟩ := writeDelivery_spec L d packetId c env
  refine Direct.same ?_ hsame
  rcases hcase with ⟨rfl, rfl⟩ | ⟨rfl, rfl⟩ | ⟨-, rfl, rfl⟩
  · exact h.giveBack hnew
  · exact h
  · refine ⟨?_, fun p hp => ?_, fun p hp => ?_, h.size⟩
    · exact List.nodup_append.mpr ⟨h.nodup, List.nodup_singleton _, fun x hx y hy heq => hnew (by simp_all)⟩
    all_goals rcases List.mem_append.mp hp with hp | hp
    · exact h.nonzero p hp
    · exact List.mem_singleton.mp hp ▸ hne
    · exact h.sent hp
    · exact List.mem_singleton.mp hp ▸ hmem

/-- A direct delivery to a connection that is up and has no carrier, or at QoS 0. -/
theorem Good.deliverDirect (h : Good L X b) {i : Nat} (hc : b.client? i = some c) (hup : c.connected = true)
    (hnone : d.qos = .qos0 ∨ findOrphan b c.clientId = none) : Good L X (deliverDirect L d i b) := by
  unfold Static.deliverDirect
  rw [hc]
  dsimp only
  split
  · rename_i hq
    have hgood := (h.same hc (writeDelivery_qos0 (L := L) hq b.env)).env (writeDelivery L d 0 c b.env).2.2
    split
    · exact hgood
    · exact hgood.clientClose i
  · rename_i hq
    split
    · exact h
    · rename_i id table next htake
      have hgood : Good L X (b.setClient i (some (writeDelivery L d id {c with outInflight := table} b.env).2.1)) := by
        obtain ⟨t, u, hsame, -⟩ := writeDelivery_spec L d id {c with outInflight := table} b.env
        refine h.setClient hc hsame.clientId fun hi => ?_
        have hserved := h.served i c hc hi
        refine ⟨fun _ => hsame.receiveMax ▸ hserved.receiveMax hup, fun _ => ?_, fun hdown hopen => ?_⟩
        · cases hserved.paced hup with
          | held mem held => exact absurd held.owner (findOrphan_none (hnone.resolve_left hq) _ mem)
          | direct none direct =>
            obtain ⟨hdirect, hne, hnew, hmem⟩ := direct.take htake
            exact .direct (hsame.clientId ▸ none) (hdirect.write hne hnew hmem b.env)
        · rcases hsame.socket with ⟨-, hsame⟩ | ⟨hgone, -⟩
          · rw [hdown] at hsame
            exact absurd (hsame.trans hup) (by decide)
          · rw [hgone] at hopen
            cases hopen
      have hgood := (hgood.env (writeDelivery L d id {c with outInflight := table} b.env).2.2).nextPacketId (outIdTake_next htake)
      split
      · exact hgood
      · exact hgood.clientClose i

end direct

/-! ### Deliveries -/

section deliver
variable {L : StaticLimits} {X : List Nat} {b : StaticBroker} {d : Delivery}

theorem Good.enqueueAt (h : Good L X b) (k : Nat) (m : Message) : ∃ b', enqueueAt L k m b = some b' ∧ Good L X b' := by
  unfold Static.enqueueAt
  split
  · exact ⟨b, rfl, h⟩
  · rename_i o ho
    have hslot : b.orphans[k]? = some (some o) := by
      unfold StaticBroker.orphan? at ho
      cases hs : b.orphans[k]? with
      | none =>
        rw [hs] at ho
        cases ho
      | some s =>
        rw [hs] at ho
        exact congrArg some ho
    obtain ⟨r, hr, hcalm, hnext⟩ := enqueue_spec (m := m) (s := {o, next := b.nextPacketId, env := b.env})
      (h.carriers o (mem_carriers_of_getElem? hslot)) h.next
    rw [hr]
    refine ⟨_, rfl, Good.noted (Good.env (Good.nextPacketId (h.setOrphan fun s hs => ?_) hnext) _) _⟩
    rw [hslot] at hs
    cases hs
    exact .calm hcalm

theorem Good.deliverLive (h : Good L X b) (d : Delivery) (i : Nat) : ∃ b', deliverLive L d i b = some b' ∧ Good L X b' := by
  unfold Static.deliverLive
  split
  · exact ⟨b, rfl, h⟩
  · rename_i c hc
    split
    · exact ⟨b, rfl, h⟩
    · rename_i hup
      have hup : c.connected = true := by
        by_contra hne
        exact hup (.inl (by simpa using hne))
      by_cases hq : d.qos = .qos0
      · rw [if_pos hq]
        exact ⟨_, rfl, h.deliverDirect hc hup (.inl hq)⟩
      · rw [if_neg hq]
        cases hk : findOrphan b c.clientId with
        | none => exact ⟨_, rfl, h.deliverDirect hc hup (.inr hk)⟩
        | some k =>
          have hgood : Good L X {b with
              orphans := b.orphans.modify k (Option.map (removeExpiredQueued b.env.getTime.1)), env := b.env.getTime.2} := by
            refine Good.env (h.modifyOrphan fun s _ => ?_) _
            cases s with
            | none => exact .empty
            | some o => exact .calm (removeExpiredQueued_calm _)
          dsimp only
          split
          · exact ⟨_, rfl, hgood.quotaClose i⟩
          · exact hgood.enqueueAt k _

theorem Good.deliver (h : Good L X b) (t : Target) (d : Delivery) : ∃ b', deliver L t d b = some b' ∧ Good L X b' := by
  unfold Static.deliver
  cases t with
  | live i => exact h.deliverLive d i
  | offline id =>
    dsimp only [deliverOffline]
    split
    · exact ⟨b, rfl, h⟩
    · split
      · exact ⟨b, rfl, h⟩
      · exact h.enqueueAt _ _

theorem Good.deliverAll (h : Good L X b) (all : List (Target × Delivery)) :
    ∃ b', deliverAll L all b = some b' ∧ Good L X b' := by
  induction all generalizing b with
  | nil => exact ⟨b, rfl, h⟩
  | cons p rest ih =>
    obtain ⟨b₁, h₁, hgood⟩ := h.deliver p.1 p.2
    unfold Static.deliverAll
    rw [h₁]
    exact ih hgood

end deliver

end WolfMqtt.Static
