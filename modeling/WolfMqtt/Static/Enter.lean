import WolfMqtt.Static.Deliver

/-! CONNECT and the ends of connections keep the invariant.

A connection between its CONNECT and its CONNACK is `Entering`: it has its client id, but
the connection it takes over may still be there. -/
namespace WolfMqtt.Static
open Broker Row

/-! ### Exempt slots -/

section exempt
variable {L : StaticLimits} {X : List Nat} {b : StaticBroker} {i j : Nat} {c : StaticClient}

theorem Good.exempt (h : Good L [] b) (X : List Nat) : Good L X b := by
  refine ⟨h.carriers, h.distinct, h.next, h.fits, fun i j c d hc hd hne heq => ?_, fun i c hc _ => h.served i c hc (by simp)⟩
  exact (h.apart i j c d hc hd hne heq).imp_right (fun hin => by cases hin.1)

/-- The last exempt slot is served after all. -/
theorem Good.admit (h : Good L [i] b) (hs : ∀ c, b.client? i = some c → Served L b.carriers c) : Good L [] b := by
  refine ⟨h.carriers, h.distinct, h.next, h.fits, fun j k c d hc hd hne heq => ?_, fun j c hc _ => ?_⟩
  · refine (h.apart j k c d hc hd hne heq).imp_right (fun hin => absurd ?_ hne)
    exact (List.mem_singleton.mp hin.1).trans (List.mem_singleton.mp hin.2).symm
  · by_cases hj : j = i
    · subst hj
      exact hs c hc
    · exact h.served j c hc (by simpa using hj)

theorem Good.admit_empty (h : Good L [i, j] b) (hj : b.client? j = none) : Good L [i] b := by
  have hmem : ∀ {k c}, b.client? k = some c → k ∈ [i, j] → k ∈ [i] := by
    intro k c hc hk
    rcases List.mem_cons.mp hk with rfl | hk
    · exact List.mem_singleton_self _
    · rw [List.mem_singleton.mp hk, hj] at hc
      cases hc
  refine ⟨h.carriers, h.distinct, h.next, h.fits, fun k l c d hc hd hne heq => ?_, fun k c hc hk => ?_⟩
  · exact (h.apart k l c d hc hd hne heq).imp_right (fun hin => ⟨hmem hc hin.1, hmem hd hin.2⟩)
  · exact h.served k c hc (fun hin => hk (hmem hc hin))

theorem client?_setClient_none : (b.setClient i none).client? i = none := by
  cases hd : (b.setClient i none).client? i with
  | none => rfl
  | some d =>
    rcases client?_setClient hd with ⟨-, hx⟩ | ⟨hne, -⟩
    · cases hx
    · exact absurd rfl hne

/-- The session of an exempt connection belongs to no other that is up. -/
theorem Good.unwatched (h : Good L X b) (hi : i ∈ X) (hc : b.client? i = some c) {id : Bytes} (hid : c.clientId = some id) :
    Unwatched X b id := by
  intro j d hd hj _ heq
  have hne : i ≠ j := fun heq => hj (heq ▸ hi)
  rcases h.apart i j c d hc hd hne (hid.trans heq.symm) with hnone | hin
  · rw [hnone] at hid
    cases hid
  · exact hj hin.2

end exempt

/-! ### Reserving a carrier -/

section reserve
variable {L : StaticLimits} {X : List Nat} {b : StaticBroker} {i k : Nat} {c : StaticClient}

theorem Good.addOrphan (h : Good L X b) {o : Carrier} (hk : b.orphans[k]? = some none) (hok : CarrierOk L o)
    (hnew : ∀ x ∈ b.carriers, x.clientId ≠ o.clientId) (hun : Unwatched X b o.clientId) :
    Good L X (b.setOrphan k (some o)) := by
  obtain ⟨pre, post, hslots, -, hmodify⟩ := split_at hk
  have hbefore : b.carriers = pre.filterMap id ++ post.filterMap id := by
    show b.orphans.filterMap id = _
    rw [hslots, List.filterMap_append]
    rfl
  have hperm : ((b.setOrphan k (some o)).carriers).Perm (o :: b.carriers) := by
    show ((b.orphans.set k (some o)).filterMap id).Perm _
    rw [List.set_eq_modify, hmodify, List.filterMap_append, hbefore]
    exact List.perm_middle
  have hmem : ∀ x, x ∈ (b.setOrphan k (some o)).carriers ↔ x = o ∨ x ∈ b.carriers := by
    intro x
    rw [hperm.mem_iff, List.mem_cons]
  refine ⟨fun x hx => ?_, ?_, h.next, h.fits, h.apart, fun j d hd hj => ?_⟩
  · rcases (hmem x).mp hx with rfl | hx
    · exact hok
    · exact h.carriers x hx
  · rw [(hperm.map _).nodup_iff, List.map_cons, List.nodup_cons]
    refine ⟨fun hin => ?_, h.distinct⟩
    obtain ⟨x, hx, heq⟩ := List.mem_map.mp hin
    exact hnew x hx heq
  · have hserved := h.served j d hd hj
    refine ⟨hserved.receiveMax, fun hup => ?_, hserved.fresh⟩
    cases hserved.paced hup with
    | held mem held => exact .held ((hmem _).mpr (.inr mem)) held
    | direct none direct =>
      refine .direct (fun x hx => ?_) direct
      rcases (hmem x).mp hx with rfl | hx
      · exact hun j d hd hj hup
      · exact none x hx

theorem freshCarrier_ok (L : StaticLimits) (c : StaticClient) (now : Nat) (id : Bytes) :
    CarrierOk L (adoptCarrier c now (freshCarrier L id)) :=
  ⟨⟨Int.le_refl _, Int.natCast_nonneg _⟩, List.length_replicate, ⟨.nil, nofun, rfl, nofun⟩⟩

theorem adoptCarrier_calm (c : StaticClient) (now : Nat) (o : Carrier) : Calm L o (adoptCarrier c now o) :=
  .of_eq rfl rfl rfl

@[simp]
theorem client?_takeOrphan (L : StaticLimits) (c : StaticClient) (i : Nat) : (takeOrphan L c b).2.client? i = b.client? i := by
  unfold takeOrphan
  split
  · rfl
  · dsimp only
    split
    · rfl
    · split <;> rfl

/-- A carrier for the session of an exempt connection. -/
theorem Good.takeOrphan (h : Good L X b) (hi : i ∈ X) {c₀ : StaticClient} (hc₀ : b.client? i = some c₀)
    (hid : c.clientId = c₀.clientId) : Good L X (takeOrphan L c b).2 := by
  unfold Static.takeOrphan
  split
  · exact h
  · rename_i id hcid
    have hun : Unwatched X (Static.sweep b) id := h.sweep.unwatched hi hc₀ (hid ▸ hcid)
    dsimp only
    split
    · rename_i k hk
      obtain ⟨o, ho, heq⟩ := findOrphan_some hk
      refine h.sweep.modifyOrphan fun s hs => ?_
      rw [ho] at hs
      cases hs
      cases heq
      exact .changed (resetDelivery_preserves.trans (adoptCarrier_calm c _ _).toPreserves) hun
    · rename_i hnone
      split
      · exact h.sweep
      · rename_i k hk
        obtain ⟨s, hs, hempty⟩ := split_findIdx? hk
        rw [Option.isNone_iff_eq_none.mp hempty] at hs
        have hcopy : (freshCarrier L id).clientId = id := h.fits i c₀ hc₀ id (hid ▸ hcid)
        refine h.sweep.addOrphan hs (freshCarrier_ok L c _ id) (fun x hx heq => ?_) ?_
        · exact findOrphan_none hnone x hx (congrArg some (heq.trans hcopy).symm)
        · show Unwatched X _ (freshCarrier L id).clientId
          rw [hcopy]
          exact hun

end reserve

/-! ### Leaving -/

section leave
variable {L : StaticLimits} {X : List Nat} {b : StaticBroker} {i : Nat} {c : StaticClient}

theorem saveInboundQos2_calm (c : StaticClient) (o : Carrier) : Calm L o (saveInboundQos2 c o).2 := by
  unfold saveInboundQos2
  split
  · exact .of_eq rfl rfl rfl
  · exact .refl

theorem Good.orphanClient (h : Good L X b) (hi : i ∈ X) (hasSubs : Bool) : Good L X (orphanClient L hasSubs i b) := by
  unfold Static.orphanClient
  split
  · exact h
  · rename_i c hc
    split
    · have htaken := h.takeOrphan (L := L) hi hc rfl
      dsimp only
      split
      · exact htaken.withOrphan_calm (saveInboundQos2_calm c)
      · exact htaken
    · dsimp only
      split
      · exact h
      · refine Good.env (h.withOrphan fun o _ hid => .changed ?_ (h.unwatched hi hc hid)) _
        have hsaved := (saveInboundQos2_calm (L := L) c (resetDelivery o)).toPreserves
        exact (resetDelivery_preserves.trans hsaved).trans ⟨rfl, fun hok => ⟨hok.cells, hok.size, hok.live⟩⟩

theorem Good.endClientSession (h : Good L X b) (hi : i ∈ X) : Good L X (endClientSession i b) := by
  unfold Static.endClientSession
  split
  · exact h
  · rename_i c hc
    exact h.dropOrphan fun id hid => h.unwatched hi hc hid

theorem Good.gone (h : Good L [i] b) (hi : b.client? i = none) : Good L [] b :=
  h.admit fun c hc => by
    rw [hi] at hc
    cases hc

theorem Good.leave (h : Good L [i] b) (hasSubs : Bool) : Good L [] (leave L hasSubs i b) := by
  unfold Static.leave
  split
  · exact h.gone ‹_›
  · refine Good.gone (Good.remove ?_ i) client?_setClient_none
    split
    · exact h.endClientSession (List.mem_singleton_self i)
    · exact h.orphanClient (List.mem_singleton_self i) hasSubs

end leave

/-! ### Slots that a delivery leaves alone -/

section elsewhere
variable {L : StaticLimits} {b b' : StaticBroker} {i j : Nat} {c : StaticClient}

theorem client?_onClient_ne {α : Type} (default : α) (m : ClientM α) (h : j ≠ i) :
    (onClient i default m b).2.client? j = b.client? j := by
  unfold onClient
  split
  · rfl
  · exact client?_setClient_ne h

theorem client?_clientClose_ne (h : j ≠ i) : (clientClose i b).client? j = b.client? j := by
  unfold clientClose
  split
  · rfl
  · split
    · exact client?_setClient_ne h
    · split
      · rfl
      · exact client?_setClient_ne h

theorem client?_deliverDirect_ne (d : Delivery) (h : j ≠ i) : (deliverDirect L d i b).client? j = b.client? j := by
  unfold deliverDirect
  split
  · rfl
  · dsimp only
    split
    · split
      · exact client?_setClient_ne h
      · exact (client?_clientClose_ne h).trans (client?_setClient_ne h)
    · split
      · rfl
      · split
        · exact client?_setClient_ne h
        · exact (client?_clientClose_ne h).trans (client?_setClient_ne h)

theorem client?_enqueueAt {k : Nat} {m : Message} (h : enqueueAt L k m b = some b') : b'.client? j = b.client? j := by
  unfold enqueueAt at h
  split at h
  · cases h
    rfl
  · split at h
    · cases h
    · cases h
      rfl

theorem client?_deliver {t : Target} {d : Delivery} (h : deliver L t d b = some b') (hc : b.client? j = some c)
    (hdown : c.connected = false) : b'.client? j = some c := by
  unfold deliver at h
  cases t with
  | offline id =>
    dsimp only [deliverOffline] at h
    split at h
    · cases h
      exact hc
    · split at h
      · cases h
        exact hc
      · exact (client?_enqueueAt h).trans hc
  | live i =>
    dsimp only [deliverLive] at h
    by_cases hj : j = i
    · subst hj
      rw [hc] at h
      dsimp only at h
      rw [if_pos (.inl (by simp [hdown]))] at h
      cases h
      exact hc
    · split at h
      · cases h
        exact hc
      · split at h
        · cases h
          exact hc
        · split at h
          · cases h
            exact (client?_deliverDirect_ne d hj).trans hc
          · split at h
            · cases h
              exact ((client?_clientClose_ne hj).trans (client?_onClient_ne 0 _ hj)).trans hc
            · exact (client?_enqueueAt h).trans hc

theorem client?_deliverAll {all : List (Target × Delivery)} (h : deliverAll L all b = some b') (hc : b.client? j = some c)
    (hdown : c.connected = false) : b'.client? j = some c := by
  induction all generalizing b with
  | nil =>
    cases h
    exact hc
  | cons p rest ih =>
    unfold deliverAll at h
    split at h
    · cases h
    · rename_i b₁ h₁
      exact ih h (client?_deliver h₁ hc hdown)

end elsewhere

/-! ### CONNECT -/

/-- A connection whose CONNECT is being handled has nothing outstanding. -/
structure Ready (L : StaticLimits) (c : StaticClient) : Prop where
  unacked : c.unacked = []
  size : c.outInflight.length = L.maxInflightPerSub
  receiveMax : c.clientReceiveMax ≠ 0

section connect
variable {L : StaticLimits} {X : List Nat} {b : StaticBroker} {i j : Nat} {c old : StaticClient} {req : ConnectReq}

theorem Ready.same {c' : StaticClient} (h : Ready L c) (hs : SameConn c c') : Ready L c' :=
  ⟨hs.unacked.trans h.unacked, hs.outInflight ▸ h.size, hs.receiveMax ▸ h.receiveMax⟩

/-- The CONNACK ends the exemption, one way or the other. -/
theorem Good.answerConnect (h : Good L [i] b) (hc : b.client? i = some c) (hready : Ready L c) :
    Good L [] (answerConnect L req i b) := by
  have hi : i ∈ [i] := List.mem_singleton_self i
  unfold Static.answerConnect
  rw [hc]
  dsimp only
  -- the connection whose CONNACK is encoded
  obtain ⟨c₁, hc₁, hgood₁, hready₁⟩ : ∃ c₁,
      (if req.assignFails then b.setClient i (some {c with sessionExpirySec := 0}) else b).client? i = some c₁ ∧
      Good L [i] (if req.assignFails then b.setClient i (some {c with sessionExpirySec := 0}) else b) ∧ Ready L c₁ := by
    split
    · exact ⟨_, client?_setClient_self hc, h.setClient hc rfl (fun hne => absurd hi hne), ⟨hready.unacked, hready.size, hready.receiveMax⟩⟩
    · exact ⟨c, hc, h, hready⟩
  generalize (if req.assignFails then b.setClient i (some {c with sessionExpirySec := 0}) else b) = b₁ at hc₁ hgood₁ ⊢
  have hwrite : ∀ {m : ClientM Int} {b₂ : StaticBroker} {c₂ : StaticClient}, Moves Writes m → b₂.client? i = some c₂ →
      Ready L c₂ → ∃ c₃, (Static.onClient i 0 m b₂).2.client? i = some c₃ ∧ Ready L c₃ := by
    intro m b₂ c₂ hm hc₂ hready₂
    unfold Static.onClient
    rw [hc₂]
    exact ⟨_, client?_setClient_self hc₂, hready₂.same (onConn_sameConn hm c₂ b₂.env)⟩
  obtain ⟨c₂, hc₂, hready₂⟩ := hwrite (encodeInto_writes (encodeConnectAck L.txBufSz req.ack)) hc₁ hready₁
  have hgood₂ := hgood₁.onClient (i := i) 0 (encodeInto_writes (encodeConnectAck L.txBufSz req.ack))
  generalize Static.onClient i 0 (encodeInto (encodeConnectAck L.txBufSz req.ack)) b₁ = enc at hc₂ hgood₂ ⊢
  obtain ⟨c₃, hc₃, hgood₃, hready₃⟩ : ∃ c₃,
      (if enc.1 ≤ 0 then enc else Static.onClient i 0 (packetWrite L.toLimits enc.1.toNat) enc.2).2.client? i = some c₃ ∧
      Good L [i] (if enc.1 ≤ 0 then enc else Static.onClient i 0 (packetWrite L.toLimits enc.1.toNat) enc.2).2 ∧ Ready L c₃ := by
    split
    · exact ⟨c₂, hc₂, hgood₂, hready₂⟩
    · obtain ⟨c₃, hc₃, hready₃⟩ := hwrite (packetWrite_writes L.toLimits enc.1.toNat) hc₂ hready₂
      exact ⟨c₃, hc₃, hgood₂.onClient 0 (packetWrite_writes L.toLimits enc.1.toNat), hready₃⟩
  generalize (if enc.1 ≤ 0 then enc else Static.onClient i 0 (packetWrite L.toLimits enc.1.toNat) enc.2) = wr at hc₃ hgood₃ ⊢
  split
  · exact hgood₃.leave req.hasSubs
  · rw [hc₃]
    have hup : Good L [i] (wr.2.setClient i (some {c₃ with connected := true})) :=
      hgood₃.setClient hc₃ rfl (fun hne => absurd hi hne)
    refine hup.admit fun c₄ hc₄ => ?_
    rw [client?_setClient_self hc₃] at hc₄
    cases hc₄
    refine ⟨fun _ => hready₃.receiveMax, fun _ => ?_, nofun⟩
    by_cases hcarrier : ∃ o ∈ wr.2.carriers, c₃.clientId = some o.clientId
    · obtain ⟨o, ho, howner⟩ := hcarrier
      refine .held ho ⟨howner, ?_, ?_, .inl hready₃.unacked⟩
      · show c₃.unacked.Nodup
        rw [hready₃.unacked]
        exact List.nodup_nil
      · show c₃.unacked ⊆ _
        rw [hready₃.unacked]
        exact List.nil_subset _
    · refine .direct (fun o ho heq => hcarrier ⟨o, ho, heq⟩) ⟨?_, ?_, ?_, hready₃.size⟩
      · show c₃.unacked.Nodup
        rw [hready₃.unacked]
        exact List.nodup_nil
      · show ∀ p ∈ c₃.unacked, _
        rw [hready₃.unacked]
        exact nofun
      · show c₃.unacked ⊆ _
        rw [hready₃.unacked]
        exact List.nil_subset _

theorem findByClientId_some {id : Option Bytes} (h : findByClientId b id i = some j) :
    j ≠ i ∧ ∃ old, b.client? j = some old ∧ old.clientId = id ∧ id ≠ none := by
  unfold findByClientId at h
  split at h
  · cases h
  · have hfound := List.find?_some h
    simp only [decide_eq_true_eq, Option.any_eq_true] at hfound
    obtain ⟨hne, old, hold, heq⟩ := hfound
    exact ⟨hne, old, hold, heq, Option.some_ne_none _⟩

theorem findByClientId_isSome (hj : b.client? j = some old) (hne : j ≠ i) (hid : old.clientId ≠ none) :
    findByClientId b old.clientId i ≠ none := by
  unfold findByClientId
  split
  · exact absurd ‹_› hid
  · rename_i id heq
    intro hnone
    have hlt : j < b.clients.length := by
      by_contra hle
      rw [StaticBroker.client?, List.getElem?_eq_none (by omega)] at hj
      cases hj
    have hno := List.find?_eq_none.mp hnone j (List.mem_range.mpr hlt)
    simp [hj, hne, heq] at hno

/-- Only the connection itself and the one it takes over, if any, may share its client id. -/
theorem Good.enter (h : Good L [] b) (hc : b.client? i = some old)
    (hfits : ∀ id, c.clientId = some id → id.take (L.maxClientIdLen - 1) = id) :
    (Good L [i] (b.setClient i (some c)) ∧ ∀ j d, j ≠ i → b.client? j = some d → d.clientId = c.clientId → c.clientId = none) ∨
    ∃ j d, j ≠ i ∧ b.client? j = some d ∧ d.clientId = c.clientId ∧ c.clientId ≠ none ∧ Good L [i, j] (b.setClient i (some c)) := by
  -- the invariant, once the slots that may share the client id are exempt
  have hgood : ∀ X : List Nat, i ∈ X →
      (∀ j d, j ≠ i → b.client? j = some d → d.clientId = c.clientId → c.clientId = none ∨ j ∈ X) →
      Good L X (b.setClient i (some c)) := by
    intro X hi hX
    refine ⟨h.carriers, h.distinct, h.next, fun k d hd => ?_, fun k l d e hd he hne heq => ?_, fun k d hd hk => ?_⟩
    · rcases client?_setClient hd with ⟨-, hx⟩ | ⟨-, hd⟩
      · cases hx
        exact hfits
      · exact h.fits k d hd
    · rcases client?_setClient hd with ⟨rfl, hx⟩ | ⟨hk, hd'⟩ <;> rcases client?_setClient he with ⟨rfl, hy⟩ | ⟨hl, he'⟩
      · exact absurd rfl hne
      · cases hx
        exact (hX l e hl he' heq.symm).imp_right (fun hin => ⟨hi, hin⟩)
      · cases hy
        exact (hX k d hk hd' heq).imp (fun hnone => heq.trans hnone) (fun hin => ⟨hin, hi⟩)
      · exact (h.apart k l d e hd' he' hne heq).imp_right (fun hin => by cases hin.1)
    · rcases client?_setClient hd with ⟨rfl, -⟩ | ⟨-, hd⟩
      · exact absurd hi hk
      · exact h.served k d hd (by simp)
  by_cases htwin : ∃ j d, j ≠ i ∧ b.client? j = some d ∧ d.clientId = c.clientId ∧ c.clientId ≠ none
  · obtain ⟨j, d, hne, hd, hid, hsome⟩ := htwin
    refine .inr ⟨j, d, hne, hd, hid, hsome, hgood [i, j] (by simp) fun k e hk he heq => ?_⟩
    by_cases hkj : k = j
    · exact .inr (by simp [hkj])
    · exact (h.apart k j e d he hd hkj (heq.trans hid.symm)).imp (fun hnone => heq ▸ hnone) (fun hin => by cases hin.1)
  · have hnone : ∀ j d, j ≠ i → b.client? j = some d → d.clientId = c.clientId → c.clientId = none := by
      intro j d hne hd heq
      by_contra hsome
      exact htwin ⟨j, d, hne, hd, heq, hsome⟩
    exact .inl ⟨hgood [i] (by simp) (fun j d hne hd heq => .inl (hnone j d hne hd heq)), hnone⟩

/-- The connection taken over is gone; the one that takes over is as ready as before. -/
theorem Good.takeover (req : ConnectReq) (old : StaticClient) (h : Good L [i, j] b) (hne : j ≠ i) (hi : b.client? i = some c) (hdown : c.connected = false)
    (hready : Ready L c) :
    ∃ b' c', takeover L req i j c old b = some b' ∧ Good L [i] b' ∧ b'.client? i = some c' ∧ c'.clientId = c.clientId ∧
      c'.connected = false ∧ Ready L c' := by
  have hmem : i ∈ [i, j] := by simp
  unfold Static.takeover
  dsimp only
  obtain ⟨b₁, h₁, hgood₁, hi₁⟩ : ∃ b₁, (if old.protocolLevel < level5 then Static.deliverAll L req.oldWill b
      else some (Static.onClient j 0 (Static.sendDisconnect L.toLimits Reason.sessionTakenOver) b).2) = some b₁ ∧
      Good L [i, j] b₁ ∧ b₁.client? i = some c := by
    split
    · obtain ⟨b₁, h₁, hgood₁⟩ := h.deliverAll req.oldWill
      exact ⟨b₁, h₁, hgood₁, client?_deliverAll h₁ hi hdown⟩
    · exact ⟨_, rfl, h.onClient 0 (sendDisconnect_moves L.toLimits _), (client?_onClient_ne 0 _ (Ne.symm hne)).trans hi⟩
  rw [h₁]
  dsimp only
  have hun : ∀ id, c.clientId = some id → Unwatched [i, j] b₁ id := fun id => hgood₁.unwatched hmem hi₁
  have hqos2 : (takeoverQos2 old c).clientId = c.clientId ∧ (takeoverQos2 old c).connected = c.connected ∧
      ((takeoverQos2 old c).unacked = c.unacked ∧ (takeoverQos2 old c).outInflight = c.outInflight) ∧
      (takeoverQos2 old c).clientReceiveMax = c.clientReceiveMax := by
    unfold takeoverQos2
    split <;> exact ⟨rfl, rfl, ⟨rfl, rfl⟩, rfl⟩
  have hready' : Ready L (takeoverQos2 old c) :=
    ⟨hqos2.2.2.1.1.trans hready.unacked, hqos2.2.2.1.2 ▸ hready.size, hqos2.2.2.2 ▸ hready.receiveMax⟩
  have hset : Good L [i, j] (b₁.setClient i (some (takeoverQos2 old c))) :=
    hgood₁.setClient hi₁ hqos2.1 (fun hnot => absurd hmem hnot)
  have hstays : ∀ {b₂ : StaticBroker} {c₂ : StaticClient}, Good L [i, j] b₂ → b₂.client? i = some c₂ → c₂.clientId = c.clientId →
      c₂.connected = false → Ready L c₂ → ∃ b' c', some (b₂.setClient j none) = some b' ∧ Good L [i] b' ∧ b'.client? i = some c' ∧
        c'.clientId = c.clientId ∧ c'.connected = false ∧ Ready L c' := by
    intro b₂ c₂ hgood₂ hc₂ hid₂ hdown₂ hready₂
    exact ⟨_, c₂, rfl, (hgood₂.remove j).admit_empty client?_setClient_none, (client?_setClient_ne (Ne.symm hne)).trans hc₂, hid₂,
      hdown₂, hready₂⟩
  split
  · have hun' : ∀ id, c.clientId = some id → Unwatched [i, j] (b₁.setClient i (some (takeoverQos2 old c))) id :=
      fun id hcid => hset.unwatched hmem (client?_setClient_self hi₁) (hqos2.1.trans hcid)
    refine hstays (hset.withOrphan fun o _ hcid => .changed resetDelivery_preserves (hun' _ hcid)) ?_ hqos2.1 (hqos2.2.1.trans hdown) hready'
    rw [client?_withOrphan]
    exact client?_setClient_self hi₁
  · split
    · refine hstays (hgood₁.dropOrphan hun) ?_ rfl hdown hready
      rw [client?_dropOrphan]
      exact hi₁
    · exact hstays hgood₁ hi₁ rfl hdown hready

/-- The session of a connection that waits for its CONNACK. -/
theorem Good.openSession (req : ConnectReq) (h : Good L [i] b) {c' : StaticClient} (hc : b.client? i = some c') (hid : c'.clientId = c.clientId)
    (hready : Ready L c') : Good L [i] (openSession L req i c b) ∧ ∃ c'', (openSession L req i c b).client? i = some c'' ∧ Ready L c'' := by
  have hi : i ∈ [i] := List.mem_singleton_self i
  unfold Static.openSession
  split
  · have hdropped : Good L [i] (Static.dropOrphan c.clientId b) := h.dropOrphan fun id hcid => h.unwatched hi hc (hid.trans hcid)
    have hc₁ : (Static.dropOrphan c.clientId b).client? i = some c' := (client?_dropOrphan i).trans hc
    dsimp only
    split
    · exact ⟨hdropped.takeOrphan hi hc₁ hid.symm, c', (client?_takeOrphan L c i).trans hc₁, hready⟩
    · exact ⟨hdropped, c', hc₁, hready⟩
  · obtain ⟨hgood, hc₁⟩ : Good L [i] (if (findOrphan b c.clientId).isNone ∧ c.sessionExpirySec ≠ 0 then (Static.takeOrphan L c b).2 else b) ∧
        (if (findOrphan b c.clientId).isNone ∧ c.sessionExpirySec ≠ 0 then (Static.takeOrphan L c b).2 else b).client? i = some c' := by
      split
      · exact ⟨h.takeOrphan hi hc hid.symm, (client?_takeOrphan L c i).trans hc⟩
      · exact ⟨h, hc⟩
    dsimp only
    generalize (if (findOrphan b c.clientId).isNone ∧ c.sessionExpirySec ≠ 0 then (Static.takeOrphan L c b).2 else b) = b₁ at hgood hc₁ ⊢
    split
    · exact ⟨hgood, c', hc₁, hready⟩
    · rename_i k hk
      unfold resumeCarrier
      obtain ⟨o, ho, -⟩ := findOrphan_some hk
      rw [hc₁, orphan?_of_getElem? ho]
      dsimp only
      have hcarrier : Good L [i] (b₁.setOrphan k (some {o with
          protocolLevel := c'.protocolLevel, qos2Pending := (reclaimQos2 c'.qos2Pending o.qos2Pending).2})) := by
        refine hgood.setOrphan fun s hs => ?_
        rw [ho] at hs
        cases hs
        exact .calm (.of_eq rfl rfl rfl)
      refine ⟨hcarrier.setClient (c := c') hc₁ rfl (fun hnot => absurd hi hnot), _, client?_setClient_self (c := c') hc₁, ?_⟩
      exact ⟨hready.unacked, hready.size, hready.receiveMax⟩

/-- An accepted CONNECT: alone with its client id, or with the connection it takes over. -/
theorem Good.acceptConnect (hc : b.client? i = some c) (hdown : c.connected = false) (hready : Ready L c)
    (h : (Good L [i] b ∧ ∀ j d, j ≠ i → b.client? j = some d → d.clientId = c.clientId → c.clientId = none) ∨
      ∃ j d, j ≠ i ∧ b.client? j = some d ∧ d.clientId = c.clientId ∧ c.clientId ≠ none ∧ Good L [i, j] b) :
    ∃ b', acceptConnect L req i c b = some b' ∧ Good L [] b' := by
  have hanswer : ∀ {b₁ : StaticBroker} {c₁ : StaticClient}, Good L [i] b₁ → b₁.client? i = some c₁ → c₁.clientId = c.clientId →
      Ready L c₁ → ∃ b', some (Static.answerConnect L req i (Static.openSession L req i c b₁)) = some b' ∧ Good L [] b' := by
    intro b₁ c₁ hgood hc₁ hid hready₁
    obtain ⟨hopen, c₂, hc₂, hready₂⟩ := hgood.openSession req hc₁ hid hready₁
    exact ⟨_, rfl, hopen.answerConnect hc₂ hready₂⟩
  unfold Static.acceptConnect
  dsimp only
  rcases h with ⟨hgood, halone⟩ | ⟨j, d, hne, hd, hid, hsome, hgood⟩
  · have hnone : findByClientId b c.clientId i = none := by
      cases hf : findByClientId b c.clientId i with
      | none => rfl
      | some j =>
        obtain ⟨hne, old, hold, heq, hsome⟩ := findByClientId_some hf
        exact absurd (halone j old hne hold heq) hsome
    rw [hnone]
    exact hanswer hgood hc rfl hready
  · cases hf : findByClientId b c.clientId i with
    | none => exact absurd (hid ▸ hf) (findByClientId_isSome hd hne (hid ▸ hsome))
    | some k =>
      obtain ⟨hk, old, hold, heq, -⟩ := findByClientId_some hf
      -- the other connection with this client id can only be the one we know
      have hkj : k = j := by
        by_contra hkj
        rcases hgood.apart k j old d hold hd hkj (heq.trans hid.symm) with hnone | ⟨hin, -⟩
        · exact hsome (heq ▸ hnone)
        · rcases List.mem_cons.mp hin with rfl | hin
          · exact hk rfl
          · exact hkj (List.mem_singleton.mp hin)
      subst hkj
      dsimp only
      rw [hold]
      obtain ⟨b₁, c₁, h₁, hgood₁, hc₁, hid₁, -, hready₁⟩ := hgood.takeover req old hk hc hdown hready
      dsimp only
      rw [h₁]
      exact hanswer hgood₁ hc₁ hid₁ hready₁

theorem Ready.readConnect (h : Fresh L c) (hok : ¬(req.protocolLevel ≥ level5 ∧ req.receiveMax = some 0)) :
    Ready L (readConnect L req c) := by
  refine ⟨h.unacked, h.size, ?_⟩
  show (if req.protocolLevel ≥ level5 then req.receiveMax.getD 0xFFFF else 0xFFFF) ≠ 0
  split
  · rename_i hv5
    have hzero : req.receiveMax ≠ some 0 := fun heq => hok ⟨hv5, heq⟩
    cases hmax : req.receiveMax with
    | none => exact nofun
    | some n => exact fun heq => hzero (hmax.trans (congrArg some heq))
  · exact nofun

theorem readConnect_fits (req : ConnectReq) (c : StaticClient) (id : Bytes) (h : (readConnect L req c).clientId = some id) :
    id.take (L.maxClientIdLen - 1) = id := by
  have hstored : storeString L.maxClientIdLen req.clientId = some id := h
  unfold storeString at hstored
  dsimp only at hstored
  split at hstored
  · cases hstored
  · cases hstored
    rw [List.take_take, Nat.min_self]

/-- A carrier is reserved for the connection, or none is needed; then the CONNECT is accepted. -/
theorem acceptReserved (req : ConnectReq) (hready : Ready L c) (hdown : c.connected = false) (hi : b.client? i = some old)
    (henter : (Good L [i] (b.setClient i (some c)) ∧
        ∀ j d, j ≠ i → b.client? j = some d → d.clientId = c.clientId → c.clientId = none) ∨
      ∃ j d, j ≠ i ∧ b.client? j = some d ∧ d.clientId = c.clientId ∧ c.clientId ≠ none ∧ Good L [i, j] (b.setClient i (some c))) :
    ∃ b', acceptConnect L req i {c with sessionEstablished := true}
      ((if c.sessionExpirySec ≠ 0 then Static.takeOrphan L c (b.setClient i (some c))
        else (true, Static.sweep (b.setClient i (some c)))).2.setClient i (some {c with sessionEstablished := true})) = some b' ∧
      Good L [] b' := by
  have hself : (b.setClient i (some c)).client? i = some c := client?_setClient_self hi
  have hclients : ∀ j, (if c.sessionExpirySec ≠ 0 then Static.takeOrphan L c (b.setClient i (some c))
      else (true, Static.sweep (b.setClient i (some c)))).2.client? j = (b.setClient i (some c)).client? j := by
    intro j
    split
    · exact client?_takeOrphan L c j
    · rfl
  have hreserve : ∀ {X : List Nat}, i ∈ X → Good L X (b.setClient i (some c)) →
      Good L X (if c.sessionExpirySec ≠ 0 then Static.takeOrphan L c (b.setClient i (some c))
        else (true, Static.sweep (b.setClient i (some c)))).2 := by
    intro X hX hgood
    split
    · exact hgood.takeOrphan hX hself rfl
    · exact hgood.sweep
  generalize (if c.sessionExpirySec ≠ 0 then Static.takeOrphan L c (b.setClient i (some c))
    else (true, Static.sweep (b.setClient i (some c)))).2 = b₁ at hclients hreserve ⊢
  have hi₁ : b₁.client? i = some c := (hclients i).trans hself
  have hothers : ∀ {j}, j ≠ i → (b₁.setClient i (some {c with sessionEstablished := true})).client? j = b.client? j :=
    fun hne => (client?_setClient_ne hne).trans ((hclients _).trans (client?_setClient_ne hne))
  have hset : ∀ {X : List Nat}, i ∈ X → Good L X (b.setClient i (some c)) →
      Good L X (b₁.setClient i (some {c with sessionEstablished := true})) :=
    fun hX hgood => (hreserve hX hgood).setClient hi₁ rfl (fun hnot => absurd hX hnot)
  refine Good.acceptConnect (client?_setClient_self hi₁) hdown ⟨hready.unacked, hready.size, hready.receiveMax⟩ ?_
  rcases henter with ⟨hgood, halone⟩ | ⟨j, d, hne, hd, hid, hsome, hgood⟩
  · exact .inl ⟨hset (by simp) hgood, fun j d hne hd => halone j d hne (hothers hne ▸ hd)⟩
  · exact .inr ⟨j, d, hne, (hothers hne).trans hd, hid, hsome, hset (by simp) hgood⟩

/-- A connection that finds no free carrier was never there. -/
theorem Good.noCarrier (h : Good L [] b) (hnone : (Static.takeOrphan L c (b.setClient i (some c))).1 = false) :
    Good L [] ((Static.takeOrphan L c (b.setClient i (some c))).2.setClient i none) := by
  have hback : ∀ id, hasLiveClient (b.setClient i (some c)).clients id = false → Unwatched [] (b.setClient i none) id := by
    intro id hdead j d hd hj
    rcases client?_setClient hd with ⟨-, hx⟩ | ⟨hne, hd⟩
    · cases hx
    · exact hasLiveClient_false (X := []) hdead j d ((client?_setClient_ne hne).trans hd) hj
  have hclients : (b.clients.set i (some c)).set i none = b.clients.set i none := List.set_set ..
  unfold Static.takeOrphan at hnone ⊢
  split at hnone
  · show Good L [] {b with clients := (b.clients.set i (some c)).set i none}
    rw [hclients]
    exact h.remove i
  · dsimp only at hnone ⊢
    split at hnone
    · cases hnone
    · split at hnone
      · show Good L [] {b with
          clients := (b.clients.set i (some c)).set i none
          orphans := b.orphans.map (sweepSlot (b.setClient i (some c)).clients b.env.getTime.1)
          env := b.env.getTime.2}
        rw [hclients]
        exact ((h.remove i).sweepSlots hback b.env.getTime.1).env _
      · cases hnone

/-- Every CONNECT returns, and leaves the invariant with nothing exempt. -/
theorem Good.handleConnect (h : Good L [] b) (req : ConnectReq) (i : Nat) :
    ∃ b', handleConnect L req i b = some b' ∧ Good L [] b' := by
  unfold Static.handleConnect
  split
  · exact ⟨b, rfl, h⟩
  · rename_i c₀ hc₀
    split
    · exact ⟨b, rfl, h⟩
    · rename_i hnew
      have hdown : c₀.connected = false := by simpa using (not_or.mp hnew).1
      have hfresh : Fresh L c₀ := (h.served i c₀ hc₀ (by simp)).fresh hdown (by simpa using (not_or.mp hnew).2)
      split
      · exact ⟨_, rfl, h.sweep.remove i⟩
      · rename_i hok
        have hready : Ready L (readConnect L req c₀) := .readConnect hfresh (not_or.mp hok).2
        have hsweep : Good L [] (Static.sweep b) := h.sweep
        have hc₁ : (Static.sweep b).client? i = some c₀ := hc₀
        have henter := hsweep.enter hc₁ (readConnect_fits req c₀)
        have hdown' : (readConnect L req c₀).connected = false := hdown
        generalize readConnect L req c₀ = c at hready hdown' henter ⊢
        generalize Static.sweep b = b₁ at hsweep hc₁ henter ⊢
        have haccept := acceptReserved req hready hdown' hc₁ henter
        have hrefuse : (if c.sessionExpirySec ≠ 0 then Static.takeOrphan L c (b₁.setClient i (some c))
              else (true, Static.sweep (b₁.setClient i (some c)))).1 = false →
            Good L [] ((if c.sessionExpirySec ≠ 0 then Static.takeOrphan L c (b₁.setClient i (some c))
              else (true, Static.sweep (b₁.setClient i (some c)))).2.setClient i none) := by
          split
          · exact hsweep.noCarrier
          · exact nofun
        dsimp only
        generalize (if c.sessionExpirySec ≠ 0 then Static.takeOrphan L c (b₁.setClient i (some c))
          else (true, Static.sweep (b₁.setClient i (some c)))) = reserved at haccept hrefuse ⊢
        split
        · exact ⟨_, rfl, hrefuse (by simpa using ‹(!reserved.1) = true›)⟩
        · exact haccept

end connect

end WolfMqtt.Static