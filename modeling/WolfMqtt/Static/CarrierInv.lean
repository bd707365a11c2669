import Mathlib.Logic.Function.Iterate
import Mathlib.Data.List.Nodup
import Mathlib.Data.List.Perm.Subperm
import WolfMqtt.Broker.Serve
import WolfMqtt.Static.Carrier

/-! The invariant of one carrier, and what each of its operations does to it.

`LiveOk` speaks of the list of entries alone: taking one out and changing one are all
that ever happens to it, apart from a new entry at its end. Operations that no
acknowledgement, write or end of a connection causes are `Calm`: they leave the
entries in flight as they are. -/
namespace WolfMqtt.Static
open Broker Row

/-! ### The invariant -/

/-- Does an entry await an acknowledgement? -/
def inFlight (e : StaticOutPub) : Bool := e.state ≠ .queued

/-- The entries of a carrier, `n` of them in flight. -/
structure LiveOk (n : Int) (live : List StaticOutPub) : Prop where
  distinct : live.Pairwise (fun x y => x.packetId ≠ y.packetId)
  nonzero : ∀ e ∈ live, e.packetId ≠ 0
  inflight : n = live.countP inFlight
  /-- Only a QoS 2 delivery gets as far as PUBREL. -/
  pubrel : ∀ e ∈ live, e.state = .pubrelSent → e.qos = .qos2

structure CarrierOk (L : StaticLimits) (o : Carrier) : Prop where
  cells : o.outQ.Ok
  size : o.outQ.cells.length = L.maxStaticOfflineMsgsPerSub
  live : LiveOk o.outQInflight o.outQ.live

theorem CarrierOk.count_le {L : StaticLimits} {o : Carrier} (h : CarrierOk L o) :
    0 ≤ o.outQ.count ∧ o.outQ.count ≤ L.maxStaticOfflineMsgsPerSub :=
  ⟨h.cells.nonneg, h.size ▸ h.cells.fits⟩

/-- The identifiers in flight, each with the QoS its message was sent at. -/
def sentPairs (o : Carrier) : List (Nat × QoS) := (o.outQ.live.filter inFlight).map (fun e => (e.packetId, e.qos))

/-- The carrier of the same session, as sound as before. -/
structure Preserves (L : StaticLimits) (o o' : Carrier) : Prop where
  clientId : o'.clientId = o.clientId
  ok : CarrierOk L o → CarrierOk L o'

/-- Nothing in flight has changed. -/
structure Calm (L : StaticLimits) (o o' : Carrier) : Prop extends Preserves L o o' where
  sent : CarrierOk L o → sentPairs o' = sentPairs o
  inflight : o'.outQInflight = o.outQInflight

section relations
variable {L : StaticLimits} {o o₁ o₂ : Carrier}

theorem Preserves.refl : Preserves L o o := ⟨rfl, id⟩

theorem Preserves.trans (h₁ : Preserves L o o₁) (h₂ : Preserves L o₁ o₂) : Preserves L o o₂ :=
  ⟨h₂.clientId.trans h₁.clientId, fun h => h₂.ok (h₁.ok h)⟩

theorem Calm.refl : Calm L o o := ⟨Preserves.refl, fun _ => rfl, rfl⟩

theorem Calm.trans (h₁ : Calm L o o₁) (h₂ : Calm L o₁ o₂) : Calm L o o₂ :=
  ⟨h₁.toPreserves.trans h₂.toPreserves, fun h => (h₂.sent (h₁.ok h)).trans (h₁.sent h), h₂.inflight.trans h₁.inflight⟩

end relations

/-! ### One entry -/

section live
variable {n : Int} {pre post : List StaticOutPub} {e e' : StaticOutPub}

/-- An entry is taken out. -/
theorem LiveOk.erase (h : LiveOk n (pre ++ e :: post)) :
    LiveOk (if inFlight e then n - 1 else n) (pre ++ post) := by
  have hsub : (pre ++ post).Sublist (pre ++ e :: post) := (List.sublist_cons_self e post).append_left pre
  refine ⟨h.distinct.sublist hsub, fun x hx => h.nonzero x (hsub.subset hx), ?_, fun x hx => h.pubrel x (hsub.subset hx)⟩
  have hcount := h.inflight
  rw [List.countP_append, List.countP_cons] at hcount
  rw [List.countP_append]
  split <;> rename_i he <;> simp only [he] at hcount <;> simp at hcount <;> omega

/-- An entry is changed, but not its identifier. -/
theorem LiveOk.change (h : LiveOk n (pre ++ e :: post)) (hid : e'.packetId = e.packetId)
    (hpubrel : e'.state = .pubrelSent → e'.qos = .qos2) :
    LiveOk (n - (if inFlight e then 1 else 0) + (if inFlight e' then 1 else 0)) (pre ++ e' :: post) := by
  have hmem : ∀ {P : StaticOutPub → Prop}, P e' → (∀ x ∈ pre ++ e :: post, P x) → ∀ x ∈ pre ++ e' :: post, P x := by
    intro P he hall x hx
    rcases List.mem_append.mp hx with hx | hx
    · exact hall x (List.mem_append_left _ hx)
    · rcases List.mem_cons.mp hx with rfl | hx
      · exact he
      · exact hall x (List.mem_append_right _ (List.mem_cons_of_mem _ hx))
  refine ⟨?_, hmem (hid ▸ h.nonzero e (by simp)) h.nonzero, ?_, hmem hpubrel h.pubrel⟩
  · have hids : ((pre ++ e' :: post).map (·.packetId)) = ((pre ++ e :: post).map (·.packetId)) := by simp [hid]
    have hpair := List.pairwise_map.mpr h.distinct
    rw [← hids] at hpair
    exact List.pairwise_map.mp hpair
  · have hcount := h.inflight
    rw [List.countP_append, List.countP_cons] at hcount ⊢
    rw [hcount]
    split <;> split <;> simp <;> omega

/-- A new entry, not yet sent. -/
theorem LiveOk.append {live : List StaticOutPub} (h : LiveOk n live) (hnew : ∀ x ∈ live, x.packetId ≠ e.packetId)
    (hid : e.packetId ≠ 0) (hqueued : e.state = .queued) : LiveOk n (live ++ [e]) := by
  refine ⟨?_, ?_, ?_, ?_⟩
  · rw [List.pairwise_append]
    exact ⟨h.distinct, List.pairwise_singleton .., fun x hx y hy => List.mem_singleton.mp hy ▸ hnew x hx⟩
  · intro x hx
    rcases List.mem_append.mp hx with hx | hx
    · exact h.nonzero x hx
    · exact List.mem_singleton.mp hx ▸ hid
  · rw [List.countP_append, h.inflight]
    simp [inFlight, hqueued]
  · intro x hx hrel
    rcases List.mem_append.mp hx with hx | hx
    · exact h.pubrel x hx hrel
    · rw [List.mem_singleton.mp hx, hqueued] at hrel
      cases hrel

end live

/-! ### Entries leave, and sessions change connection -/

section carrier
variable {L : StaticLimits} {o : Carrier} {i : Nat} {e : StaticOutPub}

/-- A carrier with the same cells and count. -/
theorem Calm.of_eq {o' : Carrier} (hid : o'.clientId = o.clientId) (hq : o'.outQ = o.outQ)
    (hn : o'.outQInflight = o.outQInflight) : Calm L o o' :=
  ⟨⟨hid, fun h => ⟨hq ▸ h.cells, hq ▸ h.size, hq ▸ hn ▸ h.live⟩⟩, fun _ => by rw [sentPairs, hq]; rfl, hn⟩

theorem CarrierOk.removeAt (h : CarrierOk L o) (he : o.outQ.live[i]? = some e) {n : Int}
    (hn : n = if inFlight e then o.outQInflight - 1 else o.outQInflight) :
    CarrierOk L {removeAt i o with outQInflight := n} := by
  obtain ⟨pre, post, hlive, herase, -⟩ := split_at he
  refine ⟨h.cells.removeAt .., ?_, ?_⟩
  · exact (Cells.length_cells_removeAt ..).trans h.size
  · show LiveOk n (o.outQ.removeAt {} i).live
    rw [h.cells.live_removeAt, herase, hn]
    exact (hlive ▸ h.live).erase

theorem removeAt_calm (he : o.outQ.live[i]? = some e) (hqueued : e.state = .queued) : Calm L o (removeAt i o) := by
  have hq : inFlight e = false := by simp [inFlight, hqueued]
  refine ⟨⟨rfl, fun h => h.removeAt he (by rw [hq]; rfl)⟩, fun h => ?_, rfl⟩
  obtain ⟨pre, post, hlive, herase, -⟩ := split_at he
  show ((o.outQ.removeAt {} i).live.filter inFlight).map _ = ((o.outQ.live).filter inFlight).map _
  rw [h.cells.live_removeAt, herase, hlive, List.filter_append, List.filter_append, List.filter_cons_of_neg (by simp [hq])]

theorem removeExpiredFrom_calm (now fuel : Nat) : Calm L o (removeExpiredFrom now i o fuel) := by
  induction fuel generalizing i o with
  | zero => exact .refl
  | succ fuel ih =>
    unfold removeExpiredFrom
    split
    · exact .refl
    · rename_i e he
      split
      · rename_i hexp
        exact (removeAt_calm he hexp.1).trans ih
      · exact ih

theorem mem_of_mem_removeExpiredFrom {x : StaticOutPub} {now j fuel : Nat} (h : x ∈ (removeExpiredFrom now j o fuel).outQ.live) :
    x ∈ o.outQ.live := by
  induction fuel generalizing j o with
  | zero => exact h
  | succ fuel ih =>
    unfold removeExpiredFrom at h
    split at h
    · exact h
    split at h
    · exact Cells.mem_of_mem_removeAt (ih h)
    · exact ih h

theorem removeExpiredQueued_calm (now : Nat) : Calm L o (removeExpiredQueued now o) := removeExpiredFrom_calm ..

theorem resetEntry_packetId (e : StaticOutPub) : (resetEntry e).packetId = e.packetId := by
  unfold resetEntry
  split <;> rfl

theorem inFlight_resetEntry (e : StaticOutPub) : inFlight (resetEntry e) = decide (e.state = .pubrelSent) := by
  unfold resetEntry
  split <;> rename_i hs <;> simp [inFlight, hs]

theorem resetDelivery_preserves : Preserves L o (resetDelivery o) := by
  refine ⟨rfl, fun h => ⟨h.cells.map _, (Cells.length_cells_map ..).trans h.size, ?_⟩⟩
  show LiveOk (o.outQ.live.countP (fun e => e.state = .pubrelSent)) (o.outQ.map resetEntry).live
  rw [h.cells.live_map]
  refine ⟨?_, ?_, ?_, ?_⟩
  · rw [List.pairwise_map]
    refine h.live.distinct.imp fun {x y} hxy => ?_
    rw [resetEntry_packetId, resetEntry_packetId]
    exact hxy
  · intro x hx
    obtain ⟨e, he, rfl⟩ := List.mem_map.mp hx
    rw [resetEntry_packetId]
    exact h.live.nonzero e he
  · rw [List.countP_map]
    congr 2
    funext e
    exact (inFlight_resetEntry e).symm
  · intro x hx hrel
    obtain ⟨e, he, rfl⟩ := List.mem_map.mp hx
    have hstate : e.state = .pubrelSent := by
      have hin := inFlight_resetEntry e
      simpa [inFlight, hrel] using hin.symm
    have hqos := h.live.pubrel e he hstate
    simpa [resetEntry, hstate] using hqos

/-! ### Enqueue -/

/-- The identifiers a search has seen when it is still searching are all taken. -/
theorem searchPacketId_none {live : List StaticOutPub} {fuel next : Nat} (h : searchPacketId live 0 fuel next = none)
    {j : Nat} (hj : j < fuel) : succPacketId^[j] (nextPacketId next).1 ∈ live.map (·.packetId) := by
  induction fuel generalizing next j with
  | zero => exact absurd hj (Nat.not_lt_zero j)
  | succ fuel ih =>
    unfold searchPacketId at h
    simp only [if_pos, ne_eq, not_true_eq_false, if_false] at h
    split at h
    · rename_i htaken
      cases j with
      | zero =>
        obtain ⟨e, he, hid⟩ := List.any_eq_true.mp htaken
        exact List.mem_map.mpr ⟨e, he, by simpa using hid⟩
      | succ j =>
        have hnext := ih h (Nat.lt_of_succ_lt_succ hj)
        rw [Function.iterate_succ_apply]
        have hfirst : (nextPacketId (nextPacketId next).2).1 = succPacketId (nextPacketId next).1 := by
          show (if succPacketId _ = 0 then 1 else succPacketId _) = _
          exact if_neg (succPacketId_ne _)
        exact hfirst ▸ hnext
    · cases h

/-- With fewer entries than identifiers the search ends. -/
theorem searchPacketId_isSome {live : List StaticOutPub} {next : Nat} (packetId : Nat) (hlen : live.length < 65535) :
    (searchPacketId live packetId searchTurns next).isSome := by
  by_cases hid : packetId = 0
  · subst hid
    rw [Option.isSome_iff_ne_none]
    intro hnone
    have hfirst : (nextPacketId next).1 ≠ 0 := by
      unfold nextPacketId
      dsimp only
      split <;> omega
    obtain ⟨j, hj, hfree⟩ := exists_succPacketId_notMem hfirst (live.map (·.packetId)) (by simpa using hlen)
    exact hfree (searchPacketId_none hnone hj)
  · show (searchPacketId live packetId (65534 + 1) next).isSome
    unfold searchPacketId
    rw [if_neg hid]
    dsimp only
    rw [if_pos hid]
    split <;> rfl

/-- What the search finds is free, and the broker's next identifier stays one. -/
theorem searchPacketId_some {live : List StaticOutPub} {packetId fuel next : Nat} {r : IdSearch} (hnext : next ≤ 65535)
    (h : searchPacketId live packetId fuel next = some r) :
    r.next ≤ 65535 ∧ ∀ id, r.id = some id → id ≠ 0 ∧ ∀ e ∈ live, e.packetId ≠ id := by
  induction fuel generalizing next with
  | zero => cases h
  | succ fuel ih =>
    have hgood : (if packetId = 0 then nextPacketId next else (packetId, next)).1 ≠ 0 ∧
        (if packetId = 0 then nextPacketId next else (packetId, next)).2 ≤ 65535 := by
      split
      · unfold nextPacketId succPacketId
        dsimp only
        split <;> split <;> omega
      · exact ⟨‹_›, hnext⟩
    unfold searchPacketId at h
    generalize (if packetId = 0 then nextPacketId next else (packetId, next)) = candidate at h hgood
    dsimp only at h
    split at h
    · split at h
      · cases h
        exact ⟨hgood.2, fun id hid => by cases hid⟩
      · exact ih hgood.2 h
    · rename_i hfree
      cases h
      refine ⟨hgood.2, fun id hid => ?_⟩
      cases hid
      refine ⟨hgood.1, fun e he heq => hfree ?_⟩
      exact List.any_eq_true.mpr ⟨e, he, by simpa using heq⟩

/-- A message is refused, or comes last in the queue. -/
theorem enqueue_spec {m : Message} {s : Desk} (h : CarrierOk L s.o) (hnext : s.next ≤ 65535) :
    ∃ r, enqueue L m s = some r ∧ Calm L s.o r.2.o ∧ r.2.next ≤ 65535 := by
  unfold enqueue
  split
  · exact ⟨_, rfl, .refl, hnext⟩
  · rename_i props hprops
    have hcalm : Calm L s.o (removeExpiredQueued s.env.getTime.1 s.o) := removeExpiredQueued_calm _
    have hok := hcalm.ok h
    dsimp only
    split
    · exact ⟨_, rfl, hcalm, hnext⟩
    · rename_i hroom
      have hlen := hok.cells.length_live
      have hmax := L.staticOffline_le
      have hsize := hok.size
      have hsome : (searchPacketId (removeExpiredQueued s.env.getTime.1 s.o).outQ.live m.packetId searchTurns s.next).isSome :=
        searchPacketId_isSome _ (by omega)
      obtain ⟨⟨id, next⟩, hsearch⟩ := Option.isSome_iff_exists.mp hsome
      rw [hsearch]
      obtain ⟨hle, hfree⟩ := searchPacketId_some hnext hsearch
      cases id with
      | none => exact ⟨_, rfl, hcalm, hle⟩
      | some id =>
        obtain ⟨hne, hnew⟩ := hfree id rfl
        have hfits : (removeExpiredQueued s.env.getTime.1 s.o).outQ.count <
            ((removeExpiredQueued s.env.getTime.1 s.o).outQ.cells.length : Int) := by omega
        refine ⟨_, rfl, hcalm.trans ⟨⟨rfl, fun h => ⟨h.cells.push hfits _, ?_, ?_⟩⟩, fun h => ?_, rfl⟩, hle⟩
        · exact (Cells.length_cells_push ..).trans h.size
        · show LiveOk _ ((removeExpiredQueued s.env.getTime.1 s.o).outQ.push _).live
          rw [h.cells.live_push hfits]
          exact h.live.append (e := newEntry m props id s.env.getTime.1) hnew hne rfl
        · show (((removeExpiredQueued s.env.getTime.1 s.o).outQ.push _).live.filter inFlight).map _ = _
          rw [h.cells.live_push hfits, List.filter_append]
          simp [inFlight, newEntry, sentPairs]

/-! ### Acknowledgements -/

/-- What an acknowledgement for this identifier may do, when it belongs to messages at this QoS:
every other identifier in flight stays so, and entries at another QoS are not touched. -/
structure Settles (L : StaticLimits) (packetId : Nat) (qos : QoS) (o o' : Carrier) : Prop extends Preserves L o o' where
  sent : CarrierOk L o → ∀ p ∈ sentPairs o, p ≠ (packetId, qos) → p ∈ sentPairs o'
  inflight : o'.outQInflight ≤ o.outQInflight
  others : CarrierOk L o →
    o'.outQ.live.filter (fun e => e.qos ≠ qos) = o.outQ.live.filter (fun e => e.qos ≠ qos)

theorem Settles.refl {packetId : Nat} {qos : QoS} : Settles L packetId qos o o :=
  ⟨.refl, fun _ _ hp _ => hp, Int.le_refl _, fun _ => rfl⟩

theorem findPub_some {packetId : Nat} {state : OutPubState} (h : findPub packetId state o = some i) :
    ∃ e, o.outQ.live[i]? = some e ∧ e.packetId = packetId ∧ e.state = state := by
  obtain ⟨e, he, hp⟩ := split_findIdx? h
  exact ⟨e, he, by simpa using hp⟩

theorem complete_settles (he : o.outQ.live[i]? = some e) (hin : inFlight e = true) :
    Settles L e.packetId e.qos o (complete i o) := by
  obtain ⟨pre, post, hlive, herase, -⟩ := split_at he
  refine ⟨⟨rfl, fun h => h.removeAt he ?_⟩, fun h p hp hne => ?_, ?_, fun h => ?_⟩
  · have hcount := h.live.inflight
    rw [hlive, List.countP_append, List.countP_cons, if_pos hin] at hcount
    rw [if_pos hin, if_pos (by omega)]
  · have hgone : (complete i o).outQ.live = pre ++ post := (h.cells.live_removeAt ..).trans herase
    unfold sentPairs at hp ⊢
    rw [hlive, List.filter_append, List.filter_cons_of_pos hin] at hp
    rw [hgone, List.filter_append]
    simp only [List.map_append, List.map_cons, List.mem_append, List.mem_cons] at hp ⊢
    rcases hp with hp | rfl | hp
    · exact .inl hp
    · exact absurd rfl hne
    · exact .inr hp
  · show (if o.outQInflight > 0 then o.outQInflight - 1 else o.outQInflight) ≤ _
    split <;> omega
  · have hgone : (complete i o).outQ.live = pre ++ post := (h.cells.live_removeAt ..).trans herase
    rw [hgone, hlive, List.filter_append, List.filter_append, List.filter_cons_of_neg (by simp)]

theorem completeSent_settles (qos : QoS) (packetId : Nat) : Settles L packetId qos o (completeSent qos packetId o) := by
  unfold completeSent
  split
  · exact .refl
  · rename_i i hfind
    obtain ⟨e, he, rfl, hstate⟩ := findPub_some hfind
    split
    · rename_i hqos
      have hqos : e.qos = qos := by simpa [he] using hqos
      exact hqos ▸ complete_settles he (by simp [inFlight, hstate])
    · exact .refl

theorem onPubComp_settles (hok : CarrierOk L o) (packetId : Nat) : Settles L packetId .qos2 o (onPubComp packetId o) := by
  unfold onPubComp
  split
  · exact .refl
  · rename_i i hfind
    obtain ⟨e, he, rfl, hstate⟩ := findPub_some hfind
    have hqos : e.qos = .qos2 := hok.live.pubrel e (List.mem_of_getElem? he) hstate
    exact hqos ▸ complete_settles he (by simp [inFlight, hstate])

/-- An entry is changed in place, in flight or not as before. -/
theorem modify_calm {f : StaticOutPub → StaticOutPub} (he : o.outQ.live[i]? = some e) (hin : inFlight (f e) = inFlight e)
    (hid : (f e).packetId = e.packetId) (hqos : (f e).qos = e.qos)
    (hpubrel : (f e).state = .pubrelSent → e.state = .pubrelSent ∨ e.qos = .qos2) :
    Calm L o {o with outQ := o.outQ.modify i f} := by
  obtain ⟨pre, post, hlive, -, hmodify⟩ := split_at he
  have hlive' : (o.outQ.modify i f).live = pre ++ f e :: post := (Cells.live_modify ..).trans (hmodify f)
  refine ⟨⟨rfl, fun h => ⟨h.cells.modify .., (Cells.length_cells_modify ..).trans h.size, ?_⟩⟩, fun _ => ?_, rfl⟩
  · show LiveOk o.outQInflight (o.outQ.modify i f).live
    have hrel : (f e).state = .pubrelSent → (f e).qos = .qos2 := by
      intro hs
      rw [hqos]
      exact (hpubrel hs).elim (h.live.pubrel e (List.mem_of_getElem? he)) id
    have hchange := (hlive ▸ h.live).change hid hrel
    rw [hin, Int.sub_add_cancel] at hchange
    exact hlive' ▸ hchange
  · unfold sentPairs
    show ((o.outQ.modify i f).live.filter inFlight).map _ = _
    rw [hlive', hlive, List.filter_append, List.filter_append]
    cases hq : inFlight e
    · rw [List.filter_cons_of_neg (a := f e) (by simp [hin, hq]), List.filter_cons_of_neg (a := e) (by simp [hq])]
    · rw [List.filter_cons_of_pos (a := f e) (by simp [hin, hq]), List.filter_cons_of_pos (a := e) (by simp [hq])]
      simp [hid, hqos]

theorem filter_modify {f : StaticOutPub → StaticOutPub} {p : StaticOutPub → Bool} (he : o.outQ.live[i]? = some e)
    (hp : p e = false) (hp' : p (f e) = false) : (o.outQ.modify i f).live.filter p = o.outQ.live.filter p := by
  obtain ⟨pre, post, hlive, -, hmodify⟩ := split_at he
  rw [Cells.live_modify, hmodify, hlive, List.filter_append, List.filter_append,
    List.filter_cons_of_neg (a := f e) (by simp [hp']), List.filter_cons_of_neg (a := e) (by simp [hp])]

theorem onPubRec_calm (packetId : Nat) : Calm L o (onPubRec packetId o).2 ∧
    (onPubRec packetId o).2.outQ.live.filter (fun e => e.qos ≠ .qos2) = o.outQ.live.filter (fun e => e.qos ≠ .qos2) := by
  unfold onPubRec
  split
  · exact ⟨.refl, rfl⟩
  · rename_i i hfind
    obtain ⟨e, he, hin⟩ : ∃ e, o.outQ.live[i]? = some e ∧ inFlight e = true := by
      rcases Option.or_eq_some_iff.mp hfind with h | ⟨-, h⟩
      all_goals
        obtain ⟨e, he, -, hstate⟩ := findPub_some h
        exact ⟨e, he, by simp [inFlight, hstate]⟩
    split
    · rename_i hqos
      have hqos : e.qos = .qos2 := by simpa [he] using hqos
      refine ⟨modify_calm he ?_ rfl rfl (fun _ => .inr hqos), filter_modify he (by simp [hqos]) (by simp [hqos])⟩
      rw [hin]
      rfl
    · exact ⟨.refl, rfl⟩

theorem pubRelWritten_calm (packetId : Nat) : Calm L o (pubRelWritten packetId o) ∧
    (pubRelWritten packetId o).outQ.live.filter (fun e => e.qos ≠ .qos2) = o.outQ.live.filter (fun e => e.qos ≠ .qos2) := by
  unfold pubRelWritten
  split
  · exact ⟨.refl, rfl⟩
  · rename_i i hfind
    obtain ⟨e, he, -, hstate⟩ := findPub_some hfind
    split
    · rename_i hqos
      have hqos : e.qos = .qos2 := by simpa [he] using hqos
      exact ⟨modify_calm he rfl rfl rfl (fun _ => .inl hstate), filter_modify he (by simp [hqos]) (by simp [hqos])⟩
    · exact ⟨.refl, rfl⟩

end carrier

/-! ### Connections -/

/-- The connection without its buffer and its socket. -/
def StaticClient.still (c : StaticClient) : StaticClient :=
  {c with txBuf := [], writePos := 0, wire := [], sockOpen := true, connected := false, outQPendingLen := 0,
          directPendingLen := 0}

/-- The same connection after writes to its transport, or closed. -/
structure SameConn (c c' : StaticClient) : Prop where
  still : c'.still = c.still
  socket : SameSocket c.toBrokerClient c'.toBrokerClient

theorem SameConn.refl {c : StaticClient} : SameConn c c := ⟨rfl, .inl ⟨rfl, rfl⟩⟩

theorem SameConn.trans {c c₁ c₂ : StaticClient} (h₁ : SameConn c c₁) (h₂ : SameConn c₁ c₂) : SameConn c c₂ := by
  refine ⟨h₂.still.trans h₁.still, ?_⟩
  rcases h₂.socket with ⟨hs, hc⟩ | hgone
  · rcases h₁.socket with ⟨hs₁, hc₁⟩ | ⟨hs₁, hc₁⟩
    · exact .inl ⟨hs.trans hs₁, hc.trans hc₁⟩
    · exact .inr ⟨hs.trans hs₁, hc.trans hc₁⟩
  · exact .inr hgone

section conn
variable {c c' : StaticClient} (h : SameConn c c')
include h

/-- What neither a write nor a close touches. -/
theorem SameConn.field {β : Type} (f : StaticClient → β) (hf : ∀ c, f c.still = f c) : f c' = f c := by
  rw [← hf c', h.still, hf]

theorem SameConn.clientId : c'.clientId = c.clientId := h.field (·.clientId) (fun _ => rfl)

theorem SameConn.receiveMax : c'.clientReceiveMax = c.clientReceiveMax := h.field (·.clientReceiveMax) (fun _ => rfl)

theorem SameConn.outInflight : c'.outInflight = c.outInflight := h.field (·.outInflight) (fun _ => rfl)

theorem SameConn.unacked : c'.unacked = c.unacked := h.field (·.unacked) (fun _ => rfl)

theorem SameConn.connected (hc : c'.connected = true) : c.connected = true := by
  rcases h.socket with ⟨-, hsame⟩ | ⟨-, hgone⟩
  · exact hsame ▸ hc
  · rw [hgone] at hc
    cases hc

end conn

theorem closeSocket_sameConn (c : StaticClient) : SameConn c (closeSocket c) := ⟨rfl, .inr ⟨rfl, rfl⟩⟩

theorem onConn_sameConn {α : Type} {m : ClientM α} (hm : Moves Writes m) (c : StaticClient) (env : Env) :
    SameConn c (onConn m c env).2.1 := by
  have hw := hm ⟨c.toBrokerClient, env⟩
  have hq : (m ⟨c.toBrokerClient, env⟩).2.quiet.c = (Conn.quiet ⟨c.toBrokerClient, env⟩).c := (congrArg Conn.c hw).symm
  have hsock := congrArg BrokerClient.sockOpen hq
  have hconnected := congrArg BrokerClient.connected hq
  have hstill := congrArg (fun b : BrokerClient => {b with sockOpen := true, connected := false}) hq
  exact ⟨congrArg (fun b => {c with toBrokerClient := b}) hstill, .inl ⟨hsock, hconnected⟩⟩

theorem writeDirect_moves (L : Limits) (len : Int) : Moves Writes (Static.writeDirect L len) :=
  .ite (fun _ => .pure _) (fun _ => packetWrite_writes L _)

theorem writeResp_moves (L : Limits) (len : Int) : Moves Writes (Static.writeResp L len) :=
  .bind (writeDirect_moves L len) (fun _ => .ite (fun _ => .pure _) (fun _ => .pure _))

theorem sendDisconnect_moves (L : Limits) (reason : UInt8) : Moves Writes (Static.sendDisconnect L reason) := by
  refine .bind (readClient_writes _) (fun _ => .ite (fun _ => .pure _) (fun _ => ?_))
  exact .bind (encodeInto_writes _) (fun _ => .ite (fun _ => writeDirect_moves L _) (fun _ => .pure _))

/-! ### The drain -/

/-- One thing the drain does. -/
inductive DrainMove (L : StaticLimits) (s s' : Link) : Prop
  /-- It writes to the connection or closes it, drops an entry that is not sent, or marks one. -/
  | calm (hc : SameConn s.c s'.c) (ho : Calm L s.o s'.o)
  /-- It sends a QUEUED entry, within the window. -/
  | sent {i : Nat} {e : StaticOutPub} {f : StaticOutPub → StaticOutPub} (he : s.o.outQ.live[i]? = some e)
    (hqueued : e.state = .queued) (hcap : s.o.outQInflight < L.maxInflightPerSub)
    (hmax : s.c.clientReceiveMax ≠ 0 → s.o.outQInflight < s.c.clientReceiveMax)
    (hid : (f e).packetId = e.packetId) (hqos : (f e).qos = e.qos) (hstate : (f e).state = .publishSent)
    (hc : SameConn {s.c with unacked := s.c.unacked ++ [(e.packetId, e.qos)]} s'.c)
    (ho : s'.o = {s.o with outQ := s.o.outQ.modify i f, outQInflight := s.o.outQInflight + 1})

section drain
variable {L : StaticLimits} {s : Link}

theorem Link.onConn_sameConn {α : Type} {m : ClientM α} (hm : Moves Writes m) (s : Link) :
    SameConn s.c (s.onConn m).2.c ∧ (s.onConn m).2.o = s.o := ⟨Static.onConn_sameConn hm s.c s.env, rfl⟩

theorem closeLink_calm {o : Carrier} (ho : s.o = o) : SameConn s.c (closeLink s).c ∧ Calm L o (closeLink s).o := by
  subst ho
  exact ⟨closeSocket_sameConn s.c, .of_eq rfl rfl rfl⟩

theorem drainPubrel_moves (i : Nat) : DrainMove L s (drainPubrel L i s).2 := by
  unfold drainPubrel
  split
  · exact .calm .refl .refl
  · rename_i e he
    split
    · exact .calm .refl .refl
    · rename_i hrel
      have hstate : e.state = .pubrelSent := by
        by_contra hne
        exact hrel (.inl hne)
      dsimp only
      have henc := s.onConn_sameConn (encodeInto_writes (encodePublishResp L.txBufSz .publishRel
        {packetId := e.packetId, protocolLevel := s.c.protocolLevel}))
      generalize s.onConn (encodeInto (encodePublishResp L.txBufSz .publishRel
        {packetId := e.packetId, protocolLevel := s.c.protocolLevel})) = enc at henc ⊢
      split
      · have hzero := enc.2.onConn_sameConn (zeroTxBuf_writes L.txBufSz)
        have hclose := closeLink_calm (L := L) (hzero.2.trans henc.2)
        exact .calm ((henc.1.trans hzero.1).trans hclose.1) hclose.2
      · have hwr := enc.2.onConn_sameConn (writeDirect_moves L.toLimits enc.1)
        generalize enc.2.onConn (Static.writeDirect L.toLimits enc.1) = wr at hwr ⊢
        have ho : wr.2.o = s.o := hwr.2.trans henc.2
        split
        · have hclose := closeLink_calm (L := L) ho
          exact .calm ((henc.1.trans hwr.1).trans hclose.1) hclose.2
        · have hzero := wr.2.onConn_sameConn (zeroTxBuf_writes enc.1.toNat)
          refine .calm ((henc.1.trans hwr.1).trans hzero.1) ?_
          show Calm L s.o {wr.2.o with outQ := wr.2.o.outQ.modify i _}
          rw [ho]
          exact modify_calm he rfl rfl rfl (fun _ => .inl hstate)

theorem drainPublish_moves {i : Nat} {e : StaticOutPub} (now : Nat) (props : List MqttProp) (he : s.o.outQ.live[i]? = some e)
    (hqueued : e.state = .queued) (hcap : s.o.outQInflight < L.maxInflightPerSub)
    (hmax : s.c.clientReceiveMax ≠ 0 → s.o.outQInflight < s.c.clientReceiveMax) :
    DrainMove L s (drainPublish L i e now props s).2 := by
  unfold drainPublish
  dsimp only
  have henc := s.onConn_sameConn (encodeInto_writes (encodePublish L.txBufSz (entryPublish s.c.protocolLevel props e)))
  generalize s.onConn (encodeInto (encodePublish L.txBufSz (entryPublish s.c.protocolLevel props e))) = enc at henc ⊢
  -- an entry that does not go out whole is dropped
  have hdrop : ∀ n, DrainMove L s
      {(enc.2.onConn (zeroTxBuf n)).2 with o := removeAt i (enc.2.onConn (zeroTxBuf n)).2.o} := by
    intro n
    have hzero := enc.2.onConn_sameConn (zeroTxBuf_writes n)
    refine .calm (henc.1.trans hzero.1) ?_
    show Calm L s.o (removeAt i enc.2.o)
    rw [henc.2]
    exact removeAt_calm he hqueued
  split
  · exact hdrop _
  split
  · exact hdrop _
  have hwr := enc.2.onConn_sameConn (writeDirect_moves L.toLimits enc.1)
  generalize enc.2.onConn (Static.writeDirect L.toLimits enc.1) = wr at hwr ⊢
  have ho : wr.2.o = s.o := hwr.2.trans henc.2
  split
  · refine .calm ((henc.1.trans hwr.1).trans (closeSocket_sameConn _)) ?_
    have hmark : Calm L s.o {s.o with outQ := s.o.outQ.modify i (fun e => {e with duplicate := true})} :=
      modify_calm he rfl rfl rfl .inl
    refine hmark.trans (closeLink_calm ?_).2
    exact congrArg (fun o : Carrier => {o with outQ := o.outQ.modify i (fun e => {e with duplicate := true})}) ho
  · have hzero := wr.2.onConn_sameConn (zeroTxBuf_writes enc.1.toNat)
    have hc := (henc.1.trans hwr.1).trans hzero.1
    refine .sent he hqueued hcap hmax (f := sentEntry props) rfl rfl rfl ?_ ?_
    · refine ⟨?_, hc.socket⟩
      have hstill := congrArg (fun c : StaticClient => {c with unacked := c.unacked ++ [(e.packetId, e.qos)]}) hc.still
      exact hstill
    · exact congrArg (fun o : Carrier => {o with outQ := o.outQ.modify i (sentEntry props), outQInflight := o.outQInflight + 1}) ho

theorem firstQueued_some {o : Carrier} {i : Nat} {e : StaticOutPub} (h : firstQueued o = some (i, e)) :
    o.outQ.live[i]? = some e ∧ e.state = .queued := by
  unfold firstQueued at h
  split at h
  · cases h
  · rename_i j hfind
    obtain ⟨x, hx, hq⟩ := split_findIdx? hfind
    rw [hx] at h
    cases h
    exact ⟨hx, by simpa using hq⟩

theorem drainTurn_moves : DrainMove L s (drainTurn L s).2 := by
  unfold drainTurn
  split
  · exact .calm .refl .refl
  · rename_i i e hfirst
    obtain ⟨he, hqueued⟩ := firstQueued_some hfirst
    dsimp only
    split
    · exact .calm .refl (removeAt_calm he hqueued)
    split
    · exact .calm .refl .refl
    rename_i hcap
    split
    · exact .calm .refl .refl
    rename_i hmax
    split
    · exact .calm .refl (removeAt_calm he hqueued)
    · rename_i props hprops
      have hmove := drainPublish_moves (s := {s with env := s.env.getTime.2}) (L := L) s.env.getTime.1 props he hqueued
        (Int.not_le.mp hcap) (fun hne => by
          by_contra hle
          exact hmax ⟨hne, Int.not_lt.mp hle⟩)
      cases hmove with
      | calm hc ho => exact .calm hc ho
      | sent he hqueued hcap hmax hid hqos hstate hc ho => exact .sent he hqueued hcap hmax hid hqos hstate hc ho

theorem drainPubrels_moves (i left : Nat) : Relation.ReflTransGen (DrainMove L) s (drainPubrels L i left s).2 := by
  induction left generalizing i s with
  | zero => exact .refl
  | succ left ih =>
    unfold drainPubrels
    dsimp only
    split
    · exact .head (drainPubrel_moves i) (ih ..)
    · exact .single (drainPubrel_moves i)

theorem drainLoop_moves (fuel : Nat) : Relation.ReflTransGen (DrainMove L) s (drainLoop L fuel s) := by
  induction fuel generalizing s with
  | zero => exact .refl
  | succ fuel ih =>
    unfold drainLoop
    dsimp only
    split
    · exact .head drainTurn_moves ih
    · exact .single drainTurn_moves

theorem drainLink_moves : Relation.ReflTransGen (DrainMove L) s (drainLink L s) := by
  unfold drainLink
  dsimp only
  split
  · exact (drainPubrels_moves ..).trans (drainLoop_moves _)
  · exact drainPubrels_moves ..

end drain

end WolfMqtt.Static
