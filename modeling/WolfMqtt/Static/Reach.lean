import WolfMqtt.Static.Enter

/-! Every run of the static-memory broker keeps the invariant.

The drain and the acknowledgements change a connection and its carrier together
(`Good.link`); every other event is one of the operations already treated. From the
invariant come the two results on whole runs: what a carrier always is, and how much a
connection can have outstanding. -/
namespace WolfMqtt.Static
open Broker Row

/-! ### A connection with its carrier -/

section link
variable {L : StaticLimits} {b : StaticBroker} {i k : Nat} {c c' : StaticClient} {o o' : Carrier}

theorem Good.carrier_unique {X : List Nat} (h : Good L X b) (ho : o ∈ b.carriers) (ho' : o' ∈ b.carriers)
    (heq : o.clientId = o'.clientId) : o = o' :=
  List.inj_on_of_nodup_map h.distinct ho ho' heq

/-- A connection and the carrier of its session change together. -/
theorem Good.link (h : Good L [] b) (hc : b.client? i = some c) (ho : b.orphans[k]? = some (some o))
    (howner : c.clientId = some o.clientId) (hid : c'.clientId = c.clientId) (hp : Preserves L o o')
    (hserved : ∀ carriers, o' ∈ carriers → Served L carriers c') :
    Good L [] ((b.setClient i (some c')).setOrphan k (some o')) := by
  have hi : i ∈ [i] := List.mem_singleton_self i
  have hset : Good L [i] (b.setClient i (some c')) := (h.exempt [i]).setClient hc hid (fun hnot => absurd hi hnot)
  have hself : (b.setClient i (some c')).client? i = some c' := client?_setClient_self hc
  have hboth : Good L [i] ((b.setClient i (some c')).setOrphan k (some o')) := by
    refine hset.setOrphan fun s hs => ?_
    have hs' : b.orphans[k]? = some s := hs
    rw [ho] at hs'
    cases hs'
    exact .changed hp (hset.unwatched hi hself (hid.trans howner))
  refine hboth.admit fun d hd => ?_
  have hd' : (b.setClient i (some c')).client? i = some d := hd
  rw [hself] at hd'
  cases hd'
  refine hserved _ (mem_carriers_of_getElem? (k := k) ?_)
  have hk : k < b.orphans.length := (List.getElem?_eq_some_iff.mp ho).1
  exact List.getElem?_set_self hk

/-- A connection that is up and has a carrier is fed from it. -/
theorem Good.held (h : Good L [] b) (hc : b.client? i = some c) (ho : b.orphans[k]? = some (some o))
    (howner : c.clientId = some o.clientId) (hup : c.connected = true) : Held L c o := by
  have hmem : o ∈ b.carriers := mem_carriers_of_getElem? ho
  cases (h.served i c hc (by simp)).paced hup with
  | held mem held =>
    have heq := h.carrier_unique mem hmem (Option.some.inj (held.owner.symm.trans howner))
    exact heq ▸ held
  | direct none _ => exact absurd howner (none o hmem)

/-- A connection that has a carrier has been through its CONNECT. -/
theorem Good.up_or_closed (h : Good L [] b) (hc : b.client? i = some c) (howner : c.clientId = some o.clientId) :
    c.connected = false → c.sockOpen = false := by
  intro hdown
  by_contra hopen
  have hfresh := (h.served i c hc (by simp)).fresh hdown (by simpa using hopen)
  rw [hfresh.clientId] at howner
  cases howner

end link

/-! ### The drain -/

/-- A connection and its carrier while the drain is at work. -/
structure Linked (L : StaticLimits) (s s' : Link) : Prop where
  preserves : Preserves L s.o s'.o
  clientId : s'.c.clientId = s.c.clientId
  receiveMax : s'.c.clientReceiveMax = s.c.clientReceiveMax
  up : s'.c.connected = true → s.c.connected = true
  closed : s'.c.connected = false → s'.c.sockOpen = true → s.c.connected = false ∧ s.c.sockOpen = true
  held : s.c.clientReceiveMax ≠ 0 → CarrierOk L s.o → Held L s.c s.o → Held L s'.c s'.o

section drain
variable {L : StaticLimits} {s s₁ s₂ : Link} {b : StaticBroker}

theorem Linked.refl : Linked L s s := ⟨.refl, rfl, rfl, id, fun hdown hopen => ⟨hdown, hopen⟩, fun _ _ h => h⟩

theorem Linked.trans (h₁ : Linked L s s₁) (h₂ : Linked L s₁ s₂) : Linked L s s₂ := by
  refine ⟨h₁.preserves.trans h₂.preserves, h₂.clientId.trans h₁.clientId, h₂.receiveMax.trans h₁.receiveMax,
    fun hup => h₁.up (h₂.up hup), fun hdown hopen => ?_, fun hmax hok h => ?_⟩
  · obtain ⟨hdown₁, hopen₁⟩ := h₂.closed hdown hopen
    exact h₁.closed hdown₁ hopen₁
  · exact h₂.held (h₁.receiveMax ▸ hmax) (h₁.preserves.ok hok) (h₁.held hmax hok h)

theorem SameConn.closed {c c' : StaticClient} (h : SameConn c c') (hdown : c'.connected = false) (hopen : c'.sockOpen = true) :
    c.connected = false ∧ c.sockOpen = true := by
  rcases h.socket with ⟨hsock, hsame⟩ | ⟨hgone, -⟩
  · exact ⟨hsame ▸ hdown, hsock ▸ hopen⟩
  · rw [hgone] at hopen
    cases hopen

/-- Sending an entry keeps the window, for the drain stops at it. -/
theorem Held.send {c : StaticClient} {o : Carrier} {i : Nat} {e : StaticOutPub} {f : StaticOutPub → StaticOutPub}
    (h : Held L c o) (hok : CarrierOk L o) (he : o.outQ.live[i]? = some e) (hqueued : e.state = .queued)
    (hcap : o.outQInflight < L.maxInflightPerSub) (hmax : o.outQInflight < c.clientReceiveMax)
    (hid : (f e).packetId = e.packetId) (hqos : (f e).qos = e.qos) (hstate : (f e).state = .publishSent) :
    Held L {c with unacked := c.unacked ++ [(e.packetId, e.qos)]}
      {o with outQ := o.outQ.modify i f, outQInflight := o.outQInflight + 1} := by
  obtain ⟨pre, post, hlive, -, hmodify⟩ := split_at he
  have hlive' : (o.outQ.modify i f).live = pre ++ f e :: post := (Cells.live_modify ..).trans (hmodify f)
  have hsent : sentPairs {o with outQ := o.outQ.modify i f, outQInflight := o.outQInflight + 1} =
      (pre.filter inFlight).map (fun e => (e.packetId, e.qos)) ++
        (e.packetId, e.qos) :: (post.filter inFlight).map (fun e => (e.packetId, e.qos)) := by
    unfold sentPairs
    show ((o.outQ.modify i f).live.filter inFlight).map _ = _
    rw [hlive', List.filter_append, List.filter_cons_of_pos (by simp [inFlight, hstate])]
    simp [hid, hqos]
  have hsent₀ : sentPairs o =
      (pre.filter inFlight).map (fun e => (e.packetId, e.qos)) ++ (post.filter inFlight).map (fun e => (e.packetId, e.qos)) := by
    unfold sentPairs
    rw [hlive, List.filter_append, List.filter_cons_of_neg (by simp [inFlight, hqueued]), List.map_append]
  -- the identifiers of a carrier are distinct, so the new pair is in flight for the first time
  have hnew : (e.packetId, e.qos) ∉ c.unacked := by
    intro hin
    have hmem := h.sent hin
    unfold sentPairs at hmem
    obtain ⟨x, hx, heq⟩ := List.mem_map.mp hmem
    obtain ⟨hxlive, hxin⟩ := List.mem_filter.mp hx
    have hpair := hok.live.distinct
    rw [hlive, List.pairwise_append, List.pairwise_cons] at hpair
    rw [hlive] at hxlive
    rcases List.mem_append.mp hxlive with hpre | hrest
    · exact hpair.2.2 x hpre e List.mem_cons_self (congrArg Prod.fst heq)
    · rcases List.mem_cons.mp hrest with rfl | hpost
      · simp [inFlight, hqueued] at hxin
      · exact hpair.2.1.1 x hpost (congrArg Prod.fst heq).symm
  refine ⟨h.owner, ?_, fun p hp => ?_, .inr ⟨?_, ?_⟩⟩
  · show (c.unacked ++ [_]).Nodup
    exact List.nodup_append.mpr ⟨h.nodup, List.nodup_singleton _, fun p hp q hq heq => hnew (List.mem_singleton.mp hq ▸ heq ▸ hp)⟩
  · have hp' : p ∈ c.unacked ++ [(e.packetId, e.qos)] := hp
    rw [hsent]
    rcases List.mem_append.mp hp' with hp' | hp'
    · have hold := h.sent hp'
      rw [hsent₀] at hold
      simp only [List.mem_append, List.mem_cons] at hold ⊢
      exact hold.imp_right .inr
    · rw [List.mem_singleton.mp hp']
      simp
  · show o.outQInflight + 1 ≤ (c.clientReceiveMax : Int)
    omega
  · show o.outQInflight + 1 ≤ (L.maxInflightPerSub : Int)
    omega

theorem DrainMove.linked (h : DrainMove L s s₁) : Linked L s s₁ := by
  cases h with
  | calm hc ho =>
    exact ⟨ho.toPreserves, hc.clientId, hc.receiveMax, hc.connected, hc.closed, fun _ hok held => (held.calm hok ho).same hc⟩
  | @sent i e f he hqueued hcap hmax hid hqos hstate hc ho =>
    refine ⟨?_, hc.clientId, hc.receiveMax, hc.connected, hc.closed, fun hne hok held => ?_⟩
    · rw [ho]
      refine ⟨rfl, fun hok => ⟨hok.cells.modify .., (Cells.length_cells_modify ..).trans hok.size, ?_⟩⟩
      obtain ⟨pre, post, hlive, -, hmodify⟩ := split_at he
      show LiveOk (s.o.outQInflight + 1) (s.o.outQ.modify i f).live
      rw [Cells.live_modify, hmodify]
      have hrel : (f e).state = .pubrelSent → (f e).qos = .qos2 := fun hrel => by
        rw [hstate] at hrel
        cases hrel
      have hchange := (hlive ▸ hok.live).change hid hrel
      simpa [inFlight, hqueued, hstate] using hchange
    · rw [ho]
      exact (held.send hok he hqueued hcap (hmax hne) hid hqos hstate).same hc

theorem drainMoves_linked (h : Relation.ReflTransGen (DrainMove L) s s₁) : Linked L s s₁ := by
  induction h with
  | refl => exact .refl
  | tail _ hmove ih => exact ih.trans hmove.linked

theorem Good.drain (h : Good L [] b) (i : Nat) : Good L [] (drain L i b) := by
  unfold Static.drain
  split
  · exact h
  · rename_i c hc
    split
    · exact h
    · split
      · exact h
      · rename_i k hk
        obtain ⟨o, ho, howner⟩ := findOrphan_some hk
        rw [orphan?_of_getElem? ho]
        dsimp only
        have hlinked : Linked L {c, o, env := b.env} _ := drainMoves_linked drainLink_moves
        generalize drainLink L {c, o, env := b.env} = s at hlinked ⊢
        have hserved := h.served i c hc (by simp)
        have hok : CarrierOk L o := h.carriers o (mem_carriers_of_getElem? ho)
        refine Good.noted (Good.env (h.link hc ho howner hlinked.clientId hlinked.preserves fun carriers hmem =>
          ⟨fun hup => ?_, fun hup => ?_, fun hdown hopen => ?_⟩) s.env) _
        · exact hlinked.receiveMax ▸ hserved.receiveMax (hlinked.up hup)
        · have hheld := h.held hc ho howner (hlinked.up hup)
          exact .held hmem (hlinked.held (hserved.receiveMax (hlinked.up hup)) hok hheld)
        · obtain ⟨hdown₀, hopen₀⟩ := hlinked.closed hdown hopen
          rw [h.up_or_closed hc howner hdown₀] at hopen₀
          cases hopen₀

end drain

/-! ### Acknowledgements -/

section acks
variable {L : StaticLimits} {b : StaticBroker} {i k packetId : Nat} {c : StaticClient} {o : Carrier} {qos : QoS}

theorem withOrphan_eq {clientId : Option Bytes} (hk : findOrphan b clientId = some k) (ho : b.orphans[k]? = some (some o))
    (f : Carrier → Carrier) : withOrphan clientId f b = b.setOrphan k (some (f o)) := by
  unfold withOrphan StaticBroker.setOrphan
  rw [hk]
  dsimp only
  rw [List.modify_eq_set_getElem?, ho]
  rfl

theorem Served.release {carriers : List Carrier} (h : Served L carriers c) (packetId : Nat) (qos : QoS) :
    Served L carriers (release packetId qos c) := by
  refine ⟨h.receiveMax, fun hup => ?_, fun hdown hopen => ?_⟩
  · cases h.paced hup with
    | held mem held =>
      refine .held mem ⟨held.owner, held.nodup.erase _, fun p hp => held.sent (List.mem_of_mem_erase hp), ?_⟩
      refine held.window.imp_left fun hnil => ?_
      show c.unacked.erase _ = []
      rw [hnil]
      rfl
    | direct none direct => exact .direct none (direct.release packetId qos)
  · have hfresh := h.fresh hdown hopen
    refine ⟨hfresh.clientId, ?_, (length_outIdRelease ..).trans hfresh.size⟩
    show c.unacked.erase _ = []
    rw [hfresh.unacked]
    rfl

/-- The acknowledged pair leaves the connection and the carrier. -/
theorem Held.settle {o' : Carrier} (h : Held L c o) (hok : CarrierOk L o) (hs : Settles L packetId qos o o') :
    Held L (release packetId qos c) o' := by
  refine ⟨hs.clientId ▸ h.owner, h.nodup.erase _, fun p hp => ?_, ?_⟩
  · obtain ⟨hne, hin⟩ := h.nodup.mem_erase_iff.mp hp
    exact hs.sent hok p (h.sent hin) hne
  · refine h.window.imp (fun hnil => ?_) (fun hle => ?_)
    · show c.unacked.erase _ = []
      rw [hnil]
      rfl
    · exact ⟨Int.le_trans hs.inflight hle.1, Int.le_trans hs.inflight hle.2⟩

/-- An acknowledgement that ends a delivery. -/
theorem Good.settle (h : Good L [] b) (hc : b.client? i = some c) {f : Carrier → Carrier}
    (hf : ∀ o, CarrierOk L o → Settles L packetId qos o (f o)) :
    Good L [] (Static.withOrphan c.clientId f (b.setClient i (some (release packetId qos c)))) := by
  have hserved := (h.served i c hc (by simp)).release packetId qos
  cases hk : findOrphan (b.setClient i (some (release packetId qos c))) c.clientId with
  | none =>
    unfold Static.withOrphan
    rw [hk]
    exact h.setClient hc rfl (fun _ => hserved)
  | some k =>
    obtain ⟨o, ho, howner⟩ := findOrphan_some hk
    have ho : b.orphans[k]? = some (some o) := ho
    have hok : CarrierOk L o := h.carriers o (mem_carriers_of_getElem? ho)
    rw [withOrphan_eq hk ho]
    refine h.link hc ho howner rfl (hf o hok).toPreserves fun carriers hmem => ⟨hserved.receiveMax, fun hup => ?_, hserved.fresh⟩
    exact .held hmem ((h.held hc ho howner hup).settle hok (hf o hok))

theorem Good.handlePubAck (h : Good L [] b) (i packetId : Nat) : Good L [] (handlePubAck i packetId b) := by
  unfold Static.handlePubAck
  split
  · exact h
  · exact h.settle ‹_› (fun _ _ => completeSent_settles ..)

theorem Good.handlePubComp (h : Good L [] b) (i packetId : Nat) : Good L [] (handlePubComp i packetId b) := by
  unfold Static.handlePubComp
  split
  · exact h
  · exact h.settle ‹_› (fun _ hok => onPubComp_settles hok _)

theorem Good.handlePublishRec (h : Good L [] b) (i packetId : Nat) (reason : UInt8) :
    Good L [] (handlePublishRec L i packetId reason b) := by
  unfold Static.handlePublishRec
  split
  · exact h
  · rename_i c hc
    split
    · exact h.settle hc (fun _ _ => completeSent_settles ..)
    · dsimp only
      have hrec : Good L [] (Static.withOrphan c.clientId (fun o => (onPubRec packetId o).2) b) :=
        h.withOrphan_calm fun o => (onPubRec_calm packetId).1
      have henc := hrec.onClient (i := i) 0 (encodeInto_writes (encodePublishResp L.txBufSz .publishRel
        {packetId, protocolLevel := c.protocolLevel}))
      generalize Static.onClient i 0 (encodeInto (encodePublishResp L.txBufSz .publishRel
        {packetId, protocolLevel := c.protocolLevel})) (Static.withOrphan c.clientId (fun o => (onPubRec packetId o).2) b) = enc
        at henc ⊢
      split
      · exact henc
      · have hwr := henc.onClient (i := i) 0 (writeResp_moves L.toLimits enc.1)
        generalize Static.onClient i 0 (Static.writeResp L.toLimits enc.1) enc.2 = wr at hwr ⊢
        split
        · exact hwr.withOrphan_calm fun o => (pubRelWritten_calm packetId).1
        · split
          · exact hwr.clientClose i
          · exact hwr

end acks

/-! ### Runs -/

section runs
variable {L : StaticLimits} {b : StaticBroker}

theorem newClient_fresh (L : StaticLimits) (i now : Nat) : Fresh L (newClient L i now) :=
  ⟨rfl, rfl, List.length_replicate⟩

theorem Good.addClient (h : Good L [] b) : Good L [] (addClient L b) := by
  unfold Static.addClient
  split
  · exact h
  · rename_i i _
    suffices hset : Good L [] (b.setClient i (some (newClient L i b.env.getTime.1))) from hset.env _
    refine ⟨h.carriers, h.distinct, h.next, fun j d hd => ?_, fun j k d e hd he hne heq => ?_, fun j d hd _ => ?_⟩
    · rcases client?_setClient hd with ⟨-, hx⟩ | ⟨-, hd⟩
      · cases hx
        exact nofun
      · exact h.fits j d hd
    · rcases client?_setClient hd with ⟨-, hx⟩ | ⟨-, hd'⟩
      · cases hx
        exact .inl rfl
      · rcases client?_setClient he with ⟨-, hy⟩ | ⟨-, he'⟩
        · cases hy
          exact .inl heq
        · exact h.apart j k d e hd' he' hne heq
    · rcases client?_setClient hd with ⟨-, hx⟩ | ⟨-, hd⟩
      · cases hx
        exact ⟨nofun, nofun, fun _ _ => newClient_fresh L i _⟩
      · exact h.served j d hd (by simp)

theorem Good.endConnection (h : Good L [] b) (expirySec : Option Nat) (will : List (Target × Delivery)) (hasSubs : Bool)
    (i : Nat) : ∃ b', endConnection L expirySec will hasSubs i b = some b' ∧ Good L [] b' := by
  unfold Static.endConnection
  split
  · exact ⟨b, rfl, h⟩
  · rename_i c hc
    have hserved := h.served i c hc (by simp)
    have hset : Good L [] (b.setClient i (some {c with sessionExpirySec := expirySec.getD c.sessionExpirySec})) := by
      refine h.setClient hc rfl (fun _ => ⟨hserved.receiveMax, fun hup => ?_, fun hdown hopen => ?_⟩)
      · cases hserved.paced hup with
        | held mem held => exact .held mem ⟨held.owner, held.nodup, held.sent, held.window⟩
        | direct none direct => exact .direct none ⟨direct.nodup, direct.nonzero, direct.sent, direct.size⟩
      · have hfresh := hserved.fresh hdown hopen
        exact ⟨hfresh.clientId, hfresh.unacked, hfresh.size⟩
    obtain ⟨b₁, h₁, hgood⟩ := hset.deliverAll will
    rw [h₁]
    exact ⟨_, rfl, (hgood.exempt [i]).leave hasSubs⟩

/-- Every event returns and keeps the invariant. -/
theorem Good.step (h : Good L [] b) (ev : Event) : ∃ b', step L b ev = some b' ∧ Good L [] b' := by
  cases ev with
  | accept => exact ⟨_, rfl, h.addClient⟩
  | connect i req => exact h.handleConnect req i
  | deliver t d => exact h.deliver t d
  | drain i => exact ⟨_, rfl, h.drain i⟩
  | puback i packetId => exact ⟨_, rfl, h.handlePubAck i packetId⟩
  | pubrec i packetId reason => exact ⟨_, rfl, h.handlePublishRec i packetId reason⟩
  | pubcomp i packetId => exact ⟨_, rfl, h.handlePubComp i packetId⟩
  | close i => exact ⟨_, rfl, h.clientClose i⟩
  | leave i expirySec will hasSubs => exact h.endConnection expirySec will hasSubs i
  | sweep => exact ⟨_, rfl, h.sweep⟩

theorem Good.run (h : Good L [] b) (evs : List Event) : ∃ b', run L evs b = some b' ∧ Good L [] b' := by
  induction evs generalizing b with
  | nil => exact ⟨b, rfl, h⟩
  | cons ev rest ih =>
    obtain ⟨b₁, h₁, hgood⟩ := h.step ev
    unfold Static.run
    rw [h₁]
    exact ih hgood

theorem initial_good (L : StaticLimits) (env : Env) : Good L [] (initial L env) := by
  have hclients : ∀ i, (initial L env).client? i = none := by
    intro i
    show ((List.replicate L.maxClients none)[i]?).join = none
    rw [List.getElem?_replicate]
    split <;> rfl
  have hcarriers : (initial L env).carriers = [] := by
    refine List.eq_nil_iff_forall_not_mem.mpr fun o ho => ?_
    have hmem : some o ∈ List.replicate L.maxStaticOrphanSessions none := mem_carriers.mp ho
    cases (List.mem_replicate.mp hmem).2
  have hnone : ∀ {i c}, (initial L env).client? i = some c → False := by
    intro i c hc
    rw [hclients] at hc
    cases hc
  refine ⟨?_, ?_, Nat.le_of_ble_eq_true rfl, fun i c hc => (hnone hc).elim, fun i j c d hc => (hnone hc).elim, fun i c hc => (hnone hc).elim⟩
  · rw [hcarriers]
    exact nofun
  · rw [hcarriers]
    exact List.nodup_nil

/-- The entries of every carrier but those at one QoS. -/
def otherEntries (qos : QoS) (b : StaticBroker) : List (Option (Bytes × List StaticOutPub)) :=
  b.orphans.map (Option.map (fun o => (o.clientId, o.outQ.live.filter (fun e => e.qos ≠ qos))))

theorem otherEntries_setOrphan {qos : QoS} {k : Nat} {o o' : Carrier} (ho : b.orphans[k]? = some (some o))
    (hid : o'.clientId = o.clientId)
    (hentries : o'.outQ.live.filter (fun e => e.qos ≠ qos) = o.outQ.live.filter (fun e => e.qos ≠ qos)) :
    otherEntries qos (b.setOrphan k (some o')) = otherEntries qos b := by
  obtain ⟨hlt, -⟩ := List.getElem?_eq_some_iff.mp ho
  show (b.orphans.set k (some o')).map _ = b.orphans.map _
  rw [List.map_set]
  refine List.ext_getElem? fun j => ?_
  by_cases hj : k = j
  · subst hj
    rw [List.getElem?_set_self (by simpa using hlt), List.getElem?_map, ho]
    simp only [Option.map_some, hid, hentries]
  · rw [List.getElem?_set_ne hj]

theorem otherEntries_withOrphan {qos : QoS} {clientId : Option Bytes} {f : Carrier → Carrier}
    (hf : ∀ o ∈ b.carriers, (f o).clientId = o.clientId ∧
      (f o).outQ.live.filter (fun e => e.qos ≠ qos) = o.outQ.live.filter (fun e => e.qos ≠ qos)) :
    otherEntries qos (withOrphan clientId f b) = otherEntries qos b := by
  cases hk : findOrphan b clientId with
  | none =>
    unfold withOrphan
    rw [hk]
  | some k =>
    obtain ⟨o, ho, -⟩ := findOrphan_some hk
    obtain ⟨hid, hentries⟩ := hf o (mem_carriers_of_getElem? ho)
    rw [withOrphan_eq hk ho]
    exact otherEntries_setOrphan ho hid hentries

theorem otherEntries_clientClose {qos : QoS} (i : Nat) : otherEntries qos (clientClose i b) = otherEntries qos b := by
  unfold clientClose
  split
  · rfl
  · split
    · rfl
    · rename_i k hk
      obtain ⟨o, ho, -⟩ := findOrphan_some hk
      rw [orphan?_of_getElem? ho]
      exact otherEntries_setOrphan ho rfl rfl

theorem otherEntries_onClient {qos : QoS} {α : Type} (i : Nat) (default : α) (m : ClientM α) :
    otherEntries qos (onClient i default m b).2 = otherEntries qos b := by
  unfold onClient
  split <;> rfl

/-- Which acknowledgements touch which entries. -/
theorem otherEntries_ack (h : Good L [] b) (i packetId : Nat) (reason : UInt8) :
    otherEntries .qos1 (handlePubAck i packetId b) = otherEntries .qos1 b ∧
    otherEntries .qos2 (handlePublishRec L i packetId reason b) = otherEntries .qos2 b ∧
    otherEntries .qos2 (handlePubComp i packetId b) = otherEntries .qos2 b := by
  have hsettle : ∀ {qos : QoS} {c : StaticClient} {f : Carrier → Carrier}, (∀ o, CarrierOk L o → Settles L packetId qos o (f o)) →
      otherEntries qos (withOrphan c.clientId f (b.setClient i (some (release packetId qos c)))) = otherEntries qos b := by
    intro qos c f hf
    refine otherEntries_withOrphan fun o ho => ?_
    have hs := hf o (h.carriers o ho)
    exact ⟨hs.clientId, hs.others (h.carriers o ho)⟩
  refine ⟨?_, ?_, ?_⟩
  · unfold handlePubAck
    split
    · rfl
    · exact hsettle fun _ _ => completeSent_settles ..
  · unfold handlePublishRec
    split
    · rfl
    · rename_i c hc
      split
      · exact hsettle fun _ _ => completeSent_settles ..
      · dsimp only
        have hrec : otherEntries .qos2 (withOrphan c.clientId (fun o => (onPubRec packetId o).2) b) = otherEntries .qos2 b :=
          otherEntries_withOrphan fun o _ => ⟨(onPubRec_calm (L := L) packetId).1.clientId, (onPubRec_calm (L := L) packetId).2⟩
        generalize withOrphan c.clientId (fun o => (onPubRec packetId o).2) b = b₁ at hrec ⊢
        have henc : ∀ (m : ClientM Int), otherEntries .qos2 (onClient i 0 m b₁).2 = otherEntries .qos2 b :=
          fun m => (otherEntries_onClient i 0 m).trans hrec
        split
        · exact henc _
        · have hwr := fun m n => (otherEntries_onClient (b := (onClient i 0 n b₁).2) i (0 : Int) m).trans (henc n)
          split
          · refine Eq.trans (otherEntries_withOrphan fun o _ => ?_) (hwr _ _)
            exact ⟨(pubRelWritten_calm (L := L) packetId).1.clientId, (pubRelWritten_calm (L := L) packetId).2⟩
          · split
            · exact (otherEntries_clientClose i).trans (hwr _ _)
            · exact hwr _ _
  · unfold handlePubComp
    split
    · rfl
    · exact hsettle fun _ hok => onPubComp_settles hok _

/-- Carriers, in every state that a run reaches. Every run comes back from all its events, so the
search for a packet identifier ends. -/
theorem carriers_sound (L : StaticLimits) (env : Env) (evs : List Event) : ∃ b, run L evs (initial L env) = some b ∧
    (b.carriers.map (·.clientId)).Nodup ∧
    (∀ o ∈ b.carriers,
      (0 ≤ o.outQ.count ∧ o.outQ.count ≤ L.maxStaticOfflineMsgsPerSub) ∧
      o.outQ.live.Pairwise (fun x y => x.packetId ≠ y.packetId) ∧
      (∀ e ∈ o.outQ.live, e.packetId ≠ 0) ∧
      o.outQInflight = o.outQ.live.countP (fun e => e.state = .publishSent ∨ e.state = .pubrelSent) ∧
      (o.outQ.count < L.maxStaticOfflineMsgsPerSub →
        ∀ packetId, (searchPacketId o.outQ.live packetId searchTurns b.nextPacketId).isSome)) ∧
    ∀ i packetId reason,
      otherEntries .qos1 (handlePubAck i packetId b) = otherEntries .qos1 b ∧
      otherEntries .qos2 (handlePublishRec L i packetId reason b) = otherEntries .qos2 b ∧
      otherEntries .qos2 (handlePubComp i packetId b) = otherEntries .qos2 b := by
  obtain ⟨b, hrun, hgood⟩ := (initial_good L env).run evs
  refine ⟨b, hrun, hgood.distinct, fun o ho => ?_, otherEntries_ack hgood⟩
  have hok := hgood.carriers o ho
  refine ⟨hok.count_le, hok.live.distinct, hok.live.nonzero, ?_, fun hroom packetId => ?_⟩
  · rw [hok.live.inflight]
    refine congrArg Nat.cast (List.countP_congr fun e _ => ?_)
    cases hs : e.state <;> simp [inFlight, hs]
  · have hlen := hok.cells.length_live
    have hmax := L.staticOffline_le
    exact searchPacketId_isSome packetId (by omega)

theorem Held.length_le {c : StaticClient} {o : Carrier} (h : Held L c o) (hok : CarrierOk L o) :
    c.unacked.length ≤ c.clientReceiveMax ∧ c.unacked.length ≤ L.maxInflightPerSub := by
  have hlen : c.unacked.length ≤ (sentPairs o).length := (h.nodup.subperm h.sent).length_le
  have hsent : ((sentPairs o).length : Int) = o.outQInflight := by
    rw [hok.live.inflight, sentPairs, List.length_map, List.countP_eq_length_filter]
  rcases h.window with hnil | ⟨hmax, hcap⟩
  · simp [hnil]
  · omega

theorem Direct.length_le {c : StaticClient} (h : Direct L c) : c.unacked.length ≤ L.maxInflightPerSub := by
  have hlen : c.unacked.length ≤ c.table.length := (h.nodup.subperm h.sent).length_le
  rw [StaticClient.table, List.length_map, h.size] at hlen
  exact hlen

/-- What a connection has outstanding, in every state that a run reaches: the Receive Maximum of its
CONNECT bounds it when its session has a carrier, the table of packet identifiers always. -/
theorem outstanding_bounded (L : StaticLimits) (env : Env) (evs : List Event) : ∃ b, run L evs (initial L env) = some b ∧
    ∀ i c, b.client? i = some c → c.connected = true →
      c.unacked.length ≤ L.maxInflightPerSub ∧
      ((∃ o ∈ b.carriers, c.clientId = some o.clientId) → c.unacked.length ≤ c.clientReceiveMax) := by
  obtain ⟨b, hrun, hgood⟩ := (initial_good L env).run evs
  refine ⟨b, hrun, fun i c hc hup => ?_⟩
  cases (hgood.served i c hc (by simp)).paced hup with
  | held mem held =>
    have hle := held.length_le (hgood.carriers _ mem)
    exact ⟨hle.2, fun _ => hle.1⟩
  | direct none direct =>
    exact ⟨direct.length_le, fun ⟨o, ho, heq⟩ => absurd heq (none o ho)⟩

/-- A level 5 client without a session that outlives it. -/
def plainConnect : ConnectReq where
  clientId := [97]
  protocolLevel := 5
  cleanSession := true
  receiveMax := some 1
  ack := {flags := 0, returnCode := 0, protocolLevel := 5}

def plainDelivery : Delivery where
  site := .publish
  topic := [116]
  payload := [1, 2]
  qos := .qos1

/-- Without a carrier a second PUBLISH goes out although the Receive Maximum is 1. -/
theorem direct_exceeds_receiveMax :
    ((run {} [.accept, .connect 0 plainConnect, .deliver (.live 0) plainDelivery, .deliver (.live 0) plainDelivery]
      (initial {} {})).bind (·.client? 0)).map
        (fun c => (c.connected, c.protocolLevel, c.clientReceiveMax, c.unacked)) =
      some (true, 5, 1, [(1, .qos1), (2, .qos1)]) := by
  decide +kernel

end runs

end WolfMqtt.Static
