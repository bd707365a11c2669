import WolfMqtt.Broker.Leave

/-! What a live connection's packets do: PUBLISH and its acknowledgements, SUBSCRIBE and
UNSUBSCRIBE. -/
namespace WolfMqtt.Broker

/-! ### One connection -/

theorem SameSocket.trans {c c' c'' : BrokerClient} (h : SameSocket c c') (h' : SameSocket c' c'') :
    SameSocket c c'' := by
  rcases h' with ⟨hs, hc⟩ | hclosed
  · rcases h with ⟨hs', hc'⟩ | ⟨hs', hc'⟩
    · exact .inl ⟨hs.trans hs', hc.trans hc'⟩
    · exact .inr ⟨hs.trans hs', hc.trans hc'⟩
  · exact .inr hclosed

instance : IsPreorder BrokerClient SameConn where
  refl _ := ⟨rfl, rfl, ⟨rfl, rfl⟩, ⟨rfl, rfl⟩, .inl ⟨rfl, rfl⟩⟩
  trans _ _ _ h h' := ⟨h'.addr.trans h.addr, h'.established.trans h.established,
    ⟨h'.session.1.trans h.session.1, h'.session.2.trans h.session.2⟩,
    ⟨h'.connack.1.trans h.connack.1, h'.connack.2.trans h.connack.2⟩, h.socket.trans h'.socket⟩

section handling
variable (L : Limits) (P : Label → Prop)

/-- What the packets of a live connection do to it. -/
structure Minds (s s' : Conn) : Prop where
  same : SameConn s.c s'.c
  run : CRun L P s.view s'.view
  session : s'.c.sconn = s.c.sconn
  spends : s.env.Spends s'.env

instance : IsPreorder Conn (Minds L P) where
  refl s := ⟨refl s.c, .refl, rfl, refl s.env⟩
  trans _ _ _ h h' := ⟨trans_of SameConn h.same h'.same, Relation.ReflTransGen.trans h.run h'.run,
    h'.session.trans h.session, trans_of Env.Spends h.spends h'.spends⟩

variable {L P} {Z X : Nat → Prop} {b : MqttBroker}

theorem Writes.minds {s s' : Conn} (h : Writes s s') : Minds L P s s' := by
  have ht := h.tended
  have hid : s'.c.clientId = s.c.clientId := (congrArg (fun s : Conn => s.c.clientId) h).symm
  have hlevel : s'.c.protocolLevel = s.c.protocolLevel := (congrArg (fun s : Conn => s.c.protocolLevel) h).symm
  have hserves : Serves L P s s' := h.serves
  exact ⟨⟨ht.addr, ht.established, ⟨hid, hlevel⟩, ht.connack, ht.socket⟩, hserves.run, h.sconn, hserves.spends⟩

theorem onClient_minds {α : Type} {a : Nat} (hb : Phase L X b) (ha : b.Established a) (default : α) {m : ClientM α}
    (hm : Moves (Minds L P) m) : Advances L P Z X b (onClient a default m b).2 := by
  refine onClient_advances hb default fun c hc => ⟨(hm ⟨c, b.env⟩).same.tended fun he => ?_, (hm ⟨c, b.env⟩).run⟩
  obtain ⟨c', hc', he'⟩ := ha
  obtain rfl : c = c' := Option.some.inj (hc.symm.trans hc')
  rw [show c.sessionEstablished = false from he] at he'
  cases he'

/-! ### Acknowledgements -/

theorem sendPublishResp_writes (type : PacketType) (packetId : Nat) (reason : UInt8) :
    Moves Writes (sendPublishResp L type packetId reason) := by
  refine .bind (readClient_writes _) fun _ => .bind (encodeInto_writes _) fun _ => ?_
  exact .ite (fun _ => writeResp_writes L _) (fun _ => .pure _)

/-- A transmit buffer that holds a fixed header holds a PUBREL. -/
theorem pubrel_fits {txLen packetId : Nat} (level : Nat) (hroom : maxLenBytes < txLen) (hid : packetId ≠ 0) :
    (encodePublishResp txLen .publishRel {packetId := packetId, protocolLevel := level}).rc > 0 := by
  have hbody : ∀ body : Bytes, body.length = 2 → (encodePacket txLen .publishRel .qos1 body).rc > 0 := by
    intro body hlen
    have hroom' : ¬txLen < maxLenBytes + 1 := by omega
    have hfit : ¬txLen < 2 + 2 := by
      have : maxLenBytes = 4 := rfl
      omega
    have hheader : encodeFixedHeader txLen (2 : Nat) .publishRel false .qos1 false = .done [98, 2] := by
      unfold encodeFixedHeader
      rw [if_neg hroom']
      decide
    simp only [encodePacket, hlen, hheader, Encoded.done, List.length_cons, List.length_nil]
    rw [if_neg (by decide), if_neg hfit]
    simp only [List.length_append, List.length_cons, hlen]
    decide
  have hvalid : publishRespReasonCodeValid .publishRel Reason.success = true := by decide
  unfold encodePublishResp
  rw [if_neg hid]
  dsimp only
  split
  · rw [if_neg (by simp [hvalid])]
    exact hbody _ rfl
  · exact hbody _ rfl

theorem onPubRec_none {packetId : Nat} {s : Conn} (h : findOutPub s.c packetId .publishSent = none) :
    onPubRec packetId s = (0, s) := by
  simp only [onPubRec, readClient, run_bind, run_get, run_pure]
  rw [h]
  rfl

theorem onPubRec_some {packetId : Nat} {s : Conn} {e : OutPub} (h : findOutPub s.c packetId .publishSent = some e) :
    onPubRec packetId s =
      if e.qos ≠ .qos2 then (-1, s) else (1, (updateOutPub e.addr OutPub.toReleased s).2) := by
  simp only [onPubRec, readClient, run_bind, run_get, run_pure]
  rw [h]
  dsimp only
  split <;> rfl

theorem sendPubrel_serves (hP : P .plain) (packetId : Nat) : Moves (Serves L P) (sendPubrel L packetId) := by
  intro s
  refine readClient_at (Serves.after_writes (encodeInto_writes _) fun rc s₁ _ => ?_)
  split
  · refine Moves.bind_at (.step hP (refl s₁.c) ?_ (.of_eq rfl rfl)) (writeResp_writes L _ _).serves
    exact .respond packetId
  · exact refl s₁

/-- The PUBREL for an entry that has just been released goes with its release. -/
theorem releaseOutPub_serves (hP : P .plain) (hroom : maxLenBytes < L.txBufSz) {s : Conn} {e : OutPub}
    (he : e ∈ s.c.outQ.chain) (hs : e.state = .publishSent) (hq : e.qos = .qos2) (hid : e.packetId ≠ 0) :
    Serves L P s (sendPubrel L e.packetId (updateOutPub e.addr OutPub.toReleased s).2).2 := by
  let s₁ := (updateOutPub e.addr OutPub.toReleased s).2
  let encoded := encodePublishResp L.txBufSz .publishRel {packetId := e.packetId, protocolLevel := s.c.protocolLevel}
  let s₂ := (encodeInto encoded s₁).2
  have hfits : encoded.rc > 0 := pubrel_fits s.c.protocolLevel hroom hid
  have hreleased : Serves L P s (notePubrel e.packetId s₂).2 := by
    refine .step hP ⟨rfl, .inl ⟨rfl, rfl⟩⟩ ?_ (.of_eq rfl rfl)
    exact .received e he hs hq
  show Serves L P s ((if encoded.rc > 0 then _ else _ : ClientM Int) s₂).2
  rw [if_pos hfits]
  exact trans_of (Serves L P) hreleased (writeResp_writes L _ _).serves

theorem handlePublishRec_serves (hP : P .plain) (hroom : maxLenBytes < L.txBufSz)
    (decoded : Except DecodeError (Nat × UInt8)) : Moves (Serves L P) (handlePublishRec L decoded) := by
  intro s
  cases decoded with
  | error e => exact refl s
  | ok packet =>
    obtain ⟨packetId, reason⟩ := packet
    refine readClient_at ?_
    split
    · exact Moves.bind_at (onPubReject_serves hP packetId s) (refl _)
    show Serves L P s ((if (onPubRec packetId s).1 < 0 then _ else _ : ClientM Int) (onPubRec packetId s).2).2
    cases hfind : findOutPub s.c packetId .publishSent with
    | none =>
      rw [onPubRec_none hfind]
      exact sendPubrel_serves hP packetId s
    | some e =>
      obtain ⟨he, hpid, hs⟩ := findOutPub_some hfind
      have hne : e.packetId ≠ 0 := by
        intro h0
        rw [← hpid, h0, findOutPub, if_pos rfl] at hfind
        cases hfind
      rw [onPubRec_some hfind]
      by_cases hq : e.qos = .qos2
      · rw [if_neg (not_not.mpr hq), ← hpid]
        exact releaseOutPub_serves hP hroom he hs hq hne
      · rw [if_pos hq]
        exact refl s

theorem qos2Remove_minds (packetId : Nat) : Moves (Minds L P) (qos2Remove packetId) := by
  intro s
  show Minds L P s ⟨if packetId ≠ 0 ∧ packetId ∈ s.c.qos2Pending then _ else s.c, s.env⟩
  split
  · exact ⟨⟨rfl, rfl, ⟨rfl, rfl⟩, ⟨rfl, rfl⟩, .inl ⟨rfl, rfl⟩⟩, .refl, rfl, refl s.env⟩
  · exact refl s

theorem handlePublishRel_minds (decoded : Except DecodeError Nat) : Moves (Minds L P) (handlePublishRel L decoded) := by
  intro s
  cases decoded with
  | error e => exact refl s
  | ok packetId =>
    refine readClient_at (Moves.bind_at (qos2Remove_minds packetId s) ?_)
    exact (sendPublishResp_writes _ _ _ _).minds

/-! ### PUBLISH -/

/-- An allocation is all the delivery system sees of a new QoS 2 identifier. -/
theorem qos2Add_minds (hP : P .plain) (packetId : Nat) : Moves (Minds L P) (qos2Add L packetId) := by
  intro s
  have halloc : ∀ c' : BrokerClient, c'.view = s.c.view → SameConn s.c c' → c'.sconn = s.c.sconn →
      Minds L P s ⟨c', s.env.alloc.2⟩ := by
    intro c' hview hsame hsconn
    obtain ⟨ht, hn⟩ := alloc_env s.env
    refine ⟨hsame, ?_, hsconn, .alloc s.env⟩
    have hs' : Conn.view ⟨c', s.env.alloc.2⟩ = {s.view with nextAddr := s.env.alloc.2.nextAddr} := by
      simp only [Conn.view, hview, ht]
    rw [hs']
    exact .step hP (.alloc s.env.alloc.2.nextAddr hn)
  unfold qos2Add
  split
  · exact refl s
  split
  · exact refl s
  split
  · exact refl s
  generalize s.env.alloc = r at halloc ⊢
  obtain ⟨slot, env⟩ := r
  cases slot with
  | none => exact halloc _ rfl (refl s.c) rfl
  | some _ => exact halloc _ rfl ⟨rfl, rfl, ⟨rfl, rfl⟩, ⟨rfl, rfl⟩, .inl ⟨rfl, rfl⟩⟩ rfl

theorem qos2Admit_minds (hP : P .plain) (p : InPublish) : Moves (Minds L P) (qos2Admit L p) := by
  intro s
  refine readClient_at ?_
  split
  · exact refl s
  split
  · exact refl s
  refine Moves.bind_at (qos2Add_minds hP _ s) ?_
  split
  · exact refl _
  · exact Moves.bind_at (sendDisconnect_writes L _ _).minds (refl _)

theorem ackPublish_writes (p : InPublish) : Moves Writes (ackPublish L p) := by
  unfold ackPublish
  split
  · exact .pure _
  · exact sendPublishResp_writes _ _ _
  · exact sendPublishResp_writes _ _ _

theorem copyTopic_fans {T : Nat → Prop} {O : Prop} (hP : Ordinary P) (topic : Bytes) :
    Moves (Fans L P T O) (copyTopic topic) :=
  .ite (fun _ => .pure _) (fun _ => .bind (alloc_fans hP) fun _ => .pure _)

theorem acceptPublish_advances (hP : Ordinary P) (hb : Phase L X b) (a : Nat) (p : InPublish) (duplicate : Bool) :
    Advances L P Z X b (acceptPublish L a p duplicate b).2 := by
  refine .bind ((copyTopic_fans hP p.topicName b).advances hb) fun hb₁ => ?_
  split
  · exact .refl hb₁
  refine .bind (.when_at hb₁ fun _ => (retainPublish_fans hP p _).advances hb₁) fun hb₂ => ?_
  refine .bind (.when_at hb₂ fun _ => (fanOut_fans hP a p hb₂.owned).advances hb₂) fun hb₃ => ?_
  exact onClient_writes a hb₃ _ (ackPublish_writes p)

theorem handlePublish_advances (hP : Ordinary P) (hb : Phase L X b) {a : Nat} (ha : b.Established a)
    (decoded : Except DecodeError InPublish) : Advances L P Z X b (handlePublish L a decoded b).2 := by
  simp only [handlePublish, run_bind, run_get]
  cases decoded with
  | error e => exact .refl hb
  | ok p =>
    cases b.client? a with
    | none => exact .refl hb
    | some c =>
      dsimp only
      split
      · exact .bind (onClient_writes a hb 0 (sendDisconnect_writes L _)) fun hb₁ => .refl hb₁
      split
      · exact .bind (onClient_writes a hb 0 (sendDisconnect_writes L _)) fun hb₁ => .refl hb₁
      split
      · exact .refl hb
      refine .bind (onClient_minds hb ha _ (qos2Admit_minds hP.plain p)) fun hb₁ => ?_
      generalize onClient a (.refused Code.badArg) (qos2Admit L p) b = r at hb₁ ⊢
      obtain ⟨verdict, b₁⟩ := r
      cases verdict with
      | refused rc => exact .refl hb₁
      | fresh => exact acceptPublish_advances hP hb₁ a p false
      | duplicate => exact acceptPublish_advances hP hb₁ a p true

/-! ### SUBSCRIBE and UNSUBSCRIBE -/

theorem Spread.established {T : Nat → Prop} {O : Prop} {b b' : MqttBroker} (h : Spread T O b b') {a : Nat}
    (ha : b.Established a) : b'.Established a := by
  obtain ⟨c, hc, he⟩ := ha
  rcases Chain.forall₂_at? (a := a) (fun _ _ h => h.1.addr) h.clients with ⟨hnone, -⟩ | ⟨x, y, hx, hy, hxy⟩
  · rw [MqttBroker.client?, hnone] at hc
    cases hc
  · obtain rfl : x = c := Option.some.inj (hx.symm.trans hc)
    refine ⟨y, hy, ?_⟩
    show y.still.sessionEstablished = true
    rw [hxy.1.still]
    exact he

theorem persistPutSubs_advances (hb : Phase L X b) (clientId : Bytes) :
    Advances L P Z X b (persistPutSubs clientId b).2 := persistOps_advances hb _

theorem storeSubs_advances (hb : Phase L X b) (a : Nat) (rc : Int) : Advances L P Z X b (storeSubs a rc b).2 := by
  simp only [storeSubs, run_bind, run_get]
  cases b.client? a with
  | none => exact .refl hb
  | some c =>
    dsimp only
    cases c.clientId with
    | none => exact .refl hb
    | some id => exact .when_at hb fun _ => persistPutSubs_advances hb id

/-- A subscription that is replaced leaves one that points where it did. -/
theorem replaceF_subscribed {subs : List BrokerSub} {f : BrokerSub → Option BrokerSub}
    (hf : ∀ x y, f x = some y → y.client = x.client) {s : BrokerSub} (h : s ∈ subs.replaceF f) {a : Nat}
    (ha : s.client = some a) : ∃ s ∈ subs, s.client = some a := by
  induction subs with
  | nil => cases h
  | cons x rest ih =>
    rw [List.replaceF] at h
    cases hx : f x with
    | some y =>
      rw [hx] at h
      rcases List.mem_cons.mp h with rfl | h
      · exact ⟨x, List.mem_cons_self, (hf x s hx).symm.trans ha⟩
      · exact ⟨s, List.mem_cons_of_mem _ h, ha⟩
    | none =>
      rw [hx] at h
      rcases List.mem_cons.mp h with rfl | h
      · exact ⟨s, List.mem_cons_self, ha⟩
      · obtain ⟨y, hy, hya⟩ := ih h
        exact ⟨y, List.mem_cons_of_mem _ hy, hya⟩

/-- The broker goes on, and the connection at `a` keeps its session. -/
structure Joins (L : Limits) (P : Label → Prop) (Z X : Nat → Prop) (a : Nat) (b b' : MqttBroker) : Prop extends
    Advances L P Z X b b' where
  established : b'.Established a

theorem Joins.bind {α β : Type} {a : Nat} {m : BrokerM α} {f : α → BrokerM β} (hm : Joins L P Z X a b (m b).2)
    (hf : Phase L X (m b).2 → (m b).2.Established a → Joins L P Z X a (m b).2 (f (m b).1 (m b).2).2) :
    Joins L P Z X a b ((m >>= f) b).2 :=
  have h := hf hm.phase hm.established
  ⟨hm.toAdvances.trans fun _ => h.toAdvances, h.established⟩

theorem Fans.joins {a : Nat} {b b' : MqttBroker} (hb : Phase L X b) (ha : b.Established a)
    (h : Fans L P b.Established True b b') : Joins L P Z X a b b' := ⟨h.advances hb, h.spread.established ha⟩

/-- A subscription for a connection with a session. -/
theorem subsAdd_joins (hP : Ordinary P) (hb : Phase L X b) {a : Nat} (ha : b.Established a) (filter : Bytes) (qos : QoS) :
    Joins L P Z X a b (subsAdd L a filter qos b).2 := by
  show Joins L P Z X a b ((if b.subs.any (fun s => s.client = some a ∧ s.filter = filter) then _ else _ : BrokerM Int) b).2
  split
  · refine ⟨.of_clients hb .refl rfl ?_, ha⟩
    rintro a' ⟨s, hs, hsa⟩
    refine replaceF_subscribed (fun x y hxy => ?_) hs hsa
    split at hxy
    · cases hxy
      rfl
    · cases hxy
  · obtain ⟨c, hc, he⟩ := ha
    rw [hc]
    dsimp only
    split
    · exact ⟨.refl hb, c, hc, he⟩
    refine alloc_at (fun env ht hn hp => ?_) (fun env ht hn hp => ?_)
    · exact ⟨(Fans.env hP ht (Nat.le_of_eq hn.symm) hp).advances hb, c, hc, he⟩
    have henv : Advances L P Z X b {b with env := env} := (Fans.env hP ht (by omega) hp).advances hb
    have haddr : c.addr = a := Chain.at?_addr hc
    have hjoined : MqttBroker.Established (MqttBroker.updateClient {b with env := env} a
        (fun c => {c with subCount := c.subCount + 1})) a := ⟨_, Chain.at?_writeAt_self hc haddr, he⟩
    refine ⟨henv.trans fun hb₁ => ?_, hjoined⟩
    refine (updateClient_advances (f := fun c => {c with subCount := c.subCount + 1}) (a := a) hb₁ (fun c _ => ?_)
      (fun _ _ => rfl)).trans fun hb₂ => .of_forall₂ hb₂ .refl (List.forall₂_same.mpr fun c _ => .refl c) ?_
    · exact SameConn.tended ⟨rfl, rfl, ⟨rfl, rfl⟩, ⟨rfl, rfl⟩, .inl ⟨rfl, rfl⟩⟩ fun _ h => ⟨h.1, h.2, h.3, h.4⟩
    · rintro a' ⟨s, hs, hsa⟩
      rcases List.mem_cons.mp hs with rfl | hs
      · cases hsa
        exact hjoined
      · exact hb₂.owned a' ⟨s, hs, hsa⟩

theorem subscribeTopic_joins (hP : Ordinary P) (hb : Phase L X b) {a : Nat} (ha : b.Established a) (level : Nat)
    (t : SubTopic) : Joins L P Z X a b (subscribeTopic L a level t b).2 := by
  refine .bind (subsAdd_joins hP hb ha t.filter t.qos) fun hb₁ ha₁ => ?_
  split
  · exact ⟨.refl hb₁, ha₁⟩
  split
  · refine .bind ((subscribeRetained_fans hP ha₁ t _).joins hb₁ ha₁) fun hb₂ ha₂ => ?_
    split
    · exact ⟨.refl hb₂, ha₂⟩
    · exact ⟨.refl hb₂, ha₂⟩
  · exact ⟨.refl hb₁, ha₁⟩

theorem subscribeTopics_advances (hP : Ordinary P) {a : Nat} (level : Nat) (ts : List SubTopic) (codes : List UInt8)
    (hb : Phase L X b) (ha : b.Established a) : Advances L P Z X b (subscribeTopics L a level ts codes b).2 := by
  induction ts generalizing codes b with
  | nil => exact .refl hb
  | cons t rest ih =>
    obtain ⟨hone, ha₁⟩ := subscribeTopic_joins (Z := Z) hP hb ha level t
    refine .bind hone fun hb₁ => ?_
    generalize subscribeTopic L a level t b = r at ha₁ hb₁ ⊢
    obtain ⟨code, b₁⟩ := r
    cases code with
    | error rc => exact .refl hb₁
    | ok code => exact ih (codes ++ [code]) hb₁ ha₁

theorem handleSubscribe_advances (hP : Ordinary P) (hb : Phase L X b) {a : Nat} (ha : b.Established a)
    (decoded : Except DecodeError InSubscribe) : Advances L P Z X b (handleSubscribe L a decoded b).2 := by
  simp only [handleSubscribe, run_bind, run_get]
  cases decoded with
  | error e => exact .refl hb
  | ok sub =>
    cases b.client? a with
    | none => exact .refl hb
    | some c =>
      refine .bind (subscribeTopics_advances hP c.protocolLevel (sub.topics.take maxTopics) [] hb ha) fun hb₁ => ?_
      generalize subscribeTopics L a c.protocolLevel (sub.topics.take maxTopics) [] b = r at hb₁ ⊢
      obtain ⟨codes, b₁⟩ := r
      cases codes with
      | error rc => exact .refl hb₁
      | ok codes =>
        refine .bind (onClient_writes a hb₁ _ (sendSubAck_writes L _ _)) fun hb₂ => ?_
        exact .bind (storeSubs_advances hb₂ a _) fun hb₃ => .refl hb₃

theorem subsRemove_advances (hb : Phase L X b) (a : Nat) (filter : Bytes) :
    Advances L P Z X b (subsRemove a filter b).2 := by
  show Advances L P Z X b (if b.subs.any (fun s => s.client = some a ∧ s.filter = filter) then _ else b)
  split
  · refine updateSubs_advances (a := a) hb (f := fun c => {c with subCount := _}) (fun c => ?_) (fun _ => rfl) ?_
    · exact SameConn.tended ⟨rfl, rfl, ⟨rfl, rfl⟩, ⟨rfl, rfl⟩, .inl ⟨rfl, rfl⟩⟩ fun _ h => ⟨h.1, h.2, h.3, h.4⟩
    · rintro a' ⟨s, hs, hsa⟩
      exact ⟨s, List.mem_of_mem_eraseP hs, hsa⟩
  · exact .refl hb

theorem unsubscribeTopics_advances (hb : Phase L X b) (a : Nat) (filters : List Bytes) :
    Advances L P Z X b (unsubscribeTopics a filters b).2 := by
  induction filters generalizing b with
  | nil => exact .refl hb
  | cons f rest ih => exact .bind (subsRemove_advances hb a f) fun hb₁ => ih hb₁

theorem sendUnsubAck_writes (unsub : InUnsubscribe) : Moves Writes (sendUnsubAck L unsub) := by
  refine .bind (readClient_writes _) fun _ => .bind (encodeInto_writes _) fun _ => ?_
  exact .ite (fun _ => writeResp_writes L _) (fun _ => .pure _)

theorem handleUnsubscribe_advances (hb : Phase L X b) (a : Nat) (decoded : Except DecodeError InUnsubscribe) :
    Advances L P Z X b (handleUnsubscribe L a decoded b).2 := by
  cases decoded with
  | error e => exact .refl hb
  | ok unsub =>
    refine .bind (unsubscribeTopics_advances hb a _) fun hb₁ => ?_
    refine .bind (onClient_writes a hb₁ _ (sendUnsubAck_writes unsub)) fun hb₂ => ?_
    exact .bind (storeSubs_advances hb₂ a _) fun hb₃ => .refl hb₃

end handling

end WolfMqtt.Broker
