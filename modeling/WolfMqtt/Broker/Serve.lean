import WolfMqtt.Broker.QueueInv
import WolfMqtt.Broker.Table

/-! One connection's functions, as runs of the delivery system.

A function that only writes to the transport (`Writes`) is no step at all. One that
works on the queue (`Serves`) is a run of `CStep`, and touches of the connection only its
queue, its buffer and its socket, which it may close; no stored session changes. -/
namespace WolfMqtt.Broker

/-! ### Views -/

/-- What the delivery system sees of a connection. -/
def BrokerClient.view (c : BrokerClient) : QConn where
  addr := c.addr
  level := c.protocolLevel
  receiveMax := c.clientReceiveMax
  outQ := c.outQ
  inflight := c.outQInflight

def Conn.view (s : Conn) : CState := ⟨s.c.view, s.env.trace, s.env.nextAddr⟩

/-- What the session table sees of a connection. -/
def BrokerClient.sconn (c : BrokerClient) : SConn where
  addr := c.addr
  clientId := c.clientId
  established := c.sessionEstablished
  level := c.protocolLevel
  expirySec := c.sessionExpirySec
  keepAlive := c.keepAliveSec
  subCount := c.subCount

/-! ### Writing to the transport -/

/-- The connection without what a write to its transport changes. -/
def Conn.quiet (s : Conn) : Conn where
  c := {s.c with txBuf := [], writePos := 0, wire := [], outQPendingLen := 0, directPendingLen := 0}
  env := {s.env with writes := []}

/-- `s'` is `s` after writes to the transport. -/
def Writes : Conn → Conn → Prop := InvImage Eq Conn.quiet

instance : IsPreorder Conn Writes := inferInstanceAs (IsPreorder Conn (InvImage Eq Conn.quiet))

theorem Writes.view {s s' : Conn} (h : Writes s s') : s'.view = s.view := (congrArg Conn.view h).symm

theorem Writes.sconn {s s' : Conn} (h : Writes s s') : s'.c.sconn = s.c.sconn :=
  (congrArg (fun s : Conn => s.c.sconn) h).symm

theorem Writes.outQ {s s' : Conn} (h : Writes s s') : s'.c.outQ = s.c.outQ :=
  (congrArg (fun s : Conn => s.c.outQ) h).symm

theorem Writes.room {s s' : Conn} (h : Writes s s') {L : Limits} {p : Prop}
    (hw : p → s.c.outQInflight < effectiveCap L s.c.clientReceiveMax) :
    p → s'.c.outQInflight < effectiveCap L s'.c.clientReceiveMax := by
  have hi : s'.c.outQInflight = s.c.outQInflight := congrArg (fun t : CState => t.conn.inflight) h.view
  have hr : s'.c.clientReceiveMax = s.c.clientReceiveMax := congrArg (fun t : CState => t.conn.receiveMax) h.view
  rw [hi, hr]
  exact hw

theorem modifyClient_writes {f : BrokerClient → BrokerClient}
    (hf : ∀ s : Conn, Conn.quiet {s with c := f s.c} = s.quiet) : Moves Writes (modifyClient f) :=
  fun s => (hf s).symm

theorem encodeInto_writes (e : Encoded) : Moves Writes (encodeInto e) := fun _ => rfl

theorem zeroTxBuf_writes (n : Nat) : Moves Writes (zeroTxBuf n) := fun _ => rfl

theorem netWrite_quiet (env : Env) (len : Nat) :
    {(env.netWrite len).2 with writes := []} = {env with writes := []} := by
  unfold Env.netWrite
  split <;> rfl

theorem writeDo_writes (len : Nat) (s : Conn) : Writes s (writeDo len s).2 := by
  have henv := netWrite_quiet s.env (len - s.c.writePos)
  unfold writeDo
  split
  · exact refl s
  · show s.quiet = Conn.quiet _
    dsimp only
    split <;> exact congrArg (Conn.mk _) henv.symm

theorem writeLoop_writes (len fuel : Nat) (s : Conn) : Writes s (writeLoop len fuel s).2 := by
  induction fuel generalizing s with
  | zero => exact refl s
  | succ fuel ih =>
    have hdo := writeDo_writes len s
    unfold writeLoop
    dsimp only
    split
    · exact hdo
    · split
      · exact trans_of Writes hdo (ih _)
      · exact hdo

theorem socketWrite_writes (L : Limits) (len : Nat) : Moves Writes (socketWrite L len) := by
  intro s
  have hr : Writes s (if L.nonblock then writeDo len s else writeLoop len len s).2 := by
    split
    · exact writeDo_writes len s
    · exact writeLoop_writes len len s
  unfold socketWrite
  split
  · exact refl s
  · dsimp only
    generalize (if L.nonblock then writeDo len s else writeLoop len len s) = r at hr ⊢
    split
    · exact hr
    · split
      · exact trans_of Writes hr rfl
      · exact hr

theorem packetWrite_writes (L : Limits) (len : Nat) : Moves Writes (packetWrite L len) := socketWrite_writes L len

/-- What follows a look at the connection's record. -/
theorem readClient_at {α β : Type} {R : Conn → Conn → Prop} {g : BrokerClient → α} {f : α → ClientM β} {s : Conn}
    (h : R s (f (g s.c) s).2) : R s ((readClient g >>= f) s).2 := h

theorem readClient_writes {α : Type} (f : BrokerClient → α) : Moves Writes (readClient f) := fun s => refl s

theorem writeDirect_writes (L : Limits) (len : Int) : Moves Writes (writeDirect L len) := by
  refine .ite (fun _ => .pure _) (fun _ => .bind (readClient_writes _) (fun _ => ?_))
  refine .ite (fun _ => .pure _) (fun _ => .bind (packetWrite_writes L _) (fun _ => ?_))
  exact .bind (modifyClient_writes (fun _ => rfl)) (fun _ => .pure _)

theorem writeResp_writes (L : Limits) (len : Int) : Moves Writes (writeResp L len) :=
  .bind (writeDirect_writes L len) (fun _ => .ite (fun _ => .pure _) (fun _ => .pure _))

theorem sendPingResp_writes (L : Limits) : Moves Writes (sendPingResp L) :=
  .bind (encodeInto_writes _) (fun _ => writeResp_writes L 2)

theorem sendSubAck_writes (L : Limits) (packetId : Nat) (codes : List UInt8) :
    Moves Writes (sendSubAck L packetId codes) := by
  refine .bind (readClient_writes _) (fun _ => .ite (fun _ => .pure _) (fun _ => ?_))
  refine .ite (fun _ => .pure _) (fun _ => .ite (fun _ => .pure _) (fun _ => ?_))
  exact .bind (encodeInto_writes _) (fun _ => writeResp_writes L _)

theorem sendDisconnect_writes (L : Limits) (reason : UInt8) : Moves Writes (sendDisconnect L reason) := by
  refine .bind (readClient_writes _) (fun _ => .ite (fun _ => .pure _) (fun _ => ?_))
  exact .bind (encodeInto_writes _) (fun _ => .ite (fun _ => writeDirect_writes L _) (fun _ => .pure _))

/-! ### Working on the queue -/

/-- The connection without its buffer, its queue and its Will: what delivering to it, or
publishing for it, changes. -/
def BrokerClient.still (c : BrokerClient) : BrokerClient :=
  {c with txBuf := [], writePos := 0, wire := [], sockOpen := true, connected := false, outQ := {},
          outQInflight := 0, outQPendingLen := 0, directPendingLen := 0, hasWill := false, willTopic := none,
          willPayload := [], willQos := .qos0, willRetain := false, willDelaySec := 0}

/-- A socket stays as it is, or is closed under a connection that then counts as gone. -/
def SameSocket (c c' : BrokerClient) : Prop :=
  (c'.sockOpen = c.sockOpen ∧ c'.connected = c.connected) ∨ (c'.sockOpen = false ∧ c'.connected = false)

structure Served (c c' : BrokerClient) : Prop where
  still : c'.still = c.still
  socket : SameSocket c c'

theorem Served.sconn {c c' : BrokerClient} (h : Served c c') : c'.sconn = c.sconn := by
  show c'.still.sconn = c.still.sconn
  rw [h.still]

instance : IsPreorder BrokerClient Served where
  refl c := ⟨rfl, .inl ⟨rfl, rfl⟩⟩
  trans c c' c'' h h' := by
    refine ⟨h'.still.trans h.still, ?_⟩
    rcases h'.socket with ⟨hs, hc⟩ | hclosed
    · rcases h.socket with ⟨hs', hc'⟩ | ⟨hs', hc'⟩
      · exact .inl ⟨hs.trans hs', hc.trans hc'⟩
      · exact .inr ⟨hs.trans hs', hc.trans hc'⟩
    · exact .inr hclosed

section serving
variable (L : Limits) (P : Label → Prop)

/-- `s'` is `s` after the queue was served: a run of the delivery system that leaves the rest of
the connection alone. -/
structure Serves (s s' : Conn) : Prop where
  served : Served s.c s'.c
  run : CRun L P s.view s'.view
  spends : s.env.Spends s'.env

instance : IsPreorder Conn (Serves L P) where
  refl s := ⟨refl s.c, .refl, refl s.env⟩
  trans _ _ _ h h' := ⟨trans_of Served h.served h'.served, Relation.ReflTransGen.trans h.run h'.run,
    trans_of Env.Spends h.spends h'.spends⟩

variable {L P}

theorem Writes.serves {s s' : Conn} (h : Writes s s') : Serves L P s s' := by
  have hc : ∀ {γ : Type} (f : Conn → γ), (∀ s, f s.quiet = f s) → f s' = f s := fun f hf =>
    (hf s').symm.trans ((congrArg f h).symm.trans (hf s))
  refine ⟨⟨hc (fun s => s.c.still) (fun _ => rfl), .inl ⟨hc (fun s => s.c.sockOpen) (fun _ => rfl),
    hc (fun s => s.c.connected) (fun _ => rfl)⟩⟩, ?_, .of_eq (hc (fun s => s.env.sessions) (fun _ => rfl)) (hc (fun s => s.env.answers) (fun _ => rfl))⟩
  rw [h.view]
  exact .refl

/-- A write to the transport, and then what it leaves to be done. -/
theorem Serves.after_writes {α β : Type} {m : ClientM α} {f : α → ClientM β} {s : Conn} (hm : Moves Writes m)
    (hf : ∀ x s', Writes s s' → Serves L P s' (f x s').2) : Serves L P s ((m >>= f) s).2 :=
  Moves.bind_at (hm s).serves (hf _ _ (hm s))

/-- A single step that leaves the rest of the connection alone. -/
theorem Serves.step {s s' : Conn} {ℓ : Label} (hP : P ℓ) (hserved : Served s.c s'.c)
    (hstep : CStep L ℓ s.view s'.view) (hspends : s.env.Spends s'.env) : Serves L P s s' :=
  ⟨hserved, .step hP hstep, hspends⟩

/-! ### The drain -/

theorem noteWriting_c (L : Limits) (e : OutPub) (s : Conn) : (noteWriting L e s).2.c = s.c := by
  show (whenDo (e.qos ≠ .qos0) (noteObs _) s).2.c = s.c
  unfold whenDo
  split <;> rfl

theorem persistDelOutPub_serves (packetId : Nat) (s : Conn) : Serves L P s (persistDelOutPub packetId s).2 := by
  refine readClient_at ?_
  generalize s.c.clientId = id
  cases id with
  | none => exact refl s
  | some id =>
    exact ⟨refl s.c, .refl, .persist fun _ => rfl⟩

variable (hP : P .plain) {e : OutPub} {s : Conn}
include hP

theorem noteEncoded_serves (he : e ∈ s.c.outQ.chain) : Serves L P s (noteEncoded e s).2 :=
  .step hP (refl s.c) (.encode e he) (.of_eq rfl rfl)

theorem noteWriting_serves (he : e ∈ s.c.outQ.chain) (hs : e.state = .queued)
    (hw : e.qos ≠ .qos0 → s.c.outQInflight < effectiveCap L s.c.clientReceiveMax) :
    Serves L P s (noteWriting L e s).2 := by
  show Serves L P s (whenDo (e.qos ≠ .qos0) (noteObs _) s).2
  unfold whenDo
  by_cases hq : e.qos ≠ .qos0
  · rw [if_pos hq]
    exact .step hP (refl s.c) (.write e he hs hq (hw hq)) (.of_eq rfl rfl)
  · rw [if_neg hq]
    exact refl s

theorem drainUnlink_serves {cause : Cause} (he : e ∈ s.c.outQ.chain) (hs : e.state = .queued)
    (hc : Unsent e cause) : Serves L P s (drainUnlink e cause s).2 :=
  .step hP ⟨rfl, .inl ⟨rfl, rfl⟩⟩ (.unsent e cause he hs hc) (.of_eq rfl rfl)

theorem noteSending_serves (he : e ∈ s.c.outQ.chain) (hs : e.state = .queued)
    (hahead : s.c.outQ.WF → ∀ x ∈ aheadOf s.c.outQ.chain e.addr, x.state ≠ .queued) : Serves L P s (noteSending e s).2 :=
  .step hP (refl s.c) (.send e he hs hahead) (.of_eq rfl rfl)

theorem setDup_serves (dup : Bool) (he : e ∈ s.c.outQ.chain) (hd : dup = true ∨ e.state = .pubrelSent) :
    Serves L P s (updateOutPub e.addr (OutPub.setDup dup) s).2 :=
  .step hP ⟨rfl, .inl ⟨rfl, rfl⟩⟩ (.markDup e dup he hd) (.of_eq rfl rfl)

theorem drainPubrel_serves (sent : Int) (he : e ∈ s.c.outQ.chain) (hs : e.state = .pubrelSent) :
    Serves L P s (drainPubrel L e sent s).2 := by
  refine Moves.bind_at (noteEncoded_serves hP he) (Serves.after_writes (encodeInto_writes _) fun relRc s₁ h₁ => ?_)
  have he₁ : e ∈ s₁.c.outQ.chain := by rw [h₁.outQ]; exact he
  split
  · exact refl s₁
  refine readClient_at ?_
  split
  · exact refl s₁
  refine Moves.bind_at (.step hP (refl s₁.c) (.reissue e he₁ hs) (.of_eq rfl rfl)) ?_
  refine Serves.after_writes (packetWrite_writes L _) fun wrRc s₂ h₂ => ?_
  have he₂ : e ∈ s₂.c.outQ.chain := by rw [h₂.outQ]; exact he₁
  split
  · exact Serves.after_writes (modifyClient_writes fun _ => rfl) fun _ s₃ _ => refl s₃
  refine Serves.after_writes (modifyClient_writes fun _ => rfl) fun _ s₃ h₃ => ?_
  split
  · exact refl s₃
  · exact Moves.bind_at (setDup_serves hP false (by rw [h₃.outQ]; exact he₂) (.inr hs)) (refl _)

theorem drainEncodeFailed_serves (encRc sent : Int) (he : e ∈ s.c.outQ.chain) (hs : e.state = .queued) :
    Serves L P s (drainEncodeFailed e encRc sent s).2 := by
  refine readClient_at ?_
  split
  · exact refl s
  refine Serves.after_writes (modifyClient_writes fun _ => rfl) fun _ s₁ h₁ => ?_
  refine Moves.bind_at (drainUnlink_serves hP (by rw [h₁.outQ]; exact he) hs .encodeFailure) ?_
  exact Moves.bind_at (Moves.when_at fun _ => persistDelOutPub_serves _ _) (refl _)

theorem whenSetDup_serves (p : Prop) [Decidable p] (he : e ∈ s.c.outQ.chain) :
    Serves L P s (whenDo p (updateOutPub e.addr (OutPub.setDup true)) s).2 := by
  exact Moves.when_at (fun _ => setDup_serves hP true he (.inl rfl))

theorem drainDeferred_serves (encRc : Int) (he : e ∈ s.c.outQ.chain) :
    Serves L P s (drainDeferred e encRc s).2 := by
  refine Serves.after_writes (modifyClient_writes fun _ => rfl) fun _ s₁ h₁ => ?_
  refine readClient_at (Moves.bind_at ?_ (refl _))
  exact whenSetDup_serves hP _ (by rw [h₁.outQ]; exact he)

theorem drainFailed_serves (wrRc : Int) (he : e ∈ s.c.outQ.chain) (hs : e.state = .queued) :
    Serves L P s (drainFailed e wrRc s).2 := by
  refine readClient_at ?_
  -- the first write is for QoS above 0, the second for QoS 0 only
  by_cases hq : e.qos = .qos0
  · simp only [hq, ne_eq, not_true_eq_false, and_false, whenDo, if_false, true_and]
    refine Moves.bind_at (refl s) (Moves.bind_at (Moves.when_at fun _ => ?_) (refl _))
    exact Moves.bind_at (drainUnlink_serves hP he hs (.qos0Cut hq)) (modifyClient_writes (fun _ => rfl) _).serves
  · simp only [hq, false_and, and_false, whenDo, if_false]
    exact Moves.bind_at (whenSetDup_serves hP _ he) (refl _)

theorem drainSent_serves (sent : Int) (he : e ∈ s.c.outQ.chain) (hs : e.state = .queued)
    (hsend : ∃ ahead, Obs.sending s.c.addr ahead e ∈ s.env.trace) :
    Serves L P s (drainSent e sent s).2 := by
  unfold drainSent
  by_cases hq : e.qos = .qos0
  · simp only [hq, if_true]
    exact .step hP ⟨rfl, .inl ⟨rfl, rfl⟩⟩ (.sentQos0 e he hs hq) (.of_eq rfl rfl)
  · simp only [hq, if_false]
    exact .step hP ⟨rfl, .inl ⟨rfl, rfl⟩⟩ (.sent e he hs hq hsend) (.of_eq rfl rfl)

theorem drainPublish_serves (sent : Int) (he : e ∈ s.c.outQ.chain) (hs : e.state = .queued)
    (hw : e.qos ≠ .qos0 → s.c.outQInflight < effectiveCap L s.c.clientReceiveMax)
    (hahead : s.c.outQ.WF → ∀ x ∈ aheadOf s.c.outQ.chain e.addr, x.state ≠ .queued) :
    Serves L P s (drainPublish L e sent s).2 := by
  refine Moves.bind_at (noteEncoded_serves hP he) (Serves.after_writes (encodeInto_writes _) fun encRc s₁ h₁ => ?_)
  have he₁ : e ∈ s₁.c.outQ.chain := by rw [h₁.outQ]; exact he
  have hw₁ := h₁.room hw
  split
  · exact drainEncodeFailed_serves hP encRc sent he₁ hs
  refine readClient_at ?_
  split
  · exact refl s₁
  refine Moves.bind_at (noteWriting_serves hP he₁ hs hw₁) ?_
  have hc := noteWriting_c L e s₁
  generalize (noteWriting L e s₁).2 = s' at hc ⊢
  have he' : e ∈ s'.c.outQ.chain := by rw [hc]; exact he₁
  refine Moves.bind_at (noteSending_serves hP he' hs (by rw [hc, h₁.outQ]; exact hahead)) ?_
  have hsend : ∃ ahead, Obs.sending (noteSending e s').2.view.conn.addr ahead e ∈ (noteSending e s').2.view.trace :=
    ⟨_, List.mem_append_right _ (List.mem_singleton_self _)⟩
  refine Serves.after_writes (packetWrite_writes L _) fun wrRc s₂ h₂ => ?_
  have he₂ : e ∈ s₂.c.outQ.chain := by rw [h₂.outQ]; exact he'
  split
  · exact drainDeferred_serves hP encRc he₂
  refine Serves.after_writes (modifyClient_writes fun _ => rfl) fun _ s₃ h₃ => ?_
  refine Serves.after_writes (zeroTxBuf_writes _) fun _ s₄ h₄ => ?_
  have he₄ : e ∈ s₄.c.outQ.chain := by rw [h₄.outQ, h₃.outQ]; exact he₂
  split
  · exact drainFailed_serves hP wrRc he₄ hs
  · refine drainSent_serves hP sent he₄ hs ?_
    show ∃ ahead, Obs.sending s₄.view.conn.addr ahead e ∈ s₄.view.trace
    rw [h₄.view, h₃.view, h₂.view]
    exact hsend

theorem drainEntry_serves (sent : Int) (he : e ∈ s.c.outQ.chain)
    (hahead : e.state = .queued → s.c.outQ.WF → ∀ x ∈ aheadOf s.c.outQ.chain e.addr, x.state ≠ .queued) :
    Serves L P s (drainEntry L (effectiveCap L s.c.clientReceiveMax) e sent s).2 := by
  unfold drainEntry
  split
  · split
    · rename_i hdup
      exact drainPubrel_serves hP sent he hdup.1
    · exact refl s
  · rename_i hs
    refine readClient_at ?_
    split
    · exact refl s
    · rename_i hroom
      refine drainPublish_serves hP sent he (not_not.mp hs) (fun hq => ?_) (hahead (not_not.mp hs))
      exact Int.not_le.mp (fun hle => hroom ⟨hq, hle⟩)

/-- What a turn of the drain that goes on leaves of the queue. -/
inductive Turn (e : OutPub) (q : TailQueue OutPub) : TailQueue OutPub → Prop
  | same (hs : e.state ≠ .queued) : Turn e q q
  | write (f : OutPub → OutPub) (ha : ∀ x, (f x).addr = x.addr) (hs : (f e).state ≠ .queued) : Turn e q (q.update e.addr f)
  | gone (hs : e.state = .queued) : Turn e q (q.unlink e.addr)

omit hP in
theorem Turn.passed {q q' : TailQueue OutPub} {rest : List Nat} (h : Turn e q q')
    (hp : Chain.Passed (·.state ≠ .queued) (e.addr :: rest) q.chain) (hat : Chain.at? q.chain e.addr = some e) :
    Chain.Passed (·.state ≠ .queued) rest q'.chain := by
  cases h with
  | same hs => exact hp.skip hat hs
  | write f ha hs => exact hp.write hat (ha e) hs
  | gone hs => exact hp.remove hat fun hne => hne hs

/-- A turn that goes on, as a property of what a computation returns. -/
def GoesOn (e : OutPub) (q : TailQueue OutPub) (r : DrainStep × Conn) : Prop := ∀ sent, r.1 = .next sent → Turn e q r.2.c.outQ

omit hP in
theorem GoesOn.after_writes {α : Type} {m : ClientM α} {f : α → ClientM DrainStep} {q : TailQueue OutPub} {s : Conn}
    (hm : Moves Writes m) (hq : s.c.outQ = q) (hf : ∀ x s', s'.c.outQ = q → GoesOn e q (f x s')) : GoesOn e q ((m >>= f) s) :=
  hf _ _ ((hm s).outQ.trans hq)

omit hP in
theorem goesOn_stop {q : TailQueue OutPub} (rc : Int) (s : Conn) : GoesOn e q ((pure (.stop rc) : ClientM DrainStep) s) :=
  fun _ h => by cases h

omit hP in
theorem drainPubrel_turn (L : Limits) (hs : e.state = .pubrelSent) (sent : Int) (s : Conn) :
    GoesOn e s.c.outQ (drainPubrel L e sent s) := by
  have hne : e.state ≠ .queued := by
    rw [hs]
    decide
  have hsame : ∀ (s' : Conn), s'.c.outQ = s.c.outQ → GoesOn e s.c.outQ ((pure (.next sent) : ClientM DrainStep) s') := by
    rintro s' hq _ -
    show Turn e s.c.outQ s'.c.outQ
    rw [hq]
    exact .same hne
  unfold drainPubrel
  rw [run_bind]
  refine GoesOn.after_writes (encodeInto_writes _) rfl fun relRc s₁ h₁ => ?_
  rw [run_ite]
  split
  · exact hsame s₁ h₁
  refine GoesOn.after_writes (readClient_writes _) h₁ fun pending s₂ h₂ => ?_
  rw [run_ite]
  split
  · exact goesOn_stop _ _
  rw [run_bind]
  refine GoesOn.after_writes (packetWrite_writes L _) h₂ fun wrRc s₃ h₃ => ?_
  rw [run_ite]
  split
  · exact GoesOn.after_writes (modifyClient_writes fun _ => rfl) h₃ fun _ s₄ _ => goesOn_stop _ _
  refine GoesOn.after_writes (modifyClient_writes fun _ => rfl) h₃ fun _ s₄ h₄ => ?_
  rw [run_ite]
  split
  · exact goesOn_stop _ _
  · rintro _ -
    show Turn e s.c.outQ (s₄.c.outQ.update e.addr _)
    rw [h₄]
    exact .write _ (fun _ => rfl) hne

omit hP in
theorem drainEncodeFailed_turn (hs : e.state = .queued) (encRc sent : Int) (s : Conn) :
    GoesOn e s.c.outQ (drainEncodeFailed e encRc sent s) := by
  refine GoesOn.after_writes (readClient_writes _) rfl fun pending s₁ h₁ => ?_
  rw [run_ite]
  split
  · exact goesOn_stop _ _
  refine GoesOn.after_writes (modifyClient_writes fun _ => rfl) h₁ fun _ s₂ h₂ => ?_
  have hkept : (whenDo (e.qos ≠ .qos0) (persistDelOutPub e.packetId) (drainUnlink e .encodeFailure s₂).2).2.c.outQ =
      s₂.c.outQ.unlink e.addr := by
    have hdel : ∀ s' : Conn, (persistDelOutPub e.packetId s').2.c = s'.c := by
      intro s'
      simp only [persistDelOutPub, readClient, run_bind, run_get, run_pure]
      cases s'.c.clientId <;> rfl
    unfold whenDo
    split
    · rw [hdel]
      rfl
    · rfl
  rintro _ -
  show Turn e s.c.outQ (whenDo (e.qos ≠ .qos0) (persistDelOutPub e.packetId) (drainUnlink e .encodeFailure s₂).2).2.c.outQ
  rw [hkept, h₂]
  exact .gone hs

omit hP in
theorem drainSent_turn (hs : e.state = .queued) (sent : Int) (s : Conn) : GoesOn e s.c.outQ (drainSent e sent s) := by
  rintro _ -
  unfold drainSent
  by_cases hq : e.qos = .qos0
  · simp only [hq, if_true]
    exact .gone hs
  · simp only [hq, if_false]
    exact .write OutPub.toSent (fun _ => rfl) (by simp [OutPub.toSent])

omit hP in
theorem drainPublish_turn (L : Limits) (hs : e.state = .queued) (sent : Int) (s : Conn) :
    GoesOn e s.c.outQ (drainPublish L e sent s) := by
  unfold drainPublish
  rw [run_bind]
  refine GoesOn.after_writes (encodeInto_writes _) rfl fun encRc s₁ h₁ => ?_
  rw [run_ite]
  split
  · exact h₁ ▸ drainEncodeFailed_turn hs encRc sent s₁
  refine GoesOn.after_writes (readClient_writes _) h₁ fun pending s₂ h₂ => ?_
  rw [run_ite]
  split
  · exact goesOn_stop _ _
  have h₃ : (noteSending e (noteWriting L e s₂).2).2.c.outQ = s.c.outQ := by
    show (noteWriting L e s₂).2.c.outQ = s.c.outQ
    rw [noteWriting_c]
    exact h₂
  rw [run_bind, run_bind]
  refine GoesOn.after_writes (packetWrite_writes L _) h₃ fun wrRc s₄ h₄ => ?_
  rw [run_ite]
  split
  · intro n hn
    cases hn
  refine GoesOn.after_writes (modifyClient_writes fun _ => rfl) h₄ fun _ s₅ h₅ => ?_
  refine GoesOn.after_writes (zeroTxBuf_writes _) h₅ fun _ s₆ h₆ => ?_
  rw [run_ite]
  split
  · intro n hn
    cases hn
  · exact h₆ ▸ drainSent_turn hs sent s₆

omit hP in
/-- A turn that goes on has passed its entry. -/
theorem drainEntry_turn (L : Limits) (cap : Int) (e : OutPub) (sent : Int) (s : Conn) :
    GoesOn e s.c.outQ (drainEntry L cap e sent s) := by
  unfold drainEntry
  split
  · rename_i hne
    split
    · rename_i hdup
      exact drainPubrel_turn L hdup.1 sent s
    · exact fun _ _ => .same hne
  · rename_i hs
    refine GoesOn.after_writes (readClient_writes _) rfl fun inflight s₁ h₁ => ?_
    rw [run_ite]
    split
    · exact goesOn_stop _ _
    · exact h₁ ▸ drainPublish_turn L (not_not.mp hs) sent s₁

omit hP in
theorem Serves.receiveMax {s s' : Conn} (h : Serves L P s s') : s'.c.clientReceiveMax = s.c.clientReceiveMax := by
  show s'.c.still.clientReceiveMax = s.c.still.clientReceiveMax
  rw [h.served.still]

theorem drainLoop_serves {cap : Int} (addrs : List Nat) (sent : Int) (s : Conn)
    (hcap : cap = effectiveCap L s.c.clientReceiveMax) (hpassed : Chain.Passed (·.state ≠ .queued) addrs s.c.outQ.chain) :
    Serves L P s (drainLoop L cap addrs sent s).2 := by
  induction addrs generalizing sent s with
  | nil => exact refl s
  | cons a rest ih =>
    refine readClient_at ?_
    obtain ⟨e, hat⟩ := hpassed.found
    have haddr : e.addr = a := Chain.at?_addr hat
    have hentry : Serves L P s (drainEntry L cap e sent s).2 := by
      rw [hcap]
      refine drainEntry_serves hP sent (Chain.at?_mem hat) fun hqueued hwf => ?_
      rw [haddr]
      exact hpassed.behind hat (fun hne => hne hqueued) hwf.nodup
    have hcap' : cap = effectiveCap L (drainEntry L cap e sent s).2.c.clientReceiveMax := by
      rw [hentry.receiveMax]
      exact hcap
    have hturn := drainEntry_turn L cap e sent s
    rw [hat]
    refine Moves.bind_at hentry ?_
    generalize drainEntry L cap e sent s = r at hcap' hturn ⊢
    obtain ⟨step, s'⟩ := r
    cases step with
    | stop rc => exact refl (r := Serves L P) s'
    | next sent' => exact ih sent' s' hcap' ((hturn sent' rfl).passed (haddr ▸ hpassed) (haddr ▸ hat))

theorem drainOutQueue_serves : Moves (Serves L P) (drainOutQueue L) := by
  intro s
  refine readClient_at ?_
  split
  · exact refl s
  · exact drainLoop_serves hP _ 0 s rfl (Chain.passed_start _)

/-! ### Acknowledgements -/

theorem completeOutPub_serves {ℓ : Label} {cause : Cause} (packetId : Nat) (hℓ : P ℓ) (he : e ∈ s.c.outQ.chain)
    (hc : Acked e cause ℓ) : Serves L P s (completeOutPub L e packetId cause s).2 := by
  have hflight : e.state ≠ .queued := by cases hc <;> simp_all
  have hview : (unlinkOutPub e cause s).2.view = s.view.drop e cause (inflightLess s.c.outQInflight) := by
    have hless : (if e.state ≠ .queued ∧ s.c.outQInflight > 0 then s.c.outQInflight - 1 else s.c.outQInflight) =
        inflightLess s.c.outQInflight := by
      simp only [inflightLess, hflight, ne_eq, not_false_eq_true, true_and]
    rw [← hless]
    rfl
  refine Moves.bind_at ⟨⟨rfl, .inl ⟨rfl, rfl⟩⟩, ?_, .of_eq rfl rfl⟩ ?_
  · rw [hview]
    exact .step hℓ (.acked e cause he hc)
  · exact Moves.bind_at (persistDelOutPub_serves _ _) (Moves.bind_at (drainOutQueue_serves hP _) (refl _))

omit hP in
theorem findOutPub_some {c : BrokerClient} {packetId : Nat} {state : OutPubState}
    (h : findOutPub c packetId state = some e) :
    e ∈ c.outQ.chain ∧ e.packetId = packetId ∧ e.state = state := by
  unfold findOutPub at h
  split at h
  · cases h
  · have := List.find?_some h
    simp only [decide_eq_true_eq] at this
    exact ⟨List.mem_of_find?_eq_some h, this.1, this.2⟩

/-- A PUBACK completes whatever it finds; at QoS 2 that is a step of its own kind. -/
theorem onPubAck_serves (packetId : Nat)
    (hq : ∀ e, findOutPub s.c packetId .publishSent = some e → e.qos = .qos2 → P .pubackQos2) :
    Serves L P s (onPubAck L packetId s).2 := by
  refine readClient_at ?_
  cases hfind : findOutPub s.c packetId .publishSent with
  | none => exact refl s
  | some e =>
    obtain ⟨he, -, hs⟩ := findOutPub_some hfind
    by_cases hqos : e.qos = .qos2
    · exact completeOutPub_serves hP packetId (hq e hfind hqos) he (.pubackQos2 hs hqos)
    · exact completeOutPub_serves hP packetId hP he (.puback hs hqos)

theorem onPubReject_serves (packetId : Nat) : Moves (Serves L P) (onPubReject L packetId) := by
  intro s
  refine readClient_at ?_
  cases hfind : findOutPub s.c packetId .publishSent with
  | none => exact refl s
  | some e =>
    obtain ⟨he, -, hs⟩ := findOutPub_some hfind
    exact Moves.when_at fun hqos => completeOutPub_serves hP packetId hP he (.pubrecError hs hqos)

theorem onPubComp_serves (packetId : Nat) : Moves (Serves L P) (onPubComp L packetId) := by
  intro s
  refine readClient_at ?_
  cases hfind : findOutPub s.c packetId .pubrelSent with
  | none => exact refl s
  | some e =>
    obtain ⟨he, -, hs⟩ := findOutPub_some hfind
    exact completeOutPub_serves hP packetId hP he (.pubcomp hs)

end serving

end WolfMqtt.Broker
