import WolfMqtt.Static.Account
import WolfMqtt.Static.Undated

/-! Message expiry in the static-memory build.

A run keeps the accounts of all entries (`Told`): an operation that is not a drain through where
its entries come from, a drain turn by turn. What each PUBLISH owes is owed at its place in the
notes. -/
namespace WolfMqtt.Static
open Broker Row History

/-! ### The drain -/

section drain
variable {L : StaticLimits} {b : StaticBroker} {s : Link} {k i : Nat} {e : StaticOutPub}

theorem linkOnConn_after {α : Type} {m : ClientM α} (hm : Moves Writes m) (s : Link) : After s.env (s.onConn m).2.env :=
  onConn_after hm s.c s.env

/-- What writing to the connection leaves alone. -/
def Link.still (s : Link) : Carrier × List Sending := (s.o, s.sent)

/-- One turn of the drain: nothing is sent and every entry left was there, or the first QUEUED entry
is sent, at the time the turn reads. -/
inductive Turn (L : StaticLimits) (s s' : Link) : Prop
  | quiet (hafter : After s.env s'.env) (hsent : s'.sent = s.sent) (hkeeps : Keeps s.o s'.o)
  | sent {i : Nat} {e : StaticOutPub} {props : List MqttProp} (he : s.o.outQ.live[i]? = some e) (hqueued : e.state = .queued)
      (hfresh : entryExpired s.env.getTime.1 e = false) (hprops : entryProps s.c.protocolLevel s.env.getTime.1 e = .ok props)
      (hafter : After s.env s'.env) (hsent : s'.sent = s.sent ++ [⟨e, s.c.protocolLevel, s.env.getTime.1, props⟩])
      (hlive : s'.o.outQ.live = s.o.outQ.live.modify i (sentEntry props))

theorem drainPubrel_turn (i : Nat) : Turn L s (drainPubrel L i s).2 := by
  unfold drainPubrel
  split
  · exact .quiet .refl rfl .refl
  next e he =>
  split
  · exact .quiet .refl rfl .refl
  next hrel =>
  have hstate : e.state = .pubrelSent := by
    by_contra hne
    exact hrel (.inl hne)
  dsimp only
  have henc := linkOnConn_after (encodeInto_writes (encodePublishResp L.txBufSz .publishRel
    {packetId := e.packetId, protocolLevel := s.c.protocolLevel})) s
  have hstill : (s.onConn (encodeInto (encodePublishResp L.txBufSz .publishRel
    {packetId := e.packetId, protocolLevel := s.c.protocolLevel}))).2.still = s.still := rfl
  generalize s.onConn (encodeInto (encodePublishResp L.txBufSz .publishRel
    {packetId := e.packetId, protocolLevel := s.c.protocolLevel})) = enc at henc hstill ⊢
  split
  · exact .quiet ((henc.trans (linkOnConn_after (zeroTxBuf_writes L.txBufSz) enc.2)).trans (getTime_after _))
      (congrArg Prod.snd hstill) (keeps_of_outQ (congrArg (·.1.outQ) hstill))
  have hwr := henc.trans (linkOnConn_after (writeDirect_moves L.toLimits enc.1) enc.2)
  have hstill : (enc.2.onConn (Static.writeDirect L.toLimits enc.1)).2.still = s.still := hstill
  generalize enc.2.onConn (Static.writeDirect L.toLimits enc.1) = wr at hwr hstill ⊢
  split
  · exact .quiet (hwr.trans (getTime_after _)) (congrArg Prod.snd hstill) (keeps_of_outQ (congrArg (·.1.outQ) hstill))
  · refine .quiet (hwr.trans (linkOnConn_after (zeroTxBuf_writes enc.1.toNat) wr.2)) (congrArg Prod.snd hstill) ?_
    refine modify_keeps (fun e' he' => ⟨rfl, fun _ _ hqueued => ?_⟩) (congrArg (fun x : Carrier × List Sending => x.1.outQ.modify i _) hstill)
    rw [he] at he'
    cases he'
    have hnot : OutPubState.pubrelSent = .queued := hstate.symm.trans hqueued
    cases hnot

/-- An entry is sent, or nothing is. -/
theorem drainPublish_cases (now : Nat) (props : List MqttProp) : After s.env (drainPublish L i e now props s).2.env ∧
    (((drainPublish L i e now props s).2.sent = s.sent ∧ Keeps s.o (drainPublish L i e now props s).2.o) ∨
      ((drainPublish L i e now props s).2.sent = s.sent ++ [⟨e, s.c.protocolLevel, now, props⟩] ∧
        (drainPublish L i e now props s).2.o.outQ = s.o.outQ.modify i (sentEntry props))) := by
  unfold drainPublish
  dsimp only
  have henc := linkOnConn_after (encodeInto_writes (encodePublish L.txBufSz (entryPublish s.c.protocolLevel props e))) s
  have hstill : (s.onConn (encodeInto (encodePublish L.txBufSz (entryPublish s.c.protocolLevel props e)))).2.still = s.still := rfl
  generalize s.onConn (encodeInto (encodePublish L.txBufSz (entryPublish s.c.protocolLevel props e))) = enc at henc hstill ⊢
  have hdrop : ∀ n, After s.env (enc.2.onConn (zeroTxBuf n)).2.env ∧ (enc.2.onConn (zeroTxBuf n)).2.sent = s.sent ∧
      Keeps s.o (removeAt i (enc.2.onConn (zeroTxBuf n)).2.o) := by
    intro n
    refine ⟨henc.trans (linkOnConn_after (zeroTxBuf_writes n) enc.2), congrArg Prod.snd hstill, ?_⟩
    have ho : enc.2.o = s.o := congrArg Prod.fst hstill
    show Keeps s.o (removeAt i enc.2.o)
    rw [ho]
    exact removeAt_keeps
  split
  · obtain ⟨hafter, hstays⟩ := hdrop L.txBufSz
    exact ⟨hafter, .inl hstays⟩
  split
  · obtain ⟨hafter, hstays⟩ := hdrop enc.1.toNat
    exact ⟨hafter, .inl hstays⟩
  have hwr := henc.trans (linkOnConn_after (writeDirect_moves L.toLimits enc.1) enc.2)
  have hstill : (enc.2.onConn (Static.writeDirect L.toLimits enc.1)).2.still = s.still := hstill
  generalize enc.2.onConn (Static.writeDirect L.toLimits enc.1) = wr at hwr hstill ⊢
  split
  · refine ⟨hwr.trans (getTime_after _), .inl ⟨congrArg Prod.snd hstill, ?_⟩⟩
    exact modify_keeps (fun _ _ => ⟨rfl, fun _ _ _ => rfl⟩) (congrArg (fun x : Carrier × List Sending => x.1.outQ.modify i _) hstill)
  · exact ⟨hwr.trans (linkOnConn_after (zeroTxBuf_writes enc.1.toNat) wr.2), .inr ⟨congrArg (·.2 ++ [_]) hstill,
      congrArg (fun x => x.1.outQ.modify i (sentEntry props)) hstill⟩⟩

theorem drainTurn_turn : Turn L s (drainTurn L s).2 := by
  unfold drainTurn
  split
  · exact .quiet .refl rfl .refl
  next i e hfirst =>
  obtain ⟨he, hqueued⟩ := firstQueued_some hfirst
  have hnow := getTime_after s.env
  dsimp only
  split
  · exact .quiet hnow rfl removeAt_keeps
  next hfresh =>
  split
  · exact .quiet hnow rfl .refl
  split
  · exact .quiet hnow rfl .refl
  split
  · exact .quiet hnow rfl removeAt_keeps
  next props hprops =>
  obtain ⟨hafter, ⟨hnone, hkeeps⟩ | ⟨hsent, houtQ⟩⟩ :=
    drainPublish_cases (L := L) (s := {s with env := s.env.getTime.2}) (i := i) (e := e) s.env.getTime.1 props
  · exact .quiet (hnow.trans hafter) hnone hkeeps
  · exact .sent he hqueued (Bool.not_eq_true _ ▸ hfresh) hprops (hnow.trans hafter) hsent
      ((congrArg Cells.live houtQ).trans (Cells.live_modify ..))

/-- What a note that a PUBLISH was sent owes. -/
def Owes (log : List Mark) (μ : Mark) : Prop := ∀ k τ, μ = .sent k τ → Owed log k τ

/-- The notes of a broker whose drain is at work on the carrier in slot `k`. -/
def Link.log (s : Link) (notes : List Mark) (k : Nat) : List Mark := notes ++ s.sent.map (.sent k)

/-- A connection of `b` and its carrier in slot `k` at work on the drain. -/
structure LinkTold (L : StaticLimits) (b : StaticBroker) (k : Nat) (s : Link) : Prop where
  clock : ForwardClock s.env
  after : After b.env s.env
  ok : CarrierOk L s.o
  account : ∀ e ∈ s.o.outQ.live, Account L (s.log b.notes k) k e
  timely : ∀ e ∈ s.o.outQ.live, ∀ n, Reads s.env n → e.enqTime ≤ n
  owed : Each Owes (s.log b.notes k)

theorem LinkTold.turn {s' : Link} (h : LinkTold L b k s) (ht : Turn L s s') (hok : CarrierOk L s'.o) : LinkTold L b k s' := by
  cases ht with
  | quiet hafter hsent hkeeps =>
    have hlog : s'.log b.notes k = s.log b.notes k := congrArg (fun l => b.notes ++ l.map (Mark.sent k)) hsent
    refine ⟨hafter.forward h.clock, h.after.trans hafter, hok, fun e' he' => ?_, fun e' he' n hn => ?_, hlog ▸ h.owed⟩
    · obtain ⟨e, he, hkept⟩ := hkeeps e' he'
      exact hlog ▸ (h.account e he).kept hkept
    · obtain ⟨e, he, hkept⟩ := hkeeps e' he'
      exact hkept.enqTime ▸ h.timely e he n (hafter.reads hn)
  | @sent i e props he hqueued hfresh hprops hafter hsent hlive =>
    have hlog : s'.log b.notes k = s.log b.notes k ++ [.sent k ⟨e, s.c.protocolLevel, s.env.getTime.1, props⟩] := by
      unfold Link.log
      rw [hsent, List.map_append, List.append_assoc]
      rfl
    have hmem : e ∈ s.o.outQ.live := List.mem_of_getElem? he
    have hnow := h.timely e hmem _ (getTime_reads s.env)
    have haccount := h.account e hmem
    obtain ⟨pre, post, hsplit, -, hmodify⟩ := split_at he
    rw [hmodify] at hlive
    have hother : ∀ x ∈ pre ++ post, x ∈ s.o.outQ.live ∧ x.packetId ≠ e.packetId := by
      intro x hx
      have hpair := h.ok.live.distinct
      rw [hsplit, List.pairwise_append, List.pairwise_cons] at hpair
      rw [hsplit]
      rcases List.mem_append.mp hx with hx | hx
      · exact ⟨List.mem_append_left _ hx, hpair.2.2 x hx e List.mem_cons_self⟩
      · exact ⟨List.mem_append_right _ (List.mem_cons_of_mem _ hx), (hpair.2.1.1 x hx).symm⟩
    have hcases : ∀ x ∈ s'.o.outQ.live, x = sentEntry props e ∨ x ∈ pre ++ post := by
      intro x hx
      rw [hlive] at hx
      rcases List.mem_append.mp hx with hx | hx
      · exact .inr (List.mem_append_left _ hx)
      · exact (List.mem_cons.mp hx).imp_right (List.mem_append_right _)
    refine ⟨hafter.forward h.clock, h.after.trans hafter, hok, fun x hx => ?_, fun x hx n hn => ?_,
      hlog ▸ h.owed.concat fun j τ heq => ?_⟩
    · rw [hlog]
      rcases hcases x hx with rfl | hx
      · exact haccount.send hnow hprops
      · obtain ⟨hx, hne⟩ := hother x hx
        refine (h.account x hx).append (fun μ hμ => ?_) (fun μ hμ hs => ?_)
        · rw [List.mem_singleton.mp hμ]
          exact fun h => h
        · rw [List.mem_singleton.mp hμ] at hs
          exact hne hs.2.symm
    · rcases hcases x hx with rfl | hx
      · exact h.timely e hmem n (hafter.reads hn)
      · exact h.timely x (hother x hx).1 n (hafter.reads hn)
    · cases heq
      exact haccount.owed hnow hprops hfresh hqueued

theorem LinkTold.pubrels (h : LinkTold L b k s) (i left : Nat) : LinkTold L b k (drainPubrels L i left s).2 := by
  induction left generalizing i s with
  | zero => exact h
  | succ left ih =>
    have hturn := h.turn (drainPubrel_turn i) ((drainPubrel_moves i).linked.preserves.ok h.ok)
    unfold drainPubrels
    dsimp only
    split
    · exact ih hturn (i + 1)
    · exact hturn

theorem LinkTold.loop (h : LinkTold L b k s) (fuel : Nat) : LinkTold L b k (drainLoop L fuel s) := by
  induction fuel generalizing s with
  | zero => exact h
  | succ fuel ih =>
    have hturn := h.turn drainTurn_turn (drainTurn_moves.linked.preserves.ok h.ok)
    unfold drainLoop
    dsimp only
    split
    · exact ih hturn
    · exact hturn

theorem LinkTold.link (h : LinkTold L b k s) : LinkTold L b k (drainLink L s) := by
  unfold drainLink
  dsimp only
  split
  · exact (h.pubrels ..).loop _
  · exact h.pubrels ..

end drain

/-! ### Runs -/

/-- The notes account for every entry there is, and each of their PUBLISHes paid what it owed. -/
structure Told (L : StaticLimits) (b : StaticBroker) : Prop where
  clock : ForwardClock b.env
  account : ∀ k e, Holds b k e → Account L b.notes k e
  timely : ∀ k e, Holds b k e → ∀ n, Reads b.env n → e.enqTime ≤ n
  owed : Each Owes b.notes

section runs
variable {L : StaticLimits} {b b' : StaticBroker} {i : Nat}

theorem Told.flow (h : Told L b) (hflow : Flow L b b') : Told L b' := by
  obtain ⟨ms, hf⟩ := hflow
  refine ⟨hf.after.forward h.clock, fun k e' he' => ?_, fun k e' he' n hn => ?_,
    hf.notes ▸ h.owed.append fun pre μ post heq k τ hμ => ?_⟩
  · rw [hf.notes]
    rcases hf.back k e' he' with ⟨e, he, hkept, hnone⟩ | ⟨m, id, t, later, props, hlast, hprops, hkept⟩
    · exact ((h.account k e he).append hnone fun μ hμ => hf.unsent μ hμ k e.packetId).kept hkept
    · have hunsent : ∀ μ ∈ later, ¬μ.Sends k id := by
        obtain ⟨before, rfl⟩ := hlast.split
        exact fun μ hμ => hf.unsent μ (List.mem_append_right _ (List.mem_cons_of_mem _ hμ)) k id
      have hnew : Since later k (newEntry m props id t) (newEntry m props id t) := (newEntry_since m props id t).append hunsent
      refine Account.kept ⟨m, t, later, props, hlast.behind b.notes, hprops, hnew⟩ hkept
  · rcases hf.back k e' he' with ⟨e, he, hkept, -⟩ | ⟨m, id, t, later, props, hlast, -, hkept⟩
    · exact hkept.enqTime ▸ h.timely k e he n (hf.after.reads hn)
    · rw [hkept.enqTime]
      exact hf.timely k m id t hlast.mem h.clock n hn
  · have hmem : μ ∈ ms := heq ▸ List.mem_append_right _ List.mem_cons_self
    have hsends : μ.Sends k τ.entry.packetId := hμ ▸ ⟨rfl, rfl⟩
    exact absurd hsends (hf.unsent μ hmem k τ.entry.packetId)

theorem Told.drain (h : Told L b) (hg : Good L [] b) (i : Nat) : Told L (drain L i b) := by
  unfold Static.drain
  split
  · exact h
  next c _ =>
  split
  · exact h
  split
  · exact h
  next k hk =>
  obtain ⟨o, ho, -⟩ := findOrphan_some hk
  rw [orphan?_of_getElem? ho]
  dsimp only
  have hlink : LinkTold L b k {c, o, env := b.env} := by
    have hlog : Link.log {c, o, env := b.env} b.notes k = b.notes := List.append_nil _
    refine ⟨h.clock, .refl, hg.carriers o (mem_carriers_of_getElem? ho), fun e he => ?_, fun e he => ?_, hlog.symm ▸ h.owed⟩
    · exact hlog.symm ▸ h.account k e ⟨o, ho, he⟩
    · exact h.timely k e ⟨o, ho, he⟩
  have hdone := hlink.link
  generalize drainLink L {c, o, env := b.env} = s at hdone ⊢
  have hslot : ∀ j e, Holds {(b.setClient i (some s.c)).setOrphan k (some s.o) with
      env := s.env, notes := s.log b.notes k} j e → (j = k ∧ e ∈ s.o.outQ.live) ∨ (j ≠ k ∧ Holds b j e) := by
    intro j e he
    obtain ⟨o', ho', he⟩ := he
    replace ho' : (b.orphans.set k (some s.o))[j]? = some (some o') := ho'
    rw [List.getElem?_set] at ho'
    split at ho'
    · next hkj =>
      split at ho'
      · cases ho'
        exact .inl ⟨hkj.symm, he⟩
      · cases ho'
    · next hkj => exact .inr ⟨fun h => hkj h.symm, o', ho', he⟩
  refine ⟨hdone.clock, fun j e he => ?_, fun j e he n hn => ?_, hdone.owed⟩
  · rcases hslot j e he with ⟨rfl, hmem⟩ | ⟨hne, hheld⟩
    · exact hdone.account e hmem
    · refine (h.account j e hheld).append (fun μ hμ => ?_) fun μ hμ hsends => ?_
      · obtain ⟨τ, -, rfl⟩ := List.mem_map.mp hμ
        exact fun h => h
      · obtain ⟨τ, -, rfl⟩ := List.mem_map.mp hμ
        exact hne hsends.1.symm
  · rcases hslot j e he with ⟨-, hmem⟩ | ⟨-, hheld⟩
    · exact hdone.timely e hmem n hn
    · exact h.timely j e hheld n (hdone.after.reads hn)

/-- An event drains a carrier, or it is one of the other operations. -/
theorem step_flow {ev : Event} (h : step L b ev = some b') : Flow L b b' ∨ ∃ i, b' = drain L i b := by
  cases ev with
  | accept =>
    cases h
    exact .inl addClient_flow
  | connect i req => exact .inl (handleConnect_flow h)
  | deliver t d => exact .inl (deliver_flow h)
  | drain i =>
    cases h
    exact .inr ⟨i, rfl⟩
  | puback i id =>
    cases h
    exact .inl (handlePubAck_flow id)
  | pubrec i id reason =>
    cases h
    exact .inl (handlePublishRec_flow id reason)
  | pubcomp i id =>
    cases h
    exact .inl (handlePubComp_flow id)
  | close i =>
    cases h
    exact .inl clientClose_flow
  | leave i expirySec will hasSubs => exact .inl (endConnection_flow h)
  | sweep =>
    cases h
    exact .inl sweep_flow

theorem Told.step (h : Told L b) (hg : Good L [] b) {ev : Event} (hstep : step L b ev = some b') : Told L b' := by
  rcases step_flow hstep with hflow | ⟨i, rfl⟩
  · exact h.flow hflow
  · exact h.drain hg i

/-- Notes stay. -/
theorem step_notes {ev : Event} (h : step L b ev = some b') : b.notes <+: b'.notes := by
  rcases step_flow h with ⟨ms, hflow⟩ | ⟨i, rfl⟩
  · exact ⟨ms, hflow.notes.symm⟩
  · unfold Static.drain
    split
    · exact List.prefix_rfl
    split
    · exact List.prefix_rfl
    split
    · exact List.prefix_rfl
    split
    · exact List.prefix_rfl
    · exact List.prefix_append ..

theorem run_notes {evs : List Event} (h : run L evs b = some b') : b.notes <+: b'.notes := by
  induction evs generalizing b with
  | nil =>
    cases h
    exact List.prefix_rfl
  | cons ev rest ih =>
    unfold Static.run at h
    split at h
    · cases h
    next b₁ hstep => exact (step_notes hstep).trans (ih h)

theorem run_append (pre post : List Event) : run L (pre ++ post) b = (run L pre b).bind (run L post) := by
  induction pre generalizing b with
  | nil => rfl
  | cons ev rest ih =>
    rw [List.cons_append, Static.run, Static.run]
    cases step L b ev with
    | none => rfl
    | some b₁ => exact ih

theorem Told.run (h : Told L b) (hg : Good L [] b) (evs : List Event) : ∃ b', run L evs b = some b' ∧ Told L b' := by
  induction evs generalizing b with
  | nil => exact ⟨b, rfl, h⟩
  | cons ev rest ih =>
    obtain ⟨b₁, hstep, hg₁⟩ := hg.step ev
    obtain ⟨b', hrun, htold⟩ := ih (h.step hg hstep) hg₁
    refine ⟨b', ?_, htold⟩
    rw [Static.run, hstep]
    exact hrun

theorem initial_told {env : Env} (h : ForwardClock env) : Told L (initial L env) := by
  have hempty : ∀ k e, ¬Holds (initial L env) k e := by
    intro k e he
    obtain ⟨o, ho, -⟩ := he
    have hmem : some o ∈ List.replicate L.maxStaticOrphanSessions (none : Option Carrier) := List.mem_of_getElem? ho
    cases List.eq_of_mem_replicate hmem
  exact ⟨h, fun k e he => absurd he (hempty k e), fun k e he => absurd he (hempty k e), each_nil⟩

end runs

/-! ### The result -/

/-- A PUBLISH of the last message taken under this identifier is noted. -/
def SentSince (log : List Mark) (k id : Nat) : Prop :=
  ∃ m t later, Last (Mark.Queues k id) log (.queued k m id t) later ∧ ∃ μ ∈ later, μ.Sends k id

theorem Account.wasSent_iff {L : StaticLimits} {log : List Mark} {k : Nat} {e : StaticOutPub} (h : Account L log k e) :
    e.wasSent = true ↔ SentSince log k e.packetId := by
  obtain ⟨m, t, later, props, hlast, -, hsince⟩ := h
  constructor
  · intro hs
    obtain ⟨σ, hfirst, -⟩ := hsince.sent hs
    exact ⟨m, t, later, hlast, .sent k σ, hfirst.mem, hfirst.1⟩
  · intro hsent
    obtain ⟨m', t', later', hlast', μ, hμ, hsends⟩ := hsent
    obtain ⟨-, rfl⟩ := hlast.unique hlast'
    by_contra hs
    exact (hsince.unsent (Bool.not_eq_true _ ▸ hs)).2 μ hμ hsends

/-- Over every run with a clock that does not go back, each PUBLISH of a queued message pays what it
owes; and a message that has been sent is past every test of its expiry, so that the rest of the run
is what it would be if it had none. -/
theorem queued_expiry (L : StaticLimits) {env : Env} (hclock : ForwardClock env) (evs : List Event) :
    ∃ b', run L evs (initial L env) = some b' ∧ Each Owes b'.notes ∧
      ∀ pre post, evs = pre ++ post → ∃ b, run L pre (initial L env) = some b ∧ b.notes <+: b'.notes ∧
        (∀ k e, Holds b k e → SentSince b.notes k e.packetId → ∀ now, entryExpired now e = false) ∧
        (∀ k e, Holds b k e → (e.wasSent = true ↔ SentSince b.notes k e.packetId)) ∧
        (run L post b.undated).map StaticBroker.undated = (run L post b).map StaticBroker.undated := by
  have hstart : Told L (initial L env) := initial_told hclock
  obtain ⟨b', hrun', htold⟩ := hstart.run (initial_good L env) evs
  refine ⟨b', hrun', htold.owed, fun pre post hsplit => ?_⟩
  obtain ⟨b, hrun, hb⟩ := hstart.run (initial_good L env) pre
  have hsent : ∀ k e, Holds b k e → (e.wasSent = true ↔ SentSince b.notes k e.packetId) :=
    fun k e he => (hb.account k e he).wasSent_iff
  rw [hsplit, run_append, hrun] at hrun'
  refine ⟨b, hrun, run_notes hrun', fun k e he hs now => ?_, hsent, run_undated post b⟩
  rw [entryExpired, (hsent k e he).mpr hs]
  rfl

/-- A level 5 client with a session that outlives its connection. -/
def lastingRequest : ConnectReq where
  clientId := [97]
  protocolLevel := 5
  cleanSession := false
  sessionExpiry := some 1000
  ack := {flags := 0, returnCode := 0, protocolLevel := 5}

/-- A message with an interval of 10. -/
def datedDelivery : Delivery where
  site := .publish
  topic := [116]
  payload := [1, 2]
  qos := .qos1
  props := [{type := .msgExpiryInterval, dataInt := 10}]

/-- The message is sent, its connection is lost, and it is sent again when the client is back. -/
def repeatedRun : List Event :=
  [.accept, .connect 0 lastingRequest, .deliver (.live 0) datedDelivery, .drain 0, .close 0, .leave 0 none [] true, .accept,
   .connect 0 lastingRequest, .drain 0]

/-- A clock that shows another second at every reading. -/
def quickClock : Env where
  clock := List.range 40
  now := 40

/-- The PUBLISH of a note: is it marked as a repetition, and which interval does it show? -/
def Mark.shown : Mark → Option (Bool × Option Nat)
  | .queued .. => none
  | .sent _ τ => some (τ.publish.duplicate, τ.shown)

/-- It is taken at 4 and sent at 5, and again much later. -/
theorem queued_expiry_repeated : ∃ b', run {} repeatedRun (initial {} quickClock) = some b' ∧ Each Owes b'.notes ∧
    b'.notes.filterMap Mark.shown = [(false, some 9), (true, some 9)] := by
  obtain ⟨b', hrun, howes, -⟩ := queued_expiry {} (show ForwardClock quickClock by decide) repeatedRun
  have hshown : (run {} repeatedRun (initial {} quickClock)).map (fun b => b.notes.filterMap Mark.shown) =
      some [(false, some 9), (true, some 9)] := by decide +kernel
  rw [hrun] at hshown
  exact ⟨b', hrun, howes, Option.some.inj hshown⟩

end WolfMqtt.Static
