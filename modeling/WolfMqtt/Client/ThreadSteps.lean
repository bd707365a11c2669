import WolfMqtt.Client.Threads

/-! What a step of a thread can be: one case for each section of the code. -/
namespace WolfMqtt
namespace Threads
namespace Sys

variable {s s' : Sys} {k : Nat}

/-! ### What the small moves leave as it was -/

@[simp]
theorem place_set (s : Sys) (k : Nat) (t : Task) (j : Nat) : (s.set k t).place j = if j = k then t.place else s.place j := by
  simp only [place, set, Function.update_apply]
  split <;> rfl

@[simp]
theorem place_go (s : Sys) (k : Nat) (p : Place) (j : Nat) : (s.go k p).place j = if j = k then p else s.place j :=
  place_set s k _ j

@[simp]
theorem place_abandon (s : Sys) (k : Nat) (r : MsgState) (j : Nat) :
    (s.abandon k r).place j = if j = k then .leaving else s.place j := place_set _ k _ j

/-! ### The cases -/

/-- What a step does, and from which place of the call on `k`. -/
inductive Step (s : Sys) (k : Nat) : Act → Sys → Prop where
  | send {r : Request} (hplace : s.place k = .idle) (hfree : s.lockSend = none) (henc : r.encodable) :
    Step s k (.send r) (Sys.go {s with lockSend := some k} k (.claimed r))
  | wait (hplace : s.place k = .idle) : Step s k .wait (s.go k (.waiting none))
  | answered {w : Wait} {x : PendResp} {a : Act} (hplace : s.place k = .waiting w) (hdone : s.pendDone w = some x)
    (ha : a = .poll ∨ a = .lock) : Step s k a (s.answered k x)
  | resume {w : Wait} (hplace : s.place k = .waiting w) (hread : (s.task k).read ≠ .begin) :
    Step s k .resume (s.resume k w)
  | lock {w : Wait} (hplace : s.place k = .waiting w) (hfree : s.lockRecv = none) :
    Step s k .lock (Sys.go {s with lockRecv := some k} k (.reading w))
  | read {w : Wait} {p : Incoming} (hplace : s.place k = .reading w) (hp : p.decodable s.protocolLevel) :
    Step s k (.read p)
      (Sys.go {s with rxBuf := some p, reads := s.reads ++ [p]} k
        (.received {wait := w, packet := p, index := s.reads.length}))
  | fails {w : Wait} {fatal : Bool} (hplace : s.place k = .reading w) :
    Step s k (.fails fatal) (s.abandon k (if fatal then .begin else .header))
  | reserve {r : Request} {cb : Option UInt8} (hplace : s.place k = .claimed r) : Step s k (.next cb) (s.reserve k r)
  | list {r : Request} {cb : Option UInt8} (hplace : s.place k = .reserved r) : Step s k (.next cb) (s.list k r)
  | write {r : Request} {cb : Option UInt8} (hplace : s.place k = .listed r) : Step s k (.next cb) (s.write k r)
  | giveUp {r : Request} {cb : Option UInt8} (hplace : s.place k = .refused r) :
    Step s k (.next cb) ((if r.packetId = 0 then s else s.releaseOwner k).go k .leaving)
  | look {h : Hold} {cb : Option UInt8} (hplace : s.place k = .received h) :
    Step s k (.next cb) ((s.decode h).go k (.looked h))
  | locate {h : Hold} {cb : Option UInt8} (hplace : s.place k = .looked h) :
    Step s k (.next cb) (s.go k (.located h (s.locate k h)))
  | handle {h : Hold} {f : Found} {cb : Option UInt8} (hplace : s.place k = .located h f) :
    Step s k (.next cb) (s.handle k h f cb)
  | reject {h : Hold} {cb : Option UInt8} (hplace : s.place k = .rejecting h) : Step s k (.next cb) (s.reject k h)
  | giveBack {h : Hold} {cb : Option UInt8} (hplace : s.place k = .rejected h) :
    Step s k (.next cb) ((s.release h none).abandon k .payload)
  | complete {h : Hold} {f : Found} {ack : Option Ack} {cb : Option UInt8} (hplace : s.place k = .handled h f ack) :
    Step s k (.next cb) (s.complete k h f ack)
  | stage {h : Hold} {f : Found} {ack : Option Ack} {cb : Option UInt8} (hplace : s.place k = .completed h f ack) :
    Step s k (.next cb) (s.stage k h f ack)
  | claimAck {h : Hold} {m : Bool} {ack : Ack} {cb : Option UInt8} (hplace : s.place k = .staged h m ack)
    (hfree : s.lockSend = none) : Step s k (.next cb) (Sys.go {s with lockSend := some k} k (.acking h m ack))
  | sendAck {h : Hold} {m : Bool} {ack : Ack} {cb : Option UInt8} (hplace : s.place k = .acking h m ack) :
    Step s k (.next cb) (s.sendAck k h m ack)
  | leave {cb : Option UInt8} (hplace : s.place k = .leaving) :
    Step s k (.next cb) (Sys.go {s with pendResps := respListRemove s.pendResps k} k .idle)
  | cancel {w : Wait} (hplace : s.place k = .waiting w) : Step s k .cancel (s.cancel k w.isSome)
  | cancelIdle (hplace : s.place k = .idle) : Step s k .cancel (s.cancel k false)
  | auth {pending : Bool} : Step s k (.auth pending) {s with autoAuth := pending}

theorem next_cases {cb : Option UInt8} (h : s.next k cb = some s') : Step s k (.next cb) s' := by
  unfold next at h
  split at h
  case h_1 r hplace => exact Option.some.inj h ▸ .reserve hplace
  case h_2 r hplace => exact Option.some.inj h ▸ .list hplace
  case h_3 r hplace => exact Option.some.inj h ▸ .write hplace
  case h_4 r hplace => exact Option.some.inj h ▸ .giveUp hplace
  case h_5 h' hplace => exact Option.some.inj h ▸ .look hplace
  case h_6 h' hplace => exact Option.some.inj h ▸ .locate hplace
  case h_7 h' f hplace => exact Option.some.inj h ▸ .handle hplace
  case h_8 h' hplace => exact Option.some.inj h ▸ .reject hplace
  case h_9 h' hplace => exact Option.some.inj h ▸ .giveBack hplace
  case h_10 h' f ack hplace => exact Option.some.inj h ▸ .complete hplace
  case h_11 h' f ack hplace => exact Option.some.inj h ▸ .stage hplace
  case h_12 h' m ack hplace =>
    split at h
    · exact Option.some.inj h ▸ .claimAck hplace (by assumption)
    · cases h
  case h_13 h' m ack hplace => exact Option.some.inj h ▸ .sendAck hplace
  case h_14 hplace => exact Option.some.inj h ▸ .leave hplace
  case h_15 => cases h

theorem step_cases {a : Act} (h : s.step k a = some s') : Step s k a s' := by
  cases a with
  | send r =>
    simp only [step] at h
    split at h
    case isTrue hc => exact Option.some.inj h ▸ .send hc.1 hc.2.1 hc.2.2
    case isFalse => cases h
  | wait =>
    simp only [step] at h
    split at h
    case isTrue hc => exact Option.some.inj h ▸ .wait hc
    case isFalse => cases h
  | poll =>
    simp only [step] at h
    split at h
    case h_1 w hplace =>
      split at h
      case isTrue =>
        obtain ⟨x, hx, rfl⟩ := Option.map_eq_some_iff.mp h
        exact .answered hplace hx (.inl rfl)
      case isFalse => cases h
    case h_2 => cases h
  | resume =>
    simp only [step] at h
    split at h
    case h_1 w hplace =>
      split at h
      case isTrue => cases h
      case isFalse hread => exact Option.some.inj h ▸ .resume hplace hread
    case h_2 => cases h
  | lock =>
    simp only [step] at h
    split at h
    case h_1 w hplace =>
      split at h
      case isTrue hc =>
        have hs' := Option.some.inj h
        unfold Sys.lock at hs'
        split at hs'
        case h_1 x hx => exact hs' ▸ .answered hplace hx (.inr rfl)
        case h_2 => exact hs' ▸ .lock hplace hc.2
      case isFalse => cases h
    case h_2 => cases h
  | read p =>
    simp only [step] at h
    split at h
    case h_1 w hplace =>
      split at h
      case isTrue hp => exact Option.some.inj h ▸ .read hplace hp
      case isFalse => cases h
    case h_2 => cases h
  | fails fatal =>
    simp only [step] at h
    split at h
    case h_1 w hplace => exact Option.some.inj h ▸ .fails hplace
    case h_2 => cases h
  | next cb => exact next_cases h
  | cancel =>
    simp only [step] at h
    split at h
    case h_1 w hplace => exact Option.some.inj h ▸ .cancel hplace
    case h_2 hplace => exact Option.some.inj h ▸ .cancelIdle hplace
    case h_3 => cases h
  | auth pending => exact Option.some.inj h ▸ .auth

/-! ### What a step leaves alone -/

theorem place_of_task {s s' : Sys} (h : s'.task = s.task) (j : Nat) : s'.place j = s.place j :=
  congrArg (fun t : Nat → Task => (t j).place) h

theorem decode_frame (s : Sys) (h : Hold) : (s.decode h).task = s.task ∧ (s.decode h).protocolLevel = s.protocolLevel := by
  unfold decode
  split
  · exact ⟨rfl, rfl⟩
  · exact ⟨rfl, rfl⟩

/-- A step moves one call, and the protocol level stays. -/
structure Frame (s s' : Sys) (k : Nat) : Prop where
  level : s'.protocolLevel = s.protocolLevel
  others : ∀ j, j ≠ k → s'.place j = s.place j

theorem Frame.of {s' : Sys} (t : Task) (hlevel : s'.protocolLevel = s.protocolLevel)
    (htask : s'.task = Function.update s.task k t) : Frame s s' k where
  level := hlevel
  others j hj := by rw [place, place, htask, Function.update_of_ne hj]

theorem Frame.after {s₁ s' : Sys} (hlevel : s₁.protocolLevel = s.protocolLevel) (htask : s₁.task = s.task)
    (h : Frame s₁ s' k) : Frame s s' k where
  level := h.level.trans hlevel
  others j hj := (h.others j hj).trans (place_of_task htask j)

theorem handle_frame (s : Sys) (k : Nat) (h : Hold) (f : Found) (cb : Option UInt8) : Frame s (s.handle k h f cb) k := by
  obtain ⟨htask, hlevel⟩ := decode_frame s h
  refine .after hlevel htask ?_
  unfold handle
  dsimp only
  split
  · unfold handlePublish
    split
    · exact .of _ rfl rfl
    · split <;> exact .of _ rfl rfl
  · split <;> exact .of _ rfl rfl
  · exact .of _ rfl rfl
  · exact .of _ rfl rfl
  · exact .of _ rfl rfl

theorem Step.frame {a : Act} (h : Step s k a s') : Frame s s' k := by
  cases h with
  | resume =>
    unfold Sys.resume
    split
    · exact .of _ rfl rfl
    · split <;> exact .of _ rfl rfl
    · exact .of _ rfl rfl
    · exact .of _ rfl rfl
  | reserve =>
    unfold Sys.reserve
    dsimp only
    split <;> exact .of _ rfl rfl
  | list =>
    unfold Sys.list
    split <;> exact .of _ rfl rfl
  | giveUp =>
    split <;> exact .of _ rfl rfl
  | look => exact .after (decode_frame s _).2 (decode_frame s _).1 (.of _ rfl rfl)
  | handle => exact handle_frame s k _ _ _
  | reject =>
    unfold Sys.reject
    split <;> exact .of _ rfl rfl
  | stage =>
    unfold Sys.stage
    split
    · split <;> exact .of _ rfl rfl
    · split <;> exact .of _ rfl rfl
  | sendAck =>
    unfold Sys.sendAck
    dsimp only
    split <;> exact .of _ rfl rfl
  | auth => exact ⟨rfl, fun _ _ => rfl⟩
  | _ => exact .of _ rfl rfl

/-- A call that rejects an exchange has read a PUBREC that does. -/
def Rejecting (s : Sys) : Prop :=
  ∀ j h, s.place j = .rejecting h ∨ s.place j = .rejected h → h.packet.rejects s.protocolLevel

theorem handle_rejecting {h g : Hold} {f : Found} {cb : Option UInt8}
    (hp : (s.handle k h f cb).place k = .rejecting g ∨ (s.handle k h f cb).place k = .rejected g) :
    g.packet.rejects s.protocolLevel := by
  have hlevel := (decode_frame s h).2
  unfold handle at hp
  dsimp only at hp
  split at hp
  · unfold handlePublish at hp
    split at hp
    · simp at hp
    · split at hp <;> simp [accept] at hp
  · split at hp
    case isTrue hrej =>
      simp only [place_go, if_true, reduceCtorEq, or_false, Place.rejecting.injEq] at hp
      rw [← hp, ← hlevel]
      exact hrej
    case isFalse => simp [accept] at hp
  · simp [accept] at hp
  · simp at hp
  · simp at hp

theorem Step.rejecting {a : Act} (hstep : Step s k a s') (hinv : s.Rejecting) : s'.Rejecting := by
  intro j h hp
  have hframe := hstep.frame
  rw [hframe.level]
  by_cases hj : j = k
  swap
  · rw [hframe.others j hj] at hp
    exact hinv j h hp
  subst hj
  cases hstep with
  | handle => exact handle_rejecting hp
  | reject hplace =>
    unfold Sys.reject at hp
    split at hp
    · simp only [place_go, if_true, reduceCtorEq, false_or, Place.rejected.injEq] at hp
      exact hinv j h (.inl (hp ▸ hplace))
    · simp only [place_go, if_true, reduceCtorEq, false_or, Place.rejected.injEq] at hp
      exact hinv j h (.inl (hp ▸ hplace))
  | auth => exact hinv j h hp
  | resume hplace =>
    unfold Sys.resume at hp
    have hwait : (s.task j).place = _ := hplace
    split at hp
    · simp at hp
    · split at hp <;> simp at hp
    · simp at hp
    · simp [hwait] at hp
  | reserve =>
    unfold Sys.reserve at hp
    dsimp only at hp
    split at hp <;> simp at hp
  | list =>
    unfold Sys.list at hp
    split at hp <;> simp at hp
  | giveUp => split at hp <;> simp at hp
  | stage =>
    unfold Sys.stage at hp
    split at hp
    · split at hp <;> simp at hp
    · split at hp <;> simp at hp
  | sendAck =>
    unfold Sys.sendAck at hp
    dsimp only at hp
    split at hp
    · split at hp <;> simp at hp
    · simp at hp
  | answered => simp [Sys.answered] at hp
  | write => simp [Sys.write] at hp
  | complete => simp [Sys.complete] at hp
  | cancel => simp [Sys.cancel] at hp
  | cancelIdle => simp [Sys.cancel] at hp
  | _ => simp at hp

/-! ### A few calls at a time -/

/-- No call is under way but those on the objects `ks`. -/
def Only (s : Sys) (ks : List Nat) : Prop := ∀ j ∉ ks, s.place j = .idle

section Only
variable {ks : List Nat}

theorem Only.step {a : Act} (h : s.Only ks) (hk : k ∈ ks) (hstep : s.step k a = some s') : s'.Only ks := by
  intro j hj
  have hne : j ≠ k := fun heq => hj (heq ▸ hk)
  exact ((step_cases hstep).frame.others j hne).trans (h j hj)

/-- What the calls on `ks` meet, and an idle one, every call meets. -/
theorem Only.all_places {P : Place → Bool} (h : s.Only ks) (hidle : P .idle) (hks : ks.all fun j => P (s.place j)) (j : Nat) :
    P (s.place j) := by
  by_cases hj : j ∈ ks
  · exact List.all_eq_true.mp hks j hj
  · rw [h j hj]
    exact hidle

end Only

end Sys
end Threads
end WolfMqtt
