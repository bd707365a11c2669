import WolfMqtt.Packet.PropWire
import WolfMqtt.Static.Flow

/-! What the notes say of the entries there are.

An entry is of the last message taken under its identifier; it has been sent if a PUBLISH of
it is noted since, and keeps the interval that the first of them showed (`Since`). From this
comes what each PUBLISH owes the message (`Owed`), at the time it is sent. -/
namespace WolfMqtt.Static
open Broker Row History

/-! ### Intervals -/

/-- The Message Expiry Interval of a message. -/
def Message.expiry (m : Message) : Option Nat := (findProp m.props .msgExpiryInterval).map (·.dataInt)

/-- The interval that a PUBLISH shows. -/
def Sending.shown (τ : Sending) : Option Nat := (findProp τ.publish.props .msgExpiryInterval).map (·.dataInt)

/-- The properties of an entry have an interval. -/
def carriesExpiry (e : StaticOutPub) : Bool :=
  decide (e.propLen > 0) &&
    match decodeProps .publish maxProps (e.data.take e.propLen) e.propLen with
    | .error _ => false
    | .ok props => (findProp props .msgExpiryInterval).isSome

/-- What is left of the interval of an entry: after the first PUBLISH, what that one showed. -/
def leftExpiry (now : Nat) (e : StaticOutPub) : Nat := if e.wasSent then e.expirySec else e.expirySec - (now - e.enqTime)

section intervals
variable {level now : Nat} {e : StaticOutPub} {props : List MqttProp}

theorem findProp_map {f : MqttProp → MqttProp} (hf : ∀ p, (f p).type = p.type) (props : List MqttProp) (type : PropType) :
    findProp (props.map f) type = (findProp props type).map f := by
  unfold findProp
  rw [List.find?_map]
  congr 2
  funext p
  exact congrArg (fun t => decide (t = type)) (hf p)

theorem findProp_type {type : PropType} {p : MqttProp} (h : findProp props type = some p) : p.type = type := by
  simpa using List.find?_some h

/-- At level 5 an entry is sent with what is left of its interval. -/
theorem entryProps_expiry (h : entryProps level now e = .ok props) (hlevel : level ≥ level5) (hnow : e.enqTime ≤ now) :
    (findProp props .msgExpiryInterval).map (·.dataInt) = if carriesExpiry e then some (leftExpiry now e) else none := by
  unfold entryProps at h
  split at h
  · next hlen =>
    split at h
    · cases h
    next decoded hdecoded =>
    cases h
    rw [carriesExpiry, hdecoded, decide_eq_true hlen.2, Bool.true_and]
    rw [findProp_map]
    · cases hfind : findProp decoded .msgExpiryInterval with
      | none => simp [hfind]
      | some p =>
        have htype := findProp_type hfind
        simp only [hfind, Option.map_some, if_pos htype, Option.isSome_some, if_true, leftExpiry]
        split <;> rfl
    · intro p
      split
      · split <;> rfl
      · rfl
  · next hlen =>
    cases h
    have hzero : ¬e.propLen > 0 := fun hpos => hlen ⟨hlevel, hpos⟩
    rw [carriesExpiry, decide_eq_false hzero]
    rfl

theorem entryProps_low (h : entryProps level now e = .ok props) (hlevel : ¬level ≥ level5) : props = [] := by
  unfold entryProps at h
  rw [if_neg fun h => hlevel h.1] at h
  cases h
  rfl

/-- The interval an entry keeps when it has been sent. -/
theorem sentEntry_expirySec (h : entryProps level now e = .ok props) (hnow : e.enqTime ≤ now) :
    (sentEntry props e).expirySec = if level ≥ level5 ∧ carriesExpiry e = true then leftExpiry now e else e.expirySec := by
  show ((findProp props .msgExpiryInterval).map (·.dataInt)).getD e.expirySec = _
  by_cases hlevel : level ≥ level5
  · rw [entryProps_expiry h hlevel hnow]
    cases carriesExpiry e
    · exact (if_neg fun h => nomatch h.2).symm
    · exact (if_pos ⟨hlevel, rfl⟩).symm
  · rw [entryProps_low h hlevel, if_neg fun h => hlevel h.1]
    rfl

/-- The entry of a message that has an interval carries it. -/
theorem newEntry_carriesExpiry {L : StaticLimits} {m : Message} {bytes : Bytes} {id t : Nat} (henq : enqueueProps L m = .ok bytes)
    (htyped : ∀ p ∈ m.props, p.Typed) {v : Nat} (hv : m.expiry = some v) : carriesExpiry (newEntry m bytes id t) = true := by
  have henc : encodeProps .publish m.props = .ok bytes := by
    unfold enqueueProps at henq
    split at henq
    · cases henq
    split at henq
    · cases henq
    next bytes' henc =>
    split at henq
    · cases henq
    split at henq
    · cases henq
    · cases henq
      exact henc
  obtain ⟨⟨hroom, hallowed, -⟩, -⟩ := (encodeProps_ok_iff htyped bytes).mp henc
  have hauth : authPaired m.props := by
    intro hdata
    obtain ⟨p, hp, hauth⟩ := hdata
    have hnot := hallowed p hp
    rw [hauth] at hnot
    exact absurd hnot (by decide)
  have hread := decodeProps_encodeProps htyped henc hroom hauth []
  rw [List.append_nil] at hread
  obtain ⟨p, hp, -⟩ := Option.map_eq_some_iff.mp hv
  have hfound : findProp (m.props.map MqttProp.own) .msgExpiryInterval = some p.own := by
    rw [findProp_map MqttProp.own_type, hp]
    rfl
  have hlen : bytes.length > 0 := by
    by_contra hzero
    have hnil : bytes = [] := List.eq_nil_of_length_eq_zero (by omega)
    rw [hnil] at hread
    have hempty : m.props.map MqttProp.own = [] := (Except.ok.inj hread).symm
    rw [hempty] at hfound
    cases hfound
  have htake : ((bytes ++ m.payload).take bytes.length) = bytes := List.take_left
  unfold carriesExpiry
  show (decide (bytes.length > 0) && match decodeProps .publish maxProps ((bytes ++ m.payload).take bytes.length) bytes.length with
    | .error _ => false
    | .ok props => (findProp props .msgExpiryInterval).isSome) = true
  rw [htake, hread, decide_eq_true hlen]
  show (findProp (m.props.map MqttProp.own) .msgExpiryInterval).isSome = true
  rw [hfound]
  rfl

end intervals

/-! ### Accounts -/

/-- The entry of a message, now `e`, after what is noted since the message was taken. -/
structure Since (later : List Mark) (k : Nat) (e₀ e : StaticOutPub) : Prop where
  same : e = {e₀ with state := e.state, duplicate := e.duplicate, wasSent := e.wasSent, expirySec := e.expirySec}
  unsent : e.wasSent = false → e.expirySec = e₀.expirySec ∧ ∀ μ ∈ later, ¬μ.Sends k e.packetId
  sent : e.wasSent = true → ∃ σ, First (Mark.Sends k e.packetId) later (.sent k σ) ∧
    (σ.level ≥ level5 → σ.shown = if carriesExpiry e then some e.expirySec else none)
  repeats : e.wasSent = true → e.state = .queued → e.duplicate = true

/-- The notes account for an entry of slot `k`. -/
def Account (L : StaticLimits) (log : List Mark) (k : Nat) (e : StaticOutPub) : Prop :=
  ∃ m t later props, Last (Mark.Queues k e.packetId) log (.queued k m e.packetId t) later ∧ enqueueProps L m = .ok props ∧
    Since later k (newEntry m props e.packetId t) e

/-- What a PUBLISH is of the message. -/
structure Carries (m : Message) (p : Publish) : Prop where
  topicName : p.topicName = m.topic
  buffer : p.buffer = some m.payload
  qos : p.qos = m.qos
  retain : p.retain = m.retain

/-- What a PUBLISH from slot `k` owes its message, taken at `t`. The first is sent before the interval
is over, and at level 5 shows what is left of it; each other is marked as a repetition, and at level
5 shows what the first showed there. -/
def Owed (log : List Mark) (k : Nat) (τ : Sending) : Prop :=
  ∃ m t later, Last (Mark.Queues k τ.entry.packetId) log (.queued k m τ.entry.packetId t) later ∧ Carries m τ.publish ∧
    ((∀ μ ∈ later, ¬μ.Sends k τ.entry.packetId) → ∀ e, m.expiry = some e → t ≤ τ.time ∧ τ.time - t < e ∧
      (τ.level ≥ level5 → (∀ p ∈ m.props, p.Typed) → τ.shown = some (e - (τ.time - t)) ∧ 1 ≤ e - (τ.time - t))) ∧
    ∀ σ, First (Mark.Sends k τ.entry.packetId) later (.sent k σ) →
      τ.publish.duplicate = true ∧ (σ.level ≥ level5 → τ.level ≥ level5 → τ.shown = σ.shown)

section account
variable {L : StaticLimits} {log ms later : List Mark} {k level now : Nat} {e₀ e e' : StaticOutPub} {props : List MqttProp}

theorem newEntry_since (m : Message) (bytes : Bytes) (id t : Nat) : Since [] k (newEntry m bytes id t) (newEntry m bytes id t) :=
  ⟨rfl, fun _ => ⟨rfl, nofun⟩, nofun, nofun⟩

theorem Since.kept (h : Since later k e₀ e) (hk : Kept e e') : Since later k e₀ e' := by
  have hid := hk.packetId
  have hexp : e'.expirySec = e.expirySec := (congrArg StaticOutPub.expirySec hk.same :)
  have hcarries : carriesExpiry e' = carriesExpiry e := (congrArg carriesExpiry hk.same :)
  refine ⟨?_, fun hs => ?_, fun hs => ?_, hk.repeats h.repeats⟩
  · rw [hk.same, h.same]
  · rw [hexp, hid]
    exact h.unsent (hk.wasSent ▸ hs)
  · rw [hexp, hid, hcarries]
    exact h.sent (hk.wasSent ▸ hs)

theorem Since.append (h : Since later k e₀ e) (hms : ∀ μ ∈ ms, ¬μ.Sends k e.packetId) : Since (later ++ ms) k e₀ e := by
  refine ⟨h.same, fun hs => ?_, fun hs => ?_, h.repeats⟩
  · obtain ⟨hexp, hnone⟩ := h.unsent hs
    exact ⟨hexp, fun μ hμ => (List.mem_append.mp hμ).elim (hnone μ) (hms μ)⟩
  · obtain ⟨σ, hfirst, hshown⟩ := h.sent hs
    exact ⟨σ, hfirst.append ms, hshown⟩

theorem Account.kept (h : Account L log k e) (hk : Kept e e') : Account L log k e' := by
  obtain ⟨m, t, later, props, hlast, hprops, hsince⟩ := h
  rw [← hk.packetId] at hlast hsince
  exact ⟨m, t, later, props, hlast, hprops, hsince.kept hk⟩

theorem Account.append (h : Account L log k e) (hq : ∀ μ ∈ ms, ¬μ.Queues k e.packetId) (hs : ∀ μ ∈ ms, ¬μ.Sends k e.packetId) :
    Account L (log ++ ms) k e := by
  obtain ⟨m, t, later, props, hlast, hprops, hsince⟩ := h
  exact ⟨m, t, later ++ ms, props, hlast.append hq, hprops, hsince.append hs⟩

/-- The entry's PUBLISH, as the drain writes it at `now`. -/
theorem Account.send (h : Account L log k e) (hnow : e.enqTime ≤ now) (hprops : entryProps level now e = .ok props) :
    Account L (log ++ [.sent k ⟨e, level, now, props⟩]) k (sentEntry props e) := by
  obtain ⟨m, t, later, bytes, hlast, henq, hsince⟩ := h
  have hmark : Mark.Sends k e.packetId (.sent k ⟨e, level, now, props⟩) := ⟨rfl, rfl⟩
  have hcarries : carriesExpiry (sentEntry props e) = carriesExpiry e := rfl
  have hexp := sentEntry_expirySec hprops hnow
  have hlast' := hlast.append (m := [Mark.sent k ⟨e, level, now, props⟩]) fun μ hμ => by
    rw [List.mem_singleton.mp hμ]
    exact fun h => h
  refine ⟨m, t, later ++ [Mark.sent k ⟨e, level, now, props⟩], bytes, hlast', henq, ?_, nofun, fun _ => ?_, nofun⟩
  · have hsame := hsince.same
    show sentEntry props e = _
    unfold sentEntry
    rw [hsame]
    rfl
  · show ∃ σ, First (Mark.Sends k e.packetId) _ (.sent k σ) ∧ _
    rw [hcarries, hexp]
    cases hsent : e.wasSent with
    | true =>
      obtain ⟨σ, hfirst, hshown⟩ := hsince.sent hsent
      refine ⟨σ, hfirst.append _, fun hlevel => ?_⟩
      have hleft : leftExpiry now e = e.expirySec := if_pos hsent
      rw [hshown hlevel, hleft, ite_self]
    | false =>
      obtain ⟨-, hnone⟩ := hsince.unsent hsent
      refine ⟨_, (first_singleton hmark).behind hnone, fun hlevel => ?_⟩
      have hlevel : level ≥ level5 := hlevel
      show (findProp props .msgExpiryInterval).map (·.dataInt) = _
      rw [entryProps_expiry hprops hlevel hnow]
      cases hc : carriesExpiry e with
      | true => rw [if_pos rfl, if_pos rfl, if_pos ⟨hlevel, rfl⟩]
      | false => rfl

/-- So a PUBLISH pays what it owes. -/
theorem Account.owed (h : Account L log k e) (hnow : e.enqTime ≤ now) (hprops : entryProps level now e = .ok props)
    (hfresh : entryExpired now e = false) (hqueued : e.state = .queued) : Owed log k ⟨e, level, now, props⟩ := by
  obtain ⟨m, t, later, bytes, hlast, henq, hsince⟩ := h
  have hshown : level ≥ level5 → (findProp props .msgExpiryInterval).map (·.dataInt) =
      if carriesExpiry e then some (leftExpiry now e) else none := fun hlevel => entryProps_expiry hprops hlevel hnow
  have hcarries : carriesExpiry e = carriesExpiry (newEntry m bytes e.packetId t) := by
    rw [hsince.same]
    rfl
  refine ⟨m, t, later, hlast, ?_, fun hnone v hv => ?_, fun σ hfirst => ?_⟩
  · have htopic : e.topic = m.topic := (congrArg StaticOutPub.topic hsince.same :)
    have hdata : e.data = bytes ++ m.payload := (congrArg StaticOutPub.data hsince.same :)
    have hlen : e.propLen = bytes.length := (congrArg StaticOutPub.propLen hsince.same :)
    refine ⟨htopic, ?_, (congrArg StaticOutPub.qos hsince.same :), (congrArg StaticOutPub.retain hsince.same :)⟩
    show some (e.data.drop e.propLen) = _
    rw [hdata, hlen, List.drop_left]
  · have hunsent : e.wasSent = false := by
      cases hs : e.wasSent with
      | false => rfl
      | true =>
        obtain ⟨σ, hfirst, -⟩ := hsince.sent hs
        exact absurd hfirst.1 (hnone _ hfirst.mem)
    have htime : e.enqTime = t := (congrArg StaticOutPub.enqTime hsince.same :)
    have hhas : e.hasExpiry = true := by
      rw [hsince.same]
      show (findProp m.props .msgExpiryInterval).isSome = true
      obtain ⟨p, hp, -⟩ := Option.map_eq_some_iff.mp hv
      rw [hp]
      rfl
    have hsec : e.expirySec = v := by
      rw [(hsince.unsent hunsent).1]
      show ((findProp m.props .msgExpiryInterval).map (·.dataInt)).getD 0 = v
      have hv : (findProp m.props .msgExpiryInterval).map (·.dataInt) = some v := hv
      rw [hv]
      rfl
    have hlt : now - t < v := by
      rw [entryExpired, hunsent, hhas, htime, hsec, decide_eq_true (htime ▸ hnow)] at hfresh
      simpa using hfresh
    have hpos : 1 ≤ v - (now - t) := by omega
    refine ⟨htime ▸ hnow, hlt, fun hlevel htyped => ⟨?_, hpos⟩⟩
    have hyes : carriesExpiry (newEntry m bytes e.packetId t) = true := newEntry_carriesExpiry henq htyped hv
    refine (hshown hlevel).trans ?_
    rw [hcarries, hyes, if_pos rfl, leftExpiry, hunsent, hsec, htime]
    rfl
  · have hsent : e.wasSent = true := by
      cases hs : e.wasSent with
      | true => rfl
      | false => exact absurd hfirst.1 ((hsince.unsent hs).2 _ hfirst.mem)
    refine ⟨hsince.repeats hsent hqueued, fun hσ hlevel => ?_⟩
    obtain ⟨σ', hfirst', hshown'⟩ := hsince.sent hsent
    cases hfirst.unique hfirst'
    rw [hshown' hσ]
    refine (hshown hlevel).trans ?_
    rw [leftExpiry, hsent]
    rfl

end account

end WolfMqtt.Static
