import Mathlib.Logic.Function.Basic
import WolfMqtt.Lib.Moves
import WolfMqtt.Sn.Turns

/-! Every message a client receives gets its callback and its answer, over every run of waits.

A run is a list of passes of waits, with any objects, and of other operations that use the writer.
One wait at a time holds the receive lock, and only it can have an answer pending. The result
holds of a run in which a wait does not take up what belongs to another: it starts at
`MQTT_MSG_BEGIN` or holds the receive lock, and what it reads anew finds `ack` at
`MQTT_MSG_BEGIN`. Nothing in the source sees to that. -/
namespace WolfMqtt.Sn
namespace SnClient

/-! ### Runs -/

/-- What happens to a client: a pass of a wait with the object `o`, or another operation with the writer. -/
inductive Event where
  | wait (o : Nat) (waitType : UInt8) (waitId : Nat) (p : Pass)
  | write (uses : Writer → Writer)

def step (s : SnClient) : Event → SnClient
  | .wait o waitType waitId p => (s.pass o waitType waitId p).2
  | .write uses => {s with client := {s.client with writer := uses s.client.writer}}

/-- A call of `SN_Client_WaitType` is a run of its passes. -/
theorem waitCall_run (s : SnClient) (o : Nat) (waitType : UInt8) (waitId : Nat) (ps : List Pass) :
    ∃ n, (s.waitCall o waitType waitId ps).2 = ((ps.take n).map (Event.wait o waitType waitId)).foldl step s := by
  induction ps generalizing s with
  | nil => exact ⟨0, rfl⟩
  | cons p rest ih =>
    unfold waitCall
    split
    next rc s' hpass =>
      refine ⟨1, ?_⟩
      show s' = (s.pass o waitType waitId p).2
      rw [hpass]
    next s' hpass =>
      obtain ⟨n, hn⟩ := ih s'
      refine ⟨n + 1, ?_⟩
      rw [hn, List.take_succ_cons, List.map_cons, List.foldl_cons]
      show _ = List.foldl step (s.pass o waitType waitId p).2 _
      rw [hpass]

/-- What the application and the rest of the client do: the message callback takes its messages, and the writer is
left to the wait that is writing its answer. -/
def Plays (s : SnClient) : Event → Prop
  | .wait _ _ _ p => p.msgRc = Code.success
  | .write _ => ∀ o, (s.stats o).isWriteActive = false

/-- Does the pass read a PUBLISH or a REGISTER? -/
def Brings (s : SnClient) (o : Nat) (p : Pass) : Prop :=
  ((s.stats o).read = .begin ∨ (s.stats o).read = .header) ∧
    ∃ bytes h, p.found = .packet bytes ∧ decodeHeader (s.received bytes).packet = .ok h ∧
      (h.type = MsgType.register ∨ h.type = MsgType.publish)

/-- A wait goes on with its own packet, or starts: it holds the receive lock, or is at `MQTT_MSG_BEGIN`, or is
over while nobody holds the lock. At `MQTT_MSG_HEADER` it has to hold the lock, for it reads on there without taking it.
A message it reads finds `ack` at `MQTT_MSG_BEGIN`. -/
def InTurn (s : SnClient) : Event → Prop
  | .wait o _ _ p =>
    ((s.stats o).isReadActive = true ∨ (s.stats o).read = .begin ∨
      ((s.stats o).read = .payload ∨ (s.stats o).read = .payload2) ∧ s.client.readActive = false) ∧
      (s.Brings o p → (s.stats o).ack = .begin)
  | .write _ => True

/-- A client before its first wait. -/
structure Unused (s : SnClient) : Prop where
  stats : s.stats = fun _ => {}
  readActive : s.client.readActive = false
  snWaitPacketType : s.snWaitPacketType = MsgType.reserved
  turns : s.turns = []

/-! ### The invariant -/

/-- The message received last has its answer pending. -/
def Answering (s : SnClient) (stat : MqttMsgStat) : Prop :=
  ∃ t rest, s.turns = t :: rest ∧ t.type = s.snWaitPacketType ∧ Holds s t ∧ Pending s.terms s.client.writer t stat

/-- The object writes nothing. -/
structure Idle (stat : MqttMsgStat) : Prop where
  isWriteActive : stat.isWriteActive = false
  unwritten : stat.ack ≠ .header

/-- A wait that holds the receive lock is in the middle of a packet, or of its answer. -/
def Reading (s : SnClient) (stat : MqttMsgStat) : Prop :=
  (stat.read = .header ∧ Idle stat ∧ s.snWaitPacketType = MsgType.reserved) ∨ (stat.read = .payload ∧ Answering s stat)

structure Inv (s : SnClient) : Prop where
  served : ∀ t ∈ s.turns, t.Served s.terms
  idle : ∀ o, (s.stats o).isReadActive = false → Idle (s.stats o)
  alone : ∀ o, (s.stats o).isReadActive = true →
    s.client.readActive = true ∧ ∀ o', (s.stats o').isReadActive = true → o' = o
  reading : ∀ o, (s.stats o).isReadActive = true → Reading s (s.stats o)
  free : s.client.readActive = false → s.snWaitPacketType = MsgType.reserved

theorem Unused.inv {s : SnClient} (h : s.Unused) : Inv s := by
  have hstat : ∀ o, s.stats o = {} := fun o => congrFun h.stats o
  refine ⟨?_, ?_, ?_, ?_, fun _ => h.snWaitPacketType⟩
  · rw [h.turns]
    exact fun t ht => absurd ht List.not_mem_nil
  · intro o _
    rw [hstat o]
    exact ⟨rfl, fun h => MsgState.noConfusion h⟩
  · intro o ho
    rw [hstat o] at ho
    cases ho
  · intro o ho
    rw [hstat o] at ho
    cases ho

/-- The other objects neither read nor write. -/
def Others (s : SnClient) (o : Nat) : Prop := ∀ o' ≠ o, (s.stats o').isReadActive = false ∧ Idle (s.stats o')

theorem Inv.others {s : SnClient} (h : Inv s) {o : Nat}
    (ho : (s.stats o).isReadActive = true ∨ s.client.readActive = false) : Others s o := by
  intro o' hne
  have hfree : (s.stats o').isReadActive = false := by
    cases hread : (s.stats o').isReadActive with
    | false => rfl
    | true =>
      obtain ⟨hactive, halone⟩ := h.alone o' hread
      rcases ho with ho | ho
      · exact absurd (halone o ho).symm hne
      · rw [ho] at hactive
        cases hactive
  exact ⟨hfree, h.idle o' hfree⟩

section SetStat
variable {s : SnClient} {o : Nat} {stat : MqttMsgStat}

theorem stats_setStat_self : (s.setStat o stat).stats o = stat := by
  simp [setStat]

theorem stats_setStat_of_ne {o' : Nat} (h : o' ≠ o) : (s.setStat o stat).stats o' = s.stats o' := by
  simp [setStat, h]

/-- A wait that has let go of the receive lock. -/
theorem inv_released (hserved : ∀ t ∈ s.turns, t.Served s.terms) (hothers : Others s o)
    (hread : stat.isReadActive = false) (hidle : Idle stat) (htype : s.snWaitPacketType = MsgType.reserved) :
    Inv (s.setStat o stat) := by
  have hnone : ∀ o', ((s.setStat o stat).stats o').isReadActive = false ∧ Idle ((s.setStat o stat).stats o') := by
    intro o'
    by_cases ho : o' = o
    · subst ho
      rw [stats_setStat_self]
      exact ⟨hread, hidle⟩
    · rw [stats_setStat_of_ne ho]
      exact hothers o' ho
  refine ⟨hserved, fun o' _ => (hnone o').2, ?_, ?_, fun _ => htype⟩
  · intro o' ho'
    rw [(hnone o').1] at ho'
    cases ho'
  · intro o' ho'
    rw [(hnone o').1] at ho'
    cases ho'

/-- A wait that keeps the receive lock. -/
theorem inv_held (hserved : ∀ t ∈ s.turns, t.Served s.terms) (hothers : Others s o)
    (hactive : s.client.readActive = true) (hread : stat.isReadActive = true) (hreading : Reading s stat) :
    Inv (s.setStat o stat) := by
  have hother : ∀ o' ≠ o, ((s.setStat o stat).stats o').isReadActive = false ∧ Idle ((s.setStat o stat).stats o') := by
    intro o' ho
    rw [stats_setStat_of_ne ho]
    exact hothers o' ho
  have hself : ∀ o', ((s.setStat o stat).stats o').isReadActive = true → o' = o := by
    intro o' ho'
    by_contra hne
    rw [(hother o' hne).1] at ho'
    cases ho'
  refine ⟨hserved, ?_, fun o' ho' => ⟨hactive, fun o'' ho'' => (hself o'' ho'').trans (hself o' ho').symm⟩, ?_, ?_⟩
  · intro o' ho'
    by_cases ho : o' = o
    · subst ho
      rw [stats_setStat_self, hread] at ho'
      cases ho'
    · exact (hother o' ho).2
  · intro o' ho'
    obtain rfl := hself o' ho'
    rw [stats_setStat_self]
    rcases hreading with ⟨hheader, hidle, htype⟩ | ⟨hpayload, t, rest, hturns, htype, hholds, hpending⟩
    · exact .inl ⟨hheader, hidle, htype⟩
    · exact .inr ⟨hpayload, t, rest, hturns, htype, ⟨hholds.bufLen, hholds.register, hholds.other⟩, hpending⟩
  · intro hfree
    exact absurd (hactive.symm.trans hfree) (by decide)

end SetStat

/-! ### The end of a pass -/
section Finish
variable {s : SnClient} {o : Nat}

/-- What the switch of `SN_Client_WaitType` owes. -/
structure Sound (s : SnClient) (w : Switched) : Prop where
  served : ∀ t ∈ w.sn.turns, t.Served w.sn.terms
  stats : w.sn.stats = s.stats
  terms : w.sn.terms = s.terms
  closed : ¬w.Open → Idle w.stat
  opened : w.Open → w.stat.read = .payload ∧ w.stat.isReadActive = true ∧ w.sn.client.readActive = true ∧
    Answering w.sn w.stat
  header : w.stat.read = .header → w.stat.isReadActive = true ∧ w.sn.client.readActive = true ∧
    w.sn.snWaitPacketType = MsgType.reserved

theorem Sound.others {w : Switched} (hw : Sound s w) (hothers : Others s o) : Others w.sn o := by
  intro o' ho'
  rw [hw.stats]
  exact hothers o' ho'

/-- The receive lock is let go of, whatever becomes of the read state. -/
theorem Sound.released {w : Switched} (hw : Sound s w) (hothers : Others s o) {stat : MqttMsgStat} (hidle : Idle w.stat)
    (hread : stat.isReadActive = false) (hwrite : stat.isWriteActive = w.stat.isWriteActive)
    (hack : stat.ack = w.stat.ack) : Inv ((w.sn.doneReading w.stat).1.setStat o stat) := by
  have hstat : Idle stat := ⟨hwrite.trans hidle.isWriteActive, by rw [hack]; exact hidle.unwritten⟩
  exact inv_released hw.served (hw.others hothers) hread hstat rfl

/-- An answer is kept for later: the wait keeps the receive lock. -/
theorem Sound.kept_open {w : Switched} (hw : Sound s w) (hothers : Others s o) (hopen : w.Open) :
    Inv (w.sn.setStat o w.stat) := by
  obtain ⟨hread, hactive, hlocked, hanswering⟩ := hw.opened hopen
  exact inv_held hw.served (hw.others hothers) hlocked hactive (.inr ⟨hread, hanswering⟩)

/-- Part of a packet has come: the wait keeps the receive lock. -/
theorem Sound.kept_header {w : Switched} (hw : Sound s w) (hothers : Others s o) (hclosed : ¬w.Open)
    (hread : w.stat.read = .header) : Inv (w.sn.setStat o w.stat) := by
  obtain ⟨hactive, hlocked, htype⟩ := hw.header hread
  exact inv_held hw.served (hw.others hothers) hlocked hactive (.inl ⟨hread, hw.closed hclosed, htype⟩)

theorem finish_inv (waitType : UInt8) (waitId : Nat) {w : Switched} (hw : Sound s w) (hothers : Others s o) :
    Inv ((finish w waitType waitId).2.1.setStat o (finish w waitType waitId).2.2) := by
  unfold finish
  dsimp only
  generalize hstat : (if w.stat.read = .wait then {w.stat with read := .begin} else w.stat) = stat₁
  have hsame : w.stat.read ≠ .wait → stat₁ = w.stat := by
    intro h
    rw [← hstat, if_neg h]
  have hread : stat₁.read = .header → w.stat.read = .header := by
    intro h
    by_cases hwait : w.stat.read = .wait
    · rw [← hstat, if_pos hwait] at h
      cases h
    · rw [← hsame hwait, h]
  have hwrite : stat₁.isWriteActive = w.stat.isWriteActive := by
    rw [← hstat]
    split <;> rfl
  have hack : stat₁.ack = w.stat.ack := by
    rw [← hstat]
    split <;> rfl
  have hpayload : w.Open → stat₁ = w.stat := fun hopen => hsame (by rw [(hw.opened hopen).1]; decide)
  split
  next hheld =>
    by_cases hopen : w.Open
    · rw [hpayload hopen]
      exact hw.kept_open hothers hopen
    · have hheader : w.stat.read = .header := by
        rcases hheld.1.2 with h | h
        · exact hread h
        · exact absurd ⟨hheld.1.1, h⟩ hopen
      rw [hsame (by rw [hheader]; decide)]
      exact hw.kept_header hothers hopen hheader
  next =>
  split
  next hheld =>
    have hopen : w.Open := ⟨hheld.1.1, hheld.2.1⟩
    rw [hpayload hopen]
    exact hw.kept_open hothers hopen
  next hheld =>
    have hidle : Idle w.stat := by
      by_cases hopen : w.Open
      · obtain ⟨-, -, -, t, rest, -, -, -, hpending⟩ := hw.opened hopen
        rcases hpending with hwaiting | hwriting
        · obtain ⟨rc, -, hrecalled⟩ := hwaiting.owed
          exact ⟨hwaiting.idle, hrecalled.unwritten⟩
        · exact absurd ⟨⟨hopen.1, .inr hopen.2⟩, hopen.2, hwrite.trans hwriting.active⟩ hheld
      · exact hw.closed hopen
    generalize hstat₂ : (if w.rc = Code.continue then {(w.sn.doneReading stat₁).2 with read := .begin}
      else (w.sn.doneReading stat₁).2) = stat₂
    have hread₂ : stat₂.isReadActive = false := by
      rw [← hstat₂]
      split <;> rfl
    have hwrite₂ : stat₂.isWriteActive = w.stat.isWriteActive := by
      rw [← hwrite, ← hstat₂]
      split <;> rfl
    have hack₂ : stat₂.ack = w.stat.ack := by
      rw [← hack, ← hstat₂]
      split <;> rfl
    split
    · exact hw.released hothers hidle hread₂ hwrite₂ hack₂
    split
    · split
      · exact hw.released hothers hidle hread₂ hwrite₂ hack₂
      · exact hw.released hothers hidle hread₂ hwrite₂ hack₂
    · exact hw.released hothers hidle hread₂ hwrite₂ hack₂

end Finish

/-! ### A pass -/
section Passes
variable {s : SnClient} (stat : MqttMsgStat) {t : Turn} {rest : List Turn} (waitType : UInt8) (waitId id : Nat) (p : Pass)

/-- The packet in the buffer is handled, whatever stage it is at. -/
theorem handleCase_sound (hp : p.msgRc = Code.success) (hturns : s.turns = t :: rest)
    (htype : t.type = s.snWaitPacketType) (hholds : Holds s t)
    (hstage : (Fresh t stat ∧ stat.isWriteActive = false) ∨ Pending s.terms s.client.writer t stat)
    (hrest : ∀ t ∈ rest, t.Served s.terms) (hread : stat.read = .payload) (hactive : stat.isReadActive = true)
    (hlocked : s.client.readActive = true) : Sound s (s.handleCase stat waitType waitId t.type id p) := by
  have hends := handlePacket_ends p hp hturns hholds hstage
  obtain ⟨acts, hturns', hserved, hopen⟩ := hends.turn
  have hall : ∀ u ∈ (s.handlePacket t.type stat p).sn.turns, u.Served (s.handlePacket t.type stat p).sn.terms := by
    rw [hturns', hends.kept.terms]
    intro u hu
    rcases List.mem_cons.mp hu with rfl | hu
    · exact hserved
    · exact hrest u hu
  unfold handleCase
  dsimp only
  by_cases hcode : (s.handlePacket t.type stat p).rc = Code.continue
  · rw [if_pos hcode]
    refine ⟨hall, hends.kept.stats, hends.kept.terms, fun h => ⟨(hends.closed h).1, (hends.closed h).2⟩, fun h => ?_, ?_⟩
    · refine ⟨hends.read.trans hread, hends.isReadActive.trans hactive, hends.kept.readActive.trans hlocked, _, rest,
        hturns', htype.trans hends.kept.snWaitPacketType.symm,
        ⟨hends.holds.bufLen, hends.holds.register, hends.holds.other⟩, ?_⟩
      rw [hends.kept.terms]
      exact hopen h
    · intro h
      have hcon := (hends.read.trans hread).symm.trans h
      cases hcon
  · rw [if_neg hcode]
    have hclosed := hends.closed fun h => hcode h.1
    have hno : ¬(if (s.handlePacket t.type stat p).rc ≥ 0 then Code.success else (s.handlePacket t.type stat p).rc) =
        Code.continue := by
      split
      · decide
      · exact hcode
    refine ⟨hall, hends.kept.stats, hends.kept.terms, fun _ => ⟨hclosed.1, hclosed.2⟩, fun h => absurd h.1 hno, ?_⟩
    intro h
    have hcon := (hends.read.trans hread).symm.trans h
    cases hcon

/-- A wait that is over finds no packet. -/
theorem idleCase_sound (hserved : ∀ t ∈ s.turns, t.Served s.terms) (hidle : Idle stat) (hread : stat.read ≠ .header) :
    Sound s (s.handleCase stat waitType waitId MsgType.reserved id p) := by
  have hhandled : s.handlePacket MsgType.reserved stat p = {rc := Code.success, sn := s, stat} := by
    unfold handlePacket
    rw [if_neg hidle.unwritten]
    rfl
  unfold handleCase
  rw [hhandled]
  have hno : ¬Code.success = Code.continue := by decide
  exact ⟨hserved, rfl, rfl, fun _ => ⟨hidle.isWriteActive, hidle.unwritten⟩, fun h => absurd h.1 hno,
    fun h => absurd h hread⟩

/-- A packet is read, or part of one. -/
theorem readCase_sound (hp : p.msgRc = Code.success) (hserved : ∀ t ∈ s.turns, t.Served s.terms) (hidle : Idle stat)
    (hactive : stat.isReadActive = true) (hlocked : s.client.readActive = true)
    (htype : s.snWaitPacketType = MsgType.reserved)
    (hbegins : ∀ bytes h, p.found = .packet bytes → decodeHeader (s.received bytes).packet = .ok h →
      (h.type = MsgType.register ∨ h.type = MsgType.publish) → stat.ack = .begin) :
    Sound s (s.readCase stat waitType waitId p) := by
  unfold readCase
  cases hfound : p.found with
  | fail rc started =>
    refine ⟨hserved, rfl, rfl, fun _ => ?_, fun h => Bool.noConfusion h.2, fun _ => ⟨?_, hlocked, htype⟩⟩
    · dsimp only
      split
      · exact ⟨hidle.isWriteActive, hidle.unwritten⟩
      · exact hidle
    · dsimp only
      split
      · exact hactive
      · exact hactive
  | packet bytes =>
    dsimp only
    split
    next =>
      exact ⟨hserved, rfl, rfl, fun _ => hidle, fun h => Bool.noConfusion h.2, fun _ => ⟨hactive, hlocked, htype⟩⟩
    split
    next e herror =>
      exact ⟨hserved, rfl, rfl, fun _ => ⟨hidle.isWriteActive, hidle.unwritten⟩, fun h => Bool.noConfusion h.2,
        fun _ => ⟨hactive, hlocked, htype⟩⟩
    next h hheader =>
      have hsound := handleCase_sound (s := (s.received bytes).opened h) {stat with read := .payload} waitType waitId
        h.packetId p hp rfl rfl ⟨rfl, fun _ => rfl, fun _ => rfl⟩
        (.inl ⟨⟨rfl, hidle.unwritten, hbegins bytes h hfound hheader⟩, hidle.isWriteActive⟩) hserved rfl hactive hlocked
      exact ⟨hsound.served, hsound.stats, hsound.terms, hsound.closed, hsound.opened, hsound.header⟩

end Passes

/-- The terms stay the same to the end of a pass. -/
theorem finish_terms (w : Switched) (waitType : UInt8) (waitId o : Nat) :
    ((finish w waitType waitId).2.1.setStat o (finish w waitType waitId).2.2).terms = w.sn.terms := by
  show (finish w waitType waitId).2.1.terms = w.sn.terms
  unfold finish
  dsimp only
  generalize (if w.stat.read = .wait then {w.stat with read := .begin} else w.stat) = stat
  split
  · rfl
  split
  · rfl
  split
  · rfl
  split
  · split
    · rfl
    · rfl
  · rfl

/-- What one pass of a wait keeps. -/
theorem pass_inv {s : SnClient} (hs : Inv s) {o : Nat} {waitType : UInt8} {waitId : Nat} {p : Pass}
    (hp : p.msgRc = Code.success) (hturn : s.InTurn (.wait o waitType waitId p)) :
    Inv (s.pass o waitType waitId p).2 ∧ (s.pass o waitType waitId p).2.terms = s.terms := by
  obtain ⟨hstart, hbrings⟩ := hturn
  have hdone : ∀ {w : Switched}, Sound s w → Others s o →
      Inv ((finish w waitType waitId).2.1.setStat o (finish w waitType waitId).2.2) ∧
        ((finish w waitType waitId).2.1.setStat o (finish w waitType waitId).2.2).terms = s.terms :=
    fun hw hothers => ⟨finish_inv waitType waitId hw hothers, (finish_terms _ _ _ _).trans hw.terms⟩
  -- An object that holds the lock is in the middle of a packet or of an answer.
  have hwhere : (s.stats o).isReadActive = true → (s.stats o).read = .header ∨ (s.stats o).read = .payload := by
    intro h
    rcases hs.reading o h with hreading | hreading
    · exact .inl hreading.1
    · exact .inr hreading.1
  have hover : ∀ r, (s.stats o).read = r → r ≠ .header → r ≠ .payload → r ≠ .begin → r = .payload2 := by
    intro r hr hheader hpayload hbegin
    subst hr
    rcases hstart with h | h | h
    · rcases hwhere h with h | h
      · exact absurd h hheader
      · exact absurd h hpayload
    · exact absurd h hbegin
    · rcases h.1 with h | h
      · exact absurd h hpayload
      · exact h
  have hfinished : (s.stats o).isReadActive = false → s.client.readActive = false → (s.stats o).read ≠ .header →
      Sound s (s.handleCase (s.stats o) waitType waitId s.snWaitPacketType s.snWaitPacketId p) := by
    intro hactive hfree hheader
    rw [hs.free hfree]
    exact idleCase_sound (s.stats o) waitType waitId s.snWaitPacketId p hs.served (hs.idle o hactive) hheader
  unfold pass
  dsimp only
  cases hread : (s.stats o).read with
  | begin =>
    dsimp only
    unfold MqttClient.readStart
    by_cases hlocked : s.client.readActive = true
    · have hcode : Code.continue ≠ Code.success := by decide
      rw [if_pos hlocked]
      dsimp only
      rw [if_pos hcode]
      exact ⟨hs, rfl⟩
    · have hcode : ¬Code.success ≠ Code.success := fun h => h rfl
      have hfree : s.client.readActive = false := by
        simpa using hlocked
      have hinactive : (s.stats o).isReadActive = false := by
        cases hactive : (s.stats o).isReadActive with
        | false => rfl
        | true => exact absurd (hs.alone o hactive).1 hlocked
      have hidle := hs.idle o hinactive
      rw [if_neg hlocked]
      dsimp only
      rw [if_neg hcode]
      have hsound := readCase_sound
        (s := {s with client := {s.client with readActive := true, reader := {s.client.reader with stat := .begin}}})
        {s.stats o with isReadActive := true, read := .wait} waitType waitId p hp hs.served
        ⟨hidle.isWriteActive, hidle.unwritten⟩ rfl rfl (hs.free hfree)
        fun bytes h hfound hheader hmsg => hbrings ⟨.inl hread, bytes, h, hfound, hheader, hmsg⟩
      exact hdone ⟨hsound.served, hsound.stats, hsound.terms, hsound.closed, hsound.opened, hsound.header⟩
        (hs.others (.inr hfree))
  | header =>
    have hactive : (s.stats o).isReadActive = true := by
      rcases hstart with h | h | h
      · exact h
      · rw [hread] at h
        cases h
      · rw [hread] at h
        rcases h.1 with h | h
        · cases h
        · cases h
    rcases hs.reading o hactive with ⟨-, hidle, htype⟩ | ⟨hpayload, -⟩
    · refine hdone (readCase_sound (s.stats o) waitType waitId p hp hs.served hidle hactive (hs.alone o hactive).1 htype
        ?_) (hs.others (.inl hactive))
      exact fun bytes h hfound hheader hmsg => hbrings ⟨.inr hread, bytes, h, hfound, hheader, hmsg⟩
    · rw [hread] at hpayload
      cases hpayload
  | payload =>
    have hheader : (s.stats o).read ≠ .header := by
      rw [hread]
      exact fun h => MsgState.noConfusion h
    by_cases hactive : (s.stats o).isReadActive = true
    · rcases hs.reading o hactive with ⟨h, -⟩ | ⟨-, t, rest, hturns, htype, hholds, hpending⟩
      · exact absurd h hheader
      · have hrest : ∀ u ∈ rest, u.Served s.terms :=
          fun u hu => hs.served u (by rw [hturns]; exact List.mem_cons_of_mem t hu)
        refine hdone ?_ (hs.others (.inl hactive))
        rw [← htype]
        exact handleCase_sound (s.stats o) waitType waitId s.snWaitPacketId p hp hturns htype hholds (.inr hpending) hrest
          hread hactive (hs.alone o hactive).1
    · have hinactive : (s.stats o).isReadActive = false := by
        simpa using hactive
      have hfree : s.client.readActive = false := by
        rcases hstart with h | h | h
        · exact absurd h hactive
        · rw [hread] at h
          cases h
        · exact h.2
      exact hdone (hfinished hinactive hfree hheader) (hs.others (.inr hfree))
  | payload2 =>
    have hheader : (s.stats o).read ≠ .header := by
      rw [hread]
      exact fun h => MsgState.noConfusion h
    have hinactive : (s.stats o).isReadActive = false := by
      cases hactive : (s.stats o).isReadActive with
      | false => rfl
      | true =>
        rcases hwhere hactive with h | h
        · exact absurd h hheader
        · rw [hread] at h
          cases h
    have hfree : s.client.readActive = false := by
      rcases hstart with h | h | h
      · rw [hinactive] at h
        cases h
      · rw [hread] at h
        cases h
      · exact h.2
    exact hdone (hfinished hinactive hfree hheader) (hs.others (.inr hfree))
  | wait => exact absurd (hover _ hread (by decide) (by decide) (by decide)) (by decide)
  | ack => exact absurd (hover _ hread (by decide) (by decide) (by decide)) (by decide)
  | auth => exact absurd (hover _ hread (by decide) (by decide) (by decide)) (by decide)

/-- What one event keeps. -/
theorem step_inv {s : SnClient} (hs : Inv s) {e : Event} (hplays : s.Plays e) (hturn : s.InTurn e) :
    Inv (s.step e) ∧ (s.step e).terms = s.terms := by
  cases e with
  | wait o waitType waitId p => exact pass_inv hs hplays hturn
  | write uses =>
    refine ⟨⟨hs.served, hs.idle, hs.alone, ?_, hs.free⟩, rfl⟩
    intro o ho
    rcases hs.reading o ho with ⟨hheader, hidle, htype⟩ | ⟨hpayload, t, rest, hturns, htype, hholds, hpending⟩
    · exact .inl ⟨hheader, hidle, htype⟩
    · refine .inr ⟨hpayload, t, rest, hturns, htype, ⟨hholds.bufLen, hholds.register, hholds.other⟩, ?_⟩
      rcases hpending with hwaiting | hwriting
      · exact .inl hwaiting
      · have hcon := (hplays o).symm.trans hwriting.active
        cases hcon

/-! ### Every message is served -/

/-- In a run in which every wait is in turn, every message received has its callback called once, and only then its
own answer sent, at most once. -/
theorem messages_served {s : SnClient} (hs : s.Unused) {events : List Event}
    (hrun : Along step (fun s e => s.Plays e ∧ s.InTurn e) s events) :
    ∀ t ∈ (events.foldl step s).turns, t.Served s.terms := by
  have hinv := Along.invariant (I := fun s' => Inv s' ∧ s'.terms = s.terms)
    (fun s' e h hq => ⟨(step_inv h.1 hq.1 hq.2).1, (step_inv h.1 hq.1 hq.2).2.trans h.2⟩) events s hrun ⟨hs.inv, rfl⟩
  intro t ht
  rw [← hinv.2]
  exact hinv.1.served t ht

/-- A client with both callbacks whose transport takes everything. -/
def sampleClient (nonblock : Bool) : SnClient :=
  {client :=
     {nonblock, txBufLen := 64, netWrite := fun _ => 64, reader := {rxBuf := List.replicate 16 0, net := {stream := []}},
      protocolLevel := 4, sendInflight := [], replay := []}
   msgCb := true, regCb := true}

theorem sampleClient_unused (nonblock : Bool) : (sampleClient nonblock).Unused := ⟨rfl, rfl, rfl, rfl⟩

/-- A PUBLISH of QoS 1 to topic 5 with the message id `id`. -/
def samplePublish (id : UInt8) : Pass := {found := .packet [8, 0x0C, 0x20, 0, 5, 0, id, 7]}

/-- Another operation takes the writer, or gives it back. -/
def sampleWriter (isActive : Bool) : Event := .write fun w => {w with isActive}

/-- The writer is busy when a PUBLISH comes in: its answer goes out when the wait is taken up again. -/
theorem messages_served_sample :
    (sampleClient true).Unused ∧
      ∀ t ∈ ([sampleWriter true, .wait 0 MsgType.any 0 (samplePublish 1), sampleWriter false,
        .wait 0 MsgType.any 0 (samplePublish 2)].foldl step (sampleClient true)).turns,
        t.Served {msgCb := true, regCb := true, txLen := 64} := by
  refine ⟨sampleClient_unused true, messages_served (sampleClient_unused true)
    ⟨⟨fun _ => rfl, trivial⟩, ⟨rfl, .inr (.inl rfl), fun _ => rfl⟩,
    ⟨fun o => ?_, trivial⟩, ⟨rfl, .inl rfl, ?_⟩, trivial⟩⟩
  · cases o with
    | zero => rfl
    | succ n => rfl
  · rintro ⟨h | h, -⟩
    · cases h
    · cases h

/-- In the blocking build the wait returns, and leaves `ack` at `MQTT_MSG_WAIT`: the next PUBLISH is acknowledged, and
the application never sees it. -/
theorem not_messages_served :
    ¬∀ (s : SnClient) (events : List Event), s.Unused → Along step Plays s events →
      ∀ t ∈ (events.foldl step s).turns, t.Served s.terms := by
  intro h
  have hrun : Along step Plays (sampleClient false) [sampleWriter true, .wait 0 MsgType.any 0 (samplePublish 1),
      sampleWriter false, .wait 0 MsgType.any 0 (samplePublish 2)] := by
    refine ⟨fun _ => rfl, rfl, fun o => ?_, rfl, trivial⟩
    cases o with
    | zero => rfl
    | succ n => rfl
  obtain ⟨rc, pieces, hacts, -⟩ := h _ _ (sampleClient_unused false) hrun
    {rxBuf := [8, 0x0C, 0x20, 0, 5, 0, 2, 7, 0, 0, 0, 0, 0, 0, 0, 0], bufLen := 8, type := MsgType.publish,
     acts := [.wrote [7, 0x0D, 0, 5, 0, 2, 0]]} (List.mem_of_mem_head? rfl)
  cases hacts

/-- Waits of the nonblocking build with two objects: that of the first is over when the last uses it again. -/
def sampleFinished : List Event :=
  [.wait 1 MsgType.pingResp 0 {found := .packet [2, 0x17]}, sampleWriter true, .wait 0 MsgType.any 0 (samplePublish 1),
    .wait 1 MsgType.pingResp 0 (samplePublish 2)]

/-- The wait that is over takes up the PUBLISH of the other one, which is delivered twice. -/
theorem not_messages_served_finished : Along step Plays (sampleClient true) sampleFinished ∧
    ∃ t ∈ (sampleFinished.foldl step (sampleClient true)).turns, ¬t.Served (sampleClient true).terms := by
  refine ⟨⟨rfl, fun o => ?_, rfl, rfl, trivial⟩, _, List.mem_cons_self, ?_⟩
  · match o with
    | 0 => rfl
    | 1 => rfl
    | _ + 2 => rfl
  · rintro ⟨rc, pieces, hacts, -⟩
    cases pieces with
    | nil => cases hacts
    | cons piece rest => cases hacts

/-- A wait is over, and another one has ended at `MQTT_MSG_HEADER` with a packet that it could not decode. The latter is
made again, and then the former. -/
def sampleUnlocked : List Event :=
  [.wait 1 MsgType.pingResp 0 {found := .packet [2, 0x17]}, .wait 0 MsgType.any 0 {found := .packet [9, 0x0C]},
    sampleWriter true, .wait 0 MsgType.any 0 (samplePublish 1), .wait 1 MsgType.pingResp 0 (samplePublish 2)]

/-- At `MQTT_MSG_HEADER` a wait reads on without the receive lock, so that its message is delivered twice although nobody
holds the lock. -/
theorem not_messages_served_unlocked : Along step Plays (sampleClient true) sampleUnlocked ∧
    (∀ n ≤ 5, ((sampleUnlocked.take n).foldl step (sampleClient true)).client.readActive = false) ∧
    ∃ t ∈ (sampleUnlocked.foldl step (sampleClient true)).turns, ¬t.Served (sampleClient true).terms := by
  refine ⟨⟨rfl, rfl, fun o => ?_, rfl, rfl, trivial⟩, by decide +kernel, _, List.mem_cons_self, ?_⟩
  · match o with
    | 0 => rfl
    | 1 => rfl
    | _ + 2 => rfl
  · rintro ⟨rc, pieces, hacts, -⟩
    cases pieces with
    | nil => cases hacts
    | cons piece rest => cases hacts

end SnClient
end WolfMqtt.Sn
