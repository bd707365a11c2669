import WolfMqtt.Broker.Orphan
import WolfMqtt.Lib.Moves

/-! The delivery system: the broker's outbound queues and nothing else.

A connection is its queue, its in-flight count, the level it speaks and the window it
asked for; an orphan is a queue and the level it was filled at. Buffers, sockets,
subscriptions and clients' names are gone. `CStep` is everything that can happen to one
connection's queue and `QStep` everything that can happen to the system; the broker's
handlers are runs of it, so what every step keeps, every handler keeps. A step that some
property does not survive carries a label of its own. -/
namespace WolfMqtt.Broker

/-! ### States -/

structure QConn where
  addr : Nat
  level : Nat := 0
  receiveMax : Nat := 0
  outQ : TailQueue OutPub := {}
  inflight : Int := 0

structure QOrphan where
  addr : Nat
  level : Nat
  outQ : TailQueue OutPub

instance : Node QConn := ⟨QConn.addr⟩

instance : Node QOrphan := ⟨QOrphan.addr⟩

/-- One connection's queue, with the trace and the addresses handed out so far. -/
structure CState where
  conn : QConn
  trace : List Obs
  nextAddr : Nat

structure QState where
  conns : List QConn
  orphans : List QOrphan
  trace : List Obs
  nextAddr : Nat

namespace CState

def note (s : CState) (obs : List Obs) : CState := {s with trace := s.trace ++ obs}

/-- Put another queue, and a new in-flight count, in place. -/
def setQueue (s : CState) (outQ : TailQueue OutPub) (inflight : Int) : CState :=
  {s with conn := {s.conn with outQ := outQ, inflight := inflight}}

/-- Write to an entry. -/
def write (s : CState) (e : OutPub) (f : OutPub → OutPub) (inflight : Int) : CState :=
  s.setQueue (s.conn.outQ.update e.addr f) inflight

/-- Take an entry out. -/
def drop (s : CState) (e : OutPub) (cause : Cause) (inflight : Int) : CState :=
  (s.setQueue (s.conn.outQ.unlink e.addr) inflight).note [.left e cause]

end CState

namespace QState

def conn? (s : QState) (a : Nat) : Option QConn := Chain.at? s.conns a

def orphan? (s : QState) (a : Nat) : Option QOrphan := Chain.at? s.orphans a

/-- The system after something happened to the connection at `a`. -/
def withConn (s : QState) (a : Nat) (t : CState) : QState :=
  {s with conns := Chain.writeAt a (fun _ => t.conn) s.conns
          trace := t.trace
          nextAddr := t.nextAddr}

/-- What the connection `c` of a system can see. -/
def focus (s : QState) (c : QConn) : CState := ⟨c, s.trace, s.nextAddr⟩

def note (s : QState) (obs : List Obs) : QState := {s with trace := s.trace ++ obs}

def setOrphan (s : QState) (a : Nat) (outQ : TailQueue OutPub) : QState :=
  {s with orphans := Chain.writeAt a (fun o => {o with outQ := outQ}) s.orphans}

def dropConn (s : QState) (a : Nat) : QState := {s with conns := Chain.removeAt a s.conns}

def dropOrphan (s : QState) (a : Nat) : QState := {s with orphans := Chain.removeAt a s.orphans}

end QState

/-! ### Steps -/

inductive Label where
  | plain
  /-- A message is queued. -/
  | enqueue
  /-- A CONNECT is answered. -/
  | answer
  /-- A PUBACK completes a QoS 2 delivery. -/
  | pubackQos2
  /-- A connection's queue is freed, with entries above QoS 0, although its session lives on. -/
  | takeover
  /-- A connection's queue becomes an orphan's. -/
  | take
  /-- A queue is resumed at another level than it was filled at. -/
  | mismatch
  /-- A QoS 2 entry is released with no PUBREL: it did not fit the transmit buffer. -/
  | mute
deriving DecidableEq

/-- An identifier that can go into a queue: none at QoS 0, and otherwise one that is not in use. -/
def FreshId (outQ : TailQueue OutPub) (e : OutPub) : Prop :=
  if e.qos = .qos0 then e.packetId = 0
  else e.packetId ≠ 0 ∧ packetIdInQueue outQ.chain e.packetId = false

/-- The entries a PUBREL answers for. -/
def issuedFor (outQ : TailQueue OutPub) (packetId : Nat) : List Obs :=
  (outQ.chain.filter (fun e => e.packetId = packetId ∧ e.state = .pubrelSent)).map (Obs.pubrelIssued ·.addr)

def OutPub.toSent (e : OutPub) : OutPub := {e with retransmitDup := false, state := .publishSent}

def OutPub.toReleased (e : OutPub) : OutPub := {e with state := .pubrelSent}

def OutPub.setDup (dup : Bool) (e : OutPub) : OutPub := {e with retransmitDup := dup}

/-- The in-flight count once an entry in flight is gone. -/
def inflightLess (n : Int) : Int := if n > 0 then n - 1 else n

/-- What acknowledgement takes an entry out of which state. -/
inductive Acked (e : OutPub) : Cause → Label → Prop where
  | puback (h : e.state = .publishSent) (hq : e.qos ≠ .qos2) : Acked e .puback .plain
  | pubackQos2 (h : e.state = .publishSent) (hq : e.qos = .qos2) : Acked e .puback .pubackQos2
  | pubrecError (h : e.state = .publishSent) (hq : e.qos = .qos2) : Acked e .pubrecError .plain
  | pubcomp (h : e.state = .pubrelSent) : Acked e .pubcomp .plain

/-- What the drain takes out of the queue unsent. -/
inductive Unsent (e : OutPub) : Cause → Prop where
  | encodeFailure : Unsent e .encodeFailure
  | qos0Cut (h : e.qos = .qos0) : Unsent e .qos0Cut

/-- Everything that happens to one connection's queue. -/
inductive CStep (L : Limits) : Label → CState → CState → Prop where
  | alloc {s : CState} (n : Nat) (h : s.nextAddr ≤ n) : CStep L .plain s {s with nextAddr := n}
  | connack {s : CState} (conn : Nat) (flags code : UInt8) : CStep L .answer s (s.note [.connack conn flags code])
  | negotiate {s : CState} (level receiveMax : Nat) (h : s.conn.outQ = {}) (hi : s.conn.inflight = 0) :
    CStep L .plain s {s with conn := {s.conn with level := level, receiveMax := receiveMax}}
  | enqueue {s : CState} (e : OutPub) (ha : e.addr = s.nextAddr) (hs : e.state = .queued)
    (hl : e.protocolLevel = s.conn.level) (hid : FreshId s.conn.outQ e) :
    CStep L .enqueue s
      {(s.setQueue (s.conn.outQ.enqueue e) s.conn.inflight).note [.enqueued e.addr] with nextAddr := s.nextAddr + 1}
  | encode {s : CState} (e : OutPub) (h : e ∈ s.conn.outQ.chain) :
    CStep L .plain s (s.note [.encoded e.protocolLevel s.conn.level])
  | write {s : CState} (e : OutPub) (h : e ∈ s.conn.outQ.chain) (hs : e.state = .queued) (hq : e.qos ≠ .qos0)
    (hw : s.conn.inflight < effectiveCap L s.conn.receiveMax) :
    CStep L .plain s
      (s.note [.writing e.addr (inflightCount s.conn.outQ.chain) (window L s.conn.receiveMax)])
  | send {s : CState} (e : OutPub) (h : e ∈ s.conn.outQ.chain) (hs : e.state = .queued)
    (hahead : s.conn.outQ.WF → ∀ x ∈ aheadOf s.conn.outQ.chain e.addr, x.state ≠ .queued) :
    CStep L .plain s (s.note [.sending s.conn.addr (aheadOf s.conn.outQ.chain e.addr) e])
  | sent {s : CState} (e : OutPub) (h : e ∈ s.conn.outQ.chain) (hs : e.state = .queued) (hq : e.qos ≠ .qos0)
    (hsend : ∃ ahead, Obs.sending s.conn.addr ahead e ∈ s.trace) :
    CStep L .plain s ((s.write e OutPub.toSent (s.conn.inflight + 1)).note [.publishSent e.addr])
  | sentQos0 {s : CState} (e : OutPub) (h : e ∈ s.conn.outQ.chain) (hs : e.state = .queued) (hq : e.qos = .qos0) :
    CStep L .plain s ((s.note [.publishSent e.addr]).drop e .qos0Sent s.conn.inflight)
  | unsent {s : CState} (e : OutPub) (cause : Cause) (h : e ∈ s.conn.outQ.chain) (hs : e.state = .queued)
    (hc : Unsent e cause) : CStep L .plain s (s.drop e cause s.conn.inflight)
  | markDup {s : CState} (e : OutPub) (dup : Bool) (h : e ∈ s.conn.outQ.chain)
    (hd : dup = true ∨ e.state = .pubrelSent) :
    CStep L .plain s (s.write e (OutPub.setDup dup) s.conn.inflight)
  | reissue {s : CState} (e : OutPub) (h : e ∈ s.conn.outQ.chain) (hs : e.state = .pubrelSent) :
    CStep L .plain s (s.note [.pubrelIssued e.addr])
  | received {s : CState} (e : OutPub) (h : e ∈ s.conn.outQ.chain) (hs : e.state = .publishSent) (hq : e.qos = .qos2) :
    CStep L .plain s
      ((s.write e OutPub.toReleased s.conn.inflight).note
        (issuedFor (s.conn.outQ.update e.addr OutPub.toReleased) e.packetId))
  | receivedMute {s : CState} (e : OutPub) (h : e ∈ s.conn.outQ.chain) (hs : e.state = .publishSent) (hq : e.qos = .qos2) :
    CStep L .mute s (s.write e OutPub.toReleased s.conn.inflight)
  | respond {s : CState} (packetId : Nat) : CStep L .plain s (s.note (issuedFor s.conn.outQ packetId))
  | acked {s : CState} {ℓ : Label} (e : OutPub) (cause : Cause) (h : e ∈ s.conn.outQ.chain) (hc : Acked e cause ℓ) :
    CStep L ℓ s (s.drop e cause (inflightLess s.conn.inflight))

/-- The queue an orphan keeps of a connection's. -/
def QConn.toOrphan (c : QConn) (slot : Nat) : QOrphan :=
  ⟨slot, c.level, {c.outQ with chain := renumber 1 c.outQ.chain}⟩

/-- The connection that resumes an orphan's queue. -/
def QConn.resume (c : QConn) (o : QOrphan) : QConn :=
  {c with outQ := o.outQ.updateAll OutPub.resume, inflight := o.outQ.chain.countP (fun e => e.state = .pubrelSent)}

/-- The label of a resumption. -/
def resumeLabel (c : QConn) (o : QOrphan) : Label :=
  if o.outQ.chain = [] ∨ o.level = c.level then .plain else .mismatch

/-- The label of a connection's end. -/
def removeLabel (c : QConn) (cause : Cause) : Label :=
  if cause = .takenOver ∧ ∃ e ∈ c.outQ.chain, e.qos ≠ .qos0 then .takeover else .plain

/-- Everything that happens to the system. -/
inductive QStep (L : Limits) : Label → QState → QState → Prop where
  | conn {s : QState} {ℓ : Label} {t : CState} (a : Nat) (c : QConn) (h : s.conn? a = some c)
    (hs : CStep L ℓ (s.focus c) t) : QStep L ℓ s (s.withConn a t)
  | alloc {s : QState} (n : Nat) (h : s.nextAddr ≤ n) : QStep L .plain s {s with nextAddr := n}
  | accept {s : QState} :
    QStep L .plain s {s with conns := {addr := s.nextAddr} :: s.conns, nextAddr := s.nextAddr + 1}
  | remove {s : QState} (a : Nat) (c : QConn) (cause : Cause) (h : s.conn? a = some c)
    (hc : cause = .sessionEnd ∨ cause = .takenOver) :
    QStep L (removeLabel c cause) s ((s.dropConn a).note (c.outQ.chain.map (Obs.left · cause)))
  | take {s : QState} (a : Nat) (c : QConn) (h : s.conn? a = some c) :
    QStep L .take s
      {s.withConn a ((s.focus c).setQueue {} 0) with
        orphans := c.toOrphan s.nextAddr :: s.orphans, nextAddr := s.nextAddr + 1}
  | reclaim {s : QState} (a : Nat) (c : QConn) (o : QOrphan) (h : s.conn? a = some c) (he : c.outQ = {})
    (ho : s.orphan? o.addr = some o) :
    QStep L (resumeLabel c o) s ((s.withConn a {s.focus c with conn := c.resume o}).dropOrphan o.addr)
  | dropOrphan {s : QState} (o : QOrphan) (ho : s.orphan? o.addr = some o) :
    QStep L .plain s ((s.dropOrphan o.addr).note (o.outQ.chain.map (Obs.left · .sessionEnd)))
  | evict {s : QState} (o : QOrphan) (head : OutPub) (ho : s.orphan? o.addr = some o) (h : head ∈ o.outQ.chain) :
    QStep L .plain s ((s.setOrphan o.addr (o.outQ.unlink head.addr)).note [.left head .evicted])
  | offline {s : QState} (o : QOrphan) (e : OutPub) (ho : s.orphan? o.addr = some o) (ha : e.addr = s.nextAddr)
    (hs : e.state = .queued) (hl : e.protocolLevel = o.level) (hid : FreshId o.outQ e) :
    QStep L .enqueue s
      {(s.setOrphan o.addr (o.outQ.enqueue e)).note [.enqueued e.addr] with nextAddr := s.nextAddr + 1}

/-! ### Runs -/

/-- The labels that deliveries need. -/
structure Ordinary (P : Label → Prop) : Prop where
  plain : P .plain
  enqueue : P .enqueue

/-- A run of one connection's steps, with labels that `P` allows. -/
def CRun (L : Limits) (P : Label → Prop) : CState → CState → Prop :=
  Relation.ReflTransGen (fun s t => ∃ ℓ, P ℓ ∧ CStep L ℓ s t)

/-- A run of the system, with labels that `P` allows. -/
def QRun (L : Limits) (P : Label → Prop) : QState → QState → Prop :=
  Relation.ReflTransGen (fun s t => ∃ ℓ, P ℓ ∧ QStep L ℓ s t)

instance (L : Limits) (P : Label → Prop) : IsPreorder CState (CRun L P) where
  refl _ := .refl
  trans _ _ _ h h' := Relation.ReflTransGen.trans h h'

instance (L : Limits) (P : Label → Prop) : IsPreorder QState (QRun L P) where
  refl _ := .refl
  trans _ _ _ h h' := Relation.ReflTransGen.trans h h'

theorem CRun.step {L : Limits} {P : Label → Prop} {s t : CState} {ℓ : Label} (hP : P ℓ) (h : CStep L ℓ s t) :
    CRun L P s t := .single ⟨ℓ, hP, h⟩

theorem QRun.step {L : Limits} {P : Label → Prop} {s t : QState} {ℓ : Label} (hP : P ℓ) (h : QStep L ℓ s t) :
    QRun L P s t := .single ⟨ℓ, hP, h⟩

/-- What every allowed step keeps, every run keeps. -/
theorem QRun.invariant {L : Limits} {P : Label → Prop} {I : QState → Prop}
    (step : ∀ s t ℓ, P ℓ → QStep L ℓ s t → I s → I t) {s t : QState} (h : QRun L P s t) (hs : I s) : I t := by
  induction h with
  | refl => exact hs
  | tail _ hstep ih =>
    obtain ⟨ℓ, hℓ, hstep⟩ := hstep
    exact step _ _ ℓ hℓ hstep ih

/-! ### Lifting a connection's run to the system -/

theorem CStep.addr_eq {L : Limits} {ℓ : Label} {s t : CState} (h : CStep L ℓ s t) : t.conn.addr = s.conn.addr := by
  cases h <;> rfl

theorem CRun.addr_eq {L : Limits} {P : Label → Prop} {s t : CState} (h : CRun L P s t) :
    t.conn.addr = s.conn.addr := by
  induction h with
  | refl => rfl
  | tail _ hstep ih =>
    obtain ⟨ℓ, _, hstep⟩ := hstep
    exact hstep.addr_eq.trans ih

namespace QState

theorem withConn_focus {s : QState} {a : Nat} {c : QConn} (h : s.conn? a = some c) :
    s.withConn a (s.focus c) = s := by
  simp only [withConn, focus, Chain.writeAt_eq_self h (f := fun _ => c) rfl]

theorem withConn_conn? {s : QState} {a : Nat} {c : QConn} (h : s.conn? a = some c) (t : CState)
    (ht : t.conn.addr = a) : (s.withConn a t).conn? a = some t.conn :=
  Chain.at?_writeAt_self h ht

theorem withConn_withConn (s : QState) (a : Nat) (t u : CState) (ht : t.conn.addr = a) :
    (s.withConn a t).withConn a u = s.withConn a u := by
  simp only [withConn, Chain.writeAt_writeAt (f := fun _ => t.conn) (fun _ _ => ht)]
  rfl

end QState

/-- Whatever a connection's queue goes through, the system goes through. -/
theorem CRun.lift {L : Limits} {P : Label → Prop} {s : QState} {a : Nat} {c : QConn} {t : CState}
    (h : s.conn? a = some c) (hrun : CRun L P (s.focus c) t) : QRun L P s (s.withConn a t) := by
  induction hrun with
  | refl => rw [QState.withConn_focus h]; exact .refl
  | tail hrun hstep ih =>
    rename_i t u
    obtain ⟨ℓ, hℓ, hstep⟩ := hstep
    have haddr : t.conn.addr = a := (CRun.addr_eq hrun).trans (Chain.at?_addr h)
    have hconn := QState.withConn_conn? h t haddr
    have hlift : QStep L ℓ (s.withConn a t) ((s.withConn a t).withConn a u) := .conn a t.conn hconn hstep
    rw [QState.withConn_withConn s a t u haddr] at hlift
    exact ih.tail ⟨ℓ, hℓ, hlift⟩

end WolfMqtt.Broker
