import Mathlib.Logic.Relation
import WolfMqtt.Lib.Chain
import WolfMqtt.Broker.State

/-! The session table: who has which session, and what is stored of it.

A connection is its client id, its Session Expiry, its Keep Alive and how many subscriptions
it counts; an orphan is a client id with an expiry and the moment its connection ended.
Queues, buffers and Wills are gone. `SStep` is everything that can happen to the table; between two of its
steps every session is in one place (`Tidy`), and the stored sessions are those that would
outlive their connection (`Mirrors`). -/
namespace WolfMqtt.Broker

/-! ### States -/

structure SConn where
  addr : Nat
  clientId : Option Bytes := none
  established : Bool := false
  level : Nat := 0
  expirySec : Nat := 0
  keepAlive : Nat := 0
  subCount : Int := 0
deriving DecidableEq

structure SOrphan where
  addr : Nat
  clientId : Bytes
  level : Nat
  expirySec : Nat
  since : Nat
deriving DecidableEq

instance : Node SConn := ⟨SConn.addr⟩

instance : Node SOrphan := ⟨SOrphan.addr⟩

/-- A stored session. -/
structure SessionRecord where
  level : Nat
  expirySec : Nat
  since : Nat
deriving DecidableEq

structure STable where
  conns : List SConn
  subs : List BrokerSub
  orphans : List SOrphan
  /-- `orphan_session_count` -/
  count : Int
  records : Bytes → Option SessionRecord

namespace STable

def conn? (t : STable) (a : Nat) : Option SConn := Chain.at? t.conns a

def setConn (t : STable) (a : Nat) (c : SConn) : STable := {t with conns := Chain.writeAt a (fun _ => c) t.conns}

def dropConn (t : STable) (a : Nat) : STable := {t with conns := Chain.removeAt a t.conns}

/-- How many subscriptions point at a connection. -/
def boundTo (t : STable) (a : Nat) : Nat := t.subs.countP (fun s => s.client = some a)

/-- How many subscriptions stand under a client id. -/
def under (t : STable) (clientId : Bytes) : Nat := t.subs.countP (fun s => s.clientId = some clientId)

/-- The subscriptions under a client id now point at a connection. -/
def bind (t : STable) (clientId : Bytes) (a : Nat) : List BrokerSub :=
  t.subs.map (fun s => if s.clientId = some clientId then {s with client := some a} else s)

/-- The subscriptions of a connection now point at nothing. -/
def unbind (t : STable) (a : Nat) : List BrokerSub :=
  t.subs.map (fun s => if s.client = some a then {s with client := none} else s)

/-- The orphans under other client ids. -/
def orphansBut (t : STable) (clientId : Bytes) : List SOrphan := t.orphans.filter (fun o => o.clientId ≠ clientId)

end STable

/-- What a session whose Session Expiry is not zero leaves in the store. -/
def SConn.record (c : SConn) : Option SessionRecord :=
  if c.expirySec = 0 then none else some ⟨c.level, c.expirySec, 0⟩

def SOrphan.record (o : SOrphan) : SessionRecord := ⟨o.level, o.expirySec, o.since⟩

/-! ### What is stored -/

/-- The key of a session's record: its length is a 16-bit number. -/
def sessionKey (clientId : Bytes) : Bytes := clientId.take (clientId.length % 65536)

/-- What a call into the persistence hooks does to the stored sessions. -/
def PersistOp.onSessions (records : Bytes → Option SessionRecord) : PersistOp → Bytes → Option SessionRecord
  | .putSession id level expirySec =>
    if id = [] ∨ expirySec = 0 then records
    else Function.update records (sessionKey id) (some ⟨level, expirySec, 0⟩)
  | .putOrphanSession id level expirySec since =>
    if id = [] then records else Function.update records (sessionKey id) (some ⟨level, expirySec, since⟩)
  | .delSession id => Function.update records (sessionKey id) none
  | _ => records

/-- The stored sessions after the calls made so far. -/
def Env.sessions (env : Env) : Bytes → Option SessionRecord := env.persist.foldl PersistOp.onSessions (fun _ => none)

/-- What the outside world has yet to answer but for the transport. -/
def Env.answers (env : Env) : List Bool × List Nat × Nat := (env.allocs, env.clock, env.now)

/-- No stored session changed since; some of the scripted allocations may have been made, and some of
the readings of the clock. -/
structure Env.Spends (env env' : Env) : Prop where
  sessions : env'.sessions = env.sessions
  allocs : env'.allocs <:+ env.allocs
  clock : env'.clock <:+ env.clock
  now : env'.now = env.now

instance : IsPreorder Env Env.Spends where
  refl _ := ⟨rfl, List.suffix_refl _, List.suffix_refl _, rfl⟩
  trans _ _ _ h h' :=
    ⟨h'.sessions.trans h.sessions, h'.allocs.trans h.allocs, h'.clock.trans h.clock, h'.now.trans h.now⟩

namespace Env.Spends
variable {env env' : Env}

theorem of_eq (hs : env'.sessions = env.sessions) (ha : env'.answers = env.answers) : env.Spends env' := by
  have hallocs : env'.allocs = env.allocs := congrArg (·.1) ha
  have hclock : env'.clock = env.clock := congrArg (·.2.1) ha
  exact ⟨hs, hallocs ▸ List.suffix_refl _, hclock ▸ List.suffix_refl _, congrArg (·.2.2) ha⟩

/-- Calls that are not about sessions. -/
theorem persist {ops : List PersistOp} (hops : ∀ r, ops.foldl PersistOp.onSessions r = r) :
    env.Spends {env with persist := env.persist ++ ops} := by
  refine .of_eq ?_ rfl
  show (env.persist ++ ops).foldl PersistOp.onSessions _ = _
  rw [List.foldl_append, hops]
  rfl

theorem alloc (env : Env) : env.Spends env.alloc.2 := by
  unfold Env.alloc
  split
  · exact .of_eq rfl rfl
  · rename_i ok rest hallocs
    have hsuffix : rest <:+ env.allocs := by
      rw [hallocs]
      exact List.suffix_cons _ _
    split
    · exact ⟨rfl, hsuffix, List.suffix_refl _, rfl⟩
    · exact ⟨rfl, hsuffix, List.suffix_refl _, rfl⟩

theorem getTime (env : Env) : env.Spends env.getTime.2 := by
  unfold Env.getTime
  split
  · exact .of_eq rfl rfl
  · rename_i t rest hclock
    refine ⟨rfl, List.suffix_refl _, ?_, rfl⟩
    rw [hclock]
    exact List.suffix_cons _ _

end Env.Spends

/-! ### Steps -/

/-- What is supposed while the table is followed. -/
structure Terms where
  /-- The sessions are in order; if not, nothing is said of the table. -/
  ordered : Prop
  /-- The client ids there are, each with a Keep Alive its connection may have. -/
  named : Bytes → Nat → Prop
  /-- The store is sure to follow; if not, a session may be lost and its record stay. -/
  sure : Prop
  /-- The subscriptions that a SUBSCRIBE may grant. -/
  grants : Nat → Bytes → Prop
  /-- The subscriptions that an UNSUBSCRIBE may end. -/
  ends : Nat → Bytes → Prop
  /-- The addresses of connections that may come. -/
  joins : Nat → Prop
  nonempty : ∀ {clientId keepAlive}, named clientId keepAlive → clientId ≠ []
  keyed : sure → ∀ {clientId keepAlive}, named clientId keepAlive → sessionKey clientId = clientId
  /-- A connection without a Keep Alive can be taken for one that has sent no CONNECT yet. -/
  watched : sure → ∀ {clientId keepAlive}, named clientId keepAlive → keepAlive ≠ 0

/-- A step of the session table. -/
inductive SStep (L : Limits) (R : Terms) (t : STable) : STable → Prop
  | join {a : Nat} (fresh : ∀ c ∈ t.conns, c.addr ≠ a) (may : R.joins a) : SStep L R t {t with conns := {addr := a} :: t.conns}
  /-- A connection without a session is renamed. -/
  | name {a : Nat} {c c' : SConn} (at_ : t.conn? a = some c) (new : c.established = false) (addr : c'.addr = a)
      (new' : c'.established = false) (subCount : c'.subCount = c.subCount) : SStep L R t (t.setConn a c')
  /-- The connection at `a` gets the session under its client id, which takes it from `old` or from
  an orphan, or begins a new one. -/
  | open {a : Nat} {c c' : SConn} {clientId : Bytes} {old : Option Nat} {keep : Bool}
      {records : Bytes → Option SessionRecord} (at_ : t.conn? a = some c) (new : c.established = false)
      (addr : c'.addr = a) (named : c'.clientId = some clientId ∧ R.named clientId c'.keepAlive) (live : c'.established = true)
      (other : ∀ x ∈ old, x ≠ a ∧ ∀ y ∈ t.conns, y.addr = x → y.established = true → y.clientId = some clientId)
      (owner : ∀ y ∈ t.conns, y.established = true → y.clientId = some clientId → old = some y.addr)
      (subCount : c'.subCount = if keep then t.under clientId else 0)
      (stored : R.sure → records = Function.update t.records clientId c'.record) :
      SStep L R t
        {conns := Chain.writeAt a (fun _ => c') (old.elim t.conns (Chain.removeAt · t.conns))
         subs := if keep then t.bind clientId a else t.subs.filter (fun s => s.clientId ≠ some clientId)
         orphans := t.orphansBut clientId
         count := (t.orphansBut clientId).length
         records := records}
  | subscribe {a : Nat} {c : SConn} {filter : Bytes} {qos : QoS} (at_ : t.conn? a = some c)
      (live : c.established = true) (new : ∀ s ∈ t.subs, s.client = some a → s.filter ≠ filter) (may : R.grants a filter) :
      SStep L R t {t.setConn a {c with subCount := c.subCount + 1} with
        subs := {filter := filter, clientId := c.clientId, client := some a, qos := qos} :: t.subs}
  | resubscribe {a : Nat} {filter : Bytes} {qos : QoS} (may : R.grants a filter) : SStep L R t {t with
      subs := t.subs.replaceF (fun s =>
        if s.client = some a ∧ s.filter = filter then some {s with qos := qos} else none)}
  | unsubscribe {a : Nat} {c : SConn} {filter : Bytes} (at_ : t.conn? a = some c)
      (old : ∃ s ∈ t.subs, s.client = some a ∧ s.filter = filter) (may : R.ends a filter) :
      SStep L R t {t.setConn a {c with subCount := if c.subCount > 0 then c.subCount - 1 else c.subCount} with
        subs := t.subs.eraseP (fun s => s.client = some a ∧ s.filter = filter)}
  /-- A connection without a session leaves. -/
  | close {a : Nat} {c : SConn} (at_ : t.conn? a = some c) (new : c.established = false) :
      SStep L R t (t.dropConn a)
  /-- A connection leaves and its session ends. -/
  | finish {a : Nat} {c : SConn} {clientId : Bytes} (at_ : t.conn? a = some c) (live : c.established = true)
      (named : c.clientId = some clientId) {records : Bytes → Option SessionRecord}
      (stored : R.sure → records = Function.update t.records clientId none) :
      SStep L R t {t.dropConn a with subs := t.subs.filter (fun s => s.client ≠ some a), records := records}
  /-- A connection leaves and its session becomes an orphan. -/
  | orphan {a : Nat} {c : SConn} {o : SOrphan} (at_ : t.conn? a = some c) (live : c.established = true)
      (named : c.clientId = some o.clientId) (fresh : ∀ x ∈ t.orphans, x.addr ≠ o.addr)
      (room : t.count < L.maxPersistSessions ∨ t.orphans = []) {records : Bytes → Option SessionRecord}
      (stored : R.sure → records = Function.update t.records o.clientId (some o.record)) :
      SStep L R t {t.dropConn a with
        subs := t.unbind a
        orphans := o :: t.orphans
        count := t.count + 1
        records := records}
  /-- The session of an orphan ends. -/
  | expire {o : SOrphan} (mem : o ∈ t.orphans) {records : Bytes → Option SessionRecord}
      (stored : R.sure → records = Function.update t.records o.clientId none) :
      SStep L R t {t with
        subs := t.subs.filter (fun s => !(s.client.isNone && s.clientId = some o.clientId))
        orphans := Chain.removeAt o.addr t.orphans
        count := t.count - 1
        records := records}

abbrev SRun (L : Limits) (R : Terms) : STable → STable → Prop := Relation.ReflTransGen (SStep L R)

/-! ### Every session is in one place -/

/-- Two subscriptions of one session with one filter. -/
def BrokerSub.Twin (s s' : BrokerSub) : Prop := s.client = s'.client ∧ s.clientId = s'.clientId ∧ s.filter = s'.filter

structure Tidy (L : Limits) (N : Bytes → Nat → Prop) (t : STable) : Prop where
  nodup : (t.conns.map Node.addr).Nodup
  oneOwner : ∀ c ∈ t.conns, ∀ c' ∈ t.conns, c.established = true → c'.established = true →
    c.clientId = c'.clientId → c.addr = c'.addr
  named : ∀ c ∈ t.conns, c.established = true → ∃ clientId, c.clientId = some clientId ∧ N clientId c.keepAlive
  idle : ∀ c ∈ t.conns, c.established = false → c.subCount = 0
  counted : ∀ c ∈ t.conns, c.established = true → c.subCount = t.boundTo c.addr
  unique : t.subs.Pairwise (fun s s' => ¬s.Twin s')
  bound : ∀ s ∈ t.subs, ∀ a, s.client = some a →
    ∃ c ∈ t.conns, c.addr = a ∧ c.established = true ∧ s.clientId = c.clientId
  carried : ∀ s ∈ t.subs, s.client = none → ∃ o ∈ t.orphans, s.clientId = some o.clientId
  apart : ∀ c ∈ t.conns, c.established = true → ∀ o ∈ t.orphans, c.clientId ≠ some o.clientId
  titled : ∀ o ∈ t.orphans, ∃ keepAlive, N o.clientId keepAlive
  orphanNodup : (t.orphans.map Node.addr).Nodup
  distinct : (t.orphans.map SOrphan.clientId).Nodup
  count : t.count = t.orphans.length
  bounded : t.orphans.length ≤ max L.maxPersistSessions 1

namespace Tidy
variable {L : Limits} {N : Bytes → Nat → Prop} {t : STable} {a : Nat} {c : SConn}

theorem conn?_of_mem (h : Tidy L N t) (hc : c ∈ t.conns) : t.conn? c.addr = some c := Chain.at?_of_mem h.nodup hc

theorem eq_of_addr (h : Tidy L N t) {c' : SConn} (hc : c ∈ t.conns) (hc' : c' ∈ t.conns) (haddr : c.addr = c'.addr) :
    c = c' := by
  have hat := h.conn?_of_mem hc
  rw [haddr, h.conn?_of_mem hc'] at hat
  exact (Option.some.inj hat).symm

/-- A connection without a session has no subscription. -/
theorem not_bound (h : Tidy L N t) (hc : t.conn? a = some c) (hnew : c.established = false) :
    ∀ s ∈ t.subs, s.client ≠ some a := by
  intro s hs hbound
  obtain ⟨y, hy, haddr, he, -⟩ := h.bound s hs a hbound
  have hat := h.conn?_of_mem hy
  rw [haddr, hc] at hat
  rw [Option.some.inj hat, he] at hnew
  cases hnew

/-- The subscriptions under a client id point where one of them does. -/
theorem same_client (h : Tidy L N t) {s s' : BrokerSub} (hs : s ∈ t.subs) (hs' : s' ∈ t.subs)
    (hid : s.clientId = s'.clientId) : s.client = s'.client := by
  cases hc : s.client with
  | none =>
    cases hc' : s'.client with
    | none => rfl
    | some a' =>
      obtain ⟨o, ho, hso⟩ := h.carried s hs hc
      obtain ⟨y, hy, -, he, hsy⟩ := h.bound s' hs' a' hc'
      exact absurd (hsy.symm.trans (hid.symm.trans hso)) (h.apart y hy he o ho)
  | some a =>
    obtain ⟨x, hx, hxa, hex, hsx⟩ := h.bound s hs a hc
    cases hc' : s'.client with
    | none =>
      obtain ⟨o, ho, hso⟩ := h.carried s' hs' hc'
      exact absurd (hsx.symm.trans (hid.trans hso)) (h.apart x hx hex o ho)
    | some a' =>
      obtain ⟨y, hy, hya, hey, hsy⟩ := h.bound s' hs' a' hc'
      rw [← hxa, ← hya, h.oneOwner x hx y hy hex hey (hsx.symm.trans (hid.trans hsy))]

/-- The subscriptions of a connection are those under its client id. -/
theorem bound_iff (h : Tidy L N t) (hc : c ∈ t.conns) (he : c.established = true) {s : BrokerSub} (hs : s ∈ t.subs) :
    s.client = some c.addr ↔ s.clientId = c.clientId := by
  constructor
  · intro hbound
    obtain ⟨y, hy, haddr, -, hid⟩ := h.bound s hs c.addr hbound
    rw [hid, h.eq_of_addr hy hc haddr]
  · intro hid
    cases hbound : s.client with
    | none =>
      obtain ⟨o, ho, hso⟩ := h.carried s hs hbound
      exact absurd (hid.symm.trans hso) (h.apart c hc he o ho)
    | some a =>
      obtain ⟨y, hy, haddr, hey, hidy⟩ := h.bound s hs a hbound
      rw [← haddr, h.oneOwner y hy c hc hey he (hidy.symm.trans hid)]

/-! ### What each step keeps -/

theorem mem_setConn (h : Tidy L N t) {c' : SConn} {y : SConn} (hy : y ∈ (t.setConn a c').conns) :
    y ∈ t.conns ∧ y.addr ≠ a ∨ y = c' := by
  rcases Chain.mem_writeAt_nodup h.nodup hy with h | ⟨x, -, rfl⟩
  · exact .inl h
  · exact .inr rfl

theorem setConn_nodup (h : Tidy L N t) (c' : SConn) (haddr : c'.addr = a) :
    ((t.setConn a c').conns.map Node.addr).Nodup := by
  have hmap : (t.setConn a c').conns.map Node.addr = t.conns.map Node.addr :=
    Chain.map_writeAt Node.addr fun x hx => haddr.trans (Chain.at?_addr hx).symm
  rw [hmap]
  exact h.nodup

/-- Every connection with a session was there, under the same client id. -/
def Stays (xs ys : List SConn) : Prop :=
  ∀ y ∈ ys, y.established = true → ∃ x ∈ xs, x.addr = y.addr ∧ x.clientId = y.clientId ∧ x.keepAlive = y.keepAlive ∧
    x.established = true

section stays
variable {ys : List SConn}

theorem stays_oneOwner (h : Tidy L N t) (hst : Stays t.conns ys) : ∀ y ∈ ys, ∀ y' ∈ ys, y.established = true →
    y'.established = true → y.clientId = y'.clientId → y.addr = y'.addr := by
  intro y hy y' hy' he he' hid
  obtain ⟨x, hx, haddr, hxid, -, hex⟩ := hst y hy he
  obtain ⟨x', hx', haddr', hxid', -, hex'⟩ := hst y' hy' he'
  rw [← haddr, ← haddr']
  exact h.oneOwner x hx x' hx' hex hex' (hxid.trans (hid.trans hxid'.symm))

theorem stays_named (h : Tidy L N t) (hst : Stays t.conns ys) : ∀ y ∈ ys, y.established = true →
    ∃ clientId, y.clientId = some clientId ∧ N clientId y.keepAlive := by
  intro y hy he
  obtain ⟨x, hx, -, hid, hkeep, hex⟩ := hst y hy he
  rw [← hid, ← hkeep]
  exact h.named x hx hex

theorem stays_apart (h : Tidy L N t) (hst : Stays t.conns ys) : ∀ y ∈ ys, y.established = true →
    ∀ o ∈ t.orphans, y.clientId ≠ some o.clientId := by
  intro y hy he
  obtain ⟨x, hx, -, hid, -, hex⟩ := hst y hy he
  rw [← hid]
  exact h.apart x hx hex

end stays

theorem stays_setConn (h : Tidy L N t) {c' : SConn} (hc : t.conn? a = some c) (haddr : c'.addr = a)
    (hlike : c'.established = true → c.established = true ∧ c'.clientId = c.clientId ∧ c'.keepAlive = c.keepAlive) :
    Stays t.conns (t.setConn a c').conns := by
  intro y hy he
  rcases h.mem_setConn hy with hy | rfl
  · exact ⟨y, hy.1, rfl, rfl, rfl, he⟩
  · obtain ⟨hec, hid, hkeep⟩ := hlike he
    exact ⟨c, Chain.at?_mem hc, (Chain.at?_addr hc).trans haddr.symm, hid.symm, hkeep.symm, hec⟩

theorem stays_dropConn : Stays t.conns (t.dropConn a).conns :=
  fun y hy he => ⟨y, Chain.mem_of_mem_removeAt hy, rfl, rfl, rfl, he⟩

theorem mem_setConn_of_ne {c' x : SConn} (haddr : c'.addr = a) (h : Tidy L N t) (hx : x ∈ t.conns) (hne : x.addr ≠ a) :
    x ∈ (t.setConn a c').conns := by
  have hat : (t.setConn a c').conn? x.addr = some x := by
    rw [STable.conn?, STable.setConn, Chain.at?_writeAt_ne_of (fun _ _ => haddr) hne]
    exact h.conn?_of_mem hx
  exact Chain.at?_mem hat

theorem mem_setConn_self {c' : SConn} (hc : t.conn? a = some c) (haddr : c'.addr = a) : c' ∈ (t.setConn a c').conns :=
  Chain.at?_mem (Chain.at?_writeAt_self (f := fun _ => c') hc haddr)

theorem mem_dropConn (h : Tidy L N t) {x : SConn} : x ∈ (t.dropConn a).conns ↔ x ∈ t.conns ∧ x.addr ≠ a :=
  Chain.mem_removeAt h.nodup

theorem join (h : Tidy L N t) (hfresh : ∀ c ∈ t.conns, c.addr ≠ a) :
    Tidy L N {t with conns := {addr := a} :: t.conns} := by
  have hst : Stays t.conns ({addr := a} :: t.conns) := by
    rintro c (_ | ⟨_, hc⟩) he
    · cases he
    · exact ⟨c, hc, rfl, rfl, rfl, he⟩
  refine {h with nodup := ?_, oneOwner := h.stays_oneOwner hst, named := h.stays_named hst, idle := ?_,
                 counted := ?_, bound := ?_, apart := h.stays_apart hst}
  · refine List.nodup_cons.mpr ⟨?_, h.nodup⟩
    intro hmem
    obtain ⟨c, hc, haddr⟩ := List.mem_map.mp hmem
    exact hfresh c hc haddr
  · rintro c (_ | ⟨_, hc⟩) he
    · rfl
    · exact h.idle c hc he
  · rintro c (_ | ⟨_, hc⟩) he
    · cases he
    · exact h.counted c hc he
  · intro s hs x hx
    obtain ⟨c, hc, hrest⟩ := h.bound s hs x hx
    exact ⟨c, List.mem_cons_of_mem _ hc, hrest⟩

/-- A connection without a session comes in place of another. -/
theorem name (h : Tidy L N t) {c' : SConn} (hc : t.conn? a = some c) (hnew : c.established = false) (haddr : c'.addr = a)
    (hnew' : c'.established = false) (hcount : c'.subCount = c.subCount) : Tidy L N (t.setConn a c') := by
  have hst : Stays t.conns (t.setConn a c').conns := h.stays_setConn hc haddr fun he => by rw [hnew'] at he; cases he
  refine {h with nodup := h.setConn_nodup c' haddr, oneOwner := h.stays_oneOwner hst, named := h.stays_named hst,
                 idle := ?_, counted := ?_, bound := ?_, apart := h.stays_apart hst}
  · intro x hx he
    rcases h.mem_setConn hx with hx | rfl
    · exact h.idle x hx.1 he
    · rw [hcount]
      exact h.idle c (Chain.at?_mem hc) hnew
  · intro x hx he
    rcases h.mem_setConn hx with hx | rfl
    · exact h.counted x hx.1 he
    · rw [hnew'] at he
      cases he
  · intro s hs x hx
    obtain ⟨y, hy, hya, hrest⟩ := h.bound s hs x hx
    have hne : x ≠ a := fun hxa => h.not_bound hc hnew s hs (hxa ▸ hx)
    exact ⟨y, mem_setConn_of_ne haddr h hy (hya ▸ hne), hya, hrest⟩

theorem close (h : Tidy L N t) (hc : t.conn? a = some c) (hnew : c.established = false) : Tidy L N (t.dropConn a) := by
  refine {h with nodup := Chain.nodup_removeAt h.nodup a, oneOwner := h.stays_oneOwner stays_dropConn,
                 named := h.stays_named stays_dropConn, idle := ?_, counted := ?_, bound := ?_,
                 apart := h.stays_apart stays_dropConn}
  · exact fun x hx => h.idle x (h.mem_dropConn.mp hx).1
  · exact fun x hx => h.counted x (h.mem_dropConn.mp hx).1
  · intro s hs x hx
    obtain ⟨y, hy, hya, hrest⟩ := h.bound s hs x hx
    have hne : x ≠ a := fun hxa => h.not_bound hc hnew s hs (hxa ▸ hx)
    exact ⟨y, h.mem_dropConn.mpr ⟨hy, hya ▸ hne⟩, hya, hrest⟩

theorem subscribe (h : Tidy L N t) {filter : Bytes} {qos : QoS} (hc : t.conn? a = some c) (he : c.established = true)
    (hnew : ∀ s ∈ t.subs, s.client = some a → s.filter ≠ filter) :
    Tidy L N {t.setConn a {c with subCount := c.subCount + 1} with
      subs := {filter := filter, clientId := c.clientId, client := some a, qos := qos} :: t.subs} := by
  have haddr : c.addr = a := Chain.at?_addr hc
  have hmem : c ∈ t.conns := Chain.at?_mem hc
  have hst : Stays t.conns (t.setConn a {c with subCount := c.subCount + 1}).conns :=
    h.stays_setConn hc haddr fun _ => ⟨he, rfl, rfl⟩
  refine {h with nodup := h.setConn_nodup {c with subCount := c.subCount + 1} haddr,
                 oneOwner := h.stays_oneOwner hst, named := h.stays_named hst, idle := ?_, counted := ?_,
                 unique := ?_, bound := ?_, carried := ?_, apart := h.stays_apart hst}
  · intro x hx hex
    rcases h.mem_setConn hx with hx | rfl
    · exact h.idle x hx.1 hex
    · exact absurd (he.symm.trans hex) (by decide)
  · intro x hx hex
    show x.subCount = (List.countP _ (_ :: t.subs) : Nat)
    rcases h.mem_setConn hx with ⟨hx, hne⟩ | rfl
    · rw [List.countP_cons_of_neg (by simpa using fun h => hne h.symm)]
      exact h.counted x hx hex
    · rw [List.countP_cons_of_pos (by simp [haddr])]
      show c.subCount + 1 = _
      rw [h.counted c hmem he]
      rfl
  · refine List.pairwise_cons.mpr ⟨?_, h.unique⟩
    rintro s hs ⟨hclient, -, hfilter⟩
    exact hnew s hs hclient.symm hfilter.symm
  · intro s hs x hx
    rcases List.mem_cons.mp hs with rfl | hs
    · obtain rfl : a = x := Option.some.inj hx
      exact ⟨_, mem_setConn_self hc haddr, haddr, he, rfl⟩
    · obtain ⟨y, hy, hya, hrest⟩ := h.bound s hs x hx
      by_cases hxa : x = a
      · obtain rfl := h.eq_of_addr hy hmem (hya.trans (hxa.trans haddr.symm))
        exact ⟨_, mem_setConn_self hc haddr, hya, hrest⟩
      · exact ⟨y, mem_setConn_of_ne haddr h hy (hya ▸ hxa), hya, hrest⟩
  · intro s hs hnone
    rcases List.mem_cons.mp hs with rfl | hs
    · cases hnone
    · exact h.carried s hs hnone

/-- A replacement, seen through a function it leaves alone. -/
theorem map_replaceF {α β : Type} (g : α → β) {f : α → Option α} (hf : ∀ x y, f x = some y → g y = g x) (xs : List α) :
    (xs.replaceF f).map g = xs.map g := by
  induction xs with
  | nil => rfl
  | cons x xs ih =>
    rw [List.replaceF_cons]
    cases hx : f x with
    | none => exact congrArg (g x :: ·) ih
    | some y => exact congrArg (· :: xs.map g) (hf x y hx)

/-- What the table says of a subscription but its QoS. -/
def key (s : BrokerSub) : Option Nat × Option Bytes × Bytes := (s.client, s.clientId, s.filter)

theorem of_keys (h : Tidy L N t) {subs : List BrokerSub} (hkeys : subs.map key = t.subs.map key) :
    Tidy L N {t with subs := subs} := by
  have hmem : ∀ s ∈ subs, ∃ s₀ ∈ t.subs, s₀.client = s.client ∧ s₀.clientId = s.clientId := by
    intro s hs
    have hkey : key s ∈ t.subs.map key := hkeys ▸ List.mem_map_of_mem hs
    obtain ⟨s₀, hs₀, heq⟩ := List.mem_map.mp hkey
    obtain ⟨hclient, hrest⟩ := Prod.mk.inj heq
    exact ⟨s₀, hs₀, hclient, (Prod.mk.inj hrest).1⟩
  refine {h with counted := ?_, unique := ?_, bound := ?_, carried := ?_}
  · intro c hc he
    have hcount (l : List BrokerSub) :
        l.countP (fun s => s.client = some c.addr) = (l.map key).countP (fun k => k.1 = some c.addr) := by
      rw [List.countP_map]
      rfl
    show c.subCount = (subs.countP (fun s => s.client = some c.addr) : Nat)
    rw [hcount, hkeys, ← hcount]
    exact h.counted c hc he
  · have htwins (l : List BrokerSub) : l.Pairwise (fun s s' => ¬s.Twin s') ↔ (l.map key).Pairwise (· ≠ ·) := by
      rw [List.pairwise_map]
      refine List.Pairwise.iff fun {s s'} => not_congr ?_
      rw [BrokerSub.Twin, key, key, Prod.mk.injEq, Prod.mk.injEq]
    show subs.Pairwise _
    rw [htwins, hkeys, ← htwins]
    exact h.unique
  · intro s hs x hx
    obtain ⟨s₀, hs₀, hclient, hid⟩ := hmem s hs
    rw [← hid]
    exact h.bound s₀ hs₀ x (hclient.trans hx)
  · intro s hs hnone
    obtain ⟨s₀, hs₀, hclient, hid⟩ := hmem s hs
    rw [← hid]
    exact h.carried s₀ hs₀ (hclient.trans hnone)

theorem resubscribe (h : Tidy L N t) {filter : Bytes} {qos : QoS} : Tidy L N {t with
    subs := t.subs.replaceF (fun s =>
      if s.client = some a ∧ s.filter = filter then some {s with qos := qos} else none)} := by
  refine h.of_keys (map_replaceF key ?_ t.subs)
  intro s s' hs'
  split at hs'
  · rw [← Option.some.inj hs']
    rfl
  · cases hs'

theorem unsubscribe (h : Tidy L N t) {filter : Bytes} (hc : t.conn? a = some c)
    (hold : ∃ s ∈ t.subs, s.client = some a ∧ s.filter = filter) :
    Tidy L N {t.setConn a {c with subCount := if c.subCount > 0 then c.subCount - 1 else c.subCount} with
      subs := t.subs.eraseP (fun s => s.client = some a ∧ s.filter = filter)} := by
  have haddr : c.addr = a := Chain.at?_addr hc
  have hmem : c ∈ t.conns := Chain.at?_mem hc
  obtain ⟨s₀, hs₀, hbound₀, hfilter₀⟩ := hold
  have he : c.established = true := by
    obtain ⟨y, hy, hya, hey, -⟩ := h.bound s₀ hs₀ a hbound₀
    rw [← h.eq_of_addr hy hmem (hya.trans haddr.symm)]
    exact hey
  obtain ⟨s₁, pre, post, -, hs₁, hsplit, herase⟩ :=
    List.exists_of_eraseP (p := fun s : BrokerSub => decide (s.client = some a ∧ s.filter = filter)) hs₀
      (decide_eq_true ⟨hbound₀, hfilter₀⟩)
  obtain ⟨hbound₁, -⟩ := of_decide_eq_true hs₁
  have hsub : (t.subs.eraseP (fun s => s.client = some a ∧ s.filter = filter)).Sublist t.subs := List.eraseP_sublist
  have hst : Stays t.conns (t.setConn a {c with subCount := if c.subCount > 0 then c.subCount - 1 else c.subCount}).conns :=
    h.stays_setConn hc haddr fun _ => ⟨he, rfl, rfl⟩
  -- the entry that goes is one of the connection's own
  have hcount (x : Nat) : t.boundTo x =
      (t.subs.eraseP (fun s => s.client = some a ∧ s.filter = filter)).countP (fun s => s.client = some x) +
        if x = a then 1 else 0 := by
    rw [STable.boundTo, herase, hsplit, List.countP_append, List.countP_append, List.countP_cons, hbound₁]
    by_cases hx : x = a
    · simp [hx, Nat.add_assoc]
    · simp [hx, Ne.symm hx]
  refine {h with nodup := h.setConn_nodup {c with subCount := _} haddr, oneOwner := h.stays_oneOwner hst,
                 named := h.stays_named hst, idle := ?_, counted := ?_, unique := h.unique.sublist hsub, bound := ?_,
                 carried := fun s hs => h.carried s (hsub.subset hs), apart := h.stays_apart hst}
  · intro x hx hex
    rcases h.mem_setConn hx with hx | rfl
    · exact h.idle x hx.1 hex
    · exact absurd (he.symm.trans hex) (by decide)
  · intro x hx hex
    rcases h.mem_setConn hx with ⟨hx, hne⟩ | rfl
    · have hx' := h.counted x hx hex
      rw [hcount, if_neg hne] at hx'
      exact hx'
    · have hx' := h.counted c hmem he
      rw [hcount, if_pos haddr] at hx'
      show (if c.subCount > 0 then c.subCount - 1 else c.subCount) =
        ((t.subs.eraseP (fun s => s.client = some a ∧ s.filter = filter)).countP (fun s => s.client = some c.addr) : Nat)
      rw [if_pos (by omega)]
      omega
  · intro s hs x hx
    obtain ⟨y, hy, hya, hrest⟩ := h.bound s (hsub.subset hs) x hx
    by_cases hxa : x = a
    · obtain rfl := h.eq_of_addr hy hmem (hya.trans (hxa.trans haddr.symm))
      exact ⟨_, mem_setConn_self hc haddr, hya, hrest⟩
    · exact ⟨y, mem_setConn_of_ne haddr h hy (hya ▸ hxa), hya, hrest⟩

theorem finish (h : Tidy L N t) {records : Bytes → Option SessionRecord} :
    Tidy L N {t.dropConn a with subs := t.subs.filter (fun s => s.client ≠ some a), records := records} := by
  have hsub : (t.subs.filter (fun s => s.client ≠ some a)).Sublist t.subs := List.filter_sublist
  refine {h with nodup := Chain.nodup_removeAt h.nodup a, oneOwner := h.stays_oneOwner stays_dropConn,
                 named := h.stays_named stays_dropConn, idle := fun x hx => h.idle x (h.mem_dropConn.mp hx).1,
                 counted := ?_, unique := h.unique.sublist hsub, bound := ?_,
                 carried := fun s hs => h.carried s (hsub.subset hs), apart := h.stays_apart stays_dropConn}
  · intro x hx he
    obtain ⟨hx, hne⟩ := h.mem_dropConn.mp hx
    have hkeep : (fun s : BrokerSub => decide (s.client = some x.addr) && decide (s.client ≠ some a)) =
        fun s => decide (s.client = some x.addr) := by
      funext s
      by_cases hs : s.client = some x.addr
      · simp [hs, hne]
      · simp [hs]
    show x.subCount = ((t.subs.filter (fun s => s.client ≠ some a)).countP (fun s => s.client = some x.addr) : Nat)
    rw [List.countP_filter, hkeep]
    exact h.counted x hx he
  · intro s hs x hx
    obtain ⟨hs, hne⟩ := List.mem_filter.mp hs
    obtain ⟨y, hy, hya, hrest⟩ := h.bound s hs x hx
    refine ⟨y, h.mem_dropConn.mpr ⟨hy, ?_⟩, hya, hrest⟩
    rintro rfl
    exact absurd (hya ▸ hx) (of_decide_eq_true hne)

/-- Among the subscriptions of a tidy table, two are of one session and one filter where they agree on the id and the
filter. -/
theorem unique_id (h : Tidy L N t) : t.subs.Pairwise (fun s s' => ¬(s.clientId = s'.clientId ∧ s.filter = s'.filter)) := by
  refine h.unique.imp_of_mem ?_
  intro s s' hs hs' htwin hsame
  exact htwin ⟨h.same_client hs hs' hsame.1, hsame⟩

theorem orphan (h : Tidy L N t) {o : SOrphan} (hc : t.conn? a = some c) (he : c.established = true)
    (hnamed : c.clientId = some o.clientId) (hfresh : ∀ x ∈ t.orphans, x.addr ≠ o.addr)
    (hroom : t.count < L.maxPersistSessions ∨ t.orphans = []) {records : Bytes → Option SessionRecord} :
    Tidy L N {t.dropConn a with subs := t.unbind a, orphans := o :: t.orphans, count := t.count + 1, records := records} := by
  have haddr : c.addr = a := Chain.at?_addr hc
  have hmem : c ∈ t.conns := Chain.at?_mem hc
  refine {h with nodup := Chain.nodup_removeAt h.nodup a, oneOwner := h.stays_oneOwner stays_dropConn,
                 named := h.stays_named stays_dropConn, idle := fun x hx => h.idle x (h.mem_dropConn.mp hx).1,
                 counted := ?_, unique := ?_, bound := ?_, carried := ?_, apart := ?_, titled := ?_,
                 orphanNodup := ?_, distinct := ?_, count := ?_, bounded := ?_}
  · intro x hx hex
    obtain ⟨hx, hne⟩ := h.mem_dropConn.mp hx
    show x.subCount = ((t.unbind a).countP (fun s => s.client = some x.addr) : Nat)
    have hsame : (t.unbind a).countP (fun s => s.client = some x.addr) = t.boundTo x.addr := by
      rw [STable.unbind, List.countP_map]
      refine List.countP_congr fun s _ => ?_
      by_cases hs : s.client = some a
      · simp [hs, Ne.symm hne]
      · simp [hs]
    rw [hsame]
    exact h.counted x hx hex
  · refine List.pairwise_map.mpr (h.unique_id.imp ?_)
    rintro s s' hne ⟨-, hid, hfilter⟩
    refine hne ⟨?_, ?_⟩
    · split at hid <;> split at hid <;> exact hid
    · split at hfilter <;> split at hfilter <;> exact hfilter
  · intro s hs x hx
    obtain ⟨s₀, hs₀, rfl⟩ := List.mem_map.mp hs
    by_cases hbound : s₀.client = some a
    · rw [if_pos hbound] at hx
      cases hx
    · rw [if_neg hbound] at hx ⊢
      obtain ⟨y, hy, hya, hrest⟩ := h.bound s₀ hs₀ x hx
      refine ⟨y, h.mem_dropConn.mpr ⟨hy, ?_⟩, hya, hrest⟩
      rintro rfl
      exact hbound (hya ▸ hx)
  · intro s hs hnone
    obtain ⟨s₀, hs₀, rfl⟩ := List.mem_map.mp hs
    by_cases hbound : s₀.client = some a
    · rw [if_pos hbound]
      refine ⟨o, List.mem_cons_self, ?_⟩
      rw [← hnamed]
      exact (h.bound_iff hmem he hs₀).mp (haddr ▸ hbound)
    · rw [if_neg hbound] at hnone ⊢
      obtain ⟨o', ho', hid⟩ := h.carried s₀ hs₀ hnone
      exact ⟨o', List.mem_cons_of_mem _ ho', hid⟩
  · intro x hx hex o' ho'
    obtain ⟨hmemx, hne⟩ := h.mem_dropConn.mp hx
    rcases List.mem_cons.mp ho' with rfl | ho'
    · intro hid
      exact hne (haddr ▸ h.oneOwner x hmemx c hmem hex he (hid.trans hnamed.symm))
    · exact h.apart x hmemx hex o' ho'
  · intro o' ho'
    rcases List.mem_cons.mp ho' with rfl | ho'
    · obtain ⟨clientId, hid, hN⟩ := h.named c hmem he
      rw [Option.some.inj (hnamed.symm.trans hid)]
      exact ⟨_, hN⟩
    · exact h.titled o' ho'
  · refine List.nodup_cons.mpr ⟨?_, h.orphanNodup⟩
    intro ho
    obtain ⟨o', ho', heq⟩ := List.mem_map.mp ho
    exact hfresh o' ho' heq
  · refine List.nodup_cons.mpr ⟨?_, h.distinct⟩
    intro ho
    obtain ⟨o', ho', heq⟩ := List.mem_map.mp ho
    exact h.apart c hmem he o' ho' (by rw [hnamed, heq])
  · show t.count + 1 = ((o :: t.orphans).length : Int)
    rw [h.count, List.length_cons]
    rfl
  · show (o :: t.orphans).length ≤ _
    have hcount := h.count
    rw [List.length_cons]
    rcases hroom with hroom | hroom
    · omega
    · rw [hroom]
      exact Nat.le_max_right _ _

/-- Where no two orphans share an id, the orphans under other ids are the others. -/
theorem removeAt_orphan (h : Tidy L N t) {o : SOrphan} (ho : o ∈ t.orphans) :
    Chain.removeAt o.addr t.orphans = t.orphansBut o.clientId := by
  rw [Chain.removeAt_eq_filter h.orphanNodup, STable.orphansBut]
  refine List.filter_congr fun x hx => ?_
  by_cases hxo : x = o
  · simp only [hxo, ne_eq, not_true_eq_false, decide_false, decide_eq_false_iff_not, not_not]
    rfl
  · have haddr : x.addr ≠ o.addr := fun heq => hxo (List.inj_on_of_nodup_map h.orphanNodup hx ho heq)
    have hid : x.clientId ≠ o.clientId := fun heq => hxo (List.inj_on_of_nodup_map h.distinct hx ho heq)
    simp only [ne_eq, hid, not_false_eq_true, decide_true, decide_eq_true_eq]
    exact haddr

theorem expire (h : Tidy L N t) {o : SOrphan} (ho : o ∈ t.orphans) {records : Bytes → Option SessionRecord} :
    Tidy L N {t with
      subs := t.subs.filter (fun s => !(s.client.isNone && s.clientId = some o.clientId))
      orphans := Chain.removeAt o.addr t.orphans
      count := t.count - 1
      records := records} := by
  have hsub : (t.subs.filter (fun s => !(s.client.isNone && s.clientId = some o.clientId))).Sublist t.subs :=
    List.filter_sublist
  have hsubo : (Chain.removeAt o.addr t.orphans).Sublist t.orphans := List.eraseP_sublist
  have hlen : (Chain.removeAt o.addr t.orphans).length + 1 = t.orphans.length := by
    have hpos : 0 < t.orphans.length := List.length_pos_of_mem ho
    have hlen := List.length_eraseP_of_mem (p := fun x : SOrphan => decide (Node.addr x = o.addr)) ho (decide_eq_true rfl)
    rw [Chain.removeAt, hlen]
    omega
  refine {h with counted := ?_, unique := h.unique.sublist hsub, bound := fun s hs => h.bound s (hsub.subset hs),
                 carried := ?_, apart := fun x hx he o' ho' => h.apart x hx he o' (hsubo.subset ho'),
                 titled := fun o' ho' => h.titled o' (hsubo.subset ho'),
                 orphanNodup := Chain.nodup_removeAt h.orphanNodup _,
                 distinct := h.distinct.sublist (hsubo.map _), count := ?_,
                 bounded := Nat.le_trans hsubo.length_le h.bounded}
  · intro x hx he
    show x.subCount = ((t.subs.filter _).countP (fun s => s.client = some x.addr) : Nat)
    have hkeep : (fun s : BrokerSub => decide (s.client = some x.addr) &&
        !(s.client.isNone && decide (s.clientId = some o.clientId))) = fun s => decide (s.client = some x.addr) := by
      funext s
      by_cases hs : s.client = some x.addr
      · simp [hs]
      · simp [hs]
    rw [List.countP_filter, hkeep]
    exact h.counted x hx he
  · intro s hs hnone
    obtain ⟨hs, hne⟩ := List.mem_filter.mp hs
    obtain ⟨o', ho', hid⟩ := h.carried s hs hnone
    refine ⟨o', ?_, hid⟩
    show o' ∈ Chain.removeAt o.addr t.orphans
    rw [h.removeAt_orphan ho]
    refine List.mem_filter.mpr ⟨ho', decide_eq_true fun heq => ?_⟩
    rw [hnone, hid, heq] at hne
    simp at hne
  · show t.count - 1 = ((Chain.removeAt o.addr t.orphans).length : Int)
    rw [h.count]
    omega

section opening
variable {c' : SConn} {clientId : Bytes} {old : Option Nat}

/-- The connections once the one at `old` is gone. -/
theorem mem_without (h : Tidy L N t) {y : SConn} :
    y ∈ old.elim t.conns (Chain.removeAt · t.conns) ↔ y ∈ t.conns ∧ old ≠ some y.addr := by
  cases old with
  | none => exact ⟨fun hy => ⟨hy, nofun⟩, fun hy => hy.1⟩
  | some x =>
    have hrem := Chain.mem_removeAt h.nodup (a := x) (x := y)
    refine hrem.trans (and_congr_right fun _ => not_congr ?_)
    exact ⟨fun heq => by rw [← heq]; rfl, fun heq => (Option.some.inj heq).symm⟩

theorem without_nodup (h : Tidy L N t) : ((old.elim t.conns (Chain.removeAt · t.conns)).map Node.addr).Nodup := by
  cases old with
  | none => exact h.nodup
  | some x => exact Chain.nodup_removeAt h.nodup x

/-- The connections after an accepted CONNECT: the one at `a` has the session, the others are those that were there
and did not have it. -/
theorem mem_opened (h : Tidy L N t) (howner : ∀ y ∈ t.conns, y.established = true → y.clientId = some clientId →
      old = some y.addr) {y : SConn}
    (hy : y ∈ Chain.writeAt a (fun _ => c') (old.elim t.conns (Chain.removeAt · t.conns))) :
    (y ∈ t.conns ∧ y.addr ≠ a ∧ (y.established = true → y.clientId ≠ some clientId)) ∨ y = c' := by
  rcases Chain.mem_writeAt_nodup h.without_nodup hy with ⟨hy, hne⟩ | ⟨-, -, rfl⟩
  · obtain ⟨hy, hold⟩ := h.mem_without.mp hy
    exact .inl ⟨hy, hne, fun he hid => hold (howner y hy he hid)⟩
  · exact .inr rfl

theorem mem_opened_of_ne (h : Tidy L N t) (haddr : c'.addr = a) {y : SConn} (hy : y ∈ t.conns) (hold : old ≠ some y.addr)
    (hne : y.addr ≠ a) : y ∈ Chain.writeAt a (fun _ => c') (old.elim t.conns (Chain.removeAt · t.conns)) := by
  have hat : Chain.at? (Chain.writeAt a (fun _ => c') (old.elim t.conns (Chain.removeAt · t.conns))) y.addr = some y := by
    rw [Chain.at?_writeAt_ne_of (fun _ _ => haddr) hne]
    exact Chain.at?_of_mem h.without_nodup (h.mem_without.mpr ⟨hy, hold⟩)
  exact Chain.at?_mem hat

theorem mem_opened_self (h : Tidy L N t) (hc : t.conn? a = some c) (haddr : c'.addr = a) (hother : old ≠ some a) :
    c' ∈ Chain.writeAt a (fun _ => c') (old.elim t.conns (Chain.removeAt · t.conns)) := by
  have hca : c.addr = a := Chain.at?_addr hc
  have hmem : c ∈ old.elim t.conns (Chain.removeAt · t.conns) :=
    h.mem_without.mpr ⟨Chain.at?_mem hc, by rw [hca]; exact hother⟩
  have hat := Chain.at?_of_mem h.without_nodup hmem
  rw [show Node.addr c = a from hca] at hat
  exact Chain.at?_mem (Chain.at?_writeAt_self (f := fun _ => c') hat haddr)

/-- The subscriptions under other client ids, and those that the connection at `a` gets. -/
theorem mem_openedSubs {keep : Bool} {s : BrokerSub}
    (hs : s ∈ if keep then t.bind clientId a else t.subs.filter (fun s => s.clientId ≠ some clientId)) :
    (s ∈ t.subs ∧ s.clientId ≠ some clientId) ∨ (s.clientId = some clientId ∧ s.client = some a) := by
  cases keep with
  | false =>
    obtain ⟨hs, hne⟩ := List.mem_filter.mp hs
    exact .inl ⟨hs, of_decide_eq_true hne⟩
  | true =>
    obtain ⟨s₀, hs₀, rfl⟩ := List.mem_map.mp hs
    by_cases hid : s₀.clientId = some clientId
    · rw [if_pos hid]
      exact .inr ⟨hid, rfl⟩
    · rw [if_neg hid]
      exact .inl ⟨hs₀, hid⟩

theorem openedSubs_unique (h : Tidy L N t) (keep : Bool) :
    (if keep then t.bind clientId a else t.subs.filter (fun s => s.clientId ≠ some clientId)).Pairwise
      (fun s s' => ¬s.Twin s') := by
  cases keep with
  | false => exact h.unique.sublist List.filter_sublist
  | true =>
    refine List.pairwise_map.mpr (h.unique_id.imp ?_)
    rintro s s' hne ⟨-, hid, hfilter⟩
    refine hne ⟨?_, ?_⟩
    · split at hid <;> split at hid <;> exact hid
    · split at hfilter <;> split at hfilter <;> exact hfilter

/-- The entries of the connection at `a`, which had none. -/
theorem openedSubs_own (h : Tidy L N t) (hc : t.conn? a = some c) (hnew : c.established = false) (keep : Bool) :
    (if keep then t.bind clientId a else t.subs.filter (fun s => s.clientId ≠ some clientId)).countP
      (fun s => s.client = some a) = if keep then t.under clientId else 0 := by
  have hnone := h.not_bound hc hnew
  cases keep with
  | false =>
    refine List.countP_eq_zero.mpr fun s hs => ?_
    simpa using hnone s (List.mem_filter.mp hs).1
  | true =>
    show (t.bind clientId a).countP _ = t.under clientId
    rw [STable.bind, List.countP_map]
    refine List.countP_congr fun s hs => ?_
    by_cases hid : s.clientId = some clientId
    · simp [hid]
    · simpa [hid] using hnone s hs

/-- The entries of another connection stay. -/
theorem openedSubs_other (h : Tidy L N t) {y : SConn} (hy : y ∈ t.conns) (he : y.established = true) (hne : y.addr ≠ a)
    (hid : y.clientId ≠ some clientId) (keep : Bool) :
    (if keep then t.bind clientId a else t.subs.filter (fun s => s.clientId ≠ some clientId)).countP
      (fun s => s.client = some y.addr) = t.boundTo y.addr := by
  have hother : ∀ s ∈ t.subs, s.clientId = some clientId → s.client ≠ some y.addr := by
    intro s hs hs' hbound
    exact hid (((h.bound_iff hy he hs).mp hbound).symm.trans hs')
  cases keep with
  | false =>
    show (t.subs.filter _).countP _ = _
    rw [List.countP_filter]
    refine List.countP_congr fun s hs => ?_
    by_cases hs' : s.clientId = some clientId
    · simp [hs', hother s hs hs']
    · simp [hs']
  | true =>
    show (t.bind clientId a).countP _ = _
    rw [STable.bind, List.countP_map]
    refine List.countP_congr fun s hs => ?_
    by_cases hs' : s.clientId = some clientId
    · simp [hs', hother s hs hs', Ne.symm hne]
    · simp [hs']

theorem open_ (h : Tidy L N t) {keep : Bool} {records : Bytes → Option SessionRecord} (hc : t.conn? a = some c)
    (hnew : c.established = false) (haddr : c'.addr = a) (hnamed : c'.clientId = some clientId ∧ N clientId c'.keepAlive)
    (hlive : c'.established = true)
    (hother : ∀ x ∈ old, x ≠ a ∧ ∀ y ∈ t.conns, y.addr = x → y.established = true → y.clientId = some clientId)
    (howner : ∀ y ∈ t.conns, y.established = true → y.clientId = some clientId → old = some y.addr)
    (hcount : c'.subCount = if keep then t.under clientId else 0) :
    Tidy L N
      {conns := Chain.writeAt a (fun _ => c') (old.elim t.conns (Chain.removeAt · t.conns))
       subs := if keep then t.bind clientId a else t.subs.filter (fun s => s.clientId ≠ some clientId)
       orphans := t.orphansBut clientId
       count := (t.orphansBut clientId).length
       records := records} := by
  have holda : old ≠ some a := fun heq => (hother a heq).1 rfl
  have hsubo : (t.orphansBut clientId).Sublist t.orphans := List.filter_sublist
  refine ⟨?_, ?_, ?_, ?_, ?_, h.openedSubs_unique keep, ?_, ?_, ?_, fun o ho => h.titled o (hsubo.subset ho),
    h.orphanNodup.sublist (hsubo.map _), h.distinct.sublist (hsubo.map _), rfl,
    Nat.le_trans hsubo.length_le h.bounded⟩
  · show (List.map Node.addr _).Nodup
    rw [Chain.map_writeAt Node.addr fun x hx => haddr.trans (Chain.at?_addr hx).symm]
    exact h.without_nodup
  · intro x hx y hy hex hey hid
    rcases h.mem_opened howner hx with ⟨hx, -, hxid⟩ | rfl <;> rcases h.mem_opened howner hy with ⟨hy, -, hyid⟩ | rfl
    · exact h.oneOwner x hx y hy hex hey hid
    · exact absurd (hid.trans hnamed.1) (hxid hex)
    · exact absurd (hid.symm.trans hnamed.1) (hyid hey)
    · rfl
  · intro x hx he
    rcases h.mem_opened howner hx with ⟨hx, -⟩ | rfl
    · exact h.named x hx he
    · exact ⟨clientId, hnamed⟩
  · intro x hx he
    rcases h.mem_opened howner hx with ⟨hx, -⟩ | rfl
    · exact h.idle x hx he
    · rw [hlive] at he
      cases he
  · intro x hx he
    show x.subCount = (List.countP (fun s : BrokerSub => decide (s.client = some x.addr)) _ : Nat)
    rcases h.mem_opened howner hx with ⟨hx, hne, hid⟩ | rfl
    · rw [h.openedSubs_other hx he hne (hid he)]
      exact h.counted x hx he
    · rw [haddr, h.openedSubs_own hc hnew, hcount]
  · intro s hs x hx
    rcases mem_openedSubs hs with ⟨hs, hid⟩ | ⟨hid, hbound⟩
    · obtain ⟨y, hy, hya, hey, hsy⟩ := h.bound s hs x hx
      have hne : y.addr ≠ a := fun heq => h.not_bound hc hnew s hs (by rw [hx, ← hya, heq])
      refine ⟨y, h.mem_opened_of_ne haddr hy (fun heq => hid ?_) hne, hya, hey, hsy⟩
      rw [hsy]
      exact (hother y.addr heq).2 y hy rfl hey
    · obtain rfl : a = x := Option.some.inj (hbound.symm.trans hx)
      exact ⟨c', h.mem_opened_self hc haddr holda, haddr, hlive, hid.trans hnamed.1.symm⟩
  · intro s hs hnone
    rcases mem_openedSubs hs with ⟨hs, hid⟩ | ⟨-, hbound⟩
    · obtain ⟨o, ho, hso⟩ := h.carried s hs hnone
      refine ⟨o, List.mem_filter.mpr ⟨ho, decide_eq_true fun heq => hid ?_⟩, hso⟩
      rw [hso, heq]
    · rw [hbound] at hnone
      cases hnone
  · intro x hx he o ho
    obtain ⟨ho, hne⟩ := List.mem_filter.mp ho
    rcases h.mem_opened howner hx with ⟨hx, -⟩ | rfl
    · exact h.apart x hx he o ho
    · rw [hnamed.1]
      exact fun heq => of_decide_eq_true hne (Option.some.inj heq).symm

end opening

end Tidy

/-- Every step keeps the table tidy. -/
theorem SStep.tidy {L : Limits} {R : Terms} {t t' : STable} (hstep : SStep L R t t') (h : Tidy L R.named t) : Tidy L R.named t' := by
  cases hstep with
  | join fresh may => exact h.join fresh
  | name at_ new addr new' subCount => exact h.name at_ new addr new' subCount
  | «open» at_ new addr named live other owner subCount _ => exact h.open_ at_ new addr named live other owner subCount
  | subscribe at_ live new _ => exact h.subscribe at_ live new
  | resubscribe _ => exact h.resubscribe
  | unsubscribe at_ old _ => exact h.unsubscribe at_ old
  | close at_ new => exact h.close at_ new
  | finish _ _ _ _ => exact h.finish
  | orphan at_ live named fresh room _ => exact h.orphan at_ live named fresh room
  | expire mem _ => exact h.expire mem

/-! ### The stored sessions -/

/-- A record stands for each session that outlives its connection, and for no other. -/
structure Mirrors (t : STable) : Prop where
  live : ∀ c ∈ t.conns, c.established = true → ∀ clientId, c.clientId = some clientId → t.records clientId = c.record
  orphans : ∀ o ∈ t.orphans, t.records o.clientId = some o.record
  absent : ∀ clientId, (∀ c ∈ t.conns, c.established = true → c.clientId ≠ some clientId) →
    (∀ o ∈ t.orphans, o.clientId ≠ clientId) → t.records clientId = none

namespace Mirrors
variable {L : Limits} {N : Bytes → Nat → Prop} {t : STable} {a : Nat} {c : SConn}

/-- Connections with a session come and stay, with their records. -/
theorem of_conns (h : Mirrors t) {conns : List SConn} {subs : List BrokerSub}
    (hin : ∀ y ∈ conns, y.established = true → ∃ x ∈ t.conns, x.established = true ∧ x.clientId = y.clientId ∧ x.record = y.record)
    (hout : ∀ x ∈ t.conns, x.established = true → ∃ y ∈ conns, y.established = true ∧ y.clientId = x.clientId) :
    Mirrors {t with conns := conns, subs := subs} := by
  refine ⟨?_, h.orphans, ?_⟩
  · intro y hy he clientId hid
    obtain ⟨x, hx, hex, hxid, hrec⟩ := hin y hy he
    rw [← hrec]
    exact h.live x hx hex clientId (hxid.trans hid)
  · intro clientId hconns
    refine h.absent clientId fun x hx hex => ?_
    obtain ⟨y, hy, hey, hyid⟩ := hout x hx hex
    rw [← hyid]
    exact hconns y hy hey

/-- A connection whose session is as it was comes in place of itself. -/
theorem setConn (h : Mirrors t) (ht : Tidy L N t) {subs : List BrokerSub} {c' : SConn} (hc : t.conn? a = some c) (haddr : c'.addr = a)
    (hest : c'.established = c.established)
    (hsame : c.established = true → c'.clientId = c.clientId ∧ c'.record = c.record) :
    Mirrors {t.setConn a c' with subs := subs} := by
  refine h.of_conns ?_ ?_
  · intro y hy he
    rcases ht.mem_setConn hy with hy | rfl
    · exact ⟨y, hy.1, he, rfl, rfl⟩
    · obtain ⟨hid, hrec⟩ := hsame (hest ▸ he)
      exact ⟨c, Chain.at?_mem hc, hest ▸ he, hid.symm, hrec.symm⟩
  · intro x hx hex
    by_cases hxa : x.addr = a
    · obtain rfl := ht.eq_of_addr hx (Chain.at?_mem hc) (hxa.trans (Chain.at?_addr hc).symm)
      exact ⟨c', Tidy.mem_setConn_self hc haddr, hest.trans hex, (hsame hex).1⟩
    · exact ⟨x, Tidy.mem_setConn_of_ne haddr ht hx hxa, hex, rfl⟩

/-- The session under an id, with its record, comes in place of what was there. -/
theorem put (h : Mirrors t) {t' : STable} (clientId : Bytes) {r : Option SessionRecord}
    (hrecords : t'.records = Function.update t.records clientId r)
    (hconns : ∀ y ∈ t'.conns, y.established = true → y.clientId ≠ some clientId → y ∈ t.conns)
    (hback : ∀ y ∈ t.conns, y.established = true → y.clientId ≠ some clientId → y ∈ t'.conns)
    (horphans : ∀ o, o.clientId ≠ clientId → (o ∈ t'.orphans ↔ o ∈ t.orphans))
    (hlive : ∀ y ∈ t'.conns, y.established = true → y.clientId = some clientId → r = y.record)
    (horphan : ∀ o ∈ t'.orphans, o.clientId = clientId → r = some o.record)
    (hnone : (∀ y ∈ t'.conns, y.established = true → y.clientId ≠ some clientId) →
      (∀ o ∈ t'.orphans, o.clientId ≠ clientId) → r = none) : Mirrors t' := by
  refine ⟨?_, ?_, ?_⟩
  · intro y hy he id hid
    rw [hrecords]
    by_cases heq : id = clientId
    · subst heq
      rw [Function.update_self]
      exact hlive y hy he hid
    · rw [Function.update_of_ne heq]
      exact h.live y (hconns y hy he fun h' => heq (Option.some.inj (hid.symm.trans h'))) he id hid
  · intro o ho
    rw [hrecords]
    by_cases heq : o.clientId = clientId
    · rw [heq, Function.update_self]
      exact horphan o ho heq
    · rw [Function.update_of_ne heq]
      exact h.orphans o ((horphans o heq).mp ho)
  · intro id hid hido
    rw [hrecords]
    by_cases heq : id = clientId
    · subst heq
      rw [Function.update_self]
      exact hnone hid hido
    · rw [Function.update_of_ne heq]
      refine h.absent id ?_ ?_
      · intro y hy he hyid
        exact hid y (hback y hy he fun h' => heq (Option.some.inj (hyid.symm.trans h'))) he hyid
      · rintro o ho rfl
        exact hido o ((horphans o heq).mpr ho) rfl

end Mirrors

/-- Where allocations succeed, every step keeps the records. -/
theorem SStep.mirrors {L : Limits} {R : Terms} {t t' : STable} (hsure : R.sure) (hstep : SStep L R t t') (ht : Tidy L R.named t)
    (h : Mirrors t) : Mirrors t' := by
  have ht' := hstep.tidy ht
  cases hstep with
  | join fresh may =>
    refine h.of_conns ?_ fun x hx hex => ⟨x, List.mem_cons_of_mem _ hx, hex, rfl⟩
    rintro y (_ | ⟨_, hy⟩) he
    · cases he
    · exact ⟨y, hy, he, rfl, rfl⟩
  | name at_ new addr new' _ =>
    exact h.setConn ht at_ addr (new'.trans new.symm) fun he => absurd (new.symm.trans he) (by decide)
  | @«open» a c c' clientId old keep records at_ new addr named live other owner subCount stored =>
    refine h.put clientId (stored hsure) ?_ ?_ ?_ ?_ ?_ ?_
    · intro y hy _ hid
      rcases ht.mem_opened owner hy with ⟨hy, -⟩ | rfl
      · exact hy
      · exact absurd named.1 hid
    · intro y hy he hid
      refine ht.mem_opened_of_ne addr hy (fun heq => hid ((other y.addr heq).2 y hy rfl he)) fun heq => ?_
      have hat := ht.conn?_of_mem hy
      rw [heq, at_] at hat
      rw [Option.some.inj hat, he] at new
      cases new
    · intro o hne
      exact ⟨fun ho => (List.mem_filter.mp ho).1, fun ho => List.mem_filter.mpr ⟨ho, decide_eq_true hne⟩⟩
    · intro y hy he hid
      rcases ht.mem_opened owner hy with ⟨-, -, hne⟩ | rfl
      · exact absurd hid (hne he)
      · rfl
    · intro o ho heq
      exact absurd heq (of_decide_eq_true (List.mem_filter.mp ho).2)
    · intro hconns
      exact absurd named.1 (hconns c' (ht.mem_opened_self at_ addr fun heq => (other a heq).1 rfl) live)
  | subscribe at_ _ _ _ => exact h.setConn ht at_ (Chain.at?_addr at_) rfl fun _ => ⟨rfl, rfl⟩
  | resubscribe _ => exact h.of_conns (fun y hy he => ⟨y, hy, he, rfl, rfl⟩) fun x hx hex => ⟨x, hx, hex, rfl⟩
  | unsubscribe at_ _ _ => exact h.setConn ht at_ (Chain.at?_addr at_) rfl fun _ => ⟨rfl, rfl⟩
  | @close a c at_ new =>
    refine h.of_conns (fun y hy he => ⟨y, (ht.mem_dropConn.mp hy).1, he, rfl, rfl⟩) fun x hx hex => ?_
    refine ⟨x, ht.mem_dropConn.mpr ⟨hx, fun hxa => ?_⟩, hex, rfl⟩
    have hat := ht.conn?_of_mem hx
    rw [hxa, at_] at hat
    rw [Option.some.inj hat, hex] at new
    cases new
  | @finish a c clientId at_ live named records stored =>
    have hmem : c ∈ t.conns := Chain.at?_mem at_
    have haddr : c.addr = a := Chain.at?_addr at_
    refine h.put clientId (stored hsure) ?_ ?_ (fun _ _ => Iff.rfl) ?_ ?_ fun _ _ => rfl
    · exact fun y hy _ _ => (ht.mem_dropConn.mp hy).1
    · intro y hy _ hid
      refine ht.mem_dropConn.mpr ⟨hy, fun heq => hid ?_⟩
      rw [ht.eq_of_addr hy hmem (heq.trans haddr.symm)]
      exact named
    · intro y hy he hid
      obtain ⟨hy, hne⟩ := ht.mem_dropConn.mp hy
      exact absurd (haddr ▸ ht.oneOwner y hy c hmem he live (hid.trans named.symm)) hne
    · intro o ho heq
      exact absurd (by rw [named, heq]) (ht.apart c hmem live o ho)
  | @orphan a c o at_ live named fresh room records stored =>
    have hmem : c ∈ t.conns := Chain.at?_mem at_
    have haddr : c.addr = a := Chain.at?_addr at_
    refine h.put o.clientId (stored hsure) ?_ ?_ ?_ ?_ ?_ ?_
    · exact fun y hy _ _ => (ht.mem_dropConn.mp hy).1
    · intro y hy _ hid
      refine ht.mem_dropConn.mpr ⟨hy, fun heq => hid ?_⟩
      rw [ht.eq_of_addr hy hmem (heq.trans haddr.symm)]
      exact named
    · intro o' hne
      refine List.mem_cons.trans ⟨fun ho => ho.resolve_left fun heq => hne (by rw [heq]), .inr⟩
    · intro y hy he hid
      obtain ⟨hy, hne⟩ := ht.mem_dropConn.mp hy
      exact absurd (haddr ▸ ht.oneOwner y hy c hmem he live (hid.trans named.symm)) hne
    · intro o' ho' heq
      rcases List.mem_cons.mp ho' with rfl | ho'
      · rfl
      · exact absurd (by rw [named, heq]) (ht.apart c hmem live o' ho')
    · intro _ horphans
      exact absurd rfl (horphans o List.mem_cons_self)
  | @expire o mem records stored =>
    refine h.put o.clientId (stored hsure) (fun y hy _ _ => hy) (fun y hy _ _ => hy) ?_ ?_ ?_ fun _ _ => rfl
    · intro o' hne
      show o' ∈ Chain.removeAt o.addr t.orphans ↔ _
      rw [ht.removeAt_orphan mem]
      exact ⟨fun ho => (List.mem_filter.mp ho).1, fun ho => List.mem_filter.mpr ⟨ho, decide_eq_true hne⟩⟩
    · intro y hy he hid
      exact absurd hid (ht.apart y hy he o mem)
    · intro o' ho' heq
      have ho' : o' ∈ Chain.removeAt o.addr t.orphans := ho'
      rw [ht.removeAt_orphan mem] at ho'
      exact absurd heq (of_decide_eq_true (List.mem_filter.mp ho').2)

/-! ### Runs -/

theorem SRun.tidy {L : Limits} {R : Terms} {t t' : STable} (hrun : SRun L R t t') (h : Tidy L R.named t) : Tidy L R.named t' := by
  induction hrun with
  | refl => exact h
  | tail _ hstep ih => exact hstep.tidy ih

theorem SRun.mirrors {L : Limits} {R : Terms} {t t' : STable} (hsure : R.sure) (hrun : SRun L R t t') (ht : Tidy L R.named t)
    (h : Mirrors t) : Mirrors t' := by
  induction hrun with
  | refl => exact h
  | tail hrun hstep ih => exact hstep.mirrors hsure (SRun.tidy hrun ht) ih

end WolfMqtt.Broker
