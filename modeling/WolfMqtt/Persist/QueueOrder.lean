import WolfMqtt.Lib.Ordered
import WolfMqtt.Persist.Rejected

/-! The queues that are restored do not depend on the order in which a backend gives the records.

A record of a queue is read to its end, allocated and linked where its sequence belongs. What a queue then holds is
said by the records alone (`Queued`), and there is one order for that. -/
namespace WolfMqtt.Persist.Load

open Broker
open Agree (bind_eq_ok ok_bind)
open Attempt (Prog Spec)
open TailQueue (Ascending)

/-! ### Records -/

/-- What a queue record says from beginning to end: the client id of its key, and the entry. -/
def decodeOutq (L : Limits) (key blob : Bytes) : Except Fault (Bytes × QueueEntry) := do
  let clientId ← outqOwner key
  let bodyLen ← scanHeader blob .outq
  if bodyLen < outqBodyMin then .error (.code Code.malformedData)
  else
    let end_ := hdrLen + bodyLen
    let (e, topicLen) ← outqFields L blob end_
    let topic ← readBytes blob outqTopicPos topicLen
    let p := outqTopicPos + topicLen
    let payloadLen ← readNumber 4 blob p
    if wordDiff end_ (p + 4) < payloadLen then .error (.code Code.malformedData)
    else
      let payload ← (if payloadLen > 0 then readBytes blob (p + 4) payloadLen else .ok [])
      .ok (clientId, {e with topic, payload})

theorem decodeOutq_owner {L : Limits} {key blob cid : Bytes} {e : QueueEntry} (h : decodeOutq L key blob = .ok (cid, e)) :
    outqOwner key = .ok cid := by
  obtain ⟨clientId, howner, h⟩ := bind_eq_ok.mp h
  obtain ⟨bodyLen, -, h⟩ := bind_eq_ok.mp h
  split at h
  · cases h
  obtain ⟨f, -, h⟩ := bind_eq_ok.mp h
  obtain ⟨topic, -, h⟩ := bind_eq_ok.mp h
  obtain ⟨payloadLen, -, h⟩ := bind_eq_ok.mp h
  split at h
  · cases h
  obtain ⟨payload, -, h⟩ := bind_eq_ok.mp h
  cases h
  exact howner

/-- The entry is linked into the queue of the session. -/
def linked (b : Lists) (o : SessionSlot) (e : QueueEntry) : Lists :=
  {b with sessions := Chain.writeAt o.addr (SessionSlot.link e) b.sessions}

/-! ### One record -/

/-- The broker is `b`, addresses from `n` on are free, and if that is sure no allocation fails. -/
def Before (b : Lists) (sure : Prop) (n : Nat) (h : Heap) : Prop :=
  h.broker = b ∧ n ≤ h.nextAddr ∧ (sure → h.allocs = [])

theorem Before.le {b : Lists} {sure : Prop} {n m : Nat} {h : Heap} (hh : Before b sure n h) (hle : m ≤ n) :
    Before b sure m h := ⟨hh.1, Nat.le_trans hle hh.2.1, hh.2.2⟩

section record
variable (L : Limits) (key blob : Bytes) (b : Lists) (sure : Prop) (next : Nat)

/-- A record is not linked: the broker is what it was, and if no allocation fails the record is not one of a session. -/
def NotLinked (_ : Fault) (h : Heap) : Prop :=
  Before b sure next h ∧ (sure → ∀ cid e o, decodeOutq L key blob = .ok (cid, e) → findOrphan b cid ≠ some o)

/-- A record is linked, at an address that was free. -/
def Linked (_ : Unit) (h : Heap) : Prop :=
  ∃ cid e o addr, decodeOutq L key blob = .ok (cid, e) ∧ findOrphan b cid = some o ∧ next ≤ addr ∧
    Before (linked b o {e with addr := addr}) sure (addr + 1) h

variable {L key blob b sure next} {n : Nat}

/-- A step that reads the record, in the program as in `decodeOutq`. -/
theorem read_bind {α : Type} {x : Except Fault α} {f : α → Except Fault (Bytes × QueueEntry)} {g : α → LoadM Unit}
    (hdec : decodeOutq L key blob = x >>= f) (hn : next ≤ n)
    (hg : ∀ a, x = .ok a → decodeOutq L key blob = f a →
      Spec (Before b sure n) (g a) (NotLinked L key blob b sure next) (Linked L key blob b sure next)) :
    Spec (Before b sure n) (Attempt.lift x >>= g) (NotLinked L key blob b sure next) (Linked L key blob b sure next) := by
  refine .lift_bind (fun e he h hh => ⟨hh.le hn, fun _ cid e' o hok => ?_⟩) fun a ha => hg a ha (by rw [hdec, ha, ok_bind])
  rw [hdec, he] at hok
  cases hok

theorem read_reject {α : Type} {rc : Int} {e : Fault} {post : α → Heap → Prop} (hdec : decodeOutq L key blob = .error e)
    (hn : next ≤ n) : Spec (Before b sure n) (reject rc : LoadM α) (NotLinked L key blob b sure next) post :=
  .fail fun h hh => ⟨hh.le hn, fun _ cid e' o hok => by rw [hdec] at hok; cases hok⟩

/-- An allocation fails only where that is not ruled out. -/
theorem malloc_bind {α : Type} {g : Nat → LoadM α} {post : α → Heap → Prop} (hn : next ≤ n)
    (hg : ∀ a, n ≤ a → Spec (Before b sure (a + 1)) (g a) (NotLinked L key blob b sure next) post) :
    Spec (Before b sure n) (malloc >>= g) (NotLinked L key blob b sure next) post := by
  rintro ⟨broker, allocs, nextAddr⟩ ⟨hb, hle, hsure⟩
  match allocs with
  | [] => exact hg nextAddr hle ⟨broker, [], nextAddr + 1⟩ ⟨hb, le_refl _, hsure⟩
  | true :: rest => exact hg nextAddr hle ⟨broker, rest, nextAddr + 1⟩ ⟨hb, le_refl _, fun hs => nomatch hsure hs⟩
  | false :: rest =>
    have hno : ¬sure := fun hs => nomatch hsure hs
    exact ⟨⟨hb, Nat.le_trans hn hle, fun hs => absurd hs hno⟩, fun hs => absurd hs hno⟩

/-- What a record does: it is linked where it belongs, or nothing happens. -/
theorem decodeAndInsertOutq_spec : Spec (Before b sure next) (decodeAndInsertOutq L key blob)
    (NotLinked L key blob b sure next) (Linked L key blob b sure next) := by
  unfold decodeAndInsertOutq
  have hdec : decodeOutq L key blob = decodeOutq L key blob := rfl
  conv_rhs at hdec => unfold decodeOutq
  refine read_bind hdec (le_refl _) fun clientId howner hdec => read_bind hdec (le_refl _) fun bodyLen _ hdec => ?_
  by_cases hmin : bodyLen < outqBodyMin
  · rw [if_pos hmin] at hdec ⊢
    exact read_reject hdec (le_refl _)
  rw [if_neg hmin] at hdec ⊢
  refine read_bind hdec (le_refl _) fun f _ hdec => ?_
  obtain ⟨e, topicLen⟩ := f
  dsimp only at hdec ⊢
  refine .fetch_bind fun h hh => ?_
  cases hfind : findOrphan h.broker clientId with
  | none =>
    refine ⟨hh, fun _ cid e' o hok => ?_⟩
    have hsame : cid = clientId := Except.ok.inj ((decodeOutq_owner hok).symm.trans howner)
    rw [← hh.1, hsame, hfind]
    exact fun hcon => nomatch hcon
  | some o =>
    rw [hh.1] at hfind
    refine (malloc_bind (le_refl _) fun a ha => malloc_bind (by omega) fun a' ha' => ?_) h hh
    refine read_bind hdec (by omega) fun topic _ hdec => read_bind hdec (by omega) fun payloadLen _ hdec => ?_
    by_cases hshort : wordDiff (hdrLen + bodyLen) (outqTopicPos + topicLen + 4) < payloadLen
    · rw [if_pos hshort] at hdec ⊢
      exact read_reject hdec (by omega)
    rw [if_neg hshort] at hdec ⊢
    have hlink (n : Nat) (payload : Bytes) (hn : a + 1 ≤ n)
        (hok : decodeOutq L key blob = .ok (clientId, {e with topic, payload})) :
        Spec (Before b sure n) (update fun b => {b with
            sessions := Chain.writeAt o.addr (SessionSlot.link {e with addr := a, topic, payload}) b.sessions})
          (NotLinked L key blob b sure next) (Linked L key blob b sure next) := by
      refine .change fun h hh => ⟨clientId, _, o, a, hok, hfind, ha, ?_, Nat.le_trans hn hh.2.1, hh.2.2⟩
      rw [hh.1]
      rfl
    unfold copyPayload
    by_cases hsome : payloadLen > 0
    · rw [if_pos hsome] at hdec ⊢
      rw [Attempt.bind_assoc]
      exact malloc_bind (by omega) fun a'' ha'' => read_bind hdec (by omega) fun payload _ hdec =>
        hlink _ payload (by omega) hdec
    · rw [if_neg hsome] at hdec ⊢
      exact hlink _ [] (by omega) hdec

end record

/-! ### Sessions before the queues -/

/-- What the passes in front of the queues leave: records of the other namespaces, restored or not, in any order. -/
inductive Restored (L : Limits) (now : Nat) : Heap → Prop
  | start (allocs : List Bool) : Restored L now {allocs}
  | record {h : Heap} {ns : Ns} {key blob : Bytes} : Restored L now h → ns ≠ .outq →
      Restored L now (restoreRecord L now ns key blob h).2

/-- The sessions stand at addresses of their own, and their queues are empty. -/
structure Ready (h : Heap) : Prop where
  nodup : (h.broker.sessions.map Node.addr).Nodup
  used : ∀ o ∈ h.broker.sessions, o.addr < h.nextAddr
  empty : ∀ o ∈ h.broker.sessions, o.outQ = {} ∧ o.outQInflight = 0

/-- What only depends on the sessions and the next free address. -/
theorem Ready.of_same {h h' : Heap} (hready : Ready h) (hsame : h'.broker.sessions = h.broker.sessions)
    (hle : h.nextAddr ≤ h'.nextAddr) : Ready h' where
  nodup := by
    rw [hsame]
    exact hready.nodup
  used o ho := by
    rw [hsame] at ho
    exact Nat.lt_of_lt_of_le (hready.used o ho) hle
  empty o ho := by
    rw [hsame] at ho
    exact hready.empty o ho

/-- A part of a decoder that keeps the sessions ready, wherever it ends. -/
abbrev KeepsReady {α : Type} (m : LoadM α) : Prop := Spec Ready m (fun _ => Ready) fun _ => Ready

/-- An allocation keeps what only depends on the broker and on addresses being taken. -/
theorem malloc_keeps {I : Heap → Prop} (hI : ∀ h h', h'.broker = h.broker → h.nextAddr ≤ h'.nextAddr → I h → I h') :
    Spec I malloc (fun _ => I) fun _ => I := by
  rintro ⟨broker, allocs, nextAddr⟩ h
  match allocs with
  | [] => exact hI ⟨broker, [], nextAddr⟩ _ rfl (Nat.le_succ _) h
  | true :: rest => exact hI ⟨broker, true :: rest, nextAddr⟩ _ rfl (Nat.le_succ _) h
  | false :: rest => exact hI ⟨broker, false :: rest, nextAddr⟩ _ rfl (le_refl _) h

theorem Ready.malloc : Spec Ready malloc (fun _ => Ready) fun _ => Ready :=
  malloc_keeps fun _ _ hbroker hle hready => hready.of_same (by rw [hbroker]) hle

/-- The address that is allocated is no session's. -/
def ReadyAt (addr : Nat) (h : Heap) : Prop := Ready h ∧ addr < h.nextAddr ∧ ∀ o ∈ h.broker.sessions, o.addr < addr

theorem malloc_fresh : Spec Ready malloc (fun _ => Ready) ReadyAt := by
  rintro ⟨broker, allocs, nextAddr⟩ hready
  match allocs with
  | [] => exact ⟨hready.of_same rfl (Nat.le_succ _), Nat.lt_succ_self _, hready.used⟩
  | true :: rest => exact ⟨hready.of_same rfl (Nat.le_succ _), Nat.lt_succ_self _, hready.used⟩
  | false :: rest => exact hready.of_same rfl (le_refl _)

section ready
variable {α β : Type}

theorem ready_lift {x : Except Fault α} {f : α → LoadM β} (hf : ∀ a, KeepsReady (f a)) : KeepsReady (Attempt.lift x >>= f) :=
  .lift_bind (fun _ _ _ h => h) fun a _ => hf a

theorem ready_reject (rc : Int) : KeepsReady (reject rc : LoadM α) := .fail fun _ h => h

theorem ready_malloc {f : Nat → LoadM β} (hf : ∀ a, KeepsReady (f a)) : KeepsReady (malloc >>= f) := Ready.malloc.bind hf

theorem ready_fetch {f : Heap → LoadM β} (hf : ∀ h, KeepsReady (f h)) : KeepsReady (Attempt.fetch >>= f) :=
  .fetch_bind fun h hready => hf h h hready

theorem ready_update {f : Lists → Lists} (hf : ∀ b, (f b).sessions = b.sessions) : KeepsReady (update f) :=
  .change fun h hready => hready.of_same (hf h.broker) (le_refl _)

theorem ready_payload (blob : Bytes) (pos len : Nat) {f : Bytes → LoadM β} (hf : ∀ payload, KeepsReady (f payload)) :
    KeepsReady (copyPayload blob pos len >>= f) := by
  have hcopy : KeepsReady (copyPayload blob pos len) := by
    unfold copyPayload
    refine .ite (fun _ => ready_malloc fun _ => ?_) fun _ => .ret fun _ h => h
    exact .lift (fun _ _ _ h => h) fun _ _ _ h => h
  exact hcopy.bind hf

end ready

/-- A session that is restored gets an address of its own and an empty queue. -/
theorem restoreCreateOrphan_ready (L : Limits) (now : Nat) (blob : Bytes) (s : SessionFields) :
    KeepsReady (restoreCreateOrphan L now blob s) := by
  unfold restoreCreateOrphan
  refine .ite (fun _ => ready_reject _) fun _ => ready_fetch fun h => .ite (fun _ => ready_reject _) fun _ => ?_
  refine malloc_fresh.bind fun addr => ?_
  have hkept : Spec (ReadyAt addr) malloc (fun _ => ReadyAt addr) fun _ => ReadyAt addr :=
    malloc_keeps fun _ _ hbroker hle hat =>
      ⟨hat.1.of_same (by rw [hbroker]) hle, Nat.lt_of_lt_of_le hat.2.1 hle, by rw [hbroker]; exact hat.2.2⟩
  refine (hkept.imp (fun _ _ hat => hat.1) fun _ _ hat => hat).bind fun _ => ?_
  refine .lift_bind (fun _ _ _ hat => hat.1) fun clientId _ => .change fun h' hat => ?_
  obtain ⟨hready, haddr, hfresh⟩ := hat
  refine ⟨?_, ?_, ?_⟩
  · refine List.nodup_cons.mpr ⟨fun hmem => ?_, hready.nodup⟩
    obtain ⟨o, ho, heq⟩ := List.mem_map.mp hmem
    exact absurd heq (hfresh o ho).ne
  · intro o ho
    rcases List.mem_cons.mp ho with rfl | ho
    · exact haddr
    · exact hready.used o ho
  · intro o ho
    rcases List.mem_cons.mp ho with rfl | ho
    · exact ⟨rfl, rfl⟩
    · exact hready.empty o ho

theorem subEntries_ready (key blob : Bytes) (end_ count : Nat) : ∀ p, KeepsReady (subEntries key blob end_ count p) := by
  induction count with
  | zero => exact fun _ => .ret fun _ h => h
  | succ count ih =>
    intro p
    rw [subEntries]
    refine ready_lift fun f => ready_malloc fun _ => ready_malloc fun _ => ready_lift fun filter => ready_malloc fun _ => ?_
    exact (ih _).bind fun rest => .ret fun _ h => h

theorem restoreRecord_ready (L : Limits) (now : Nat) {ns : Ns} (key blob : Bytes) (hns : ns ≠ .outq) :
    KeepsReady (restoreRecord L now ns key blob) := by
  cases ns with
  | «meta» => exact .ret fun _ h => h
  | session =>
    show KeepsReady (decodeAndInsertSession L now blob)
    unfold decodeAndInsertSession
    refine ready_lift fun bodyLen => .ite (fun _ => ready_reject _) fun _ => ready_lift fun s => ?_
    exact restoreCreateOrphan_ready L now blob s
  | subs =>
    show KeepsReady (decodeAndInsertSubs key blob)
    unfold decodeAndInsertSubs
    refine ready_lift fun bodyLen => .ite (fun _ => ready_reject _) fun _ => ready_fetch fun h => ?_
    refine .ite (fun _ => ready_reject _) fun _ => .ite (fun _ => ready_reject _) fun _ => ready_lift fun count => ?_
    exact (subEntries_ready key blob _ count _).bind fun subs => ready_update fun _ => rfl
  | retained =>
    show KeepsReady (decodeAndInsertRetained L now blob)
    unfold decodeAndInsertRetained
    refine ready_lift fun bodyLen => ready_lift fun r => ready_lift fun expired => .ite (fun _ => ready_reject _) fun _ => ?_
    refine ready_fetch fun h => .ite (fun _ => ready_reject _) fun _ => ready_malloc fun _ => ready_malloc fun _ => ?_
    refine ready_lift fun topic => ready_lift fun payloadLen => .ite (fun _ => ready_reject _) fun _ => ?_
    exact ready_payload blob _ _ fun payload => ready_update fun _ => rfl
  | outq => exact absurd rfl hns

theorem Restored.ready {L : Limits} {now : Nat} {h : Heap} (hrestored : Restored L now h) : Ready h := by
  induction hrestored with
  | start allocs => exact ⟨List.nodup_nil, nofun, nofun⟩
  | @record h ns key blob _ hns ih =>
    have hleaves := restoreRecord_ready L now key blob hns h ih
    rcases hrun : restoreRecord L now ns key blob h with ⟨_ | _, h'⟩ <;> rw [hrun] at hleaves <;> exact hleaves

/-! ### Queues -/

/-- The slot of a session without its queue. -/
def SessionSlot.core (o : SessionSlot) : SessionSlot := {o with outQ := {}, outQInflight := 0}

/-- Entries compared without their addresses. -/
def QueueEntry.bare (e : QueueEntry) : QueueEntry := {e with addr := 0}

theorem linkBySeq_eq (e : QueueEntry) (xs : List QueueEntry) : linkBySeq e xs = TailQueue.ordered (·.enqueueSeq) e xs := by
  induction xs with
  | nil => rfl
  | cons x xs ih =>
    rw [linkBySeq, ih, TailQueue.ordered, TailQueue.ordered, List.orderedInsert_cons]
    by_cases hlt : x.enqueueSeq < e.enqueueSeq
    · rw [if_pos hlt, if_neg (Nat.not_le.mpr hlt)]
    · rw [if_neg hlt, if_pos (Nat.not_lt.mp hlt)]

theorem link_outQ (e : QueueEntry) (o : SessionSlot) : (o.link e).outQ = o.outQ.insert (·.enqueueSeq) e := by
  rw [SessionSlot.link, TailQueue.insert, linkBySeq_eq]
  rfl

/-- A queue in the order of its sequence: the tail is its last entry, and both counters count. -/
structure InOrder (o : SessionSlot) : Prop where
  ascending : Ascending (·.enqueueSeq) o.outQ.chain
  wf : o.outQ.WF
  inflight : o.outQInflight = o.outQ.chain.countP QueueEntry.inFlight

/-- A queue in order, and holding these entries. -/
structure Queued (o : SessionSlot) (es : List QueueEntry) : Prop extends InOrder o where
  entries : (o.outQ.chain.map QueueEntry.bare).Perm (es.map QueueEntry.bare)

theorem Queued.seq {o : SessionSlot} {es : List QueueEntry} (h : Queued o es) {x : QueueEntry} (hx : x ∈ o.outQ.chain) :
    ∃ y ∈ es, y.enqueueSeq = x.enqueueSeq := by
  obtain ⟨y, hy, heq⟩ := List.mem_map.mp (h.entries.subset (List.mem_map_of_mem hx))
  have hseq : y.bare.enqueueSeq = x.bare.enqueueSeq := congrArg QueueEntry.enqueueSeq heq
  exact ⟨y, hy, hseq⟩

theorem Queued.link {o : SessionSlot} {es : List QueueEntry} (h : Queued o es) {e : QueueEntry} {addr : Nat}
    (hfresh : ∀ x ∈ o.outQ.chain, x.addr < addr) (hseq : ∀ y ∈ es, y.enqueueSeq ≠ e.enqueueSeq) :
    Queued (o.link {e with addr}) (es ++ [e]) := by
  have hperm := TailQueue.insert_perm (·.enqueueSeq) {e with addr} o.outQ
  have hq := link_outQ {e with addr} o
  have hnew : ∀ x ∈ o.outQ.chain, x.enqueueSeq ≠ e.enqueueSeq := by
    intro x hx heq
    obtain ⟨y, hy, hyx⟩ := h.seq hx
    exact hseq y hy (hyx.trans heq)
  have haddr : addr ∉ o.outQ.chain.map Node.addr := by
    intro hmem
    obtain ⟨x, hx, heq⟩ := List.mem_map.mp hmem
    exact absurd heq (hfresh x hx).ne
  refine ⟨⟨?_, ?_, ?_⟩, ?_⟩
  · rw [hq]
    exact TailQueue.ordered_ascending h.ascending hnew
  · rw [hq]
    exact TailQueue.insert_wf h.wf haddr
  · rw [hq, hperm.countP_eq, List.countP_cons]
    show (if QueueEntry.inFlight {e with addr} then o.outQInflight + 1 else o.outQInflight) = _
    rw [h.inflight]
    split <;> simp
  · rw [hq, List.map_append]
    refine ((hperm.map QueueEntry.bare).trans (h.entries.cons _)).trans ?_
    exact (List.perm_append_singleton _ _).symm

/-- There is one order for the entries a queue holds. -/
theorem Queued.unique {o o' : SessionSlot} {es es' : List QueueEntry} (h : Queued o es) (h' : Queued o' es')
    (hes : es.Perm es') : o.outQ.chain.map QueueEntry.bare = o'.outQ.chain.map QueueEntry.bare := by
  have hascending (xs : List QueueEntry) (hxs : Ascending QueueEntry.enqueueSeq xs) :
      Ascending QueueEntry.enqueueSeq (xs.map QueueEntry.bare) := List.pairwise_map.mpr hxs
  refine (hascending _ h.ascending).eq_of_perm (hascending _ h'.ascending) ?_
  exact (h.entries.trans (hes.map _)).trans h'.entries.symm

/-! ### The pass over the queues -/

/-- The pass over the queues: the records that were restored, and the heap. -/
def outqPass (L : Limits) : List Record → Heap → List Record × Heap
  | [], h => ([], h)
  | r :: rs, h =>
    let (rc, h) := decodeAndInsertOutq L r.1 r.2 h
    let (loaded, h) := outqPass L rs h
    if rc.isOk then (r :: loaded, h) else (loaded, h)

/-- The session a record is one of, by its address, and the entry. -/
def ownedBy (L : Limits) (b : Lists) (r : Record) : Option (Nat × QueueEntry) :=
  match decodeOutq L r.1 r.2 with
  | .error _ => none
  | .ok (clientId, e) => (findOrphan b clientId).map fun o => (o.addr, e)

/-- The entries that records have for the session at an address. -/
def entriesAt (L : Limits) (b : Lists) (addr : Nat) (recs : List Record) : List QueueEntry :=
  recs.filterMap fun r => ((ownedBy L b r).filter (·.1 = addr)).map (·.2)

/-- The client id and the sequence of a record. -/
def seqOf (L : Limits) (r : Record) : Option (Bytes × Nat) :=
  match decodeOutq L r.1 r.2 with
  | .error _ => none
  | .ok (clientId, e) => some (clientId, e.enqueueSeq)

/-- No two records are of one client id and one sequence. -/
def DistinctSeqs (L : Limits) (recs : List Record) : Prop := recs.Pairwise fun r r' => ∀ x ∈ seqOf L r, x ∉ seqOf L r'

instance DistinctSeqs.decidable (L : Limits) (recs : List Record) : Decidable (DistinctSeqs L recs) :=
  inferInstanceAs (Decidable (recs.Pairwise fun r r' => ∀ x ∈ seqOf L r, x ∉ seqOf L r'))

theorem seqOf_of {L : Limits} {r : Record} {clientId : Bytes} {e : QueueEntry}
    (h : decodeOutq L r.1 r.2 = .ok (clientId, e)) : seqOf L r = some (clientId, e.enqueueSeq) := by
  rw [seqOf, h]

theorem entriesAt_append (L : Limits) (b : Lists) (addr : Nat) (recs recs' : List Record) :
    entriesAt L b addr (recs ++ recs') = entriesAt L b addr recs ++ entriesAt L b addr recs' := List.filterMap_append

theorem mem_entriesAt {L : Limits} {b : Lists} {addr : Nat} {recs : List Record} {e : QueueEntry} :
    e ∈ entriesAt L b addr recs ↔ ∃ r ∈ recs, ownedBy L b r = some (addr, e) := by
  rw [entriesAt, List.mem_filterMap]
  refine exists_congr fun r => and_congr_right fun _ => ?_
  rcases ownedBy L b r with _ | ⟨a, x⟩ <;> simp [Option.filter_some]

/-- The client id of a session, as a look finds it, does not depend on its queue. -/
theorem findOrphan_core {b b' : Lists} (h : b.sessions.map SessionSlot.core = b'.sessions.map SessionSlot.core) (cid : Bytes) :
    (findOrphan b cid).map SessionSlot.core = (findOrphan b' cid).map SessionSlot.core := by
  have hfind (xs : List SessionSlot) : (xs.find? (fun o => o.cString = cid)).map SessionSlot.core =
      (xs.map SessionSlot.core).find? (fun o => o.cString = cid) := by
    rw [List.find?_map]
    rfl
  rw [findOrphan, findOrphan, hfind, hfind, h]

theorem ownedBy_core {L : Limits} {b b' : Lists} (h : b.sessions.map SessionSlot.core = b'.sessions.map SessionSlot.core)
    (r : Record) : ownedBy L b r = ownedBy L b' r := by
  unfold ownedBy
  split
  · rfl
  · next cid e _ =>
    have hcore := congrArg (Option.map fun o => (o.addr, e)) (findOrphan_core h cid)
    rw [Option.map_map, Option.map_map] at hcore
    exact hcore

/-- The broker in the middle of the pass: the sessions of `b₀`, holding the entries of the records in `done`. -/
structure Holding (L : Limits) (b₀ : Lists) (done : List Record) (h : Heap) : Prop where
  cores : h.broker.sessions.map SessionSlot.core = b₀.sessions.map SessionSlot.core
  fresh : ∀ o ∈ h.broker.sessions, ∀ e ∈ o.outQ.chain, e.addr < h.nextAddr
  queued : ∀ o ∈ h.broker.sessions, Queued o (entriesAt L b₀ o.addr done)

theorem Holding.start {L : Limits} {h : Heap} (hready : Ready h) : Holding L h.broker [] h where
  cores := rfl
  fresh o ho e he := by
    rw [(hready.empty o ho).1] at he
    cases he
  queued o ho := by
    obtain ⟨hq, hin⟩ := hready.empty o ho
    refine ⟨⟨?_, ?_, ?_⟩, ?_⟩
    · rw [hq]
      exact List.Pairwise.nil
    · rw [hq]
      exact TailQueue.empty_wf
    · rw [hq, hin]
      rfl
    · rw [hq]
      exact .nil

section pass
variable {L : Limits} {b b₀ : Lists} {done : List Record} {h h' : Heap} {r r' : Record} {rc : Except Fault Unit}

theorem ownedBy_eq_some {addr : Nat} {e : QueueEntry} : ownedBy L b r = some (addr, e) ↔
    ∃ clientId o, decodeOutq L r.1 r.2 = .ok (clientId, e) ∧ findOrphan b clientId = some o ∧ o.addr = addr := by
  unfold ownedBy
  cases hdec : decodeOutq L r.1 r.2 with
  | error f => simp
  | ok x =>
    obtain ⟨cid, e'⟩ := x
    constructor
    · intro howned
      obtain ⟨o, ho, heq⟩ := Option.map_eq_some_iff.mp howned
      cases heq
      exact ⟨cid, o, rfl, ho, rfl⟩
    · rintro ⟨clientId, o, hok, ho, rfl⟩
      cases hok
      exact Option.map_eq_some_iff.mpr ⟨o, ho, rfl⟩

/-- Records of one session are of one client id. -/
theorem ownedBy_same (hnodup : (b.sessions.map Node.addr).Nodup) {addr : Nat} {e e' : QueueEntry}
    (hr : ownedBy L b r = some (addr, e)) (hr' : ownedBy L b r' = some (addr, e')) :
    ∃ clientId, decodeOutq L r.1 r.2 = .ok (clientId, e) ∧ decodeOutq L r'.1 r'.2 = .ok (clientId, e') := by
  obtain ⟨cid, o, hdec, hfind, haddr⟩ := ownedBy_eq_some.mp hr
  obtain ⟨cid', o', hdec', hfind', haddr'⟩ := ownedBy_eq_some.mp hr'
  have hsame : o = o' := List.inj_on_of_nodup_map hnodup (List.mem_of_find?_eq_some hfind)
    (List.mem_of_find?_eq_some hfind') (haddr.trans haddr'.symm)
  have hcid : o.cString = cid := by simpa using List.find?_some hfind
  have hcid' : o'.cString = cid' := by simpa using List.find?_some hfind'
  rw [← hcid', ← hsame, hcid] at hdec'
  exact ⟨cid, hdec, hdec'⟩

theorem Holding.nodup (hh : Holding L b₀ done h) (hnodup : (b₀.sessions.map Node.addr).Nodup) :
    (h.broker.sessions.map Node.addr).Nodup := by
  have haddrs := congrArg (List.map SessionSlot.addr) hh.cores
  rw [List.map_map, List.map_map] at haddrs
  exact (show h.broker.sessions.map Node.addr = b₀.sessions.map Node.addr from haddrs) ▸ hnodup

/-- A record that is not restored leaves what the queues hold. -/
theorem Holding.skip (hh : Holding L b₀ done h) (hbroker : h'.broker = h.broker) (hle : h.nextAddr ≤ h'.nextAddr) :
    Holding L b₀ done h' where
  cores := by
    rw [hbroker]
    exact hh.cores
  fresh o ho e he := by
    rw [hbroker] at ho
    exact Nat.lt_of_lt_of_le (hh.fresh o ho e he) hle
  queued o ho := by
    rw [hbroker] at ho
    exact hh.queued o ho

/-- A record that is restored is held by its session, and by no other. -/
theorem Holding.linked {sure : Prop} (hh : Holding L b₀ done h) (hnodup : (b₀.sessions.map Node.addr).Nodup)
    (hlinked : Linked L r.1 r.2 h.broker sure h.nextAddr () h') (hseq : DistinctSeqs L (done ++ [r])) :
    Holding L b₀ (done ++ [r]) h' := by
  obtain ⟨cid, e, o, addr, hdec, hfind, hge, hbroker, hle, -⟩ := hlinked
  have howned : ownedBy L b₀ r = some (o.addr, e) := by
    rw [← ownedBy_core hh.cores]
    exact ownedBy_eq_some.mpr ⟨cid, o, hdec, hfind, rfl⟩
  have hentries (a : Nat) : entriesAt L b₀ a (done ++ [r]) = entriesAt L b₀ a done ++ if o.addr = a then [e] else [] := by
    rw [entriesAt_append]
    congr 1
    rw [entriesAt, List.filterMap_cons, howned, Option.filter_some]
    by_cases ha : o.addr = a <;> simp [ha]
  have hnew : ∀ y ∈ entriesAt L b₀ o.addr done, y.enqueueSeq ≠ e.enqueueSeq := by
    intro y hy
    obtain ⟨r', hr', howned'⟩ := mem_entriesAt.mp hy
    obtain ⟨cid', hdec₁, hdec₂⟩ := ownedBy_same hnodup howned' howned
    have hdistinct := (List.pairwise_append.mp hseq).2.2 r' hr' r List.mem_cons_self (cid', y.enqueueSeq) (seqOf_of hdec₁)
    intro heq
    exact hdistinct (by rw [seqOf_of hdec₂, heq]; rfl)
  have hsessions : h'.broker.sessions = Chain.writeAt o.addr (SessionSlot.link {e with addr}) h.broker.sessions := by
    rw [hbroker]
    rfl
  have hcases {p : SessionSlot} (hp : p ∈ h'.broker.sessions) : (p ∈ h.broker.sessions ∧ o.addr ≠ p.addr) ∨
      ∃ q ∈ h.broker.sessions, o.addr = q.addr ∧ p = q.link {e with addr} := by
    rw [hsessions] at hp
    rcases Chain.mem_writeAt_nodup (hh.nodup hnodup) hp with ⟨hp, hne⟩ | ⟨q, hq, rfl⟩
    · exact .inl ⟨hp, fun heq => hne heq.symm⟩
    · exact .inr ⟨q, Chain.at?_mem hq, (Chain.at?_addr hq).symm, rfl⟩
  refine ⟨?_, ?_, ?_⟩
  · rw [hsessions]
    have hcore : (Chain.writeAt o.addr (SessionSlot.link {e with addr}) h.broker.sessions).map SessionSlot.core =
        h.broker.sessions.map SessionSlot.core := Chain.map_writeAt SessionSlot.core fun _ _ => rfl
    exact hcore.trans hh.cores
  · intro p hp x hx
    rcases hcases hp with ⟨hp, -⟩ | ⟨q, hq, -, rfl⟩
    · have hlt := hh.fresh p hp x hx
      omega
    · rw [link_outQ] at hx
      rcases List.mem_cons.mp ((TailQueue.insert_perm _ _ _).subset hx) with rfl | hx
      · exact hle
      · have hlt := hh.fresh q hq x hx
        omega
  · intro p hp
    rcases hcases hp with ⟨hp, hne⟩ | ⟨q, hq, heq, rfl⟩
    · rw [hentries, if_neg hne, List.append_nil]
      exact hh.queued p hp
    · show Queued _ (entriesAt L b₀ q.addr (done ++ [r]))
      rw [hentries, if_pos heq]
      rw [heq] at hnew
      exact (hh.queued q hq).link (fun x hx => Nat.lt_of_lt_of_le (hh.fresh q hq x hx) hge) hnew

/-- One record of the pass. Only an allocation that fails keeps a record of a session from being restored. -/
theorem Holding.step (hh : Holding L b₀ done h) (hnodup : (b₀.sessions.map Node.addr).Nodup)
    (hseq : DistinctSeqs L (done ++ [r])) (heq : decodeAndInsertOutq L r.1 r.2 h = (rc, h')) :
    Holding L b₀ (if rc.isOk then done ++ [r] else done) h' ∧
    (h.allocs = [] → (ownedBy L b₀ r).isSome → rc.isOk ∧ h'.allocs = []) := by
  have hspec : Spec (Before h.broker (h.allocs = []) h.nextAddr) (decodeAndInsertOutq L r.1 r.2)
      (NotLinked L r.1 r.2 h.broker (h.allocs = []) h.nextAddr) (Linked L r.1 r.2 h.broker (h.allocs = []) h.nextAddr) :=
    decodeAndInsertOutq_spec
  have hleaves := hspec h ⟨rfl, le_refl h.nextAddr, id⟩
  rw [heq] at hleaves
  cases rc with
  | error f =>
    obtain ⟨⟨hbroker, hle, -⟩, hvalid⟩ := hleaves
    refine ⟨hh.skip hbroker hle, fun hsure howned => ?_⟩
    obtain ⟨⟨addr, e⟩, howned⟩ := Option.isSome_iff_exists.mp howned
    rw [← ownedBy_core hh.cores] at howned
    obtain ⟨cid, o, hdec, hfind, -⟩ := ownedBy_eq_some.mp howned
    exact absurd hfind (hvalid hsure cid e o hdec)
  | ok =>
    refine ⟨hh.linked hnodup hleaves hseq, fun hsure _ => ⟨rfl, ?_⟩⟩
    obtain ⟨-, -, -, -, -, -, -, -, -, hallocs⟩ := hleaves
    exact hallocs hsure

/-- The pass: the sessions hold the entries of the records that were restored. -/
theorem Holding.pass (hnodup : (b₀.sessions.map Node.addr).Nodup) (recs : List Record) : ∀ {done : List Record} {h : Heap},
    Holding L b₀ done h → DistinctSeqs L (done ++ recs) →
    Holding L b₀ (done ++ (outqPass L recs h).1) (outqPass L recs h).2 ∧
    (h.allocs = [] → (∀ r ∈ recs, (ownedBy L b₀ r).isSome) → (outqPass L recs h).1 = recs) := by
  induction recs with
  | nil =>
    intro done h hh _
    refine ⟨?_, fun _ _ => rfl⟩
    rw [outqPass, List.append_nil]
    exact hh
  | cons r recs ih =>
    intro done h hh hseq
    have hone : DistinctSeqs L (done ++ [r]) := hseq.sublist ((List.singleton_sublist.mpr List.mem_cons_self).append_left done)
    rcases heq : decodeAndInsertOutq L r.1 r.2 h with ⟨rc, h'⟩
    obtain ⟨hstep, hok⟩ := hh.step hnodup hone heq
    have hpass : outqPass L (r :: recs) h =
        (if rc.isOk then (r :: (outqPass L recs h').1, (outqPass L recs h').2) else outqPass L recs h') := by
      rw [outqPass, heq]
    rw [hpass]
    cases hrc : rc.isOk with
    | true =>
      rw [hrc, if_pos rfl] at hstep
      rw [if_pos rfl]
      obtain ⟨hrest, hall⟩ := ih hstep (by rw [List.append_assoc]; exact hseq)
      rw [List.append_assoc] at hrest
      refine ⟨hrest, fun hsure hvalid => ?_⟩
      rw [hall (hok hsure (hvalid r List.mem_cons_self)).2 fun r' hr' => hvalid r' (List.mem_cons_of_mem r hr')]
    | false =>
      rw [hrc, if_neg Bool.false_ne_true] at hstep
      rw [if_neg Bool.false_ne_true]
      obtain ⟨hrest, -⟩ := ih hstep (hseq.sublist ((List.sublist_cons_self r recs).append_left done))
      refine ⟨hrest, fun hsure hvalid => ?_⟩
      have hloaded := (hok hsure (hvalid r List.mem_cons_self)).1
      rw [hrc] at hloaded
      cases hloaded

end pass

/-! ### Any two orders -/

/-- A session without the addresses of its entries. -/
def SessionSlot.bare (o : SessionSlot) : SessionSlot :=
  {o with outQ := {chain := o.outQ.chain.map QueueEntry.bare, tail := none, count := o.outQ.count}}

theorem Queued.bare_eq {o o' : SessionSlot} {es es' : List QueueEntry} (h : Queued o es) (h' : Queued o' es')
    (hes : es.Perm es') (hcore : o.core = o'.core) : o.bare = o'.bare := by
  have hchain := h.unique h' hes
  have hlen := congrArg List.length hchain
  have hcount := congrArg (List.countP QueueEntry.inFlight) hchain
  rw [List.length_map, List.length_map] at hlen
  rw [List.countP_map, List.countP_map] at hcount
  have hq : o.outQ.count = o'.outQ.count := by rw [h.wf.count, h'.wf.count, hlen]
  have hin : o.outQInflight = o'.outQInflight := by
    rw [h.inflight, h'.inflight]
    exact congrArg Nat.cast hcount
  show {o.core with outQ := ⟨o.outQ.chain.map QueueEntry.bare, none, o.outQ.count⟩, outQInflight := o.outQInflight} = o'.bare
  rw [hcore, hchain, hq, hin]
  rfl

/-- The sessions of two brokers that hold the same. -/
theorem bare_eq_of_queued {f g : Nat → List QueueEntry} (hfg : ∀ a, (f a).Perm (g a)) : ∀ {xs ys : List SessionSlot},
    xs.map SessionSlot.core = ys.map SessionSlot.core → (∀ o ∈ xs, Queued o (f o.addr)) → (∀ o ∈ ys, Queued o (g o.addr)) →
    xs.map SessionSlot.bare = ys.map SessionSlot.bare := by
  intro xs
  induction xs with
  | nil =>
    intro ys hcores _ _
    rw [List.map_eq_nil_iff.mp hcores.symm]
  | cons x xs ih =>
    intro ys hcores hx hy
    cases ys with
    | nil => cases hcores
    | cons y ys =>
      obtain ⟨hcore, hcores⟩ := List.cons.inj hcores
      have haddr : x.core.addr = y.core.addr := congrArg SessionSlot.addr hcore
      have hhead := (hx x List.mem_cons_self).bare_eq (hy y List.mem_cons_self) (haddr ▸ hfg x.core.addr) hcore
      rw [List.map_cons, List.map_cons, hhead, ih hcores (fun o ho => hx o (List.mem_cons_of_mem x ho))
        fun o ho => hy o (List.mem_cons_of_mem y ho)]

/-- Whatever allocations fail, every queue is in the order of its sequence and holds the records that were restored.
In another order of the records the queues are the same, if the same ones were restored, and so when nothing fails:
then all of them are. -/
theorem outqPass_orderIndependent {L : Limits} {now : Nat} {h : Heap} (hrestored : Restored L now h)
    {recs recs' : List Record} (hperm : recs.Perm recs') (hvalid : ∀ r ∈ recs, (ownedBy L h.broker r).isSome)
    (hseq : DistinctSeqs L recs) (allocs allocs' : List Bool) :
    let p := outqPass L recs {h with allocs}
    let p' := outqPass L recs' {h with allocs := allocs'}
    (∀ o ∈ p.2.broker.sessions, Queued o (entriesAt L h.broker o.addr p.1)) ∧
    (allocs = [] → p.1 = recs) ∧
    (allocs = [] ∧ allocs' = [] ∨ p.1.Perm p'.1 →
      p.2.broker.sessions.map SessionSlot.bare = p'.2.broker.sessions.map SessionSlot.bare) := by
  have hready := hrestored.ready
  have hstart (allocs : List Bool) : Holding L h.broker [] {h with allocs} :=
    .start (h := {h with allocs}) (hready.of_same rfl (le_refl _))
  have hseq' : DistinctSeqs L recs' := by
    exact hperm.pairwise hseq fun hrel x hx hx' => hrel x hx' hx
  obtain ⟨hholding, hall⟩ := Holding.pass hready.nodup recs (hstart allocs) hseq
  obtain ⟨hholding', hall'⟩ := Holding.pass hready.nodup recs' (hstart allocs') hseq'
  have hloaded (hnone : allocs = []) := hall hnone hvalid
  refine ⟨hholding.queued, hloaded, fun hsame => ?_⟩
  have hdone : (outqPass L recs {h with allocs}).1.Perm (outqPass L recs' {h with allocs := allocs'}).1 := by
    rcases hsame with ⟨hnone, hnone'⟩ | hdone
    · rw [hloaded hnone, hall' hnone' fun r hr => hvalid r (hperm.symm.subset hr)]
      exact hperm
    · exact hdone
  have hentries (a : Nat) : (entriesAt L h.broker a (outqPass L recs {h with allocs}).1).Perm
      (entriesAt L h.broker a (outqPass L recs' {h with allocs := allocs'}).1) := hdone.filterMap _
  exact bare_eq_of_queued hentries (hholding.cores.trans hholding'.cores.symm) hholding.queued
    hholding'.queued

/-- A record of the queue of `a`. -/
def sampleRecord (packetId seq : Nat) (state : OutPubState) : Record :=
  ([0x61, 0] ++ BigEndian.write 2 packetId,
    frameRecord .outq (outPubBody {
      addr := 0, topic := [0x74], payload := [0x70], qos := .qos1, packetId, retain := false, state, retransmitDup := false
      enqTime := 7, enqueueSeq := seq, expirySec := 0, protocolLevel := 5, props := []}))

/-- The broker after the session of `a` is restored. -/
def sampleRestored : Heap :=
  (restoreRecord {} 100 .session [0x61] (frameRecord .session (sessionBody [0x61] 5 60 90)) {}).2

/-- Three records given from the last to the first, and two of them the other way round. -/
theorem outqPass_sample :
    let recs := [sampleRecord 3 9 .queued, sampleRecord 2 5 .publishSent, sampleRecord 1 4 .pubrelSent]
    let recs' := [sampleRecord 3 9 .queued, sampleRecord 1 4 .pubrelSent, sampleRecord 2 5 .publishSent]
    (outqPass {} recs sampleRestored).2.broker.sessions.map SessionSlot.bare =
      (outqPass {} recs' sampleRestored).2.broker.sessions.map SessionSlot.bare ∧
    (outqPass {} recs sampleRestored).2.broker.sessions.map (fun o =>
      (o.outQ.chain.map (·.enqueueSeq), o.outQ.tail, o.outQ.count, o.outQInflight)) = [([4, 5, 9], some 3, 3, 2)] := by
  have hrestored : Restored {} 100 sampleRestored := .record (.start []) (by decide)
  have hperm : [sampleRecord 3 9 .queued, sampleRecord 2 5 .publishSent, sampleRecord 1 4 .pubrelSent].Perm
      [sampleRecord 3 9 .queued, sampleRecord 1 4 .pubrelSent, sampleRecord 2 5 .publishSent] := (List.Perm.swap ..).cons _
  have hsame := outqPass_orderIndependent hrestored hperm (by decide +kernel) (by decide +kernel) [] []
  exact ⟨hsame.2.2 (.inl ⟨rfl, rfl⟩), by decide +kernel⟩

end WolfMqtt.Persist.Load
