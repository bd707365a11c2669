import WolfMqtt.Broker.Retention

/-! The retained store of the static-memory build: an array of slots.

A slot in use holds a message; a message goes where its topic already stands, or into
the first free slot. What the delivery to a client does with each message belongs to
the client; here it only decides whether the loop goes on. -/
namespace WolfMqtt.Static
open Broker Ledger

/-! ### The functions -/

/-- `broker->retained`, one place per slot: empty when it is not in use. `goesOn` says whether
the delivery loop goes on after the next message it delivers; it does once the script runs
out. -/
structure RetainedSlots where
  slots : List (Option RetainedMsg)
  env : Env := {}
  goesOn : List Bool := []
deriving Repr, DecidableEq

/-- A slot, emptied if its message has expired. -/
def reapSlot (now : Nat) : Option RetainedMsg → Option RetainedMsg
  | none => none
  | some m => if retainedExpired now m then none else some m

/-- `BrokerRetained_ReapExpired` -/
def retainedReapExpired (now : Nat) (s : RetainedSlots) : RetainedSlots := {s with slots := s.slots.map (reapSlot now)}

/-- The slot a message for this topic goes into. -/
def slotFor (topic : Bytes) (slots : List (Option RetainedMsg)) : Option Nat :=
  (slots.findIdx? (fun s => s.any (fun m => m.topic = topic))).or (slots.findIdx? Option.isNone)

/-- `BrokerRetained_Store`, once expired messages are out of the way. -/
def retainedInsert (L : Limits) (topic payload : Bytes) (qos : QoS) (expirySec : Nat) (s : RetainedSlots) : Int × RetainedSlots :=
  match slotFor topic s.slots with
  | none => (Code.memory, s)
  | some i =>
    if topic.length ≥ L.maxTopicLen then (Code.outOfBuffer, s)
    else if payload.length > L.maxPayloadLen then (Code.outOfBuffer, s)
    else
      let now := s.env.getTime
      (Code.success, {s with slots := s.slots.set i (some {topic, payload, storeTime := now.1, expirySec, qos}), env := now.2})

/-- `BrokerRetained_Store` -/
def retainedStore (L : Limits) (topic payload : Bytes) (qos : QoS) (expirySec : Nat) (s : RetainedSlots) : Int × RetainedSlots :=
  let now := s.env.getTime
  retainedInsert L topic payload qos expirySec (retainedReapExpired now.1 {s with env := now.2})

/-- The slots after the first in use with this topic is cleared. -/
def clearTopic (topic : Bytes) : List (Option RetainedMsg) → List (Option RetainedMsg)
  | [] => []
  | s :: rest => if s.any (fun m => m.topic = topic) then none :: rest else s :: clearTopic topic rest

/-- `BrokerRetained_Delete` -/
def retainedDelete (topic : Bytes) (s : RetainedSlots) : RetainedSlots := {s with slots := clearTopic topic s.slots}

/-- The loop of `BrokerRetained_DeliverToClient` over the slots that are left. A slot with an
empty topic is passed over, expired or not. -/
def deliverLoop (filter : Bytes) (now : Nat) : List Bool → List (Option RetainedMsg) → Int × List (Option RetainedMsg)
  | _, [] => (Code.success, [])
  | goesOn, none :: rest => ((deliverLoop filter now goesOn rest).1, none :: (deliverLoop filter now goesOn rest).2)
  | goesOn, some m :: rest =>
    if m.topic.isEmpty then ((deliverLoop filter now goesOn rest).1, some m :: (deliverLoop filter now goesOn rest).2)
    else if retainedExpired now m then ((deliverLoop filter now goesOn rest).1, none :: (deliverLoop filter now goesOn rest).2)
    else if topicMatch filter m.topic then
      if goesOn.head? = some false then (Code.memory, some m :: rest)
      else ((deliverLoop filter now goesOn.tail rest).1, some m :: (deliverLoop filter now goesOn.tail rest).2)
    else ((deliverLoop filter now goesOn rest).1, some m :: (deliverLoop filter now goesOn rest).2)

/-- `BrokerRetained_DeliverToClient` -/
def retainedDeliverToClient (filter : Bytes) (s : RetainedSlots) : Int × RetainedSlots :=
  let now := s.env.getTime
  let r := deliverLoop filter now.1 s.goesOn s.slots
  (r.1, {s with slots := r.2, env := now.2})

/-! ### The map -/

/-- The messages in use. -/
def RetainedSlots.entries (s : RetainedSlots) : List RetainedMsg := s.slots.filterMap id

def exec (L : Limits) (s : RetainedSlots) : RetainedCall → Int × RetainedSlots
  | .store topic payload qos expirySec => retainedStore L topic payload qos expirySec s
  | .delete topic => (Code.success, retainedDelete topic s)
  | .reapExpired now => (Code.success, retainedReapExpired now s)
  | .deliverToClient _ filter _ => retainedDeliverToClient filter s

/-- The static-memory build: a store is unhindered when topic and payload fit their slot. -/
def slotRetained : RetainedBuild RetainedSlots where
  env s := s.env
  entries s := s.entries
  Empty L s := s.slots = List.replicate L.maxRetained none
  exec L c s := exec L s c
  Elsewhere s s' := s'.slots = s.slots
  Unhindered L topic payload _ := topic.length < L.maxTopicLen ∧ payload.length ≤ L.maxPayloadLen

section slots
variable {L : Limits} {now : Nat} {topic : Bytes} {slots : List (Option RetainedMsg)} {s : RetainedSlots}

/-- As many slots as the build has, and no topic in two of them. -/
structure SlotsOk (L : Limits) (s : RetainedSlots) : Prop where
  unique : s.entries.Pairwise (fun x y => x.topic ≠ y.topic)
  size : s.slots.length = L.maxRetained

theorem entries_reap (now : Nat) (slots : List (Option RetainedMsg)) :
    (slots.map (reapSlot now)).filterMap id = unexpired now (slots.filterMap id) := by
  induction slots with
  | nil => rfl
  | cons s rest ih =>
    cases s with
    | none => exact ih
    | some m =>
      show ((if retainedExpired now m then none else some m) :: rest.map (reapSlot now)).filterMap id =
        unexpired now (m :: rest.filterMap id)
      unfold unexpired at ih ⊢
      rw [List.filter_cons, ← ih]
      cases retainedExpired now m <;> rfl

theorem entries_clearTopic (topic : Bytes) (slots : List (Option RetainedMsg)) :
    (clearTopic topic slots).filterMap id = (slots.filterMap id).eraseP (fun m => m.topic = topic) := by
  induction slots with
  | nil => rfl
  | cons s rest ih =>
    cases s with
    | none => simpa [clearTopic] using ih
    | some m =>
      by_cases hm : m.topic = topic
      · simp [clearTopic, hm]
      · simpa [clearTopic, hm] using ih

theorem length_clearTopic (topic : Bytes) (slots : List (Option RetainedMsg)) :
    (clearTopic topic slots).length = slots.length := by
  induction slots with
  | nil => rfl
  | cons s rest ih =>
    unfold clearTopic
    split
    · rfl
    · simpa using ih

/-- Delivery keeps the slots, and drops expired messages only. -/
theorem deliverLoop_spec (filter : Bytes) (now : Nat) (goesOn : List Bool) (slots : List (Option RetainedMsg)) :
    (deliverLoop filter now goesOn slots).2.length = slots.length ∧
      ((deliverLoop filter now goesOn slots).2.filterMap id).Sublist (slots.filterMap id) ∧
      ∀ m ∈ slots.filterMap id, m ∈ (deliverLoop filter now goesOn slots).2.filterMap id ∨ retainedExpired now m = true := by
  induction slots generalizing goesOn with
  | nil => exact ⟨rfl, List.Sublist.refl _, fun m hm => .inl hm⟩
  | cons s rest ih =>
    cases s with
    | none =>
      obtain ⟨hlen, hsub, hkept⟩ := ih goesOn
      exact ⟨congrArg (· + 1) hlen, hsub, hkept⟩
    | some m =>
      have hpass : ∀ go, ((some m :: (deliverLoop filter now go rest).2).length = (some m :: rest).length ∧
          ((some m :: (deliverLoop filter now go rest).2).filterMap id).Sublist ((some m :: rest).filterMap id) ∧
          ∀ x ∈ (some m :: rest).filterMap id, x ∈ (some m :: (deliverLoop filter now go rest).2).filterMap id ∨
            retainedExpired now x = true) := by
        intro go
        obtain ⟨hlen, hsub, hkept⟩ := ih go
        refine ⟨congrArg (· + 1) hlen, hsub.cons_cons m, fun x hx => ?_⟩
        rcases List.mem_cons.mp hx with rfl | hx
        · exact .inl List.mem_cons_self
        · exact (hkept x hx).imp_left (List.mem_cons_of_mem _)
      unfold deliverLoop
      split
      · exact hpass goesOn
      split
      · rename_i hexp
        obtain ⟨hlen, hsub, hkept⟩ := ih goesOn
        refine ⟨congrArg (· + 1) hlen, hsub.cons m, fun x hx => ?_⟩
        rcases List.mem_cons.mp hx with rfl | hx
        · exact .inr hexp
        · exact hkept x hx
      split
      · split
        · exact ⟨rfl, List.Sublist.refl _, fun x hx => .inl hx⟩
        · exact hpass goesOn.tail
      · exact hpass goesOn

/-! ### Storing -/

/-- A message's slot holds the old message for its topic, or is free while no slot has the topic. -/
theorem slotFor_some {i : Nat} (h : slotFor topic slots = some i) :
    ∃ pre old post, slots = pre ++ old :: post ∧ (∀ y, slots.set i y = pre ++ y :: post) ∧
      (old.any (fun m => m.topic = topic) = true ∨ old = none ∧ ∀ m ∈ slots.filterMap id, m.topic ≠ topic) := by
  have hsplit : ∀ hi : i < slots.length, slots = slots.take i ++ slots[i] :: slots.drop (i + 1) ∧
      ∀ y, slots.set i y = slots.take i ++ y :: slots.drop (i + 1) := by
    refine fun hi => ⟨?_, fun y => ?_⟩
    · rw [List.getElem_cons_drop, List.take_append_drop]
    · rw [List.set_eq_take_append_cons_drop, if_pos hi]
  unfold slotFor at h
  cases hknown : slots.findIdx? (fun s => s.any (fun m => m.topic = topic)) with
  | some j =>
    rw [hknown] at h
    cases h
    obtain ⟨hi, hany, -⟩ := List.findIdx?_eq_some_iff_getElem.mp hknown
    exact ⟨_, _, _, (hsplit hi).1, (hsplit hi).2, .inl hany⟩
  | none =>
    rw [hknown, Option.none_or] at h
    obtain ⟨hi, hnone, -⟩ := List.findIdx?_eq_some_iff_getElem.mp h
    refine ⟨_, _, _, (hsplit hi).1, (hsplit hi).2, .inr ⟨Option.isNone_iff_eq_none.mp hnone, fun m hm => ?_⟩⟩
    have hall := List.findIdx?_eq_none_iff.mp hknown (some m) (by simpa using hm)
    simpa using hall

theorem slotFor_none (h : slotFor topic slots = none) : (slots.filterMap id).length = slots.length := by
  obtain ⟨-, hfull⟩ := Option.or_eq_none_iff.mp h
  have hall := List.findIdx?_eq_none_iff.mp hfull
  rw [List.length_filterMap_eq_countP, List.countP_eq_length]
  intro s hs
  simpa using hall s hs

/-- A message in its slot: all others but the one for its topic stay. -/
theorem set_slotFor {i : Nat} (h : slotFor topic slots = some i)
    (hunique : (slots.filterMap id).Pairwise (fun x y => x.topic ≠ y.topic)) {m : RetainedMsg} (hm : m.topic = topic) :
    ((slots.set i (some m)).filterMap id).Pairwise (fun x y => x.topic ≠ y.topic) ∧
      ∀ x, x ∈ (slots.set i (some m)).filterMap id ↔ x = m ∨ x ∈ slots.filterMap id ∧ x.topic ≠ topic := by
  obtain ⟨pre, old, post, heq, hset, hold⟩ := slotFor_some h
  have hput : ((slots.set i (some m)).filterMap id).Perm (m :: (pre.filterMap id ++ post.filterMap id)) := by
    rw [hset, List.filterMap_append]
    exact List.perm_middle
  have hrest : (pre.filterMap id ++ post.filterMap id).Pairwise (fun x y => x.topic ≠ y.topic) ∧
      ∀ x, x ∈ pre.filterMap id ++ post.filterMap id ↔ x ∈ slots.filterMap id ∧ x.topic ≠ topic := by
    rcases hold with hold | ⟨rfl, hnew⟩
    · obtain ⟨o, rfl, ho⟩ := (Option.any_eq_true _ _).mp hold
      have ho : o.topic = topic := by simpa using ho
      have hperm : (slots.filterMap id).Perm (o :: (pre.filterMap id ++ post.filterMap id)) := by
        rw [heq, List.filterMap_append]
        exact List.perm_middle
      obtain ⟨hne, hrest⟩ := List.pairwise_cons.mp ((hperm.pairwise_iff fun hxy => Ne.symm hxy).mp hunique)
      refine ⟨hrest, fun x => ?_⟩
      rw [hperm.mem_iff, List.mem_cons]
      constructor
      · exact fun hx => ⟨.inr hx, fun hxt => hne x hx (ho.trans hxt.symm)⟩
      · rintro ⟨rfl | hx, hxt⟩
        · exact absurd ho hxt
        · exact hx
    · have hsame : slots.filterMap id = pre.filterMap id ++ post.filterMap id := by
        rw [heq, List.filterMap_append]
        rfl
      rw [hsame] at hunique hnew ⊢
      exact ⟨hunique, fun x => ⟨fun hx => ⟨hx, hnew x hx⟩, And.left⟩⟩
  refine ⟨(hput.pairwise_iff fun hxy => Ne.symm hxy).mpr (List.pairwise_cons.mpr ⟨fun x hx => ?_, hrest.1⟩), fun x => ?_⟩
  · rw [hm]
    exact Ne.symm ((hrest.2 x).mp hx).2
  · rw [hput.mem_iff, List.mem_cons, hrest.2]

/-- A Store either fails, when it drops expired messages only and its message does not fit or the
slots are full; or it puts its message in. -/
theorem retainedStore_cases (h : SlotsOk L s) (topic payload : Bytes) (qos : QoS) (expirySec : Nat) :
    ((retainedStore L topic payload qos expirySec s).1 ≠ Code.success ∧
      SlotsOk L (retainedStore L topic payload qos expirySec s).2 ∧
      (retainedStore L topic payload qos expirySec s).2.entries = unexpired s.env.getTime.1 s.entries ∧
      (topic.length < L.maxTopicLen ∧ payload.length ≤ L.maxPayloadLen →
        (unexpired s.env.getTime.1 s.entries).length = L.maxRetained)) ∨
    ((retainedStore L topic payload qos expirySec s).1 = Code.success ∧
      SlotsOk L (retainedStore L topic payload qos expirySec s).2 ∧
      ∀ x, x ∈ (retainedStore L topic payload qos expirySec s).2.entries ↔
        x = {topic, payload, storeTime := s.env.getTime.2.getTime.1, expirySec, qos} ∨
          x ∈ unexpired s.env.getTime.1 s.entries ∧ x.topic ≠ topic) := by
  let s₁ := retainedReapExpired s.env.getTime.1 {s with env := s.env.getTime.2}
  have hkept : s₁.entries = unexpired s.env.getTime.1 s.entries := entries_reap _ _
  have hreap : SlotsOk L s₁ := by
    refine ⟨?_, (List.length_map _).trans h.size⟩
    rw [hkept]
    exact h.unique.sublist List.filter_sublist
  show ((retainedInsert L topic payload qos expirySec s₁).1 ≠ _ ∧ SlotsOk L (retainedInsert L topic payload qos expirySec s₁).2 ∧
    (retainedInsert L topic payload qos expirySec s₁).2.entries = _ ∧ _) ∨
    ((retainedInsert L topic payload qos expirySec s₁).1 = _ ∧ SlotsOk L (retainedInsert L topic payload qos expirySec s₁).2 ∧
      ∀ x, x ∈ (retainedInsert L topic payload qos expirySec s₁).2.entries ↔ _)
  rw [← hkept]
  have htime : s₁.env = s.env.getTime.2 := rfl
  rw [← htime]
  generalize s₁ = s₁ at hreap
  unfold retainedInsert
  cases hslot : slotFor topic s₁.slots with
  | none =>
    refine .inl ⟨?_, hreap, rfl, fun _ => (slotFor_none hslot).trans hreap.size⟩
    show Code.memory ≠ Code.success
    decide
  | some i =>
    dsimp only
    split
    · rename_i hlong
      refine .inl ⟨?_, hreap, rfl, fun hfit => absurd hfit.1 (Nat.not_lt.mpr hlong)⟩
      show Code.outOfBuffer ≠ Code.success
      decide
    split
    · rename_i hlong
      refine .inl ⟨?_, hreap, rfl, fun hfit => absurd hfit.2 (Nat.not_le.mpr hlong)⟩
      show Code.outOfBuffer ≠ Code.success
      decide
    · obtain ⟨hunique, hmem⟩ := set_slotFor hslot hreap.unique
        (m := {topic, payload, storeTime := s₁.env.getTime.1, expirySec, qos}) rfl
      exact .inr ⟨rfl, ⟨hunique, (List.length_set ..).trans hreap.size⟩, hmem⟩

/-! ### Both builds -/

theorem slotRetained_call (h : SlotsOk L s) {ledger : List (Deed Bytes RetainedMsg Nat)}
    (htells : Tells RetainedMsg.topic (fun now m => retainedExpired now m = true) ledger s.entries) (c : RetainedCall) :
    SlotsOk L (exec L s c).2 ∧ Tells RetainedMsg.topic (fun now m => retainedExpired now m = true)
      (c.deed s.env (exec L s c).1 :: ledger) (exec L s c).2.entries := by
  have hreaps : ∀ now, Tells RetainedMsg.topic (fun now m => retainedExpired now m = true) (.look now :: ledger)
      (unexpired now s.entries) := by
    refine fun now => htells.look now List.filter_sublist fun m hm => ?_
    rw [mem_unexpired]
    cases hexp : retainedExpired now m with
    | true => exact .inr rfl
    | false => exact .inl ⟨hm, rfl⟩
  cases c with
  | store topic payload qos expirySec =>
    show SlotsOk L (retainedStore L topic payload qos expirySec s).2 ∧
      Tells _ _ (RetainedCall.deed s.env (retainedStore L topic payload qos expirySec s).1 _ :: ledger)
        (retainedStore L topic payload qos expirySec s).2.entries
    rcases retainedStore_cases h topic payload qos expirySec with ⟨hrc, hok, hentries, -⟩ | ⟨hrc, hok, hmem⟩
    · refine ⟨hok, ?_⟩
      rw [RetainedCall.deed_failed hrc, hentries]
      exact hreaps _
    · refine ⟨hok, ?_⟩
      rw [RetainedCall.deed_stored hrc]
      refine htells.put _ _ hok.unique fun x => ?_
      rw [hmem, mem_unexpired, and_assoc, Bool.not_eq_true]
  | delete topic =>
    have hentries : (retainedDelete topic s).entries = s.entries.filter (fun m => m.topic ≠ topic) :=
      (entries_clearTopic topic s.slots).trans (eraseP_key h.unique topic)
    have hok : SlotsOk L (retainedDelete topic s) := by
      refine ⟨?_, (length_clearTopic topic s.slots).trans h.size⟩
      rw [hentries]
      exact h.unique.sublist List.filter_sublist
    refine ⟨hok, htells.erase topic hok.unique fun m => ?_⟩
    show m ∈ (retainedDelete topic s).entries ↔ _
    rw [hentries, List.mem_filter, decide_eq_true_iff]
  | reapExpired now =>
    have hentries : (retainedReapExpired now s).entries = unexpired now s.entries := entries_reap now s.slots
    show SlotsOk L (retainedReapExpired now s) ∧ Tells _ _ _ (retainedReapExpired now s).entries
    refine ⟨⟨?_, (List.length_map _).trans h.size⟩, ?_⟩
    · rw [hentries]
      exact h.unique.sublist List.filter_sublist
    · rw [hentries]
      exact hreaps now
  | deliverToClient a filter subQos =>
    obtain ⟨hlen, hsub, hkept⟩ := deliverLoop_spec filter s.env.getTime.1 s.goesOn s.slots
    exact ⟨⟨h.unique.sublist hsub, hlen.trans h.size⟩, htells.look _ hsub hkept⟩

theorem slotRetained_calls {ledger : List (Deed Bytes RetainedMsg Nat)} (h : Calls slotRetained L ledger s) :
    SlotsOk L s ∧ Tells RetainedMsg.topic (fun now m => retainedExpired now m = true) ledger s.entries := by
  induction h with
  | @empty s hempty =>
    have hnil : s.entries = [] := by
      rw [RetainedSlots.entries, show s.slots = _ from hempty]
      simp
    refine ⟨⟨?_, ?_⟩, ?_⟩
    · rw [hnil]
      exact List.Pairwise.nil
    · rw [show s.slots = _ from hempty, List.length_replicate]
    · rw [hnil]
      exact .nil
  | call _ c ih => exact slotRetained_call ih.1 ih.2 c
  | @elsewhere ledger s s' _ he ih =>
    have hentries : s'.entries = s.entries := congrArg (List.filterMap id) he
    exact ⟨⟨hentries ▸ ih.1.unique, (congrArg List.length he).trans ih.1.size⟩, hentries ▸ ih.2⟩

theorem slotRetained_boundedMap {ledger : List (Deed Bytes RetainedMsg Nat)} (h : Calls slotRetained L ledger s) :
    BoundedMap slotRetained L ledger s := by
  obtain ⟨hok, htells⟩ := slotRetained_calls h
  refine ⟨htells, ?_, fun topic payload qos expirySec hrc m => ?_, fun topic payload qos expirySec hrc hfits => ?_⟩
  · show (s.slots.filterMap id).length ≤ L.maxRetained
    rw [← hok.size]
    exact List.length_filterMap_le _ _
  · rcases retainedStore_cases hok topic payload qos expirySec with ⟨-, -, hentries, -⟩ | ⟨hrc', -⟩
    · show m ∈ (retainedStore L topic payload qos expirySec s).2.entries ↔ _
      rw [hentries]
      exact mem_unexpired
    · exact absurd hrc' hrc
  · rcases retainedStore_cases hok topic payload qos expirySec with ⟨-, -, -, hfull⟩ | ⟨hrc', -⟩
    · exact hfull hfits
    · exact absurd hrc' hrc

end slots

/-- In both builds the retained store is a bounded map from topics to the last message stored,
whatever calls were made and whichever of its allocations failed; the list on the heap has
its length beside it. -/
theorem retained_boundedMap (L : Limits) (ledger : List (Deed Bytes RetainedMsg Nat)) :
    (∀ b, Calls heapRetained L ledger b → BoundedMap heapRetained L ledger b ∧ b.retainedCount = b.retained.length) ∧
    ∀ s, Calls slotRetained L ledger s → BoundedMap slotRetained L ledger s :=
  ⟨fun _ h => heapRetained_boundedMap h, fun _ h => slotRetained_boundedMap h⟩

/-- A message that is stored twice, with another payload. -/
def storeAgain (payload : Bytes) : RetainedCall := .store [0x74] payload .qos0 0

/-- The second payload is what both stores hold. -/
theorem retained_boundedMap_storeAgain :
    (∀ m ∈ ((storeAgain [2]).exec {} ((storeAgain [1]).exec {} ({} : MqttBroker)).2).2.retained, m.payload = [2]) ∧
    ∀ m ∈ (exec {} (exec {} {slots := List.replicate 16 none} (storeAgain [1])).2 (storeAgain [2])).2.entries, m.payload = [2] := by
  have hempty : Calls heapRetained {} [] {} := .empty ⟨rfl, rfl⟩
  have hempty' : Calls slotRetained {} [] {slots := List.replicate 16 none} := .empty rfl
  have hheap := ((retained_boundedMap {} _).1 _ ((hempty.call (storeAgain [1])).call (storeAgain [2]))).1.tells.sound
  have hslots := ((retained_boundedMap {} _).2 _ ((hempty'.call (storeAgain [1])).call (storeAgain [2]))).tells.sound
  have hlast : ∀ (t t' u u' : Nat) (m : RetainedMsg), lastPut RetainedMsg.topic
      [Deed.put t ⟨[0x74], [2], t', 0, .qos0⟩, Deed.put u ⟨[0x74], [1], u', 0, .qos0⟩] m.topic = some m → m.payload = [2] := by
    intro t t' u u' m h
    simp only [lastPut] at h
    split at h
    · cases h
      rfl
    · cases h
  exact ⟨fun m hm => hlast _ _ _ _ m (hheap m hm), fun m hm => hlast _ _ _ _ m (hslots m hm)⟩

end WolfMqtt.Static
