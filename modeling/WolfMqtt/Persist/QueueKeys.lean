import WolfMqtt.Lib.Separator
import WolfMqtt.Persist.QueueOrder

/-! Keys of queue records, and which of them a client's records are deleted by.

A key is the client id, a zero and the packet id. Everything that looks for the keys of one client looks for the
client id with the zero behind it, and a client id has no zero of its own. -/
namespace WolfMqtt.Persist.Load

open Broker
open Agree (bind_eq_ok ok_bind)

/-! ### Which keys are selected -/

/-- Does a key begin with the first `cidLen` bytes of the client id, and a zero? Shorter ones than `least` do not. -/
def keyBegins (least : Nat) (clientId : Bytes) (cidLen : Nat) (key : Bytes) : Except Fault Bool :=
  if key.length < least then .ok false
  else do
    if (← readBytes key 0 cidLen) ≠ (← readBytes clientId 0 cidLen) then .ok false
    else .ok ((← readByte key cidLen) = 0)

/-- `wmqb_delq_iter_cb` on a key. -/
def delqMatches (clientId key : Bytes) : Except Fault Bool :=
  let cidLen := clientId.length % 65536
  keyBegins (cidLen + 1) clientId cidLen key

/-- `wmqb_static_delq_iter_cb` on a key: the sum is a `word16`. -/
def staticDelqMatches (clientId key : Bytes) : Except Fault Bool :=
  let cidLen := clientId.length % 65536
  keyBegins ((cidLen + 1) % 65536) clientId cidLen key

/-- The session of `wmqb_ended_outq_iter_cb` that a key is held against. -/
def endedMatches (ended key : Bytes) : Except Fault Bool :=
  if key.length < ended.length + 1 then .ok false
  else do
    if (← readByte key ended.length) ≠ 0 then .ok false
    else .ok ((← readBytes key 0 ended.length) = ended)

/-! ### Dynamic memory: all keys first -/

/-- Space for a node of a list of keys and for its key, and what allocations are left. -/
def mallocNode : List Bool → Bool × List Bool
  | [] => (true, [])
  | false :: rest => (false, rest)
  | [true] => (true, [])
  | true :: ok :: rest => (ok, rest)

/-- `wmqb_delq_iter_cb` over the records: the keys collected, the last one first. -/
def collectKeys (clientId : Bytes) : List Record → List Bool → List Bytes → Except Fault (List Bytes)
  | [], _, keys => .ok keys
  | r :: rs, allocs, keys => do
    if ← delqMatches clientId r.1 then
      let (ok, allocs) := mallocNode allocs
      if ok then collectKeys clientId rs allocs (r.1 :: keys) else .ok keys
    else collectKeys clientId rs allocs keys

def kvDels (keys : List Bytes) (kv : Kv) : Kv := keys.foldl (fun kv key => kvDel .outq key kv) kv

/-- `BrokerPersist_DelOutQueue`: the number of records deleted, and the store. -/
def dynamicDelOutQueue (clientId : Bytes) (allocs : List Bool) (order : List Record → List Record) (kv : Kv) :
    Except Fault (Nat × Kv) := do
  let keys ← collectKeys clientId (order (kv .outq)) allocs []
  .ok (keys.length, kvDels keys kv)

/-! ### Static memory: one key in each pass -/

/-- The room for a key. -/
def keyCap : Nat := 256 + 3

/-- `wmqb_static_delq_iter_cb` over the records: the first key of the client. -/
def staticDelqScan (clientId : Bytes) : List Record → Except Fault (Option Bytes)
  | [] => .ok none
  | r :: rs => do
    if ← staticDelqMatches clientId r.1 then
      if r.1.length > keyCap then .error (.code Code.outOfBuffer) else .ok (some r.1)
    else staticDelqScan clientId rs

/-- `BrokerPersist_DelOutQueue`, after `deleted` passes: what it returns and the store, if that many more are enough. -/
def staticDelOutQueue (clientId : Bytes) (order : Nat → List Record → List Record) :
    Nat → Nat → Kv → Option (Except Fault Nat × Kv)
  | 0, _, _ => none
  | passes + 1, deleted, kv =>
    match staticDelqScan clientId (order deleted (kv .outq)) with
    | .error e => some (.error e, kv)
    | .ok none => some (.ok deleted, kv)
    | .ok (some key) => staticDelOutQueue clientId order passes (deleted + 1) (kvDel .outq key kv)

/-! ### Sessions that have ended -/

/-- The first ended session that a key is one of. -/
def endedOwner : List Bytes → Bytes → Except Fault (Option Bytes)
  | [], _ => .ok none
  | e :: es, key => do if ← endedMatches e key then .ok (some e) else endedOwner es key

/-- `wmqb_ended_outq_iter_cb` over the records: the keys with their sessions, and whether space ran out. -/
def collectEnded (ended : List Bytes) :
    List Record → List Bool → List (Bytes × Bytes) → Except Fault (List (Bytes × Bytes) × Bool)
  | [], _, keys => .ok (keys, false)
  | r :: rs, allocs, keys => do
    match ← endedOwner ended r.1 with
    | none => collectEnded ended rs allocs keys
    | some owner =>
      let (ok, allocs) := mallocNode allocs
      if ok then collectEnded ended rs allocs ((r.1, owner) :: keys) else .ok (keys, true)

/-! ### Keys -/

/-- A key of the client. -/
def KeyOf (clientId key : Bytes) : Prop := ∃ packetId < 65536, outqKey clientId packetId = .ok key

/-- A key of some client. Client ids have no zeros. -/
def QueueKey (key : Bytes) : Prop := ∃ clientId, 0 ∉ clientId ∧ KeyOf clientId key

theorem outqKey_eq_ok {clientId key : Bytes} {packetId : Nat} : outqKey clientId packetId = .ok key ↔
    clientId.length ≤ maxKeyClientId ∧ key = clientId ++ 0 :: BigEndian.write 2 packetId := by
  unfold outqKey
  split
  next hlong => exact ⟨(fun h => nomatch h), (fun h => absurd h.1 (Nat.not_le.mpr hlong))⟩
  next hlen => exact ⟨fun h => ⟨Nat.not_lt.mp hlen, (Except.ok.inj h).symm⟩, fun h => congrArg Except.ok h.2.symm⟩

/-- No two clients share a key, and no two packet ids of one. -/
theorem outqKey_inj {a b key : Bytes} {m n : Nat} (ha : 0 ∉ a) (hb : 0 ∉ b) (hm : m < 65536) (hn : n < 65536)
    (h : outqKey a m = .ok key) (h' : outqKey b n = .ok key) : a = b ∧ m = n := by
  obtain ⟨-, rfl⟩ := outqKey_eq_ok.mp h
  obtain ⟨-, heq⟩ := outqKey_eq_ok.mp h'
  obtain ⟨hab, hmn⟩ := Separator.append_inj ha hb heq
  exact ⟨hab, BigEndian.write_inj hm hn hmn⟩

theorem QueueKey.prefix_iff {key : Bytes} (hkey : QueueKey key) {clientId : Bytes} (hcid : 0 ∉ clientId) :
    (clientId ++ [0]) <+: key ↔ KeyOf clientId key := by
  obtain ⟨owner, howner, packetId, hpid, hok⟩ := hkey
  have hlayout := (outqKey_eq_ok.mp hok).2
  constructor
  · intro hpre
    rw [hlayout, Separator.prefix_iff hcid howner] at hpre
    exact ⟨packetId, hpid, hpre ▸ hok⟩
  · rintro ⟨m, -, hm⟩
    rw [(outqKey_eq_ok.mp hm).2]
    exact ⟨BigEndian.write 2 m, by rw [List.append_assoc]; rfl⟩

/-! ### What the restore reads -/

theorem outqOwner_key {clientId key : Bytes} {packetId : Nat} (h : outqKey clientId packetId = .ok key) :
    outqOwner key = .ok clientId := by
  obtain ⟨-, rfl⟩ := outqKey_eq_ok.mp h
  have hlen : (clientId ++ 0 :: BigEndian.write 2 packetId).length = clientId.length + 3 := by simp
  have hzero : readByte (clientId ++ 0 :: BigEndian.write 2 packetId) clientId.length = .ok 0 := by
    rw [readByte, List.getElem?_append_right (le_refl _), Nat.sub_self]
    rfl
  have hread : readBytes (clientId ++ 0 :: BigEndian.write 2 packetId) 0 clientId.length = .ok clientId := by
    rw [readBytes_of_le (by omega), List.drop_zero, List.take_left]
  rw [outqOwner, if_neg (by omega), hlen, Nat.add_sub_cancel]
  dsimp only
  rw [hzero, ok_bind, if_neg (by simp), hread]

theorem outqFields_packetId {L : Limits} {blob : Bytes} {end_ topicLen : Nat} {e : QueueEntry}
    (h : outqFields L blob end_ = .ok (e, topicLen)) : readNumber 2 blob (hdrLen + 6) = .ok e.packetId := by
  obtain ⟨state, -, h⟩ := bind_eq_ok.mp h
  obtain ⟨qos, -, h⟩ := bind_eq_ok.mp h
  obtain ⟨retain, -, h⟩ := bind_eq_ok.mp h
  obtain ⟨level, -, h⟩ := bind_eq_ok.mp h
  obtain ⟨dup, -, h⟩ := bind_eq_ok.mp h
  split at h
  · cases h
  obtain ⟨packetId, hpid, h⟩ := bind_eq_ok.mp h
  obtain ⟨enqTime, -, h⟩ := bind_eq_ok.mp h
  obtain ⟨enqueueSeq, -, h⟩ := bind_eq_ok.mp h
  split at h
  · cases h
  obtain ⟨expirySec, -, h⟩ := bind_eq_ok.mp h
  obtain ⟨len, -, h⟩ := bind_eq_ok.mp h
  split at h
  · cases h
  cases h
  exact hpid

/-- The packet id of an entry is the one in the body of its record. -/
theorem decodeOutq_packetId {L : Limits} {key blob clientId : Bytes} {e : QueueEntry}
    (h : decodeOutq L key blob = .ok (clientId, e)) : readNumber 2 blob (hdrLen + 6) = .ok e.packetId := by
  obtain ⟨_, -, h⟩ := bind_eq_ok.mp h
  obtain ⟨bodyLen, -, h⟩ := bind_eq_ok.mp h
  split at h
  · cases h
  obtain ⟨⟨fields, topicLen⟩, hfields, h⟩ := bind_eq_ok.mp h
  obtain ⟨topic, -, h⟩ := bind_eq_ok.mp h
  obtain ⟨payloadLen, -, h⟩ := bind_eq_ok.mp h
  split at h
  · cases h
  obtain ⟨payload, -, h⟩ := bind_eq_ok.mp h
  cases h
  have hpid := outqFields_packetId hfields
  exact hpid

/-- The body repeats the packet id of the key. -/
theorem readNumber_packetId (x : OutPub) (hpid : x.packetId < 65536) :
    readNumber 2 (frameRecord .outq (outPubBody x)) (hdrLen + 6) = .ok x.packetId := by
  have hlen : (writeHeader .outq (outPubBody x).length).length = hdrLen := rfl
  obtain ⟨rest, hrest⟩ : ∃ rest, frameRecord .outq (outPubBody x) = (writeHeader .outq (outPubBody x).length ++
      [outPubStateCode x.state, UInt8.ofNat x.qos.toNat, x.retain.toUInt8, UInt8.ofNat x.protocolLevel,
        x.retransmitDup.toUInt8, 0]) ++ (BigEndian.write 2 x.packetId ++ rest) := by
    rw [frameRecord]
    conv => enter [1, rest, 1, 2]; rw [outPubBody]
    exact ⟨_, by rw [List.append_assoc]⟩
  have hdrop : (frameRecord .outq (outPubBody x)).drop (hdrLen + 6) = BigEndian.write 2 x.packetId ++ rest := by
    rw [hrest]
    exact List.drop_left' (by rw [List.length_append, hlen]; rfl)
  have hle : hdrLen + 6 + 2 ≤ (frameRecord .outq (outPubBody x)).length := by
    rw [hrest, List.length_append, List.length_append, List.length_append, hlen, BigEndian.length_write]
    simp
  rw [readNumber, readBytes_of_le hle, ok_bind, hdrop, BigEndian.take_write, BigEndian.read_write hpid]

/-! ### What is selected -/

section selected
variable {clientId key : Bytes}

theorem readByte_eq_ok {rx : Bytes} {pos : Nat} {b : UInt8} (h : rx[pos]? = some b) : readByte rx pos = .ok b := by
  rw [readByte, h]

theorem decide_prefix {b : UInt8} (hb : key[clientId.length]? = some b) :
    decide ((clientId ++ [0]) <+: key) = (decide (key.take clientId.length = clientId) && decide (b = 0)) := by
  rw [← Bool.decide_and, decide_eq_decide, Separator.prefix_iff_take, hb, Option.some.injEq]

/-- A key that is shorter does not begin with the client id and the zero. -/
theorem not_prefix_of_lt (h : key.length < clientId.length + 1) : ¬(clientId ++ [0]) <+: key := by
  intro hpre
  have hle := hpre.length_le
  rw [List.length_append, List.length_singleton] at hle
  omega

theorem keyBegins_eq (clientId key : Bytes) : keyBegins (clientId.length + 1) clientId clientId.length key =
    .ok (decide ((clientId ++ [0]) <+: key)) := by
  unfold keyBegins
  by_cases hlen : key.length < clientId.length + 1
  · rw [if_pos hlen, decide_eq_false (not_prefix_of_lt hlen)]
  obtain ⟨b, hb⟩ : ∃ b, key[clientId.length]? = some b := ⟨_, List.getElem?_eq_getElem (by omega)⟩
  rw [if_neg hlen, readBytes_of_le (by omega), readBytes_of_le (by omega), readByte_eq_ok hb, ok_bind, ok_bind, ok_bind,
    List.drop_zero, List.drop_zero, List.take_length, decide_prefix hb]
  by_cases htake : key.take clientId.length = clientId
  · rw [if_neg (not_not.mpr htake), decide_eq_true htake, Bool.true_and]
  · rw [if_pos htake, decide_eq_false htake, Bool.false_and]

theorem delqMatches_eq (hlen : clientId.length < 65535) (key : Bytes) :
    delqMatches clientId key = .ok (decide ((clientId ++ [0]) <+: key)) := by
  rw [delqMatches, Nat.mod_eq_of_lt (by omega)]
  exact keyBegins_eq clientId key

theorem staticDelqMatches_eq (hlen : clientId.length < 65535) (key : Bytes) :
    staticDelqMatches clientId key = .ok (decide ((clientId ++ [0]) <+: key)) := by
  rw [staticDelqMatches, Nat.mod_eq_of_lt (show clientId.length < 65536 by omega), Nat.mod_eq_of_lt (by omega)]
  exact keyBegins_eq clientId key

theorem endedMatches_eq (ended key : Bytes) : endedMatches ended key = .ok (decide ((ended ++ [0]) <+: key)) := by
  unfold endedMatches
  by_cases hlen : key.length < ended.length + 1
  · rw [if_pos hlen, decide_eq_false (not_prefix_of_lt hlen)]
  obtain ⟨b, hb⟩ : ∃ b, key[ended.length]? = some b := ⟨_, List.getElem?_eq_getElem (by omega)⟩
  rw [if_neg hlen, readByte_eq_ok hb, ok_bind, readBytes_of_le (by omega), ok_bind, List.drop_zero, decide_prefix hb]
  by_cases hzero : b = 0
  · rw [if_neg (not_not.mpr hzero), decide_eq_true hzero, Bool.and_true]
  · rw [if_pos hzero, decide_eq_false hzero, Bool.and_false]

/-- The filter of the model of the whole broker selects the same keys. -/
theorem ownsKey_eq (clientId key : Bytes) : ownsKey clientId key = decide ((clientId ++ [0]) <+: key) := by
  by_cases hlen : key.length < clientId.length + 1
  · rw [decide_eq_false (not_prefix_of_lt hlen), ownsKey, decide_eq_false (by omega), Bool.false_and, Bool.false_and]
  obtain ⟨b, hb⟩ : ∃ b, key[clientId.length]? = some b := ⟨_, List.getElem?_eq_getElem (by omega)⟩
  rw [ownsKey, decide_eq_true (by omega), Bool.true_and, decide_prefix hb, List.getD_eq_getElem?_getD, hb]
  rfl

end selected

/-! ### What is collected -/

section collected
variable {clientId : Bytes} {recs : List Record}

/-- The keys of the client among the records, in their order. -/
def keysOf (clientId : Bytes) (recs : List Record) : List Bytes :=
  (recs.filter fun r => (clientId ++ [0]) <+: r.1).map Prod.fst

/-- Only an allocation that fails keeps the collection from being complete. -/
theorem collectKeys_spec (hlen : clientId.length < 65535) (recs : List Record) : ∀ (allocs : List Bool) (keys : List Bytes),
    ∃ got, collectKeys clientId recs allocs keys = .ok (got.reverse ++ keys) ∧ got <+: keysOf clientId recs ∧
      (allocs = [] → got = keysOf clientId recs) := by
  induction recs with
  | nil => exact fun allocs keys => ⟨[], rfl, List.prefix_rfl, fun _ => rfl⟩
  | cons r recs ih =>
    intro allocs keys
    rw [collectKeys, delqMatches_eq hlen, ok_bind, keysOf, List.filter_cons]
    by_cases hmine : (clientId ++ [0]) <+: r.1
    · rw [decide_eq_true hmine, if_pos rfl, if_pos rfl, List.map_cons]
      rcases hnode : mallocNode allocs with ⟨ok, allocs'⟩
      cases ok with
      | true =>
        obtain ⟨got, hgot, hpre, hall⟩ := ih allocs' (r.1 :: keys)
        refine ⟨r.1 :: got, ?_, List.cons_prefix_cons.mpr ⟨rfl, hpre⟩, fun hnone => ?_⟩
        · dsimp only
          rw [if_pos rfl, hgot, List.reverse_cons, List.append_assoc]
          rfl
        · subst hnone
          cases hnode
          rw [hall rfl]
          rfl
      | false =>
        refine ⟨[], rfl, List.nil_prefix, fun hnone => ?_⟩
        subst hnone
        cases hnode
    · rw [decide_eq_false hmine, if_neg Bool.false_ne_true, if_neg Bool.false_ne_true]
      exact ih allocs keys

/-- The pass of the build with static memory finds a key of the client, or there is none. -/
theorem staticDelqScan_spec (hlen : clientId.length < 65535) (recs : List Record)
    (hcap : ∀ r ∈ recs, r.1.length ≤ keyCap) :
    (staticDelqScan clientId recs = .ok none ∧ ∀ r ∈ recs, ownsKey clientId r.1 = false) ∨
    ∃ r ∈ recs, staticDelqScan clientId recs = .ok (some r.1) ∧ ownsKey clientId r.1 = true := by
  induction recs with
  | nil => exact .inl ⟨rfl, nofun⟩
  | cons r recs ih =>
    rw [staticDelqScan, staticDelqMatches_eq hlen, ok_bind, ← ownsKey_eq]
    cases hmine : ownsKey clientId r.1 with
    | true =>
      rw [if_pos rfl, if_neg (Nat.not_lt.mpr (hcap r List.mem_cons_self))]
      exact .inr ⟨r, List.mem_cons_self, rfl, hmine⟩
    | false =>
      rw [if_neg Bool.false_ne_true]
      rcases ih fun r' hr' => hcap r' (List.mem_cons_of_mem r hr') with ⟨hscan, hnone⟩ | ⟨r', hr', hscan, hown⟩
      · exact .inl ⟨hscan, List.forall_mem_cons.mpr ⟨hmine, hnone⟩⟩
      · exact .inr ⟨r', List.mem_cons_of_mem r hr', hscan, hown⟩

/-- The first session of the list whose key it is. -/
theorem endedOwner_eq (ended : List Bytes) (key : Bytes) :
    endedOwner ended key = .ok (ended.find? fun e => (e ++ [0]) <+: key) := by
  induction ended with
  | nil => rfl
  | cons e ended ih =>
    rw [endedOwner, endedMatches_eq, ok_bind, ih, List.find?_cons]
    cases decide ((e ++ [0]) <+: key) <;> rfl

/-- The keys of the ended sessions among the records, each with its session. -/
def endedKeysOf (ended : List Bytes) (recs : List Record) : List (Bytes × Bytes) :=
  recs.filterMap fun r => (ended.find? fun e => (e ++ [0]) <+: r.1).map fun e => (r.1, e)

theorem collectEnded_spec (ended : List Bytes) (recs : List Record) : ∀ (allocs : List Bool) (keys : List (Bytes × Bytes)),
    ∃ got oom, collectEnded ended recs allocs keys = .ok (got.reverse ++ keys, oom) ∧ got <+: endedKeysOf ended recs ∧
      (allocs = [] → got = endedKeysOf ended recs ∧ oom = false) := by
  induction recs with
  | nil => exact fun allocs keys => ⟨[], false, rfl, List.prefix_rfl, fun _ => ⟨rfl, rfl⟩⟩
  | cons r recs ih =>
    intro allocs keys
    rw [collectEnded, endedOwner_eq, ok_bind, endedKeysOf, List.filterMap_cons]
    cases ended.find? fun e => (e ++ [0]) <+: r.1 with
    | none => exact ih allocs keys
    | some owner =>
      rcases hnode : mallocNode allocs with ⟨ok, allocs'⟩
      cases ok with
      | true =>
        obtain ⟨got, oom, hgot, hpre, hall⟩ := ih allocs' ((r.1, owner) :: keys)
        refine ⟨(r.1, owner) :: got, oom, ?_, List.cons_prefix_cons.mpr ⟨rfl, hpre⟩, fun hnone => ?_⟩
        · dsimp only
          rw [if_pos rfl, hgot, List.reverse_cons, List.append_assoc]
          rfl
        · subst hnone
          cases hnode
          rw [(hall rfl).1]
          exact ⟨rfl, (hall rfl).2⟩
      | false =>
        refine ⟨[], true, rfl, List.nil_prefix, fun hnone => ?_⟩
        subst hnone
        cases hnode

end collected

/-! ### What is deleted -/

section deleted
variable {clientId : Bytes} {kv : Kv}

theorem kvDels_outq (keys : List Bytes) (kv : Kv) : kvDels keys kv .outq = (kv .outq).filter fun r => r.1 ∉ keys := by
  induction keys generalizing kv with
  | nil => simp [kvDels]
  | cons key keys ih =>
    show kvDels keys (kvDel .outq key kv) .outq = _
    rw [ih, kvDel_apply, if_pos rfl, List.filter_filter]
    congr 1
    funext r
    simp [Bool.and_comm]

theorem kvDels_other (keys : List Bytes) (kv : Kv) {ns : Ns} (hns : ns ≠ .outq) : kvDels keys kv ns = kv ns := by
  induction keys generalizing kv with
  | nil => rfl
  | cons key keys ih =>
    show kvDels keys (kvDel .outq key kv) ns = _
    rw [ih, kvDel_apply, if_neg (Ne.symm hns)]

theorem mem_keysOf {recs : List Record} {key : Bytes} :
    key ∈ keysOf clientId recs ↔ (clientId ++ [0]) <+: key ∧ ∃ r ∈ recs, r.1 = key := by
  rw [keysOf, List.mem_map]
  constructor
  · rintro ⟨r, hr, rfl⟩
    obtain ⟨hr, hpre⟩ := List.mem_filter.mp hr
    exact ⟨of_decide_eq_true hpre, r, hr, rfl⟩
  · rintro ⟨hpre, r, hr, rfl⟩
    exact ⟨r, List.mem_filter.mpr ⟨hr, decide_eq_true hpre⟩, rfl⟩

/-- Deleting all keys of a client is what the model of the whole broker does. -/
theorem kvDels_keysOf {recs : List Record} (hrecs : recs.Perm (kv .outq)) :
    kvDels (keysOf clientId recs).reverse kv = delOutQueue clientId kv := by
  funext ns
  by_cases hns : ns = .outq
  · subst hns
    rw [kvDels_outq, delOutQueue, Function.update_self]
    refine List.filter_congr fun r hr => ?_
    have hmem : r.1 ∈ (keysOf clientId recs).reverse ↔ (clientId ++ [0]) <+: r.1 := by
      rw [List.mem_reverse, mem_keysOf]
      exact ⟨And.left, fun hpre => ⟨hpre, r, hrecs.symm.subset hr, rfl⟩⟩
    rw [ownsKey_eq, ← decide_not, decide_eq_decide]
    exact not_congr hmem
  · rw [kvDels_other _ _ hns, delOutQueue, Function.update_of_ne hns]

/-- What is deleted first does not matter. -/
theorem delOutQueue_kvDel {key : Bytes} (hown : ownsKey clientId key = true) :
    delOutQueue clientId (kvDel .outq key kv) = delOutQueue clientId kv := by
  funext ns
  by_cases hns : ns = .outq
  · subst hns
    rw [delOutQueue, delOutQueue, Function.update_self, Function.update_self, kvDel_apply, if_pos rfl, List.filter_filter]
    refine List.filter_congr fun r _ => ?_
    by_cases hkey : r.1 = key
    · rw [hkey, hown]
      rfl
    · rw [decide_eq_true hkey, Bool.and_true]
  · rw [delOutQueue, delOutQueue, Function.update_of_ne hns, Function.update_of_ne hns, kvDel_apply, if_neg (Ne.symm hns)]

theorem length_kvDel_lt {r : Record} (hr : r ∈ kv .outq) : (kvDel .outq r.1 kv .outq).length < (kv .outq).length := by
  rw [kvDel_apply, if_pos rfl]
  exact List.length_filter_lt_length_iff_exists.mpr ⟨r, hr, by simp⟩

/-- The passes of the build with static memory come to an end, and the keys of the client are gone then. -/
theorem staticDelOutQueue_spec (hlen : clientId.length < 65535) {order : Nat → List Record → List Record}
    (horder : ∀ n rs, (order n rs).Perm rs) (passes : Nat) : ∀ (deleted : Nat) (kv : Kv),
    (∀ r ∈ kv .outq, r.1.length ≤ keyCap) → (kv .outq).length < passes →
    ∃ n, staticDelOutQueue clientId order passes deleted kv = some (.ok n, delOutQueue clientId kv) := by
  induction passes with
  | zero => exact fun _ _ _ hpasses => absurd hpasses (Nat.not_lt_zero _)
  | succ passes ih =>
    intro deleted kv hcap hpasses
    have hperm := horder deleted (kv .outq)
    rw [staticDelOutQueue]
    rcases staticDelqScan_spec hlen _ fun r hr => hcap r (hperm.subset hr) with ⟨hscan, hnone⟩ | ⟨r, hr, hscan, hown⟩
    · rw [hscan]
      refine ⟨deleted, ?_⟩
      have hkeep : (kv .outq).filter (fun r => !ownsKey clientId r.1) = kv .outq :=
        List.filter_eq_self.mpr fun r hr => by rw [hnone r (hperm.symm.subset hr)]; rfl
      rw [delOutQueue, hkeep, Function.update_eq_self]
    · have hmem := hperm.subset hr
      rw [hscan]
      obtain ⟨n, hn⟩ := ih (deleted + 1) (kvDel .outq r.1 kv)
        (fun r' hr' => hcap r' (by rw [kvDel_apply, if_pos rfl] at hr'; exact List.mem_of_mem_filter hr'))
        (Nat.lt_of_lt_of_le (length_kvDel_lt hmem) (Nat.lt_succ_iff.mp hpasses))
      exact ⟨n, hn.trans (by rw [delOutQueue_kvDel hown])⟩

end deleted

/-! ### No client's keys are another's -/

theorem KeyOf.length_le {clientId key : Bytes} (h : KeyOf clientId key) : key.length ≤ keyCap := by
  obtain ⟨packetId, -, hok⟩ := h
  obtain ⟨hlen, rfl⟩ := outqKey_eq_ok.mp hok
  have hmax : maxKeyClientId = 256 := rfl
  have hcap : keyCap = 259 := rfl
  rw [List.length_append, List.length_cons, BigEndian.length_write]
  omega

/-- A store whose queue keys were built from client ids. -/
def Keyed (kv : Kv) : Prop := ∀ r ∈ kv .outq, QueueKey r.1

/-- The records of a client are told apart from all others by their keys. -/
theorem Keyed.mem_delOutQueue {kv : Kv} (hkv : Keyed kv) {clientId : Bytes} (hcid : 0 ∉ clientId) (r : Record) :
    r ∈ delOutQueue clientId kv .outq ↔ r ∈ kv .outq ∧ ¬KeyOf clientId r.1 := by
  rw [delOutQueue, Function.update_self, List.mem_filter]
  refine and_congr_right fun hr => ?_
  rw [ownsKey_eq, ← (hkv r hr).prefix_iff hcid]
  simp

theorem Keyed.mem_keysOf {kv : Kv} (hkv : Keyed kv) {clientId : Bytes} (hcid : 0 ∉ clientId) {recs : List Record}
    (hrecs : recs.Perm (kv .outq)) {key : Bytes} (h : key ∈ keysOf clientId recs) : KeyOf clientId key := by
  obtain ⟨hpre, r, hr, rfl⟩ := Load.mem_keysOf.mp h
  exact ((hkv r (hrecs.subset hr)).prefix_iff hcid).mp hpre

/-- The keys of ended sessions are collected for the session they belong to. -/
theorem Keyed.mem_endedKeysOf {kv : Kv} (hkv : Keyed kv) {ended : List Bytes} (hended : ∀ e ∈ ended, 0 ∉ e)
    {recs : List Record} (hrecs : recs.Perm (kv .outq)) (key owner : Bytes) :
    (key, owner) ∈ endedKeysOf ended recs ↔ owner ∈ ended ∧ KeyOf owner key ∧ ∃ r ∈ kv .outq, r.1 = key := by
  rw [endedKeysOf, List.mem_filterMap]
  constructor
  · rintro ⟨r, hr, hfound⟩
    obtain ⟨e, hfind, heq⟩ := Option.map_eq_some_iff.mp hfound
    cases heq
    have hmem := List.mem_of_find?_eq_some hfind
    have hpre := List.find?_some hfind
    exact ⟨hmem, ((hkv r (hrecs.subset hr)).prefix_iff (hended owner hmem)).mp (of_decide_eq_true hpre), r, hrecs.subset hr, rfl⟩
  · rintro ⟨hmem, hkey, r, hr, rfl⟩
    refine ⟨r, hrecs.symm.subset hr, ?_⟩
    have hpre := ((hkv r hr).prefix_iff (hended owner hmem)).mpr hkey
    obtain ⟨e, hfind⟩ : ∃ e, (ended.find? fun e => (e ++ [0]) <+: r.1) = some e :=
      Option.isSome_iff_exists.mp (List.find?_isSome.mpr ⟨owner, hmem, decide_eq_true hpre⟩)
    have he := List.mem_of_find?_eq_some hfind
    have hpre' := List.find?_some hfind
    have hkey' := ((hkv r hr).prefix_iff (hended e he)).mp (of_decide_eq_true hpre')
    obtain ⟨m, hm, hok⟩ := hkey
    obtain ⟨n, hn, hok'⟩ := hkey'
    rw [hfind, (outqKey_inj (hended e he) (hended owner hmem) hn hm hok' hok).1]
    rfl

/-- The restore has the client id from the key, and the packet id from the body. -/
theorem decodeOutq_own {L : Limits} {clientId key blob cid : Bytes} {packetId : Nat} {e : QueueEntry}
    (hkey : outqKey clientId packetId = .ok key) (hdec : decodeOutq L key blob = .ok (cid, e)) :
    cid = clientId ∧ readNumber 2 blob (hdrLen + 6) = .ok e.packetId := by
  have howner := (outqOwner_key hkey).symm.trans (decodeOutq_owner hdec)
  exact ⟨(Except.ok.inj howner).symm, decodeOutq_packetId hdec⟩

/-- The body that is stored under a key has the packet id of the key. -/
theorem decodeOutq_stored {L : Limits} {clientId key cid : Bytes} {x : OutPub} {e : QueueEntry} (hpid : x.packetId < 65536)
    (hkey : outqKey clientId x.packetId = .ok key) (hdec : decodeOutq L key (frameRecord .outq (outPubBody x)) = .ok (cid, e)) :
    cid = clientId ∧ e.packetId = x.packetId := by
  obtain ⟨howner, hbody⟩ := decodeOutq_own hkey hdec
  exact ⟨howner, (Except.ok.inj ((readNumber_packetId _ hpid).symm.trans hbody)).symm⟩

/-- Whatever allocations fail, only keys of the client are deleted, and all of them if none fails. -/
theorem Keyed.dynamicDelOutQueue {kv : Kv} {clientId : Bytes} (allocs : List Bool) {order : List Record → List Record}
    (hkv : Keyed kv) (hcid : 0 ∉ clientId) (hlen : clientId.length ≤ maxKeyClientId) (horder : ∀ rs, (order rs).Perm rs) :
    ∃ keys, dynamicDelOutQueue clientId allocs order kv = .ok (keys.length, kvDels keys kv) ∧
      (∀ key ∈ keys, KeyOf clientId key) ∧
      (allocs = [] → ∀ r, r ∈ kvDels keys kv .outq ↔ r ∈ kv .outq ∧ ¬KeyOf clientId r.1) := by
  have hmax : maxKeyClientId = 256 := rfl
  obtain ⟨got, hgot, hpre, hall⟩ := collectKeys_spec (show clientId.length < 65535 by omega) (order (kv .outq)) allocs []
  rw [List.append_nil] at hgot
  refine ⟨got.reverse, by rw [Load.dynamicDelOutQueue, hgot, ok_bind], fun key hkey => ?_, fun hnone r => ?_⟩
  · exact hkv.mem_keysOf hcid (horder _) (hpre.subset (List.mem_reverse.mp hkey))
  · rw [hall hnone, kvDels_keysOf (horder _)]
    exact hkv.mem_delOutQueue hcid r

/-- With static memory all of them are, in whatever orders the records come. -/
theorem Keyed.staticDelOutQueue {kv : Kv} {clientId : Bytes} {order : Nat → List Record → List Record} {passes : Nat}
    (hkv : Keyed kv) (hcid : 0 ∉ clientId) (hlen : clientId.length ≤ maxKeyClientId)
    (horder : ∀ n rs, (order n rs).Perm rs) (hpasses : (kv .outq).length < passes) :
    ∃ n kv', staticDelOutQueue clientId order passes 0 kv = some (.ok n, kv') ∧
      ∀ r, r ∈ kv' .outq ↔ r ∈ kv .outq ∧ ¬KeyOf clientId r.1 := by
  have hmax : maxKeyClientId = 256 := rfl
  have hcap : ∀ r ∈ kv .outq, r.1.length ≤ keyCap := by
    intro r hr
    obtain ⟨owner, -, hkey⟩ := hkv r hr
    exact hkey.length_le
  obtain ⟨n, hn⟩ := staticDelOutQueue_spec (show clientId.length < 65535 by omega) horder passes 0 kv hcap hpasses
  exact ⟨n, _, hn, hkv.mem_delOutQueue hcid⟩

/-- The keys of ended sessions go with the session they were built from. -/
theorem Keyed.collectEnded {kv : Kv} {ended : List Bytes} {recs : List Record} (allocs : List Bool) (hkv : Keyed kv)
    (hended : ∀ e ∈ ended, 0 ∉ e) (hrecs : recs.Perm (kv .outq)) :
    ∃ keys oom, collectEnded ended recs allocs [] = .ok (keys, oom) ∧
      (∀ key owner, (key, owner) ∈ keys → owner ∈ ended ∧ KeyOf owner key) ∧
      (allocs = [] → oom = false ∧
        ∀ r ∈ kv .outq, ∀ owner ∈ ended, (r.1, owner) ∈ keys ↔ KeyOf owner r.1) := by
  obtain ⟨got, oom, hgot, hpre, hall⟩ := collectEnded_spec ended recs allocs []
  rw [List.append_nil] at hgot
  refine ⟨got.reverse, oom, hgot, fun key owner hmem => ?_, fun hnone => ⟨(hall hnone).2, fun r hr owner howner => ?_⟩⟩
  · obtain ⟨howner, hkey, -⟩ := (hkv.mem_endedKeysOf hended hrecs key owner).mp (hpre.subset (List.mem_reverse.mp hmem))
    exact ⟨howner, hkey⟩
  · rw [List.mem_reverse, (hall hnone).1, hkv.mem_endedKeysOf hended hrecs]
    exact ⟨fun h => h.2.1, fun h => ⟨howner, h, r, hr, rfl⟩⟩

/-- Queue keys do not alias: in what is built, in what the restore reads, and in what each of the three scans deletes. -/
theorem outqKey_unaliased :
    (∀ (a b key : Bytes) (m n : Nat), 0 ∉ a → 0 ∉ b → m < 65536 → n < 65536 →
      outqKey a m = .ok key → outqKey b n = .ok key → a = b ∧ m = n) ∧
    (∀ (L : Limits) (clientId key blob cid : Bytes) (packetId : Nat) (e : QueueEntry),
      outqKey clientId packetId = .ok key → decodeOutq L key blob = .ok (cid, e) →
      cid = clientId ∧ readNumber 2 blob (hdrLen + 6) = .ok e.packetId) ∧
    (∀ (L : Limits) (clientId key cid : Bytes) (x : OutPub) (e : QueueEntry), x.packetId < 65536 →
      outqKey clientId x.packetId = .ok key → decodeOutq L key (frameRecord .outq (outPubBody x)) = .ok (cid, e) →
      cid = clientId ∧ e.packetId = x.packetId) ∧
    ∀ (kv : Kv), Keyed kv →
      (∀ (clientId : Bytes) (allocs : List Bool) (order : List Record → List Record), 0 ∉ clientId →
        clientId.length ≤ maxKeyClientId → (∀ rs, (order rs).Perm rs) →
        ∃ keys, dynamicDelOutQueue clientId allocs order kv = .ok (keys.length, kvDels keys kv) ∧
          (∀ key ∈ keys, KeyOf clientId key) ∧
          (allocs = [] → ∀ r, r ∈ kvDels keys kv .outq ↔ r ∈ kv .outq ∧ ¬KeyOf clientId r.1)) ∧
      (∀ (clientId : Bytes) (order : Nat → List Record → List Record) (passes : Nat), 0 ∉ clientId →
        clientId.length ≤ maxKeyClientId → (∀ n rs, (order n rs).Perm rs) → (kv .outq).length < passes →
        ∃ n kv', staticDelOutQueue clientId order passes 0 kv = some (.ok n, kv') ∧
          ∀ r, r ∈ kv' .outq ↔ r ∈ kv .outq ∧ ¬KeyOf clientId r.1) ∧
      ∀ (ended : List Bytes) (recs : List Record) (allocs : List Bool), (∀ e ∈ ended, 0 ∉ e) → recs.Perm (kv .outq) →
        ∃ keys oom, collectEnded ended recs allocs [] = .ok (keys, oom) ∧
          (∀ key owner, (key, owner) ∈ keys → owner ∈ ended ∧ KeyOf owner key) ∧
          (allocs = [] → oom = false ∧
            ∀ r ∈ kv .outq, ∀ owner ∈ ended, (r.1, owner) ∈ keys ↔ KeyOf owner r.1) := by
  refine ⟨fun a b key m n => outqKey_inj, fun L clientId key blob cid packetId e => decodeOutq_own,
    fun L clientId key cid x e => decodeOutq_stored, fun kv hkv => ⟨?_, ?_, ?_⟩⟩
  · exact fun clientId allocs order => hkv.dynamicDelOutQueue allocs
  · exact fun clientId order passes => hkv.staticDelOutQueue
  · exact fun ended recs allocs => hkv.collectEnded allocs

/-- The queues of two clients, the id of one a prefix of the other's. -/
theorem outqKey_unaliased_prefix : ∃ (kv : Kv) (keys : List Bytes),
    (kv .outq).map Prod.fst = [[0x61, 0, 0, 1], [0x61, 0x62, 0, 0, 1]] ∧
      dynamicDelOutQueue [0x61] [] id kv = .ok (keys.length, kvDels keys kv) ∧
      ∀ r, r ∈ kvDels keys kv .outq ↔ r ∈ kv .outq ∧ ¬KeyOf [0x61] r.1 := by
  let kv : Kv := Function.update (fun _ => []) .outq [([0x61, 0, 0, 1], []), ([0x61, 0x62, 0, 0, 1], [])]
  have hkv : Keyed kv := by
    intro r hr
    obtain rfl | hr := List.mem_cons.mp hr
    · exact ⟨[0x61], by decide, 1, by decide, rfl⟩
    · rw [List.mem_singleton.mp hr]
      exact ⟨[0x61, 0x62], by decide, 1, by decide, rfl⟩
  obtain ⟨keys, hdel, -, hall⟩ :=
    (outqKey_unaliased.2.2.2 kv hkv).1 [0x61] [] id (by decide) (by decide) (fun rs => List.Perm.refl rs)
  exact ⟨kv, keys, rfl, hdel, hall rfl⟩

/-- A record whose body names another packet id than its key is restored with the one in its body. -/
theorem not_packetId_from_key : ¬∀ (clientId key blob cid : Bytes) (packetId : Nat) (e : QueueEntry), 0 ∉ clientId →
    packetId < 65536 → outqKey clientId packetId = .ok key → decodeOutq {} key blob = .ok (cid, e) →
    cid = clientId ∧ e.packetId = packetId := by
  intro hall
  have hkey : outqKey [0x61] 1 = .ok (sampleRecord 1 5 .queued).1 := rfl
  obtain ⟨cid, e, hdec, hpid⟩ : ∃ cid e, decodeOutq {} (sampleRecord 1 5 .queued).1 (sampleRecord 2 5 .queued).2 =
      .ok (cid, e) ∧ e.packetId = 2 := ⟨_, _, rfl, rfl⟩
  exact absurd ((hall [0x61] _ _ cid 1 e (by decide) (by decide) hkey hdec).2.symm.trans hpid) (by decide)

end WolfMqtt.Persist.Load
