import WolfMqtt.Lib.Packed
import WolfMqtt.Persist.Phases
import WolfMqtt.Persist.Rejected

/-! The sweep over expired retained records, with its staging buffer.

Keys are packed into a buffer of fixed size while the iterator runs, and deleted after it. A key that does not fit
stops the scan, and then there is another one. The clock goes on all the while. -/
namespace WolfMqtt.Persist.Load

open Agree (Yields ok_bind)
open Broker

/-! ### One scan -/

/-- `struct wmqb_retained_purge_ctx` -/
structure PurgeCtx where
  buf : Bytes := List.replicate retainedPurgeBuf 0
  used : Nat := 0
  count : Nat := 0
  more : Bool := false
  oversized : Bool := false
deriving Repr, DecidableEq

/-- A copy into the staging buffer. -/
def stage (buf : Bytes) (off : Nat) (data : Bytes) : Except Fault Bytes :=
  if off + data.length ≤ buf.length then .ok (Buffer.writeAt buf off data) else .error .overrun

/-- The length of a key, high byte first, and the key. -/
def stageKey (buf : Bytes) (used : Nat) (key : Bytes) : Except Fault Bytes := do
  let buf ← stage buf used [UInt8.ofNat (key.length / 256)]
  let buf ← stage buf (used + 1) [UInt8.ofNat key.length]
  stage buf (used + 2) key

/-- `wmqb_purge_expired_retained_cb`: what it returns to the iterator, and the context. -/
def purgeCb (L : Limits) (now : Nat) (key blob : Bytes) (c : PurgeCtx) : Except Fault (Int × PurgeCtx) :=
  if key = [] then .ok (0, c)
  else do
    if !(← scanRetainedExpired L now blob) then .ok (0, c)
    else if key.length + 2 > retainedPurgeBuf then .ok (0, {c with oversized := true})
    else if c.used + 2 + key.length > retainedPurgeBuf then .ok (1, {c with more := true})
    else
      let buf ← stageKey c.buf c.used key
      .ok (0, {c with buf, used := (c.used + 2 + key.length) % 65536, count := (c.count + 1) % 65536})

/-- The iterator with this callback. It stops early where the callback says so, and that is no error. -/
def purgeIter (L : Limits) (clock : Nat → Nat) : Nat → List Record → PurgeCtx → Except Fault PurgeCtx
  | _, [], c => .ok c
  | i, r :: rs, c => do
    let (rc, c) ← purgeCb L (clock i) r.1 r.2 c
    if rc ≠ 0 then .ok c else purgeIter L clock (i + 1) rs c

/-- The keys that are taken out of the staging buffer from `off` on, `none` if that takes more turns. -/
def stagedKeys (c : PurgeCtx) : Nat → Nat → Except Fault (Option (List Bytes))
  | 0, _ => .ok none
  | turns + 1, off =>
    if off + 2 ≤ c.used then do
      let klen ← readNumber 2 c.buf off
      let off := (off + 2) % 65536
      let key ← readBytes c.buf off klen
      let rest ← stagedKeys c turns ((off + klen) % 65536)
      .ok (rest.map (key :: ·))
    else .ok (some [])

/-! ### The sweep -/

/-- What the sweep has done; `stopped` says that it left its loop before the bound. -/
structure Sweep where
  kv : Kv
  scans : Nat := 0
  total : Nat := 0
  oversized : Bool := false
  stopped : Bool := false

/-- The loop of `wmqb_restore_purge_expired_retained`, for so many scans at most. Deletes succeed. -/
def purgeLoop (L : Limits) (order : Nat → List Record → List Record) (clock : Nat → Nat → Nat) :
    Nat → Sweep → Except Fault (Option Sweep)
  | 0, s => .ok (some s)
  | passes + 1, s => do
    let c ← purgeIter L (clock s.scans) 0 (order s.scans (s.kv .retained)) {}
    let s := {s with scans := s.scans + 1, oversized := s.oversized || c.oversized}
    if c.count = 0 then .ok (some {s with stopped := true})
    else
      match ← stagedKeys c retainedPurgeBuf 0 with
      | none => .ok none
      | some keys =>
        let s := {s with
          kv := keys.foldl (fun kv key => kvDel .retained key kv) s.kv
          total := s.total + keys.length}
        if !c.more || keys.length = 0 then .ok (some {s with stopped := true}) else purgeLoop L order clock passes s

/-- `wmqb_restore_purge_expired_retained` -/
def restorePurgeExpired (L : Limits) (order : Nat → List Record → List Record) (clock : Nat → Nat → Nat) (kv : Kv) :
    Except Fault (Option Sweep) :=
  purgeLoop L order clock retainedPurgePasses {kv}

/-! ### What has expired -/

section expired
variable {blob : Bytes}

/-- The body that is read by offsets is the one that is cut out. -/
theorem scanHeader_eq (hblob : blob.length < 4294967296) (kind : Ns) :
    readHeader blob kind = match scanHeader blob kind with
      | .ok bodyLen => .ok ((blob.drop hdrLen).take bodyLen)
      | .error (.code rc) => .error rc
      | .error .overrun => .error 0 := by
  have hhdr : hdrLen = 12 := rfl
  unfold readHeader scanHeader
  by_cases hlen : blob.length < hdrLen
  · rw [if_pos hlen, if_pos hlen]
  have hbyte (i : Nat) (hi : i < hdrLen) : ∃ b, readByte blob i = .ok b ∧ (blob.drop i).take 1 = [b] := by
    refine ⟨blob[i], by rw [readByte, List.getElem?_eq_getElem (by omega)], ?_⟩
    rw [List.drop_eq_getElem_cons (by omega), List.take_succ_cons, List.take_zero]
  obtain ⟨b₆, h₆, h₆'⟩ := hbyte 6 (by omega)
  obtain ⟨b₇, h₇, h₇'⟩ := hbyte 7 (by omega)
  rw [if_neg hlen, if_neg hlen, readBytes_of_le (by omega), ok_bind, readNumber_of_le (by omega), ok_bind, h₆, ok_bind, h₇,
    ok_bind, readNumber_of_le (by omega), ok_bind, h₆', h₇', List.drop_zero, wordDiff_of_le (by omega) hblob]
  by_cases hmagic : blob.take 4 = magic
  swap
  · rw [if_pos hmagic, if_pos hmagic]
  by_cases hver : BigEndian.read ((blob.drop 4).take 2) = schemaVer
  swap
  · rw [if_neg (not_not.mpr hmagic), if_neg (not_not.mpr hmagic), if_pos hver, if_pos hver]
  rw [if_neg (not_not.mpr hmagic), if_neg (not_not.mpr hmagic), if_neg (not_not.mpr hver), if_neg (not_not.mpr hver)]
  by_cases hkind : b₆ = kind.code
  swap
  · rw [if_pos (by simpa using hkind), if_pos hkind]
  rw [if_neg (by simpa using hkind), if_neg (not_not.mpr hkind)]
  by_cases hwrap : b₇ = wrapMode
  swap
  · rw [if_pos (by simpa using hwrap), if_pos hwrap]
  rw [if_neg (by simpa using hwrap), if_neg (not_not.mpr hwrap)]
  dsimp only
  by_cases hbody : BigEndian.read ((blob.drop 8).take 4) > blob.length - hdrLen
  · rw [if_pos hbody, if_pos hbody]
  · rw [if_neg hbody, if_neg hbody]

/-- Whether a record has expired is read inside it. -/
theorem scanRetainedExpired_eq (L : Limits) (now : Nat) (hblob : blob.length < 4294967296) :
    scanRetainedExpired L now blob = .ok (retainedExpired L now blob) := by
  have hhdr : hdrLen = 12 := rfl
  have hmin : retainedBodyMin = 16 := rfl
  have hinside := scanHeader_inside hblob .retained
  rw [scanRetainedExpired, retainedExpired, scanHeader_eq hblob]
  cases hscan : scanHeader blob .retained with
  | error e =>
    obtain ⟨rc, rfl⟩ := hinside.of_error hscan
    rfl
  | ok bodyLen =>
    have hbody := hinside.of_ok hscan
    have hlen : ((blob.drop hdrLen).take bodyLen).length = bodyLen := by
      rw [List.length_take, List.length_drop]
      omega
    dsimp only
    rw [hlen]
    by_cases hshort : bodyLen < retainedBodyMin
    · rw [if_pos hshort, decide_eq_false (by omega), Bool.false_and]
    have hfield (off w : Nat) (h : off + w ≤ bodyLen) :
        (((blob.drop hdrLen).take bodyLen).drop off).take w = (blob.drop (hdrLen + off)).take w := by
      rw [List.drop_take, List.drop_drop, List.take_take, Nat.min_eq_left (by omega)]
    rw [if_neg hshort, decide_eq_true (by omega), Bool.true_and, readNumber_of_le (by omega), ok_bind,
      readNumber_of_le (by omega), ok_bind, hfield 2 8 (by omega), hfield 10 4 (by omega)]

theorem messageExpired_mono {L : Limits} {now now' storeTime expirySec : Nat} (hle : now ≤ now')
    (h : messageExpired L now storeTime expirySec = true) : messageExpired L now' storeTime expirySec = true := by
  simp only [messageExpired, Bool.and_eq_true, decide_eq_true_eq] at h ⊢
  omega

/-- What has expired stays so while the clock goes on. -/
theorem retainedExpired_mono {L : Limits} {now now' : Nat} (hle : now ≤ now') (h : retainedExpired L now blob = true) :
    retainedExpired L now' blob = true := by
  unfold retainedExpired at h ⊢
  split
  next herr => rw [herr] at h; cases h
  next body hok =>
    rw [hok] at h
    obtain ⟨hlen, hexp⟩ := (Bool.and_eq_true _ _).mp h
    exact (Bool.and_eq_true _ _).mpr ⟨hlen, messageExpired_mono hle hexp⟩

end expired

/-! ### The staging buffer -/

/-- A key that fits the buffer. -/
def Stageable (key : Bytes) : Prop := key ≠ [] ∧ key.length ≤ 254

/-- The buffer holds these keys, and nothing behind its end was written. -/
structure Staged (c : PurgeCtx) (keys : List Bytes) : Prop where
  size : c.buf.length = retainedPurgeBuf
  room : (Packed.pack 2 keys).length ≤ retainedPurgeBuf
  used : c.used = (Packed.pack 2 keys).length
  front : c.buf.take c.used = Packed.pack 2 keys
  count : c.count = keys.length

theorem Staged.empty : Staged {} [] := ⟨List.length_replicate, Nat.zero_le _, rfl, List.take_zero, rfl⟩

theorem stage_ok {buf data : Bytes} {off : Nat} (h : off + data.length ≤ buf.length) :
    stage buf off data = .ok (Buffer.writeAt buf off data) := if_pos h

theorem stageKey_spec {buf key : Bytes} {used : Nat} (hroom : used + 2 + key.length ≤ buf.length) :
    ∃ buf', stageKey buf used key = .ok buf' ∧ buf'.length = buf.length ∧
      buf'.take (used + 2 + key.length) = buf.take used ++ Packed.item 2 key := by
  have hone : used + [UInt8.ofNat (key.length / 256)].length ≤ buf.length := by rw [List.length_singleton]; omega
  have hlen₁ := Buffer.length_writeAt buf used [UInt8.ofNat (key.length / 256)] hone
  have htake₁ := Buffer.take_writeAt buf used [UInt8.ofNat (key.length / 256)] (by omega)
  generalize hbuf₁ : Buffer.writeAt buf used [UInt8.ofNat (key.length / 256)] = buf₁ at hlen₁ htake₁
  have htwo : used + 1 + [UInt8.ofNat key.length].length ≤ buf₁.length := by rw [List.length_singleton]; omega
  have hlen₂ := Buffer.length_writeAt buf₁ (used + 1) [UInt8.ofNat key.length] htwo
  have htake₂ := Buffer.take_writeAt buf₁ (used + 1) [UInt8.ofNat key.length] (by omega)
  generalize hbuf₂ : Buffer.writeAt buf₁ (used + 1) [UInt8.ofNat key.length] = buf₂ at hlen₂ htake₂
  have hkey : used + 2 + key.length ≤ buf₂.length := by omega
  refine ⟨Buffer.writeAt buf₂ (used + 2) key, ?_, ?_, ?_⟩
  · rw [stageKey, stage_ok hone, ok_bind, hbuf₁, stage_ok htwo, ok_bind, hbuf₂, stage_ok hkey]
  · rw [Buffer.length_writeAt _ _ _ hkey, hlen₂, hlen₁]
  · have hitem : Packed.item 2 key = [UInt8.ofNat (key.length / 256)] ++ ([UInt8.ofNat key.length] ++ key) := by
      simp [Packed.item, BigEndian.write]
    rw [List.length_singleton] at htake₁ htake₂
    rw [Buffer.take_writeAt _ _ _ (by omega), htake₂, htake₁, hitem]
    simp only [List.append_assoc]

/-- A key is staged behind the others. -/
theorem Staged.push {c : PurgeCtx} {keys : List Bytes} (h : Staged c keys) {key : Bytes}
    (hroom : c.used + 2 + key.length ≤ retainedPurgeBuf) :
    ∃ buf, stageKey c.buf c.used key = .ok buf ∧
      Staged {c with buf, used := (c.used + 2 + key.length) % 65536, count := (c.count + 1) % 65536} (keys ++ [key]) := by
  have hbuf : retainedPurgeBuf = 256 := rfl
  obtain ⟨buf, hok, hlen, htake⟩ := stageKey_spec (show c.used + 2 + key.length ≤ c.buf.length from hroom.trans_eq h.size.symm)
  have hused : (c.used + 2 + key.length) % 65536 = c.used + 2 + key.length := Nat.mod_eq_of_lt (by omega)
  have hpack : (Packed.pack 2 (keys ++ [key])).length = c.used + 2 + key.length := by
    rw [Packed.pack_concat, List.length_append, Packed.length_item, h.used]
    omega
  have hcount := Packed.mul_length_le 2 keys
  have hkeys := h.room
  refine ⟨buf, hok, ⟨hlen.trans h.size, by rw [hpack]; exact hroom, by rw [hpack]; exact hused, ?_, ?_⟩⟩
  · show buf.take ((c.used + 2 + key.length) % 65536) = _
    rw [hused, htake, h.front, Packed.pack_concat]
  · show (c.count + 1) % 65536 = _
    rw [h.count, List.length_append, List.length_singleton]
    exact Nat.mod_eq_of_lt (by omega)

/-- The keys are taken out as they were staged. -/
theorem Staged.taken {c : PurgeCtx} {keys : List Bytes} (h : Staged c keys) :
    stagedKeys c retainedPurgeBuf 0 = .ok (some keys) := by
  have hbuf : retainedPurgeBuf = 256 := rfl
  have hrun (turns : Nat) : ∀ (rest : List Bytes) (off : Nat), rest.length < turns →
      off + (Packed.pack 2 rest).length = c.used → c.buf.drop off = Packed.pack 2 rest ++ c.buf.drop c.used →
      stagedKeys c turns off = .ok (some rest) := by
    induction turns with
    | zero => exact fun _ _ hturns => absurd hturns (Nat.not_lt_zero _)
    | succ turns ih =>
      intro rest off hturns hoff hdrop
      have hused : c.used ≤ 256 := h.used ▸ h.room
      have hsize := h.size
      rw [stagedKeys]
      cases rest with
      | nil =>
        rw [Packed.pack_nil, List.length_nil] at hoff
        rw [if_neg (by omega)]
      | cons key rest =>
        obtain ⟨hlen, hkey, htail⟩ := Packed.take_drop hdrop
        rw [Packed.pack_cons, List.length_append, Packed.length_item] at hoff
        rw [List.length_cons] at hturns
        rw [if_pos (by omega), readNumber_of_le (by omega), ok_bind, hlen, BigEndian.read_write (by omega),
          Nat.mod_eq_of_lt (show off + 2 < 65536 by omega)]
        dsimp only
        rw [readBytes_of_le (by omega), ok_bind, hkey, Nat.mod_eq_of_lt (show off + 2 + key.length < 65536 by omega),
          ih rest _ (by omega) (by omega) htail]
        rfl
  have hcount := Packed.mul_length_le 2 keys
  have hroom := h.room
  refine hrun retainedPurgeBuf keys 0 (by omega) (by rw [h.used, Nat.zero_add]) ?_
  rw [← h.front, List.drop_zero, List.take_append_drop]

/-! ### A scan -/

/-- Sizes that the types of the iterator's arguments have room for. -/
def Sized (rs : List Record) : Prop := ∀ r ∈ rs, r.1.length < 65536 ∧ r.2.length < 4294967296

instance Sized.decidable (rs : List Record) : Decidable (Sized rs) :=
  inferInstanceAs (Decidable (∀ r ∈ rs, r.1.length < 65536 ∧ r.2.length < 4294967296))

section scan
variable {L : Limits} {t₀ t₁ : Nat} {c : PurgeCtx} {keys : List Bytes}

/-- What the callback does with a record: it is passed over, staged, or the scan stops in front of it. -/
theorem purgeCb_cases (now : Nat) (hs : Staged c keys) {key blob : Bytes} (hblob : blob.length < 4294967296) :
    (∃ c', purgeCb L now key blob c = .ok (0, c') ∧ Staged c' keys ∧ c'.more = c.more ∧
      ¬(retainedExpired L now blob = true ∧ Stageable key)) ∨
    (∃ c', purgeCb L now key blob c = .ok (0, c') ∧ Staged c' (keys ++ [key]) ∧ c'.more = c.more ∧
      retainedExpired L now blob = true) ∨
    (∃ c', purgeCb L now key blob c = .ok (1, c') ∧ Staged c' keys ∧ c'.more = true ∧ keys ≠ []) := by
  have hbuf : retainedPurgeBuf = 256 := rfl
  unfold purgeCb
  by_cases hnil : key = []
  · rw [if_pos hnil]
    exact .inl ⟨c, rfl, hs, rfl, fun h => h.2.1 hnil⟩
  rw [if_neg hnil, scanRetainedExpired_eq L now hblob, ok_bind]
  cases hexp : retainedExpired L now blob with
  | false =>
    rw [if_pos (by decide)]
    exact .inl ⟨c, rfl, hs, rfl, fun h => Bool.false_ne_true h.1⟩
  | true =>
    rw [if_neg (by decide)]
    by_cases hlong : key.length + 2 > retainedPurgeBuf
    · rw [if_pos hlong]
      have hnot : ¬Stageable key := fun h => by
        have hle := h.2
        omega
      exact .inl ⟨_, rfl, ⟨hs.size, hs.room, hs.used, hs.front, hs.count⟩, rfl, fun h => hnot h.2⟩
    rw [if_neg hlong]
    by_cases hroom : c.used + 2 + key.length > retainedPurgeBuf
    · rw [if_pos hroom]
      refine .inr (.inr ⟨_, rfl, ⟨hs.size, hs.room, hs.used, hs.front, hs.count⟩, rfl, ?_⟩)
      rintro rfl
      have hused : c.used = 0 := hs.used
      omega
    · rw [if_neg hroom]
      obtain ⟨buf, hok, hpush⟩ := hs.push (Nat.not_lt.mp hroom)
      rw [hok, ok_bind]
      exact .inr (.inl ⟨_, rfl, hpush, rfl, rfl⟩)

/-- A scan: the keys it stages had expired, and if it was not cut short none that had is left out. Where it was, there
are keys to delete. -/
theorem purgeIter_spec {clock : Nat → Nat} (hclock : ∀ i, t₀ ≤ clock i ∧ clock i ≤ t₁) (rs : List Record) :
    ∀ {i : Nat} {c : PurgeCtx} {keys : List Bytes}, Sized rs → Staged c keys → c.more = false →
    ∃ c' found, purgeIter L clock i rs c = .ok c' ∧ Staged c' (keys ++ found) ∧
      (∀ key ∈ found, ∃ r ∈ rs, r.1 = key ∧ retainedExpired L t₁ r.2 = true) ∧
      (if c'.more then keys ++ found ≠ []
        else ∀ r ∈ rs, retainedExpired L t₀ r.2 = true → Stageable r.1 → r.1 ∈ found) := by
  induction rs with
  | nil =>
    intro i c keys _ hs hmore
    refine ⟨c, [], rfl, by rwa [List.append_nil], nofun, ?_⟩
    rw [hmore]
    exact nofun
  | cons r rs ih =>
    intro i c keys hsized hs hmore
    have hsized' : Sized rs := fun r' hr' => hsized r' (List.mem_cons_of_mem r hr')
    rw [purgeIter]
    rcases purgeCb_cases (clock i) hs (hsized r List.mem_cons_self).2 with
      ⟨c', hcb, hs', hmore', hskip⟩ | ⟨c', hcb, hs', hmore', hexp⟩ | ⟨c', hcb, hs', hmore', hne⟩
    · rw [hcb, ok_bind]
      obtain ⟨c'', found, hiter, hs'', hfound, hall⟩ := ih (i := i + 1) hsized' hs' (hmore'.trans hmore)
      refine ⟨c'', found, hiter, hs'', fun key hkey => ?_, ?_⟩
      · obtain ⟨r', hr', h⟩ := hfound key hkey
        exact ⟨r', List.mem_cons_of_mem r hr', h⟩
      · cases hm : c''.more with
        | true =>
          rw [hm] at hall
          exact hall
        | false =>
          rw [hm] at hall
          intro r' hr' hexp' hst
          rcases List.mem_cons.mp hr' with rfl | hr'
          · exact absurd ⟨retainedExpired_mono (hclock i).1 hexp', hst⟩ hskip
          · exact hall r' hr' hexp' hst
    · rw [hcb, ok_bind]
      obtain ⟨c'', found, hiter, hs'', hfound, hall⟩ := ih (i := i + 1) hsized' hs' (hmore'.trans hmore)
      rw [List.append_assoc] at hs'' hall
      refine ⟨c'', r.1 :: found, hiter, hs'', fun key hkey => ?_, ?_⟩
      · rcases List.mem_cons.mp hkey with rfl | hkey
        · exact ⟨r, List.mem_cons_self, rfl, retainedExpired_mono (hclock i).2 hexp⟩
        · obtain ⟨r', hr', h⟩ := hfound key hkey
          exact ⟨r', List.mem_cons_of_mem r hr', h⟩
      · cases hm : c''.more with
        | true =>
          rw [hm] at hall
          exact hall
        | false =>
          rw [hm] at hall
          intro r' hr' hexp' hst
          rcases List.mem_cons.mp hr' with rfl | hr'
          · exact List.mem_cons_self
          · exact List.mem_cons_of_mem _ (hall r' hr' hexp' hst)
    · rw [hcb, ok_bind]
      refine ⟨c', [], rfl, by rwa [List.append_nil], nofun, ?_⟩
      rw [hmore', List.append_nil]
      exact hne

end scan

/-! ### All scans -/

/-- No record that can be staged had expired in the beginning. -/
def Drained (L : Limits) (t₀ : Nat) (kv : Kv) : Prop :=
  ∀ r ∈ kv .retained, retainedExpired L t₀ r.2 = true → ¬Stageable r.1

theorem mem_kvDels_retained {keys : List Bytes} {kv : Kv} {r : Record} :
    r ∈ keys.foldl (fun kv key => kvDel .retained key kv) kv .retained ↔ r ∈ kv .retained ∧ r.1 ∉ keys := by
  induction keys generalizing kv with
  | nil => simp
  | cons key keys ih =>
    rw [List.foldl_cons, ih, kvDel_apply, if_pos rfl, List.mem_filter, List.mem_cons, not_or, decide_eq_true_eq]
    tauto

section sweep
variable {L : Limits} {order : Nat → List Record → List Record} {clock : Nat → Nat → Nat} {t₀ t₁ : Nat}

/-- The loop: every scan it makes deletes only what had expired, and if it stops there is nothing left to find. -/
theorem purgeLoop_spec (horder : ∀ n rs, (order n rs).Perm rs) (hclock : ∀ n i, t₀ ≤ clock n i ∧ clock n i ≤ t₁)
    (passes : Nat) : ∀ {s : Sweep}, ((s.kv .retained).map Prod.fst).Nodup → Sized (s.kv .retained) → s.stopped = false →
    ∃ s', purgeLoop L order clock passes s = .ok (some s') ∧ s'.scans ≤ s.scans + passes ∧ Purged L t₁ s.kv s'.kv ∧
      (s'.stopped = true → Drained L t₀ s'.kv) := by
  induction passes with
  | zero =>
    intro s _ _ hstopped
    refine ⟨s, rfl, le_refl _, .refl L t₁ s.kv, fun h => ?_⟩
    rw [hstopped] at h
    cases h
  | succ passes ih =>
    intro s hkeys hsized hstopped
    have hperm := horder s.scans (s.kv .retained)
    obtain ⟨c, found, hiter, hstaged, hfound, hall⟩ := purgeIter_spec (L := L) (hclock s.scans) _
      (i := 0) (fun r hr => hsized r (hperm.subset hr)) Staged.empty rfl
    rw [List.nil_append] at hstaged hall
    have hexpired : ∀ key ∈ found, ∀ r ∈ s.kv .retained, r.1 = key → retainedExpired L t₁ r.2 = true := by
      intro key hkey r hr heq
      obtain ⟨r', hr', hk, hexp⟩ := hfound key hkey
      rw [List.inj_on_of_nodup_map hkeys hr (hperm.subset hr') (heq.trans hk.symm)]
      exact hexp
    have hdel : Purged L t₁ s.kv (found.foldl (fun kv key => kvDel .retained key kv) s.kv) := .delete found hexpired
    have hdrained (hmore : c.more = false) : Drained L t₀ (found.foldl (fun kv key => kvDel .retained key kv) s.kv) := by
      intro r hr hexp hst
      obtain ⟨hr, hnot⟩ := mem_kvDels_retained.mp hr
      rw [hmore] at hall
      exact hnot (hall r (hperm.symm.subset hr) hexp hst)
    rw [purgeLoop, hiter, ok_bind]
    dsimp only
    by_cases hcount : c.count = 0
    · rw [if_pos hcount]
      have hnone : found = [] := List.length_eq_zero_iff.mp (hstaged.count.symm.trans hcount)
      subst hnone
      refine ⟨_, rfl, by dsimp only; omega, .refl L t₁ s.kv, fun _ => ?_⟩
      cases hmore : c.more with
      | true =>
        rw [hmore] at hall
        exact absurd rfl hall
      | false => exact hdrained hmore
    rw [if_neg hcount, hstaged.taken, ok_bind]
    dsimp only
    have hlen : found.length ≠ 0 := by
      rw [← hstaged.count]
      exact hcount
    cases hmore : c.more with
    | false =>
      rw [if_pos (by simp)]
      exact ⟨_, rfl, by dsimp only; omega, hdel, fun _ => hdrained hmore⟩
    | true =>
      rw [if_neg (by simpa using hlen)]
      have hsub : (found.foldl (fun kv key => kvDel .retained key kv) s.kv .retained).Sublist (s.kv .retained) := by
        obtain ⟨keep, hkeep, -⟩ := hdel.kept
        rw [hkeep]
        exact List.filter_sublist
      obtain ⟨s', hrun, hscans, hpurged, hdone⟩ := ih
        (s := ⟨found.foldl (fun kv key => kvDel .retained key kv) s.kv, s.scans + 1, s.total + found.length,
          s.oversized || c.oversized, s.stopped⟩)
        (hkeys.sublist (hsub.map _)) (fun r hr => hsized r (hsub.subset hr)) hstopped
      exact ⟨s', hrun, by dsimp only at hscans; omega, hdel.trans hpurged, hdone⟩

/-- The sweep stays inside its staging buffer, makes so many scans at most, deletes only records that have expired, and
if it ends before the bound, all those that had expired in the beginning and have a key of 1 to 254 bytes. -/
theorem restorePurgeExpired_exact (horder : ∀ n rs, (order n rs).Perm rs)
    (hclock : ∀ n i, t₀ ≤ clock n i ∧ clock n i ≤ t₁) (kv : Kv) (hkeys : ((kv .retained).map Prod.fst).Nodup)
    (hsized : Sized (kv .retained)) :
    ∃ s, restorePurgeExpired L order clock kv = .ok (some s) ∧ s.scans ≤ retainedPurgePasses ∧
      (∀ ns, ns ≠ .retained → s.kv ns = kv ns) ∧ (s.kv .retained).Sublist (kv .retained) ∧
      (∀ r ∈ kv .retained, r ∉ s.kv .retained → retainedExpired L t₁ r.2 = true) ∧
      (s.stopped = true → ∀ r ∈ kv .retained, retainedExpired L t₀ r.2 = true → r.1 ≠ [] → r.1.length ≤ 254 →
        r ∉ s.kv .retained) := by
  obtain ⟨s, hrun, hscans, hpurged, hdone⟩ := purgeLoop_spec (L := L) horder hclock retainedPurgePasses (s := {kv})
    hkeys hsized rfl
  obtain ⟨keep, hkeep, hall⟩ := hpurged.kept
  refine ⟨s, hrun, by simpa using hscans, hpurged.others, hkeep ▸ List.filter_sublist, fun r hr hgone => ?_, ?_⟩
  · cases hexp : retainedExpired L t₁ r.2 with
    | true => rfl
    | false =>
      rw [hkeep] at hgone
      exact absurd (List.mem_filter.mpr ⟨hr, hall r hr hexp⟩) hgone
  · exact fun hstopped r _ hexp hne hlen hmem => hdone hstopped r hmem hexp ⟨hne, hlen⟩

end sweep

/-- A retained record that has expired at 100 where it was stored for less than 10 seconds. -/
def sampleRetained (key : Bytes) (expirySec : Nat) : Record :=
  (key, frameRecord .retained (retainedBody {
    topic := key, payload := [0x70], qos := .qos1, storeTime := 90, expirySec}))

/-- Whether a sweep stopped, and what it left. -/
def sweptTo (x : Except Fault (Option Sweep)) : Except Fault (Option (Bool × List Record)) :=
  x.map fun s? => s?.map fun s => (s.stopped, s.kv .retained)

/-- Of a record that has expired and one that has not, the sweep leaves the second. -/
theorem restorePurgeExpired_sample :
    ∃ s, restorePurgeExpired {} (fun _ rs => rs) (fun _ _ => 100)
        (fun _ => [sampleRetained [0x61] 5, sampleRetained [0x62] 50]) = .ok (some s) ∧
      sampleRetained [0x61] 5 ∉ s.kv .retained ∧ sampleRetained [0x62] 50 ∈ s.kv .retained := by
  obtain ⟨s, hrun, -, -, -, hexpired, hall⟩ := restorePurgeExpired_exact (L := {}) (fun _ rs => List.Perm.refl rs)
    (fun _ _ => ⟨Nat.le_refl 100, Nat.le_refl 100⟩) (fun _ => [sampleRetained [0x61] 5, sampleRetained [0x62] 50])
    (by decide +kernel) (by decide +kernel)
  have hview : sweptTo (restorePurgeExpired {} (fun _ rs => rs) (fun _ _ => 100)
      (fun _ => [sampleRetained [0x61] 5, sampleRetained [0x62] 50])) = .ok (some (true, [sampleRetained [0x62] 50])) := by
    decide +kernel
  rw [hrun] at hview
  have hstopped : s.stopped = true := congrArg Prod.fst (Option.some.inj (Except.ok.inj hview))
  refine ⟨s, hrun, hall hstopped _ List.mem_cons_self (by decide +kernel) (by decide) (by decide), ?_⟩
  by_contra hgone
  exact absurd (hexpired _ (List.mem_cons_of_mem _ List.mem_cons_self) hgone) (by decide +kernel)

/-- A record without a key is left, though the sweep ends before the bound. -/
theorem not_purge_emptyKey : ¬∀ (L : Limits) (order : Nat → List Record → List Record) (clock : Nat → Nat → Nat) (t : Nat)
    (kv : Kv), (∀ n rs, (order n rs).Perm rs) → (∀ n i, clock n i = t) → ((kv .retained).map Prod.fst).Nodup →
    Sized (kv .retained) → ∃ s, restorePurgeExpired L order clock kv = .ok (some s) ∧
      (s.stopped = true → ∀ r ∈ kv .retained, retainedExpired L t r.2 = true → r.1.length ≤ 254 → r ∉ s.kv .retained) := by
  intro hall
  obtain ⟨s, hrun, hgone⟩ := hall {} (fun _ rs => rs) (fun _ _ => 100) 100 (fun _ => [sampleRetained [] 5])
    (fun _ rs => List.Perm.refl rs) (fun _ _ => rfl) (by decide +kernel) (by decide +kernel)
  have hview : sweptTo (restorePurgeExpired {} (fun _ rs => rs) (fun _ _ => 100) (fun _ => [sampleRetained [] 5])) =
      .ok (some (true, [sampleRetained [] 5])) := by
    decide +kernel
  rw [hrun] at hview
  have hpair : (s.stopped, s.kv .retained) = (true, [sampleRetained [] 5]) := Option.some.inj (Except.ok.inj hview)
  have hkept : s.kv .retained = [sampleRetained [] 5] := congrArg Prod.snd hpair
  refine hgone (congrArg Prod.fst hpair) _ List.mem_cons_self (by decide +kernel) (by decide) ?_
  rw [hkept]
  exact List.mem_cons_self

end WolfMqtt.Persist.Load
