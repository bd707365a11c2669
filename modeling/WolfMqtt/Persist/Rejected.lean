import WolfMqtt.Lib.Agree
import WolfMqtt.Persist.StaticLoad

/-! A record that is not restored leaves the broker as it was, in both builds and whatever the record's bytes are.

Every decoder is followed with one specification: it reads inside the key and the blob, and where it gives up the
broker is what it was in the beginning. In the build with dynamic memory nothing is linked before the last step
that can fail. In the one with static memory slots are claimed early, and what is kept along the way is that giving
them back restores the beginning. -/
namespace WolfMqtt.Persist.Load

open Broker
open Agree (Yields bind_eq_ok ok_bind)
open Attempt (Prog Spec)

/-! ### Reading -/

section reading
variable {blob : Bytes}

theorem readNumber_of_le {w pos : Nat} (h : pos + w ≤ blob.length) :
    readNumber w blob pos = .ok (BigEndian.read ((blob.drop pos).take w)) := by
  rw [readNumber, readBytes_of_le h]
  rfl

theorem readNumber_inside {w pos : Nat} (h : pos + w ≤ blob.length) :
    Yields Returned (fun _ => True) (readNumber w blob pos) := by
  rw [readNumber_of_le h]
  trivial

/-- The body that a header announces lies in the blob. -/
theorem scanHeader_inside (hblob : blob.length < 4294967296) (kind : Ns) :
    Yields Returned (fun bodyLen => hdrLen + bodyLen ≤ blob.length) (scanHeader blob kind) := by
  unfold scanHeader
  refine .ite (fun _ => rejected _) fun hlen => ?_
  have hhdr : hdrLen = 12 := rfl
  refine (readBytes_inside (by omega)).bind fun _ _ => .ite (fun _ => rejected _) fun _ => ?_
  refine (readNumber_inside (by omega)).bind fun _ _ => .ite (fun _ => rejected _) fun _ => ?_
  refine (readByte_inside (by omega)).bind fun _ _ => .ite (fun _ => rejected _) fun _ => ?_
  refine (readByte_inside (by omega)).bind fun _ _ => .ite (fun _ => rejected _) fun _ => ?_
  refine (readNumber_inside (by omega)).bind fun bodyLen _ => .ite (fun _ => rejected _) fun hbody => ?_
  rw [wordDiff_of_le (by omega) hblob] at hbody
  show hdrLen + bodyLen ≤ blob.length
  omega

theorem sessionFields_inside {bodyLen : Nat} (hbody : hdrLen + bodyLen ≤ blob.length) (hmin : ¬bodyLen < 16) :
    Yields Returned (fun s => cidPos + s.cidLen ≤ blob.length) (sessionFields blob bodyLen) := by
  unfold sessionFields
  refine (readByte_inside (by omega)).bind fun _ _ => ?_
  refine (readNumber_inside (by omega)).bind fun _ _ => ?_
  refine (readNumber_inside (by omega)).bind fun _ _ => ?_
  refine (readNumber_inside (by omega)).bind fun cidLen _ => .ite (fun _ => rejected _) fun hcid => ?_
  refine .ite (fun _ => rejected _) fun _ => ?_
  show cidPos + cidLen ≤ blob.length
  rw [cidPos]
  omega

theorem scanRetainedExpired_inside (hblob : blob.length < 4294967296) (L : Limits) (now : Nat) :
    Yields Returned (fun _ => True) (scanRetainedExpired L now blob) := by
  have hheader := scanHeader_inside hblob .retained
  unfold scanRetainedExpired
  cases h : scanHeader blob .retained with
  | error e =>
    obtain ⟨rc, rfl⟩ := hheader.of_error h
    trivial
  | ok bodyLen =>
    have hbody := hheader.of_ok h
    have hmin : retainedBodyMin = 16 := rfl
    refine .ite (fun _ => trivial) fun hlen => ?_
    refine (readNumber_inside (by omega)).bind fun _ _ => ?_
    exact (readNumber_inside (by omega)).bind fun _ _ => trivial

/-- The topic and the length of the payload behind it lie in the body. -/
theorem retainedFields_inside {end_ : Nat} (hend : end_ ≤ blob.length) (hblob : blob.length < 4294967296)
    (hhdr : hdrLen ≤ end_) :
    Yields Returned (fun r => topicPos + r.topicLen + 4 ≤ end_) (retainedFields blob end_) := by
  have hmin : retainedBodyMin = 16 := rfl
  unfold retainedFields
  rw [wordDiff_of_le hhdr (by omega)]
  refine .ite (fun _ => rejected _) fun hlen => ?_
  refine (readByte_inside (by omega)).bind fun _ _ => ?_
  refine (readNumber_inside (by omega)).bind fun _ _ => ?_
  refine (readNumber_inside (by omega)).bind fun _ _ => ?_
  refine (readNumber_inside (by omega)).bind fun topicLen _ => .ite (fun _ => rejected _) fun htopic => ?_
  rw [wordDiff_of_le (by omega) (by omega)] at htopic
  show topicPos + topicLen + 4 ≤ end_
  rw [topicPos]
  omega

theorem subFields_inside {end_ p : Nat} (hend : end_ ≤ blob.length) (hblob : blob.length < 4294967296) (hp : p ≤ end_) :
    Yields Returned (fun f => p + 4 + f.2 ≤ end_) (subFields blob end_ p) := by
  unfold subFields
  rw [wordDiff_of_le hp (by omega)]
  refine .ite (fun _ => rejected _) fun hlen => ?_
  refine (readByte_inside (by omega)).bind fun _ _ => ?_
  refine (readNumber_inside (by omega)).bind fun flen _ => .ite (fun _ => rejected _) fun hflen => ?_
  rw [wordDiff_of_le (by omega) (by omega)] at hflen
  show p + 4 + flen ≤ end_
  omega

theorem outqOwner_inside (key : Bytes) : Yields Returned (fun _ => True) (outqOwner key) := by
  unfold outqOwner
  refine .ite (fun _ => rejected _) fun hlen => ?_
  refine (readByte_inside (by omega)).bind fun _ _ => .ite (fun _ => rejected _) fun _ => ?_
  exact readBytes_inside (by omega)

theorem outqFields_inside (L : Limits) {bodyLen : Nat} (hbody : hdrLen + bodyLen ≤ blob.length)
    (hblob : blob.length < 4294967296) (hmin : ¬bodyLen < outqBodyMin) :
    Yields Returned (fun f => outqTopicPos + f.2 + 4 ≤ hdrLen + bodyLen) (outqFields L blob (hdrLen + bodyLen)) := by
  have houtq : outqBodyMin = 30 := rfl
  unfold outqFields
  refine (readByte_inside (by omega)).bind fun _ _ => ?_
  refine (readByte_inside (by omega)).bind fun _ _ => ?_
  refine (readByte_inside (by omega)).bind fun _ _ => ?_
  refine (readByte_inside (by omega)).bind fun _ _ => ?_
  refine (readByte_inside (by omega)).bind fun _ _ => .ite (fun _ => rejected _) fun _ => ?_
  refine (readNumber_inside (by omega)).bind fun _ _ => ?_
  refine (readNumber_inside (by omega)).bind fun _ _ => ?_
  refine (readNumber_inside (by omega)).bind fun _ _ => .ite (fun _ => rejected _) fun _ => ?_
  refine (readNumber_inside (by omega)).bind fun _ _ => ?_
  refine (readNumber_inside (by omega)).bind fun topicLen _ => .ite (fun _ => rejected _) fun htopic => ?_
  rw [wordDiff_of_le (by omega) (by omega)] at htopic
  show outqTopicPos + topicLen + 4 ≤ hdrLen + bodyLen
  rw [outqTopicPos]
  omega

end reading

/-! ### The build with dynamic memory -/

/-- The broker is still `b`. -/
def Untouched (b : Lists) (h : Heap) : Prop := h.broker = b

/-- A decoder gave up, with the broker as it was. -/
def GaveUp {σ : Type} (same : σ → Prop) (e : Fault) (s : σ) : Prop := Returned e ∧ same s

section dynamic
variable {b : Lists} {key blob : Bytes}

/-- Giving up in front of a step that touches the broker. -/
theorem careful_lift {α β : Type} {x : Except Fault α} {P : α → Prop} {f : α → LoadM β} {q : β → Heap → Prop}
    (hx : Yields Returned P x) (hf : ∀ a, P a → Spec (Untouched b) (f a) (GaveUp (Untouched b)) q) :
    Spec (Untouched b) (Attempt.lift x >>= f) (GaveUp (Untouched b)) q :=
  .lift_bind (fun _ he _ hs => ⟨hx.of_error he, hs⟩) fun a ha => hf a (hx.of_ok ha)

theorem careful_reject {α : Type} (rc : Int) {q : α → Heap → Prop} :
    Spec (Untouched b) (reject rc : LoadM α) (GaveUp (Untouched b)) q :=
  .fail fun _ hs => ⟨⟨rc, rfl⟩, hs⟩

theorem malloc_careful : Spec (Untouched b) malloc (GaveUp (Untouched b)) fun _ => Untouched b := by
  rintro ⟨broker, allocs, nextAddr⟩ hs
  match allocs with
  | [] => exact hs
  | true :: rest => exact hs
  | false :: rest => exact ⟨⟨_, rfl⟩, hs⟩

theorem careful_malloc {β : Type} {f : Nat → LoadM β} {q : β → Heap → Prop}
    (hf : ∀ a, Spec (Untouched b) (f a) (GaveUp (Untouched b)) q) :
    Spec (Untouched b) (malloc >>= f) (GaveUp (Untouched b)) q :=
  malloc_careful.bind hf

theorem careful_fetch {β : Type} {f : Heap → LoadM β} {q : β → Heap → Prop}
    (hf : ∀ h, Spec (Untouched b) (f h) (GaveUp (Untouched b)) q) :
    Spec (Untouched b) (Attempt.fetch >>= f) (GaveUp (Untouched b)) q :=
  .fetch_bind fun h hs => hf h h hs

theorem careful_update (f : Lists → Lists) :
    Spec (Untouched b) (update f) (GaveUp (Untouched b)) fun _ _ => True :=
  .change fun _ _ => trivial

theorem restoreCreateOrphan_careful (L : Limits) (now : Nat) {s : SessionFields} (hs : cidPos + s.cidLen ≤ blob.length) :
    Spec (Untouched b) (restoreCreateOrphan L now blob s) (GaveUp (Untouched b)) fun _ _ => True := by
  unfold restoreCreateOrphan
  refine .ite (fun _ => careful_reject _) fun _ => careful_fetch fun h => .ite (fun _ => careful_reject _) fun _ => ?_
  refine careful_malloc fun addr => careful_malloc fun _ => ?_
  exact careful_lift (readBytes_inside hs) fun clientId _ => careful_update _

theorem decodeAndInsertSession_careful (L : Limits) (now : Nat) (hblob : blob.length < 4294967296) :
    Spec (Untouched b) (decodeAndInsertSession L now blob) (GaveUp (Untouched b)) fun _ _ => True := by
  unfold decodeAndInsertSession
  refine careful_lift (scanHeader_inside hblob _) fun bodyLen hbody => .ite (fun _ => careful_reject _) fun hmin => ?_
  exact careful_lift (sessionFields_inside hbody hmin) fun s hs => restoreCreateOrphan_careful L now hs

/-- The payload's space may be missing too. -/
theorem careful_payload {β : Type} {pos len : Nat} (h : pos + len ≤ blob.length) {f : Bytes → LoadM β}
    {q : β → Heap → Prop} (hf : ∀ payload, Spec (Untouched b) (f payload) (GaveUp (Untouched b)) q) :
    Spec (Untouched b) (copyPayload blob pos len >>= f) (GaveUp (Untouched b)) q := by
  have hcopy : Spec (Untouched b) (copyPayload blob pos len) (GaveUp (Untouched b)) fun _ => Untouched b := by
    unfold copyPayload
    refine .ite (fun _ => careful_malloc fun _ => ?_) fun _ => .ret fun _ hs => hs
    exact .lift (fun _ he _ hs => ⟨(readBytes_inside h).of_error he, hs⟩) fun _ _ _ hs => hs
  exact hcopy.bind hf

theorem decodeAndInsertRetained_careful (L : Limits) (now : Nat) (hblob : blob.length < 4294967296) :
    Spec (Untouched b) (decodeAndInsertRetained L now blob) (GaveUp (Untouched b)) fun _ _ => True := by
  unfold decodeAndInsertRetained
  refine careful_lift (scanHeader_inside hblob _) fun bodyLen hbody => ?_
  refine careful_lift (retainedFields_inside hbody hblob (Nat.le_add_right _ _)) fun r hr => ?_
  refine careful_lift (scanRetainedExpired_inside hblob L now) fun _ _ => .ite (fun _ => careful_reject _) fun _ => ?_
  refine careful_fetch fun h => .ite (fun _ => careful_reject _) fun _ => careful_malloc fun _ => careful_malloc fun _ => ?_
  refine careful_lift (readBytes_inside (by omega)) fun topic _ => ?_
  refine careful_lift (readNumber_inside (by omega)) fun payloadLen _ => ?_
  rw [wordDiff_of_le hr (by omega)]
  refine .ite (fun _ => careful_reject _) fun hpayload => ?_
  exact careful_payload (by omega) fun payload => careful_update _

/-- The local list is all that a subscription record's entries go to. -/
theorem subEntries_careful (key : Bytes) {end_ : Nat} (hend : end_ ≤ blob.length) (hblob : blob.length < 4294967296)
    (count : Nat) : ∀ {p : Nat}, p ≤ end_ →
      Spec (Untouched b) (subEntries key blob end_ count p) (GaveUp (Untouched b)) fun _ => Untouched b := by
  induction count with
  | zero => exact fun _ => .ret fun _ hs => hs
  | succ count ih =>
    intro p hp
    rw [subEntries]
    refine careful_lift (subFields_inside hend hblob hp) fun f hf => ?_
    obtain ⟨qos, flen⟩ := f
    refine careful_malloc fun _ => careful_malloc fun _ => ?_
    refine careful_lift (readBytes_inside (Nat.le_trans hf hend)) fun filter _ => careful_malloc fun _ => ?_
    exact (ih hf).bind fun rest => .ret fun _ hs => hs

theorem decodeAndInsertSubs_careful (key : Bytes) (hblob : blob.length < 4294967296) :
    Spec (Untouched b) (decodeAndInsertSubs key blob) (GaveUp (Untouched b)) fun _ _ => True := by
  unfold decodeAndInsertSubs
  refine careful_lift (scanHeader_inside hblob _) fun bodyLen hbody => .ite (fun _ => careful_reject _) fun _ => ?_
  refine careful_fetch fun h => .ite (fun _ => careful_reject _) fun _ => ?_
  dsimp only
  rw [wordDiff_of_le (Nat.le_add_right _ _) (by omega)]
  refine .ite (fun _ => careful_reject _) fun htwo => ?_
  refine careful_lift (readNumber_inside (by omega)) fun count _ => ?_
  exact (subEntries_careful key hbody hblob count (by omega)).bind fun subs => careful_update _

theorem decodeAndInsertOutq_careful (L : Limits) (key : Bytes) (hblob : blob.length < 4294967296) :
    Spec (Untouched b) (decodeAndInsertOutq L key blob) (GaveUp (Untouched b)) fun _ _ => True := by
  unfold decodeAndInsertOutq
  refine careful_lift (outqOwner_inside key) fun clientId _ => ?_
  refine careful_lift (scanHeader_inside hblob _) fun bodyLen hbody => .ite (fun _ => careful_reject _) fun hmin => ?_
  refine careful_lift (outqFields_inside L hbody hblob hmin) fun f hf => careful_fetch fun h => ?_
  obtain ⟨e, topicLen⟩ := f
  dsimp only at hf ⊢
  cases findOrphan h.broker clientId with
  | none => exact careful_reject _
  | some o =>
    refine careful_malloc fun addr => careful_malloc fun _ => ?_
    refine careful_lift (readBytes_inside (by omega)) fun topic _ => ?_
    refine careful_lift (readNumber_inside (by omega)) fun payloadLen _ => ?_
    rw [wordDiff_of_le hf (by omega)]
    refine .ite (fun _ => careful_reject _) fun hpayload => ?_
    exact careful_payload (by omega) fun payload => careful_update _

theorem restoreRecord_careful (L : Limits) (now : Nat) (ns : Ns) (key : Bytes) (hblob : blob.length < 4294967296) :
    Spec (Untouched b) (restoreRecord L now ns key blob) (GaveUp (Untouched b)) fun _ _ => True :=
  match ns with
  | .meta => .ret fun _ _ => trivial
  | .session => decodeAndInsertSession_careful L now hblob
  | .subs => decodeAndInsertSubs_careful key hblob
  | .retained => decodeAndInsertRetained_careful L now hblob
  | .outq => decodeAndInsertOutq_careful L key hblob

end dynamic

end WolfMqtt.Persist.Load

/-! ### The build with static memory -/

namespace WolfMqtt.Persist.StaticLoad

open Broker Load
open Static (StaticLimits)
open Agree (Yields)
open Attempt (Prog Spec)

theorem firstFree_eq_some {α : Type} {slots : List (Option α)} {i : Nat} (h : firstFree slots = some i) :
    slots[i]? = some none := by
  obtain ⟨hi, hfree, -⟩ := List.findIdx?_eq_some_iff_getElem.mp h
  rw [List.getElem?_eq_getElem hi, Option.isNone_iff_eq_none.mp hfree]

/-- Freeing a slot that is free changes nothing. -/
theorem set_none {α : Type} {slots : List (Option α)} {i : Nat} (h : slots[i]? = some none) : slots.set i none = slots := by
  obtain ⟨hi, hfree⟩ := List.getElem?_eq_some_iff.mp h
  rw [← hfree, List.set_getElem_self]

/-- A slot that was free is free again. -/
theorem set_free {α : Type} {slots : List (Option α)} {i : Nat} (h : slots[i]? = some none) (x : Option α) :
    (slots.set i x).set i none = slots := by
  rw [List.set_set, set_none h]

/-- What stands in a slot does not matter where it is freed in the end. -/
theorem release_setSub (k : Nat) (x : Option SubSlot) (claimed : List Nat) (b : Slots) :
    ((b.setSub k x).release claimed).setSub k none = (b.release claimed).setSub k none := by
  induction claimed generalizing b x with
  | nil => exact congrArg (fun subs => {b with subs := subs}) (List.set_set ..)
  | cons c rest ih =>
    show (((b.setSub k x).setSub c none).release rest).setSub k none = ((b.setSub c none).release rest).setSub k none
    by_cases hc : c = k
    · subst hc
      rw [show (b.setSub c x).setSub c none = b.setSub c none from
        congrArg (fun subs => {b with subs := subs}) (List.set_set ..)]
    · rw [show (b.setSub k x).setSub c none = (b.setSub c none).setSub k x from
        congrArg (fun subs => {b with subs := subs}) (List.set_comm _ _ (Ne.symm hc))]
      exact ih x _

theorem release_free {k : Nat} (claimed : List Nat) {b : Slots} (h : b.subs[k]? = some none) :
    (b.release claimed).subs[k]? = some none := by
  induction claimed generalizing b with
  | nil => exact h
  | cons c rest ih =>
    refine ih (b := b.setSub c none) ?_
    show (b.subs.set c none)[k]? = some none
    rw [List.getElem?_set]
    split
    · next hc =>
      obtain ⟨hk, -⟩ := List.getElem?_eq_some_iff.mp h
      rw [if_pos (hc ▸ hk)]
    · exact h

/-- One more slot is claimed: giving all of them back leads to the same beginning. -/
theorem release_claim {k : Nat} {claimed : List Nat} {b : Slots} (h : b.subs[k]? = some none) (x : Option SubSlot) :
    (b.setSub k x).release (claimed ++ [k]) = b.release claimed := by
  have hlast : (b.setSub k x).release (claimed ++ [k]) = ((b.setSub k x).release claimed).setSub k none := by
    rw [Slots.release, List.foldl_append]
    rfl
  rw [hlast, release_setSub, Slots.setSub, set_none (release_free claimed h)]

section careful
variable {b : Slots} {key blob : Bytes}

/-- The same as in the beginning. -/
def Same (b : Slots) (s : Slots) : Prop := s = b

/-- Reading on, with `pre` to come back from to the beginning. -/
theorem careful_lift {α β : Type} {pre : Slots → Prop} {x : Except Fault α} {P : α → Prop} {f : α → SlotM β}
    {q : β → Slots → Prop} (hpre : ∀ s, pre s → s = b) (hx : Yields Returned P x)
    (hf : ∀ a, P a → Spec pre (f a) (GaveUp (Same b)) q) : Spec pre (Attempt.lift x >>= f) (GaveUp (Same b)) q :=
  .lift_bind (fun _ he _ hs => ⟨hx.of_error he, hpre _ hs⟩) fun a ha => hf a (hx.of_ok ha)

/-- Reading on where the read cannot fail. -/
theorem certain_lift {α β : Type} {pre : Slots → Prop} {x : Except Fault α} {a : α} {f : α → SlotM β}
    {q : β → Slots → Prop} {err : Fault → Slots → Prop} (hx : x = .ok a) (hf : Spec pre (f a) err q) :
    Spec pre (Attempt.lift x >>= f) err q :=
  .lift_bind (fun e he => by rw [hx] at he; cases he) fun a' ha' => by
    rw [hx] at ha'
    cases ha'
    exact hf

theorem careful_reject {α : Type} (rc : Int) {q : α → Slots → Prop} :
    Spec (Same b) (Attempt.fail (.code rc) : SlotM α) (GaveUp (Same b)) q :=
  .fail fun _ hs => ⟨⟨rc, rfl⟩, hs⟩

theorem careful_fetch {β : Type} {f : Slots → SlotM β} {q : β → Slots → Prop}
    (hf : Spec (Same b) (f b) (GaveUp (Same b)) q) : Spec (Same b) (Attempt.fetch >>= f) (GaveUp (Same b)) q :=
  .fetch_bind fun s hs => by
    cases hs
    exact hf b rfl

theorem restoreCreateOrphan_careful (L : StaticLimits) (now : Nat) {s : SessionFields} (hs : cidPos + s.cidLen ≤ blob.length) :
    Spec (Same b) (restoreCreateOrphan L now blob s) (GaveUp (Same b)) fun _ _ => True := by
  unfold restoreCreateOrphan
  refine .ite (fun _ => careful_reject _) fun _ => careful_fetch ?_
  cases firstFree b.sessions with
  | none => exact careful_reject _
  | some i => exact careful_lift (fun _ h => h) (readBytes_inside hs) fun _ _ => .change fun _ _ => trivial

theorem decodeAndInsertSession_careful (L : StaticLimits) (now : Nat) (hblob : blob.length < 4294967296) :
    Spec (Same b) (decodeAndInsertSession L now blob) (GaveUp (Same b)) fun _ _ => True := by
  unfold decodeAndInsertSession
  have hsame (s : Slots) (h : Same b s) : s = b := h
  refine careful_lift hsame (scanHeader_inside hblob _) fun bodyLen hbody => .ite (fun _ => careful_reject _) fun hmin => ?_
  refine careful_lift hsame (readByte_inside (by omega)) fun flags _ => .ite (fun _ => careful_reject _) fun _ => ?_
  refine careful_lift hsame (sessionFields_inside hbody hmin) fun s hs => .ite (fun _ => careful_reject _) fun _ => ?_
  exact .ite (fun _ => careful_reject _) fun _ => restoreCreateOrphan_careful L now hs

/-- The slot that is claimed is free again when the payload turns out not to fit. -/
theorem decodeAndInsertRetained_careful (L : StaticLimits) (now : Nat) (hblob : blob.length < 4294967296) :
    Spec (Same b) (decodeAndInsertRetained L now blob) (GaveUp (Same b)) fun _ _ => True := by
  unfold decodeAndInsertRetained
  have hsame (s : Slots) (h : Same b s) : s = b := h
  refine careful_lift hsame (scanHeader_inside hblob _) fun bodyLen hbody => ?_
  refine careful_lift hsame (retainedFields_inside hbody hblob (Nat.le_add_right _ _)) fun r hr => ?_
  refine careful_lift hsame (scanRetainedExpired_inside hblob L.toLimits now) fun _ _ => ?_
  refine .ite (fun _ => careful_reject _) fun _ => .ite (fun _ => careful_reject _) fun _ => careful_fetch ?_
  cases hfree : firstFree b.retained with
  | none => exact careful_reject _
  | some i =>
    -- From here on the slot is taken, and freeing it leads back to the beginning.
    let claimed (s : Slots) : Prop := s.setRetained i none = b
    have hback (x : Option RetainedSlot) (s : Slots) (hs : claimed s) : claimed (s.setRetained i x) := by
      refine Eq.trans ?_ hs
      exact congrArg (fun retained => {s with retained := retained}) (List.set_set ..)
    have hfirst (x : Option RetainedSlot) (s : Slots) (hs : Same b s) : claimed (s.setRetained i x) := by
      cases hs
      exact congrArg (fun retained => {b with retained := retained}) (set_free (firstFree_eq_some hfree) x)
    refine .change_bind (hfirst _) ?_
    refine certain_lift (readBytes_of_le (by omega)) (.change_bind (hback _) ?_)
    refine certain_lift (readNumber_of_le (by omega)) ?_
    rw [wordDiff_of_le hr (by omega)]
    refine .ite (fun _ => .change_bind (fun s hs => hs) (careful_reject _)) fun hpayload => ?_
    exact certain_lift (readBytes_of_le (by omega)) (.change fun _ _ => trivial)

/-- The entries of a subscription record: giving back what is claimed leads back to the beginning. -/
theorem subEntries_careful (L : StaticLimits) (key : Bytes) {end_ : Nat} (hend : end_ ≤ blob.length)
    (hblob : blob.length < 4294967296) (count : Nat) : ∀ {p : Nat} {claimed : List Nat}, p ≤ end_ →
      Spec (fun s => s.release claimed = b) (subEntries L key blob end_ count p claimed) (GaveUp (Same b)) fun _ _ => True := by
  induction count with
  | zero => exact fun _ => .ret fun _ _ => trivial
  | succ count ih =>
    intro p claimed hp
    have hfields := subFields_inside hend hblob hp
    rw [subEntries]
    refine .onError_lift_bind (fun e he s hs => ⟨hfields.of_error he, hs⟩) fun f hf => ?_
    obtain ⟨qos, flen⟩ := f
    have hflen : p + 4 + flen ≤ end_ := hfields.of_ok hf
    refine .ite (fun _ => .change_bind (fun s hs => hs) (careful_reject _)) fun _ => .fetch_bind fun s hs => ?_
    cases hfree : firstFree s.subs with
    | none =>
      have hrollback : Spec (fun s => s.release claimed = b) (rollback claimed >>= fun _ =>
          (Attempt.fail (.code Code.outOfBuffer) : SlotM Unit)) (GaveUp (Same b)) fun _ _ => True :=
        .change_bind (fun s hs => hs) (careful_reject _)
      exact hrollback s hs
    | some k =>
      have hclaim (x : Option SubSlot) : (s.setSub k x).release (claimed ++ [k]) = b :=
        (release_claim (firstFree_eq_some hfree) x).trans hs
      have hrest : Spec (fun s' => ∃ x, s' = s.setSub k x) (do
          let filter ← Attempt.lift (readBytes blob (p + 4) flen)
          let clientId ← Attempt.lift (readBytes key 0 key.length)
          Attempt.change (Slots.setSub k (some ⟨filter, clientId, qos⟩))
          subEntries L key blob end_ count (p + 4 + flen) (claimed ++ [k])) (GaveUp (Same b)) fun _ _ => True := by
        refine certain_lift (readBytes_of_le (by omega)) (certain_lift (readBytes_of_le (by omega)) ?_)
        refine .change_bind (fun s' hs' => ?_) (ih hflen)
        obtain ⟨x, rfl⟩ := hs'
        have hset (y : Option SubSlot) : (s.setSub k x).setSub k y = s.setSub k y :=
          congrArg (fun subs => {s with subs := subs}) (List.set_set ..)
        rw [hset]
        exact hclaim _
      exact hrest (s.setSub k (some ⟨[], [], 0⟩)) ⟨_, rfl⟩

theorem decodeAndInsertSubs_careful (L : StaticLimits) (key : Bytes) (hblob : blob.length < 4294967296) :
    Spec (Same b) (decodeAndInsertSubs L key blob) (GaveUp (Same b)) fun _ _ => True := by
  unfold decodeAndInsertSubs
  have hsame (s : Slots) (h : Same b s) : s = b := h
  refine careful_lift hsame (scanHeader_inside hblob _) fun bodyLen hbody => .ite (fun _ => careful_reject _) fun _ => ?_
  refine careful_fetch (.ite (fun _ => careful_reject _) fun _ => ?_)
  dsimp only
  rw [wordDiff_of_le (Nat.le_add_right _ _) (by omega)]
  refine .ite (fun _ => careful_reject _) fun htwo => ?_
  refine careful_lift hsame (readNumber_inside (by omega)) fun count _ => ?_
  exact (subEntries_careful L key hbody hblob count (by omega)).weaken fun s hs => hs

theorem restoreRecord_careful (L : StaticLimits) (now : Nat) (ns : Ns) (key : Bytes) (hblob : blob.length < 4294967296) :
    Spec (Same b) (restoreRecord L now ns key blob) (GaveUp (Same b)) fun _ _ => True :=
  match ns with
  | .meta => .ret fun _ _ => trivial
  | .session => decodeAndInsertSession_careful L now hblob
  | .subs => decodeAndInsertSubs_careful L key hblob
  | .retained => decodeAndInsertRetained_careful L now hblob
  | .outq => .ret fun _ _ => trivial

end careful

/-- Whatever a record's bytes are, and in both builds: restoring it reads inside its key and its blob, and a record
that is rejected leaves the broker as it was, wherever the decoder or an allocation gave up. -/
theorem rejected_record_unchanged {key blob : Bytes} (hblob : blob.length < 4294967296) (ns : Ns) (now : Nat) :
    (∀ (L : Limits) (h h' : Heap) (e : Fault), Load.restoreRecord L now ns key blob h = (.error e, h') →
      (∃ rc, e = .code rc) ∧ h'.broker = h.broker) ∧
    ∀ (L : StaticLimits) (s s' : Slots) (e : Fault), restoreRecord L now ns key blob s = (.error e, s') →
      (∃ rc, e = .code rc) ∧ s' = s := by
  constructor
  · intro L h h' e hrun
    exact (Load.restoreRecord_careful (b := h.broker) L now ns key hblob).of_error rfl hrun
  · intro L s s' e hrun
    exact (restoreRecord_careful (b := s) L now ns key hblob).of_error rfl hrun

/-- A subscription record for a restored session `c`, whose second entry is cut off: the slot that its first entry
took is free again. -/
theorem rejected_record_unchanged_truncated :
    let session : SessionSlot := { addr := 0, clientId := [0x63], protocolLevel := 4, sessionExpirySec := 60, orphanSince := 1 }
    let slots : Slots := ⟨[some session], [none, none], []⟩
    let blob := magic ++ [0, 5, 3, 0, 0, 0, 0, 8, 0, 2, 1, 0, 0, 1, 0x74, 1]
    (restoreRecord {} 7 .subs [0x63] blob slots).1 = .error (.code Code.malformedData) ∧
      (restoreRecord {} 7 .subs [0x63] blob slots).2 = slots := by
  intro session slots blob
  have hrun : (restoreRecord {} 7 .subs [0x63] blob slots).1 = .error (.code Code.malformedData) := by decide +kernel
  have hblob : blob.length < 4294967296 := by decide
  have hpair : restoreRecord {} 7 .subs [0x63] blob slots =
      (.error (.code Code.malformedData), (restoreRecord {} 7 .subs [0x63] blob slots).2) := Prod.ext hrun rfl
  exact ⟨hrun, ((rejected_record_unchanged hblob .subs 7).2 {} slots _ _ hpair).2⟩

end WolfMqtt.Persist.StaticLoad
