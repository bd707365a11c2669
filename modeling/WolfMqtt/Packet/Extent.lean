import WolfMqtt.Packet.PropSection

/-! What a decoder goes through of a packet that may end early.

The decoders of the publish responses, DISCONNECT and AUTH take the length of the packet from its
Remaining Length and the place where its properties end from their own length. They compare the first
with the buffer only for the parts they read, and the two with each other never; they agree where the
packet says the same twice (`SaysItsEnd`). -/
namespace WolfMqtt

open Agree (bind_eq_ok)
open Attempt (Triple)
open DecodeM (fail)

/-- The packet of `len` bytes is in the buffer, and what was decoded of it is all of it. -/
def Accounted (rx : Bytes) (len stop : Nat) : Prop := len ≤ rx.length ∧ stop = len

/-- A buffer holds all of a packet whose Remaining Length is at most `short`, or has just room for the `front`
bytes before a property list and for the list with its length. -/
def SaysItsEnd (short front : Nat) (rx : Bytes) : Prop :=
  ∃ remainLen n, scanVbi rx 1 (rx.length - 1) = .ok (remainLen, n) ∧ n + 1 + remainLen ≤ rx.length ∧
    (remainLen ≤ short ∨ ∃ len k, scanVbi rx (n + 1 + front) (wordDiff rx.length (n + 1 + front)) = .ok (len, k) ∧
      remainLen = front + k + len)

section Extent
variable {rx : Bytes}

theorem scanHeader_ok {type : PacketType} {headerLen remainLen : Nat} {first : UInt8}
    (h : scanHeader rx type = .ok (headerLen, remainLen, first)) :
    ∃ n, scanVbi rx 1 (rx.length - 1) = .ok (remainLen, n) ∧ headerLen = n + 1 := by
  unfold scanHeader at h
  split at h
  · cases h
  obtain ⟨⟨remain, n⟩, hvbi, h⟩ := bind_eq_ok.mp h
  dsimp only at h
  split at h
  · cases h
  obtain ⟨b, -, h⟩ := bind_eq_ok.mp h
  split at h
  · cases h
  split at h
  · cases h
  cases h
  exact ⟨n, hvbi, rfl⟩

/-- Where the parts of a packet end that has `left` bytes at `pos`: no reason, no properties, or both. -/
def ReasonEnds (rx : Bytes) (pos left short stop : Nat) : Prop :=
  (left = 0 ∧ stop = pos) ∨ (0 < left ∧ left ≤ short ∧ stop = pos + 1) ∨
    (short < left ∧ ∃ len k, scanVbi rx (pos + 1) (wordDiff rx.length (pos + 1)) = .ok (len, k) ∧
      stop = pos + 1 + k + len)

/-- The two ends agree exactly if the packet says so. -/
theorem ReasonEnds.accounted_iff {n remainLen base short stop : Nat}
    (hvbi : scanVbi rx 1 (rx.length - 1) = .ok (remainLen, n)) (hbase : base ≤ remainLen) (hshort : short ≤ 1)
    (h : ReasonEnds rx (n + 1 + base) (remainLen - base) short stop) :
    Accounted rx (n + 1 + remainLen) stop ↔ SaysItsEnd (base + short) (base + 1) rx := by
  have hpos : n + 1 + base + 1 = n + 1 + (base + 1) := by omega
  constructor
  · rintro ⟨hle, hstop⟩
    refine ⟨remainLen, n, hvbi, hle, ?_⟩
    rcases h with ⟨hleft, -⟩ | ⟨-, hleft, -⟩ | ⟨-, len, k, hlen, hends⟩
    · exact .inl (by omega)
    · exact .inl (by omega)
    · rw [hpos] at hlen
      exact .inr ⟨len, k, hlen, by omega⟩
  · rintro ⟨remain, m, hvbi', hle, hsays⟩
    cases hvbi.symm.trans hvbi'
    refine ⟨hle, ?_⟩
    rcases h with ⟨hleft, hends⟩ | ⟨hmore, hleft, hends⟩ | ⟨hleft, len, k, hlen, hends⟩
    · omega
    · omega
    · rcases hsays with hsays | ⟨len', k', hlen', hsays⟩
      · omega
      · rw [hpos] at hlen
        cases hlen.symm.trans hlen'
        omega

theorem reasonAndProps_ends (packet : PacketType) (pos left : Nat) :
    Triple (fun s => s.head .own = none) (reasonAndProps packet rx pos left) (fun _ => True)
      (fun r _ => ReasonEnds rx pos left 1 r.2) := by
  unfold reasonAndProps
  refine .ite (fun hsome => ?_) fun hnone => ?_
  · refine .ite (fun _ _ _ => trivial) fun _ => ?_
    refine .lift_bind (fun _ _ => trivial) fun reason _ => ?_
    refine .ite (fun hmore => ?_) fun hlast => ?_
    · refine .ite (fun _ _ _ => trivial) fun _ => ?_
      refine .bind propSectionM_ends fun r => .ret ?_
      rintro _ ⟨len, k, hlen, -, rfl⟩
      exact .inr (.inr ⟨hmore, len, k, hlen, rfl⟩)
    · exact .ret fun _ _ => .inr (.inl ⟨hsome, by omega, rfl⟩)
  · exact .ret fun _ _ => .inl ⟨by omega, rfl⟩

theorem head_null : Triple (fun _ => True) (nullProps .own) (fun _ => True) fun _ s => s.head .own = none :=
  fun s _ => PropState.head_setHead_self .own none s

theorem decodePublishResp_ends (type : PacketType) :
    Triple (fun _ => True) (decodePublishResp type level5 rx) (fun _ => True) fun v _ =>
      (Accounted rx v.len v.stop ↔ SaysItsEnd 3 3 rx) := by
  unfold decodePublishResp
  refine .ite (fun _ _ _ => trivial) fun _ => ?_
  refine .lift_bind (fun _ _ => trivial) fun ⟨headerLen, remainLen, first⟩ hheader => ?_
  obtain ⟨n, hvbi, rfl⟩ := scanHeader_ok hheader
  dsimp only
  refine .ite (fun _ _ _ => trivial) fun hshort => ?_
  rw [if_pos (Nat.le_refl level5), Nat.not_lt] at hshort
  refine .lift_bind (fun _ _ => trivial) fun packetId _ => ?_
  refine .ite (fun _ _ _ => trivial) fun _ => ?_
  refine .bind head_null fun _ => ?_
  rw [if_pos (Nat.le_refl level5)]
  refine .bind (reasonAndProps_ends type (n + 1 + 2) (remainLen - 2)) fun r => .pure_bind ?_
  exact viewProps_bind fun props => .ret fun _ hr => hr.accounted_iff hvbi hshort (Nat.le_refl 1)

theorem decodeDisconnect_ends :
    Triple (fun _ => True) (decodeDisconnect rx) (fun _ => True) fun v _ =>
      (Accounted rx v.len v.stop ↔ SaysItsEnd 1 1 rx) := by
  unfold decodeDisconnect
  refine .ite (fun _ _ _ => trivial) fun _ => ?_
  refine .lift_bind (fun _ _ => trivial) fun ⟨headerLen, remainLen, first⟩ hheader => ?_
  obtain ⟨n, hvbi, rfl⟩ := scanHeader_ok hheader
  refine .bind head_null fun _ => ?_
  refine .bind (reasonAndProps_ends .disconnect (n + 1) remainLen) fun r => ?_
  exact viewProps_bind fun props => .ret fun _ hr => hr.accounted_iff hvbi (Nat.zero_le remainLen) (Nat.le_refl 1)

theorem authReason_ends (pos : Nat) :
    Triple (fun s => s.head .own = none) (authReason rx pos) (fun _ => True) fun r _ =>
      ∃ len k, scanVbi rx (pos + 1) (wordDiff rx.length (pos + 1)) = .ok (len, k) ∧ r.2 = pos + 1 + k + len := by
  unfold authReason
  refine .ite (fun _ _ _ => trivial) fun _ => ?_
  refine .lift_bind (fun _ _ => trivial) fun reason _ => ?_
  refine .ite (fun _ => ?_) fun _ _ _ => trivial
  refine .ite (fun _ _ _ => trivial) fun _ => ?_
  refine .bind propSectionM_ends fun r => viewProps_bind fun props => ?_
  refine .ite (fun _ _ _ => trivial) fun _ => .ret ?_
  rintro _ ⟨len, k, hlen, -, rfl⟩
  exact ⟨len, k, hlen, rfl⟩

theorem decodeAuth_ends :
    Triple (fun _ => True) (decodeAuth rx) (fun _ => True) fun v _ =>
      (Accounted rx v.len v.stop ↔ SaysItsEnd 0 1 rx) := by
  unfold decodeAuth
  refine .ite (fun _ _ _ => trivial) fun _ => ?_
  refine .lift_bind (fun _ _ => trivial) fun ⟨headerLen, remainLen, first⟩ hheader => ?_
  obtain ⟨n, hvbi, rfl⟩ := scanHeader_ok hheader
  refine .bind head_null fun _ => ?_
  refine .ite (fun hsome => ?_) fun hnone => ?_
  · refine .bind (authReason_ends (n + 1)) fun r => viewProps_bind fun props => .ret fun _ hr => ?_
    have hends : ReasonEnds rx (n + 1 + 0) (remainLen - 0) 0 r.2 := .inr (.inr ⟨hsome, hr⟩)
    exact hends.accounted_iff hvbi (Nat.zero_le remainLen) (Nat.zero_le 1)
  · refine .pure_bind (viewProps_bind fun props => .ret fun _ _ => ?_)
    have hends : ReasonEnds rx (n + 1 + 0) (remainLen - 0) 0 (n + 1) := .inl ⟨by omega, rfl⟩
    exact hends.accounted_iff hvbi (Nat.zero_le remainLen) (Nat.zero_le 1)

end Extent

/-- What a publish response, a DISCONNECT or an AUTH is decoded from is all of the packet exactly if the packet says
so. -/
theorem decoded_accounted_iff (rx : Bytes) (s s' : PropState) :
    (∀ type v, decodePublishResp type level5 rx s = (.ok v, s') → (Accounted rx v.len v.stop ↔ SaysItsEnd 3 3 rx)) ∧
    (∀ v, decodeDisconnect rx s = (.ok v, s') → (Accounted rx v.len v.stop ↔ SaysItsEnd 1 1 rx)) ∧
    (∀ v, decodeAuth rx s = (.ok v, s') → (Accounted rx v.len v.stop ↔ SaysItsEnd 0 1 rx)) :=
  ⟨fun type _ => (decodePublishResp_ends type).of_run trivial, fun _ => decodeDisconnect_ends.of_run trivial,
    fun _ => decodeAuth_ends.of_run trivial⟩

theorem decoded_accounted_iff_sample :
    Accounted [0x40, 3, 0, 1, 0] 5 5 ↔ SaysItsEnd 3 3 [0x40, 3, 0, 1, 0] :=
  (decoded_accounted_iff [0x40, 3, 0, 1, 0] {pool := []} {pool := [], props := some none}).1 .publishAck
    {len := 5, packetId := 1, reasonCode := some 0, props := [], stop := 5} (by decide +kernel)

/-- Bytes behind the properties are taken for a part of the packet, and so are bytes that are not there; and
properties are read from behind the packet. -/
theorem not_decoded_accounted :
    decodePublishResp .publishAck level5 [0x40, 5, 0, 1, 0, 0, 0xAA] {pool := []} =
      (.ok {len := 7, packetId := 1, reasonCode := some 0, props := [], stop := 6}, {pool := [], props := some none}) ∧
    decodeDisconnect [0xE0, 9, 0, 0] {pool := []} =
      (.ok {len := 11, reasonCode := 0, props := [], stop := 4}, {pool := [], props := some none}) ∧
    decodeAuth [0xF0, 2, 0, 4, 0x15, 0, 1, 0x61] {pool := [{item := {}}]} =
      (.ok {len := 4, reasonCode := 0, props := [{type := .authMethod, dataStr := some ⟨7, 1⟩}], stop := 8},
        { pool := [{item := .of {type := .authMethod, dataStr := some ⟨7, 1⟩}}]
          props := some (some 0) }) ∧
    ¬Accounted [0x40, 5, 0, 1, 0, 0, 0xAA] 7 6 ∧ ¬Accounted [0xE0, 9, 0, 0] 11 4 ∧
    ¬Accounted [0xF0, 2, 0, 4, 0x15, 0, 1, 0x61] 4 8 := by
  unfold Accounted
  decide +kernel

end WolfMqtt
