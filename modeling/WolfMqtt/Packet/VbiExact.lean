import WolfMqtt.Packet.PropScan

/-! Variable byte integers, decoded in a buffer that may be shorter than it is said to be.

`MqttDecode_Vbi` stops at the end of the room it is given and behind the fourth byte. What it accepts are the bytes
that `MqttEncode_Vbi` writes, for every number that can be written and for no other. -/
namespace WolfMqtt

section VbiExact
variable {rx rx' : Bytes} {pos bufLen : Nat}

open Agree (Agrees)

/-- The loop at an offset is the loop over the bytes that the room leaves there. -/
theorem scanVbiLoop_window (rx : Bytes) (pos bufLen turns rc value multiplier : Nat) (hturns : rc + turns = maxLenBytes) :
    Agrees (fun _ _ => True) Eq (scanVbiLoop rx pos bufLen rc value multiplier turns)
      (decodeVbiLoop rc value multiplier ((rx.drop (pos + rc)).take (bufLen - rc))) := by
  induction turns generalizing rc value multiplier with
  | zero =>
    have herror : ∃ e, scanVbiLoop rx pos bufLen rc value multiplier 0 = .error e := by
      rw [scanVbiLoop]
      split <;> exact ⟨_, rfl⟩
    obtain ⟨e, herror⟩ := herror
    rw [herror]
    cases (rx.drop (pos + rc)).take (bufLen - rc) with
    | nil => exact Agree.error trivial
    | cons b rest =>
      rw [decodeVbiLoop, if_pos (by omega)]
      exact Agree.error trivial
  | succ turns ih =>
    rw [scanVbiLoop]
    by_cases hroom : bufLen < rc + 1
    · rw [if_pos hroom, Nat.sub_eq_zero_of_le (by omega), List.take_zero]
      exact Agree.error trivial
    rw [if_neg hroom]
    cases hbuf : rx.drop (pos + rc) with
    | nil =>
      have hread : readByte rx (pos + rc) = .error .overrun := by
        rw [readByte, List.getElem?_eq_none (List.drop_eq_nil_iff.mp hbuf)]
      rw [hread, List.take_nil]
      exact Agree.error trivial
    | cons b rest =>
      have hread : readByte rx (pos + rc + 0) = .ok b := readByte_of_drop (by rw [hbuf]; rfl)
      have hrest : rx.drop (pos + (rc + 1)) = rest := by
        rw [← Nat.add_assoc, ← List.drop_drop, hbuf]
        rfl
      have hleft : bufLen - rc = bufLen - (rc + 1) + 1 := by omega
      rw [← Nat.add_zero (pos + rc), hread, hleft, List.take_succ_cons, decodeVbiLoop, if_neg (by omega)]
      refine Agree.ite Iff.rfl (fun _ => ?_) fun _ => ?_
      · rw [← hrest]
        exact ih (rc + 1) _ _ (by omega)
      · exact Agree.ite Iff.rfl (fun _ => Agree.error trivial) fun _ => Agree.ok rfl

theorem scanVbi_window {x : Nat × Nat} :
    scanVbi rx pos bufLen = .ok x ↔ decodeVbi ((rx.drop pos).take bufLen) = .ok x := by
  have hagree := scanVbiLoop_window rx pos bufLen maxLenBytes 0 0 1 rfl
  rw [scanVbi, decodeVbi]
  generalize scanVbiLoop rx pos bufLen 0 0 1 maxLenBytes = got at hagree ⊢
  rw [Nat.add_zero, Nat.sub_zero] at hagree
  generalize decodeVbiLoop 0 0 1 ((rx.drop pos).take bufLen) = want at hagree ⊢
  cases got with
  | error e =>
    cases want with
    | error e' => exact ⟨(nomatch ·), (nomatch ·)⟩
    | ok y => exact hagree.elim
  | ok y =>
    cases want with
    | error e' => exact hagree.elim
    | ok y' =>
      cases show y = y' from hagree
      rw [Except.ok.injEq, Except.ok.injEq]

/-- The loop reads no byte behind the room, and none behind the turns that are left. -/
theorem scanVbiLoop_inside (turns rc value multiplier : Nat) (hroom : pos + min bufLen (rc + turns) ≤ rx.length) :
    scanVbiLoop rx pos bufLen rc value multiplier turns ≠ .error .overrun := by
  induction turns generalizing rc value multiplier with
  | zero =>
    rw [scanVbiLoop]
    split <;> exact fun h => by cases h
  | succ turns ih =>
    rw [scanVbiLoop]
    split
    next => exact fun h => by cases h
    next hmore =>
      obtain ⟨b, hread⟩ : ∃ b, readByte rx (pos + rc) = .ok b :=
        ⟨rx[pos + rc], by rw [readByte, List.getElem?_eq_getElem]⟩
      rw [hread, Agree.ok_bind]
      split
      next => exact ih (rc + 1) _ _ (by rwa [Nat.add_assoc, Nat.add_comm 1])
      next => split <;> exact fun h => by cases h

/-- The loop sees nothing of the buffer but the bytes in the room that the turns come to. -/
theorem scanVbiLoop_local (turns rc value multiplier : Nat)
    (hsame : (rx.drop (pos + rc)).take (min (bufLen - rc) turns) = (rx'.drop (pos + rc)).take (min (bufLen - rc) turns)) :
    scanVbiLoop rx pos bufLen rc value multiplier turns = scanVbiLoop rx' pos bufLen rc value multiplier turns := by
  induction turns generalizing rc value multiplier with
  | zero => rfl
  | succ turns ih =>
    rw [scanVbiLoop, scanVbiLoop]
    split
    next => rfl
    next hmore =>
      have hpos : min (bufLen - rc) (turns + 1) = min (bufLen - (rc + 1)) turns + 1 := by omega
      rw [hpos] at hsame
      have hread : readByte rx (pos + rc) = readByte rx' (pos + rc) := by
        have hget := congrArg (fun l => l[0]?) hsame
        simp only [List.getElem?_take_of_lt (Nat.succ_pos _), List.getElem?_drop, Nat.add_zero] at hget
        rw [readByte, readByte, hget]
      have htail := congrArg (List.drop 1) hsame
      rw [List.drop_take, List.drop_take, List.drop_drop, List.drop_drop, Nat.add_sub_cancel] at htail
      rw [hread]
      refine congrArg (readByte rx' (pos + rc) >>= ·) (funext fun b => ?_)
      rw [ih (rc + 1) _ _ htail]

end VbiExact

/-- `MqttDecode_Vbi` accepts a number exactly where the bytes that `MqttEncode_Vbi` writes for it stand in the room.
Neither a byte behind the room nor a fifth one is read or matters. -/
theorem scanVbi_exact (rx : Bytes) (pos bufLen : Nat) :
    (∀ v n, scanVbi rx pos bufLen = .ok (v, n) ↔
      v ≤ 268435455 ∧ ∃ bytes, encodeVbi v = .ok bytes ∧ n = bytes.length ∧ n ≤ bufLen ∧ (rx.drop pos).take n = bytes) ∧
    (pos + min bufLen 4 ≤ rx.length → scanVbi rx pos bufLen ≠ .error .overrun) ∧
    ∀ rx' : Bytes, (rx.drop pos).take (min bufLen 4) = (rx'.drop pos).take (min bufLen 4) →
      scanVbi rx pos bufLen = scanVbi rx' pos bufLen := by
  refine ⟨fun v n => ?_, fun hroom => ?_, fun rx' hsame => ?_⟩
  · rw [scanVbi_window]
    constructor
    · intro h
      obtain ⟨hmax, hn, rest, hbuf⟩ := decodeVbi_canonical h
      have hlen : n ≤ ((rx.drop pos).take bufLen).length := by
        rw [hbuf, List.length_append]
        omega
      have hle : n ≤ bufLen := Nat.le_trans hlen (List.length_take_le _ _)
      refine ⟨hmax, _, encodeVbi_eq hmax, hn, hle, ?_⟩
      calc (rx.drop pos).take n
          = ((rx.drop pos).take bufLen).take n := by rw [List.take_take, Nat.min_eq_left hle]
        _ = (vbiBytes maxLenBytes v ++ rest).take n := by rw [hbuf]
        _ = vbiBytes maxLenBytes v := by rw [hn, List.take_left]
    · rintro ⟨hmax, bytes, hbytes, hn, hle, htake⟩
      rw [encodeVbi_eq hmax, Except.ok.injEq] at hbytes
      subst hbytes
      have hbuf : (rx.drop pos).take bufLen = vbiBytes maxLenBytes v ++ ((rx.drop pos).take bufLen).drop n := by
        conv_lhs => rw [← List.take_append_drop n ((rx.drop pos).take bufLen)]
        rw [List.take_take, Nat.min_eq_left hle, htake]
      rw [hbuf, decodeVbi_vbiBytes hmax, hn]
  · exact scanVbiLoop_inside maxLenBytes 0 0 1 (by rwa [Nat.zero_add])
  · exact scanVbiLoop_local maxLenBytes 0 0 1 hsame

end WolfMqtt
