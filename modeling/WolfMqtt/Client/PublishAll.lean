import WolfMqtt.Client.PublishPacket

/-! A blocking publish: the pieces of a packet one after the other.

A blocking call writes each piece to its end and gives up at the first refusal. It sends the packet if
the transport takes the pieces without one (`Unbroken`). -/
namespace WolfMqtt
open Transfer
namespace MqttClient

/-! ### The sizes of the pieces -/

/-- `n` bytes through a buffer of `tx` bytes. -/
def chunks (tx : Nat) : Nat → Nat → List Nat
  | 0, _ => []
  | fuel + 1, n => if n = 0 then [] else min n tx :: chunks tx fuel (n - min n tx)

/-- What a callback supplies from its `a`-th answer on, when `q` of `total` bytes are out. -/
def fillSizes (cb : PublishCb) (bufferLen total tx : Nat) : Nat → Nat → Nat → List Nat
  | 0, _, _ => []
  | fuel + 1, a, q =>
    if q < total then
      chunks tx (fillLen cb bufferLen total a q) (fillLen cb bufferLen total a q) ++
        fillSizes cb bufferLen total tx fuel (a + 1) (q + fillLen cb bufferLen total a q)
    else []

/-- The sizes of the pieces of a whole publish. -/
def pieceSizes (c : MqttClient) (cb : Option PublishCb) (p : MqttPublish) : List Nat :=
  (c.firstPiece cb p).length ::
    match cb with
    | some f => fillSizes f p.bufferLen p.totalLen c.txBufLen (p.totalLen + 2) p.asked p.bufferPos
    | none => chunks c.txBufLen (p.totalLen + 1) (p.totalLen - c.stagedLen none p)

theorem chunks_zero (tx fuel : Nat) : chunks tx fuel 0 = [] := by
  cases fuel with
  | zero => rfl
  | succ fuel => rw [chunks, if_pos rfl]

theorem chunks_succ {tx fuel n : Nat} (hn : n ≠ 0) : chunks tx (fuel + 1) n = min n tx :: chunks tx fuel (n - min n tx) := by
  rw [chunks, if_neg hn]

/-- More fuel than there are bytes makes no difference. -/
theorem chunks_fuel {tx : Nat} (htx : 0 < tx) (fuel fuel' : Nat) {n : Nat} (h : n ≤ fuel) (h' : n ≤ fuel') :
    chunks tx fuel n = chunks tx fuel' n := by
  induction fuel generalizing fuel' n with
  | zero =>
    obtain rfl : n = 0 := by omega
    rw [chunks_zero, chunks_zero]
  | succ fuel ih =>
    by_cases hn : n = 0
    · rw [hn, chunks_zero, chunks_zero]
    · obtain ⟨fuel', rfl⟩ := Nat.exists_eq_succ_of_ne_zero (n := fuel') (by omega)
      rw [chunks_succ hn, chunks_succ hn, ih fuel' (by omega) (by omega)]

/-! ### One piece -/

/-- What a blocking run of writes does to the wire: all of `due`, or a front of it and a refusal. -/
inductive Carried (net : Nat → Int) (ns : List Nat) (due : Bytes) (w w' : Writer) (rc : Int) : Prop
  | all (h : Unbroken net w.turn ns) (hrc : 0 ≤ rc) (hturn : w'.turn = endTurn net w.turn ns) (hpos : w'.pos = 0)
      (hwire : w'.wire = w.wire ++ due)
  | cut (h : ¬Unbroken net w.turn ns) (hrc : rc = Code.continue) (hwire : ∃ j < due.length, w'.wire = w.wire ++ due.take j)

/-- A piece from its first byte. -/
theorem packetWrite_all {c : MqttClient} (piece : Bytes) (hb : c.nonblock = false)
    (hnet : Answers Code.continue c.netWrite) (hsmall : c.Small piece.length) (hbuf : c.writer.txBuf = piece)
    (hpos : c.writer.pos = 0) (hpiece : 0 < piece.length) :
    (∃ w', c.packetWrite piece.length = ((piece.length : Int), c.withWriter w') ∧
        w' = {c.writer with turn := endTurn c.netWrite c.writer.turn [piece.length], wire := c.writer.wire ++ piece} ∧
        Unbroken c.netWrite c.writer.turn [piece.length]) ∨
      ∃ w' j, c.packetWrite piece.length = (Code.continue, c.withWriter w') ∧ j < piece.length ∧
        w' = {c.writer with pos := j, turn := w'.turn, wire := c.writer.wire ++ piece.take j} ∧
        ¬Unbroken c.netWrite c.writer.turn [piece.length] ∧
        (j = 0 ∧ w'.turn = c.writer.turn + 1 ∧ c.netWrite c.writer.turn ≤ 0 ∨ 0 < j ∧ 0 < c.netWrite c.writer.turn) := by
  have hle := carry_left_le c.netWrite piece.length c.writer.turn piece.length
  rw [packetWrite_small hsmall, hbuf, List.take_of_length_le le_rfl, hb, Writer.socketWrite_all hnet hpos hpiece]
  by_cases hall : (carry c.netWrite piece.length c.writer.turn piece.length).2 = 0
  · rw [if_pos hall]
    exact .inl ⟨_, rfl, rfl, hall, trivial⟩
  · rw [if_neg hall]
    refine .inr ⟨_, piece.length - (carry c.netWrite piece.length c.writer.turn piece.length).2, rfl, by omega, rfl,
      fun h => hall h.1, ?_⟩
    by_cases hsome : 0 < c.netWrite c.writer.turn
    · have hlt : (carry c.netWrite piece.length c.writer.turn piece.length).2 < piece.length :=
        carry_left_lt hpiece hpiece hsome
      exact .inr ⟨by omega, hsome⟩
    · have hrefused := carry_refused (n := piece.length) hpiece (not_lt.mp hsome)
      refine .inl ⟨?_, ?_, not_lt.mp hsome⟩
      · rw [hrefused]
        exact Nat.sub_self _
      · show (carry c.netWrite piece.length c.writer.turn piece.length).1 = _
        rw [hrefused]

/-- After a piece that went out, the others. -/
theorem Carried.after {net : Nat → Int} {n : Nat} {ns : List Nat} {piece due : Bytes} {w w' w'' : Writer} {rc : Int}
    (h : Unbroken net w.turn [n]) (hturn : w'.turn = endTurn net w.turn [n]) (hwire : w'.wire = w.wire ++ piece)
    (h' : Carried net ns due w' w'' rc) : Carried net (n :: ns) (piece ++ due) w w'' rc := by
  cases h' with
  | all hrest hrc hturn' hpos hwire' =>
    rw [hturn] at hrest hturn'
    exact .all ⟨h.1, hrest⟩ hrc hturn' hpos (by rw [hwire', hwire, List.append_assoc])
  | cut hrest hrc hwire' =>
    obtain ⟨j, hj, hw⟩ := hwire'
    refine .cut (fun hcon => hrest (hturn ▸ hcon.2)) hrc ⟨piece.length + j, by rw [List.length_append]; omega, ?_⟩
    rw [hw, hwire, List.append_assoc, List.take_length_add_append]

/-- After pieces that went out, more of them. -/
theorem Carried.append {net : Nat → Int} {ns ms : List Nat} {due due' : Bytes} {w w' w'' : Writer} {rc rc' : Int}
    (h : Carried net ns due w w' rc) (hrc : 0 ≤ rc) (h' : Carried net ms due' w' w'' rc') :
    Carried net (ns ++ ms) (due ++ due') w w'' rc' := by
  cases h with
  | cut _ hneg =>
    have : Code.continue < 0 := by decide
    omega
  | all hns _ hturn _ hwire =>
    cases h' with
    | all hms hrc' hturn' hpos hwire' =>
      rw [hturn] at hms hturn'
      refine .all ((unbroken_append _ _ _ _).mpr ⟨hns, hms⟩) hrc' (hturn'.trans ?_) hpos (by rw [hwire', hwire, List.append_assoc])
      exact (endTurn_append net w.turn ns ms).symm
    | cut hms hrc' hwire' =>
      obtain ⟨j, hj, hw⟩ := hwire'
      refine .cut (fun hcon => hms (hturn ▸ ((unbroken_append _ _ _ _).mp hcon).2)) hrc' ⟨due.length + j, ?_, ?_⟩
      · rw [List.length_append]
        omega
      · rw [hw, hwire, List.append_assoc, List.take_length_add_append]

theorem Carried.refused {net : Nat → Int} {ns ms : List Nat} {due due' : Bytes} {w w' : Writer} {rc : Int}
    (h : Carried net ns due w w' rc) (hrc : rc < 0) : Carried net (ns ++ ms) (due ++ due') w w' rc := by
  cases h with
  | all _ hnn => omega
  | cut hns hrc' hwire =>
    obtain ⟨j, hj, hw⟩ := hwire
    refine .cut (fun hcon => hns ((unbroken_append _ _ _ _).mp hcon).1) hrc' ⟨j, by rw [List.length_append]; omega, ?_⟩
    rw [hw, List.take_append_of_le_length hj.le]

theorem Carried.length_le {net : Nat → Int} {ns : List Nat} {due : Bytes} {w w' : Writer} {rc : Int}
    (h : Carried net ns due w w' rc) : w.wire.length ≤ w'.wire.length := by
  cases h with
  | all _ _ _ _ hwire => rw [hwire, List.length_append]; omega
  | cut _ _ hwire =>
    obtain ⟨j, -, hw⟩ := hwire
    rw [hw, List.length_append]
    omega

/-! ### A payload from a callback -/

/-- What the callback has supplied, piece by piece. -/
theorem writeFill_all {f : Bytes} (fuel : Nat) {c : MqttClient} {p : MqttPublish} (hb : c.nonblock = false)
    (hnet : Answers Code.continue c.netWrite) (hf : p.buffer = some f) (hlen : p.intBufCbLen ≤ f.length)
    (hword : p.intBufCbLen < 4294967296) (htx : 0 < c.txBufLen) (hsmall : ∀ m ≤ p.intBufCbLen, c.Small m)
    (hi : p.intBufPos < p.intBufCbLen) (hpos : c.writer.pos = 0) (hfuel : p.intBufCbLen - p.intBufPos ≤ fuel) :
    ∃ rc w' i l, c.writeFill fuel p = (rc, c.withWriter w', {p with intBufPos := i, intBufLen := l}) ∧
      Carried c.netWrite (chunks c.txBufLen fuel (p.intBufCbLen - p.intBufPos))
        ((f.take p.intBufCbLen).drop p.intBufPos) c.writer w' rc ∧
      (0 ≤ rc → i = p.intBufCbLen ∧ l = 0) := by
  induction fuel generalizing c p with
  | zero => omega
  | succ fuel ih =>
    generalize hl : min (p.intBufCbLen - p.intBufPos) c.txBufLen = len
    have hlen0 : 0 < len := by omega
    have hpiece : ((f.drop p.intBufPos).take len).length = len := by
      rw [List.length_take, List.length_drop]
      omega
    have hsub := word32Sub_of_le hi.le hword
    have hbuf : p.buffer.getD [] = f := by rw [hf]; rfl
    have hsplit : (f.take p.intBufCbLen).drop p.intBufPos =
        (f.drop p.intBufPos).take len ++ (f.take p.intBufCbLen).drop (p.intBufPos + len) := by
      have hslice : (f.drop p.intBufPos).take len = ((f.take p.intBufCbLen).drop p.intBufPos).take len := by
        rw [List.drop_take, List.take_take]
        congr 1
        omega
      rw [hslice, ← List.drop_drop, List.take_append_drop]
    have hall := packetWrite_all (c := (c.setLen len).fill ((f.drop p.intBufPos).take len))
      ((f.drop p.intBufPos).take len) hb hnet (by rw [hpiece]; exact hsmall len (by omega)) rfl hpos
      (by rw [hpiece]; exact hlen0)
    rw [hpiece] at hall
    have hsizes : chunks c.txBufLen (fuel + 1) (p.intBufCbLen - p.intBufPos) =
        len :: chunks c.txBufLen fuel (p.intBufCbLen - p.intBufPos - len) := by
      rw [chunks_succ (by omega), hl]
    rw [hsizes, hsplit]
    simp only [writeFill, hsub, hl, hbuf]
    rcases hall with ⟨w', hrun, hw', hok⟩ | ⟨w', j, hrun, hj, hw', hcut, -⟩
    · have hnn : ¬((len : Int) < 0) := by omega
      have hi' : word32 (p.intBufPos + len) = p.intBufPos + len := word32_of_lt (by omega)
      have hwire : w'.wire = c.writer.wire ++ (f.drop p.intBufPos).take len := by
        rw [hw']
        rfl
      have hturn : w'.turn = endTurn c.netWrite c.writer.turn [len] := by
        rw [hw']
        rfl
      have hpos' : w'.pos = 0 := by
        rw [hw']
        exact hpos
      simp only [hrun, hnn, if_false, hi']
      by_cases hmore : p.intBufPos + len < p.intBufCbLen
      · rw [if_pos hmore]
        obtain ⟨rc, w'', i, l, hrun', hcarried, hdone⟩ :=
          ih (c := c.withWriter w') (p := {p with intBufPos := p.intBufPos + len, intBufLen := 0}) hb hnet hf hlen hword
            htx hsmall hmore hpos'
            (by
              show p.intBufCbLen - (p.intBufPos + len) ≤ fuel
              omega)
        refine ⟨rc, w'', i, l, hrun', .after hok hturn hwire ?_, hdone⟩
        rw [Nat.sub_sub]
        exact hcarried
      · rw [if_neg hmore]
        have hend : p.intBufPos + len = p.intBufCbLen := by omega
        have hnil : (f.take p.intBufCbLen).drop (p.intBufPos + len) = [] := by
          rw [hend]
          exact List.drop_of_length_le (List.length_take_le _ _)
        refine ⟨len, w', _, _, rfl, ?_, fun _ => ⟨hend, rfl⟩⟩
        have hzero : p.intBufCbLen - p.intBufPos - len = 0 := by omega
        rw [hzero, chunks_zero, hnil]
        exact .after hok hturn hwire (.all trivial (by omega) rfl hpos' (by rw [List.append_nil]))
    · have hneg : Code.continue < 0 := by decide
      simp only [hrun, hneg, if_true]
      refine ⟨_, w', _, _, rfl, .cut (fun hcon => hcut ⟨hcon.1, trivial⟩) rfl ⟨j, ?_, ?_⟩, fun h => absurd h (by decide)⟩
      · rw [List.length_append, hpiece]
        omega
      · rw [hw', List.take_append_of_le_length (by rw [hpiece]; exact hj.le)]
        rfl

/-- The payload the callback supplies, piece by piece. -/
theorem writeCb_all {cb : PublishCb} (fuel : Nat) {c : MqttClient} {p : MqttPublish} (hb : c.nonblock = false)
    (hnet : Answers Code.continue c.netWrite) (hcb : Supplies cb p.bufferLen) (hroom : 0 < p.bufferLen)
    (htx : 0 < c.txBufLen) (hword : p.totalLen < 4294967296) (hsmall : ∀ m ≤ p.totalLen, c.Small m)
    (hlen : c.writer.len = 0) (hpos : c.writer.pos = 0) (hint : p.intBufPos = 0) (hq : p.bufferPos < p.totalLen)
    (hfuel : p.totalLen - p.bufferPos < fuel) :
    ∃ rc w' p', c.writeCb cb fuel p = (rc, c.withWriter w', p') ∧ Alike p p' ∧
      Carried c.netWrite (fillSizes cb p.bufferLen p.totalLen c.txBufLen fuel p.asked p.bufferPos)
        (payloadFrom cb p.bufferLen p.totalLen p.asked p.bufferPos) c.writer w' rc ∧
      p'.bufferPos ≤ p.totalLen ∧ c.writer.wire.length + p'.bufferPos ≤ w'.wire.length + p.bufferPos := by
  induction fuel generalizing c p with
  | zero => omega
  | succ fuel ih =>
    have hsome := hcb.some p.asked
    have hnn : ¬(cb p.asked).1 < 0 := by omega
    have hsub := word32Sub_of_le hq.le hword
    have hn := hcb.fillLen_pos hroom (a := p.asked) hq
    have hle : fillLen cb p.bufferLen p.totalLen p.asked p.bufferPos ≤ p.totalLen - p.bufferPos := Nat.min_le_right _ _
    have hask : c.askCb cb p = (Code.success, c.withWriter {c.writer with len := (cb p.asked).1.toNat},
        {p with
          asked := p.asked + 1
          buffer := some (cb p.asked).2
          intBufCbLen := fillLen cb p.bufferLen p.totalLen p.asked p.bufferPos}) := by
      simp only [askCb, hlen, if_true, hnn, if_false, hsub]
      rfl
    have hlt : fillLen cb p.bufferLen p.totalLen p.asked p.bufferPos ≤ (cb p.asked).2.length := by
      rw [hcb.fills]
      unfold fillLen
      omega
    have hsizes : fillSizes cb p.bufferLen p.totalLen c.txBufLen (fuel + 1) p.asked p.bufferPos =
        chunks c.txBufLen (fillLen cb p.bufferLen p.totalLen p.asked p.bufferPos)
            (fillLen cb p.bufferLen p.totalLen p.asked p.bufferPos) ++
          fillSizes cb p.bufferLen p.totalLen c.txBufLen fuel (p.asked + 1)
            (p.bufferPos + fillLen cb p.bufferLen p.totalLen p.asked p.bufferPos) := by
      rw [fillSizes, if_pos hq]
    have htake := hcb.length_take p.totalLen p.asked p.bufferPos
    rw [writeCb_succ, hask, hsizes, hcb.payloadFrom_next hroom hq]
    generalize fillLen cb p.bufferLen p.totalLen p.asked p.bufferPos = n at hn hle hlt htake
    obtain ⟨rc, w₁, i, l, hfill, hcarried, hdone⟩ :=
      writeFill_all (n + 1) (c := c.withWriter {c.writer with len := (cb p.asked).1.toNat})
        (p := {p with asked := p.asked + 1, buffer := some (cb p.asked).2, intBufCbLen := n}) hb hnet rfl hlt
        (by
          show n < 4294967296
          omega)
        htx (fun m hm => hsmall m (hm.trans (by
          show n ≤ p.totalLen
          omega)))
        (by
          show p.intBufPos < n
          omega)
        hpos
        (by
          show n - p.intBufPos ≤ n + 1
          omega)
    have hcarried' : Carried c.netWrite (chunks c.txBufLen n n) ((cb p.asked).2.take n) c.writer w₁ rc := by
      have h0 : n - p.intBufPos = n := by omega
      have hdue : ((cb p.asked).2.take n).drop p.intBufPos = (cb p.asked).2.take n := by rw [hint, List.drop_zero]
      have hc : Carried c.netWrite (chunks c.txBufLen (n + 1) (n - p.intBufPos)) (((cb p.asked).2.take n).drop p.intBufPos)
          {c.writer with len := (cb p.asked).1.toNat} w₁ rc := hcarried
      rw [h0, hdue, chunks_fuel htx (n + 1) n (by omega) le_rfl] at hc
      cases hc with
      | all h hrc hturn hpos hwire => exact .all h hrc hturn hpos hwire
      | cut h hrc hwire => exact .cut h hrc hwire
    have hok : ¬Code.success < 0 := by decide
    simp only [hok, if_false, hfill]
    by_cases hneg : rc < 0
    · rw [if_pos hneg]
      refine ⟨rc, w₁, _, rfl, ⟨rfl, _, rfl⟩, hcarried'.refused hneg, hq.le, ?_⟩
      have := hcarried'.length_le
      show c.writer.wire.length + p.bufferPos ≤ w₁.wire.length + p.bufferPos
      omega
    · obtain ⟨hi, rfl⟩ := hdone (by omega)
      have hi : i = n := hi
      have hword' : word32 (p.bufferPos + n) = p.bufferPos + n := word32_of_lt (by omega)
      have hwire : w₁.wire.length = c.writer.wire.length + n := by
        cases hcarried' with
        | all _ _ _ _ hwire => rw [hwire, List.length_append, htake]
        | cut _ hrc =>
          have : Code.continue < 0 := by decide
          omega
      have hpos₁ : w₁.pos = 0 := by
        cases hcarried' with
        | all _ _ _ hpos => exact hpos
        | cut _ hrc =>
          have : Code.continue < 0 := by decide
          omega
      rw [if_neg hneg]
      simp only [hi, hword']
      by_cases hmore : p.bufferPos + n < p.totalLen
      · rw [if_pos hmore]
        obtain ⟨rc', w₂, p₂, hrun, hlike, hcarried₂, hle₂, hwire₂⟩ := ih (c := c.withWriter {w₁ with len := 0})
          (p := {p with
            asked := p.asked + 1
            buffer := some (cb p.asked).2
            intBufCbLen := n
            bufferPos := p.bufferPos + n
            intBufPos := 0
            intBufLen := 0}) hb hnet hcb hroom htx hword hsmall rfl hpos₁ rfl hmore
          (by
            show p.totalLen - (p.bufferPos + n) < fuel
            omega)
        refine ⟨rc', w₂, p₂, hrun, Alike.trans ⟨rfl, _, rfl⟩ hlike, hcarried'.append (by omega) ?_, hle₂, ?_⟩
        · cases hcarried₂ with
          | all h hrc hturn hpos hwire => exact .all h hrc hturn hpos hwire
          | cut h hrc hwire => exact .cut h hrc hwire
        · have hw : w₁.wire.length + p₂.bufferPos ≤ w₂.wire.length + (p.bufferPos + n) := hwire₂
          omega
      · rw [if_neg hmore]
        have hend : fillSizes cb p.bufferLen p.totalLen c.txBufLen fuel (p.asked + 1) (p.bufferPos + n) = [] := by
          cases fuel with
          | zero => rfl
          | succ fuel => rw [fillSizes, if_neg hmore]
        rw [hend, payloadFrom_end _ (by omega), List.append_nil, List.append_nil]
        refine ⟨rc, {w₁ with len := 0}, _, rfl, ⟨rfl, _, rfl⟩, ?_, ?_, ?_⟩
        · cases hcarried' with
          | all h hrc hturn hpos hwire => exact .all h hrc hturn hpos hwire
          | cut h hrc hwire => exact .cut h hrc hwire
        · show p.bufferPos + n ≤ p.totalLen
          omega
        · show c.writer.wire.length + (p.bufferPos + n) ≤ w₁.wire.length + p.bufferPos
          omega

/-! ### A payload from a buffer -/

/-- The pieces behind `i`, the first of which is in `tx_buf`. -/
theorem writeBuffer_all {b : Bytes} (fuel : Nat) {c : MqttClient} {p : MqttPublish} {i : Nat} (hb : c.nonblock = false)
    (hnet : Answers Code.continue c.netWrite) (hp : Whole p b) (htx : 0 < c.txBufLen)
    (hsmall : ∀ m ≤ p.totalLen, c.Small m) (hi : i < p.totalLen) (hpos : c.writer.pos = 0)
    (hlen : c.writer.len = min (p.totalLen - i) c.txBufLen) (hbuf : c.writer.txBuf = (b.drop i).take c.writer.len)
    (hint : p.intBufPos + p.intBufLen = i + c.writer.len) (hfuel : p.totalLen - i ≤ fuel) :
    ∃ rc w' j l, c.writeBuffer fuel p = (rc, c.withWriter w', {p with intBufPos := j, intBufLen := l}) ∧
      Carried c.netWrite (chunks c.txBufLen fuel (p.totalLen - i)) (b.drop i) c.writer w' rc ∧
      (0 ≤ rc → rc = Code.success ∧ j = p.totalLen) := by
  induction fuel generalizing c p i with
  | zero => omega
  | succ fuel ih =>
    have htotal := hp.total
    have hword := hp.word
    generalize hl : c.writer.len = len at hlen hbuf hint
    have hlen0 : 0 < len := by omega
    have hpiece : ((b.drop i).take len).length = len := by
      rw [List.length_take, List.length_drop]
      omega
    have hall := packetWrite_all ((b.drop i).take len) hb hnet (by rw [hpiece]; exact hsmall len (by omega))
      hbuf hpos (by rw [hpiece]; exact hlen0)
    rw [hpiece] at hall
    have hsizes : chunks c.txBufLen (fuel + 1) (p.totalLen - i) = len :: chunks c.txBufLen fuel (p.totalLen - i - len) := by
      rw [chunks_succ (by omega), ← hlen]
    have hsplit : b.drop i = (b.drop i).take len ++ b.drop (i + len) := by
      rw [← List.drop_drop, List.take_append_drop]
    rw [hsizes, hsplit]
    simp only [writeBuffer, hl]
    rcases hall with ⟨w', hrun, hw', hok⟩ | ⟨w', j, hrun, hj, hw', hcut, -⟩
    · have hnn : ¬((len : Int) < 0) := by omega
      have hi' : word32 (p.intBufPos + p.intBufLen) = i + len := by
        rw [hint]
        exact word32_of_lt (by omega)
      have hwire : w'.wire = c.writer.wire ++ (b.drop i).take len := by rw [hw']
      have hturn : w'.turn = endTurn c.netWrite c.writer.turn [len] := by rw [hw']
      have hpos' : w'.pos = 0 := by
        rw [hw']
        exact hpos
      simp only [hrun, hnn, if_false, hi', hp.len]
      by_cases hend : i + len ≥ p.totalLen
      · rw [if_pos hend]
        have hzero : p.totalLen - i - len = 0 := by omega
        have hnil : b.drop (i + len) = [] := List.drop_of_length_le (by omega)
        refine ⟨_, w', _, _, rfl, ?_, fun _ => ⟨rfl, by omega⟩⟩
        rw [hzero, chunks_zero, hnil]
        exact .after hok hturn hwire (.all trivial (by decide) rfl hpos' (by rw [List.append_nil]))
      · rw [if_neg hend]
        have hp' : Whole {p with intBufPos := i + len, intBufLen := min (p.totalLen - (i + len)) c.txBufLen} b :=
          ⟨hp.buffer, hp.total, hp.len, hp.word⟩
        have hbuf' : p.buffer.getD [] = b := by rw [hp.buffer]; rfl
        rw [hbuf']
        obtain ⟨rc, w'', j, l, hrun', hcarried, hdone⟩ :=
          ih (c := ((c.withWriter w').setLen (min (p.totalLen - (i + len)) c.txBufLen)).fill
              ((b.drop (i + len)).take (min (p.totalLen - (i + len)) c.txBufLen)))
            (i := i + len) hb hnet hp' htx hsmall (by
              show i + len < p.totalLen
              omega) hpos' rfl rfl rfl (by
              show p.totalLen - (i + len) ≤ fuel
              omega)
        refine ⟨rc, w'', j, l, hrun', .after hok hturn hwire ?_, hdone⟩
        rw [Nat.sub_sub]
        cases hcarried with
        | all h hrc hturn hpos hwire => exact .all h hrc hturn hpos hwire
        | cut h hrc hwire => exact .cut h hrc hwire
    · have hneg : Code.continue < 0 := by decide
      simp only [hrun, hneg, if_true]
      refine ⟨_, w', _, _, rfl, .cut (fun hcon => hcut ⟨hcon.1, trivial⟩) rfl ⟨j, ?_, ?_⟩, fun h => absurd h (by decide)⟩
      · rw [List.length_append, hpiece]
        omega
      · rw [hw', List.take_append_of_le_length (by rw [hpiece]; exact hj.le)]

/-- What is left of a payload after the first piece, in one run. -/
theorem writePayload_buffer_all {b : Bytes} {c : MqttClient} {p : MqttPublish} (hb : c.nonblock = false)
    (hnet : Answers Code.continue c.netWrite) (hp : Whole p b) (htx : 0 < c.txBufLen)
    (hsmall : ∀ m ≤ p.totalLen, c.Small m) (h0 : 0 < p.bufferPos) (hq : p.bufferPos < p.totalLen)
    (hhalf : p.totalLen < 2147483648) (hpos : c.writer.pos = 0) (hint : p.intBufPos = 0) (hlen : p.intBufLen = p.bufferPos) :
    ∃ rc w' q j l, c.writePayload p none =
        (rc, c.withWriter w', {p with bufferPos := q, intBufPos := j, intBufLen := l}) ∧
      Carried c.netWrite (chunks c.txBufLen (p.totalLen + 1) (p.totalLen - p.bufferPos)) (b.drop p.bufferPos) c.writer w' rc := by
  generalize hl : min (p.totalLen - p.bufferPos) c.txBufLen = len
  have hword : word32 (p.intBufPos + len) = len := by
    rw [hint, Nat.zero_add]
    exact word32_of_lt (by omega)
  have hbuf : p.buffer.getD [] = b := by rw [hp.buffer]; rfl
  obtain ⟨rc, w', j, l, hrun, hcarried, hdone⟩ := writeBuffer_all (p.totalLen + 1) (b := b) (i := p.bufferPos)
    (c := (c.setLen len).fill ((b.drop p.bufferPos).take len)) (p := {p with intBufPos := len}) hb hnet
    ⟨hp.buffer, hp.total, hp.len, hp.word⟩ htx hsmall hq hpos hl.symm rfl (by
      show len + p.intBufLen = p.bufferPos + len
      omega) (by
      show p.totalLen - p.bufferPos ≤ p.totalLen + 1
      omega)
  have hrun' : c.writePayload p none = nextChunk rc (c.withWriter w') {p with intBufPos := j, intBufLen := l} := by
    simp only [writePayload, hq, if_true, h0, hb, Bool.false_eq_true, if_false, hl, hword, hbuf, hp.len, hrun,
      fill_nonblock, setLen_nonblock]
    rfl
  have hcarried' : Carried c.netWrite (chunks c.txBufLen (p.totalLen + 1) (p.totalLen - p.bufferPos)) (b.drop p.bufferPos)
      c.writer w' rc := by
    cases hcarried with
    | all h hrc hturn hpos hwire => exact .all h hrc hturn hpos hwire
    | cut h hrc hwire => exact .cut h hrc hwire
  rw [hrun']
  by_cases hneg : rc < 0
  · rw [nextChunk, if_pos hneg]
    exact ⟨rc, w', p.bufferPos, j, l, rfl, hcarried'⟩
  · obtain ⟨rfl, rfl⟩ := hdone (by omega)
    have hend : ¬p.bufferPos + p.totalLen < p.totalLen := by omega
    have hword' : word32 (p.bufferPos + p.totalLen) = p.bufferPos + p.totalLen := word32_of_lt (by omega)
    simp only [nextChunk, hneg, if_false, hword', hend]
    exact ⟨_, w', _, _, _, rfl, hcarried'⟩

end MqttClient
end WolfMqtt
