import WolfMqtt.Packet.Read
import Mathlib.Tactic

/-! Framing does not depend on how the transport cuts the stream.

`frame` says what a stream holds at its front: a packet, an error, or the start of
something that is not complete. A reader in the middle of a packet has the front of it in
`rx_buf` and the rest still to come (`Mid`), wherever it was interrupted. So one call
either leaves it in the middle of the same packet or gives what `frame` says. -/
namespace WolfMqtt

/-! ### The Remaining Length field -/

/-- A run of bytes that all say another one follows. -/
def Continues (conts : Bytes) : Prop := ∀ c ∈ conts, 128 ≤ c.toNat

/-- The field ends at its first byte without the continuation bit. The accumulated value stays
below the multiplier, which bounds what the field can say. -/
theorem decodeVbiLoop_closed (conts : Bytes) (b : UInt8) (rest : Bytes) (rc v m : Nat) (hc : Continues conts)
    (hb : b.toNat < 128) (hn : rc + conts.length < maxLenBytes) (hv : v < m) :
    decodeVbiLoop rc v m (conts ++ b :: rest) = .error Code.malformedData ∨
      ∃ x, decodeVbiLoop rc v m (conts ++ b :: rest) = .ok (x, rc + conts.length + 1) ∧
        x < m * 128 ^ (conts.length + 1) := by
  induction conts generalizing rc v m with
  | nil =>
    have hrc : ¬ rc ≥ maxLenBytes := by simpa using hn
    have hb' : ¬ b.toNat ≥ 128 := by omega
    simp only [List.nil_append, decodeVbiLoop, hrc, hb', if_false]
    split
    · exact .inl rfl
    · refine .inr ⟨_, rfl, ?_⟩
      have hle : b.toNat * m ≤ 127 * m := Nat.mul_le_mul_right m (by omega)
      simp only [List.length_nil, zero_add, pow_one]
      omega
  | cons c conts ih =>
    have hlen : rc + 1 + conts.length < maxLenBytes := by
      simp only [List.length_cons] at hn
      omega
    have hrc : ¬ rc ≥ maxLenBytes := by omega
    have hcc : c.toNat ≥ 128 := hc c List.mem_cons_self
    have hmod : c.toNat % 128 * m ≤ 127 * m := Nat.mul_le_mul_right m (by omega)
    simp only [List.cons_append, decodeVbiLoop, hrc, hcc, if_false, if_true]
    rcases ih (rc + 1) (v + c.toNat % 128 * m) (m * 128) (fun d hd => hc d (List.mem_cons_of_mem c hd)) hlen
      (by omega) with herr | ⟨x, hx, hlt⟩
    · exact .inl herr
    · refine .inr ⟨x, ?_, ?_⟩
      · rw [hx, List.length_cons]
        congr 2
        omega
      · rw [List.length_cons, pow_succ]
        linarith

/-- What follows the last byte of the field is not looked at. -/
theorem decodeVbiLoop_prefix (conts : Bytes) (b : UInt8) (rest rest' : Bytes) (rc v m : Nat)
    (hc : Continues conts) (hb : b.toNat < 128) :
    decodeVbiLoop rc v m (conts ++ b :: rest) = decodeVbiLoop rc v m (conts ++ b :: rest') := by
  induction conts generalizing rc v m with
  | nil =>
    have hb' : ¬ b.toNat ≥ 128 := by omega
    simp only [List.nil_append, decodeVbiLoop, hb', if_false]
  | cons c conts ih =>
    simp only [List.cons_append, decodeVbiLoop]
    rw [ih _ _ _ (fun d hd => hc d (List.mem_cons_of_mem c hd))]

/-- A field with no end is not one, however long. -/
theorem decodeVbiLoop_open (conts rest : Bytes) (rc v m : Nat) (hc : Continues conts)
    (hopen : rest = [] ∨ maxLenBytes ≤ rc + conts.length) :
    ∃ e, decodeVbiLoop rc v m (conts ++ rest) = .error e := by
  induction conts generalizing rc v m with
  | nil =>
    rcases hopen with rfl | hlen
    · exact ⟨_, rfl⟩
    · cases rest with
      | nil => exact ⟨_, rfl⟩
      | cons b rest =>
        refine ⟨Code.malformedData, ?_⟩
        simp only [List.nil_append, decodeVbiLoop]
        rw [if_pos (by simpa using hlen)]
  | cons c conts ih =>
    have hcc : c.toNat ≥ 128 := hc c List.mem_cons_self
    simp only [List.cons_append, decodeVbiLoop, hcc, if_true]
    split
    · exact ⟨_, rfl⟩
    · refine ih _ _ _ (fun d hd => hc d (List.mem_cons_of_mem c hd)) ?_
      rw [List.length_cons] at hopen
      rcases hopen with rfl | hlen
      · exact .inl rfl
      · exact .inr (by omega)

/-- A field that decodes has an end, and its length counts the bytes up to it. -/
theorem decodeVbiLoop_shape (buf : Bytes) (rc v m x n : Nat) (h : decodeVbiLoop rc v m buf = .ok (x, n)) :
    ∃ conts b rest, buf = conts ++ b :: rest ∧ Continues conts ∧ b.toNat < 128 ∧ n = rc + conts.length + 1 := by
  induction buf generalizing rc v m with
  | nil => simp [decodeVbiLoop] at h
  | cons c buf ih =>
    rw [decodeVbiLoop] at h
    split at h
    · cases h
    split at h
    · next hc =>
      obtain ⟨conts, b, rest, rfl, hconts, hb, hn⟩ := ih (rc + 1) _ _ h
      refine ⟨c :: conts, b, rest, rfl, ?_, hb, by rw [hn, List.length_cons]; omega⟩
      intro d hd
      rcases List.mem_cons.mp hd with rfl | hd
      · exact hc
      · exact hconts d hd
    · next hc =>
      split at h
      · cases h
      · cases h
        exact ⟨[], c, buf, rfl, fun d hd => absurd hd List.not_mem_nil, by omega, rfl⟩

theorem decodeVbi_closed {conts : Bytes} {b : UInt8} (rest : Bytes) (hc : Continues conts) (hb : b.toNat < 128)
    (hn : conts.length < maxLenBytes) :
    decodeVbi (conts ++ b :: rest) = .error Code.malformedData ∨
      ∃ x, decodeVbi (conts ++ b :: rest) = .ok (x, conts.length + 1) ∧ x ≤ maxRemainLen := by
  rcases decodeVbiLoop_closed conts b rest 0 0 1 hc hb (by omega) (by omega) with herr | ⟨x, hx, hlt⟩
  · exact .inl herr
  · refine .inr ⟨x, by simpa [decodeVbi] using hx, ?_⟩
    have hpow : 128 ^ (conts.length + 1) ≤ 128 ^ 4 :=
      Nat.pow_le_pow_right (by omega) (by simpa [maxLenBytes] using hn)
    have hmax : maxRemainLen + 1 = 128 ^ 4 := by decide
    omega

/-! ### What a stream holds at its front -/

inductive Frame
  /-- The stream ends inside a packet. -/
  | more
  | bad (e : Int)
  | packet (p rest : Bytes)
deriving Repr, DecidableEq

/-- Reading one packet off a whole stream into a buffer of `rxBufLen` bytes. What does not fit
stays on the stream. -/
def frame (rxBufLen : Nat) (stream : Bytes) : Frame :=
  if rxBufLen < maxLenBytes + 1 then .bad Code.outOfBuffer
  else
    match decodeVbi stream.tail with
    | .error _ =>
      if stream.tail.length < maxLenBytes ∧ stream.tail.all (fun c => 128 ≤ c.toNat) then .more
      else .bad Code.malformedData
    | .ok (remainLen, n) =>
      let len := 1 + n + min remainLen (rxBufLen - (1 + n))
      if remainLen > 0 ∧ len = 1 + n then .bad Code.badArg
      else if stream.length < len then .more
      else .packet (stream.take len) (stream.drop len)

/-- The outcomes of reading packet after packet: an error is met again each time. -/
def frames (rxBufLen : Nat) : Nat → Bytes → List (Except Int Bytes)
  | 0, _ => []
  | n + 1, stream =>
    match frame rxBufLen stream with
    | .more => []
    | .bad e => .error e :: frames rxBufLen n stream
    | .packet p rest => .ok p :: frames rxBufLen n rest

/-- A packet as a buffer of `rxBufLen` bytes can hold it: the fixed header, and as many of the
Remaining Length bytes as there is room for. -/
def Fits (rxBufLen : Nat) (p : Bytes) : Prop :=
  ∃ remainLen n, decodeVbi p.tail = .ok (remainLen, n) ∧
    p.length = 1 + n + min remainLen (rxBufLen - (1 + n))

/-! ### What the transport hands over -/

/-- A call used up a step of the script, or there was no script and nothing is left. -/
def Spent (net net' : Net) : Prop := net'.script.length < net.script.length ∨ net'.stream = []

/-- One call of the transport. -/
inductive Handed (net : Net) (want : Nat) : Except Pause Bytes × Net → Prop
  | nothing (why : Pause) (net' : Net) (hstream : net'.stream = net.stream)
      (hscript : net'.script.length ≤ net.script.length) (hspent : Spent net net') :
      Handed net want (.error why, net')
  | piece (piece : Bytes) (net' : Net) (hsome : 0 < piece.length) (hfit : piece.length ≤ want)
      (hstream : piece ++ net'.stream = net.stream) (hscript : net'.script.length ≤ net.script.length)
      (hspent : piece.length < want → Spent net net') : Handed net want (.ok piece, net')

theorem Net.read_handed (net : Net) (idle : Pause) (want : Nat) (hw : 0 < want) :
    Handed net want (net.read idle want) := by
  obtain ⟨stream, script⟩ := net
  cases script with
  | nil =>
    cases hp : stream.take want with
    | nil =>
      have hnil : stream = [] := by
        rcases List.take_eq_nil_iff.mp hp with h | h
        · omega
        · exact h
      simp only [Net.read, hp]
      exact .nothing idle _ rfl (Nat.le_refl _) (.inr hnil)
    | cons b piece =>
      have hlen := congrArg List.length hp
      rw [List.length_take, List.length_cons] at hlen
      simp only [Net.read, hp]
      refine .piece (b :: piece) _ (Nat.succ_pos _) (by rw [List.length_cons]; omega) ?_ (Nat.le_refl _) ?_
      · show b :: piece ++ stream.drop (piece.length + 1) = stream
        rw [← hp]
        conv_rhs => rw [← List.take_append_drop want stream]
        congr 1
        by_cases hle : want ≤ stream.length
        · congr 1
          omega
        · rw [List.drop_eq_nil_of_le (by omega), List.drop_eq_nil_of_le (by omega)]
      · intro hshort
        rw [List.length_cons] at hshort
        exact .inr (List.drop_eq_nil_of_le (by omega))
  | cons call script =>
    cases call with
    | pause why =>
      exact .nothing why ⟨stream, script⟩ rfl (Nat.le_succ _) (.inl (Nat.lt_succ_self _))
    | give more =>
      cases hp : stream.take (min (more + 1) want) with
      | nil =>
        simp only [Net.read, hp]
        exact .nothing idle ⟨stream, script⟩ rfl (Nat.le_succ _) (.inl (Nat.lt_succ_self _))
      | cons b piece =>
        have hlen := congrArg List.length hp
        rw [List.length_take, List.length_cons] at hlen
        simp only [Net.read, hp]
        refine .piece (b :: piece) _ (Nat.succ_pos _) (by rw [List.length_cons]; omega) ?_ (Nat.le_succ _)
          (fun _ => .inl (Nat.lt_succ_self _))
        show b :: piece ++ stream.drop (piece.length + 1) = stream
        have htake : b :: piece = stream.take (piece.length + 1) := by
          rw [← hp, ← hlen, List.take_eq_take_iff]
          omega
        rw [htake, List.take_append_drop]

/-! ### Filling the buffer -/

/-- What every use of the transport keeps: the buffer's length, and where the bytes went. -/
structure Moved (r r' : Reader) : Prop where
  room : r'.rxBuf.length = r.rxBuf.length
  script : r'.net.script.length ≤ r.net.script.length
  written : ∃ ws, r'.written = r.written ++ ws ∧ (∀ w ∈ ws, w.1 + w.2.length ≤ r.rxBuf.length) ∧
    (ws.map Prod.snd).flatten ++ r'.net.stream = r.net.stream

theorem Moved.refl (r : Reader) : Moved r r := ⟨rfl, Nat.le_refl _, [], by simp, by simp, by simp⟩

theorem Moved.trans {r r' r'' : Reader} (h : Moved r r') (h' : Moved r' r'') : Moved r r'' := by
  obtain ⟨ws, hw, hin, hall⟩ := h.written
  obtain ⟨ws', hw', hin', hall'⟩ := h'.written
  refine ⟨h'.room.trans h.room, h'.script.trans h.script, ws ++ ws', ?_, ?_, ?_⟩
  · rw [hw', hw, List.append_assoc]
  · intro w hmem
    rcases List.mem_append.mp hmem with hmem | hmem
    · exact hin w hmem
    · rw [← h.room]
      exact hin' w hmem
  · rw [List.map_append, List.flatten_append, List.append_assoc, hall', hall]

/-- The cells from `off` on were filled up to `n` of them, and the reader stands where it stood. -/
structure Filled (off : Nat) (r r' : Reader) (n : Nat) : Prop extends Moved r r' where
  stat : r'.stat = r.stat
  headerLen : r'.headerLen = r.headerLen
  remainLen : r'.remainLen = r.remainLen
  kept : r'.rxBuf.take (off + n) ++ r'.net.stream = r.rxBuf.take (off + r.pos) ++ r.net.stream

theorem Filled.nothing {off : Nat} {r : Reader} {net : Net} (hstream : net.stream = r.net.stream)
    (hscript : net.script.length ≤ r.net.script.length) : Filled off r {r with net} r.pos :=
  ⟨⟨rfl, hscript, [], by simp, by simp, by simpa using hstream⟩, rfl, rfl, rfl, by simp [hstream]⟩

theorem Filled.accept {off : Nat} {r : Reader} {net : Net} {piece : Bytes}
    (hroom : off + r.pos + piece.length ≤ r.rxBuf.length) (hstream : piece ++ net.stream = r.net.stream)
    (hscript : net.script.length ≤ r.net.script.length) :
    Filled off r (Reader.accept {r with net} off piece) (r.pos + piece.length) := by
  refine ⟨⟨Buffer.length_writeAt _ _ _ hroom, hscript, [(off + r.pos, piece)], rfl, ?_, ?_⟩, rfl, rfl, rfl, ?_⟩
  · intro w hw
    rw [List.mem_singleton.mp hw]
    exact hroom
  · show [piece].flatten ++ net.stream = r.net.stream
    rw [List.flatten_singleton, hstream]
  · show (Buffer.writeAt r.rxBuf (off + r.pos) piece).take (off + (r.pos + piece.length)) ++ net.stream = _
    rw [← Nat.add_assoc, Buffer.take_writeAt _ _ _ (by omega), List.append_assoc, hstream]

theorem Filled.trans {off n : Nat} {r r' r'' : Reader} (h : Filled off r r' r'.pos) (h' : Filled off r' r'' n) :
    Filled off r r'' n :=
  ⟨h.toMoved.trans h'.toMoved, h'.stat.trans h.stat, h'.headerLen.trans h.headerLen,
    h'.remainLen.trans h.remainLen, h'.kept.trans h.kept⟩

/-- Putting the position back to the start touches nothing else. -/
theorem Filled.rewind {off n : Nat} {r r' : Reader} (h : Filled off r r' n) : Filled off r {r' with pos := 0} n :=
  ⟨⟨h.room, h.script, h.written⟩, h.stat, h.headerLen, h.remainLen, h.kept⟩

/-- A read of `bufLen` bytes to `off`: complete, or interrupted with its progress kept. -/
inductive SocketRead (off bufLen : Nat) (r : Reader) : Int × Reader → Prop
  | done (r' : Reader) (h : Filled off r r' bufLen) (hpos : r'.pos = 0) : SocketRead off bufLen r (bufLen, r')
  | paused (why : Pause) (r' : Reader) (h : Filled off r r' r'.pos) (hpos : r'.pos < bufLen)
      (hspent : Spent r.net r'.net) : SocketRead off bufLen r (why.code, r')

theorem Spent.mono {net net' net'' : Net} (h : net'.script.length ≤ net.script.length) (h' : Spent net' net'') :
    Spent net net'' := by
  rcases h' with h' | h'
  · exact .inl (by omega)
  · exact .inr h'

theorem Pause.code_neg (why : Pause) : why.code < 0 := by
  cases why <;> decide

/-- The transport part of a read, in either build: everything is there, or it was told to stop. -/
inductive Loaded (off bufLen : Nat) (r : Reader) : Int × Reader → Prop
  | full (rc : Int) (r' : Reader) (hrc : rc > 0) (h : Filled off r r' bufLen) (hpos : r'.pos = bufLen) :
      Loaded off bufLen r (rc, r')
  | stopped (why : Pause) (r' : Reader) (h : Filled off r r' r'.pos) (hpos : r'.pos < bufLen)
      (hspent : Spent r.net r'.net) : Loaded off bufLen r (why.code, r')

theorem Loaded.after {off bufLen : Nat} {r r' : Reader} {result : Int × Reader} (h : Filled off r r' r'.pos)
    (h' : Loaded off bufLen r' result) : Loaded off bufLen r result := by
  cases h' with
  | full rc r'' hrc hfill hpos => exact .full rc r'' hrc (h.trans hfill) hpos
  | stopped why r'' hfill hpos hspent => exact .stopped why r'' (h.trans hfill) hpos (hspent.mono h.script)

theorem socketReadLoop_loaded (off bufLen fuel : Nat) (r : Reader) (hroom : off + bufLen ≤ r.rxBuf.length)
    (hpos : r.pos < bufLen) (hfuel : bufLen ≤ r.pos + fuel) :
    Loaded off bufLen r (socketReadLoop off bufLen fuel r) := by
  induction fuel generalizing r with
  | zero => omega
  | succ fuel ih =>
    have hread := Net.read_handed r.net .timeout (bufLen - r.pos) (by omega)
    rw [socketReadLoop]
    generalize r.net.read .timeout (bufLen - r.pos) = got at hread
    cases hread with
    | nothing why net' hstream hscript hspent => exact .stopped why _ (.nothing hstream hscript) hpos hspent
    | piece piece net' hsome hfit hstream hscript hspent =>
      have hacc : Filled off r (Reader.accept {r with net := net'} off piece) (r.pos + piece.length) :=
        Filled.accept (by omega) hstream hscript
      show Loaded off bufLen r (if r.pos + piece.length < bufLen then _ else _)
      split
      · next hlt =>
        exact .after hacc (ih _ (by rw [hacc.room]; exact hroom) hlt
          (by show bufLen ≤ r.pos + piece.length + fuel; omega))
      · next hlt =>
        have hend : r.pos + piece.length = bufLen := by omega
        exact .full _ _ (by omega) (hend ▸ hacc) hend

theorem socketRead_spec (nonblock : Bool) (off bufLen : Nat) (r : Reader) (hroom : off + bufLen ≤ r.rxBuf.length)
    (hpos : r.pos < bufLen) : SocketRead off bufLen r (socketRead nonblock off bufLen r) := by
  rw [socketRead, if_neg (by omega), if_neg (by omega)]
  generalize hresult : (if nonblock then _ else _ : Int × Reader) = result
  have hload : Loaded off bufLen r result := by
    subst hresult
    cases nonblock with
    | false => exact socketReadLoop_loaded off bufLen _ r hroom hpos (by omega)
    | true =>
      have hread := Net.read_handed r.net .continue (bufLen - r.pos) (by omega)
      generalize r.net.read .continue (bufLen - r.pos) = got at hread
      cases hread with
      | nothing why net' hstream hscript hspent => exact .stopped why _ (.nothing hstream hscript) hpos hspent
      | piece piece net' hsome hfit hstream hscript hspent =>
        have hacc : Filled off r (Reader.accept {r with net := net'} off piece) (r.pos + piece.length) :=
          Filled.accept (by omega) hstream hscript
        show Loaded off bufLen r (if r.pos + piece.length < bufLen then _ else _)
        split
        · next hlt => exact .stopped .continue _ hacc hlt (hspent (by omega))
        · next hlt =>
          have hend : r.pos + piece.length = bufLen := by omega
          exact .full _ _ (by omega) (hend ▸ hacc) hend
  cases hload with
  | full rc r' hrc h hend =>
    show SocketRead off bufLen r (if rc > 0 then _ else _)
    rw [if_pos hrc, hend, Nat.min_self]
    exact .done _ h.rewind rfl
  | stopped why r' h hpos hspent =>
    have := why.code_neg
    show SocketRead off bufLen r (if why.code > 0 then _ else _)
    rw [if_neg (by omega)]
    exact .paused why r' h hpos hspent

theorem Filled.front {off n : Nat} {r r' : Reader} (h : Filled off r r' n) (hoff : off ≤ r.rxBuf.length) :
    r'.rxBuf.take off = r.rxBuf.take off := by
  have hkept := congrArg (List.take off) h.kept
  have hroom := h.room
  rwa [List.take_append_of_le_length (by rw [List.length_take]; omega), List.take_take,
    List.take_append_of_le_length (by rw [List.length_take]; omega), List.take_take,
    Nat.min_eq_left (by omega), Nat.min_eq_left (by omega)] at hkept

/-! ### In the middle of a packet -/

/-- The bytes in `rx_buf` of the packet being read. -/
def Reader.pending (r : Reader) : Bytes :=
  match r.stat with
  | .begin => r.rxBuf.take r.pos
  | .readHead => r.rxBuf.take (r.headerLen + r.pos)
  | .read => r.rxBuf.take (r.headerLen + r.pos)

/-- `rx_buf` starts with a packet's first byte and its length bytes up to `b`. -/
structure Header (r : Reader) (first : UInt8) (conts : Bytes) (b : UInt8) : Prop where
  big : maxLenBytes + 1 ≤ r.rxBuf.length
  bytes : r.rxBuf.take r.headerLen = first :: (conts ++ [b])
  len : r.headerLen = conts.length + 2
  short : conts.length < maxLenBytes
  conts : Continues conts

/-- Reading the length bytes: the last one read is to be looked at. -/
structure InHead (r : Reader) : Prop where
  header : ∃ first conts b, Header r first conts b
  pos : r.pos = 0

/-- Reading what follows the header. -/
structure InBody (r : Reader) : Prop where
  header : ∃ first conts b, Header r first conts b ∧ b.toNat < 128 ∧
    decodeVbi (conts ++ [b]) = .ok (r.remainLen, conts.length + 1)
  pos : r.pos = 0 ∨ r.pos < min r.remainLen (r.rxBuf.length - r.headerLen)

/-- The reader is in the middle of the packet that `stream` starts with. -/
structure Mid (r : Reader) (stream : Bytes) : Prop where
  kept : r.pending ++ r.net.stream = stream
  start : r.stat = .begin → r.pos < headerMinSize
  head : r.stat = .readHead → InHead r
  body : r.stat = .read → InBody r

theorem Mid.of_begin {r : Reader} {stream : Bytes} (hs : r.stat = .begin) (hpos : r.pos < headerMinSize)
    (hkept : r.rxBuf.take r.pos ++ r.net.stream = stream) : Mid r stream := by
  refine ⟨by simpa [Reader.pending, hs] using hkept, fun _ => hpos, ?_, ?_⟩
  · intro h
    rw [hs] at h
    cases h
  · intro h
    rw [hs] at h
    cases h

theorem Mid.of_head {r : Reader} {stream : Bytes} (hs : r.stat = .readHead) (hin : InHead r)
    (hkept : r.rxBuf.take r.headerLen ++ r.net.stream = stream) : Mid r stream := by
  refine ⟨by simpa [Reader.pending, hs, hin.pos] using hkept, ?_, fun _ => hin, ?_⟩
  · intro h
    rw [hs] at h
    cases h
  · intro h
    rw [hs] at h
    cases h

theorem Mid.of_body {r : Reader} {stream : Bytes} (hs : r.stat = .read) (hin : InBody r)
    (hkept : r.rxBuf.take (r.headerLen + r.pos) ++ r.net.stream = stream) : Mid r stream := by
  refine ⟨by simpa [Reader.pending, hs] using hkept, ?_, ?_, fun _ => hin⟩
  · intro h
    rw [hs] at h
    cases h
  · intro h
    rw [hs] at h
    cases h

/-- A header stays where it is while the reader fills what follows. -/
theorem Header.filled {r r' : Reader} {n : Nat} {first b : UInt8} {conts : Bytes} (h : Header r first conts b)
    (hf : Filled r.headerLen r r' n) : Header r' first conts b := by
  have hshort := h.short
  have hbig := h.big
  have hlen := h.len
  exact ⟨by rw [hf.room]; exact hbig, by rw [hf.headerLen, hf.front (by omega), h.bytes],
    by rw [hf.headerLen, hlen], hshort, h.conts⟩

theorem Header.le {r : Reader} {first b : UInt8} {conts : Bytes} (h : Header r first conts b) :
    r.headerLen ≤ r.rxBuf.length := by
  have := h.short
  have := h.big
  have := h.len
  omega

/-! ### What one call gives -/

/-- One call of `MqttPacket_Read` in the middle of the packet that `stream` starts with. -/
inductive Call (r : Reader) (stream : Bytes) : Int × Reader → Prop
  | paused (why : Pause) (r' : Reader) (h : Moved r r') (hmid : Mid r' stream) (hspent : Spent r.net r'.net)
      (hmore : frame r.rxBuf.length r'.pending = .more) : Call r stream (why.code, r')
  | failed (e : Int) (r' : Reader) (he : outcome (e, r') = some (.error e)) (h : Moved r r')
      (hmid : Mid r' stream) (hbad : frame r.rxBuf.length stream = .bad e) : Call r stream (e, r')
  | packet (len : Nat) (r' : Reader) (rest : Bytes) (hlen : 0 < len) (h : Moved r r') (hmid : Mid r' rest)
      (hframe : frame r.rxBuf.length stream = .packet (r'.rxBuf.take len) rest)
      (hover : r'.stat = .begin ∧ r'.pos = 0) : Call r stream (len, r')

theorem Moved.call {r r' : Reader} {stream : Bytes} {result : Int × Reader} (h : Moved r r')
    (h' : Call r' stream result) : Call r stream result := by
  have hroom := h.room
  cases h' with
  | paused why r'' hm hmid hspent hmore =>
    exact .paused why r'' (h.trans hm) hmid (hspent.mono h.script) (hroom ▸ hmore)
  | failed e r'' he hm hmid hbad => exact .failed e r'' he (h.trans hm) hmid (hroom ▸ hbad)
  | packet len r'' rest hlen hm hmid hframe hover =>
    exact .packet len r'' rest hlen (h.trans hm) hmid (hroom ▸ hframe) hover

/-- `frame` where the length field is complete. -/
theorem frame_closed {rxBufLen remainLen n : Nat} {stream : Bytes} (hbig : maxLenBytes + 1 ≤ rxBufLen)
    (hdec : decodeVbi stream.tail = .ok (remainLen, n)) :
    frame rxBufLen stream =
      if remainLen > 0 ∧ 1 + n + min remainLen (rxBufLen - (1 + n)) = 1 + n then .bad Code.badArg
      else if stream.length < 1 + n + min remainLen (rxBufLen - (1 + n)) then .more
      else .packet (stream.take (1 + n + min remainLen (rxBufLen - (1 + n))))
        (stream.drop (1 + n + min remainLen (rxBufLen - (1 + n)))) := by
  rw [frame, if_neg (by omega), hdec]

theorem frame_open {rxBufLen : Nat} {stream : Bytes} {e : Int} (hbig : maxLenBytes + 1 ≤ rxBufLen)
    (hdec : decodeVbi stream.tail = .error e) :
    frame rxBufLen stream =
      if stream.tail.length < maxLenBytes ∧ stream.tail.all (fun c => 128 ≤ c.toNat) then .more
      else .bad Code.malformedData := by
  rw [frame, if_neg (by omega), hdec]

/-- With the header complete, the length field of the stream is the one in `rx_buf`. -/
theorem InBody.decoded {r : Reader} (h : InBody r) (more : Bytes) :
    decodeVbi (r.rxBuf.take r.headerLen ++ more).tail = .ok (r.remainLen, r.headerLen - 1) := by
  obtain ⟨first, conts, b, hh, hb, hdec⟩ := h.header
  have hlen : r.headerLen - 1 = conts.length + 1 := by
    rw [hh.len]
    rfl
  rw [hh.bytes, hlen, ← hdec, List.cons_append, List.tail_cons, List.append_assoc]
  exact decodeVbiLoop_prefix conts b more [] 0 0 1 hh.conts hb

theorem InBody.frame_eq {r : Reader} (h : InBody r) (more : Bytes) :
    frame r.rxBuf.length (r.rxBuf.take r.headerLen ++ more) =
      if r.remainLen > 0 ∧ min r.remainLen (r.rxBuf.length - r.headerLen) = 0 then .bad Code.badArg
      else if (r.rxBuf.take r.headerLen ++ more).length <
          r.headerLen + min r.remainLen (r.rxBuf.length - r.headerLen) then .more
      else .packet
        ((r.rxBuf.take r.headerLen ++ more).take (r.headerLen + min r.remainLen (r.rxBuf.length - r.headerLen)))
        ((r.rxBuf.take r.headerLen ++ more).drop (r.headerLen + min r.remainLen (r.rxBuf.length - r.headerLen))) := by
  obtain ⟨first, conts, b, hh, -, -⟩ := h.header
  have hlen : 1 + (r.headerLen - 1) = r.headerLen := by
    have := hh.len
    omega
  rw [frame_closed hh.big (h.decoded more), hlen]
  simp only [Nat.add_eq_left]

/-! ### The phases -/

/-- Changing the phase moves nothing. -/
theorem Moved.restat (r : Reader) (stat : PkStat) : Moved r {r with stat} :=
  ⟨rfl, Nat.le_refl _, [], by simp, by simp, by simp⟩

/-- A whole packet is in `rx_buf`, and the reader starts over behind it. -/
theorem Call.whole {r r' : Reader} {stream : Bytes} (hin : InBody r) (h : Moved r r') (hpos : r'.pos = 0)
    (hfits : r.remainLen > 0 → min r.remainLen (r.rxBuf.length - r.headerLen) ≠ 0)
    (hfront : r.rxBuf.take r.headerLen ++ stream.drop r.headerLen = stream)
    (hkept : r'.rxBuf.take (r.headerLen + min r.remainLen (r.rxBuf.length - r.headerLen)) ++ r'.net.stream = stream) :
    Call r stream ((r.headerLen + min r.remainLen (r.rxBuf.length - r.headerLen) : Nat), {r' with stat := .begin}) := by
  obtain ⟨first, conts, b, hh, -, -⟩ := hin.header
  have hle := hh.le
  have hroom := h.room
  have hlen : (r'.rxBuf.take (r.headerLen + min r.remainLen (r.rxBuf.length - r.headerLen))).length =
      r.headerLen + min r.remainLen (r.rxBuf.length - r.headerLen) := by
    rw [List.length_take, hroom]
    omega
  refine .packet _ _ r'.net.stream ?_ (h.trans (Moved.restat r' .begin)) ?_ ?_ ⟨rfl, hpos⟩
  · have := hh.len
    omega
  · exact Mid.of_begin rfl (by show r'.pos < 2; omega) (by simp [hpos])
  · have hframe := hin.frame_eq (stream.drop r.headerLen)
    rw [hfront, if_neg (by tauto), if_neg, ← hkept, List.take_left' hlen, List.drop_left' hlen] at hframe
    · rwa [hkept] at hframe
    · rw [← hkept, List.length_append, hlen]
      omega

/-- Filling what follows the header leaves the reader in it. -/
theorem InBody.filled {r r' : Reader} (hin : InBody r) (h : Filled r.headerLen r r' r'.pos)
    (hpos : r'.pos < min r.remainLen (r.rxBuf.length - r.headerLen)) : InBody r' := by
  obtain ⟨first, conts, b, hh, hb, hdec⟩ := hin.header
  refine ⟨⟨first, conts, b, hh.filled h, hb, ?_⟩, .inr ?_⟩
  · rw [h.remainLen, hdec]
  · rw [h.remainLen, h.headerLen, h.room]
    exact hpos

/-- What is there of a packet is not a packet. -/
theorem InBody.frame_pending {r : Reader} (hin : InBody r)
    (hpos : r.pos < min r.remainLen (r.rxBuf.length - r.headerLen)) :
    frame r.rxBuf.length (r.rxBuf.take (r.headerLen + r.pos)) = .more := by
  rw [List.take_add, hin.frame_eq, if_neg (by omega), if_pos]
  rw [List.length_append, List.length_take, List.length_take, List.length_drop]
  omega

theorem readRemain_call (nonblock : Bool) (r : Reader) (stream : Bytes) (hin : InBody r)
    (hkept : r.rxBuf.take (r.headerLen + r.pos) ++ r.net.stream = stream) :
    Call r stream (readRemain nonblock r) := by
  obtain ⟨first, conts, b, hh, hb, hdec⟩ := hin.header
  have hle := hh.le
  have hfront : r.rxBuf.take r.headerLen ++ stream.drop r.headerLen = stream := by
    rw [← hkept, List.take_add, List.append_assoc, List.drop_left' (by rw [List.length_take]; omega)]
  have hin' : InBody {r with stat := .read} :=
    ⟨⟨first, conts, b, ⟨hh.big, hh.bytes, hh.len, hh.short, hh.conts⟩, hb, hdec⟩, hin.pos⟩
  rw [readRemain, if_neg (by unfold Reader.rxBufLen; omega)]
  dsimp only [Reader.rxBufLen]
  by_cases hrem : r.remainLen > 0
  · rw [if_pos hrem]
    by_cases hzero : min r.remainLen (r.rxBuf.length - r.headerLen) = 0
    · -- no byte of the rest fits: `MqttSocket_Read` is asked for nothing
      rw [socketRead, if_pos hzero]
      refine .failed Code.badArg _ rfl (Moved.restat r .read) (Mid.of_body rfl hin' hkept) ?_
      have hframe := hin.frame_eq (stream.drop r.headerLen)
      rwa [hfront, if_pos ⟨hrem, hzero⟩] at hframe
    · have hpos : r.pos < min r.remainLen (r.rxBuf.length - r.headerLen) := by
        rcases hin.pos with h | h <;> omega
      have hread := socketRead_spec nonblock r.headerLen (min r.remainLen (r.rxBuf.length - r.headerLen))
        {r with stat := .read} (by show r.headerLen + _ ≤ r.rxBuf.length; omega) hpos
      generalize socketRead nonblock r.headerLen _ _ = got at hread
      cases hread with
      | done r' h hpos' =>
        have hmin : min ((r'.headerLen : Int) + (min r.remainLen (r.rxBuf.length - r.headerLen) : Nat))
            r'.rxBufLen = ((r.headerLen + min r.remainLen (r.rxBuf.length - r.headerLen) : Nat) : Int) := by
          rw [Reader.rxBufLen, h.headerLen, h.room]
          push_cast
          omega
        rw [finishRemain, if_neg (by omega), if_neg (by omega), hmin]
        exact .whole hin ((Moved.restat r .read).trans h.toMoved) hpos' (fun _ => hzero) hfront (h.kept.trans hkept)
      | paused why r' h hpos' hspent =>
        have hneg := why.code_neg
        have hbody : InBody r' := hin'.filled h hpos'
        rw [finishRemain, if_pos (by show why.code ≤ 0; omega)]
        refine .paused why r' ((Moved.restat r .read).trans h.toMoved) (Mid.of_body h.stat hbody ?_) hspent ?_
        · rw [h.headerLen]
          exact h.kept.trans hkept
        · have hmore := hbody.frame_pending (by rw [h.remainLen, h.headerLen, h.room]; exact hpos')
          rw [h.room] at hmore
          simpa [Reader.pending, h.stat] using hmore
  · have hpos : r.pos = 0 := by
      rcases hin.pos with h | h <;> omega
    have hzero : min r.remainLen (r.rxBuf.length - r.headerLen) = 0 := by omega
    rw [if_neg hrem, Nat.min_eq_left (by omega)]
    refine .whole hin (Moved.refl r) hpos (fun h => absurd h hrem) hfront ?_
    rwa [hzero, ← hpos]

/-! The length bytes -/

theorem Header.lenByte {r : Reader} {first b : UInt8} {conts : Bytes} (h : Header r first conts b) :
    r.lenByte (r.headerLen - headerMinSize) = b := by
  have hle := h.le
  have hidx : 1 + (r.headerLen - headerMinSize) = conts.length + 1 := by
    rw [h.len, headerMinSize]
    omega
  have hget : (r.rxBuf.take r.headerLen).getD (conts.length + 1) 0 = b := by
    rw [h.bytes]
    simp
  have hlt : conts.length + 1 < r.headerLen := by
    have := h.len
    omega
  rw [Reader.lenByte, hidx, ← hget]
  simp [List.getD_eq_getElem?_getD, List.getElem?_take_of_lt hlt]

theorem Header.drop_one {r : Reader} {first b : UInt8} {conts : Bytes} (h : Header r first conts b) :
    r.rxBuf.drop 1 = conts ++ b :: r.rxBuf.drop r.headerLen := by
  conv_lhs => rw [← List.take_append_drop r.headerLen r.rxBuf, h.bytes]
  simp

theorem decodeRemain_call (nonblock : Bool) (r : Reader) (stream : Bytes) {first b : UInt8} {conts : Bytes}
    (hh : Header r first conts b) (hb : b.toNat < 128) (hs : r.stat = .readHead) (hpos : r.pos = 0)
    (hkept : r.rxBuf.take r.headerLen ++ r.net.stream = stream) :
    Call r stream (decodeRemain nonblock (r.headerLen - headerMinSize) r) := by
  have hbig := hh.big
  have hlen := hh.len
  have hone : r.headerLen - (r.headerLen - headerMinSize + 1) = 1 := by
    rw [headerMinSize]
    omega
  have htail : stream.tail = conts ++ b :: r.net.stream := by
    rw [← hkept, hh.bytes]
    simp
  rw [decodeRemain, hone, if_neg (by unfold Reader.rxBufLen; omega), Reader.rxBufLen,
    List.take_of_length_le (by rw [List.length_drop]), hh.drop_one]
  have hsame : decodeVbi stream.tail = decodeVbi (conts ++ b :: r.rxBuf.drop r.headerLen) := by
    rw [htail]
    exact decodeVbiLoop_prefix conts b _ _ 0 0 1 hh.conts hb
  rcases decodeVbi_closed (r.rxBuf.drop r.headerLen) hh.conts hb hh.short with herr | ⟨x, hx, hmax⟩
  · rw [herr]
    refine .failed _ r rfl (Moved.refl r) (Mid.of_head hs ⟨⟨first, conts, b, hh⟩, hpos⟩ hkept) ?_
    rw [frame_open hbig (hsame.trans herr), if_neg]
    rintro ⟨-, hall⟩
    have hbad := List.all_eq_true.mp hall b (by rw [htail]; simp)
    have : 128 ≤ b.toNat := of_decide_eq_true hbad
    omega
  · have hdec : decodeVbi (conts ++ [b]) = .ok (x, conts.length + 1) := by
      rw [← hx]
      exact decodeVbiLoop_prefix conts b _ _ 0 0 1 hh.conts hb
    rw [hx]
    show Call r stream (if x > maxRemainLen then _ else _)
    rw [if_neg (by omega), show conts.length + 1 + 1 = r.headerLen by omega]
    have hmoved : Moved r {r with remainLen := x} := ⟨rfl, Nat.le_refl _, [], by simp, by simp, by simp⟩
    refine hmoved.call (readRemain_call nonblock _ stream ?_ ?_)
    · exact ⟨⟨first, conts, b, ⟨hbig, hh.bytes, hlen, hh.short, hh.conts⟩, hb, hdec⟩, .inl hpos⟩
    · show r.rxBuf.take (r.headerLen + r.pos) ++ r.net.stream = stream
      rw [hpos]
      exact hkept

/-- A length byte that says another one follows leaves the packet open. -/
theorem Header.frame_pending {r : Reader} {first b : UInt8} {conts : Bytes} (h : Header r first conts b)
    (hb : 128 ≤ b.toNat) (hlt : conts.length + 1 < maxLenBytes) :
    frame r.rxBuf.length (r.rxBuf.take r.headerLen) = .more := by
  have hconts : Continues (conts ++ [b]) := by
    intro c hc
    rcases List.mem_append.mp hc with hc | hc
    · exact h.conts c hc
    · rw [List.mem_singleton.mp hc]
      exact hb
  obtain ⟨e, he⟩ := decodeVbiLoop_open (conts ++ [b]) [] 0 0 1 hconts (.inl rfl)
  rw [List.append_nil] at he
  have htail : (r.rxBuf.take r.headerLen).tail = conts ++ [b] := by
    rw [h.bytes]
    rfl
  rw [frame_open h.big (by rw [htail]; exact he), htail, if_pos]
  refine ⟨by simpa using hlt, List.all_eq_true.mpr ?_⟩
  intro c hc
  exact decide_eq_true (hconts c hc)

/-- The fourth length byte says another one follows. -/
theorem Header.frame_malformed {r : Reader} {first b : UInt8} {conts : Bytes} (h : Header r first conts b)
    (hb : 128 ≤ b.toNat) (hfour : conts.length + 1 = maxLenBytes) (rest : Bytes) :
    frame r.rxBuf.length (r.rxBuf.take r.headerLen ++ rest) = .bad Code.malformedData := by
  have hconts : Continues (conts ++ [b]) := by
    intro c hc
    rcases List.mem_append.mp hc with hc | hc
    · exact h.conts c hc
    · rw [List.mem_singleton.mp hc]
      exact hb
  obtain ⟨e, he⟩ := decodeVbiLoop_open (conts ++ [b]) rest 0 0 1 hconts (.inr (by simp; omega))
  have htail : (r.rxBuf.take r.headerLen ++ rest).tail = conts ++ [b] ++ rest := by
    rw [h.bytes]
    rfl
  rw [frame_open h.big (by rw [htail]; exact he), htail, if_neg]
  rintro ⟨hlen, -⟩
  simp only [List.length_append, List.length_singleton] at hlen
  omega

/-- One more length byte. -/
theorem Header.next {r r' : Reader} {first b : UInt8} {conts : Bytes} (h : Header r first conts b)
    (hb : 128 ≤ b.toNat) (hlt : conts.length + 1 < maxLenBytes) (hf : Filled r.headerLen r r' 1) :
    ∃ b', Header {r' with headerLen := r'.headerLen + 1} first (conts ++ [b]) b' := by
  have hh' := h.filled hf
  have hbig := hh'.big
  have hlen := hh'.len
  have hroom : r'.headerLen < r'.rxBuf.length := by omega
  refine ⟨r'.rxBuf.get ⟨r'.headerLen, hroom⟩, hbig, ?_, ?_, ?_, ?_⟩
  · show r'.rxBuf.take (r'.headerLen + 1) = _
    rw [List.take_succ_eq_append_getElem hroom, hh'.bytes]
    rfl
  · show r'.headerLen + 1 = _
    simp only [List.length_append, List.length_singleton]
    omega
  · simpa using hlt
  · intro c hc
    rcases List.mem_append.mp hc with hc | hc
    · exact h.conts c hc
    · rw [List.mem_singleton.mp hc]
      exact hb

theorem readHeadLoop_call (nonblock : Bool) (left : Nat) (r : Reader) (stream : Bytes) {first b : UInt8}
    {conts : Bytes} (hh : Header r first conts b) (hs : r.stat = .readHead) (hpos : r.pos = 0)
    (hkept : r.rxBuf.take r.headerLen ++ r.net.stream = stream) (hleft : left + conts.length = maxLenBytes) :
    Call r stream (readHeadLoop nonblock left (r.headerLen - headerMinSize) r) := by
  induction left generalizing r conts b with
  | zero =>
    have := hh.short
    omega
  | succ left ih =>
    have hlen := hh.len
    have hbig := hh.big
    have hi : r.headerLen - headerMinSize = conts.length := by
      rw [headerMinSize]
      omega
    rw [readHeadLoop, hh.lenByte]
    by_cases hb : b.toNat < 128
    · rw [if_pos hb]
      exact decodeRemain_call nonblock r stream hh hb hs hpos hkept
    rw [if_neg hb, hi]
    by_cases hfour : conts.length = maxLenBytes - 1
    · rw [if_pos hfour]
      refine .failed _ r rfl (Moved.refl r) (Mid.of_head hs ⟨⟨first, conts, b, hh⟩, hpos⟩ hkept) ?_
      rw [← hkept]
      exact hh.frame_malformed (by omega) (by rw [hfour]; rfl) _
    have hlt : conts.length + 1 < maxLenBytes := by
      have := hh.short
      omega
    rw [if_neg hfour, if_neg (by unfold Reader.rxBufLen; omega)]
    have hread := socketRead_spec nonblock r.headerLen 1 r (by omega) (by omega)
    generalize socketRead nonblock r.headerLen 1 r = got at hread
    cases hread with
    | done r' h hpos' =>
      obtain ⟨b', hnext⟩ := hh.next (by omega) hlt h
      have hidx : conts.length + 1 = r'.headerLen + 1 - headerMinSize := by
        rw [h.headerLen, headerMinSize]
        omega
      show Call r stream (readHeadLoop nonblock left (conts.length + 1) {r' with headerLen := r'.headerLen + 1})
      rw [hidx]
      refine h.toMoved.call ?_
      refine (show Moved r' {r' with headerLen := r'.headerLen + 1} from
        ⟨rfl, Nat.le_refl _, [], by simp, by simp, by simp⟩).call (ih _ hnext (h.stat.trans hs) hpos' ?_ ?_)
      · show r'.rxBuf.take (r'.headerLen + 1) ++ r'.net.stream = stream
        rw [h.headerLen, h.kept, hpos]
        exact hkept
      · simp only [List.length_append, List.length_singleton]
        omega
    | paused why r' h hpos' hspent =>
      have hneg := why.code_neg
      have hh' := hh.filled h
      have hzero : r'.pos = 0 := by omega
      have hstat := h.stat.trans hs
      show Call r stream (if why.code < 0 then _ else _)
      rw [if_pos hneg]
      refine .paused why r' h.toMoved (Mid.of_head hstat ⟨⟨first, conts, b, hh'⟩, hzero⟩ ?_) hspent ?_
      · have hk := h.kept
        rw [hzero, hpos] at hk
        rw [h.headerLen]
        exact hk.trans hkept
      · have hmore := hh'.frame_pending (by omega) hlt
        rw [h.room] at hmore
        simpa [Reader.pending, hstat, hzero] using hmore

theorem readHead_call (nonblock : Bool) (r : Reader) (stream : Bytes) {first b : UInt8} {conts : Bytes}
    (hh : Header r first conts b) (hpos : r.pos = 0)
    (hkept : r.rxBuf.take r.headerLen ++ r.net.stream = stream) : Call r stream (readHead nonblock r) := by
  have hlen := hh.len
  have hshort := hh.short
  refine (Moved.restat r .readHead).call ?_
  have hh' : Header {r with stat := .readHead} first conts b := ⟨hh.big, hh.bytes, hlen, hshort, hh.conts⟩
  refine readHeadLoop_call nonblock _ _ stream hh' rfl hpos hkept ?_
  rw [headerMinSize]
  omega

theorem readBegin_call (nonblock : Bool) (r : Reader) (stream : Bytes) (hbig : maxLenBytes + 1 ≤ r.rxBuf.length)
    (hs : r.stat = .begin) (hpos : r.pos < headerMinSize)
    (hkept : r.rxBuf.take r.pos ++ r.net.stream = stream) : Call r stream (readBegin nonblock r) := by
  have hmoved : Moved r {r with headerLen := headerMinSize, remainLen := 0} :=
    ⟨rfl, Nat.le_refl _, [], by simp, by simp, by simp⟩
  have hfive : maxLenBytes + 1 = 5 := rfl
  rw [readBegin]
  have hread := socketRead_spec nonblock 0 headerMinSize {r with headerLen := headerMinSize, remainLen := 0}
    (by show 0 + 2 ≤ r.rxBuf.length; omega) hpos
  generalize socketRead nonblock 0 headerMinSize _ = got at hread
  cases hread with
  | done r' h hpos' =>
    have hlen : r'.headerLen = 2 := h.headerLen
    have hroom : r'.rxBuf.length = r.rxBuf.length := h.room
    obtain ⟨first, b, rest, hbuf⟩ : ∃ first b rest, r'.rxBuf = first :: b :: rest := by
      match hr : r'.rxBuf with
      | [] => simp [hr] at hroom; omega
      | [_] => simp [hr] at hroom; omega
      | first :: b :: rest => exact ⟨first, b, rest, rfl⟩
    have hh : Header r' first [] b :=
      ⟨by omega, by rw [hlen, hbuf]; rfl, hlen, by decide, fun c hc => absurd hc List.not_mem_nil⟩
    refine hmoved.call (h.toMoved.call (readHead_call nonblock r' stream hh hpos' ?_))
    have hk := h.kept
    simp only [Nat.zero_add] at hk
    rw [hlen]
    exact hk.trans hkept
  | paused why r' h hpos' hspent =>
    have hneg := why.code_neg
    have hstat : r'.stat = .begin := h.stat.trans hs
    have hroom : r'.rxBuf.length = r.rxBuf.length := h.room
    have hk := h.kept
    simp only [Nat.zero_add] at hk
    show Call r stream (if why.code < 0 then _ else _)
    rw [if_pos hneg]
    refine .paused why r' (hmoved.trans h.toMoved) (Mid.of_begin hstat hpos' (hk.trans hkept)) hspent ?_
    have htail : (r'.rxBuf.take r'.pos).tail = [] := by
      apply List.eq_nil_of_length_eq_zero
      rw [List.length_tail, List.length_take]
      have : r'.pos < 2 := hpos'
      omega
    have hmore : frame r.rxBuf.length (r'.rxBuf.take r'.pos) = _ := frame_open hbig (by rw [htail]; rfl)
    rw [htail, if_pos ⟨by decide, rfl⟩] at hmore
    simpa [Reader.pending, hstat] using hmore

theorem packetRead_call (nonblock : Bool) (r : Reader) (stream : Bytes) (hmid : Mid r stream) :
    Call r stream (packetRead nonblock r) := by
  rw [packetRead]
  by_cases hbig : r.rxBufLen < maxLenBytes + 1
  · rw [if_pos hbig]
    refine .failed _ r rfl (Moved.refl r) hmid ?_
    exact if_pos hbig
  · have hbig' : maxLenBytes + 1 ≤ r.rxBuf.length := Nat.le_of_not_lt hbig
    have hkept := hmid.kept
    rw [if_neg hbig]
    cases hs : r.stat with
    | begin =>
      rw [Reader.pending, hs] at hkept
      exact readBegin_call nonblock r stream hbig' hs (hmid.start hs) hkept
    | readHead =>
      obtain ⟨⟨first, conts, b, hh⟩, hpos⟩ := hmid.head hs
      rw [Reader.pending, hs, hpos] at hkept
      exact readHead_call nonblock r stream hh hpos hkept
    | read =>
      rw [Reader.pending, hs] at hkept
      exact readRemain_call nonblock r stream (hmid.body hs) hkept

/-! ### Repeated calls -/

theorem outcome_pause (why : Pause) (r : Reader) : outcome (why.code, r) = none := by
  cases why <;> rfl

theorem outcome_packet (len : Nat) (r : Reader) (h : 0 < len) : outcome (len, r) = some (.ok (r.rxBuf.take len)) := by
  have hpos : (len : Int) > 0 := by omega
  simp only [outcome, hpos, if_true, Int.toNat_natCast]

/-- The packets among outcomes. -/
def packets (outcomes : List (Except Int Bytes)) : List Bytes := outcomes.filterMap Except.toOption

theorem frame_packet {rxBufLen : Nat} {stream p rest : Bytes} (h : frame rxBufLen stream = .packet p rest) :
    Fits rxBufLen p ∧ p ++ rest = stream := by
  rw [frame] at h
  split at h
  · cases h
  split at h
  · split at h <;> cases h
  · next remainLen n hdec =>
    dsimp only at h
    split at h
    · cases h
    split at h
    · cases h
    · next hlen =>
      obtain ⟨rfl, rfl⟩ := Frame.packet.inj h
      refine ⟨⟨remainLen, n, ?_, ?_⟩, List.take_append_drop _ _⟩
      · obtain ⟨conts, b, more, htail, hconts, hb, hn⟩ := decodeVbiLoop_shape _ _ _ _ _ _ hdec
        cases stream with
        | nil => simp at htail
        | cons first tail =>
          have hsplit : tail.take (n + min remainLen (rxBufLen - (1 + n))) =
              conts ++ b :: more.take (min remainLen (rxBufLen - (1 + n))) := by
            rw [List.tail_cons] at htail
            rw [htail, hn, List.take_append, List.take_of_length_le (by omega)]
            congr 1
            rw [show 0 + conts.length + 1 + min remainLen (rxBufLen - (1 + (0 + conts.length + 1))) - conts.length =
              min remainLen (rxBufLen - (1 + (0 + conts.length + 1))) + 1 by omega, List.take_succ_cons]
          show decodeVbi (List.take _ (first :: tail)).tail = _
          rw [Nat.add_assoc, Nat.add_comm, List.take_succ_cons, List.tail_cons, hsplit, ← hdec, htail]
          exact decodeVbiLoop_prefix conts b _ _ 0 0 1 hconts hb
      · rw [List.length_take]
        omega

/-- Any number of calls: the outcomes are the first ones of the stream, and the reader is in the middle of
what is left. -/
theorem packetReads_frames (nonblock : Bool) (n : Nat) (r : Reader) (stream : Bytes) (hmid : Mid r stream) :
    Moved r (packetReads nonblock n r).2 ∧
      (packetReads nonblock n r).1 = frames r.rxBuf.length (packetReads nonblock n r).1.length stream ∧
      ∃ rest, Mid (packetReads nonblock n r).2 rest ∧ (packets (packetReads nonblock n r).1).flatten ++ rest = stream := by
  induction n generalizing r stream with
  | zero => exact ⟨Moved.refl r, rfl, stream, hmid, rfl⟩
  | succ n ih =>
    have hcall := packetRead_call nonblock r stream hmid
    simp only [packetReads]
    generalize packetRead nonblock r = result at hcall
    cases hcall with
    | paused why r' h hmid' hspent hmore =>
      obtain ⟨hm, hf, hrest⟩ := ih r' stream hmid'
      rw [outcome_pause, ← h.room]
      exact ⟨h.trans hm, hf, hrest⟩
    | failed e r' he h hmid' hbad =>
      obtain ⟨hm, hf, rest, hmid'', hall⟩ := ih r' stream hmid'
      rw [he]
      refine ⟨h.trans hm, ?_, rest, hmid'', hall⟩
      rw [h.room] at hf
      show _ :: _ = frames _ (_ + 1) stream
      rw [frames, hbad]
      exact congrArg _ hf
    | packet len r' rest hlen h hmid' hframe _ =>
      obtain ⟨hm, hf, rest', hmid'', hall⟩ := ih r' rest hmid'
      rw [outcome_packet len r' hlen]
      refine ⟨h.trans hm, ?_, rest', hmid'', ?_⟩
      · rw [h.room] at hf
        show _ :: _ = frames _ (_ + 1) stream
        rw [frames, hframe]
        exact congrArg _ hf
      · rw [← (frame_packet hframe).2, ← hall, ← List.append_assoc]
        rfl

theorem packetReads_add (nonblock : Bool) (k n : Nat) (r : Reader) :
    packetReads nonblock (k + n) r =
      ((packetReads nonblock k r).1 ++ (packetReads nonblock n (packetReads nonblock k r).2).1,
        (packetReads nonblock n (packetReads nonblock k r).2).2) := by
  induction k generalizing r with
  | zero => simp [packetReads]
  | succ k ih =>
    rw [Nat.succ_add]
    simp only [packetReads, ih, List.append_assoc]

/-- A reader comes to the next outcome after enough calls: each interrupted one uses up a step of the
script, or shows that the stream ends inside the packet. -/
theorem packetReads_next (nonblock : Bool) (r : Reader) (stream : Bytes) (hmid : Mid r stream) :
    frame r.rxBuf.length stream = .more ∨
      ∃ k r', (r'.rxBuf.length = r.rxBuf.length) ∧
        ((∃ e, packetReads nonblock k r = ([.error e], r') ∧ frame r.rxBuf.length stream = .bad e ∧ Mid r' stream) ∨
          ∃ p rest, packetReads nonblock k r = ([.ok p], r') ∧ frame r.rxBuf.length stream = .packet p rest ∧
            Mid r' rest) := by
  generalize hn : r.net.script.length = n
  induction n using Nat.strong_induction_on generalizing r with
  | _ n ih =>
    subst hn
    have hcall := packetRead_call nonblock r stream hmid
    generalize hresult : packetRead nonblock r = result at hcall
    cases hcall with
    | paused why r' h hmid' hspent hmore =>
      have hskip (k : Nat) : packetReads nonblock (k + 1) r = packetReads nonblock k r' := by
        simp [packetReads, hresult, outcome_pause]
      rcases hspent with hshort | hnil
      · rcases ih _ hshort r' hmid' rfl with hm | ⟨k, r'', hroom, hout⟩
        · exact .inl (by rw [← h.room, hm])
        · rw [h.room] at hroom hout
          exact .inr ⟨k + 1, r'', hroom, by rw [hskip]; exact hout⟩
      · have hkept := hmid'.kept
        rw [hnil, List.append_nil] at hkept
        exact .inl (by rw [← hkept, hmore])
    | failed e r' he h hmid' hbad =>
      refine .inr ⟨1, r', h.room, .inl ⟨e, ?_, hbad, hmid'⟩⟩
      simp [packetReads, hresult, he]
    | packet len r' rest hlen h hmid' hframe _ =>
      refine .inr ⟨1, r', h.room, .inr ⟨_, rest, ?_, hframe, hmid'⟩⟩
      simp [packetReads, hresult, outcome_packet len r' hlen]

/-- With enough calls, a reader gives as many of the stream's outcomes as one likes. -/
theorem frames_packetReads (nonblock : Bool) (m : Nat) (r : Reader) (stream : Bytes) (hmid : Mid r stream) :
    ∃ n, (packetReads nonblock n r).1 = frames r.rxBuf.length m stream := by
  induction m generalizing r stream with
  | zero => exact ⟨0, rfl⟩
  | succ m ih =>
    rcases packetReads_next nonblock r stream hmid with hmore | ⟨k, r', hroom, ⟨e, hk, hbad, hmid'⟩ | ⟨p, rest, hk, hpk, hmid'⟩⟩
    · exact ⟨0, by rw [frames, hmore]; rfl⟩
    · obtain ⟨n, hn⟩ := ih r' stream hmid'
      refine ⟨k + n, ?_⟩
      rw [packetReads_add, hk, hn, hroom, frames, hbad]
      rfl
    · obtain ⟨n, hn⟩ := ih r' rest hmid'
      refine ⟨k + n, ?_⟩
      rw [packetReads_add, hk, hn, hroom, frames, hpk]
      rfl

theorem Mid.fresh (rxBuf stream : Bytes) (script : List NetCall) : Mid (.fresh rxBuf stream script) stream :=
  Mid.of_begin rfl Nat.zero_lt_two rfl

theorem frames_fit (rxBufLen n : Nat) (stream p : Bytes) (h : .ok p ∈ frames rxBufLen n stream) : Fits rxBufLen p := by
  induction n generalizing stream with
  | zero => cases h
  | succ n ih =>
    rw [frames] at h
    split at h
    · cases h
    · next e hframe =>
      rcases List.mem_cons.mp h with h | h
      · cases h
      · exact ih stream h
    · next p' rest hframe =>
      rcases List.mem_cons.mp h with h | h
      · cases h
        exact (frame_packet hframe).1
      · exact ih rest h

theorem Header.pending_getD {r : Reader} {first b : UInt8} {conts : Bytes} (h : Header r first conts b) :
    (r.rxBuf.take (r.headerLen + r.pos)).getD (conts.length + 1) 0 = b := by
  rw [List.take_add, h.bytes]
  simp

/-- When all four length bytes say that another one follows, no further byte is read. -/
theorem Mid.no_fifth {r : Reader} {stream : Bytes} (hmid : Mid r stream)
    (hfour : ∀ i < maxLenBytes, 128 ≤ (r.pending.getD (i + 1) 0).toNat) : r.pending.length = 1 + maxLenBytes := by
  have hlast := hfour 3 (by decide)
  have hlong : 4 < r.pending.length := by
    by_contra hshort
    rw [List.getD_eq_getElem?_getD, List.getElem?_eq_none (by omega)] at hlast
    exact absurd hlast (by decide)
  cases hs : r.stat with
  | begin =>
    have hpos : r.pos < 2 := hmid.start hs
    rw [Reader.pending, hs, List.length_take] at hlong
    omega
  | readHead =>
    obtain ⟨⟨first, conts, b, hh⟩, hpos⟩ := hmid.head hs
    have hshort : conts.length < 4 := hh.short
    have hmax : maxLenBytes = 4 := rfl
    rw [Reader.pending, hs] at hlong ⊢
    simp only [hpos, Nat.add_zero, hh.bytes, List.length_cons, List.length_append, List.length_nil] at hlong ⊢
    omega
  | read =>
    obtain ⟨first, conts, b, hh, hb, -⟩ := (hmid.body hs).header
    have hbyte := hfour conts.length hh.short
    rw [Reader.pending, hs, hh.pending_getD] at hbyte
    omega

/-- A packet that is exactly its fixed header and the bytes its Remaining Length counts. -/
def wholePacket (p : Bytes) : Bool :=
  match decodeVbi p.tail with
  | .ok (remainLen, n) => p.length = 1 + n + remainLen
  | .error _ => false

/-- However the transport cuts the stream, the outcomes are those of reading it in one piece. Every packet
holds its header and as much of the rest as `rx_buf` has room for; every byte read went to one place inside
`rx_buf`, in order; the packets, what is there of the next one and what is still to come are the stream. -/
theorem packetReads_fragmentation (nonblock : Bool) (rxBuf stream : Bytes) (script : List NetCall) :
    (∀ n, ∃ m, (packetReads nonblock n (.fresh rxBuf stream script)).1 =
      (packetReads nonblock m (.fresh rxBuf stream [])).1) ∧
    (∀ m, ∃ n, (packetReads nonblock m (.fresh rxBuf stream [])).1 =
      (packetReads nonblock n (.fresh rxBuf stream script)).1) ∧
    ∀ n outcomes r, packetReads nonblock n (.fresh rxBuf stream script) = (outcomes, r) →
      (∀ p, .ok p ∈ outcomes → Fits rxBuf.length p ∧
        (∀ remainLen k, decodeVbi p.tail = .ok (remainLen, k) → 1 + k + remainLen ≤ rxBuf.length → wholePacket p)) ∧
      (packets outcomes).flatten ++ r.pending ++ r.net.stream = stream ∧
      (r.written.map Prod.snd).flatten ++ r.net.stream = stream ∧
      (∀ w ∈ r.written, w.1 + w.2.length ≤ rxBuf.length) ∧ r.rxBuf.length = rxBuf.length ∧
      ((∀ i < maxLenBytes, 128 ≤ (r.pending.getD (i + 1) 0).toNat) → r.pending.length = 1 + maxLenBytes) := by
  have hequal (a b : List NetCall) (n : Nat) : ∃ m, (packetReads nonblock n (.fresh rxBuf stream a)).1 =
      (packetReads nonblock m (.fresh rxBuf stream b)).1 := by
    obtain ⟨-, hframes, -⟩ := packetReads_frames nonblock n _ stream (.fresh rxBuf stream a)
    obtain ⟨m, hm⟩ := frames_packetReads nonblock (packetReads nonblock n (.fresh rxBuf stream a)).1.length _ stream
      (.fresh rxBuf stream b)
    exact ⟨m, hframes.trans hm.symm⟩
  refine ⟨hequal script [], hequal [] script, ?_⟩
  intro n outcomes r hreads
  obtain ⟨hmoved, hframes, rest, hmid, hall⟩ := packetReads_frames nonblock n _ stream (.fresh rxBuf stream script)
  rw [hreads] at hmoved hframes hmid hall
  dsimp only at hmoved hframes hmid hall
  obtain ⟨ws, hws, hin, hbytes⟩ := hmoved.written
  have hws' : r.written = ws := hws
  refine ⟨?_, ?_, by rw [hws']; exact hbytes, by rw [hws']; exact hin, hmoved.room, hmid.no_fifth⟩
  · intro p hp
    rw [hframes] at hp
    obtain ⟨remainLen, k, hdec, hlen⟩ := frames_fit _ _ _ _ hp
    refine ⟨⟨remainLen, k, hdec, hlen⟩, ?_⟩
    intro remainLen' k' hdec' hroom
    rw [hdec] at hdec'
    cases hdec'
    have hmin : min remainLen (rxBuf.length - (1 + k)) = remainLen := by omega
    change p.length = 1 + k + min remainLen (rxBuf.length - (1 + k)) at hlen
    rw [hmin] at hlen
    simp [wholePacket, hdec, hlen]
  · rw [List.append_assoc, hmid.kept]
    exact hall

/-- A PUBLISH of ten bytes and a buffer of five: the packet that comes back is not whole. -/
theorem packetRead_not_whole :
    ¬ ∀ nonblock rxBuf stream script n p,
      .ok p ∈ (packetReads nonblock n (.fresh rxBuf stream script)).1 → wholePacket p = true := by
  intro h
  have hp := h true [0, 0, 0, 0, 0] [0x30, 8, 0, 1, 0x61, 1, 2, 3, 4, 5] [] 1 [0x30, 8, 0, 1, 0x61] (by decide)
  exact absurd hp (by decide)

end WolfMqtt
