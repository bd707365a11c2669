import WolfMqtt.Packet.Framing

/-! Why a read stops short.

The transport has said so, or in a blocking build it has nothing more; without blocking a read also stops
when it was given less than it has asked for. And what a read has got so far, it has counted. -/
namespace WolfMqtt

/-- What a read of the transport says about the transport. -/
structure Polls (nonblock : Bool) (r : Reader) (result : Int × Reader) : Prop where
  script : result.2.net.script <:+ r.net.script
  counted : r.pos ≤ r.total → result.2.pos ≤ result.2.total
  why : result.1 = Code.continue ∨ result.1 = Code.timeout →
    (∃ why, Pause.code why = result.1 ∧ .pause why ∈ r.net.script) ∨
      (nonblock = true ∧ result.1 = Code.continue) ∨ nonblock = false ∧ result.2.net.stream = []

namespace Polls
variable {nonblock : Bool} {r r' : Reader} {result : Int × Reader} {rc : Int}

/-- A read that ends with a code of its own. -/
theorem ended (hscript : r'.net.script <:+ r.net.script) (hcounted : r.pos ≤ r.total → r'.pos ≤ r'.total)
    (hrc : rc ≠ Code.continue) (hrc' : rc ≠ Code.timeout) : Polls nonblock r (rc, r') where
  script := hscript
  counted := hcounted
  why h := absurd h (not_or.mpr ⟨hrc, hrc'⟩)

theorem of_pos (hscript : r'.net.script <:+ r.net.script) (hcounted : r.pos ≤ r.total → r'.pos ≤ r'.total)
    (hrc : 0 ≤ rc) : Polls nonblock r (rc, r') :=
  ended hscript hcounted (fun h => by rw [h] at hrc; exact absurd hrc (by decide))
    (fun h => by rw [h] at hrc; exact absurd hrc (by decide))

/-- One read after another. -/
theorem trans (h : Polls nonblock r (rc, r')) (h' : Polls nonblock r' result) : Polls nonblock r result where
  script := h'.script.trans h.script
  counted hr := h'.counted (h.counted hr)
  why hrc := by
    rcases h'.why hrc with ⟨why, hcode, hmem⟩ | hwhy
    · exact .inl ⟨why, hcode, h.script.subset hmem⟩
    · exact .inr hwhy

/-- A read that has got something starts over. -/
theorem rewound {bufLen : Nat} (h : Polls nonblock r result) :
    Polls nonblock r (if result.1 > 0 then ((min result.2.pos bufLen : Nat), {result.2 with pos := 0})
      else (result.1, result.2)) := by
  split
  · exact .of_pos h.script (fun _ => Nat.zero_le _) (by omega)
  · exact h

/-- What a read starts from does not matter but for its transport and its count. -/
theorem congr (h : Polls nonblock r' result) (hnet : r'.net = r.net) (hpos : r'.pos = r.pos) (htotal : r'.total = r.total) :
    Polls nonblock r result where
  script := hnet ▸ h.script
  counted hr := h.counted (by rw [hpos, htotal]; exact hr)
  why hrc := hnet ▸ h.why hrc

end Polls

/-- A call of the transport uses up its step of the script, and stops only where the script or the end says so. -/
theorem Net.read_script (net : Net) (idle : Pause) {want : Nat} (hwant : 0 < want) :
    (net.read idle want).2.script <:+ net.script ∧
      ∀ why, (net.read idle want).1 = .error why →
        .pause why ∈ net.script ∨ why = idle ∧ (net.read idle want).2.stream = [] := by
  obtain ⟨stream, script⟩ := net
  cases script with
  | nil =>
    cases htake : stream.take want with
    | nil =>
      have hnil : stream = [] := (List.take_eq_nil_iff.mp htake).resolve_left (Nat.ne_of_gt hwant)
      simp only [Net.read, htake]
      refine ⟨List.suffix_rfl, fun why hwhy => ?_⟩
      cases hwhy
      exact .inr ⟨rfl, hnil⟩
    | cons b piece =>
      simp only [Net.read, htake]
      exact ⟨List.suffix_rfl, fun why hwhy => by cases hwhy⟩
  | cons call script =>
    have hsuffix : script <:+ call :: script := List.suffix_cons call script
    cases call with
    | pause why =>
      refine ⟨hsuffix, fun why' hwhy => ?_⟩
      cases hwhy
      exact .inl List.mem_cons_self
    | give more =>
      cases htake : stream.take (min (more + 1) want) with
      | nil =>
        have hnil : stream = [] := (List.take_eq_nil_iff.mp htake).resolve_left (by omega)
        simp only [Net.read, htake]
        refine ⟨hsuffix, fun why hwhy => ?_⟩
        cases hwhy
        exact .inr ⟨rfl, hnil⟩
      | cons b piece =>
        simp only [Net.read, htake]
        exact ⟨hsuffix, fun why hwhy => by cases hwhy⟩

theorem socketReadLoop_polls (off bufLen fuel : Nat) (r : Reader) (hpos : r.pos < bufLen) :
    Polls false r (socketReadLoop off bufLen fuel r) := by
  induction fuel generalizing r with
  | zero => exact .of_pos List.suffix_rfl id (by show (0 : Int) ≤ (r.pos : Int); omega)
  | succ fuel ih =>
    obtain ⟨hscript, hwhy⟩ := r.net.read_script .timeout (show 0 < bufLen - r.pos by omega)
    rw [socketReadLoop]
    rcases hread : r.net.read .timeout (bufLen - r.pos) with ⟨why | piece, net⟩ <;> rw [hread] at hscript hwhy
    · dsimp only
      refine ⟨hscript, id, fun _ => ?_⟩
      rcases hwhy why rfl with hmem | ⟨-, hnil⟩
      · exact .inl ⟨why, rfl, hmem⟩
      · exact .inr (.inr ⟨rfl, hnil⟩)
    · have hacc (n : Nat) : Polls false r ((n : Int), Reader.accept {r with net} off piece) :=
        .of_pos hscript (fun h => Nat.add_le_add_right h _) (by omega)
      dsimp only
      split
      next hmore => exact (hacc 0).trans (ih _ hmore)
      next => exact hacc _

theorem socketRead_polls (nonblock : Bool) (off bufLen : Nat) (r : Reader) :
    Polls nonblock r (socketRead nonblock off bufLen r) := by
  rw [socketRead]
  split
  · exact .ended List.suffix_rfl id (by decide) (by decide)
  next hzero =>
  split
  · exact .ended List.suffix_rfl id (by decide) (by decide)
  next hroom =>
  cases nonblock with
  | false =>
    have hloop := socketReadLoop_polls off bufLen (bufLen - r.pos) r (by omega)
    rw [if_neg Bool.false_ne_true]
    generalize socketReadLoop off bufLen (bufLen - r.pos) r = result at hloop ⊢
    exact hloop.rewound
  | true =>
    obtain ⟨hscript, hwhy⟩ := r.net.read_script .continue (show 0 < bufLen - r.pos by omega)
    rw [if_pos rfl]
    rcases hread : r.net.read .continue (bufLen - r.pos) with ⟨why | piece, net⟩ <;> rw [hread] at hscript hwhy
    · have hpause : Polls true r (why.code, {r with net}) := by
        refine ⟨hscript, id, fun _ => ?_⟩
        rcases hwhy why rfl with hmem | ⟨rfl, -⟩
        · exact .inl ⟨why, rfl, hmem⟩
        · exact .inr (.inl ⟨rfl, rfl⟩)
      exact hpause.rewound
    · have hpos (n : Nat) : Polls true r ((n : Int), Reader.accept {r with net} off piece) :=
        .of_pos hscript (fun h => Nat.add_le_add_right h _) (by omega)
      have hmore : Polls true r (Code.continue, Reader.accept {r with net} off piece) :=
        ⟨hscript, fun h => Nat.add_le_add_right h _, fun _ => .inr (.inl ⟨rfl, rfl⟩)⟩
      dsimp only
      by_cases hlt : (Reader.accept {r with net} off piece).pos < bufLen
      · rw [if_pos hlt]
        exact hmore.rewound
      · rw [if_neg hlt]
        exact (hpos piece.length).rewound

theorem readRemain_polls (nonblock : Bool) (r : Reader) : Polls nonblock r (readRemain nonblock r) := by
  rw [readRemain]
  split
  · exact .ended List.suffix_rfl id (by decide) (by decide)
  dsimp only
  split
  · have hread := (socketRead_polls nonblock r.headerLen (min r.remainLen (r.rxBufLen - r.headerLen))
      {r with stat := .read}).congr (r := r) rfl rfl rfl
    generalize socketRead nonblock r.headerLen _ _ = got at hread ⊢
    rw [finishRemain]
    split
    · exact hread
    split
    · exact .ended hread.script hread.counted (by decide) (by decide)
    · exact .of_pos hread.script hread.counted (by omega)
  · exact .of_pos List.suffix_rfl id (by omega)

theorem decodeVbi_error {buf : Bytes} {e : Int} (h : decodeVbi buf = .error e) :
    e = Code.malformedData ∨ e = Code.outOfBuffer := by
  have hloop : ∀ (buf : Bytes) (rc v m : Nat), decodeVbiLoop rc v m buf = .error e →
      e = Code.malformedData ∨ e = Code.outOfBuffer := by
    intro buf
    induction buf with
    | nil =>
      intro rc v m h
      cases h
      exact .inr rfl
    | cons b buf ih =>
      intro rc v m h
      rw [decodeVbiLoop] at h
      split at h
      · cases h
        exact .inl rfl
      split at h
      · exact ih _ _ _ h
      split at h
      · cases h
        exact .inl rfl
      · cases h
  exact hloop buf 0 0 1 h

theorem decodeRemain_polls (nonblock : Bool) (i : Nat) (r : Reader) : Polls nonblock r (decodeRemain nonblock i r) := by
  rw [decodeRemain]
  split
  · exact .ended List.suffix_rfl id (by decide) (by decide)
  split
  next e he =>
    have hrange := decodeVbi_error he
    exact .ended List.suffix_rfl id (by rcases hrange with rfl | rfl <;> decide) (by rcases hrange with rfl | rfl <;> decide)
  · split
    · exact .ended List.suffix_rfl id (by decide) (by decide)
    · exact (readRemain_polls nonblock _).congr rfl rfl rfl

theorem readHeadLoop_polls (nonblock : Bool) (left i : Nat) (r : Reader) :
    Polls nonblock r (readHeadLoop nonblock left i r) := by
  induction left generalizing i r with
  | zero => exact decodeRemain_polls nonblock i r
  | succ left ih =>
    rw [readHeadLoop]
    split
    · exact decodeRemain_polls nonblock i r
    split
    · exact .ended List.suffix_rfl id (by decide) (by decide)
    split
    · exact .ended List.suffix_rfl id (by decide) (by decide)
    have hread := socketRead_polls nonblock r.headerLen 1 r
    generalize socketRead nonblock r.headerLen 1 r = got at hread ⊢
    obtain ⟨rc, r'⟩ := got
    dsimp only
    split
    · exact hread
    split
    · exact .ended hread.script hread.counted (by decide) (by decide)
    · exact hread.trans ((ih _ _).congr rfl rfl rfl)

theorem readHead_polls (nonblock : Bool) (r : Reader) : Polls nonblock r (readHead nonblock r) :=
  (readHeadLoop_polls nonblock _ _ _).congr rfl rfl rfl

theorem packetRead_polls (nonblock : Bool) (r : Reader) : Polls nonblock r (packetRead nonblock r) := by
  rw [packetRead]
  split
  · exact .ended List.suffix_rfl id (by decide) (by decide)
  cases r.stat with
  | begin =>
    have hread := (socketRead_polls nonblock 0 headerMinSize
      {r with headerLen := headerMinSize, remainLen := 0}).congr (r := r) rfl rfl rfl
    dsimp only
    rw [readBegin]
    generalize socketRead nonblock 0 headerMinSize _ = got at hread ⊢
    obtain ⟨rc, r'⟩ := got
    dsimp only
    split
    · exact hread
    split
    · exact .ended hread.script hread.counted (by decide) (by decide)
    · exact hread.trans (readHead_polls nonblock r')
  | readHead => exact readHead_polls nonblock r
  | read => exact readRemain_polls nonblock r

/-! ### A transport that only asks for time -/

/-- Pauses only where the build is made for them, and no timeouts. -/
def Patient (nonblock : Bool) (net : Net) : Prop :=
  ∀ why, .pause why ∈ net.script → nonblock = true ∧ why = .continue

/-- A read that stops short asks to be made again. -/
theorem Polls.again {nonblock : Bool} {r r' : Reader} {why : Pause} (h : Polls nonblock r (why.code, r'))
    (hpatient : Patient nonblock r.net) (hmore : r'.net.stream ≠ []) : nonblock = true ∧ why = .continue := by
  have hcode : why.code = Code.continue ∨ why.code = Code.timeout := by
    cases why
    · exact .inl rfl
    · exact .inr rfl
  rcases h.why hcode with ⟨why', hsame, hmem⟩ | ⟨hblock, hrc⟩ | ⟨-, hnil⟩
  · obtain ⟨hblock, rfl⟩ := hpatient why' hmem
    refine ⟨hblock, ?_⟩
    cases why
    · rfl
    · cases hsame
  · refine ⟨hblock, ?_⟩
    cases why
    · rfl
    · cases hrc
  · exact absurd hnil hmore

end WolfMqtt
