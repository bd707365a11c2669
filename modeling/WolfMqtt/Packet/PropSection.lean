import WolfMqtt.Packet.Decoders

/-! A property list and its length, on the pool.

`scanSection` is what `propSectionM` decides, with as many properties as the pool has free elements.
Where the list ends is never in question: it takes as many bytes as its length says
(`scanSection_ends`), although the loop compares the two nowhere. -/
namespace WolfMqtt

open Agree (bind_eq_ok)
open Attempt (Triple)
open Pool (Cell Linked)

/-! ### Lengths -/

theorem scanVbiLoop_bounds {rx : Bytes} {pos bufLen rc value multiplier turns v n : Nat}
    (h : scanVbiLoop rx pos bufLen rc value multiplier turns = .ok (v, n)) (hvalue : value < multiplier) :
    v < multiplier * 128 ^ turns ∧ (n = rc + 1 ∨ multiplier * 128 ≤ v) ∧ (1 ≤ rc → multiplier ≤ v) ∧ n ≤ bufLen := by
  induction turns generalizing rc value multiplier with
  | zero =>
    unfold scanVbiLoop at h
    split at h <;> cases h
  | succ turns ih =>
    unfold scanVbiLoop at h
    split at h
    · cases h
    next hroom =>
    obtain ⟨b, -, h⟩ := bind_eq_ok.mp h
    have hpow : multiplier * 128 ^ (turns + 1) = multiplier * 128 * 128 ^ turns := by
      rw [Nat.pow_succ, Nat.mul_assoc, Nat.mul_comm 128]
    split at h
    · -- the value so far stays below the multiplier
      have hdigit : b.toNat % 128 * multiplier ≤ 127 * multiplier := Nat.mul_le_mul_right _ (by omega)
      obtain ⟨hlt, -, hfrom, hbuf⟩ := ih h (by omega)
      have hle := hfrom (by omega)
      rw [hpow]
      exact ⟨hlt, .inr hle, fun _ => by omega, hbuf⟩
    next hlast =>
    split at h
    · cases h
    next hzero =>
    cases h
    have hdigit : b.toNat * multiplier ≤ 127 * multiplier := Nat.mul_le_mul_right _ (by omega)
    have hone : 1 ≤ 128 ^ turns := Nat.one_le_pow _ _ (by decide)
    have hturns : multiplier * 128 * 1 ≤ multiplier * 128 * 128 ^ turns := Nat.mul_le_mul_left _ hone
    refine ⟨by omega, .inl rfl, fun hrc => ?_, by omega⟩
    have hb : b ≠ 0 := by
      intro hb
      simp only [hb, decide_true, Bool.and_true, decide_eq_true_eq] at hzero
      omega
    have hpos : 1 ≤ b.toNat := by
      rw [Nat.one_le_iff_ne_zero]
      exact fun h0 => hb (UInt8.toNat_inj.mp h0)
    have hdigit' : 1 * multiplier ≤ b.toNat * multiplier := Nat.mul_le_mul_right _ hpos
    omega

theorem scanVbi_lt {rx : Bytes} {pos bufLen v n : Nat} (h : scanVbi rx pos bufLen = .ok (v, n)) : v < 268435456 := by
  obtain ⟨hlt, -⟩ := scanVbiLoop_bounds h (by decide)
  simpa [maxLenBytes] using hlt

/-- A number that fits into a byte takes one. -/
theorem scanVbi_one {rx : Bytes} {pos bufLen v n : Nat} (h : scanVbi rx pos bufLen = .ok (v, n)) (hv : v < 128) :
    n = 1 := by
  obtain ⟨-, hn, -⟩ := scanVbiLoop_bounds h (by decide)
  omega

theorem scanVbi_le {rx : Bytes} {pos bufLen v n : Nat} (h : scanVbi rx pos bufLen = .ok (v, n)) : n ≤ bufLen :=
  (scanVbiLoop_bounds h (by decide)).2.2.2

/-- A value takes no more than is left of the list. -/
theorem scanPropValue_le {rx : Bytes} {pbuf bufLen : Nat} {type : PropType} {at_ propLen : Nat} {v : PropView} {k : Nat}
    (h : scanPropValue rx pbuf bufLen type at_ propLen = .ok (v, k)) (hprop : propLen < 4294967296) : k ≤ propLen := by
  unfold scanPropValue at h
  cases htype : type.dataType with
  | byte =>
    simp only [htype] at h
    split at h
    · cases h
    next hroom =>
    obtain ⟨b, -, h⟩ := bind_eq_ok.mp h
    split at h
    · cases h
    cases h
    simp only [Bool.or_eq_true, decide_eq_true_eq, not_or] at hroom
    omega
  | short =>
    simp only [htype] at h
    split at h
    · cases h
    obtain ⟨value, -, h⟩ := bind_eq_ok.mp h
    split at h
    · cases h
    split at h
    · cases h
    cases h
    omega
  | int =>
    simp only [htype] at h
    split at h
    · cases h
    next hroom =>
    obtain ⟨value, -, h⟩ := bind_eq_ok.mp h
    split at h
    · cases h
    cases h
    simp only [Bool.or_eq_true, decide_eq_true_eq, not_or] at hroom
    omega
  | string =>
    simp only [htype] at h
    split at h
    · cases h
    obtain ⟨s, -, h⟩ := bind_eq_ok.mp h
    split at h
    · cases h
    split at h
    · cases h
    split at h
    · cases h
    cases h
    omega
  | varInt =>
    simp only [htype] at h
    split at h
    · cases h
    obtain ⟨⟨value, n⟩, -, h⟩ := bind_eq_ok.mp h
    dsimp only at h
    split at h
    · cases h
    split at h
    · cases h
    cases h
    omega
  | binary =>
    simp only [htype] at h
    obtain ⟨len, -, h⟩ := bind_eq_ok.mp h
    split at h
    · cases h
    next htwo =>
    rw [wordDiff_of_le (Nat.not_lt.mp htwo) hprop] at h
    split at h
    · cases h
    split at h
    · cases h
    cases h
    omega
  | stringPair =>
    simp only [htype] at h
    obtain ⟨s, -, h⟩ := bind_eq_ok.mp h
    split at h
    · cases h
    split at h
    · cases h
    next hfirst =>
    split at h
    · cases h
    obtain ⟨s₂, -, h⟩ := bind_eq_ok.mp h
    rw [wordDiff_of_le (Nat.not_lt.mp hfirst) hprop] at h
    split at h
    · cases h
    split at h
    · cases h
    cases h
    omega

theorem scanOne_ends {packet : PacketType} {rx : Bytes} {pbuf bufLen : Nat} {seen : SeenBits} {at_ propLen : Nat}
    {r : PropView × SeenBits × Nat × Nat} (h : scanOne packet rx pbuf bufLen seen at_ propLen = .ok r) (hpos : 0 < propLen)
    (hprop : propLen < 4294967296) : r.2.2.1 + r.2.2.2 = at_ + propLen ∧ r.2.2.2 ≤ propLen := by
  unfold scanOne at h
  split at h
  · cases h
  obtain ⟨⟨id, n⟩, hvbi, h⟩ := bind_eq_ok.mp h
  dsimp only at h
  split at h
  · cases h
  next hid =>
  have hone : n = 1 := scanVbi_one hvbi (by rw [propMatrixSize] at hid; omega)
  subst hone
  rw [wordDiff_of_le hpos hprop] at h
  split at h
  · cases h
  split at h
  · cases h
  split at h
  · cases h
  obtain ⟨⟨p, k⟩, hvalue, h⟩ := bind_eq_ok.mp h
  have hk := scanPropValue_le hvalue (by omega)
  cases h
  dsimp only
  rw [wordDiff_of_le hk (by omega)]
  omega

/-- A list takes as many bytes as its length says. -/
theorem scanPropsLoop_ends {packet : PacketType} {rx : Bytes} {pbuf bufLen : Nat} {seen : SeenBits}
    {room at_ propLen left : Nat} {r : List PropView × Nat}
    (h : scanPropsLoop packet rx pbuf bufLen seen room at_ propLen left = .ok r) (hprop : propLen < 2147483648) :
    r.2 = at_ + propLen := by
  induction left generalizing seen room at_ propLen r with
  | zero =>
    rw [scanPropsLoop] at h
    split at h
    · cases h
    next hdone =>
    cases h
    rw [(toInt32_done hprop).mp hdone]
    rfl
  | succ left ih =>
    rw [scanPropsLoop_succ] at h
    split at h
    next hdone =>
      cases h
      rw [(toInt32_done hprop).mp hdone]
      rfl
    next hmore =>
    split at h
    · cases h
    obtain ⟨one, hone, h⟩ := bind_eq_ok.mp h
    obtain ⟨rest, hrest, h⟩ := bind_eq_ok.mp h
    have hpos : 0 < propLen := Nat.pos_of_ne_zero fun hzero => hmore ((toInt32_done hprop).mpr hzero)
    obtain ⟨hends, hleft⟩ := scanOne_ends hone hpos (by omega)
    have hstop := ih hrest (by omega)
    cases h
    dsimp only
    omega

theorem scanProps_ends {packet : PacketType} {room : Nat} {rx : Bytes} {pbuf bufLen propLen : Nat}
    {r : List PropView × Nat} (h : scanProps packet room rx pbuf bufLen propLen = .ok r) (hprop : propLen < 2147483648) :
    r.2 = propLen := by
  obtain ⟨s, hloop, h⟩ := bind_eq_ok.mp h
  dsimp only at h
  split at h
  · cases h
  cases h
  exact (scanPropsLoop_ends hloop hprop).trans (Nat.zero_add propLen)

/-! ### Sections -/

/-- What `propSectionM` decides: the list, where it should end, and where it does. -/
def scanSection (packet : PacketType) (room : Nat) (rx : Bytes) (limit pos : Nat) (refuse : Nat → Nat → Option Int) :
    Except Fault (List PropView × Nat × Nat) := do
  let (len, n) ← scanVbi rx pos (wordDiff limit pos)
  match refuse len n with
  | some e => .error (.code e)
  | none =>
    if len > 0 then do
      let (views, total) ← scanProps packet room rx (pos + n) (wordDiff limit (pos + n)) len
      .ok (views, pos + n + len, pos + n + total)
    else .ok ([], pos + n + len, pos + n)

/-- A section that is accepted ends where it should. -/
theorem scanSection_ends {packet : PacketType} {room : Nat} {rx : Bytes} {limit pos : Nat}
    {refuse : Nat → Nat → Option Int} {views : List PropView} {declared stop : Nat}
    (h : scanSection packet room rx limit pos refuse = .ok (views, declared, stop)) :
    ∃ len n, scanVbi rx pos (wordDiff limit pos) = .ok (len, n) ∧ refuse len n = none ∧ declared = pos + n + len ∧
      stop = pos + n + len := by
  obtain ⟨⟨len, n⟩, hvbi, h⟩ := bind_eq_ok.mp h
  have hlen := scanVbi_lt hvbi
  dsimp only at h
  cases hrefuse : refuse len n with
  | some e =>
    rw [hrefuse] at h
    cases h
  | none =>
    rw [hrefuse] at h
    dsimp only at h
    split at h
    · obtain ⟨⟨vs, total⟩, hscan, h⟩ := bind_eq_ok.mp h
      have htotal : total = len := scanProps_ends hscan (by omega)
      cases h
      exact ⟨len, n, hvbi, hrefuse, rfl, by rw [htotal]⟩
    next hzero =>
      cases h
      exact ⟨len, n, hvbi, hrefuse, rfl, by omega⟩

theorem Frees.refl {w : Whose} {s : PropState} (h : s.head w = none) : Frees w [] s s where
  null := h
  free := by simp
  frame _ _ := rfl
  other _ _ := rfl
  length := rfl

/-- A section on the pool decides as `scanSection` does. When it fails, all that it has taken is free again. -/
theorem propSectionM_spec {w : Whose} {packet : PacketType} {rx : Bytes} {limit pos : Nat}
    {refuse : Nat → Nat → Option Int} {s : PropState} (hnull : s.head w = none) :
    match scanSection packet s.room rx limit pos refuse with
    | .error e => ∃ new s₁ s', propSectionM w packet rx limit pos refuse s = (.error e, s') ∧
        Grows w [] new s s₁ ∧ Frees w new s₁ s'
    | .ok r => ∃ new s', propSectionM w packet rx limit pos refuse s = (.ok r.2, s') ∧ Grows w [] new s s' ∧
        s'.views w = r.1 ∧ new.map (fun i => s'.pool[i]?.map Cell.item) = r.1.map fun v => some (.of v) := by
  have hnothing : ∀ e, (e, s) = (e, s) ∧ Grows w [] [] s s ∧ Frees w [] s s :=
    fun (_ : Except Fault (Nat × Nat)) => ⟨rfl, .refl hnull, .refl hnull⟩
  unfold scanSection propSectionM
  cases hvbi : scanVbi rx pos (wordDiff limit pos) with
  | error e => exact ⟨[], s, s, hnothing (.error e)⟩
  | ok r =>
    obtain ⟨len, n⟩ := r
    rw [Attempt.run_lift_bind rfl, Agree.ok_bind]
    dsimp only
    cases refuse len n with
    | some e => exact ⟨[], s, s, hnothing (.error (.code e))⟩
    | none =>
      dsimp only
      by_cases hsome : len > 0
      · rw [if_pos hsome, if_pos hsome]
        have hprops (x) (hx : scanProps packet s.room rx (pos + n) (wordDiff limit (pos + n)) len = x) :=
          hx ▸ @decodePropsM_spec w packet rx (pos + n) (wordDiff limit (pos + n)) len s hnull
        cases hscan : scanProps packet s.room rx (pos + n) (wordDiff limit (pos + n)) len with
        | error e =>
          obtain ⟨new, s₁, s', hrun, hgrows, hfrees⟩ := hprops _ hscan
          exact ⟨new, s₁, s', Attempt.run_bind_error hrun _, hgrows, hfrees⟩
        | ok r =>
          obtain ⟨new, s', hrun, hgrows, hviews, hvalues⟩ := hprops _ hscan
          exact ⟨new, s', Attempt.run_bind_ok hrun _, hgrows, hviews, hvalues⟩
      · rw [if_neg hsome, if_neg hsome]
        have hlinked : Linked s.pool (s.head w) [] := hnull
        exact ⟨[], s, rfl, .refl hnull, views_of_items hlinked rfl, rfl⟩

theorem run_nullProps_bind {α : Type} (w : Whose) (f : Unit → DecodeM α) (s : PropState) :
    (nullProps w >>= f) s = f () (s.setHead w none) := rfl

theorem run_viewProps_bind {α : Type} (w : Whose) (f : List PropView → DecodeM α) (s : PropState) :
    (viewProps w >>= f) s = f (s.views w) s := rfl

/-- Looking at a list changes nothing. -/
theorem viewProps_bind {α : Type} {w : Whose} {f : List PropView → DecodeM α} {pre err : PropState → Prop}
    {post : α → PropState → Prop} (h : ∀ views, Triple pre (f views) err post) :
    Triple pre (viewProps w >>= f) err post :=
  fun s hs => h (s.views w) s hs

/-- A section that is read ends where its length says. -/
theorem propSectionM_ends {w : Whose} {packet : PacketType} {rx : Bytes} {limit pos : Nat}
    {refuse : Nat → Nat → Option Int} :
    Triple (fun s => s.head w = none) (propSectionM w packet rx limit pos refuse) (fun _ => True) fun r _ =>
      ∃ len n, scanVbi rx pos (wordDiff limit pos) = .ok (len, n) ∧ refuse len n = none ∧
        r = (pos + n + len, pos + n + len) := by
  intro s hnull
  have hspec (x) (hx : scanSection packet s.room rx limit pos refuse = x) :=
    hx ▸ @propSectionM_spec w packet rx limit pos refuse s hnull
  cases hscan : scanSection packet s.room rx limit pos refuse with
  | error e =>
    obtain ⟨_, _, _, hrun, -⟩ := hspec _ hscan
    rw [hrun]
    trivial
  | ok r =>
    obtain ⟨_, _, hrun, -⟩ := hspec _ hscan
    obtain ⟨views, declared, stop⟩ := r
    obtain ⟨len, n, hvbi, hrefuse, rfl, rfl⟩ := scanSection_ends hscan
    rw [hrun]
    exact ⟨len, n, hvbi, hrefuse, rfl⟩

end WolfMqtt
