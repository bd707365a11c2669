import WolfMqtt.Broker.Compare
import WolfMqtt.Lib.Buffer
import WolfMqtt.Packet.Connect
import WolfMqtt.Packet.Utf8

/-! The credential gate of `BrokerHandle_Connect`, on the bytes of the packet.

What is compared are copies. In a build with static memory they stand in buffers that a
value may be too long for, in one with dynamic memory they are as long as what was sent.
The lengths come from three places: the user name's from the packet for the copy and from
the copy for the comparison, the password's from the packet. -/
namespace WolfMqtt.Broker
open Agree (ok_bind bind_eq_ok)

/-! ### The copies -/

/-- `WOLFMQTT_STATIC_MEMORY`, or not. -/
inductive MemoryMode
  | static
  | dynamic
deriving Repr, DecidableEq

/-- The sizes of the credential buffers, in the type that the stores compare lengths in. -/
structure CredLimits where
  maxUsernameLen : UInt16 := 64
  maxPasswordLen : UInt16 := 64
deriving Repr, DecidableEq

/-- What a connection keeps of the credentials: the memory from each pointer on, NULL being `none`. -/
structure Credentials where
  username : Option Bytes
  password : Option Bytes
  passwordLen : Nat
deriving Repr, DecidableEq

/-- A connection that no CONNECT was handled on: the memory of an array of the connection, or NULL. -/
def Credentials.fresh (mode : MemoryMode) (lim : CredLimits) : Credentials :=
  match mode with
  | .static => ⟨some (List.replicate lim.maxUsernameLen.toNat 0), some (List.replicate lim.maxPasswordLen.toNat 0), 0⟩
  | .dynamic => ⟨none, none, 0⟩

/-- `BrokerStore_StringSensitive` and `BrokerStore_BinarySensitive`: the memory with the copy, and the length
that was stored. -/
def storeSensitive (mode : MemoryMode) (maxLen : UInt16) (rx : Bytes) (src srcLen : Nat) : Except Fault (Bytes × Nat) :=
  match mode with
  | .static => do
    let len := if srcLen ≥ maxLen.toNat then (maxLen - 1).toNat else srcLen
    let data ← readBytes rx src len
    let dst := Buffer.writeAt (List.replicate maxLen.toNat 0) 0 data
    .ok (Buffer.writeAt dst len [0], len)
  | .dynamic => do
    let data ← readBytes rx src srcLen
    .ok (data ++ [0], srcLen)

section copies
variable {mode : MemoryMode} {maxLen : UInt16} {rx : Bytes}

/-- What fits is copied whole, with a NUL behind it; a buffer keeps its size. -/
theorem storeSensitive_spec (mode : MemoryMode) (maxLen : UInt16) {s : Slice} (hrx : s.off + s.len ≤ rx.length)
    (hfits : mode = .static → s.len < maxLen.toNat) :
    ∃ memory, storeSensitive mode maxLen rx s.off s.len = .ok (memory, s.len) ∧ s.get rx ++ [0] <+: memory ∧
      (mode = .static → memory.length = maxLen.toNat) := by
  have hget : (s.get rx).length = s.len := by
    rw [Slice.get, List.length_take, List.length_drop]
    omega
  cases mode with
  | dynamic =>
    refine ⟨s.get rx ++ [0], ?_, List.prefix_refl _, fun h => MemoryMode.noConfusion h⟩
    rw [storeSensitive, readBytes_of_le hrx]
    rfl
  | static =>
    have hlt := hfits rfl
    have hfront : Buffer.writeAt (List.replicate maxLen.toNat 0) 0 (s.get rx) =
        s.get rx ++ List.replicate (maxLen.toNat - s.len) 0 := by
      rw [Buffer.writeAt, List.take_zero, List.nil_append, List.drop_replicate, hget, Nat.zero_add]
    refine ⟨Buffer.writeAt (Buffer.writeAt (List.replicate maxLen.toNat 0) 0 (s.get rx)) s.len [0], ?_, ?_, fun _ => ?_⟩
    · rw [storeSensitive, if_neg (by omega), readBytes_of_le hrx]
      rfl
    · rw [hfront, Buffer.writeAt, ← hget, List.take_left]
      exact List.prefix_append _ _
    · have hlen : (s.get rx ++ List.replicate (maxLen.toNat - s.len) (0 : UInt8)).length = maxLen.toNat := by
        rw [List.length_append, hget, List.length_replicate]
        omega
      rw [hfront, Buffer.length_writeAt _ _ _ (by rw [hlen, List.length_singleton]; omega), hlen]

end copies

/-! ### What the decoder promises -/

section decoded
variable {rx : Bytes}

theorem scanNum_lt {pos bufLen len : Nat} (h : scanNum rx pos bufLen = .ok len) : len < 65536 := by
  unfold scanNum at h
  split at h
  · cases h
  obtain ⟨hi, -, h⟩ := bind_eq_ok.mp h
  obtain ⟨lo, -, h⟩ := bind_eq_ok.mp h
  cases h
  have h₁ := hi.toNat_lt
  have h₀ := lo.toNat_lt
  omega

theorem scanNum_two {pos bufLen len : Nat} (h : scanNum rx pos bufLen = .ok len) : scanNum rx pos 2 = .ok len := by
  unfold scanNum at h ⊢
  split at h
  · cases h
  · exact h

/-- A string of a packet: its length stands in front of it, and there is no NUL in it. -/
structure StringField (rx : Bytes) (s : Slice) : Prop where
  length : scanNum rx (s.off - 2) 2 = .ok s.len
  inside : s.off + s.len ≤ rx.length
  wellFormed : utf8WellFormed (s.get rx) = true

theorem scanString_field {pos bufLen : Nat} {s : Slice} (h : scanString rx pos bufLen = .ok s) : StringField rx s := by
  obtain ⟨len, hlen, h⟩ := bind_eq_ok.mp h
  split at h
  · cases h
  obtain ⟨str, hstr, h⟩ := bind_eq_ok.mp h
  unfold readBytes at hstr
  split at hstr
  · next hle =>
    cases hstr
    split at h
    · cases h
    next hutf =>
    cases h
    have hutf : utf8WellFormed ((rx.drop (pos + 2)).take len) = true := by simpa using hutf
    exact ⟨scanNum_two hlen, hle, hutf⟩
  · cases hstr

theorem scanPassword_inside {limit pos next : Nat} {s : Slice} (h : scanPassword rx limit pos = .ok (s, next))
    (hlimit : limit ≤ rx.length) : s.off + s.len ≤ rx.length ∧ s.len < 65536 := by
  obtain ⟨len, hlen, h⟩ := bind_eq_ok.mp h
  split at h
  · cases h
  split at h
  · cases h
  next hle =>
  cases h
  refine ⟨?_, scanNum_lt hlen⟩
  dsimp only
  omega

theorem scanOptional_some {α : Type} {present : Bool} {scan : Nat → Except Fault (α × Nat)} {pos next : Nat} {x : α}
    (h : scanOptional present scan pos = .ok (some x, next)) : scan pos = .ok (x, next) := by
  unfold scanOptional at h
  split at h
  · obtain ⟨r, hr, h⟩ := bind_eq_ok.mp h
    cases h
    exact hr
  · cases h

/-- Where the credentials of a decoded CONNECT stand. -/
theorem decodeConnect_credentials {hasLwt : Bool} {room n : Nat} {mc : ConnectView}
    (h : decodeConnect hasLwt room rx = .ok (n, mc)) :
    (∀ s ∈ mc.username, StringField rx s) ∧ ∀ s ∈ mc.password, s.off + s.len ≤ rx.length ∧ s.len < 65536 := by
  unfold decodeConnect at h
  split at h
  · cases h
  obtain ⟨⟨headerLen, remainLen⟩, -, h⟩ := bind_eq_ok.mp h
  dsimp only at h
  split at h
  · cases h
  next hfits =>
  split at h
  · cases h
  obtain ⟨packet, -, h⟩ := bind_eq_ok.mp h
  split at h
  · split at h
    · cases h
    split at h
    · cases h
    obtain ⟨c, hc, h⟩ := bind_eq_ok.mp h
    cases h
    obtain ⟨props, -, hc⟩ := bind_eq_ok.mp hc
    obtain ⟨clientId, -, hc⟩ := bind_eq_ok.mp hc
    obtain ⟨lwt, -, hc⟩ := bind_eq_ok.mp hc
    obtain ⟨⟨username, pos⟩, husername, hc⟩ := bind_eq_ok.mp hc
    obtain ⟨⟨password, pos'⟩, hpassword, hc⟩ := bind_eq_ok.mp hc
    dsimp only at hc hpassword
    split at hc
    · cases hc
    cases hc
    constructor
    · rintro s rfl
      obtain ⟨s', hs', hrest⟩ := bind_eq_ok.mp (scanOptional_some husername)
      split at hrest
      · cases hrest
      · cases hrest
        exact scanString_field hs'
    · rintro s rfl
      exact scanPassword_inside (scanOptional_some hpassword) (by omega)
  · cases h

/-- Well-formed UTF-8 in an MQTT string has no NUL. -/
theorem not_mem_of_utf8WellFormed {s : Bytes} (h : utf8WellFormed s = true) : (0 : UInt8) ∉ s :=
  (mqttUtf8_of_wellFormed h).zero_not_mem

end decoded

/-! ### The gate -/

/-- Empty the credentials of a connection. -/
def Credentials.clear (mode : MemoryMode) (c : Credentials) : Credentials :=
  match mode with
  | .static => ⟨c.username.map (·.set 0 0), c.password.map (·.set 0 0), 0⟩
  | .dynamic => {c with passwordLen := 0}

/-- Copy the user name, whose length stands in front of it; `none` refuses one that is too long. -/
def takeUsername (mode : MemoryMode) (maxLen : UInt16) (rx : Bytes) (username : Option Slice) (c : Credentials) :
    Except Fault (Option Credentials) :=
  match username with
  | none => .ok (some c)
  | some s => do
    let ulen ← scanNum rx (s.off - 2) 2
    if mode = .static ∧ ulen ≥ maxLen.toNat then .ok none
    else
      let (copy, _) ← storeSensitive mode maxLen rx s.off ulen
      .ok (some {c with username := some copy})

/-- Copy the password; `none` refuses one that is too long. -/
def takePassword (mode : MemoryMode) (maxLen : UInt16) (rx : Bytes) (password : Option Slice) (c : Credentials) :
    Except Fault (Option Credentials) :=
  match password with
  | none => .ok (some c)
  | some s =>
    if mode = .static ∧ s.len ≥ maxLen.toNat then .ok none
    else do
      let (copy, len) ← storeSensitive mode maxLen rx s.off s.len
      .ok (some {c with password := some copy, passwordLen := len})

/-- The user name against the configured one. -/
def usernameMatches (maxLen : Nat) (authUser : Bytes) (c : Credentials) : Except Fault Bool :=
  match c.username with
  | none => .ok false
  | some username => do
    if (← readByte username 0) = 0 then .ok false
    else
      let result ← strCompare authUser username maxLen
      .ok (result = 0)

/-- The password against the configured one. -/
def passwordMatches (maxLen : Nat) (authPass : Bytes) (c : Credentials) : Except Fault Bool :=
  match c.password with
  | none => .ok false
  | some password =>
    if c.passwordLen = 0 then .ok false
    else do
      let len ← strLenBounded authPass maxLen
      let result ← bufCompare authPass len password c.passwordLen maxLen
      .ok (result = 0)

/-- What is configured against what the connection keeps: both halves, or nothing is configured at all. -/
def authOk (lim : CredLimits) (authUser authPass : Option Bytes) (c : Credentials) : Except Fault Bool :=
  if authUser.isNone && authPass.isNone then .ok true
  else do
    let userOk ←
      match authUser with
      | none => .ok false
      | some user => usernameMatches lim.maxUsernameLen.toNat user c
    let passOk ←
      match authPass with
      | none => .ok false
      | some pass => passwordMatches lim.maxPasswordLen.toNat pass c
    .ok (userOk && passOk)

/-- The return code of a CONNECT with the wrong credentials, at its level. -/
def credentialRefusal (mc : ConnectView) : UInt8 :=
  if mc.protocolLevel ≥ 5 then Reason.badUserOrPass else ackCodeRefusedBadUserPwd

/-- The credential check of a CONNECT, with what is configured as the memory of two strings: the return code of
a refusal. -/
def credentialGate (mode : MemoryMode) (lim : CredLimits) (authUser authPass : Option Bytes) (rx : Bytes)
    (mc : ConnectView) (c : Credentials) : Except Fault (Option UInt8) := do
  match ← takeUsername mode lim.maxUsernameLen rx mc.username (c.clear mode) with
  | none => .ok (some (credentialRefusal mc))
  | some c =>
    match ← takePassword mode lim.maxPasswordLen rx mc.password c with
    | none => .ok (some (credentialRefusal mc))
    | some c => .ok (if ← authOk lim authUser authPass c then none else some (credentialRefusal mc))

section gate
variable {mode : MemoryMode} {rx : Bytes}

/-- The copy of a string of the packet, or the empty string that stands for none. -/
def HoldsString (rx : Bytes) (field : Option Slice) (memory : Option Bytes) : Prop :=
  match field with
  | some s => ∃ m, memory = some m ∧ IsCString m (s.get rx)
  | none => ∀ m ∈ memory, IsCString m []

/-- The copy of the password, which need not be a string. -/
def HoldsData (rx : Bytes) (field : Option Slice) (memory : Option Bytes) (len : Nat) : Prop :=
  match field with
  | some s => (∃ m, memory = some m ∧ s.get rx ++ [0] <+: m) ∧ len = (s.get rx).length
  | none => len = 0

theorem length_slice_get {s : Slice} (h : s.off + s.len ≤ rx.length) : (s.get rx).length = s.len := by
  rw [Slice.get, List.length_take, List.length_drop]
  omega

/-- Too long for a build with static memory, or copied. -/
theorem takeUsername_spec (maxLen : UInt16) {field : Option Slice} {c : Credentials} (hfield : ∀ s ∈ field, StringField rx s)
    (hblank : ∀ m ∈ c.username, IsCString m []) :
    (takeUsername mode maxLen rx field c = .ok none ∧ ∃ s ∈ field, (s.get rx).length ≥ maxLen.toNat) ∨
      ∃ memory, takeUsername mode maxLen rx field c = .ok (some {c with username := memory}) ∧
        HoldsString rx field memory := by
  cases field with
  | none => exact .inr ⟨c.username, rfl, hblank⟩
  | some s =>
    obtain ⟨hlen, hinside, hutf⟩ := hfield s rfl
    have hget := length_slice_get hinside
    by_cases hlong : mode = .static ∧ s.len ≥ maxLen.toNat
    · refine .inl ⟨?_, s, rfl, hget ▸ hlong.2⟩
      rw [takeUsername, hlen, ok_bind, if_pos hlong]
    · obtain ⟨memory, hstore, hprefix, -⟩ := storeSensitive_spec mode maxLen hinside
        fun h => Nat.lt_of_not_le fun hle => hlong ⟨h, hle⟩
      refine .inr ⟨some memory, ?_, memory, rfl, not_mem_of_utf8WellFormed hutf, hprefix⟩
      rw [takeUsername, hlen, ok_bind, if_neg hlong, hstore]
      rfl

theorem takePassword_spec (mode : MemoryMode) (maxLen : UInt16) {field : Option Slice} (c : Credentials)
    (hfield : ∀ s ∈ field, s.off + s.len ≤ rx.length) (hblank : c.passwordLen = 0) :
    (takePassword mode maxLen rx field c = .ok none ∧ ∃ s ∈ field, (s.get rx).length ≥ maxLen.toNat) ∨
      ∃ memory len, takePassword mode maxLen rx field c = .ok (some {c with password := memory, passwordLen := len}) ∧
        HoldsData rx field memory len := by
  cases field with
  | none => exact .inr ⟨c.password, c.passwordLen, rfl, hblank⟩
  | some s =>
    have hget := length_slice_get (hfield s rfl)
    by_cases hlong : mode = .static ∧ s.len ≥ maxLen.toNat
    · refine .inl ⟨?_, s, rfl, hget ▸ hlong.2⟩
      rw [takePassword, if_pos hlong]
    · obtain ⟨memory, hstore, hprefix, -⟩ := storeSensitive_spec mode maxLen (hfield s rfl)
        fun h => Nat.lt_of_not_le fun hle => hlong ⟨h, hle⟩
      refine .inr ⟨some memory, s.len, ?_, ⟨memory, rfl, hprefix⟩, hget.symm⟩
      rw [takePassword, if_neg hlong, hstore]
      rfl

/-- A credential as the check of the model asks for it. -/
def wanted (maxLen : Nat) (configured : Bytes) (given : Option Bytes) : Bool :=
  given.any (fun str => !str.isEmpty && bufEqual maxLen configured str)

theorem decide_eq_of_iff {p : Prop} [Decidable p] {b : Bool} (h : p ↔ b = true) : decide p = b :=
  Bool.eq_iff_iff.mpr (decide_eq_true_iff.trans h)

theorem bufEqual_eq_false_of_le {maxLen : Nat} {x y : Bytes} (h : maxLen ≤ y.length) : bufEqual maxLen x y = false := by
  rw [bufEqual_comm, bufEqual, decide_eq_false (Nat.not_lt.mpr h), Bool.and_false]

theorem wanted_eq_false_of_le {maxLen : Nat} (configured : Bytes) {given : Option Bytes}
    (h : ∃ str ∈ given, str.length ≥ maxLen) : wanted maxLen configured given = false := by
  obtain ⟨str, rfl, hle⟩ := h
  show (!str.isEmpty && bufEqual maxLen configured str) = false
  rw [bufEqual_eq_false_of_le hle, Bool.and_false]

theorem readByte_empty {memory : Bytes} (h : IsCString memory []) : readByte memory 0 = .ok 0 := by
  have hnul : memory[0]? = some 0 := h.getElem?_length
  rw [readByte, hnul]

theorem readByte_nonempty {memory str : Bytes} (h : IsCString memory str) (hne : str ≠ []) :
    ∃ c, readByte memory 0 = .ok c ∧ ¬c = 0 := by
  have hlt := List.length_pos_of_ne_nil hne
  refine ⟨str[0], ?_, fun heq => h.noNul (heq ▸ List.getElem_mem hlt)⟩
  rw [readByte, h.getElem?_of_lt hlt]

theorem usernameMatches_spec {maxLen : Nat} (hmax : maxLen < 4294967296) {user memory : Bytes} (huser : IsCString memory user)
    {field : Option Slice} {c : Credentials} (hc : HoldsString rx field c.username) :
    usernameMatches maxLen memory c = .ok (wanted maxLen user (field.map (·.get rx))) := by
  have hempty {m : Bytes} (hm : c.username = some m) (hstr : IsCString m []) : usernameMatches maxLen memory c = .ok false := by
    rw [usernameMatches, hm]
    dsimp only
    rw [readByte_empty hstr, ok_bind, if_pos rfl]
  cases field with
  | none =>
    cases hm : c.username with
    | none =>
      rw [usernameMatches, hm]
      rfl
    | some m => exact hempty hm (hc m hm)
  | some s =>
    obtain ⟨m, hm, hstr⟩ := hc
    by_cases hne : s.get rx = []
    · rw [hempty hm (hne ▸ hstr), Option.map_some, hne]
      rfl
    · obtain ⟨first, hread, hfirst⟩ := readByte_nonempty hstr hne
      obtain ⟨out, hout, hiff⟩ := strCompare_spec huser hstr hmax
      rw [usernameMatches, hm]
      dsimp only
      rw [hread, ok_bind, if_neg hfirst, hout, ok_bind]
      show Except.ok (decide (out = 0)) = .ok (!(s.get rx).isEmpty && bufEqual maxLen user (s.get rx))
      rw [List.isEmpty_eq_false_iff.mpr hne, Bool.not_false, Bool.true_and, decide_eq_of_iff hiff]

theorem passwordMatches_spec {maxLen : Nat} (hmax : maxLen < 4294967296) {pass memory : Bytes} (hpass : IsCString memory pass)
    {field : Option Slice} {c : Credentials} (hc : HoldsData rx field c.password c.passwordLen)
    (hfield : ∀ s ∈ field, (s.get rx).length < 4294967296) :
    passwordMatches maxLen memory c = .ok (wanted maxLen pass (field.map (·.get rx))) := by
  cases field with
  | none =>
    unfold passwordMatches
    cases c.password with
    | none => rfl
    | some m => exact if_pos hc
  | some s =>
    obtain ⟨⟨m, hm, hprefix⟩, hlen⟩ := hc
    rw [passwordMatches, hm]
    dsimp only
    by_cases hne : s.get rx = []
    · rw [if_pos (by rw [hlen, hne]; rfl), Option.map_some, hne]
      rfl
    · have hpos := List.length_pos_of_ne_nil hne
      have hle := hprefix.length_le
      rw [List.length_append, List.length_singleton] at hle
      have htake : m.take c.passwordLen = s.get rx := by
        obtain ⟨rest, rfl⟩ := hprefix
        rw [hlen, List.append_assoc, List.take_left]
      have hlt := hpass.lt_length
      have hlenA : min maxLen pass.length ≤ memory.length := by omega
      have hlenB : c.passwordLen ≤ m.length := by omega
      obtain ⟨out, hout, hiff⟩ := bufCompare_spec (by omega) hlenA (by omega) hlenB (by omega) (hlen ▸ hfield s rfl)
        (Nat.le_of_lt hmax) (fun _ h => absurd h (by omega))
      rw [if_neg (by omega), strLenBounded_spec hpass, ok_bind, hout, ok_bind]
      rw [htake, hpass.take (Nat.min_le_right _ _), ← List.take_take, List.take_length, bufEqual_take] at hiff
      show Except.ok (decide (out = 0)) = .ok (!(s.get rx).isEmpty && bufEqual maxLen pass (s.get rx))
      rw [List.isEmpty_eq_false_iff.mpr hne, Bool.not_false, Bool.true_and, decide_eq_of_iff hiff]

/-- The gate passes what the check of the model does. -/
theorem credentialGate_eq (lim : CredLimits) {user pass : Bytes} (huser : 0 ∉ user) (hpass : 0 ∉ pass) {mc : ConnectView}
    (husername : ∀ s ∈ mc.username, StringField rx s)
    (hpassword : ∀ s ∈ mc.password, s.off + s.len ≤ rx.length ∧ s.len < 65536) {c : Credentials}
    (hblank : ∀ m ∈ (c.clear mode).username, IsCString m []) :
    credentialGate mode lim (some (user ++ [0])) (some (pass ++ [0])) rx mc c =
      .ok (if wanted lim.maxUsernameLen.toNat user (mc.username.map (·.get rx)) &&
        wanted lim.maxPasswordLen.toNat pass (mc.password.map (·.get rx)) then none else some (credentialRefusal mc)) := by
  have hclear : (c.clear mode).passwordLen = 0 := by cases mode <;> rfl
  have hmax (n : UInt16) : n.toNat < 4294967296 := Nat.lt_trans n.toNat_lt (by decide)
  unfold credentialGate
  rcases takeUsername_spec lim.maxUsernameLen husername hblank with ⟨htake, s, hs, hlong⟩ | ⟨username, htake, hcopied⟩
  · have hnot := wanted_eq_false_of_le user ⟨s.get rx, Option.mem_map_of_mem _ hs, hlong⟩
    rw [htake, ok_bind, hnot]
    rfl
  rw [htake, ok_bind]
  dsimp only
  have hinside (s : Slice) (hs : s ∈ mc.password) : s.off + s.len ≤ rx.length := (hpassword s hs).1
  rcases takePassword_spec mode lim.maxPasswordLen {c.clear mode with username := username} hinside hclear
    with ⟨htake', s, hs, hlong⟩ | ⟨password, len, htake', hcopied'⟩
  · have hnot := wanted_eq_false_of_le pass ⟨s.get rx, Option.mem_map_of_mem _ hs, hlong⟩
    rw [htake', ok_bind, hnot, Bool.and_false]
    rfl
  · have hlt (s : Slice) (hs : s ∈ mc.password) : (s.get rx).length < 4294967296 := by
      rw [length_slice_get (hinside s hs)]
      exact Nat.lt_trans (hpassword s hs).2 (by decide)
    have hu := usernameMatches_spec (hmax lim.maxUsernameLen) ⟨huser, List.prefix_refl _⟩ (c := ⟨username, password, len⟩)
      hcopied
    have hp := passwordMatches_spec (hmax lim.maxPasswordLen) ⟨hpass, List.prefix_refl _⟩ (c := ⟨username, password, len⟩)
      hcopied' hlt
    have hauth : authOk lim (some (user ++ [0])) (some (pass ++ [0])) ⟨username, password, len⟩ = _ := if_neg (by simp)
    rw [htake', ok_bind]
    dsimp only
    rw [hauth]
    dsimp only
    rw [hu, ok_bind, hp, ok_bind, ok_bind]

/-- On the bytes the check decides what `credentialsOk` does on the decoded fields. -/
theorem credentialGate_credentialsOk {L : Limits} {lim : CredLimits} (hu : L.maxUsernameLen = lim.maxUsernameLen.toNat)
    (hp : L.maxPasswordLen = lim.maxPasswordLen.toNat) {user pass : Bytes} (huser : 0 ∉ user) (hpass : 0 ∉ pass)
    {hasLwt : Bool} {room n : Nat} {mc : ConnectView} (h : decodeConnect hasLwt room rx = .ok (n, mc))
    {c : Credentials} (hblank : ∀ m ∈ (c.clear mode).username, IsCString m []) :
    credentialGate mode lim (some (user ++ [0])) (some (pass ++ [0])) rx mc c =
      .ok (if credentialsOk L (some user) (some pass) (mc.username.map (·.get rx)) (mc.password.map (·.get rx)) then none
        else some (credentialRefusal mc)) := by
  obtain ⟨husername, hpassword⟩ := decodeConnect_credentials h
  rw [credentialGate_eq lim huser hpass husername hpassword hblank, ← hu, ← hp]
  rfl

end gate

/-- A configured user name or password: a C string that is not empty and leaves room for its NUL. -/
structure Credential (maxLen : UInt16) where
  bytes : Bytes
  noNul : 0 ∉ bytes
  nonempty : bytes ≠ []
  fits : bytes.length < maxLen.toNat

def Credential.cString {maxLen : UInt16} (c : Credential maxLen) : Bytes := c.bytes ++ [0]

theorem Credential.wanted_iff {maxLen : UInt16} (c : Credential maxLen) (given : Option Bytes) :
    wanted maxLen.toNat c.bytes given = true ↔ given = some c.bytes := by
  cases given with
  | none => simp [wanted]
  | some str =>
    show (!str.isEmpty && bufEqual maxLen.toNat c.bytes str) = true ↔ some str = some c.bytes
    rw [Bool.and_eq_true, bufEqual, Bool.and_eq_true, decide_eq_true_eq, decide_eq_true_eq, Option.some_inj]
    constructor
    · rintro ⟨-, heq, -⟩
      exact heq.symm
    · rintro rfl
      rw [List.isEmpty_eq_false_iff.mpr c.nonempty]
      exact ⟨rfl, rfl, c.fits⟩

/-- In a connection's arrays, or in place of a NULL pointer, there is no user name before the CONNECT. -/
theorem Credentials.fresh_blank (mode : MemoryMode) {lim : CredLimits} (hpos : 0 < lim.maxUsernameLen.toNat) :
    ∀ m ∈ ((Credentials.fresh mode lim).clear mode).username, IsCString m [] := by
  cases mode with
  | dynamic =>
    intro m hm
    cases hm
  | static =>
    intro m hm
    cases hm
    refine ⟨List.not_mem_nil, ?_⟩
    obtain ⟨n, hn⟩ : ∃ n, lim.maxUsernameLen.toNat = n + 1 := ⟨_, (Nat.succ_pred_eq_of_pos hpos).symm⟩
    rw [hn]
    exact List.prefix_append _ _

/-- A CONNECT passes if its user name and its password are the configured ones, byte for byte, in both builds. -/
theorem credentialGate_passes_iff (mode : MemoryMode) {lim : CredLimits} (user : Credential lim.maxUsernameLen)
    (pass : Credential lim.maxPasswordLen) {hasLwt : Bool} {room n : Nat} {rx : Bytes} {mc : ConnectView}
    (h : decodeConnect hasLwt room rx = .ok (n, mc)) :
    ∃ code, credentialGate mode lim (some user.cString) (some pass.cString) rx mc (.fresh mode lim) = .ok code ∧
      (code = none ↔ mc.username.map (·.get rx) = some user.bytes ∧ mc.password.map (·.get rx) = some pass.bytes) := by
  obtain ⟨husername, hpassword⟩ := decodeConnect_credentials h
  have hpos : 0 < lim.maxUsernameLen.toNat := Nat.lt_of_le_of_lt (Nat.zero_le _) user.fits
  have hgate := credentialGate_eq lim user.noNul pass.noNul husername hpassword (Credentials.fresh_blank mode hpos)
  refine ⟨_, hgate, ?_⟩
  rw [← user.wanted_iff, ← pass.wanted_iff, ← Bool.and_eq_true]
  split
  · next hwanted => exact ⟨fun _ => hwanted, fun _ => rfl⟩
  · next hwanted => exact ⟨fun h => absurd h (Option.some_ne_none _), fun h => absurd h hwanted⟩

/-- A password with a zero byte in it, against what stands in front of the zero. -/
theorem credentialGate_passes_iff_zero :
    ∃ mc code, credentialGate .static {} (some [0x75, 0]) (some [0x70, 0])
      [0x10, 0x15, 0, 4, 0x4D, 0x51, 0x54, 0x54, 4, 0xC2, 0, 60, 0, 1, 0x63, 0, 1, 0x75, 0, 3, 0x70, 0, 0x71] mc
        (.fresh .static {}) = .ok code ∧ code ≠ none := by
  let mc : ConnectView := ⟨4, 1, 60, [], ⟨14, 1⟩, none, some ⟨17, 1⟩, some ⟨20, 3⟩⟩
  have hdecode : decodeConnect true 0
      [0x10, 0x15, 0, 4, 0x4D, 0x51, 0x54, 0x54, 4, 0xC2, 0, 60, 0, 1, 0x63, 0, 1, 0x75, 0, 3, 0x70, 0, 0x71] = .ok (23, mc) := by
    decide +kernel
  let user : Credential ({} : CredLimits).maxUsernameLen := ⟨[0x75], by decide, by decide, by decide⟩
  let pass : Credential ({} : CredLimits).maxPasswordLen := ⟨[0x70], by decide, by decide, by decide⟩
  obtain ⟨code, hgate, hiff⟩ := credentialGate_passes_iff .static user pass hdecode
  exact ⟨mc, code, hgate, fun h => absurd (hiff.mp h).2 (by decide)⟩

end WolfMqtt.Broker
