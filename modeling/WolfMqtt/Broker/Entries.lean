import WolfMqtt.Broker.QueueInv

/-! What a step of the delivery system does to the entries.

Where an entry is after a step it was before, or it is new (`comes`); where it was before
it is after, or it is noted to have left (`goes`); and what is noted of an entry is true of
it (`notes`). Everything about the life of an entry follows from these three. -/
namespace WolfMqtt.Broker

/-! ### One queue -/

/-- An entry and what a step has made of it. -/
structure Turned (trace : List Obs) (e e' : OutPub) : Prop where
  key : e'.key = e.key
  level : e'.protocolLevel = e.protocolLevel
  state : e'.state = e.state ∨ e'.state = .queued ∨ (e'.state = .publishSent ∧ Obs.publishSent e.addr ∈ trace) ∨
    (e'.state = .pubrelSent ∧ e.qos = .qos2 ∧ Obs.pubrelIssued e.addr ∈ trace)
  dup : e'.state = .queued → e'.retransmitDup = true ∨ (e.state = .queued ∧ e'.retransmitDup = e.retransmitDup)

theorem Turned.refl (trace : List Obs) (e : OutPub) : Turned trace e e := ⟨rfl, rfl, .inl rfl, fun hs => .inr ⟨hs, rfl⟩⟩

theorem Turned.addr {trace : List Obs} {e e' : OutPub} (h : Turned trace e e') : e'.addr = e.addr :=
  congrArg Prod.fst h.key

/-- An entry that a step has put into a queue of this level. -/
structure Fresh (n m level : Nat) (e : OutPub) : Prop where
  addr : e.addr = n
  lt : n < m
  state : e.state = .queued
  level : e.protocolLevel = level

/-- Why an entry leaves in a step with this label. -/
inductive Leaves (ℓ : Label) (e : OutPub) : Cause → Prop where
  | acked {cause : Cause} (h : Acked e cause ℓ) : Leaves ℓ e cause
  | unsent {cause : Cause} (h : Unsent e cause) : Leaves ℓ e cause
  | qos0Sent (h : e.qos = .qos0) : Leaves ℓ e .qos0Sent
  | evicted : Leaves ℓ e .evicted
  | sessionEnd : Leaves ℓ e .sessionEnd
  | takenOver (h : e.qos ≠ .qos0 → ℓ = .takeover) : Leaves ℓ e .takenOver

/-- What is noted of the entries of a queue at this level. -/
structure NotedOf (ℓ : Label) (level : Nat) (before after : OutPub → Prop) (obs : List Obs) : Prop where
  encoded : ∀ l m, Obs.encoded l m ∈ obs → m = level ∧ ∃ e, before e ∧ e.protocolLevel = l
  left : ∀ e cause, Obs.left e cause ∈ obs → before e ∧ Leaves ℓ e cause
  enqueued : ∀ a, Obs.enqueued a ∈ obs → ∃ e, after e ∧ e.addr = a
  answered : ∀ conn flags code, Obs.connack conn flags code ∈ obs → ℓ = .answer

theorem NotedOf.nothing {ℓ : Label} {level : Nat} {before after : OutPub → Prop} {obs : List Obs}
    (h : ∀ o ∈ obs, (∀ l m, o ≠ .encoded l m) ∧ (∀ e cause, o ≠ .left e cause) ∧ (∀ a, o ≠ .enqueued a) ∧
      ((∃ conn flags code, o = .connack conn flags code) → ℓ = .answer)) : NotedOf ℓ level before after obs where
  encoded l m hmem := absurd rfl ((h _ hmem).1 l m)
  left e cause hmem := absurd rfl ((h _ hmem).2.1 e cause)
  enqueued a hmem := absurd rfl ((h _ hmem).2.2.1 a)
  answered conn flags code hmem := (h _ hmem).2.2.2 ⟨conn, flags, code, rfl⟩

theorem NotedOf.issuedFor {ℓ : Label} {level : Nat} {before after : OutPub → Prop} (q : TailQueue OutPub) (packetId : Nat) :
    NotedOf ℓ level before after (issuedFor q packetId) := by
  refine .nothing fun o ho => ?_
  obtain ⟨e, -, rfl⟩ := List.mem_map.mp ho
  simp

section step
variable {L : Limits} {ℓ : Label} {s t : CState}

theorem update_turned {q : TailQueue OutPub} {e : OutPub} {f : OutPub → OutPub} {trace : List Obs} (hq : q.WF)
    (he : e ∈ q.chain) (hf : Turned trace e (f e)) {e' : OutPub} (he' : e' ∈ (q.update e.addr f).chain) :
    ∃ x ∈ q.chain, Turned trace x e' := by
  rcases Chain.mem_writeAt he' with h | ⟨x, hx, rfl⟩
  · exact ⟨e', h, .refl trace e'⟩
  · obtain rfl : e = x := Option.some.inj ((hq.at? he).symm.trans hx)
    exact ⟨e, he, hf⟩

/-- The PUBREL of an entry that is released is among those noted. -/
theorem mem_issuedFor {q : TailQueue OutPub} {e : OutPub} (hq : q.WF) (he : e ∈ q.chain) :
    Obs.pubrelIssued e.addr ∈ issuedFor (q.update e.addr OutPub.toReleased) e.packetId := by
  have hmem : e.toReleased ∈ (q.update e.addr OutPub.toReleased).chain := by
    have hat : Chain.at? (q.update e.addr OutPub.toReleased).chain e.addr = some e.toReleased :=
      Chain.at?_writeAt_self (hq.at? he) rfl
    exact Chain.at?_mem hat
  refine List.mem_map.mpr ⟨e.toReleased, List.mem_filter.mpr ⟨hmem, ?_⟩, rfl⟩
  simp [OutPub.toReleased]

/-- Where the entries of a connection's queue come from. -/
theorem CStep.comes (h : CStep L ℓ s t) (hs : CInv s) (hm : ℓ ≠ .mute) {e' : OutPub} (he' : e' ∈ t.conn.outQ.chain) :
    (∃ e ∈ s.conn.outQ.chain, Turned t.trace e e' ∧ t.conn.level = s.conn.level) ∨
      Fresh s.nextAddr t.nextAddr t.conn.level e' := by
  have hq := hs.queue.wf
  have hkept : ∀ e, e ∈ s.conn.outQ.chain → t.conn.level = s.conn.level →
      ∃ x ∈ s.conn.outQ.chain, Turned t.trace x e ∧ t.conn.level = s.conn.level := fun e he hl =>
    ⟨e, he, .refl _ e, hl⟩
  have hupdate : ∀ (f : OutPub → OutPub) (e : OutPub), e ∈ s.conn.outQ.chain → Turned t.trace e (f e) →
      e' ∈ (s.conn.outQ.update e.addr f).chain → ∃ x ∈ s.conn.outQ.chain, Turned t.trace x e' :=
    fun f e he hf hmem => update_turned hq he hf hmem
  cases h with
  | alloc | connack | encode | write | send | reissue | respond => exact .inl (hkept e' he' rfl)
  | negotiate level receiveMax hempty =>
    rw [show s.conn.outQ = {} from hempty] at he'
    cases he'
  | enqueue e ha hstate hl hid =>
    have hmem : e' ∈ s.conn.outQ.chain ++ [e] := TailQueue.enqueue_chain s.conn.outQ e hq ▸ he'
    rcases List.mem_append.mp hmem with h | h
    · exact .inl (hkept e' h rfl)
    · cases List.mem_singleton.mp h
      exact .inr ⟨ha, Nat.lt_succ_self _, hstate, hl⟩
  | sent e he hstate hqos =>
    obtain ⟨x, hx, hturned⟩ := hupdate OutPub.toSent e he
      ⟨rfl, rfl, .inr (.inr (.inl ⟨rfl, List.mem_append_right _ (List.mem_singleton_self _)⟩)), nofun⟩ he'
    exact .inl ⟨x, hx, hturned, rfl⟩
  | markDup e dup he hd =>
    have hkept : (OutPub.setDup dup e).state = .queued → (OutPub.setDup dup e).retransmitDup = true := fun hs =>
      hd.resolve_right fun hrel => by rw [show e.state = .queued from hs] at hrel; cases hrel
    obtain ⟨x, hx, hturned⟩ := hupdate (OutPub.setDup dup) e he ⟨rfl, rfl, .inl rfl, fun hs => .inl (hkept hs)⟩ he'
    exact .inl ⟨x, hx, hturned, rfl⟩
  | received e he hstate hqos =>
    obtain ⟨x, hx, hturned⟩ := hupdate OutPub.toReleased e he
      ⟨rfl, rfl, .inr (.inr (.inr ⟨rfl, hqos, List.mem_append_right _ (mem_issuedFor hq he)⟩)), nofun⟩ he'
    exact .inl ⟨x, hx, hturned, rfl⟩
  | receivedMute => exact absurd rfl hm
  | sentQos0 | unsent | acked => exact .inl (hkept e' (Chain.mem_of_mem_removeAt he') rfl)

/-- An entry of a connection's queue stays, or is noted to leave. -/
theorem CStep.goes (h : CStep L ℓ s t) (hs : CInv s) {e : OutPub} (he : e ∈ s.conn.outQ.chain) :
    (∃ e' ∈ t.conn.outQ.chain, e'.addr = e.addr) ∨ ∃ cause, Obs.left e cause ∈ t.trace := by
  have hq := hs.queue.wf
  have hupdate : ∀ (a : Nat) (f : OutPub → OutPub), (∀ x, (f x).addr = x.addr) →
      ∃ e' ∈ (s.conn.outQ.update a f).chain, e'.addr = e.addr := by
    intro a f hf
    have haddrs : (s.conn.outQ.update a f).chain.map Node.addr = s.conn.outQ.chain.map Node.addr :=
      Chain.map_writeAt Node.addr fun x _ => hf x
    have hmem : e.addr ∈ (s.conn.outQ.update a f).chain.map Node.addr := haddrs ▸ List.mem_map_of_mem he
    exact List.mem_map.mp hmem
  have hdrop : ∀ x ∈ s.conn.outQ.chain, ∀ cause : Cause,
      (∃ e' ∈ (s.conn.outQ.unlink x.addr).chain, e'.addr = e.addr) ∨ Obs.left e cause ∈ [Obs.left x cause] := by
    intro x hx cause
    by_cases hxe : e.addr = x.addr
    · have : e = x := Option.some.inj ((hq.at? he).symm.trans ((congrArg (Chain.at? _) hxe).trans (hq.at? hx)))
      exact .inr (this ▸ List.mem_singleton_self _)
    · exact .inl ⟨e, (TailQueue.mem_unlink _ _ hq e).mpr ⟨he, hxe⟩, rfl⟩
  cases h with
  | alloc | connack | negotiate | encode | write | send | reissue | respond => exact .inl ⟨e, he, rfl⟩
  | enqueue x =>
    refine .inl ⟨e, ?_, rfl⟩
    show e ∈ (s.conn.outQ.enqueue x).chain
    rw [TailQueue.enqueue_chain s.conn.outQ x hq]
    exact List.mem_append_left _ he
  | sent x => exact .inl (hupdate x.addr _ fun _ => rfl)
  | markDup x => exact .inl (hupdate x.addr _ fun _ => rfl)
  | received x => exact .inl (hupdate x.addr _ fun _ => rfl)
  | receivedMute x => exact .inl (hupdate x.addr _ fun _ => rfl)
  | sentQos0 x hx => exact (hdrop x hx .qos0Sent).imp id fun h => ⟨_, List.mem_append_right _ h⟩
  | unsent x cause hx => exact (hdrop x hx cause).imp id fun h => ⟨_, List.mem_append_right _ h⟩
  | acked x cause hx => exact (hdrop x hx cause).imp id fun h => ⟨_, List.mem_append_right _ h⟩

theorem CStep.notes (h : CStep L ℓ s t) (hs : CInv s) : ∃ obs, t.trace = s.trace ++ obs ∧
    NotedOf ℓ s.conn.level (· ∈ s.conn.outQ.chain) (· ∈ t.conn.outQ.chain) obs := by
  have hleft : ∀ (e : OutPub) (cause : Cause) (after : OutPub → Prop), e ∈ s.conn.outQ.chain → Leaves ℓ e cause →
      NotedOf ℓ s.conn.level (· ∈ s.conn.outQ.chain) after [Obs.left e cause] := by
    intro e cause after he hl
    refine ⟨by simp, fun x c hmem => ?_, by simp, by simp⟩
    cases List.mem_singleton.mp hmem
    exact ⟨he, hl⟩
  cases h with
  | alloc | negotiate | markDup | receivedMute => exact ⟨[], (List.append_nil _).symm, .nothing (by simp)⟩
  | connack | write | send | sent | reissue => exact ⟨_, rfl, .nothing (by simp)⟩
  | received | respond => exact ⟨_, rfl, .issuedFor _ _⟩
  | enqueue e =>
    refine ⟨_, rfl, by simp, by simp, fun a hmem => ?_, by simp⟩
    cases List.mem_singleton.mp hmem
    refine ⟨e, ?_, rfl⟩
    show e ∈ (s.conn.outQ.enqueue e).chain
    rw [TailQueue.enqueue_chain s.conn.outQ e hs.queue.wf]
    exact List.mem_append_right _ (List.mem_singleton_self _)
  | encode e he =>
    refine ⟨_, rfl, fun l m hmem => ?_, by simp, by simp, by simp⟩
    cases List.mem_singleton.mp hmem
    exact ⟨rfl, e, he, rfl⟩
  | sentQos0 e he hstate hqos =>
    refine ⟨[.publishSent e.addr, .left e .qos0Sent], by simp [CState.drop, CState.note, CState.setQueue], by simp, ?_, by simp, by simp⟩
    intro x c hmem
    rcases List.mem_cons.mp hmem with h | h
    · cases h
    · cases List.mem_singleton.mp h
      exact ⟨he, .qos0Sent hqos⟩
  | unsent e cause he hstate hc => exact ⟨_, rfl, hleft e cause _ he (.unsent hc)⟩
  | acked e cause he hc => exact ⟨_, rfl, hleft e cause _ he (.acked hc)⟩

end step

/-! ### The system -/

/-- Where a queue is. -/
inductive Place where
  | conn (a : Nat)
  | orphan (a : Nat)
deriving DecidableEq

/-- The queue at this place has this level and this entry. -/
inductive QState.Holds (s : QState) : Place → Nat → OutPub → Prop where
  | conn {a : Nat} {c : QConn} {e : OutPub} (h : s.conn? a = some c) (he : e ∈ c.outQ.chain) : Holds s (.conn a) c.level e
  | orphan {a : Nat} {o : QOrphan} {e : OutPub} (h : s.orphan? a = some o) (he : e ∈ o.outQ.chain) :
    Holds s (.orphan a) o.level e

section system
variable {L : Limits} {ℓ : Label} {s t : QState}

/-- Where an entry of `t` at `p` comes from: the place `source p`, or it is new, and at `born`. -/
def Comes (ℓ : Label) (s t : QState) (source : Place → Place) (born p : Place) (level' : Nat) (e' : OutPub) : Prop :=
  (∃ level e, s.Holds (source p) level e ∧ Turned t.trace e e' ∧ (level' = level ∨ ℓ = .mismatch)) ∨
    (p = born ∧ Fresh s.nextAddr t.nextAddr level' e')

/-- Every entry of `t` comes from one of `s` or is new, no two queues of `t` come from one, and a
connection's queue goes nowhere unless it becomes an orphan's. -/
structure Sourced (ℓ : Label) (s t : QState) (source : Place → Place) (born : Place) : Prop where
  comes : ∀ p level e, t.Holds p level e → Comes ℓ s t source born p level e
  injective : ∀ p p' level level' e e', t.Holds p level e → t.Holds p' level' e' → source p = source p' → p = p'
  own : ℓ ≠ .take → ∀ p a, source p = .conn a → p = .conn a

theorem Comes.same {born p : Place} {level : Nat} {e : OutPub} (h : s.Holds p level e) : Comes ℓ s t id born p level e :=
  .inl ⟨level, e, h, .refl _ e, .inl rfl⟩

theorem QState.Holds.conn_inv {a level : Nat} {e : OutPub} (h : s.Holds (.conn a) level e) :
    ∃ c, s.conn? a = some c ∧ level = c.level ∧ e ∈ c.outQ.chain := by
  cases h with
  | conn hc he => exact ⟨_, hc, rfl, he⟩

theorem QState.Holds.orphan_inv {a level : Nat} {e : OutPub} (h : s.Holds (.orphan a) level e) :
    ∃ o, s.orphan? a = some o ∧ level = o.level ∧ e ∈ o.outQ.chain := by
  cases h with
  | orphan ho he => exact ⟨_, ho, rfl, he⟩

/-- A system in which every queue is where it was. -/
theorem Sourced.still {born : Place} (h : ∀ p level e, t.Holds p level e → Comes ℓ s t id born p level e) :
    Sourced ℓ s t id born :=
  ⟨h, fun _ _ _ _ _ _ _ _ h => h, fun _ _ _ h => h⟩

theorem setOrphan_holds {a : Nat} {o : QOrphan} (ho : s.orphan? a = some o) (q : TailQueue OutPub) {p : Place} {level : Nat}
    {e : OutPub} (h : (s.setOrphan a q).Holds p level e) :
    s.Holds p level e ∨ (p = .orphan a ∧ level = o.level ∧ e ∈ q.chain) := by
  have hother : ∀ x, x ≠ a → (s.setOrphan a q).orphan? x = s.orphan? x := fun x hx =>
    Chain.at?_writeAt_ne (f := fun o : QOrphan => {o with outQ := q}) (fun _ h => h) hx
  cases h with
  | conn hc he => exact .inl (.conn hc he)
  | @orphan x o' e ho' he =>
    by_cases hx : x = a
    · subst hx
      have hself : (s.setOrphan x q).orphan? x = some {o with outQ := q} :=
        Chain.at?_writeAt_self ho (Chain.at?_addr (x := o) ho)
      cases Option.some.inj (hself.symm.trans ho')
      exact .inr ⟨rfl, rfl, he⟩
    · rw [hother x hx] at ho'
      exact .inl (.orphan ho' he)

theorem dropOrphan_holds (hs : QInv s) {a : Nat} {p : Place} {level : Nat} {e : OutPub}
    (h : (s.dropOrphan a).Holds p level e) : s.Holds p level e ∧ p ≠ .orphan a := by
  cases h with
  | conn hc he => exact ⟨.conn hc he, by rintro ⟨⟩⟩
  | @orphan x o' e ho' he =>
    have hmem := (Chain.mem_removeAt hs.orphans_nodup).mp (Chain.at?_mem ho')
    have haddr : o'.addr = x := Chain.at?_addr ho'
    refine ⟨.orphan ?_ he, ?_⟩
    · rw [← haddr]
      exact Chain.at?_of_mem hs.orphans_nodup hmem.1
    · rintro ⟨⟩
      exact hmem.2 haddr

theorem withConn_holds {a : Nat} {c : QConn} (hc : s.conn? a = some c) {u : CState} (hu : u.conn.addr = a) {p : Place}
    {level : Nat} {e : OutPub} (h : (s.withConn a u).Holds p level e) :
    (s.Holds p level e ∧ p ≠ .conn a) ∨ (p = .conn a ∧ level = u.conn.level ∧ e ∈ u.conn.outQ.chain) := by
  cases h with
  | @conn x c' e hc' he =>
    by_cases hx : x = a
    · subst hx
      cases Option.some.inj ((QState.withConn_conn? hc u hu).symm.trans hc')
      exact .inr ⟨rfl, rfl, he⟩
    · have hother : (s.withConn a u).conn? x = s.conn? x := Chain.at?_writeAt_ne (fun _ _ => hu) hx
      rw [hother] at hc'
      exact .inl ⟨.conn hc' he, by rintro ⟨⟩; exact hx rfl⟩
  | orphan ho he => exact .inl ⟨.orphan ho he, by rintro ⟨⟩⟩

/-- The entries of an orphan, as they were in the connection's queue. -/
theorem toOrphan_turned {c : QConn} {slot : Nat} {e' : OutPub} (trace : List Obs) (h : e' ∈ (c.toOrphan slot).outQ.chain) :
    ∃ e ∈ c.outQ.chain, Turned trace e e' := by
  obtain ⟨e, he, m, rfl⟩ := mem_renumber h
  exact ⟨e, he, rfl, rfl, .inl rfl, fun hs => .inr ⟨hs, rfl⟩⟩

/-- The entries of a resumed queue, as they were in the orphan's. -/
theorem resume_turned {c : QConn} {o : QOrphan} {e' : OutPub} (trace : List Obs) (h : e' ∈ (c.resume o).outQ.chain) :
    ∃ e ∈ o.outQ.chain, Turned trace e e' := by
  obtain ⟨e, he, rfl⟩ := List.mem_map.mp h
  refine ⟨e, he, e.resume_key, ?_, ?_, fun hs => ?_⟩
  · unfold OutPub.resume
    split <;> rfl
  · by_cases hrel : e.state = .pubrelSent
    · refine .inl ?_
      unfold OutPub.resume
      split <;> simp_all
    · exact .inr (.inl (e.resume_state_queued.mpr hrel))
  · unfold OutPub.resume at hs ⊢
    split
    · exact .inr ⟨by assumption, rfl⟩
    · exact .inl rfl
    · exact .inl rfl

/-- The places after a queue has moved. -/
def moved (source target : Place) (p : Place) : Place := if p = target then source else p

/-- A system in which one queue has moved, and left nothing behind. -/
theorem Sourced.move {source target : Place} (hown : ℓ = .take ∨ ∀ a, source ≠ .conn a)
    (h : ∀ p level' e', t.Holds p level' e' → (s.Holds p level' e' ∧ p ≠ source ∧ p ≠ target) ∨
      (p = target ∧ ∃ level e, s.Holds source level e ∧ Turned t.trace e e' ∧ (level' = level ∨ ℓ = .mismatch))) :
    Sourced ℓ s t (moved source target) target := by
  have hself : moved source target target = source := if_pos rfl
  have hother : ∀ p, p ≠ target → moved source target p = p := fun p hp => if_neg hp
  refine ⟨fun p level e hp => ?_, fun p p' level level' e e' hp hp' heq => ?_, fun hℓ p a heq => ?_⟩
  · rcases h p level e hp with ⟨hs, -, hne⟩ | ⟨rfl, hsource⟩
    · exact .inl ⟨level, e, (hother p hne).symm ▸ hs, .refl _ e, .inl rfl⟩
    · exact .inl (hself.symm ▸ hsource)
  · rcases h p level e hp with ⟨-, hsrc, hne⟩ | ⟨rfl, -⟩
    · rcases h p' level' e' hp' with ⟨-, -, hne'⟩ | ⟨rfl, -⟩
      · rwa [hother p hne, hother p' hne'] at heq
      · rw [hother p hne, hself] at heq
        exact absurd heq hsrc
    · rcases h p' level' e' hp' with ⟨-, hsrc', hne'⟩ | ⟨rfl, -⟩
      · rw [hother p' hne', hself] at heq
        exact absurd heq.symm hsrc'
      · rfl
  · by_cases hp : p = target
    · rw [hp, hself] at heq
      exact absurd heq (hown.resolve_left hℓ a)
    · exact (hother p hp).symm.trans heq

theorem take_sourced {a : Nat} {c : QConn} (hc : s.conn? a = some c) :
    Sourced .take s {s.withConn a ((s.focus c).setQueue {} 0) with
      orphans := c.toOrphan s.nextAddr :: s.orphans, nextAddr := s.nextAddr + 1}
      (moved (.conn a) (.orphan s.nextAddr)) (.orphan s.nextAddr) := by
  have haddr : c.addr = a := Chain.at?_addr hc
  refine .move (.inl rfl) fun p level e h => ?_
  cases h with
  | @conn x c' e hc' he =>
    have hholds : (s.withConn a ((s.focus c).setQueue {} 0)).Holds (.conn x) c'.level e := .conn hc' he
    rcases withConn_holds hc haddr hholds with ⟨h, hne⟩ | ⟨-, -, hnil⟩
    · exact .inl ⟨h, hne, by rintro ⟨⟩⟩
    · cases hnil
  | @orphan x o e ho he =>
    by_cases hx : x = s.nextAddr
    · subst hx
      have hself : Chain.at? (c.toOrphan s.nextAddr :: s.orphans) s.nextAddr = some (c.toOrphan s.nextAddr) :=
        Chain.at?_cons_self (c.toOrphan s.nextAddr) s.orphans
      cases Option.some.inj (hself.symm.trans ho)
      obtain ⟨e₀, he₀, hturned⟩ := toOrphan_turned s.trace he
      exact .inr ⟨rfl, c.level, e₀, .conn hc he₀, hturned, .inl rfl⟩
    · have hother : Chain.at? (c.toOrphan s.nextAddr :: s.orphans) x = Chain.at? s.orphans x :=
        Chain.at?_cons_ne (x := c.toOrphan s.nextAddr) (Ne.symm hx) s.orphans
      refine .inl ⟨.orphan (hother.symm.trans ho) he, by rintro ⟨⟩, ?_⟩
      rintro ⟨⟩
      exact hx rfl

theorem reclaim_sourced (hs : QInv s) {a : Nat} {c : QConn} {o : QOrphan} (hc : s.conn? a = some c)
    (ho : s.orphan? o.addr = some o) :
    Sourced (resumeLabel c o) s ((s.withConn a {s.focus c with conn := c.resume o}).dropOrphan o.addr)
      (moved (.orphan o.addr) (.conn a)) (.conn a) := by
  have haddr : (c.resume o).addr = a := Chain.at?_addr (x := c) hc
  refine .move (.inr fun _ => by rintro ⟨⟩) fun p level e h => ?_
  cases h with
  | @conn x c' e hc' he =>
    have hholds : (s.withConn a {s.focus c with conn := c.resume o}).Holds (.conn x) c'.level e := .conn hc' he
    rcases withConn_holds hc haddr hholds with ⟨h, hne⟩ | ⟨hp, hlevel, he⟩
    · exact .inl ⟨h, by rintro ⟨⟩, hne⟩
    · obtain ⟨e₀, he₀, hturned⟩ := resume_turned s.trace he
      refine .inr ⟨hp, o.level, e₀, .orphan ho he₀, hturned, ?_⟩
      unfold resumeLabel
      split
      · rename_i hplain
        refine .inl (hlevel.trans (hplain.resolve_left ?_).symm)
        intro hnil
        rw [hnil] at he₀
        cases he₀
      · exact .inr rfl
  | @orphan x o' e ho' he =>
    have hholds : (s.dropOrphan o.addr).Holds (.orphan x) o'.level e := .orphan ho' he
    obtain ⟨h, hne⟩ := dropOrphan_holds hs hholds
    exact .inl ⟨h, hne, by rintro ⟨⟩⟩

/-- Where the entries of the system come from. -/
theorem QStep.sourced (h : QStep L ℓ s t) (hs : QInv s) (hm : ℓ ≠ .mute) : ∃ source born, Sourced ℓ s t source born := by
  cases h with
  | @conn _ _ u a c hc hstep =>
    have haddr : u.conn.addr = a := hstep.addr_eq.trans (Chain.at?_addr hc)
    refine ⟨id, .conn a, .still fun p level e h => ?_⟩
    rcases withConn_holds hc haddr h with ⟨h, -⟩ | ⟨rfl, rfl, he⟩
    · exact .same h
    · rcases hstep.comes (hs.focus (Chain.at?_mem hc)) hm he with ⟨e₀, he₀, hturned, hlevel⟩ | hfresh
      · exact .inl ⟨c.level, e₀, .conn hc he₀, hturned, .inl hlevel⟩
      · exact .inr ⟨rfl, hfresh⟩
  | alloc n hn =>
    refine ⟨id, .conn 0, .still fun p level e h => ?_⟩
    cases h with
    | conn hc he => exact .same (.conn hc he)
    | orphan ho he => exact .same (.orphan ho he)
  | accept =>
    refine ⟨id, .conn 0, .still fun p level e h => ?_⟩
    cases h with
    | @conn x c' e hc he =>
      by_cases hx : s.nextAddr = x
      · subst hx
        have hself : Chain.at? (({addr := s.nextAddr} : QConn) :: s.conns) s.nextAddr = some {addr := s.nextAddr} :=
          Chain.at?_cons_self ({addr := s.nextAddr} : QConn) s.conns
        cases Option.some.inj (hself.symm.trans hc)
        cases he
      · have hother : Chain.at? (({addr := s.nextAddr} : QConn) :: s.conns) x = Chain.at? s.conns x :=
          Chain.at?_cons_ne (x := ({addr := s.nextAddr} : QConn)) hx s.conns
        exact .same (.conn (hother.symm.trans hc) he)
    | orphan ho he => exact .same (.orphan ho he)
  | remove a c cause hc hcause =>
    refine ⟨id, .conn a, .still fun p level e h => ?_⟩
    cases h with
    | @conn x c' e hc' he =>
      have hmem := (Chain.mem_removeAt hs.conns_nodup).mp (Chain.at?_mem hc')
      have haddr : c'.addr = x := Chain.at?_addr hc'
      refine .same (.conn ?_ he)
      rw [← haddr]
      exact Chain.at?_of_mem hs.conns_nodup hmem.1
    | orphan ho he => exact .same (.orphan ho he)
  | take a c hc => exact ⟨_, _, take_sourced hc⟩
  | reclaim a c o hc he ho => exact ⟨_, _, reclaim_sourced hs hc ho⟩
  | dropOrphan o ho =>
    refine ⟨id, .orphan o.addr, .still fun p level e h => .same ?_⟩
    have hholds : (s.dropOrphan o.addr).Holds p level e := by
      cases h with
      | conn hc he => exact .conn hc he
      | orphan ho he => exact .orphan ho he
    exact (dropOrphan_holds hs hholds).1
  | evict o head ho hhead =>
    refine ⟨id, .orphan o.addr, .still fun p level e h => .same ?_⟩
    have hholds : (s.setOrphan o.addr (o.outQ.unlink head.addr)).Holds p level e := by
      cases h with
      | conn hc he => exact .conn hc he
      | orphan ho he => exact .orphan ho he
    rcases setOrphan_holds ho _ hholds with h | ⟨rfl, rfl, he⟩
    · exact h
    · exact .orphan ho (Chain.mem_of_mem_removeAt he)
  | offline o e₁ ho ha hstate hl hid =>
    refine ⟨id, .orphan o.addr, .still fun p level e h => ?_⟩
    have hholds : (s.setOrphan o.addr (o.outQ.enqueue e₁)).Holds p level e := by
      cases h with
      | conn hc he => exact .conn hc he
      | orphan ho he => exact .orphan ho he
    rcases setOrphan_holds ho _ hholds with h | ⟨rfl, rfl, he⟩
    · exact .same h
    · rw [TailQueue.enqueue_chain o.outQ e₁ (hs.orphan o (Chain.at?_mem ho)).wf] at he
      rcases List.mem_append.mp he with he | he
      · exact .same (.orphan ho he)
      · cases List.mem_singleton.mp he
        exact .inr ⟨rfl, ha, Nat.lt_succ_self _, hstate, hl⟩

/-- There is an entry with this address somewhere. -/
def QState.Has (s : QState) (a : Nat) : Prop := ∃ p level e, s.Holds p level e ∧ e.addr = a

/-- A queue that only another one has lost or gained entries beside. -/
theorem withConn_has {a : Nat} {c : QConn} (hc : s.conn? a = some c) {u : CState} (hu : u.conn.addr = a) {p : Place}
    {level : Nat} {e : OutPub} (h : s.Holds p level e) (hp : p ≠ .conn a) : (s.withConn a u).Holds p level e := by
  cases h with
  | @conn x c' e hc' he =>
    have hx : x ≠ a := by
      rintro rfl
      exact hp rfl
    exact .conn ((Chain.at?_writeAt_ne (fun _ _ => hu) hx).trans hc') he
  | orphan ho he => exact .orphan ho he

theorem setOrphan_has {a : Nat} {o : QOrphan} (ho : s.orphan? a = some o) {q : TailQueue OutPub} {p : Place} {level : Nat}
    {e : OutPub} (h : s.Holds p level e) (hq : p = .orphan a → e ∈ o.outQ.chain → e ∈ q.chain) :
    (s.setOrphan a q).Holds p level e := by
  cases h with
  | conn hc he => exact .conn hc he
  | @orphan x o' e ho' he =>
    by_cases hx : x = a
    · subst hx
      cases Option.some.inj (ho.symm.trans ho')
      have hself : (s.setOrphan x q).orphan? x = some {o with outQ := q} :=
        Chain.at?_writeAt_self ho (Chain.at?_addr (x := o) ho)
      exact QState.Holds.orphan (o := {o with outQ := q}) hself (hq rfl he)
    · have hother : (s.setOrphan a q).orphan? x = s.orphan? x :=
        Chain.at?_writeAt_ne (f := fun o : QOrphan => {o with outQ := q}) (fun _ h => h) hx
      exact .orphan (hother.trans ho') he

/-- An entry of the system stays, or is noted to leave. -/
theorem QStep.goes (h : QStep L ℓ s t) (hs : QInv s) {p : Place} {level : Nat} {e : OutPub} (he : s.Holds p level e) :
    t.Has e.addr ∨ ∃ cause, Obs.left e cause ∈ t.trace := by
  cases h with
  | @conn _ _ u a c hc hstep =>
    have haddr : u.conn.addr = a := hstep.addr_eq.trans (Chain.at?_addr hc)
    by_cases hp : p = .conn a
    · subst hp
      obtain ⟨c', hc', -, hmem⟩ := he.conn_inv
      cases Option.some.inj (hc.symm.trans hc')
      rcases hstep.goes (hs.focus (Chain.at?_mem hc)) hmem with ⟨e', he', ha⟩ | hleft
      · exact .inl ⟨_, _, e', .conn (QState.withConn_conn? hc u haddr) he', ha⟩
      · exact .inr hleft
    · exact .inl ⟨p, level, e, withConn_has hc haddr he hp, rfl⟩
  | alloc n hn =>
    cases he with
    | conn hc he => exact .inl ⟨_, _, e, .conn hc he, rfl⟩
    | orphan ho he => exact .inl ⟨_, _, e, .orphan ho he, rfl⟩
  | accept =>
    cases he with
    | @conn x c e hc he =>
      have hx : s.nextAddr ≠ x := by
        have hlt := hs.conns_lt c (Chain.at?_mem hc)
        rw [show c.addr = x from Chain.at?_addr hc] at hlt
        exact Nat.ne_of_gt hlt
      have hother : Chain.at? (({addr := s.nextAddr} : QConn) :: s.conns) x = Chain.at? s.conns x :=
        Chain.at?_cons_ne (x := ({addr := s.nextAddr} : QConn)) hx s.conns
      exact .inl ⟨_, _, e, .conn (hother.trans hc) he, rfl⟩
    | orphan ho he => exact .inl ⟨_, _, e, .orphan ho he, rfl⟩
  | remove a c cause hc hcause =>
    cases he with
    | @conn x c' e hc' he =>
      by_cases hx : x = a
      · subst hx
        cases Option.some.inj (hc.symm.trans hc')
        exact .inr ⟨cause, List.mem_append_right _ (List.mem_map_of_mem he)⟩
      · exact .inl ⟨_, _, e, .conn ((Chain.at?_removeAt_ne hx).trans hc') he, rfl⟩
    | orphan ho he => exact .inl ⟨_, _, e, .orphan ho he, rfl⟩
  | take a c hc =>
    have haddr : c.addr = a := Chain.at?_addr hc
    cases he with
    | @conn x c' e hc' he =>
      by_cases hx : x = a
      · subst hx
        cases Option.some.inj (hc.symm.trans hc')
        have hkeys : (renumber 1 c.outQ.chain).map OutPub.key = c.outQ.chain.map OutPub.key := renumber_map_key 1 _
        have hmem : e.key ∈ (renumber 1 c.outQ.chain).map OutPub.key := hkeys ▸ List.mem_map_of_mem he
        obtain ⟨e', he', hkey⟩ := List.mem_map.mp hmem
        have hself : Chain.at? (c.toOrphan s.nextAddr :: s.orphans) s.nextAddr = some (c.toOrphan s.nextAddr) :=
          Chain.at?_cons_self (c.toOrphan s.nextAddr) s.orphans
        exact .inl ⟨_, _, e', .orphan hself he', congrArg Prod.fst hkey⟩
      · exact .inl ⟨_, _, e, .conn ((Chain.at?_writeAt_ne (fun _ _ => haddr) hx).trans hc') he, rfl⟩
    | @orphan x o e ho he =>
      have hx : s.nextAddr ≠ x := by
        have hlt := hs.orphans_lt o (Chain.at?_mem ho)
        rw [show o.addr = x from Chain.at?_addr ho] at hlt
        exact Nat.ne_of_gt hlt
      have hother : Chain.at? (c.toOrphan s.nextAddr :: s.orphans) x = Chain.at? s.orphans x :=
        Chain.at?_cons_ne (x := c.toOrphan s.nextAddr) hx s.orphans
      exact .inl ⟨_, _, e, .orphan (hother.trans ho) he, rfl⟩
  | reclaim a c o hc hempty ho =>
    have haddr : (c.resume o).addr = a := Chain.at?_addr (x := c) hc
    cases he with
    | @conn x c' e hc' he =>
      by_cases hx : x = a
      · subst hx
        cases Option.some.inj (hc.symm.trans hc')
        rw [hempty] at he
        cases he
      · exact .inl ⟨_, _, e, .conn ((Chain.at?_writeAt_ne (fun _ _ => haddr) hx).trans hc') he, rfl⟩
    | @orphan x o' e ho' he =>
      by_cases hx : x = o.addr
      · subst hx
        cases Option.some.inj (ho.symm.trans ho')
        have hself : (s.withConn a {s.focus c with conn := c.resume o}).conn? a = some (c.resume o) :=
          QState.withConn_conn? hc _ haddr
        exact .inl ⟨_, _, e.resume, .conn hself (List.mem_map_of_mem he), congrArg Prod.fst e.resume_key⟩
      · exact .inl ⟨_, _, e, .orphan ((Chain.at?_removeAt_ne hx).trans ho') he, rfl⟩
  | dropOrphan o ho =>
    cases he with
    | conn hc he => exact .inl ⟨_, _, e, .conn hc he, rfl⟩
    | @orphan x o' e ho' he =>
      by_cases hx : x = o.addr
      · subst hx
        cases Option.some.inj (ho.symm.trans ho')
        exact .inr ⟨.sessionEnd, List.mem_append_right _ (List.mem_map_of_mem he)⟩
      · exact .inl ⟨_, _, e, .orphan ((Chain.at?_removeAt_ne hx).trans ho') he, rfl⟩
  | evict o head ho hhead =>
    have hwf := (hs.orphan o (Chain.at?_mem ho)).wf
    by_cases hsame : p = .orphan o.addr ∧ e.addr = head.addr
    · obtain ⟨rfl, haddr⟩ := hsame
      obtain ⟨o', ho', -, hmem⟩ := he.orphan_inv
      cases Option.some.inj (ho.symm.trans ho')
      have : e = head := Option.some.inj ((hwf.at? hmem).symm.trans ((congrArg (Chain.at? _) haddr).trans (hwf.at? hhead)))
      exact .inr ⟨.evicted, List.mem_append_right _ (this ▸ List.mem_singleton_self _)⟩
    · have hholds := setOrphan_has (q := o.outQ.unlink head.addr) ho he fun hp hmem =>
        (TailQueue.mem_unlink o.outQ head.addr hwf e).mpr ⟨hmem, fun ha => hsame ⟨hp, ha⟩⟩
      refine .inl ⟨p, level, e, ?_, rfl⟩
      cases hholds with
      | conn hc he => exact .conn hc he
      | orphan ho he => exact .orphan ho he
  | offline o e₁ ho ha hstate hl hid =>
    have hwf := (hs.orphan o (Chain.at?_mem ho)).wf
    have hholds := setOrphan_has (q := o.outQ.enqueue e₁) ho he fun _ hmem => by
      rw [TailQueue.enqueue_chain o.outQ e₁ hwf]
      exact List.mem_append_left _ hmem
    refine .inl ⟨p, level, e, ?_, rfl⟩
    cases hholds with
    | conn hc he => exact .conn hc he
    | orphan ho he => exact .orphan ho he

/-- What a step notes of the entries. -/
structure Noted (ℓ : Label) (s t : QState) (obs : List Obs) : Prop where
  encoded : ∀ l m, Obs.encoded l m ∈ obs → ∃ p e, s.Holds p m e ∧ e.protocolLevel = l
  left : ∀ e cause, Obs.left e cause ∈ obs → (∃ p level, s.Holds p level e) ∧ Leaves ℓ e cause
  enqueued : ∀ a, Obs.enqueued a ∈ obs → t.Has a
  answered : ∀ conn flags code, Obs.connack conn flags code ∈ obs → ℓ = .answer

theorem Noted.nothing : Noted ℓ s t [] := ⟨by simp, by simp, by simp, by simp⟩

/-- The end of a queue is the end of its entries. -/
theorem Noted.ended {entries : List OutPub} {cause : Cause} (h : ∀ e ∈ entries, ∃ p level, s.Holds p level e)
    (hl : ∀ e ∈ entries, Leaves ℓ e cause) : Noted ℓ s t (entries.map (Obs.left · cause)) := by
  refine ⟨by simp, fun e c hmem => ?_, by simp, by simp⟩
  obtain ⟨x, hx, heq⟩ := List.mem_map.mp hmem
  cases heq
  exact ⟨h e hx, hl e hx⟩

theorem QStep.notes (h : QStep L ℓ s t) (hs : QInv s) : ∃ obs, t.trace = s.trace ++ obs ∧ Noted ℓ s t obs := by
  cases h with
  | @conn _ _ u a c hc hstep =>
    have haddr : u.conn.addr = a := hstep.addr_eq.trans (Chain.at?_addr hc)
    obtain ⟨obs, htrace, hnoted⟩ := hstep.notes (hs.focus (Chain.at?_mem hc))
    refine ⟨obs, htrace, fun l m hmem => ?_, fun e cause hmem => ?_, fun x hmem => ?_, hnoted.answered⟩
    · obtain ⟨rfl, e, he, hl⟩ := hnoted.encoded l m hmem
      exact ⟨_, e, .conn hc he, hl⟩
    · obtain ⟨he, hl⟩ := hnoted.left e cause hmem
      exact ⟨⟨_, _, .conn hc he⟩, hl⟩
    · obtain ⟨e, he, ha⟩ := hnoted.enqueued x hmem
      exact ⟨_, _, e, .conn (QState.withConn_conn? hc u haddr) he, ha⟩
  | alloc | accept | take | reclaim => exact ⟨[], (List.append_nil _).symm, .nothing⟩
  | remove a c cause hc hcause =>
    refine ⟨_, rfl, .ended (fun e he => ⟨_, _, .conn hc he⟩) fun e he => ?_⟩
    rcases hcause with rfl | rfl
    · exact .sessionEnd
    · exact .takenOver fun hqos => if_pos ⟨rfl, e, he, hqos⟩
  | dropOrphan o ho => exact ⟨_, rfl, .ended (fun e he => ⟨_, _, .orphan ho he⟩) fun _ _ => .sessionEnd⟩
  | evict o head ho hhead =>
    refine ⟨_, rfl, by simp, fun e cause hmem => ?_, by simp, by simp⟩
    cases List.mem_singleton.mp hmem
    exact ⟨⟨_, _, .orphan ho hhead⟩, .evicted⟩
  | offline o e₁ ho ha hstate hl hid =>
    refine ⟨_, rfl, by simp, by simp, fun x hmem => ?_, by simp⟩
    cases List.mem_singleton.mp hmem
    have hself : (s.setOrphan o.addr (o.outQ.enqueue e₁)).orphan? o.addr = some {o with outQ := o.outQ.enqueue e₁} :=
      Chain.at?_writeAt_self ho rfl
    refine ⟨.orphan o.addr, _, e₁, QState.Holds.orphan (o := {o with outQ := o.outQ.enqueue e₁}) hself ?_, rfl⟩
    rw [TailQueue.enqueue_chain o.outQ e₁ (hs.orphan o (Chain.at?_mem ho)).wf]
    exact List.mem_append_right _ (List.mem_singleton_self _)

/-- A run in which no CONNECT is answered notes no CONNACK. -/
theorem QRun.unanswered {P : Label → Prop} (hP : ∀ ℓ, P ℓ → ℓ ≠ .answer) (h : QRun L P s t) (hs : QInv s) :
    ∃ obs, t.trace = s.trace ++ obs ∧ ∀ conn flags code, Obs.connack conn flags code ∉ obs := by
  refine (h.invariant (I := fun u => QInv u ∧ ∃ obs, u.trace = s.trace ++ obs ∧
    ∀ conn flags code, Obs.connack conn flags code ∉ obs) (fun u v ℓ hℓ hstep hu => ⟨hstep.inv hu.1, ?_⟩) ⟨hs, ?_⟩).2
  · obtain ⟨hinv, obs, htrace, hnone⟩ := hu
    obtain ⟨more, hmore, hnoted⟩ := hstep.notes hinv
    refine ⟨obs ++ more, by rw [hmore, htrace, List.append_assoc], fun conn flags code hmem => ?_⟩
    rcases List.mem_append.mp hmem with h | h
    · exact hnone conn flags code h
    · exact hP ℓ hℓ (hnoted.answered conn flags code h)
  · exact ⟨[], (List.append_nil _).symm, by simp⟩

end system

end WolfMqtt.Broker
