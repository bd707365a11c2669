import WolfMqtt.Packet.PropSection

/-! No decoder leaks from the property pool, or disturbs it.

`Owns s₀ L s` says what a decoder that started from `s₀` may have done by the time of `s`: the lists `L` hang
on the pointers it has set, they are made of elements that were free, and nothing else has changed but for
what was free before and is free again. Each part of a decoder keeps this up, and a decoder that fails
ends with its lists empty (`Decoder.pool_safe`). -/
namespace WolfMqtt

open Attempt (Triple lift onError)
open DecodeM (fail)
open Function (update)
open Pool (Cell Linked)

/-- The lists of a decoder; none where it has not set the pointer. -/
abbrev Lists := Whose → Option (List Nat)

structure Owns (s₀ : PropState) (L : Lists) (s : PropState) : Prop where
  unset : ∀ w, L w = none → s.head w = s₀.head w
  linked : ∀ w, ∀ l ∈ L w, Linked s.pool (s.head w) l
  taken : ∀ w, ∀ l ∈ L w, ∀ i ∈ l, Free s₀.pool i ∧ Used s.pool i
  apart : ∀ a ∈ L .own, ∀ b ∈ L .will, a.Disjoint b
  kept : ∀ i, Used s₀.pool i → s.pool[i]? = s₀.pool[i]?
  rest : ∀ i, Free s₀.pool i → (∀ w, ∀ l ∈ L w, i ∉ l) → Free s.pool i
  length : s.pool.length = s₀.pool.length

namespace Owns
variable {s₀ s s' : PropState} {L : Lists} {w : Whose} {l new : List Nat}

theorem start (s : PropState) : Owns s (fun _ => none) s where
  unset _ _ := rfl
  linked := by simp
  taken := by simp
  apart := by simp
  kept _ _ := rfl
  rest _ h _ := h
  length := rfl

/-- An element that is free now was free at the start. -/
theorem free_start (h : Owns s₀ L s) {i : Nat} (hi : Free s.pool i) : Free s₀.pool i := by
  obtain ⟨c, hc, -⟩ := id hi
  have hlt := (List.getElem?_eq_some_iff.mp hc).1
  rw [h.length] at hlt
  refine (used_or_free hlt).resolve_left fun hused => ?_
  refine Used.not_free ?_ hi
  obtain ⟨d, hd, hin⟩ := id hused
  exact ⟨d, (h.kept i hused).trans hd, hin⟩

theorem mem_update {m : List Nat} {v : Whose} (hm : m ∈ update L w (some l) v) :
    (v = w ∧ m = l) ∨ (v ≠ w ∧ m ∈ L v) := by
  by_cases hv : v = w
  · subst hv
    rw [Function.update_self, Option.mem_some_iff] at hm
    exact .inl ⟨rfl, hm.symm⟩
  · rw [Function.update_of_ne hv] at hm
    exact .inr ⟨hv, hm⟩

theorem disjoint_of_ne (h : Owns s₀ L s) {v : Whose} {a b : List Nat} (hv : v ≠ w) (ha : a ∈ L w) (hb : b ∈ L v) :
    a.Disjoint b := by
  cases w <;> cases v <;> first | exact absurd rfl hv | exact h.apart a ha b hb | exact (h.apart b hb a ha).symm

/-- A pointer without a list is set to NULL. -/
theorem null (h : Owns s₀ L s) (hw : ∀ l ∈ L w, l = []) : Owns s₀ (update L w (some [])) (s.setHead w none) where
  unset v hv := by
    have hne : v ≠ w := by
      rintro rfl
      simp at hv
    rw [Function.update_of_ne hne] at hv
    rw [PropState.head_setHead_ne hne, h.unset v hv]
  linked v m hm := by
    rw [PropState.pool_setHead]
    rcases mem_update hm with ⟨rfl, rfl⟩ | ⟨hv, hm⟩
    · exact PropState.head_setHead_self v none s
    · rw [PropState.head_setHead_ne hv]
      exact h.linked v m hm
  taken v m hm := by
    rw [PropState.pool_setHead]
    rcases mem_update hm with ⟨rfl, rfl⟩ | ⟨-, hm⟩
    · simp
    · exact h.taken v m hm
  apart a ha b hb := by
    rcases mem_update ha with ⟨-, rfl⟩ | ⟨-, ha⟩
    · exact List.disjoint_nil_left b
    rcases mem_update hb with ⟨-, rfl⟩ | ⟨-, hb⟩
    · exact List.disjoint_nil_right a
    · exact h.apart a ha b hb
  kept i hi := by rw [PropState.pool_setHead, h.kept i hi]
  rest i hi hnot := by
    rw [PropState.pool_setHead]
    refine h.rest i hi fun v m hm => ?_
    by_cases hv : v = w
    · subst hv
      rw [hw m hm]
      exact List.not_mem_nil
    · exact hnot v m (by rwa [Function.update_of_ne hv])
  length := by rw [PropState.pool_setHead, h.length]

/-- The elements of the other lists, and those in use from the start, are not free. -/
theorem not_free_of_mem (h : Owns s₀ L s) {v : Whose} {m : List Nat} (hm : m ∈ L v) {i : Nat} (hi : i ∈ m) :
    ¬Free s.pool i := (h.taken v m hm i hi).2.not_free

theorem used_of_start (h : Owns s₀ L s) {i : Nat} (hi : Used s₀.pool i) : Used s.pool i := by
  obtain ⟨c, hc, hin⟩ := id hi
  exact ⟨c, (h.kept i hi).trans hc, hin⟩

/-- An empty list grows. -/
theorem take (h : Owns s₀ L s) (hw : L w = some []) (hgrows : Grows w [] new s s') (hused : ∀ i ∈ new, Used s'.pool i) :
    Owns s₀ (update L w (some new)) s' := by
  have hframe : ∀ i, ¬Free s.pool i → s'.pool[i]? = s.pool[i]? := fun i hi =>
    hgrows.frame i (fun hnew => hi (hgrows.fresh i hnew)) List.not_mem_nil
  constructor
  case unset =>
    intro v hv
    have hne : v ≠ w := by
      rintro rfl
      simp at hv
    rw [Function.update_of_ne hne] at hv
    rw [hgrows.other v hne, h.unset v hv]
  case linked =>
    intro v m hm
    rcases mem_update hm with ⟨rfl, rfl⟩ | ⟨hv, hm⟩
    · exact hgrows.linked
    · rw [hgrows.other v hv]
      refine (h.linked v m hm).congr fun i hi => ?_
      rw [hframe i (h.not_free_of_mem hm hi)]
  case taken =>
    intro v m hm i hi
    rcases mem_update hm with ⟨rfl, rfl⟩ | ⟨-, hm⟩
    · exact ⟨h.free_start (hgrows.fresh i hi), hused i hi⟩
    · refine ⟨(h.taken v m hm i hi).1, (h.taken v m hm i hi).2.congr ?_⟩
      rw [hframe i (h.not_free_of_mem hm hi)]
  case apart =>
    intro a ha b hb
    rcases mem_update ha with ⟨hown, rfl⟩ | ⟨-, hownList⟩
    · rcases mem_update hb with ⟨hwill, -⟩ | ⟨-, hwillList⟩
      · cases hown.trans hwill.symm
      · exact fun i hi hi' => h.not_free_of_mem hwillList hi' (hgrows.fresh i hi)
    · rcases mem_update hb with ⟨-, rfl⟩ | ⟨-, hwillList⟩
      · exact fun i hi hi' => h.not_free_of_mem hownList hi (hgrows.fresh i hi')
      · exact h.apart a hownList b hwillList
  case kept =>
    intro i hi
    rw [hframe i (h.used_of_start hi).not_free, h.kept i hi]
  case rest =>
    intro i hi hnot
    have hnew : i ∉ new := hnot w new (by rw [Function.update_self]; rfl)
    have hfree : Free s.pool i := by
      refine h.rest i hi fun v m hm => ?_
      by_cases hv : v = w
      · subst hv
        rw [hw, Option.mem_some_iff] at hm
        rw [← hm]
        exact List.not_mem_nil
      · exact hnot v m (by rwa [Function.update_of_ne hv])
    exact hfree.congr (hgrows.items i hnew)
  case length => rw [hgrows.length, h.length]

/-- A list is given back. -/
theorem give (h : Owns s₀ L s) (hw : L w = some l) (hfrees : Frees w l s s') : Owns s₀ (update L w (some [])) s' := by
  have hframe : ∀ v ≠ w, ∀ m ∈ L v, ∀ i ∈ m, s'.pool[i]? = s.pool[i]? := fun v hv m hm i hi =>
    hfrees.frame i fun hl => h.disjoint_of_ne hv hw hm hl hi
  constructor
  case unset =>
    intro v hv
    have hne : v ≠ w := by
      rintro rfl
      simp at hv
    rw [Function.update_of_ne hne] at hv
    rw [hfrees.other v hne, h.unset v hv]
  case linked =>
    intro v m hm
    rcases mem_update hm with ⟨rfl, rfl⟩ | ⟨hv, hm⟩
    · exact hfrees.null
    · rw [hfrees.other v hv]
      refine (h.linked v m hm).congr fun i hi => ?_
      rw [hframe v hv m hm i hi]
  case taken =>
    intro v m hm i hi
    rcases mem_update hm with ⟨rfl, rfl⟩ | ⟨hv, hm⟩
    · cases hi
    · refine ⟨(h.taken v m hm i hi).1, (h.taken v m hm i hi).2.congr ?_⟩
      rw [hframe v hv m hm i hi]
  case apart =>
    intro a ha b hb
    rcases mem_update ha with ⟨-, rfl⟩ | ⟨-, ha⟩
    · exact List.disjoint_nil_left b
    rcases mem_update hb with ⟨-, rfl⟩ | ⟨-, hb⟩
    · exact List.disjoint_nil_right a
    · exact h.apart a ha b hb
  case kept =>
    intro i hi
    rw [hfrees.frame i fun hl => hi.not_free (h.taken w l hw i hl).1, h.kept i hi]
  case rest =>
    intro i hi hnot
    by_cases hl : i ∈ l
    · exact hfrees.free i hl
    · refine Free.congr (p := s.pool) ?_ (by rw [hfrees.frame i hl])
      refine h.rest i hi fun v m hm => ?_
      by_cases hv : v = w
      · subst hv
        cases hw.symm.trans hm
        exact hl
      · exact hnot v m (by rwa [Function.update_of_ne hv])
  case length => rw [hfrees.length, h.length]

/-- What has been taken and given back at once. -/
theorem undone (h : Owns s₀ L s) (hw : L w = some []) {s₁ : PropState} (hgrows : Grows w [] new s s₁)
    (hfrees : Frees w new s₁ s') : Owns s₀ L s' := by
  have hframe : ∀ i, ¬Free s.pool i → s'.pool[i]? = s.pool[i]? := by
    intro i hi
    have hnot : i ∉ new := fun hnew => hi (hgrows.fresh i hnew)
    rw [hfrees.frame i hnot, hgrows.frame i hnot List.not_mem_nil]
  constructor
  case unset =>
    intro v hv
    have hne : v ≠ w := by
      rintro rfl
      cases hw.symm.trans hv
    rw [hfrees.other v hne, hgrows.other v hne, h.unset v hv]
  case linked =>
    intro v m hm
    by_cases hv : v = w
    · subst hv
      cases hw.symm.trans hm
      exact hfrees.null
    · rw [hfrees.other v hv, hgrows.other v hv]
      refine (h.linked v m hm).congr fun i hi => ?_
      rw [hframe i (h.not_free_of_mem hm hi)]
  case taken =>
    intro v m hm i hi
    refine ⟨(h.taken v m hm i hi).1, (h.taken v m hm i hi).2.congr ?_⟩
    rw [hframe i (h.not_free_of_mem hm hi)]
  case apart => exact h.apart
  case kept =>
    intro i hi
    rw [hframe i (h.used_of_start hi).not_free, h.kept i hi]
  case rest =>
    intro i hi hnot
    by_cases hnew : i ∈ new
    · exact hfrees.free i hnew
    · refine Free.congr (p := s.pool) (h.rest i hi hnot) ?_
      rw [hfrees.frame i hnew, hgrows.frame i hnew List.not_mem_nil]
  case length => rw [hfrees.length, hgrows.length, h.length]

end Owns

/-! ### The parts of a decoder -/

section Parts
variable {s₀ : PropState}

/-- All lists are empty: what a decoder leaves that fails. -/
def Clean (s₀ s : PropState) : Prop := ∃ L : Lists, (∀ w, ∀ l ∈ L w, l = []) ∧ Owns s₀ L s

/-- There are as many free elements as at the start. -/
theorem Clean.room {s : PropState} (h : Clean s₀ s) : s.room = s₀.room := by
  obtain ⟨L, hempty, howns⟩ := h
  refine Pool.freeCount_of_free ?_
  refine List.ext_getElem (by rw [List.length_map, List.length_map, howns.length]) fun i hi hi₀ => ?_
  rw [List.length_map] at hi hi₀
  rw [List.getElem_map, List.getElem_map]
  have hget : s.pool[i]? = some s.pool[i] := List.getElem?_eq_getElem hi
  rcases used_or_free hi₀ with hused | hfree
  · have hkept := howns.kept i hused
    rw [hget, List.getElem?_eq_getElem hi₀] at hkept
    rw [Option.some.inj hkept]
  · obtain ⟨c, hc, hin⟩ := howns.rest i hfree fun w l hl => by
      rw [hempty w l hl]
      exact List.not_mem_nil
    obtain ⟨d, hd, hin'⟩ := hfree
    cases hget.symm.trans hc
    cases (List.getElem?_eq_getElem hi₀).symm.trans hd
    rw [hin, hin']

theorem of_item_used {s : PropState} {new : List Nat} {vs : List PropView}
    (h : new.map (fun i => s.pool[i]?.map Cell.item) = vs.map fun v => some (.of v)) : ∀ i ∈ new, Used s.pool i := by
  intro i hi
  have hmem : s.pool[i]?.map Cell.item ∈ vs.map fun v => some (PropItem.of v) := by
    rw [← h]
    exact List.mem_map_of_mem hi
  obtain ⟨v, -, hv⟩ := List.mem_map.mp hmem
  obtain ⟨c, hc, hof⟩ := Option.map_eq_some_iff.mp hv.symm
  refine ⟨c, hc, ?_⟩
  rw [hof]
  cases v with
  | mk type =>
    cases type <;> rfl

/-- A section takes its list, or nothing. -/
theorem propSectionM_owns {L : Lists} {w : Whose} {packet : PacketType} {rx : Bytes} {limit pos : Nat}
    {refuse : Nat → Nat → Option Int} (hw : L w = some []) :
    Triple (Owns s₀ L) (propSectionM w packet rx limit pos refuse) (Owns s₀ L) fun _ s =>
      ∃ new, Owns s₀ (update L w (some new)) s ∧ (s.views w = [] → new = []) := by
  intro s h
  have hnull : s.head w = none := h.linked w [] hw
  have hspec (x) (hx : scanSection packet s.room rx limit pos refuse = x) :=
    hx ▸ @propSectionM_spec w packet rx limit pos refuse s hnull
  cases hscan : scanSection packet s.room rx limit pos refuse with
  | error e =>
    obtain ⟨new, s₁, s', hrun, hgrows, hfrees⟩ := hspec _ hscan
    rw [hrun]
    exact h.undone hw hgrows hfrees
  | ok r =>
    obtain ⟨new, s', hrun, hgrows, hviews, hvalues⟩ := hspec _ hscan
    rw [hrun]
    refine ⟨new, h.take hw hgrows (of_item_used hvalues), fun hnone => ?_⟩
    rw [hviews] at hnone
    rw [hnone, List.map_nil, List.map_eq_nil_iff] at hvalues
    exact hvalues

theorem freeProps_owns {L : Lists} {w : Whose} {l : List Nat} (hw : L w = some l) {err : PropState → Prop} :
    Triple (Owns s₀ L) (freeProps w) err fun _ => Owns s₀ (update L w (some [])) := by
  intro s h
  obtain ⟨s', hrun, hfrees⟩ := freeProps_spec (h.linked w l hw)
  rw [hrun]
  exact h.give hw hfrees

theorem nullProps_owns {L : Lists} {w : Whose} (hw : ∀ l ∈ L w, l = []) {err : PropState → Prop} :
    Triple (Owns s₀ L) (nullProps w) err fun _ => Owns s₀ (update L w (some [])) :=
  fun _ h => h.null hw

/-- Only a list of its own. -/
def ownList (l : List Nat) : Lists := update (fun _ => none) .own (some l)

theorem update_ownList (l m : List Nat) : update (ownList l) .own (some m) = ownList m := Function.update_idem _ _ _

theorem Owns.clean_start {s : PropState} (h : Owns s₀ (fun _ => none) s) : Clean s₀ s := ⟨_, by simp, h⟩

theorem Owns.clean {s : PropState} (h : Owns s₀ (ownList []) s) : Clean s₀ s := by
  refine ⟨_, fun w l hl => ?_, h⟩
  rcases Owns.mem_update hl with ⟨-, rfl⟩ | ⟨-, hl⟩
  · rfl
  · cases hl

/-- Some list of its own: what a decoder has behind its properties. -/
def HasList (s₀ s : PropState) : Prop := ∃ l, Owns s₀ (ownList l) s

theorem ownSection {packet : PacketType} {rx : Bytes} {limit pos : Nat} {refuse : Nat → Nat → Option Int} :
    Triple (Owns s₀ (ownList [])) (propSectionM .own packet rx limit pos refuse) (Clean s₀) fun _ => HasList s₀ := by
  refine (propSectionM_owns rfl).conseq (fun _ h => h) (fun _ h => h.clean) ?_
  rintro _ s ⟨new, h, -⟩
  rw [update_ownList] at h
  exact ⟨new, h⟩

theorem freeOwn {err : PropState → Prop} :
    Triple (HasList s₀) (freeProps .own) err fun _ => Owns s₀ (ownList []) := by
  refine .exists_pre fun l => (freeProps_owns rfl).conseq (fun _ h => h) (fun _ h => h) fun _ s h => ?_
  rwa [update_ownList] at h

/-- With the list given back, there are as many free elements as at the start. -/
theorem HasList.freed {s : PropState} (h : HasList s₀ s) : (freeProps .own s).2.room = s₀.room := by
  have hfree : Triple (HasList s₀) (freeProps .own) (fun _ => True) fun _ => Owns s₀ (ownList []) := freeOwn
  exact (hfree.of_run h rfl).clean.room

theorem HasList.room_of_null {s : PropState} (h : HasList s₀ s) (hnull : s.head .own = none) : s.room = s₀.room := by
  obtain ⟨l, h⟩ := h
  have hlinked := h.linked .own l rfl
  rw [hnull] at hlinked
  cases l with
  | nil => exact h.clean.room
  | cons i l => cases hlinked.1

/-- Giving the list back before failing. -/
theorem freeAndFail_clean {α : Type} {rc : Int} {post : α → PropState → Prop} :
    Triple (HasList s₀) (do freeProps .own; fail rc) (Clean s₀) post :=
  .bind freeOwn fun _ _ h => h.clean

theorem nullOwn {err : PropState → Prop} :
    Triple (Owns s₀ fun _ => none) (nullProps .own) err fun _ => Owns s₀ (ownList []) :=
  nullProps_owns (by simp)

theorem hasList_nil {s : PropState} (h : Owns s₀ (ownList []) s) : HasList s₀ s := ⟨[], h⟩

end Parts

/-! ### The decoders -/

section Decoders
variable {s₀ : PropState} {rx : Bytes}

theorem connectAckProps_owns (packetEnd pos : Nat) :
    Triple (Owns s₀ (ownList [])) (connectAckProps rx packetEnd pos) (Clean s₀) fun _ => HasList s₀ := by
  unfold connectAckProps
  refine .bind ownSection fun r => ?_
  exact .ite (fun _ => freeAndFail_clean) fun _ => .ret fun _ h => h

theorem decodeConnectAck_owns (level : Nat) :
    Triple (Owns s₀ fun _ => none) (decodeConnectAck level rx) (Clean s₀) fun _ => HasList s₀ := by
  unfold decodeConnectAck
  refine .ite (fun _ _ h => h.clean_start) fun _ => ?_
  refine .lift_bind (fun _ h => h.clean_start) fun header _ => ?_
  refine .ite (fun _ _ h => h.clean_start) fun _ => .ite (fun _ _ h => h.clean_start) fun _ => ?_
  refine .lift_bind (fun _ h => h.clean_start) fun flags _ => ?_
  refine .lift_bind (fun _ h => h.clean_start) fun returnCode _ => ?_
  refine .ite (fun _ _ h => h.clean_start) fun _ => .ite (fun _ _ h => h.clean_start) fun _ => ?_
  refine .bind nullOwn fun _ => ?_
  refine .ite (fun _ => ?_) fun _ => ?_
  · exact .bind (connectAckProps_owns _ _) fun _ => viewProps_bind fun _ => .ret fun _ h => h
  · exact viewProps_bind fun _ => .ret fun _ => hasList_nil

theorem publishPropsM_owns (level topicLen pos : Nat) :
    Triple (Owns s₀ (ownList [])) (publishPropsM level rx topicLen pos) (Clean s₀) fun _ => HasList s₀ := by
  unfold publishPropsM
  refine .ite (fun _ => .ite (fun _ _ h => h.clean) fun _ => ?_) fun _ => .ret fun _ => hasList_nil
  refine .bind ownSection fun r => viewProps_bind fun _ => ?_
  exact .ite (fun _ => freeAndFail_clean) fun _ => .ret fun _ h => h

theorem decodePublish_owns (level : Nat) :
    Triple (Owns s₀ fun _ => none) (decodePublish level rx) (Clean s₀) fun _ => HasList s₀ := by
  unfold decodePublish
  refine .ite (fun _ _ h => h.clean_start) fun _ => ?_
  refine .lift_bind (fun _ h => h.clean_start) fun header _ => ?_
  refine .lift_bind (fun _ h => h.clean_start) fun topic _ => ?_
  refine .ite (fun _ _ h => h.clean_start) fun _ => .ite (fun _ _ h => h.clean_start) fun _ => ?_
  refine .lift_bind (fun _ h => h.clean_start) fun id _ => ?_
  refine .bind nullOwn fun _ => .bind (publishPropsM_owns level topic.len id.2) fun r => ?_
  exact .ite (fun _ => freeAndFail_clean) fun _ => viewProps_bind fun _ => .ret fun _ h => h

theorem reasonAndProps_owns (packet : PacketType) (pos left : Nat) :
    Triple (Owns s₀ (ownList [])) (reasonAndProps packet rx pos left) (Clean s₀) fun _ => HasList s₀ := by
  unfold reasonAndProps
  refine .ite (fun _ => .ite (fun _ _ h => h.clean) fun _ => ?_) fun _ => .ret fun _ => hasList_nil
  refine .lift_bind (fun _ h => h.clean) fun reason _ => ?_
  refine .ite (fun _ => .ite (fun _ _ h => h.clean) fun _ => ?_) fun _ => .ret fun _ => hasList_nil
  exact .bind ownSection fun r => .ret fun _ h => h

theorem decodePublishResp_owns (type : PacketType) (level : Nat) :
    Triple (Owns s₀ fun _ => none) (decodePublishResp type level rx) (Clean s₀) fun _ => HasList s₀ := by
  unfold decodePublishResp
  refine .ite (fun _ _ h => h.clean_start) fun _ => ?_
  refine .lift_bind (fun _ h => h.clean_start) fun header _ => ?_
  refine .ite (fun _ _ h => h.clean_start) fun _ => ?_
  refine .lift_bind (fun _ h => h.clean_start) fun packetId _ => ?_
  refine .ite (fun _ _ h => h.clean_start) fun _ => ?_
  refine .bind nullOwn fun _ => ?_
  refine .ite (fun _ => ?_) fun _ => ?_
  · refine .bind (reasonAndProps_owns type _ _) fun r => .pure_bind ?_
    exact viewProps_bind fun _ => .ret fun _ h => h
  · refine .pure_bind ?_
    exact viewProps_bind fun _ => .ret fun _ => hasList_nil

theorem decodeTopics_owns (type : PacketType) (scan : Bytes → Nat → Nat → Except Fault (TopicView × Nat)) (level : Nat) :
    Triple (Owns s₀ fun _ => none) (decodeTopics type scan level rx) (Clean s₀) fun _ => HasList s₀ := by
  unfold decodeTopics
  have htopics (limit : Nat) (pos : Nat) :
      Triple (HasList s₀) (onError (lift (scanTopics (scan rx limit) limit pos)) (freeProps .own)) (Clean s₀)
        fun _ => HasList s₀ :=
    .onError (.lift (fun _ h => h) fun _ _ _ h => h) (freeOwn.conseq (fun _ h => h) (fun _ h => h) fun _ _ h => h.clean)
  refine .ite (fun _ _ h => h.clean_start) fun _ => ?_
  refine .lift_bind (fun _ h => h.clean_start) fun header _ => ?_
  refine .ite (fun _ _ h => h.clean_start) fun _ => ?_
  refine .lift_bind (fun _ h => h.clean_start) fun packetId _ => ?_
  refine .ite (fun _ _ h => h.clean_start) fun _ => ?_
  refine .bind nullOwn fun _ => ?_
  refine .ite (fun _ => .ite (fun _ _ h => h.clean) fun _ => ?_) fun _ => ?_
  · refine .bind ownSection fun r => .pure_bind ?_
    exact .bind (htopics _ _) fun _ => viewProps_bind fun _ => .ret fun _ h => h
  · refine .pure_bind (.bind ((htopics _ _).conseq (fun _ => hasList_nil) (fun _ h => h) fun _ _ h => h) fun _ => ?_)
    exact viewProps_bind fun _ => .ret fun _ h => h

theorem decodeSubscribeAck_owns (level : Nat) :
    Triple (Owns s₀ fun _ => none) (decodeSubscribeAck level rx) (Clean s₀) fun _ => HasList s₀ := by
  unfold decodeSubscribeAck
  refine .ite (fun _ _ h => h.clean_start) fun _ => ?_
  refine .lift_bind (fun _ h => h.clean_start) fun header _ => ?_
  refine .ite (fun _ _ h => h.clean_start) fun _ => ?_
  refine .lift_bind (fun _ h => h.clean_start) fun packetId _ => ?_
  refine .bind nullOwn fun _ => ?_
  extract_lets pos tail
  have htail : ∀ stop, Triple (HasList s₀) (tail stop) (Clean s₀) fun _ => HasList s₀ := by
    intro stop
    refine .ite (fun _ => freeAndFail_clean) fun _ => .ite (fun _ => freeAndFail_clean) fun _ => ?_
    refine .ite (fun _ => freeAndFail_clean) fun _ => ?_
    exact viewProps_bind fun _ => .ret fun _ h => h
  refine .ite (fun _ => .ite (fun _ _ h => h.clean) fun _ => ?_) fun _ => ?_
  · exact .bind ownSection fun r => .pure_bind (htail _)
  · exact .pure_bind ((htail _).conseq (fun _ => hasList_nil) (fun _ h => h) fun _ _ h => h)

theorem unsubscribeAckReasons_owns {packetEnd pos left : Nat} (hend : packetEnd < 4294967296) (hpos : pos ≤ packetEnd) :
    Triple (Owns s₀ (ownList [])) (unsubscribeAckReasons rx packetEnd pos left) (Clean s₀) fun _ => HasList s₀ := by
  unfold unsubscribeAckReasons
  extract_lets tail
  have htail : ∀ stop ≤ packetEnd, Triple (HasList s₀) (tail stop) (Clean s₀) fun _ => HasList s₀ := by
    intro stop hstop
    refine .ite (fun hover => absurd hstop (Nat.not_le.mpr hover)) fun _ => ?_
    exact .ite (fun _ => freeAndFail_clean) fun _ => .ret fun _ h => h
  refine .ite (fun _ => ?_) fun _ => ?_
  · -- a list that is accepted cannot end behind the packet
    refine .bind ((ownSection.and propSectionM_ends).conseq (fun s h => ⟨h, h.linked .own [] rfl⟩) (fun _ h => h.1)
      fun _ _ h => h) fun r => .pure_bind fun s h => ?_
    obtain ⟨hlist, len, n, hvbi, hrefuse, rfl⟩ := h
    refine htail _ ?_ s hlist
    have hn := scanVbi_le hvbi
    rw [wordDiff_of_le hpos hend] at hn
    unfold refuseOver at hrefuse
    split at hrefuse
    next hlen =>
      rw [wordDiff_of_le (by omega) hend] at hlen
      dsimp only
      omega
    next => cases hrefuse
  · exact .pure_bind ((htail _ hpos).conseq (fun _ => hasList_nil) (fun _ h => h) fun _ _ h => h)

theorem decodeUnsubscribeAck_owns (hrx : rx.length < 2147483648) (level : Nat) :
    Triple (Owns s₀ fun _ => none) (decodeUnsubscribeAck level rx) (Clean s₀) fun _ => HasList s₀ := by
  unfold decodeUnsubscribeAck
  refine .ite (fun _ _ h => h.clean_start) fun _ => ?_
  refine .lift_bind (fun _ h => h.clean_start) fun header _ => ?_
  refine .ite (fun _ _ h => h.clean_start) fun hend => .ite (fun _ _ h => h.clean_start) fun hshort => ?_
  refine .lift_bind (fun _ h => h.clean_start) fun packetId _ => ?_
  refine .bind nullOwn fun _ => ?_
  refine .ite (fun hlevel => ?_) fun _ => ?_
  · rw [if_pos hlevel] at hshort
    refine .bind (unsubscribeAckReasons_owns (by omega) (by omega)) fun codes => .pure_bind ?_
    exact viewProps_bind fun _ => .ret fun _ h => h
  · refine .pure_bind ?_
    exact viewProps_bind fun _ => .ret fun _ => hasList_nil

theorem decodeDisconnect_owns :
    Triple (Owns s₀ fun _ => none) (decodeDisconnect rx) (Clean s₀) fun _ => HasList s₀ := by
  unfold decodeDisconnect
  refine .ite (fun _ _ h => h.clean_start) fun _ => ?_
  refine .lift_bind (fun _ h => h.clean_start) fun header _ => ?_
  refine .bind nullOwn fun _ => .bind (reasonAndProps_owns .disconnect _ _) fun r => ?_
  exact viewProps_bind fun _ => .ret fun _ h => h

/-- An AUTH without properties fails, and then there is nothing to give back. -/
theorem authReason_owns (pos : Nat) :
    Triple (Owns s₀ (ownList [])) (authReason rx pos) (Clean s₀) fun _ => HasList s₀ := by
  unfold authReason
  refine .ite (fun _ _ h => h.clean) fun _ => ?_
  refine .lift_bind (fun _ h => h.clean) fun reason _ => ?_
  refine .ite (fun _ => .ite (fun _ _ h => h.clean) fun _ => ?_) fun _ _ h => h.clean
  refine .bind ((propSectionM_owns rfl).conseq (fun _ h => h) (fun _ h => h.clean) fun _ _ h => h) fun r s h => ?_
  obtain ⟨new, h, hempty⟩ := h
  rw [update_ownList] at h
  show Attempt.Ends _ _ ((if (s.views .own).isEmpty then fail Code.malformedData else pure (reason, r.2) : DecodeM _) s)
  cases hviews : s.views .own with
  | nil =>
    rw [hempty hviews] at h
    exact h.clean
  | cons v vs => exact ⟨new, h⟩

theorem decodeAuth_owns :
    Triple (Owns s₀ fun _ => none) (decodeAuth rx) (Clean s₀) fun _ => HasList s₀ := by
  unfold decodeAuth
  refine .ite (fun _ _ h => h.clean_start) fun _ => ?_
  refine .lift_bind (fun _ h => h.clean_start) fun header _ => ?_
  refine .bind nullOwn fun _ => .ite (fun _ => ?_) fun _ => ?_
  · refine .bind (authReason_owns _) fun r => ?_
    exact viewProps_bind fun _ => .ret fun _ h => h
  · refine .pure_bind ?_
    exact viewProps_bind fun _ => .ret fun _ => hasList_nil

/-! ### CONNECT -/

/-- The lists of a CONNECT: that of the will only if there is one and somewhere to put it. -/
def connectLists (hasWill : Bool) (a b : List Nat) : Lists
  | .own => some a
  | .will => if hasWill then some b else none

theorem update_connectLists_own (hasWill : Bool) (a b a' : List Nat) :
    update (connectLists hasWill a b) .own (some a') = connectLists hasWill a' b := by
  funext w
  cases w <;> rfl

theorem update_connectLists_will (a b b' : List Nat) :
    update (connectLists true a b) .will (some b') = connectLists true a b' := by
  funext w
  cases w <;> rfl

/-- The lists of a CONNECT, wherever its decoder stands. -/
def HasLists (s₀ : PropState) (hasWill : Bool) (s : PropState) : Prop := ∃ a b, Owns s₀ (connectLists hasWill a b) s

theorem connectPropsM_owns {L : Lists} {w : Whose} (hw : L w = some []) (level : UInt8) (pos : Nat) :
    Triple (Owns s₀ L) (connectPropsM w level rx pos) (Owns s₀ L) fun _ s =>
      ∃ new, Owns s₀ (update L w (some new)) s := by
  unfold connectPropsM
  refine .ite (fun _ => .ite (fun _ _ h => h) fun _ => ?_) fun _ => .ret fun s h => ?_
  · refine .bind (propSectionM_owns hw) fun r => .ret ?_
    rintro s ⟨new, h, -⟩
    exact ⟨new, h⟩
  · refine ⟨[], ?_⟩
    rwa [← hw, Function.update_eq_self]

theorem connectWillM_owns (level flags : UInt8) (limit pos : Nat) (a : List Nat) :
    Triple (Owns s₀ (connectLists true a [])) (connectWillM true level flags rx limit pos) (HasLists s₀ true)
      fun _ => HasLists s₀ true := by
  have hprops := @connectPropsM_owns s₀ rx (connectLists true a []) .will rfl level pos
  unfold connectWillM
  refine .ite (fun hnone => by cases hnone) fun _ => ?_
  refine .bind (hprops.conseq (fun _ h => h) (fun _ h => ⟨a, [], h⟩) fun _ _ h => h) fun pos => ?_
  have hlists : ∀ s, (∃ new, Owns s₀ (update (connectLists true a []) .will (some new)) s) → HasLists s₀ true s := by
    rintro s ⟨b, h⟩
    rw [update_connectLists_will] at h
    exact ⟨a, b, h⟩
  refine viewProps_bind fun props => ?_
  refine Triple.weaken ?_ hlists
  refine .ite (fun _ _ h => h) fun _ => ?_
  refine .lift_bind (fun _ h => h) fun topic _ => ?_
  refine .ite (fun _ _ h => h) fun _ => ?_
  exact .lift_bind (fun _ h => h) fun buffer _ => .ret fun _ h => h

theorem connectPayloadM_owns (hasLwt : Bool) (level flags : UInt8) (keepAlive limit pos : Nat) :
    Triple (Owns s₀ (connectLists (flags &&& 0x04 ≠ 0 && hasLwt) [] []))
      (connectPayloadM hasLwt level flags keepAlive rx limit pos) (HasLists s₀ (flags &&& 0x04 ≠ 0 && hasLwt))
      fun _ => HasLists s₀ (flags &&& 0x04 ≠ 0 && hasLwt) := by
  unfold connectPayloadM
  generalize hwill : (flags &&& 0x04 ≠ 0 && hasLwt : Bool) = hasWill
  have hown := @connectPropsM_owns s₀ rx (connectLists hasWill [] []) .own rfl level pos
  refine .bind (hown.conseq (fun _ h => h) (fun _ h => ⟨[], [], h⟩) fun _ _ h => h) fun pos => .exists_pre fun a => ?_
  rw [update_connectLists_own]
  have hlists : ∀ s, Owns s₀ (connectLists hasWill a []) s → HasLists s₀ hasWill s := fun s h => ⟨a, [], h⟩
  refine viewProps_bind fun props => .lift_bind hlists fun ⟨clientId, pos⟩ _ => ?_
  dsimp -zeta only
  extract_lets tail
  have htail : ∀ x, Triple (HasLists s₀ hasWill) (tail x) (HasLists s₀ hasWill) fun _ => HasLists s₀ hasWill := by
    intro x
    refine .lift_bind (fun _ h => h) fun username _ => .lift_bind (fun _ h => h) fun password _ => ?_
    exact .ite (fun _ _ h => h) fun _ => .ret fun _ h => h
  refine .ite (fun hflag => ?_) fun _ => ?_
  · cases hasLwt with
    | false => exact hlists
    | true =>
      obtain rfl : hasWill = true := by simpa [hflag] using hwill.symm
      exact .bind (connectWillM_owns level flags limit _ a) fun will => .pure_bind (htail _)
  · exact .pure_bind ((htail _).conseq hlists (fun _ h => h) fun _ _ h => h)

theorem connectNull_owns (hasLwt : Bool) (flags : UInt8) {err : PropState → Prop} :
    Triple (Owns s₀ fun _ => none) (connectNull hasLwt flags) err fun _ =>
      Owns s₀ (connectLists (flags &&& 0x04 ≠ 0 && hasLwt) [] []) := by
  unfold connectNull
  refine .bind (nullProps_owns (by simp)) fun _ => ?_
  refine .ite (fun hwill => ?_) fun hnone => .ret fun s h => ?_
  · refine (nullProps_owns (by simp)).conseq (fun _ h => h) (fun _ h => h) fun _ s h => ?_
    rw [hwill]
    convert h using 1
    funext w
    cases w <;> rfl
  · rw [Bool.not_eq_true] at hnone
    rw [hnone]
    convert h using 1
    funext w
    cases w <;> rfl

theorem connectCleanup_clean (hasLwt : Bool) (flags : UInt8) :
    Triple (HasLists s₀ (flags &&& 0x04 ≠ 0 && hasLwt)) (connectCleanup hasLwt flags) (Clean s₀) fun _ => Clean s₀ := by
  unfold connectCleanup
  generalize (flags &&& 0x04 ≠ 0 && hasLwt : Bool) = hasWill
  refine .exists_pre fun a => .exists_pre fun b => .bind (freeProps_owns rfl) fun _ => ?_
  rw [update_connectLists_own]
  cases hasWill with
  | true =>
    refine .ite (fun _ => ?_) fun hnone => absurd rfl hnone
    refine (freeProps_owns rfl).conseq (fun _ h => h) (fun _ h => h) fun _ s h => ⟨_, fun w l hl => ?_, h⟩
    rw [update_connectLists_will] at hl
    cases w <;> cases hl <;> rfl
  | false =>
    refine .ite (fun hsome => by cases hsome) fun _ => .ret fun s h => ⟨_, fun w l hl => ?_, h⟩
    cases w <;> cases hl
    rfl

theorem decodeConnectM_owns (hasLwt : Bool) :
    Triple (Owns s₀ fun _ => none) (decodeConnectM hasLwt rx) (Clean s₀) fun _ s => ∃ hasWill, HasLists s₀ hasWill s := by
  unfold decodeConnectM
  refine .ite (fun _ _ h => h.clean_start) fun _ => ?_
  refine .lift_bind (fun _ h => h.clean_start) fun header _ => ?_
  refine .ite (fun _ _ h => h.clean_start) fun _ => .ite (fun _ _ h => h.clean_start) fun _ => ?_
  refine .lift_bind (fun _ h => h.clean_start) fun packet _ => ?_
  split
  next len₁ len₀ m q t t' level flags keep₁ keep₀ _ =>
    refine .ite (fun _ _ h => h.clean_start) fun _ => ?_
    refine .bind (connectNull_owns hasLwt flags) fun _ => .onError ?_ (connectCleanup_clean hasLwt flags)
    refine .ite (fun _ s h => ⟨[], [], h⟩) fun _ => ?_
    exact .bind (connectPayloadM_owns hasLwt level flags _ _ _) fun c => .ret fun _ h => ⟨_, h⟩
  next => exact fun _ h => h.clean_start

end Decoders

/-! ### All of them -/

/-- The decoders, each with what it is called for. -/
inductive Decoder where
  | connect (hasLwt : Bool)
  | connectAck (level : Nat)
  | publish (level : Nat)
  | publishResp (type : PacketType) (level : Nat)
  | subscribe (level : Nat)
  | subscribeAck (level : Nat)
  | unsubscribe (level : Nat)
  | unsubscribeAck (level : Nat)
  | disconnect
  | auth
deriving Repr, DecidableEq

def Decoder.run (rx : Bytes) : Decoder → DecodeM Unit
  | connect hasLwt => do let _ ← decodeConnectM hasLwt rx
  | connectAck level => do let _ ← decodeConnectAck level rx
  | publish level => do let _ ← decodePublish level rx
  | publishResp type level => do let _ ← decodePublishResp type level rx
  | subscribe level => do let _ ← decodeSubscribe level rx
  | subscribeAck level => do let _ ← decodeSubscribeAck level rx
  | unsubscribe level => do let _ ← decodeUnsubscribe level rx
  | unsubscribeAck level => do let _ ← decodeUnsubscribeAck level rx
  | disconnect => do let _ ← decodeDisconnect rx
  | auth => do let _ ← decodeAuth rx

/-- The pool is as it was, and so are the pointers that are not NULL. -/
structure Untouched (s s' : PropState) : Prop where
  inUse : ∀ i, Used s'.pool i ↔ Used s.pool i
  kept : ∀ i, Used s.pool i → s'.pool[i]? = s.pool[i]?
  null : ∀ w, s'.head w = s.head w ∨ s'.head w = none

/-- The lists `L` hang on the pointers, and are all that has come into use. -/
structure HandsOut (s s' : PropState) (L : Lists) : Prop where
  pointers : ∀ w, match L w with
    | some l => Linked s'.pool (s'.head w) l
    | none => s'.head w = s.head w
  own : (L .own).isSome
  acyclic : ∀ w, ∀ l ∈ L w, l.Nodup
  apart : ∀ a ∈ L .own, ∀ b ∈ L .will, a.Disjoint b
  inUse : ∀ i, Used s'.pool i ↔ Used s.pool i ∨ ∃ w, ∃ l ∈ L w, i ∈ l
  fresh : ∀ w, ∀ l ∈ L w, ∀ i ∈ l, ¬Used s.pool i
  /-- A list that was there is still there, and has no element in common with these. -/
  live : ∀ head l, Linked s.pool head l → (∀ i ∈ l, Used s.pool i) →
    Linked s'.pool head l ∧ ∀ w, ∀ m ∈ L w, m.Disjoint l

theorem Owns.used_iff {s₀ s : PropState} {L : Lists} (h : Owns s₀ L s) (i : Nat) :
    Used s.pool i ↔ Used s₀.pool i ∨ ∃ w, ∃ l ∈ L w, i ∈ l := by
  constructor
  · intro hi
    by_cases hin : ∃ w, ∃ l ∈ L w, i ∈ l
    · exact .inr hin
    · obtain ⟨c, hc, -⟩ := id hi
      have hlt := (List.getElem?_eq_some_iff.mp hc).1
      rw [h.length] at hlt
      refine .inl ((used_or_free hlt).resolve_right fun hfree => ?_)
      exact hi.not_free (h.rest i hfree fun w l hl hil => hin ⟨w, l, hl, hil⟩)
  · rintro (hi | ⟨w, l, hl, hi⟩)
    · exact h.used_of_start hi
    · exact (h.taken w l hl i hi).2

theorem Clean.untouched {s₀ s : PropState} (h : Clean s₀ s) : Untouched s₀ s := by
  obtain ⟨L, hempty, h⟩ := h
  constructor
  · intro i
    rw [h.used_iff, or_iff_left]
    rintro ⟨w, l, hl, hi⟩
    rw [hempty w l hl] at hi
    cases hi
  · exact h.kept
  · intro w
    cases hw : L w with
    | none => exact .inl (h.unset w hw)
    | some l =>
      have hlinked := h.linked w l hw
      rw [hempty w l hw] at hlinked
      exact .inr hlinked

theorem Owns.handsOut {s₀ s : PropState} {L : Lists} (h : Owns s₀ L s) (hown : (L .own).isSome) : HandsOut s₀ s L where
  pointers w := by
    cases hw : L w with
    | none => exact h.unset w hw
    | some l => exact h.linked w l hw
  own := hown
  acyclic w l hl := (h.linked w l hl).nodup
  apart := h.apart
  inUse := h.used_iff
  fresh w l hl i hi hused := hused.not_free (h.taken w l hl i hi).1
  live head l hlinked hused := by
    refine ⟨hlinked.congr fun i hi => by rw [h.kept i (hused i hi)], fun w m hm i hi hil => ?_⟩
    exact (hused i hil).not_free (h.taken w m hm i hi).1

theorem HasList.handsOut {s₀ s : PropState} (h : HasList s₀ s) : ∃ L, HandsOut s₀ s L := by
  obtain ⟨l, h⟩ := h
  exact ⟨_, h.handsOut rfl⟩

/-- What a decoder owes the pool. -/
def PoolSafe {α : Type} (m : DecodeM α) : Prop := ∀ s,
  match m s with
  | (.error _, s') => Untouched s s'
  | (.ok _, s') => ∃ L, HandsOut s s' L

theorem PoolSafe.of_owns {α β : Type} {m : DecodeM α} {f : α → β} {Q : PropState → PropState → Prop}
    (h : ∀ s₀, Triple (Owns s₀ fun _ => none) m (Clean s₀) fun _ => Q s₀) (hQ : ∀ s₀ s, Q s₀ s → ∃ L, HandsOut s₀ s L) :
    PoolSafe (m >>= fun a => pure (f a)) := by
  intro s
  have hends := h s s (.start s)
  rw [Attempt.run_bind]
  rcases hrun : m s with ⟨_ | a, s'⟩ <;> rw [hrun] at hends
  · exact hends.untouched
  · exact hQ s s' hends

/-- A decoder that fails leaves the pool as it was, and its pointers NULL; one that succeeds has taken just what hangs
on its pointers. -/
theorem Decoder.pool_safe (d : Decoder) (rx : Bytes) (hrx : rx.length < 2147483648) : PoolSafe (d.run rx) := by
  cases d with
  | connect hasLwt =>
    refine .of_owns (fun s₀ => decodeConnectM_owns hasLwt) fun s₀ s hlists => ?_
    obtain ⟨hasWill, a, b, h⟩ := hlists
    exact ⟨_, h.handsOut rfl⟩
  | connectAck level => exact .of_owns (fun s₀ => decodeConnectAck_owns level) fun _ _ => HasList.handsOut
  | publish level => exact .of_owns (fun s₀ => decodePublish_owns level) fun _ _ => HasList.handsOut
  | publishResp type level => exact .of_owns (fun s₀ => decodePublishResp_owns type level) fun _ _ => HasList.handsOut
  | subscribe level => exact .of_owns (fun s₀ => decodeTopics_owns _ _ level) fun _ _ => HasList.handsOut
  | subscribeAck level => exact .of_owns (fun s₀ => decodeSubscribeAck_owns level) fun _ _ => HasList.handsOut
  | unsubscribe level => exact .of_owns (fun s₀ => decodeTopics_owns _ _ level) fun _ _ => HasList.handsOut
  | unsubscribeAck level => exact .of_owns (fun s₀ => decodeUnsubscribeAck_owns hrx level) fun _ _ => HasList.handsOut
  | disconnect => exact .of_owns (fun s₀ => decodeDisconnect_owns) fun _ _ => HasList.handsOut
  | auth => exact .of_owns (fun s₀ => decodeAuth_owns) fun _ _ => HasList.handsOut

/-- A DISCONNECT with a Reason String and a User Property. -/
def fullDisconnect : Bytes := [0xE0, 13, 0x8E, 11, 0x1F, 0, 1, 0x78, 0x26, 0, 1, 0x6B, 0, 1, 0x76]

/-- One with a Reason String and a Topic Alias, which no DISCONNECT may have. -/
def badDisconnect : Bytes := [0xE0, 9, 0x8E, 7, 0x1F, 0, 1, 0x78, 0x23, 0, 1]

def threeFree : PropState := {pool := List.replicate 3 {item := {}}}

/-- The first takes two elements of the pool. The second is refused when it has taken one, and has written to it by
then. -/
theorem decoder_pool_safe_disconnect :
    (∃ L, HandsOut threeFree (Decoder.disconnect.run fullDisconnect threeFree).2 L) ∧
      (Decoder.disconnect.run fullDisconnect threeFree).2.room = 1 ∧
      Untouched threeFree (Decoder.disconnect.run badDisconnect threeFree).2 ∧
      (Decoder.disconnect.run badDisconnect threeFree).2.pool ≠ threeFree.pool := by
  have hfull := Decoder.disconnect.pool_safe fullDisconnect (by decide) threeFree
  have hbad := Decoder.disconnect.pool_safe badDisconnect (by decide) threeFree
  have htaken : (Decoder.disconnect.run fullDisconnect threeFree).1 = .ok () := by decide +kernel
  have hrefused : (Decoder.disconnect.run badDisconnect threeFree).1.toBool = false := by decide +kernel
  refine ⟨?_, by decide +kernel, ?_, by decide +kernel⟩
  · rw [show Decoder.disconnect.run fullDisconnect threeFree = (.ok (), _) from Prod.ext htaken rfl] at hfull
    exact hfull
  · rcases hrun : Decoder.disconnect.run badDisconnect threeFree with ⟨e | a, s'⟩
    · rw [hrun] at hbad
      exact hbad
    · rw [hrun] at hrefused
      cases hrefused

end WolfMqtt
