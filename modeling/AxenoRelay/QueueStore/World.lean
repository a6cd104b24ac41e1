/-
  Any number of calls on one queue store, interleaved.

  Ids of new envelopes are fresh and mailbox names are accepted; nothing else
  limits when a call starts or steps. `WorldOk` is what holds in every run: a row
  on disk belongs to an id that no task is going to write (`Past`), two tasks never
  write one id, and the rows an enqueue chose to evict can only disappear.
-/
import AxenoRelay.QueueStore.Tasks
import AxenoRelay.QueueStore.Fifo
import Mathlib

namespace AxenoRelay

open Interleave QueueStore

/-- The store, and the envelope ids in use so far. -/
structure QueueWorld (U : Type) where
  store : QueueStore
  used : List U

/-- A new call, or a step of one. -/
inductive QueueMove (U : Type) where
  | start (t : QueueTask U)
  | run (e : StoreEvent)

abbrev QueueConfig (U : Type) := Config (QueueWorld U) (QueueTask U)

section Past

variable {U : Type}

/-- A call may start if its mailbox name is accepted and its envelope id is fresh. -/
def Admits (w : QueueWorld U) (t : QueueTask U) : Prop :=
  t.starts = true ∧ (∀ m ∈ t.mailbox, NameOk m) ∧ ∀ id ∈ t.pendingId, id ∉ w.used

/-- No call is in flight. -/
def Quiet (c : QueueConfig U) : Prop := ∀ t ∈ c.pool, t.finished = true

instance (c : QueueConfig U) : Decidable (Quiet c) :=
  inferInstanceAs (Decidable (∀ t ∈ c.pool, t.finished = true))

/-- An id in use that no task is going to write. -/
def Past (c : QueueConfig U) (id : U) : Prop :=
  id ∈ c.shared.used ∧ ∀ t ∈ c.pool, t.pendingId ≠ some id

theorem Past.spawn {c : QueueConfig U} {t : QueueTask U} (ha : Admits c.shared t) {id : U}
    (h : Past c id) :
    Past ⟨{ c.shared with used := t.pendingId.toList ++ c.shared.used }, c.pool ++ [t]⟩ id := by
  refine ⟨List.mem_append_right _ h.1, ?_⟩
  intro u hu hid
  rcases List.mem_append.mp hu with hu | hu
  · exact h.2 u hu hid
  · rw [List.mem_singleton.mp hu] at hid
    exact ha.2.2 id hid h.1

end Past

/-- A database just opened, with no call in flight; `used` has the ids stored in it. -/
def freshQueue {U : Type} (t : Envelopes) (used : List U) : QueueConfig U :=
  ⟨⟨QueueStore.ofTable t, used⟩, []⟩

/-- Every row of the table was made by `key_for` from a used id. -/
def UsedIds {U : Type} [UuidText U] (t : Envelopes) (used : List U) : Prop :=
  ∀ k v, t.get k = some v → ∃ m, ∃ id ∈ used, NameOk m ∧ k = keyFor m id

section Machine

variable {U : Type} [UuidText U] [DecidableEq U]

instance (w : QueueWorld U) : DecidablePred (Admits w) := fun _ =>
  inferInstanceAs (Decidable (_ ∧ _ ∧ _))

def queueMachine (U : Type) [UuidText U] [DecidableEq U] :
    Machine (QueueWorld U) (QueueTask U) (QueueMove U) where
  spawn
    | .start t, w =>
      if Admits w t then some (t, { w with used := t.pendingId.toList ++ w.used }) else none
    | .run _, _ => none
  step
    | .run e, t, w => (t.step e w.store).map fun r => (r.1, { w with store := r.2 })
    | .start _, _, _ => none
  env _ _ := none

end Machine

section World

variable {U : Type} [UuidText U]

/-! ## What holds in every run -/

/-- What a task's locals say about the table. -/
def Sane (c : QueueConfig U) : QueueTask U → Prop
  | .enqIndex _ env v | .enqRead _ env v => v.c = env.ciphertext
  | .enqWrite m env v ids b =>
    v.c = env.ciphertext ∧ ∃ rows : List (U × StoredValue), ids = rows.map Prod.fst ∧
      b = rowBytes rows ∧ (rows.map Prod.fst).Nodup ∧ ∀ r ∈ rows, Past c r.1 ∧
        ∀ w, c.shared.store.envelopes.get (keyFor m r.1) = some w → w = r.2
  | .ackSub _ r f => r = 0 → f = 0
  | _ => True

structure WorldOk (c : QueueConfig U) : Prop where
  rows : ∀ k v, c.shared.store.envelopes.get k = some v →
    ∃ m, ∃ id : U, NameOk m ∧ k = keyFor m id ∧ Past c id
  names : ∀ t ∈ c.pool, ∀ m, t.mailbox = some m → NameOk m
  pending : ∀ t ∈ c.pool, ∀ id, t.pendingId = some id → id ∈ c.shared.used
  apart : ∀ (i j : Nat) (t t' : QueueTask U) (id : U), c.pool[i]? = some t → c.pool[j]? = some t' → t.pendingId = some id →
    t'.pendingId = some id → i = j
  sane : ∀ t ∈ c.pool, Sane c t

theorem WorldOk.keys {c : QueueConfig U} (h : WorldOk c) :
    KeysOk U c.shared.store.envelopes := by
  intro k v hk
  obtain ⟨m, id, hm, he, _⟩ := h.rows k v hk
  exact ⟨m, id, hm, he⟩

/-- The row of an id on disk is no task's business any more. -/
theorem WorldOk.past {c : QueueConfig U} (h : WorldOk c) {m : String} (hm : NameOk m) {id : U}
    {v : StoredValue} (hget : c.shared.store.envelopes.get (keyFor m id) = some v) :
    Past c id := by
  obtain ⟨n, id', hn, he, hp⟩ := h.rows _ v hget
  rw [(keyFor_inj hm hn he).2]
  exact hp

theorem WorldOk.fresh {c : QueueConfig U} (h : WorldOk c) {t : QueueTask U} (ht : t ∈ c.pool)
    {m : String} (hm : NameOk m) {id : U} (hid : t.pendingId = some id) :
    c.shared.store.envelopes.get (keyFor m id) = none := by
  cases hget : c.shared.store.envelopes.get (keyFor m id) with
  | none => rfl
  | some v => exact absurd hid ((h.past hm hget).2 t ht)

theorem stepped_pendingId {e : StoreEvent} {t t' : QueueTask U} {st st' : QueueStore}
    (h : t.Stepped e st t' st') {id : U} (hid : t'.pendingId = some id) : t.pendingId = some id := by
  cases h <;> first | exact hid | cases hid

theorem stepped_mailbox {e : StoreEvent} {t t' : QueueTask U} {st st' : QueueStore}
    (h : t.Stepped e st t' st') {m : String} (hm : t'.mailbox = some m) : t.mailbox = some m := by
  cases h <;> first | exact hm | cases hm

/-- A row after a step was there before, or the step is the write of an enqueue. -/
theorem stepped_rows {e : StoreEvent} {t t' : QueueTask U} {st st' : QueueStore}
    (h : t.Stepped e st t' st') {k : String} {v : StoredValue}
    (hk : st'.envelopes.get k = some v) :
    st.envelopes.get k = some v ∨
      ∃ m env val ids b, t = .enqWrite m env val ids b ∧ k = keyFor m env.id ∧
        t'.pendingId = none := by
  cases h with
  | write m env val ids b =>
    rw [enqueueTable, OrdMap.get_insert, OrdMap.get_eraseAll] at hk
    split_ifs at hk with h1 h2
    · exact Or.inr ⟨m, env, val, ids, b, rfl, h1, rfl⟩
    · exact Or.inl hk
  | ack m ids =>
    rw [OrdMap.get_eraseAll] at hk
    split_ifs at hk
    exact Or.inl hk
  | purge m =>
    rw [purgeTable, OrdMap.get_filter, Option.filter_eq_some_iff] at hk
    exact Or.inl hk.1
  | sweep =>
    rw [sweepTable, OrdMap.get_filter, Option.filter_eq_some_iff] at hk
    exact Or.inl hk.1
  | ackUpdate m r f =>
    left
    unfold indexSub at hk
    split at hk <;> exact hk
  | sweepUpdate n rest m c b =>
    left
    unfold indexSub at hk
    split at hk <;> exact hk
  | _ => exact Or.inl hk

theorem Past.act {c : QueueConfig U} {i : Nat} {t t' : QueueTask U} {st' : QueueStore}
    {e : StoreEvent} (ht : c.pool[i]? = some t) (hs : t.Stepped e c.shared.store t' st') {id : U}
    (h : Past c id) :
    Past ⟨{ c.shared with store := st' }, c.pool.set i t'⟩ id := by
  refine ⟨h.1, ?_⟩
  intro u hu hid
  rcases mem_set_cases hu with rfl | hu
  · exact h.2 t (List.mem_of_getElem? ht) (stepped_pendingId hs hid)
  · exact h.2 u hu hid

/-- A task's locals stay true when another task moves. -/
theorem Sane.act {c : QueueConfig U} (hc : WorldOk c) {i : Nat} {t t' : QueueTask U}
    {st' : QueueStore} {e : StoreEvent} (ht : c.pool[i]? = some t)
    (hs : t.Stepped e c.shared.store t' st') {u : QueueTask U} (hu : u ∈ c.pool)
    (h : Sane c u) : Sane ⟨{ c.shared with store := st' }, c.pool.set i t'⟩ u := by
  cases u with
  | enqWrite m env v ids b =>
    obtain ⟨hv, rows, hids, hb, hnd, hrows⟩ := h
    refine ⟨hv, rows, hids, hb, hnd, ?_⟩
    intro r hr
    obtain ⟨hpast, hval⟩ := hrows r hr
    refine ⟨hpast.act ht hs, ?_⟩
    intro w hw
    rcases stepped_rows hs hw with hw | ⟨m', env', val, ids', b', rfl, hk, _⟩
    · exact hval w hw
    · -- the new row's id was still to be written, so it is not one of `rows`
      have hmem := List.mem_of_getElem? ht
      have he := keyFor_inj (hc.names _ hu m rfl) (hc.names _ hmem m' rfl) hk
      exact absurd (congrArg some he.2.symm) (hpast.2 _ hmem)
  | _ => exact h

/-- The locals of the task that moved. -/
theorem sane_stepped {c : QueueConfig U} (hc : WorldOk c) {i : Nat} {t t' : QueueTask U}
    {st' : QueueStore} {e : StoreEvent} (ht : c.pool[i]? = some t)
    (hs : t.Stepped e c.shared.store t' st') :
    Sane ⟨{ c.shared with store := st' }, c.pool.set i t'⟩ t' := by
  have hmem := List.mem_of_getElem? ht
  have hsane := hc.sane t hmem
  have hname := hc.names t hmem
  have hpast : ∀ id, Past c id → Past ⟨{ c.shared with store := st' }, c.pool.set i t'⟩ id :=
    fun id h => h.act ht hs
  generalize hst : c.shared.store = st at hs
  cases hs with
  | seq m env => exact rfl
  | trip m env v => exact hsane
  | skip m env v =>
    refine ⟨hsane, [], rfl, rfl, List.nodup_nil, ?_⟩
    intro r hr
    cases hr
  | read m env v =>
    have hm := hname m rfl
    refine ⟨hsane, victimRows U m (len env.ciphertext) st'.envelopes, rfl, rfl,
      victimRows_ids_nodup (hst ▸ hc.keys) hm _, ?_⟩
    intro r hr
    have hget := mem_victimRows (hst ▸ hc.keys) hm hr
    refine ⟨hpast _ (hc.past hm (hst ▸ hget)), ?_⟩
    intro w hw
    rw [hget] at hw
    exact (Option.some.inj hw).symm
  | ack m ids => exact @ackFold_zero _ _ m ids _ (0, 0)
  | _ => trivial

theorem worldOk_act {c : QueueConfig U} (hc : WorldOk c) {i : Nat} {t t' : QueueTask U}
    {st' : QueueStore} {e : StoreEvent} (ht : c.pool[i]? = some t)
    (hs : t.Stepped e c.shared.store t' st') :
    WorldOk ⟨{ c.shared with store := st' }, c.pool.set i t'⟩ := by
  have hmem := List.mem_of_getElem? ht
  refine ⟨?_, ?_, ?_, ?_, ?_⟩
  · intro k v hk
    rcases stepped_rows hs hk with hk | ⟨m, env, val, ids, b, rfl, hkey, hnone⟩
    · obtain ⟨m, id, hm, he, hp⟩ := hc.rows k v hk
      exact ⟨m, id, hm, he, hp.act ht hs⟩
    · refine ⟨m, env.id, hc.names _ hmem m rfl, hkey, hc.pending _ hmem _ rfl, ?_⟩
      intro u hu hid
      obtain ⟨j, hj⟩ := List.mem_iff_getElem?.mp hu
      rcases getElem?_set_cases hj with ⟨rfl, rfl⟩ | ⟨hne, hj⟩
      · rw [hnone] at hid
        cases hid
      · exact hne (hc.apart j i u _ _ hj ht hid rfl)
  · intro u hu m hm
    rcases mem_set_cases hu with rfl | hu
    · exact hc.names t hmem m (stepped_mailbox hs hm)
    · exact hc.names u hu m hm
  · intro u hu id hid
    rcases mem_set_cases hu with rfl | hu
    · exact hc.pending t hmem id (stepped_pendingId hs hid)
    · exact hc.pending u hu id hid
  · intro j k u u' id hj hk hid hid'
    rcases getElem?_set_cases hj with ⟨rfl, rfl⟩ | ⟨_, hj'⟩ <;>
      rcases getElem?_set_cases hk with ⟨rfl, rfl⟩ | ⟨_, hk'⟩
    · rfl
    · exact hc.apart _ _ _ _ id ht hk' (stepped_pendingId hs hid) hid'
    · exact hc.apart _ _ _ _ id hj' ht hid (stepped_pendingId hs hid')
    · exact hc.apart _ _ _ _ id hj' hk' hid hid'
  · intro u hu
    rcases mem_set_cases hu with rfl | hu
    · exact sane_stepped hc ht hs
    · exact (hc.sane u hu).act hc ht hs hu

theorem worldOk_spawn {c : QueueConfig U} (hc : WorldOk c) {t : QueueTask U}
    (ha : Admits c.shared t) :
    WorldOk ⟨{ c.shared with used := t.pendingId.toList ++ c.shared.used }, c.pool ++ [t]⟩ := by
  have hpending : ∀ id, t.pendingId = some id → ∀ u ∈ c.pool, u.pendingId ≠ some id :=
    fun id hid u hu hid' => ha.2.2 id hid (hc.pending u hu id hid')
  refine ⟨?_, ?_, ?_, ?_, ?_⟩
  · intro k v hk
    obtain ⟨m, id, hm, he, hp⟩ := hc.rows k v hk
    exact ⟨m, id, hm, he, hp.spawn ha⟩
  · intro u hu m hm
    rcases List.mem_append.mp hu with hu | hu
    · exact hc.names u hu m hm
    · rw [List.mem_singleton.mp hu] at hm
      exact ha.2.1 m hm
  · intro u hu id hid
    rcases List.mem_append.mp hu with hu | hu
    · exact List.mem_append_right _ (hc.pending u hu id hid)
    · rw [List.mem_singleton.mp hu] at hid
      exact List.mem_append_left _ (by rw [hid]; exact List.mem_singleton_self id)
  · intro i j u u' id hi hj hid hid'
    rcases getElem?_snoc_cases hi with hi' | ⟨rfl, rfl⟩ <;>
      rcases getElem?_snoc_cases hj with hj' | ⟨rfl, rfl⟩
    · exact hc.apart i j u u' id hi' hj' hid hid'
    · exact absurd hid (hpending id hid' u (List.mem_of_getElem? hi'))
    · exact absurd hid' (hpending id hid u' (List.mem_of_getElem? hj'))
    · rfl
  · intro u hu
    rcases List.mem_append.mp hu with hu | hu
    · have hsane := hc.sane u hu
      cases u with
      | enqWrite m env v ids b =>
        obtain ⟨hv, rows, hids, hb, hnd, hrows⟩ := hsane
        exact ⟨hv, rows, hids, hb, hnd, fun r hr => ⟨(hrows r hr).1.spawn ha, (hrows r hr).2⟩⟩
      | _ => exact hsane
    · have hstart := ha.1
      rw [List.mem_singleton.mp hu]
      cases t <;> trivial

/-- A move starts an admitted call or steps one. -/
theorem queueMachine_next [DecidableEq U] {c c' : QueueConfig U} (hc : WorldOk c)
    {m : Move (QueueMove U)} (hn : (queueMachine U).next m c = some c') :
    (∃ t, m = .spawn (.start t) ∧ Admits c.shared t ∧
      c' = ⟨{ c.shared with used := t.pendingId.toList ++ c.shared.used }, c.pool ++ [t]⟩) ∨
    (∃ i e t t' st', m = .act i (.run e) ∧ c.pool[i]? = some t ∧
      t.Stepped e c.shared.store t' st' ∧
      c' = ⟨{ c.shared with store := st' }, c.pool.set i t'⟩) := by
  cases m with
  | spawn e =>
    obtain ⟨u, w, hspawn, rfl⟩ := next_spawn hn
    cases e with
    | start u' =>
      simp only [queueMachine] at hspawn
      split_ifs at hspawn with ha
      cases hspawn
      exact Or.inl ⟨u, rfl, ha, rfl⟩
    | run e => cases hspawn
  | act i e =>
    obtain ⟨u, u', w, hu, hstep, rfl⟩ := next_act hn
    cases e with
    | start _ => cases hstep
    | run e =>
      obtain ⟨⟨u1, st1⟩, h1, h2⟩ := Option.map_eq_some_iff.mp hstep
      cases h2
      have hs := QueueTask.stepped_of_step hc.keys (hc.names u (List.mem_of_getElem? hu)) h1
      exact Or.inr ⟨i, e, u, u1, st1, rfl, hu, hs, rfl⟩
  | env e =>
    obtain ⟨s, hs, _⟩ := next_env hn
    cases hs

theorem worldOk_fresh {t : Envelopes} {used : List U} (ht : UsedIds t used) :
    WorldOk (freshQueue t used) := by
  refine ⟨?_, ?_, ?_, ?_, ?_⟩
  · intro k v hk
    obtain ⟨m, id, hid, hm, he⟩ := ht k v hk
    refine ⟨m, id, hm, he, hid, ?_⟩
    intro u hu
    cases hu
  · intro u hu
    cases hu
  · intro u hu
    cases hu
  · intro i j u u' id hi
    cases hi
  · intro u hu
    cases hu

end World

/-! ## Ids to run on -/

/-- Numbers as UUIDs, for a run that needs many. -/
instance : UuidText Nat where
  display := Nat.repr
  parseStr := String.toNat?
  parse_display := Nat.toNat?_repr
  no_colon n h := by
    rw [Nat.toList_repr] at h
    exact absurd (Nat.isDigit_of_mem_toDigits (by decide) (by decide) h) (by decide)

end AxenoRelay
