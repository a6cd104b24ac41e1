/-
  Whose cleanup removes an envelope.

  A retirement or a collection removes the record of a mailbox first and purges the queue
  some steps later, and the purge takes every row it finds. So it can take envelopes of
  another registration: of the next one, if a Hello and a sender came in between
  (`purged_by_another`), or of one before, if a sender committed after that one was purged.
  The past tells which registration an envelope was checked against (`regOf`) and which
  one a purge belongs to (`endedBy`). If whatever is committed while a purge is owed
  belongs with it, and so does whatever is in the queue when one comes to be owed
  (`OwnCleanup`), an envelope leaves the queue by an Ack of its mailbox, an eviction, its
  age, or the purge of its own registration (`leaves_by_own_cleanup`).
-/
import AxenoRelay.Ws.Leftovers

namespace AxenoRelay

open Interleave QueueStore

/-! ## What the past says -/

section

variable {U : Type}

/-- Does the task write an envelope to the queue of `m`, and which one? -/
def RelayTask.writesTo (m : RecipientId) : RelayTask U → Option U
  | socket _ (.sendQueue _ env _ (.enqWrite _ _ _ _ _)) => if env.toId = m then some env.id else none
  | _ => none

/-- Has the task just written an envelope to a queue? -/
def RelayTask.hasWritten : RelayTask U → Bool
  | socket _ (.sendQueue _ _ _ (.enqAdd _ _ _ _)) => true
  | _ => false

variable [UuidText U] [DecidableEq U]

/-- How many registrations of `m` had ended when the socket at place `i` took up its frame. -/
def regAt (C : Crates) (m : RecipientId) (i : Nat) : RelayPast U → Nat
  | [] => 0
  | (c, .act j (.run _)) :: h =>
    if j = i then
      match c.pool[i]? with
      | some (.socket _ .ready) => epoch C m h
      | _ => regAt C m i h
    else regAt C m i h
  | _ :: h => regAt C m i h

/-- The envelope that this move commits to the queue of `m`, and the place of its handler. -/
def commits (C : Crates) (m : RecipientId) (c : RelayConfig U) : Move (RelayMove U) → Option (U × Nat)
  | .act i (.run e) =>
    if (((relayMachine C).next (.act i (.run e)) c).bind fun c' => c'.pool[i]?).any
        RelayTask.hasWritten then
      (c.pool[i]?.bind (RelayTask.writesTo m)).map fun x => (x, i)
    else none
  | _ => none

/-- The envelopes committed to the queue of `m`, newest first, each with the number of
    registrations of `m` that had ended when its delivery token was checked. -/
def written (C : Crates) (m : RecipientId) : RelayPast U → List (U × Nat)
  | [] => []
  | (c, mv) :: h =>
    match commits C m c mv with
    | some (x, i) => (x, regAt C m i h) :: written C m h
    | none => written C m h

/-- The registration of `m` that envelope `x` was checked against. -/
def regOf (C : Crates) (m : RecipientId) (x : U) (h : RelayPast U) : Option Nat :=
  (written C m h).lookup x

/-- The registration of `m` that the task at place `i` has ended: for a socket, since it took
    up its frame. -/
def endedBy (C : Crates) (m : RecipientId) (i : Nat) : RelayPast U → Option Nat
  | [] => none
  | (c, .act j (.run e)) :: h =>
    if j = i then
      if endsReg C m c (.act j (.run e)) then some (epoch C m h)
      else
        match c.pool[i]? with
        | some (.socket _ .ready) => none
        | _ => endedBy C m i h
    else endedBy C m i h
  | _ :: h => endedBy C m i h

/-- Every purge of `m` that is still to run belongs to registration `r`. -/
def PurgesBelong (C : Crates) (m : RecipientId) (r : Nat) (h : RelayPast U) (c : RelayConfig U) :
    Prop :=
  ∀ j < c.pool.length, ∀ t, c.pool[j]? = some t → t.owed m .rows = true →
    endedBy C m j h = some r

instance (C : Crates) (m : RecipientId) (r : Nat) (h : RelayPast U) (c : RelayConfig U) :
    Decidable (PurgesBelong C m r h c) :=
  inferInstanceAs (Decidable (∀ j < c.pool.length, ∀ t, c.pool[j]? = some t →
    t.owed m .rows = true → endedBy C m j h = some r))

/-- Every envelope in the queue of `m` was checked against registration `r`, as far as they were
    committed since the start. -/
def QueueBelongs (C : Crates) (m : RecipientId) (r : Option Nat) (h : RelayPast U)
    (c : RelayConfig U) : Prop :=
  ∀ p ∈ written C m h, (c.shared.app.queues.envelopes.get (keyFor m p.1)).isSome = true →
    r = some p.2

instance (C : Crates) (m : RecipientId) (r : Option Nat) (h : RelayPast U) (c : RelayConfig U) :
    Decidable (QueueBelongs C m r h c) :=
  inferInstanceAs (Decidable (∀ p ∈ written C m h,
    (c.shared.app.queues.envelopes.get (keyFor m p.1)).isSome = true → r = some p.2))

/-- Does the task at place `i` come to owe a purge of `m` by this move? -/
def beginsPurge (C : Crates) (m : RecipientId) (i : Nat) (c : RelayConfig U)
    (mv : Move (RelayMove U)) : Bool :=
  !((c.pool[i]?).any fun t => t.owed m .rows) &&
    (((relayMachine C).next mv c).bind fun c' => c'.pool[i]?).any fun t => t.owed m .rows

/-- Purges and envelopes belong together: an envelope is committed to the queue of `m` only while
    every purge that is owed belongs to the registration it was checked against, and a purge
    comes to be owed only while every envelope in the queue belongs with it. -/
def OwnCleanup (C : Crates) (m : RecipientId) (h : RelayPast U) (c : RelayConfig U) :
    Move (RelayMove U) → Prop
  | .act i (.run e) =>
    (∀ p, commits C m c (.act i (.run e)) = some p → PurgesBelong C m (regAt C m p.2 h) h c) ∧
    (beginsPurge C m i c (.act i (.run e)) = true →
      QueueBelongs C m (endedBy C m i ((c, .act i (.run e)) :: h)) h c)
  | _ => True

instance (C : Crates) (m : RecipientId) (h : RelayPast U) (c : RelayConfig U) :
    ∀ mv, Decidable (OwnCleanup C m h c mv)
  | .act _ (.run _) => @instDecidableAnd _ _ (decidableForallSome _ _) inferInstance
  | .act _ (.connect _) | .act _ .gc | .act _ .sweepQueues | .act _ .sweepFiles
  | .act _ (.drain _) | .act _ (.drop _) | .spawn _ | .env _ => isTrue trivial

/-- The ways in which envelope `x`, checked against registration `r` of `m`, may leave the queue. -/
inductive Leaves (C : Crates) (m : RecipientId) (x : U) (r : Nat) (h : RelayPast U)
    (c : RelayConfig U) : Move (RelayMove U) → Prop
  | acked (i : Nat) (e : RelayEvent U) (s : Socket) (ids : List U)
      (ht : c.pool[i]? = some (.socket s (.ackQueue (.ackTxn m ids))))
      (hs : s.recipientId = some m) (hx : x ∈ ids) : Leaves C m x r h c (.act i (.run e))
  | evicted (i : Nat) (e : RelayEvent U) (s : Socket) (clientRef : Option String)
      (env : StoredEnvelope U) (live : Bool) (v : StoredValue) (b : Nat) (c₁ : RelayConfig U)
      (mv₁ : Move (RelayMove U))
      (ht : c.pool[i]? = some (.socket s (.sendQueue clientRef env live (.enqWrite m env v
        ((victimRows U m (len env.ciphertext) c₁.shared.app.queues.envelopes).map Prod.fst) b))))
      (hto : env.toId = m) (hpast : (c₁, mv₁) ∈ h)
      (hx : x ∈ (victimRows U m (len env.ciphertext) c₁.shared.app.queues.envelopes).map Prod.fst) :
      Leaves C m x r h c (.act i (.run e))
  | expired (i : Nat) (e : RelayEvent U) (v : StoredValue)
      (ht : c.pool[i]? = some (.sweepQueues .sweepTxn))
      (hv : c.shared.app.queues.envelopes.get (keyFor m x) = some v)
      (hold : isExpired e.store.now v = true) : Leaves C m x r h c (.act i (.run e))
  | retired (i : Nat) (e : RelayEvent U) (s : Socket)
      (ht : c.pool[i]? = some (.socket s (.retirePurge m (.purgeTxn m))))
      (hr : endedBy C m i h = some r) : Leaves C m x r h c (.act i (.run e))
  | collected (i : Nat) (e : RelayEvent U) (now : Nat) (stale : List RecipientId)
      (ht : c.pool[i]? = some (.gc (.purge now m (.purgeTxn m) stale)))
      (hr : endedBy C m i h = some r) : Leaves C m x r h c (.act i (.run e))

end

/-! ## One move -/

section

variable {U : Type} [UuidText U] [DecidableEq U] {C : Crates} {c c' : RelayConfig U}
  {h : RelayPast U} {m : RecipientId} {i j : Nat} {e : RelayEvent U} {t t' : RelayTask U}
  {w : Relay U}

theorem endedBy_other (hij : j ≠ i) :
    endedBy C m i ((c, .act j (.run e)) :: h) = endedBy C m i h := by
  rw [endedBy, if_neg hij]

/-- A task that owes a purge did not take up a frame, and ends no registration of the mailbox. -/
theorem endedBy_owed (ht : c.pool[i]? = some t) (howed : t.owed m .rows = true)
    (hn : (relayMachine C).next (.act i (.run e)) c = some c') :
    endedBy C m i ((c, .act i (.run e)) :: h) = endedBy C m i h := by
  have hends : endsReg C m c (.act i (.run e)) = false := by
    by_contra htrue
    simp only [endsReg, hn, Option.any_some, Bool.not_eq_false, Bool.and_eq_true] at htrue
    obtain ⟨hsome, hnone⟩ := htrue
    obtain ⟨a, ha⟩ := Option.isSome_iff_exists.mp hsome
    obtain ⟨u, u', w, hu, hstep, rfl⟩ := next_act hn
    obtain rfl : t = u := Option.some.inj (ht.symm.trans hu)
    rcases (RelayTask.stepped_of_step hstep).authEdit.ended ha (Option.isNone_iff_eq_none.mp hnone)
      with ⟨s, s', rfl, -⟩ | ⟨now, stale, rfl, -⟩ <;> cases howed
  rw [endedBy, if_pos rfl, hends, if_neg Bool.false_ne_true, ht]
  split
  · rename_i s heq
    cases heq
    cases howed
  · rfl

theorem commits_of_not_writing (ht : c.pool[i]? = some t) (hno : t.writesTo m = none) :
    commits C m c (.act i (.run e)) = none := by
  simp only [commits, ht, Option.bind_some, hno, Option.map_none, ite_self]

/-- A row that a step adds is one that it commits. -/
theorem row_cases (hc : Named c) (hm : NameOk m) (ht : c.pool[i]? = some t)
    (hn : (relayMachine C).next (.act i (.run e)) c = some ⟨w, c.pool.set i t'⟩) {x : U}
    (hrow : (w.app.queues.envelopes.get (keyFor m x)).isSome = true) :
    (c.shared.app.queues.envelopes.get (keyFor m x)).isSome = true ∨
      commits C m c (.act i (.run e)) = some (x, i) := by
  have hs := RelayTask.stepped_of_step (step_of_next ht hn)
  have hlt : i < c.pool.length := (List.getElem?_eq_some_iff.mp ht).1
  obtain ⟨v, hv⟩ := Option.isSome_iff_exists.mp hrow
  rcases (hs.namedStep hc.keys hc.names (hc.tasks t (List.mem_of_getElem? ht))).rows.get_cases hv
    with hold | ⟨s, r, env, live, ids, b, rfl, rfl, hkey, hto, -⟩
  · exact Or.inl (Option.isSome_iff_exists.mpr ⟨v, hold⟩)
  · obtain ⟨rfl, rfl⟩ := keyFor_inj hm hto hkey
    right
    simp only [commits, hn, ht, Option.bind_some, List.getElem?_set_self hlt, Option.any_some,
      RelayTask.hasWritten, RelayTask.writesTo, if_true, Option.map_some]

/-- The registration of an envelope after a move: the one its handler was checked against, or the
    one it had. -/
theorem regOf_cases {mv : Move (RelayMove U)} {x : U} {r : Nat}
    (hr : regOf C m x ((c, mv) :: h) = some r) :
    (∃ i, commits C m c mv = some (x, i) ∧ regAt C m i h = r) ∨
      (∀ i, commits C m c mv ≠ some (x, i)) ∧ regOf C m x h = some r := by
  rw [regOf, written] at hr
  split at hr
  · rename_i y i hcom
    rw [List.lookup_cons] at hr
    split at hr
    · rename_i hxy
      obtain rfl : x = y := eq_of_beq hxy
      exact Or.inl ⟨i, hcom, Option.some.inj hr⟩
    · rename_i hxy
      refine Or.inr ⟨fun j hj => ?_, hr⟩
      obtain ⟨rfl, -⟩ := Prod.mk.inj (Option.some.inj (hcom.symm.trans hj))
      rw [beq_self_eq_true] at hxy
      cases hxy
  · rename_i hcom
    refine Or.inr ⟨fun j hj => ?_, hr⟩
    cases hcom.symm.trans hj

theorem mem_written {x : U} {r : Nat} (hr : regOf C m x h = some r) : (x, r) ∈ written C m h := by
  obtain ⟨l₁, l₂, heq, -⟩ := List.lookup_eq_some_iff.mp hr
  rw [heq]
  exact List.mem_append_right _ List.mem_cons_self

/-- A task that has just committed an envelope owes no purge. -/
theorem not_owed_of_commits (ht : c.pool[i]? = some t)
    (hn : (relayMachine C).next (.act i (.run e)) c = some ⟨w, c.pool.set i t'⟩) {p : U × Nat}
    (hp : commits C m c (.act i (.run e)) = some p) : t'.owed m .rows = false := by
  have hlt : i < c.pool.length := (List.getElem?_eq_some_iff.mp ht).1
  simp only [commits, hn, Option.bind_some, List.getElem?_set_self hlt, Option.any_some] at hp
  split_ifs at hp with hdone
  cases t' with
  | socket s pc => cases pc <;> first | rfl | cases hdone
  | _ => cases hdone

/-- Only an accepted name has a queue that envelopes are committed to. -/
theorem nameOk_of_commits (hc : Named c) {mv : Move (RelayMove U)} {p : U × Nat}
    (hp : commits C m c mv = some p) : NameOk m := by
  unfold commits at hp
  split at hp
  · rename_i i e
    split_ifs at hp
    obtain ⟨x, hx, -⟩ := Option.map_eq_some_iff.mp hp
    obtain ⟨t, ht, hwrites⟩ := Option.bind_eq_some_iff.mp hx
    have hnamed := hc.tasks t (List.mem_of_getElem? ht)
    unfold RelayTask.writesTo at hwrites
    split at hwrites
    · split_ifs at hwrites with hto
      exact hto ▸ hnamed.2.1
    · cases hwrites
  · cases hp

end

/-! ## The run -/

section

variable {U : Type} [UuidText U] [DecidableEq U]

/-- Every purge of `m` that is still to run belongs to the registration of every envelope in
    the queue; and what an enqueue is about to evict are the oldest rows of some earlier time. -/
structure OwnPurges (C : Crates) (m : RecipientId) (h : RelayPast U) (c : RelayConfig U) : Prop where
  named : Named c
  name : written C m h ≠ [] → NameOk m
  belongs : ∀ (j : Nat) (t : RelayTask U), c.pool[j]? = some t → t.owed m .rows = true →
    ∀ (x : U) (r : Nat), regOf C m x h = some r →
      (c.shared.app.queues.envelopes.get (keyFor m x)).isSome = true → endedBy C m j h = some r
  chosen : ∀ (s : Socket) (clientRef : Option String) (env : StoredEnvelope U) (live : Bool)
    (v : StoredValue) (ids : List U) (b : Nat),
    .socket s (.sendQueue clientRef env live (.enqWrite m env v ids b)) ∈ c.pool → ids = [] ∨
      ∃ c₁ mv₁, (c₁, mv₁) ∈ h ∧
        ids = (victimRows U m (len env.ciphertext) c₁.shared.app.queues.envelopes).map Prod.fst

variable {C : Crates} {c c' : RelayConfig U} {h : RelayPast U} {m : RecipientId}
  {mv : Move (RelayMove U)}

theorem ownPurges_start {st : AppState} (hk : KeysOk U st.queues.envelopes)
    (hn : st.mailboxAuth.All fun m _ => NameOk m) :
    OwnPurges C m [] (started st : RelayConfig U) where
  named := named_start hk hn
  name := fun hne => absurd rfl hne
  belongs := by
    intro j t ht howed
    rw [List.mem_singleton.mp (List.mem_of_getElem? ht)] at howed
    cases howed
  chosen := by
    intro s r env live v ids b hmem
    cases List.mem_singleton.mp hmem

omit [DecidableEq U] in
/-- What an enqueue is about to evict after a step it was about to evict before, or it has just
    read the queue. -/
theorem chosen_step {e : RelayEvent U} {t t' : RelayTask U} {w : Relay U}
    (hs : t.Stepped C e c.shared t' w) (hc : Named c) (ht : t.Named) {s : Socket}
    {clientRef : Option String} {env : StoredEnvelope U} {live : Bool} {v : StoredValue}
    {ids : List U} {b : Nat}
    (heq : t' = .socket s (.sendQueue clientRef env live (.enqWrite m env v ids b))) : ids = [] ∨
      ids = (victimRows U m (len env.ciphertext) c.shared.app.queues.envelopes).map Prod.fst := by
  cases hs with
  | socket s s' pc pc' _ _ hs =>
    cases hs
    case inner hin =>
      cases heq
      exact hin.target.elim
    case said last => cases last <;> cases heq
    case helloOk certOnly _ => cases certOnly <;> cases heq
    case sendQueue q q' st hq =>
      cases heq
      have hname : ∀ m, q.mailbox = some m → NameOk m := fun m hm => ht.2.2.mailbox hm ▸ ht.2.1
      cases QueueTask.stepped_of_step hc.keys hname hq with
      | skip => exact Or.inl rfl
      | read => exact Or.inr rfl
    all_goals cases heq
  | _ => cases heq

theorem OwnPurges.step (ho : OwnPurges C m h c) (hg : OwnCleanup C m h c mv)
    (hn : (relayMachine C).next mv c = some c') : OwnPurges C m ((c, mv) :: h) c' := by
  have hm := moved_of_next hn
  have hnamed := ho.named.step hm
  have hname : written C m ((c, mv) :: h) ≠ [] → NameOk m := by
    intro hne
    cases hcom : commits C m c mv with
    | some p => exact nameOk_of_commits ho.named hcom
    | none =>
      rw [written, hcom] at hne
      exact ho.name hne
  have hlater : ∀ (s : Socket) (clientRef : Option String) (env : StoredEnvelope U) (live : Bool)
      (v : StoredValue) (ids : List U) (b : Nat),
      .socket s (.sendQueue clientRef env live (.enqWrite m env v ids b)) ∈ c.pool → ids = [] ∨
        ∃ c₁ mv₁, (c₁, mv₁) ∈ (c, mv) :: h ∧
          ids = (victimRows U m (len env.ciphertext) c₁.shared.app.queues.envelopes).map Prod.fst := by
    intro s r env live v ids b hmem
    rcases ho.chosen s r env live v ids b hmem with hnil | ⟨c₁, mv₁, hpast, hids⟩
    · exact Or.inl hnil
    · exact Or.inr ⟨c₁, mv₁, List.mem_cons_of_mem _ hpast, hids⟩
  cases hm with
  | spawned ev t c w hs =>
    obtain ⟨n, happ⟩ := hs.app
    refine ⟨hnamed, hname, fun j u hu howed x r hreg hrow => ?_,
      fun s r env live v ids b hmem => ?_⟩
    · dsimp only at hrow
      rw [happ] at hrow
      rcases getElem?_snoc_cases hu with hold | ⟨-, rfl⟩
      · exact ho.belongs j u hold howed x r hreg hrow
      · cases hs <;> cases howed
    · rcases List.mem_append.mp hmem with hmem | hmem
      · exact hlater s r env live v ids b hmem
      · rw [← List.mem_singleton.mp hmem] at hs
        cases hs
  | wrote ev c w hs =>
    refine ⟨hnamed, hname, fun j u hu howed x r hreg hrow => ?_, hlater⟩
    dsimp only at hrow
    rw [hs.app] at hrow
    exact ho.belongs j u hu howed x r hreg hrow
  | stepped i e t t' c w ht hs =>
    obtain ⟨hcommit, hbegin⟩ := hg
    have hlt : i < c.pool.length := (List.getElem?_eq_some_iff.mp ht).1
    refine ⟨hnamed, hname, fun j u hu howed x r hreg hrow => ?_,
      fun s r env live v ids b hmem => ?_⟩
    · rcases regOf_cases hreg with ⟨k, hcom, rfl⟩ | ⟨hno, hold⟩
      · -- committed by this step: the guard speaks of the purges that are owed
        rcases getElem?_set_cases hu with ⟨rfl, rfl⟩ | ⟨hji, hu⟩
        · rw [not_owed_of_commits ht hn hcom] at howed
          cases howed
        · rw [endedBy_other (Ne.symm hji)]
          exact hcommit _ hcom j (List.getElem?_eq_some_iff.mp hu).1 u hu howed
      · have hm := ho.name (List.ne_nil_of_mem (mem_written hold))
        have hin := (row_cases ho.named hm ht hn hrow).resolve_right (hno i)
        rcases getElem?_set_cases hu with ⟨rfl, rfl⟩ | ⟨hji, hu⟩
        · cases hbefore : t.owed m .rows with
          | true =>
            rw [endedBy_owed ht hbefore hn]
            exact ho.belongs j t ht hbefore x r hold hin
          | false =>
            -- a purge that comes to be owed: the guard speaks of the queue
            refine hbegin ?_ _ (mem_written hold) hin
            simp only [beginsPurge, ht, hn, hbefore, howed, List.getElem?_set_self hlt,
              Option.bind_some, Option.any_some, Bool.not_false, Bool.and_self]
        · rw [endedBy_other (Ne.symm hji)]
          exact ho.belongs j u hu howed x r hold hin
    · rcases mem_set_cases hmem with heq | hmem
      · rcases chosen_step hs ho.named (ho.named.tasks t (List.mem_of_getElem? ht)) heq.symm
          with hnil | hids
        · exact Or.inl hnil
        · exact Or.inr ⟨c, _, List.mem_cons_self, hids⟩
      · exact hlater s r env live v ids b hmem

/-- **An accepted envelope is not lost to someone else's cleanup**, if purges and envelopes belong
    together: one that leaves the queue was acknowledged, evicted, too old, or purged with the
    registration it was checked against. -/
theorem leaves_by_own_cleanup {st : AppState} (hk : KeysOk U st.queues.envelopes)
    (hname : st.mailboxAuth.All fun m _ => NameOk m)
    (r : Trace (relayMachine C) (OwnCleanup C m) (started st) h c) {x : U} {k : Nat}
    (hreg : regOf C m x h = some k)
    (hrow : (c.shared.app.queues.envelopes.get (keyFor m x)).isSome = true)
    (hn : (relayMachine C).next mv c = some c')
    (hgone : c'.shared.app.queues.envelopes.get (keyFor m x) = none) : Leaves C m x k h c mv := by
  have ho : OwnPurges C m h c :=
    r.invariant (ownPurges_start hk hname) fun _ _ _ _ ho hg hn => ho.step hg hn
  have hm := ho.name (List.ne_nil_of_mem (mem_written hreg))
  obtain ⟨v, hv⟩ := Option.isSome_iff_exists.mp hrow
  cases moved_of_next hn with
  | spawned ev t c w hs =>
    obtain ⟨n, happ⟩ := hs.app
    dsimp only at hgone
    rw [happ, hv] at hgone
    cases hgone
  | wrote ev c w hs =>
    dsimp only at hgone
    rw [hs.app, hv] at hgone
    cases hgone
  | stepped i e t t' c w ht hs =>
    have howed := ho.belongs i t ht
    have hrows := (hs.namedStep ho.named.keys ho.named.names
      (ho.named.tasks t (List.mem_of_getElem? ht))).rows
    dsimp only at hgone
    generalize htab : c.shared.app.queues.envelopes = tab at hrows hv
    generalize w.app.queues.envelopes = tab' at hrows hgone
    -- a purge takes the row only if it is a purge of `m`
    have hpurged : ∀ rid, (purgeTable rid tab).get (keyFor m x) = none → m = rid := by
      intro rid hnone
      rw [purgeTable, OrdMap.get_filter, hv, inMailbox_keyFor hm] at hnone
      simpa using hnone
    cases hrows with
    | same => cases hv.symm.trans hgone
    | write s clientRef env live v' ids b _ _ hto =>
      rw [enqueueTable, OrdMap.get_insert, OrdMap.get_eraseAll] at hgone
      split_ifs at hgone with hkey hmem
      · obtain ⟨y, hy, hkey⟩ := List.mem_map.mp hmem
        obtain ⟨hmail, rfl⟩ := keyFor_inj hto hm hkey
        subst hmail
        rcases ho.chosen s clientRef env live v' ids b (List.mem_of_getElem? ht) with
          rfl | ⟨c₁, mv₁, hpast, rfl⟩
        · cases hy
        · exact .evicted i e s clientRef env live v' b c₁ mv₁ ht rfl hpast hy
      · cases hv.symm.trans hgone
    | ack s rid ids _ _ _ hrid hname =>
      rw [OrdMap.get_eraseAll] at hgone
      split_ifs at hgone with hmem
      · obtain ⟨y, hy, hkey⟩ := List.mem_map.mp hmem
        obtain ⟨rfl, rfl⟩ := keyFor_inj hname hm hkey
        exact .acked i e s ids ht hrid hy
      · cases hv.symm.trans hgone
    | retire s rid =>
      obtain rfl := hpurged rid hgone
      exact .retired i e s ht (howed (by simp [RelayTask.owed, QueueTask.starts]) x k hreg hrow)
    | gc now rid stale =>
      obtain rfl := hpurged rid hgone
      exact .collected i e now stale ht
        (howed (by simp [RelayTask.owed, QueueTask.starts]) x k hreg hrow)
    | sweep =>
      rw [sweepTable, OrdMap.get_filter, hv] at hgone
      exact .expired i e v ht (htab ▸ hv) (by simpa using hgone)

end

/-! ## Sample runs -/

/-- Has SendOk been pushed for `x`, as an envelope that was queued? -/
def answeredQueued (x : Nat) (c : RelayConfig Nat) : Bool :=
  c.shared.chans.any fun ch => ch.sent.any fun f =>
    match f with
    | .sendOk id queued _ => decide (id = x) && queued
    | _ => false

/-- Does the next step of the socket at place `i`, in which it purges the sample mailbox, remove
    the row of envelope `1`? -/
def purgesRow (i : Nat) (c : RelayConfig Nat) : Bool :=
  (match c.pool[i]? with
    | some (.socket _ (.retirePurge _ (.purgeTxn _))) => true
    | _ => false) &&
  (c.shared.app.queues.envelopes.get (keyFor AppState.sampleRid 1)).isSome &&
  ((relayMachine sampleCrates).next (.act i (.run (sampleEvent .retireMailbox))) c).any fun c' =>
    (c'.shared.app.queues.envelopes.get (keyFor AppState.sampleRid 1)).isNone

theorem purged_of_purgesRow {i : Nat} {c : RelayConfig Nat} (h : purgesRow i c = true) :
    (∃ s rid r, c.pool[i]? = some (.socket s (.retirePurge rid (.purgeTxn r)))) ∧
      (c.shared.app.queues.envelopes.get (keyFor AppState.sampleRid 1)).isSome = true ∧
      ∃ c', (relayMachine sampleCrates).next (.act i (.run (sampleEvent .retireMailbox))) c =
          some c' ∧ c'.shared.app.queues.envelopes.get (keyFor AppState.sampleRid 1) = none := by
  obtain ⟨hboth, hgone⟩ := Bool.and_eq_true_iff.mp h
  obtain ⟨hpc, hrow⟩ := Bool.and_eq_true_iff.mp hboth
  obtain ⟨c', hn, hnone⟩ := (Option.any_eq_true _ _).mp hgone
  refine ⟨?_, hrow, c', hn, Option.isNone_iff_eq_none.mp hnone⟩
  split at hpc
  · exact ⟨_, _, _, by assumption⟩
  · cases hpc

/-- An envelope is queued for a mailbox, and then the mailbox is retired. -/
theorem leaves_by_own_cleanup_sample : ∃ (h : RelayPast Nat) (c : RelayConfig Nat),
    answeredQueued 1 c = true ∧ regOf sampleCrates AppState.sampleRid 1 h = some 0 ∧
      Leaves sampleCrates AppState.sampleRid 1 0 h c
        (.act 1 (.run (sampleEvent .retireMailbox))) := by
  obtain ⟨h, c, r, hend⟩ := exists_trace (M := relayMachine sampleCrates)
    (G := OwnCleanup sampleCrates AppState.sampleRid)
    (c := started (U := Nat) AppState.sampleState)
    (.spawn (.connect sampleTime) :: .spawn (.connect sampleTime) :: shortHello 1 ++
      handled 2 13 sampleSend ++ handled 1 2 .retireMailbox)
    (p := fun r => decide (regOf sampleCrates AppState.sampleRid 1 r.1 = some 0) &&
      answeredQueued 1 r.2 && purgesRow 1 r.2) (by decide +kernel)
  obtain ⟨hboth, hpurge⟩ := Bool.and_eq_true_iff.mp hend
  obtain ⟨hreg, hans⟩ := Bool.and_eq_true_iff.mp hboth
  obtain ⟨-, hrow, c', hn, hgone⟩ := purged_of_purgesRow hpurge
  have hreg := of_decide_eq_true hreg
  exact ⟨h, c, hans, hreg, leaves_by_own_cleanup keysOk_empty OrdMap.all_empty r hreg hrow hn hgone⟩

/-- Alice retires her mailbox, whose record is removed. She registers it again on another socket,
    Bob's envelope is checked against the new registration and committed, and then the purge of the
    first socket removes it. -/
theorem purged_by_another : ¬∀ (C : Crates) (st : AppState) (m : RecipientId)
    (h : RelayPast Nat) (c c' : RelayConfig Nat) (mv : Move (RelayMove Nat)) (x k : Nat),
    KeysOk Nat st.queues.envelopes → (st.mailboxAuth.All fun m _ => NameOk m) →
    Trace (relayMachine C) (fun _ c mv => CallsSucceed c mv) (started st) h c →
    regOf C m x h = some k → answeredQueued x c = true →
    (c.shared.app.queues.envelopes.get (keyFor m x)).isSome = true →
    (relayMachine C).next mv c = some c' →
    c'.shared.app.queues.envelopes.get (keyFor m x) = none → Leaves C m x k h c mv := by
  intro hall
  obtain ⟨h, c, r, hend⟩ := exists_trace (M := relayMachine sampleCrates)
    (G := fun _ c mv => CallsSucceed c mv) (c := started (U := Nat) AppState.sampleState)
    (.spawn (.connect sampleTime) :: .spawn (.connect sampleTime) ::
      .spawn (.connect sampleTime) :: shortHello 1 ++ handled 1 2 .retireMailbox ++ shortHello 2 ++
      handled 3 13 sampleSend)
    (p := fun r => decide (regOf sampleCrates AppState.sampleRid 1 r.1 = some 1) &&
      answeredQueued 1 r.2 && purgesRow 1 r.2 &&
      decide (endedBy sampleCrates AppState.sampleRid 1 r.1 = some 0)) (by decide +kernel)
  obtain ⟨hthree, hended⟩ := Bool.and_eq_true_iff.mp hend
  obtain ⟨hboth, hpurge⟩ := Bool.and_eq_true_iff.mp hthree
  obtain ⟨hreg, hans⟩ := Bool.and_eq_true_iff.mp hboth
  obtain ⟨⟨s, rid, r', hpc⟩, hrow, c', hn, hgone⟩ := purged_of_purgesRow hpurge
  have hended := of_decide_eq_true hended
  cases hall _ _ _ h c c' _ 1 1 keysOk_empty OrdMap.all_empty r (of_decide_eq_true hreg) hans hrow
    hn hgone with
  | acked _ _ _ _ ht => cases hpc.symm.trans ht
  | evicted _ _ _ _ _ _ _ _ _ _ ht => cases hpc.symm.trans ht
  | expired _ _ _ ht => cases hpc.symm.trans ht
  | retired _ _ _ _ hr => cases hended.symm.trans hr
  | collected _ _ _ _ ht => cases hpc.symm.trans ht

end AxenoRelay
