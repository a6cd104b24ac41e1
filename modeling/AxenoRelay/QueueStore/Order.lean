/-
  A mailbox's queue as a list, and what table updates do to it.

  `queueRows m t` is what `read_mailbox` returns: the rows of `m` by sequence
  number. The list is determined by the rows (`queueRows_ext`), so a filter of the
  table filters every queue, and a row with a number above all others goes to the
  end of its mailbox's queue. `chooseVictims` takes a prefix of it.
-/
import AxenoRelay.QueueStore.Txns

namespace AxenoRelay.QueueStore

section Rows

variable {U : Type} [UuidText U]

/-- The rows of mailbox `m`, oldest first. -/
def queueRows (U : Type) [UuidText U] (m : String) (t : Envelopes) : List (U × StoredValue) :=
  sortBySeq (mailboxRows U m t)

/-- Older rows first; rows with one sequence number in key order. -/
abbrev Older (m : String) : U × StoredValue → U × StoredValue → Prop :=
  Fifo.Before (fun e => e.2.s) fun a b => keyFor m a.1 < keyFor m b.1

theorem older_asymm (m : String) (a b : U × StoredValue) (h : Older m a b) : ¬Older m b a :=
  h.asymm fun _ _ h1 h2 => absurd (h1.trans h2) (lt_irrefl _)

theorem queueRows_perm (m : String) (t : Envelopes) :
    (queueRows U m t).Perm (mailboxRows U m t) := Fifo.sortOn_perm _

theorem queueRows_older {t : Envelopes} (ht : KeysOk U t) {m : String} (hm : NameOk m) :
    (queueRows U m t).Pairwise (Older m) := Fifo.pairwise_sortOn (mailboxRows_sorted ht hm)

theorem mem_queueRows {t : Envelopes} (ht : KeysOk U t) {m : String} (hm : NameOk m) {id : U}
    {v : StoredValue} : (id, v) ∈ queueRows U m t ↔ t.get (keyFor m id) = some v :=
  (queueRows_perm m t).mem_iff.trans (mem_mailboxRows ht hm)

theorem queueRows_ext {t : Envelopes} (ht : KeysOk U t) {m : String} (hm : NameOk m)
    {l : List (U × StoredValue)} (hl : l.Pairwise (Older m))
    (h : ∀ id v, (id, v) ∈ l ↔ t.get (keyFor m id) = some v) : queueRows U m t = l := by
  refine Fifo.eq_of_mem_iff (older_asymm m) (queueRows_older ht hm) hl ?_
  intro a
  rw [h a.1 a.2]
  exact mem_queueRows ht hm

theorem queueRows_ids_nodup {t : Envelopes} (ht : KeysOk U t) {m : String} (hm : NameOk m) :
    ((queueRows U m t).map Prod.fst).Nodup := by
  have hperm := (queueRows_perm (U := U) m t).map Prod.fst
  rw [hperm.nodup_iff, List.Nodup, List.pairwise_map]
  refine (mailboxRows_sorted ht hm).imp ?_
  intro a b h e
  rw [e] at h
  exact absurd h (lt_irrefl _)

/-! ## Totals -/

theorem sum_queueRows {t : Envelopes} (ht : KeysOk U t) {m : String} (hm : NameOk m)
    (w : StoredValue → Nat) : ((queueRows U m t).map fun e => w e.2).sum = mailboxSum w m t := by
  rw [← sum_mailboxRows ht hm]
  exact ((queueRows_perm (U := U) m t).map _).sum_eq

theorem length_queueRows {t : Envelopes} (ht : KeysOk U t) {m : String} (hm : NameOk m) :
    (queueRows U m t).length = countOf m t := by
  have h := sum_queueRows ht hm fun _ => 1
  rw [List.map_const', List.sum_replicate, smul_eq_mul, mul_one] at h
  exact h

theorem rowBytes_queueRows {t : Envelopes} (ht : KeysOk U t) {m : String} (hm : NameOk m) :
    rowBytes (queueRows U m t) = bytesOf m t := sum_queueRows ht hm fun v => len v.c

/-! ## Table updates -/

theorem queueRows_filter {t : Envelopes} (ht : KeysOk U t) {m : String} (hm : NameOk m)
    (p : String → StoredValue → Bool) :
    queueRows U m (t.filter p) = (queueRows U m t).filter fun e => p (keyFor m e.1) e.2 := by
  refine queueRows_ext (ht.filter p) hm ((queueRows_older ht hm).filter _) ?_
  intro id v
  rw [List.mem_filter, mem_queueRows ht hm, OrdMap.get_filter, Option.filter_eq_some_iff]

theorem queueRows_eraseAll [DecidableEq U] {t : Envelopes} (ht : KeysOk U t) {m n : String}
    (hm : NameOk m) (hn : NameOk n) (ids : List U) :
    queueRows U n (t.eraseAll (ids.map (keyFor m))) =
      if n = m then (queueRows U m t).filter fun e => decide (e.1 ∉ ids)
      else queueRows U n t := by
  rw [OrdMap.eraseAll_eq_filter, queueRows_filter ht hn]
  split_ifs with h
  · subst h
    refine List.filter_congr fun e _ => decide_eq_decide.mpr (not_congr ?_)
    rw [List.mem_map]
    constructor
    · intro ⟨id, hid, he⟩
      rw [← (keyFor_inj hm hm he).2]
      exact hid
    · intro he
      exact ⟨e.1, he, rfl⟩
  · rw [List.filter_eq_self]
    intro e _
    rw [decide_eq_true_eq, List.mem_map]
    intro ⟨id, _, he⟩
    exact h (keyFor_inj hm hn he).1.symm

theorem queueRows_insert {t : Envelopes} (ht : KeysOk U t) {m n : String} (hm : NameOk m)
    (hn : NameOk n) {id : U} {v : StoredValue} (hfresh : t.get (keyFor m id) = none)
    (hseq : ∀ k w, t.get k = some w → w.s < v.s) :
    queueRows U n (t.insert (keyFor m id) v) =
      if n = m then queueRows U m t ++ [(id, v)] else queueRows U n t := by
  split_ifs with h
  · subst h
    refine queueRows_ext (ht.insert hm id v) hm ?_ ?_
    · rw [List.pairwise_append]
      refine ⟨queueRows_older ht hm, List.pairwise_singleton _ _, ?_⟩
      intro a ha b hb
      rw [List.mem_singleton] at hb
      rw [hb]
      exact Or.inl (hseq _ _ ((mem_queueRows ht hm).mp ha))
    · intro id' v'
      rw [List.mem_append, mem_queueRows ht hm, List.mem_singleton, OrdMap.get_insert]
      by_cases hid : id' = id
      · subst hid
        rw [if_pos rfl, hfresh]
        simp [eq_comm]
      · have hne : keyFor n id' ≠ keyFor n id := fun e => hid (keyFor_inj hm hm e).2
        rw [if_neg hne]
        simp [hid]
  · refine queueRows_ext (ht.insert hm id v) hn (queueRows_older ht hn) ?_
    intro id' v'
    have hne : keyFor n id' ≠ keyFor m id := fun e => h (keyFor_inj hn hm e).1
    rw [mem_queueRows ht hn, OrdMap.get_insert, if_neg hne]

/-- Rows of mailbox `m` that are in the table take their weight with them. -/
theorem sum_eraseRows {t : Envelopes} {m : String} (hm : NameOk m) {l : List (U × StoredValue)}
    (hl : (l.map Prod.fst).Nodup) (hmem : ∀ e ∈ l, t.get (keyFor m e.1) = some e.2)
    (f : String → StoredValue → Nat) :
    (t.eraseAll ((l.map Prod.fst).map (keyFor m))).sum f +
      (l.map fun e => f (keyFor m e.1) e.2).sum = t.sum f := by
  have hnd : ((l.map Prod.fst).map (keyFor (U := U) m)).Nodup :=
    hl.map fun a b h => (keyFor_inj hm hm h).2
  rw [← OrdMap.sum_eraseAll t f hnd, List.map_map, List.map_map]
  congr 2
  refine List.map_congr_left fun e he => ?_
  rw [Function.comp_apply, Function.comp_apply, hmem e he]
  rfl

/-- The row that the insert of an enqueue replaces, if one is left after the evictions. -/
def replacedRow (m : String) (id : U) (evictIds : List U) (t : Envelopes) : Option StoredValue :=
  (t.eraseAll (evictIds.map (keyFor m))).get (keyFor m id)

theorem replacedRow_of_fresh {m : String} {id : U} (evictIds : List U) {t : Envelopes}
    (hfresh : t.get (keyFor m id) = none) : replacedRow m id evictIds t = none := by
  rw [replacedRow, OrdMap.get_eraseAll, hfresh, ite_self]

/-- What the write transaction of an enqueue does to the bytes on disk. -/
theorem diskBytes_enqueueTable {t : Envelopes} {m : String} (hm : NameOk m) (id : U)
    (v : StoredValue) {l : List (U × StoredValue)}
    (hl : (l.map Prod.fst).Nodup) (hmem : ∀ e ∈ l, t.get (keyFor m e.1) = some e.2) :
    diskBytes (enqueueTable m id v (l.map Prod.fst) t) + rowBytes l +
        (replacedRow m id (l.map Prod.fst) t).elim 0 (fun v => len v.c) =
      diskBytes t + len v.c := by
  have hvict : diskBytes (t.eraseAll ((l.map Prod.fst).map (keyFor m))) + rowBytes l =
      diskBytes t := sum_eraseRows hm hl hmem fun _ v => len v.c
  have hins := OrdMap.sum_insert (t.eraseAll ((l.map Prod.fst).map (keyFor m)))
    (fun _ v => len v.c) (keyFor m id) v
  change diskBytes (enqueueTable m id v (l.map Prod.fst) t) +
    (replacedRow m id (l.map Prod.fst) t).elim 0 (fun v => len v.c) = diskBytes _ + len v.c at hins
  omega

/-- What it does to the totals of a mailbox. -/
theorem mailboxSum_enqueueTable (w : StoredValue → Nat) {t : Envelopes} {m : String}
    (hm : NameOk m) (n : String) (id : U) (v : StoredValue) {l : List (U × StoredValue)}
    (hl : (l.map Prod.fst).Nodup) (hmem : ∀ e ∈ l, t.get (keyFor m e.1) = some e.2) :
    mailboxSum w n (enqueueTable m id v (l.map Prod.fst) t) +
        (if n = m then
          (l.map fun e => w e.2).sum + (replacedRow m id (l.map Prod.fst) t).elim 0 w else 0) =
      mailboxSum w n t + if n = m then w v else 0 := by
  have hvict := sum_eraseRows hm hl hmem fun k v => if inMailbox n k then w v else 0
  have hrows : (l.map fun e => if inMailbox n (keyFor m e.1) = true then w e.2 else 0).sum =
      if n = m then (l.map fun e => w e.2).sum else 0 := by
    simp only [inMailbox_ite n hm]
    split_ifs with hn
    · rfl
    · rw [List.map_const', List.sum_replicate, smul_zero]
  have hins : mailboxSum w n (enqueueTable m id v (l.map Prod.fst) t) +
      (if n = m then (replacedRow m id (l.map Prod.fst) t).elim 0 w else 0) =
      mailboxSum w n (t.eraseAll ((l.map Prod.fst).map (keyFor m))) + if n = m then w v else 0 :=
    SepKey.ownedSum_insert w hm.no_colon n (UuidText.display id) _ v
  rw [hrows] at hvict
  change mailboxSum w n _ + _ = mailboxSum w n t at hvict
  split_ifs at hins hvict ⊢ <;> omega

end Rows

/-! ## The victims of an enqueue -/

section Victims

variable {U : Type}

/-- The limits hold for rows `l` and one more of `incomingLen` bytes. -/
def Fits (incomingLen : Nat) (l : List (U × StoredValue)) : Prop :=
  l.length + 1 ≤ maxQueuePerRecipient ∧ rowBytes l + incomingLen ≤ perMailboxQueueBytes

instance (incomingLen : Nat) : DecidablePred (Fits (U := U) incomingLen) :=
  fun _ => inferInstanceAs (Decidable (_ ∧ _))

theorem fits_nil {incomingLen : Nat} (h : incomingLen ≤ perMailboxQueueBytes) :
    Fits incomingLen ([] : List (U × StoredValue)) := by
  constructor
  · show 0 + 1 ≤ maxQueuePerRecipient
    decide
  · show 0 + incomingLen ≤ perMailboxQueueBytes
    omega

theorem rowBytes_cons (e : U × StoredValue) (l : List (U × StoredValue)) :
    rowBytes (e :: l) = len e.2.c + rowBytes l := by
  rw [rowBytes, List.map_cons, List.sum_cons]
  rfl

theorem rowBytes_append (l l' : List (U × StoredValue)) :
    rowBytes (l ++ l') = rowBytes l + rowBytes l' := by
  rw [rowBytes, List.map_append, List.sum_append]
  rfl

/-- The loop takes the shortest prefix after which the rest fits. -/
theorem evictLoop_eq (incomingLen : Nat) (l : List (U × StoredValue)) :
    evictLoop incomingLen l l.length (rowBytes l) =
      ((l.take (Fifo.evicted (Fits incomingLen) l)).map Prod.fst,
        rowBytes (l.take (Fifo.evicted (Fits incomingLen) l))) := by
  induction l with
  | nil => rfl
  | cons e l ih =>
    unfold evictLoop Fifo.evicted
    by_cases hfit : Fits incomingLen (e :: l)
    · have hno : ¬(maxQueuePerRecipient < (e :: l).length + 1 ∨
          perMailboxQueueBytes < rowBytes (e :: l) + incomingLen) := by
        have h1 := hfit.1
        have h2 := hfit.2
        omega
      rw [if_pos hfit, if_neg hno]
      rfl
    · have hyes : maxQueuePerRecipient < (e :: l).length + 1 ∨
          perMailboxQueueBytes < rowBytes (e :: l) + incomingLen := by
        by_contra hno
        refine hfit ⟨?_, ?_⟩ <;> omega
      have hlen : (e :: l).length - 1 = l.length := rfl
      have hbytes : rowBytes (e :: l) - len e.2.c = rowBytes l := by
        rw [rowBytes_cons]
        omega
      rw [if_neg hfit, if_pos hyes, hlen, hbytes, ih, List.take_succ_cons, List.map_cons,
        rowBytes_cons]

theorem chooseVictims_eq (incomingLen : Nat) (l : List (U × StoredValue)) :
    chooseVictims incomingLen l =
      ((l.take (Fifo.evicted (Fits incomingLen) l)).map Prod.fst,
        rowBytes (l.take (Fifo.evicted (Fits incomingLen) l))) := evictLoop_eq incomingLen l

end Victims

end AxenoRelay.QueueStore
