/-
  The delivery tokens of a mailbox, as a bounded set that forgets its oldest member.

  `MailboxAuth` keeps the accepted hashes twice: in a list, and the first of them in the
  field `delivery_token_hash` from before there was a list. A history of a record is the
  Hellos and SetDeliveryTokens frames it saw, newest first. The list is the abstract set
  of the history (`elems_accepted`). The single field is the hash of the last reset
  (`resetHash`), and `ensure_delivery_hash` leaves it when it drops that hash from the
  list: the record accepts what the set does exactly if the set still has it.
-/
import AxenoRelay.Lib.FifoSet
import AxenoRelay.State.MetaStore

namespace AxenoRelay

open Fifo

/-- A frame that changes the delivery hashes of a record: a Hello with a delivery token, or
    a SetDeliveryTokens with as many tokens as the handler takes. -/
inductive TokenEvent where
  | hello (hash : String)
  | setTokens (hashes : List String)
      (h : hashes ≠ [] ∧ hashes.length ≤ maxDeliveryTokensPerMailbox)

theorem maxDeliveryTokens_pos : 0 < maxDeliveryTokensPerMailbox := by decide

/-! ## The record and the set -/

namespace MailboxAuth

def after (a : MailboxAuth) : TokenEvent → MailboxAuth
  | .hello hash => (a.ensureDeliveryHash hash).2
  | .setTokens hashes _ => a.replaceDeliveryHashes hashes

/-- The record of a mailbox registered at clock `now` after the given frames. -/
def history (now : Nat) (receiveHash first : String) : List TokenEvent → MailboxAuth
  | [] => MailboxAuth.new now receiveHash first
  | ev :: past => (history now receiveHash first past).after ev

end MailboxAuth

/-- The delivery hashes a mailbox is to accept after the given frames. -/
def accepted (first : String) : List TokenEvent → FifoSet String maxDeliveryTokensPerMailbox
  | [] => FifoSet.ofList [first] maxDeliveryTokens_pos
  | .hello hash :: past => (accepted first past).add maxDeliveryTokens_pos hash
  | .setTokens hashes h :: _ => FifoSet.ofList hashes h.2

/-- The hash the last reset began with: that of the first SetDeliveryTokens token, or of the
    registering Hello (the first one after it that is not empty). -/
def resetHash (first : String) : List TokenEvent → String
  | [] => first
  | .hello hash :: past => if resetHash first past = "" then hash else resetHash first past
  | .setTokens hashes _ :: _ => hashes.headD ""

/-- The record accepts what the set has, and never more hashes than fit into it. -/
structure AcceptsSet (a : MailboxAuth) (s : FifoSet String maxDeliveryTokensPerMailbox) :
    Prop where
  accepts : ∀ hash, a.acceptsDeliveryHash hash = true ↔ hash ∈ s.elems
  bounded : ∀ hashes : List String, hashes.Nodup →
    (∀ hash ∈ hashes, a.acceptsDeliveryHash hash = true) →
    hashes.length ≤ maxDeliveryTokensPerMailbox

/-! ## One frame -/

namespace MailboxAuth

theorem acceptsDeliveryHash_iff (a : MailboxAuth) (hash : String) :
    a.acceptsDeliveryHash hash = true ↔
      hash = a.deliveryTokenHash ∨ hash ∈ a.deliveryTokenHashes := by
  rw [acceptsDeliveryHash, Bool.or_eq_true, ctEq_iff, List.any_eq_true]
  refine or_congr eq_comm ⟨?_, fun h => ⟨hash, h, (ctEq_iff hash hash).mpr rfl⟩⟩
  rintro ⟨b, hb, heq⟩
  exact (ctEq_iff b hash).mp heq ▸ hb

theorem any_eq_iff_mem (l : List String) (hash : String) :
    (l.any fun h => h == hash) = true ↔ hash ∈ l := by
  rw [List.any_eq_true]
  constructor
  · rintro ⟨c, hc, heq⟩
    exact eq_of_beq heq ▸ hc
  · exact fun h => ⟨hash, h, beq_self_eq_true hash⟩

/-- The record with the single hash set, if it had none. -/
def named (a : MailboxAuth) (hash : String) : MailboxAuth :=
  { a with
    deliveryTokenHash := if a.deliveryTokenHash = "" then hash else a.deliveryTokenHash }

theorem ensureDeliveryHash_eq (a : MailboxAuth) (hash : String) :
    (a.ensureDeliveryHash hash).2 =
      if hash ∈ a.deliveryTokenHashes then a.named hash
      else { a.named hash with
        deliveryTokenHashes :=
          FifoSet.makeRoom maxDeliveryTokensPerMailbox a.deliveryTokenHashes ++ [hash] } := by
  have hnamed : (if a.deliveryTokenHash.isEmpty = true then
      { a with deliveryTokenHash := hash } else a) = a.named hash := by
    unfold named
    by_cases hempty : a.deliveryTokenHash = ""
    · rw [if_pos (String.isEmpty_iff.mpr hempty), if_pos hempty]
    · rw [if_neg fun h => hempty (String.isEmpty_iff.mp h), if_neg hempty]
  have hlist : (a.named hash).deliveryTokenHashes = a.deliveryTokenHashes := rfl
  unfold ensureDeliveryHash
  dsimp only
  rw [hnamed, hlist]
  by_cases hmem : hash ∈ a.deliveryTokenHashes
  · rw [if_pos ((any_eq_iff_mem _ _).mpr hmem), if_pos hmem]
  · rw [if_neg fun h => hmem ((any_eq_iff_mem _ _).mp h), if_neg hmem]
    rfl

theorem ensureDeliveryHash_first (a : MailboxAuth) (hash : String) :
    (a.ensureDeliveryHash hash).2.deliveryTokenHash =
      if a.deliveryTokenHash = "" then hash else a.deliveryTokenHash := by
  rw [ensureDeliveryHash_eq]
  by_cases hmem : hash ∈ a.deliveryTokenHashes
  · rw [if_pos hmem]
    rfl
  · rw [if_neg hmem]
    rfl

theorem ensureDeliveryHash_list (a : MailboxAuth) (hash : String) :
    (a.ensureDeliveryHash hash).2.deliveryTokenHashes =
      if hash ∈ a.deliveryTokenHashes then a.deliveryTokenHashes
      else FifoSet.makeRoom maxDeliveryTokensPerMailbox a.deliveryTokenHashes ++ [hash] := by
  rw [ensureDeliveryHash_eq]
  by_cases hmem : hash ∈ a.deliveryTokenHashes
  · rw [if_pos hmem, if_pos hmem]
    rfl
  · rw [if_neg hmem, if_neg hmem]

/-- The loop of `replace_delivery_hashes` keeps first occurrences. -/
theorem replaceDeliveryHashes_list (a : MailboxAuth) {hashes : List String}
    (h : hashes.length ≤ maxDeliveryTokensPerMailbox) :
    (a.replaceDeliveryHashes hashes).deliveryTokenHashes = firsts hashes := by
  have hstep : (fun (out : List String) h => if out.any fun o => o == h then out else out ++ [h]) =
      fun out h => if h ∈ out then out else out ++ [h] := by
    funext out h
    by_cases hmem : h ∈ out
    · rw [if_pos ((any_eq_iff_mem _ _).mpr hmem), if_pos hmem]
    · rw [if_neg fun h' => hmem ((any_eq_iff_mem _ _).mp h'), if_neg hmem]
  unfold replaceDeliveryHashes
  dsimp only
  rw [List.take_of_length_le h, hstep, foldl_append_new, List.nil_append]
  exact List.filter_eq_self.mpr fun b _ => decide_eq_true List.not_mem_nil

theorem replaceDeliveryHashes_first (a : MailboxAuth) {hashes : List String}
    (h : hashes.length ≤ maxDeliveryTokensPerMailbox) :
    (a.replaceDeliveryHashes hashes).deliveryTokenHash = hashes.headD "" := by
  have hlist := a.replaceDeliveryHashes_list h
  have hfirst : (a.replaceDeliveryHashes hashes).deliveryTokenHash =
      (a.replaceDeliveryHashes hashes).deliveryTokenHashes.head?.getD "" := rfl
  rw [hfirst, hlist, head?_firsts, List.headD_eq_head?_getD]

end MailboxAuth

/-! ## Histories -/

section

variable (now : Nat) (receiveHash first : String)

/-- The list of the record is the abstract set. -/
theorem elems_accepted (past : List TokenEvent) :
    (MailboxAuth.history now receiveHash first past).deliveryTokenHashes =
      (accepted first past).elems := by
  induction past with
  | nil => rfl
  | cons ev past ih =>
    cases ev with
    | hello hash =>
      rw [MailboxAuth.history, MailboxAuth.after, MailboxAuth.ensureDeliveryHash_list, ih,
        accepted, FifoSet.elems_add]
    | setTokens hashes h =>
      rw [MailboxAuth.history, MailboxAuth.after, MailboxAuth.replaceDeliveryHashes_list _ h.2]
      rfl

/-- The single hash of the record is that of the last reset. -/
theorem resetHash_history (past : List TokenEvent) :
    (MailboxAuth.history now receiveHash first past).deliveryTokenHash =
      resetHash first past := by
  induction past with
  | nil => rfl
  | cons ev past ih =>
    cases ev with
    | hello hash =>
      rw [MailboxAuth.history, MailboxAuth.after, MailboxAuth.ensureDeliveryHash_first, ih,
        resetHash]
    | setTokens hashes h =>
      rw [MailboxAuth.history, MailboxAuth.after, MailboxAuth.replaceDeliveryHashes_first _ h.2,
        resetHash]

/-- **Delivery tokens are a bounded FIFO set** as long as the hash of the last reset is in
    the set: exactly then the record accepts what the set has. -/
theorem accepts_fifo_iff (past : List TokenEvent) :
    AcceptsSet (MailboxAuth.history now receiveHash first past) (accepted first past) ↔
      resetHash first past ∈ (accepted first past).elems := by
  have hiff : ∀ hash, (MailboxAuth.history now receiveHash first past).acceptsDeliveryHash hash =
      true ↔ hash = resetHash first past ∨ hash ∈ (accepted first past).elems := by
    intro hash
    rw [MailboxAuth.acceptsDeliveryHash_iff, resetHash_history, elems_accepted]
  constructor
  · intro h
    exact (h.accepts _).mp ((hiff _).mpr (Or.inl rfl))
  · intro hreset
    have haccepts : ∀ hash, (MailboxAuth.history now receiveHash first past).acceptsDeliveryHash
        hash = true ↔ hash ∈ (accepted first past).elems := by
      intro hash
      rw [hiff]
      constructor
      · rintro (rfl | h)
        · exact hreset
        · exact h
      · exact Or.inr
    refine ⟨haccepts, fun hashes hnodup hall => ?_⟩
    have hsub : hashes ⊆ (accepted first past).elems := fun h hh => (haccepts h).mp (hall h hh)
    exact (hnodup.subperm hsub).length_le.trans (accepted first past).bounded

end

/-- Sixty-four Hellos after the registering one, each with a delivery token of its own. -/
def manyHellos : List TokenEvent :=
  (List.range maxDeliveryTokensPerMailbox).map fun n => .hello ("d" ++ Nat.repr n)

/-- The hash of the registering Hello has been dropped from the set and is still accepted. -/
theorem reset_hash_survives : ¬∀ (now : Nat) (receiveHash first : String)
    (past : List TokenEvent),
    AcceptsSet (MailboxAuth.history now receiveHash first past) (accepted first past) := by
  intro hall
  have hmem := (accepts_fifo_iff 0 "" "first" manyHellos).mp (hall 0 "" "first" manyHellos)
  revert hmem
  decide +kernel

end AxenoRelay
