/-
  A metadata flush that fails.

  `flush_dirty_meta` takes every dirty key out of its set before the batch that
  writes it is attempted. If the batch fails the keys are gone, so a record that
  still differs from RAM stays in its dirty set only if the other batch was the one
  that failed (`flush_failure_iff`).
-/
import AxenoRelay.State.Basic

namespace AxenoRelay.AppState

/-! ## What the flush does -/

theorem takeAuth_eq (ks : List RecipientId) (st : AppState) :
    takeAuth ks st = (ks.map fun k => (k, st.mailboxAuth.get k),
      { st with dirtyAuth := st.dirtyAuth.eraseAll ks }) := by
  induction ks generalizing st with
  | nil => rfl
  | cons k ks ih =>
    rw [takeAuth, ih]
    rfl

theorem takeBundles_eq (ks : List String) (st : AppState) :
    takeBundles ks st = (ks.map fun k => (k, st.bundles.get k),
      { st with dirtyBundles := st.dirtyBundles.eraseAll ks }) := by
  induction ks generalizing st with
  | nil => rfl
  | cons k ks ih =>
    rw [takeBundles, ih]
    rfl

def authBatch (st : AppState) : List (RecipientId × Option MailboxAuth) :=
  st.dirtyAuth.keys.map fun k => (k, st.mailboxAuth.get k)

def bundleBatch (st : AppState) : List (String × Option HostedBundle) :=
  st.dirtyBundles.keys.map fun k => (k, st.bundles.get k)

/-- Does a call of the auth batch of this flush fail? -/
def AuthBatchFails (fa : Faults) (st : AppState) : Prop := BatchFails fa st.authBatch

/-- The state after the auth keys were taken. -/
def authTaken (st : AppState) : AppState :=
  { st with dirtyAuth := st.dirtyAuth.eraseAll st.dirtyAuth.keys }

/-- The state after the auth batch was written. -/
def authWritten (st : AppState) : AppState :=
  { st.authTaken with tables := { st.tables with auth := st.tables.auth.assignAll st.authBatch } }

def bundlesTaken (st : AppState) : AppState :=
  { st with dirtyBundles := st.dirtyBundles.eraseAll st.dirtyBundles.keys }

def bundlesWritten (st : AppState) : AppState :=
  { st.bundlesTaken with
    tables := { st.tables with bundles := st.tables.bundles.assignAll st.bundleBatch } }

/-- The three ways a flush ends: at the auth batch, at the bundle batch, or well. -/
theorem flushDirtyMeta_cases (fa fb : Faults) (st : AppState) :
    (AuthBatchFails fa st ∧ ∃ e, flushDirtyMeta fa fb st = (.error e, st.authTaken)) ∨
    (¬AuthBatchFails fa st ∧ BatchFails fb st.bundleBatch ∧
      ∃ e, flushDirtyMeta fa fb st = (.error e, st.authWritten.bundlesTaken)) ∨
    (¬AuthBatchFails fa st ∧ ¬BatchFails fb st.bundleBatch ∧
      flushDirtyMeta fa fb st = (.ok (), st.authWritten.bundlesWritten)) := by
  unfold flushDirtyMeta AuthBatchFails
  rw [takeAuth_eq]
  dsimp only
  rcases writeBatch_cases st.authBatch fa st.tables.auth with ⟨hf, e, he⟩ | ⟨hf, hok⟩
  · left
    refine ⟨hf, e, ?_⟩
    unfold authBatch at he
    rw [MetaTables.flushAuth, he]
    rfl
  · right
    unfold authBatch at hok
    rw [MetaTables.flushAuth, hok]
    dsimp only
    rw [takeBundles_eq]
    dsimp only
    rcases writeBatch_cases st.bundleBatch fb st.tables.bundles with ⟨hb, e, he⟩ | ⟨hb, hok'⟩
    · left
      refine ⟨hf, hb, e, ?_⟩
      unfold bundleBatch at he
      rw [MetaTables.flushBundles, he]
      rfl
    · right
      refine ⟨hf, hb, ?_⟩
      unfold bundleBatch at hok'
      rw [MetaTables.flushBundles, hok']
      rfl

/-! ## Records and dirty keys -/

/-- Every AUTH record that differs from RAM is dirty. -/
def AuthMarked (st : AppState) : Prop :=
  ∀ k, st.tables.auth.get k ≠ st.mailboxAuth.get k → (st.dirtyAuth.get k).isSome = true

/-- Every BUNDLES record that differs from RAM is dirty. -/
def BundlesMarked (st : AppState) : Prop :=
  ∀ k, st.tables.bundles.get k ≠ st.bundles.get k → (st.dirtyBundles.get k).isSome = true

def AuthSaved (st : AppState) : Prop := ∀ k, st.tables.auth.get k = st.mailboxAuth.get k

def BundlesSaved (st : AppState) : Prop := ∀ k, st.tables.bundles.get k = st.bundles.get k

theorem get_eraseAll_keys {K V : Type} [LinearOrder K] (m : OrdMap K V) (k : K) :
    (m.eraseAll m.keys).get k = none := by
  rw [OrdMap.get_eraseAll]
  split_ifs with h
  · rfl
  · rw [Option.eq_none_iff_forall_ne_some]
    intro v hv
    exact h (OrdMap.mem_keys_iff.mpr ⟨v, hv⟩)

theorem mem_keys_iff_isSome {K V : Type} [LinearOrder K] {m : OrdMap K V} {k : K} :
    k ∈ m.keys ↔ (m.get k).isSome = true := by
  rw [OrdMap.mem_keys_iff, Option.isSome_iff_exists]

theorem authMarked_authTaken (st : AppState) : st.authTaken.AuthMarked ↔ st.AuthSaved := by
  constructor
  · intro h k
    by_contra hne
    have hdirty := h k hne
    change ((st.dirtyAuth.eraseAll st.dirtyAuth.keys).get k).isSome = true at hdirty
    rw [get_eraseAll_keys] at hdirty
    cases hdirty
  · intro h k hne
    exact absurd (h k) hne

/-- After the auth batch a record differs exactly if it differed and was not dirty. -/
theorem authMarked_authWritten (st : AppState) : st.authWritten.AuthMarked ↔ st.AuthMarked := by
  have hget : ∀ k, st.authWritten.tables.auth.get k =
      if (st.dirtyAuth.get k).isSome = true then st.mailboxAuth.get k
      else st.tables.auth.get k := by
    intro k
    have h := OrdMap.get_assignAll_map st.tables.auth st.dirtyAuth.keys
      (fun k => st.mailboxAuth.get k) k
    rw [if_congr mem_keys_iff_isSome rfl rfl] at h
    exact h
  constructor
  · intro h k hne
    by_contra hclean
    have hdirty := h k (by rw [hget, if_neg hclean]; exact hne)
    change ((st.dirtyAuth.eraseAll st.dirtyAuth.keys).get k).isSome = true at hdirty
    rw [get_eraseAll_keys] at hdirty
    cases hdirty
  · intro h k hne
    rw [hget] at hne
    split_ifs at hne with hd
    · exact absurd rfl hne
    · exact absurd (h k hne) hd

theorem bundlesMarked_bundlesTaken (st : AppState) :
    st.bundlesTaken.BundlesMarked ↔ st.BundlesSaved := by
  constructor
  · intro h k
    by_contra hne
    have hdirty := h k hne
    change ((st.dirtyBundles.eraseAll st.dirtyBundles.keys).get k).isSome = true at hdirty
    rw [get_eraseAll_keys] at hdirty
    cases hdirty
  · intro h k hne
    exact absurd (h k) hne

/-! ## A failed flush -/

/-- Every record that still differs from RAM is still dirty. -/
def NothingLost (st : AppState) : Prop := st.AuthMarked ∧ st.BundlesMarked

/-- **What a failed flush loses.** A flush that fails at its auth batch loses nothing if and
    only if no AUTH record differed (and the differing bundles were dirty); one that fails at
    its bundle batch, if and only if no BUNDLES record differed (and the differing auth
    records were dirty). -/
theorem flush_failure_iff {fa fb : Faults} {st : AppState} {e : DbError}
    (h : (flushDirtyMeta fa fb st).1 = .error e) :
    (flushDirtyMeta fa fb st).2.NothingLost ↔
      (AuthBatchFails fa st → st.AuthSaved ∧ st.BundlesMarked) ∧
        (¬AuthBatchFails fa st → st.AuthMarked ∧ st.BundlesSaved) := by
  rcases flushDirtyMeta_cases fa fb st with ⟨hf, e', he⟩ | ⟨hf, _, e', he⟩ | ⟨_, _, hok⟩
  · rw [he]
    have hauth := authMarked_authTaken st
    constructor
    · intro hlost
      exact ⟨fun _ => ⟨hauth.mp hlost.1, hlost.2⟩, fun hn => absurd hf hn⟩
    · intro hcond
      exact ⟨hauth.mpr (hcond.1 hf).1, (hcond.1 hf).2⟩
  · rw [he]
    have hauth := authMarked_authWritten st
    have hbundles := bundlesMarked_bundlesTaken st.authWritten
    constructor
    · intro hlost
      exact ⟨fun hf' => absurd hf' hf, fun _ => ⟨hauth.mp hlost.1, hbundles.mp hlost.2⟩⟩
    · intro hcond
      exact ⟨hauth.mpr (hcond.2 hf).1, hbundles.mpr (hcond.2 hf).2⟩
  · rw [hok] at h
    cases h

/-- Where nothing is lost, a later flush without failures saves every record. -/
theorem NothingLost.flushed {st : AppState} (h : st.NothingLost) :
    (flushDirtyMeta [] [] st).2.AuthSaved ∧ (flushDirtyMeta [] [] st).2.BundlesSaved := by
  have hnone : ∀ {V : Type} (items : List (String × Option V)), ¬BatchFails [] items := by
    intro V items hb
    have hmem := hb.2
    rw [List.take_nil] at hmem
    cases hmem
  rcases flushDirtyMeta_cases [] [] st with ⟨hf, _⟩ | ⟨_, hf, _⟩ | ⟨_, _, hok⟩
  · exact absurd hf (hnone _)
  · exact absurd hf (hnone _)
  · rw [hok]
    constructor
    · intro k
      have hget := OrdMap.get_assignAll_map st.tables.auth st.dirtyAuth.keys
        (fun k => st.mailboxAuth.get k) k
      refine hget.trans ?_
      split_ifs with hk
      · rfl
      · by_contra hne
        exact hk (mem_keys_iff_isSome.mpr (h.1 k hne))
    · intro k
      have hget := OrdMap.get_assignAll_map st.tables.bundles st.dirtyBundles.keys
        (fun k => st.bundles.get k) k
      refine hget.trans ?_
      split_ifs with hk
      · rfl
      · by_contra hne
        exact hk (mem_keys_iff_isSome.mpr (h.2 k hne))

/-! ## A change that is forgotten -/

/-- `sampleState` after the mailbox registered and was marked dirty. -/
def registeredState : AppState :=
  { sampleState with
    mailboxAuth := OrdMap.empty.insert sampleRid (MailboxAuth.new 0 "a" "d")
    mailboxCount := 1
    dirtyAuth := OrdMap.empty.insert sampleRid () }

/-- The write transaction cannot be begun: the flush returns an error, the new record is not
    in AUTH and no longer dirty. -/
theorem flush_failure_forgets :
    ¬∀ (fa fb : Faults) (st : AppState) (e : DbError), st.NothingLost →
      (flushDirtyMeta fa fb st).1 = .error e → (flushDirtyMeta fa fb st).2.NothingLost := by
  intro hall
  have hmarked : registeredState.NothingLost := by
    constructor
    · intro k hne
      have hget : (OrdMap.empty.insert sampleRid (MailboxAuth.new 0 "a" "d")).get k ≠ none :=
        fun h => hne h.symm
      change ((OrdMap.empty.insert sampleRid ()).get k).isSome = true
      rw [OrdMap.get_insert] at hget ⊢
      split_ifs at hget ⊢ with hk
      · rfl
      · exact absurd rfl hget
    · intro k hne
      exact absurd rfl hne
  have hlost := (hall [true] [] registeredState .db hmarked (by decide)).1 sampleRid (by decide)
  revert hlost
  decide

/-- The bundle batch fails and no bundle was waiting to be written but one that is gone. -/
theorem flush_failure_sample :
    (flushDirtyMeta [] [true] { registeredState with
      dirtyBundles := OrdMap.empty.insert "invite_0000000001" () }).2.NothingLost := by
  refine (flush_failure_iff (e := .db) (by decide)).mpr ⟨?_, ?_⟩
  · intro hf
    exact absurd hf.2 (by decide)
  · intro _
    constructor
    · intro k hne
      have hget : (OrdMap.empty.insert sampleRid (MailboxAuth.new 0 "a" "d")).get k ≠ none :=
        fun h => hne h.symm
      change ((OrdMap.empty.insert sampleRid ()).get k).isSome = true
      rw [OrdMap.get_insert] at hget ⊢
      split_ifs at hget ⊢ with hk
      · rfl
      · exact absurd rfl hget
    · intro k
      rfl

end AxenoRelay.AppState
