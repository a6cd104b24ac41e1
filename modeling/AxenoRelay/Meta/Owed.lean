/-
  What a task still owes the metadata.

  Between its first change of a record and its mark a handler holds the key of the
  record; between a change of `bundles` or `mailbox_auth` and the update of the
  counter beside it the handler owes bytes or a mailbox. This module says which task
  owes what, and what each step does to the maps, the dirty sets and the counters in
  those terms. The one step that lets go of a key without marking it is named by
  `skipsMark`.
-/
import AxenoRelay.Lib.WriteBack
import AxenoRelay.State.Steps
import AxenoRelay.Ws.Machine
import AxenoRelay.Ws.Steps

namespace AxenoRelay

open WriteBack (Effect)

/-! ## Held keys and owed amounts -/

namespace PruneTask

def holdsBundle : PruneTask → Option String
  | mark id _ _ => some id
  | _ => none

/-- Bytes of removed bundles that are still in the total. -/
def owesBytes : PruneTask → Nat
  | remove _ freed | mark _ _ freed | sub freed => freed
  | _ => 0

/-- Does this step take a wrong amount off the total: the bundle removed is not the
    one scanned, or the subtraction saturates? -/
def miscounts (e : StoreEvent) (st : AppState) : PruneTask → Bool
  | remove rest _ =>
    match pickFrom e rest with
    | some ((id, n), _) => (st.bundles.get id).any fun b => decide (len b.ciphertext ≠ n)
    | none => false
  | sub freed => decide (st.totalBundleBytes < freed)
  | _ => false

end PruneTask

namespace SocketPc

variable {U : Type}

/-- The mailbox whose record the handler changed or removed and has yet to mark. -/
def holdsAuth : SocketPc U → Option RecipientId
  | helloMark rid _ _ | tokensMark rid _ | retireCount rid | retirePurge rid _ | retireRate rid
  | retireOnline rid | retireMark rid => some rid
  | sendRate _ m _ _ | sendLive _ m _ _ => some m
  | sendStale _ env | sendCheck _ env _ | sendQueue _ env _ _ | sendMark _ env _ _ => some env.toId
  | _ => none

/-- The bundle the handler changed or removed and has yet to mark. -/
def holdsBundle : SocketPc U → Option String
  | uploadSub _ id _ _ _ | uploadAdd _ id _ _ | uploadMark _ id _ => some id
  | prune p _ => p.holdsBundle
  | _ => none

/-- Bytes of inserted bundles that are not yet in the total. -/
def owesAdd : SocketPc U → Nat
  | uploadSub _ _ _ added _ | uploadAdd _ _ added _ => added
  | _ => 0

/-- Bytes of replaced and removed bundles that are still in the total. -/
def owesSub : SocketPc U → Nat
  | uploadSub _ _ old _ _ => old
  | prune p _ => p.owesBytes
  | _ => 0

/-- Mailboxes removed and still counted. -/
def owesCount : SocketPc U → Nat
  | retireCount _ => 1
  | _ => 0

/-- A plain place owes nothing. -/
structure Clear (pc : SocketPc U) : Prop where
  auth : pc.holdsAuth = none
  bundle : pc.holdsBundle = none
  add : pc.owesAdd = 0
  sub : pc.owesSub = 0
  count : pc.owesCount = 0

theorem Plain.clear {pc : SocketPc U} (h : pc.Plain) : pc.Clear := by
  cases pc with
  | prune p f =>
    cases p with
    | check => exact ⟨rfl, rfl, rfl, rfl, rfl⟩
    | done => exact ⟨rfl, rfl, rfl, rfl, rfl⟩
    | _ => exact h.elim
  | _ => first | exact h.elim | exact ⟨rfl, rfl, rfl, rfl, rfl⟩

end SocketPc

namespace FlushTask

/-- The AUTH entries the flush has read and not yet written. -/
def authBatch : FlushTask → List (RecipientId × Option MailboxAuth)
  | authTake _ batch | authRead _ _ batch | authTxn batch => batch
  | _ => []

/-- The BUNDLES entries the flush has read and not yet written. -/
def bundleBatch : FlushTask → List (String × Option HostedBundle)
  | bundleTake _ batch | bundleRead _ _ batch | bundleTxn batch => batch
  | _ => []

end FlushTask

namespace RelayTask

variable {U : Type}

def holdsAuth : RelayTask U → Option RecipientId
  | socket _ pc => pc.holdsAuth
  | gc (.count _ rid _) | gc (.mark _ rid _) => some rid
  | flush (.authRead k _ _) => some k
  | _ => none

def holdsBundle : RelayTask U → Option String
  | socket _ pc => pc.holdsBundle
  | flush (.bundleRead k _ _) => some k
  | _ => none

def owesCount : RelayTask U → Nat
  | socket _ pc => pc.owesCount
  | gc (.count _ _ _) => 1
  | _ => 0

def owesAdd : RelayTask U → Nat
  | socket _ pc => pc.owesAdd
  | _ => 0

def owesSub : RelayTask U → Nat
  | socket _ pc => pc.owesSub
  | _ => 0

def isFlush : RelayTask U → Bool
  | flush _ => true
  | _ => false

/-- The mailbox whose lease SendEnvelope refreshed and which this step leaves unmarked,
    because the handler gives up at its rate limit or at the storage limit. -/
def skipsMark (e : RelayEvent U) (st : AppState) : RelayTask U → Option RecipientId
  | socket _ (.sendRate _ m _ _) => if (st.allowDestSend e.store.now m).1 then none else some m
  | socket _ (.sendCheck _ env _) =>
    if st.queues.wouldExceedGlobal (len env.ciphertext) then some env.toId else none
  | _ => none

/-- Does this step take a wrong amount off the bundle total? -/
def miscounts (e : RelayEvent U) (st : AppState) : RelayTask U → Bool
  | socket _ (.prune p _) => p.miscounts e.store st
  | socket _ (.uploadSub _ _ old _ _) => decide (st.totalBundleBytes < old)
  | _ => false

/-- Does this step stamp leases with 0, on the first day of the clock? -/
def stampsZero (e : RelayEvent U) : RelayTask U → Bool
  | socket _ .ready => decide (nowActivityMs e.store.now = 0)
  | _ => false

/-- Does a batch of the flush fail at this step? -/
def flushFails (e : RelayEvent U) : RelayTask U → Bool
  | flush (.authTxn batch) => decide (BatchFails e.store.faults batch)
  | flush (.bundleTxn batch) => decide (BatchFails e.store.faults batch)
  | _ => false

end RelayTask

/-! ## Records and marks -/

section

variable {U : Type} [UuidText U]

open SocketPc (Stepped)

/-- What a step of a socket does to `mailbox_auth` and `dirty_auth`. -/
theorem SocketPc.Stepped.authEffect {C : Crates} {e : RelayEvent U} {s s' : Socket}
    {pc pc' : SocketPc U} {w w' : Relay U} (hs : Stepped C e s pc w s' pc' w') :
    Effect RelayTask.holdsAuth (.socket s pc) (.socket s' pc') w.app.mailboxAuth
        w'.app.mailboxAuth w.app.dirtyAuth w'.app.dirtyAuth ∨
      ∃ k, (RelayTask.socket s pc).skipsMark e w.app = some k ∧
        w'.app.mailboxAuth = w.app.mailboxAuth ∧ w'.app.dirtyAuth = w.app.dirtyAuth := by
  cases hs
  case inner hin => exact Or.inl (.same rfl rfl (Or.inl hin.source.clear.auth))
  case said =>
    left
    refine .same ?_ ?_ (Or.inl rfl) <;> rw [Relay.say_app]
  case helloOk =>
    left
    refine .same ?_ ?_ (Or.inl rfl) <;> rw [Relay.say_app]
  case pruned h =>
    left
    cases PruneTask.stepped_of_step h <;> exact .same rfl rfl (Or.inl rfl)
  case hello h _ =>
    left
    rcases SocketPc.helloEntry_cases h with ⟨a, a', _, _, rfl⟩ | ⟨_, a', _, rfl⟩
    · exact .put _ (some a') rfl rfl rfl rfl
    · exact .put _ (some a') rfl rfl rfl rfl
  case helloMark => exact Or.inl (.mark _ rfl rfl rfl)
  case tokens auth _ _ tokens _ _ _ _ _ =>
    exact Or.inl (.put _ (some (SocketPc.retokened C tokens auth)) rfl rfl rfl rfl)
  case tokensMark => exact Or.inl (.mark _ rfl rfl rfl)
  case sendAuth auth _ _ _ _ _ =>
    exact Or.inl (.put _ (some (refreshed e.store.now auth)) rfl rfl rfl rfl)
  case sendRefused m _ _ _ _ h =>
    refine Or.inr ⟨m, ?_, rfl, rfl⟩
    rw [RelayTask.skipsMark, h, if_neg Bool.false_ne_true]
  case sendFull env _ _ h =>
    refine Or.inr ⟨env.toId, ?_, rfl, rfl⟩
    rw [RelayTask.skipsMark, if_pos h]
  case sendMark => exact Or.inl (.mark _ rfl rfl rfl)
  case retire => exact Or.inl (.put _ none rfl rfl rfl rfl)
  case retireMark => exact Or.inl (.mark _ rfl rfl rfl)
  all_goals exact Or.inl (.same rfl rfl (by first | exact Or.inl rfl | exact Or.inr rfl))

/-- What a step of a socket does to `bundles` and `dirty_bundles`. -/
theorem SocketPc.Stepped.bundleEffect {C : Crates} {e : RelayEvent U} {s s' : Socket}
    {pc pc' : SocketPc U} {w w' : Relay U} (hs : Stepped C e s pc w s' pc' w') :
    Effect RelayTask.holdsBundle (.socket s pc) (.socket s' pc') w.app.bundles w'.app.bundles
      w.app.dirtyBundles w'.app.dirtyBundles := by
  cases hs
  case inner hin => exact .same rfl rfl (Or.inl hin.source.clear.bundle)
  case said => refine .same ?_ ?_ (Or.inl rfl) <;> rw [Relay.say_app]
  case helloOk => refine .same ?_ ?_ (Or.inl rfl) <;> rw [Relay.say_app]
  case pruned h =>
    cases PruneTask.stepped_of_step h
    case removed => exact .put _ none rfl rfl rfl rfl
    case mark => exact .mark _ rfl rfl rfl
    all_goals exact .same rfl rfl (Or.inl rfl)
  case hello h _ =>
    rcases SocketPc.helloEntry_cases h with ⟨_, _, _, _, rfl⟩ | ⟨_, _, _, rfl⟩ <;>
      exact .same rfl rfl (Or.inl rfl)
  case uploadOver b _ _ _ => exact .put _ (some b) rfl rfl rfl rfl
  case uploadNew b _ _ => exact .put _ (some b) rfl rfl rfl rfl
  case uploadMark => exact .mark _ rfl rfl rfl
  all_goals exact .same rfl rfl (by first | exact Or.inl rfl | exact Or.inr rfl)

/-- What a step of a collection does to `mailbox_auth` and `dirty_auth`. -/
theorem GcTask.Stepped.authEffect {e : StoreEvent} {g g' : GcTask U} {st st' : AppState}
    (hs : GcTask.Stepped e g st g' st') :
    Effect RelayTask.holdsAuth (.gc g) (.gc g') st.mailboxAuth st'.mailboxAuth st.dirtyAuth
      st'.dirtyAuth := by
  cases hs
  case collected => exact .put _ none rfl rfl rfl rfl
  case mark => exact .mark _ rfl rfl rfl
  all_goals exact .same rfl rfl (by first | exact Or.inl rfl | exact Or.inr rfl)

/-! ## Counters -/

/-- `mailbox_count` follows `mailbox_auth`, up to what the handler owes. -/
theorem SocketPc.Stepped.countStep {C : Crates} {e : RelayEvent U} {s s' : Socket}
    {pc pc' : SocketPc U} {w w' : Relay U} (hs : Stepped C e s pc w s' pc' w')
    (h : pc.owesCount ≤ w.app.mailboxCount) :
    w'.app.mailboxCount + w.app.mailboxAuth.size + pc.owesCount =
      w.app.mailboxCount + w'.app.mailboxAuth.size + pc'.owesCount := by
  cases hs
  case inner hin => rw [hin.source.clear.count, hin.target.clear.count]
  case said last => cases last <;> rw [Relay.say_app] <;> rfl
  case helloOk certOnly _ => cases certOnly <;> rw [Relay.say_app] <;> rfl
  case pruned h => cases PruneTask.stepped_of_step h <;> rfl
  case hello h _ =>
    rcases SocketPc.helloEntry_cases h with ⟨a, a', hget, _, rfl⟩ | ⟨hget, a', _, rfl⟩
    · have hsize := OrdMap.size_insert_old hget a'
      simp only [SocketPc.owesCount, hsize]
    · have hsize := OrdMap.size_insert_new hget a'
      simp only [SocketPc.owesCount, hsize]
      omega
  case tokens auth _ _ tokens _ _ _ hget _ =>
    have hsize := OrdMap.size_insert_old hget (SocketPc.retokened C tokens auth)
    simp only [SocketPc.owesCount, hsize]
  case sendAuth auth _ _ _ hget _ =>
    have hsize := OrdMap.size_insert_old hget (refreshed e.store.now auth)
    simp only [SocketPc.owesCount, hsize]
  case retire hget _ =>
    have hsize := OrdMap.size_erase_old hget
    simp only [SocketPc.owesCount]
    omega
  case retireCount =>
    have hpos : ¬w.app.mailboxCount = 0 := Nat.one_le_iff_ne_zero.mp h
    simp only [SocketPc.owesCount, fetchSubOne, if_neg hpos]
    omega
  all_goals rfl

theorem GcTask.Stepped.countStep {e : StoreEvent} {g g' : GcTask U} {st st' : AppState}
    (hs : GcTask.Stepped e g st g' st')
    (h : (RelayTask.gc g).owesCount ≤ st.mailboxCount) :
    st'.mailboxCount + st.mailboxAuth.size + (RelayTask.gc g).owesCount =
      st.mailboxCount + st'.mailboxAuth.size + (RelayTask.gc g').owesCount := by
  cases hs
  case collected hget =>
    have hsize := OrdMap.size_erase_old hget
    simp only [RelayTask.owesCount]
    omega
  case count =>
    have hpos : ¬st.mailboxCount = 0 := Nat.one_le_iff_ne_zero.mp h
    simp only [RelayTask.owesCount, fetchSubOne, if_neg hpos]
    omega
  all_goals rfl

/-- The ciphertext bytes of all bundles. -/
def bundleBytes (m : OrdMap String HostedBundle) : Nat := m.sum fun _ b => len b.ciphertext

theorem PruneTask.Stepped.bytesStep {e : StoreEvent} {p p' : PruneTask} {st st' : AppState}
    (hs : PruneTask.Stepped e p st p' st') (h : p.miscounts e st = false) :
    st'.totalBundleBytes + bundleBytes st.bundles + p.owesBytes =
      st.totalBundleBytes + bundleBytes st'.bundles + p'.owesBytes := by
  cases hs
  case removed id _ _ _ _ _ hpick hget =>
    have hsum := OrdMap.sum_erase st.bundles (fun _ b => len b.ciphertext) id
    rw [hget, Option.elim_some] at hsum
    simp only [PruneTask.miscounts, hpick, hget, Option.any_some, decide_eq_false_iff_not,
      not_not] at h
    simp only [PruneTask.owesBytes, bundleBytes]
    omega
  case sub =>
    simp only [PruneTask.miscounts, decide_eq_false_iff_not] at h
    simp only [PruneTask.owesBytes, AppState.subBundleBytes, atomicSubSaturating]
    omega
  all_goals rfl

/-- `total_bundle_bytes` follows `bundles`, up to what the handler owes. -/
theorem SocketPc.Stepped.bytesStep {C : Crates} {e : RelayEvent U} {s s' : Socket}
    {pc pc' : SocketPc U} {w w' : Relay U} (hs : Stepped C e s pc w s' pc' w')
    (h : (RelayTask.socket s pc).miscounts e w.app = false) :
    w'.app.totalBundleBytes + bundleBytes w.app.bundles + pc'.owesAdd + pc.owesSub =
      w.app.totalBundleBytes + bundleBytes w'.app.bundles + pc.owesAdd + pc'.owesSub := by
  cases hs
  case inner hin =>
    rw [hin.source.clear.add, hin.source.clear.sub, hin.target.clear.add, hin.target.clear.sub]
  case said last => cases last <;> rw [Relay.say_app] <;> rfl
  case helloOk certOnly _ => cases certOnly <;> rw [Relay.say_app] <;> rfl
  case pruned hp =>
    have hbytes := (PruneTask.stepped_of_step hp).bytesStep h
    simp only [SocketPc.owesAdd, SocketPc.owesSub]
    omega
  case hello h _ =>
    rcases SocketPc.helloEntry_cases h with ⟨_, _, _, _, rfl⟩ | ⟨_, _, _, rfl⟩ <;> rfl
  case uploadOver b old hb hget =>
    have hsum := OrdMap.sum_insert w.app.bundles (fun _ b => len b.ciphertext) b.id b
    rw [hb.1, hget, Option.elim_some, hb.2.1] at hsum
    simp only [SocketPc.owesAdd, SocketPc.owesSub, bundleBytes]
    omega
  case uploadNew b hb hget =>
    have hsum := OrdMap.sum_insert w.app.bundles (fun _ b => len b.ciphertext) b.id b
    rw [hb.1, hget, Option.elim_none, hb.2.1] at hsum
    simp only [SocketPc.owesAdd, SocketPc.owesSub, bundleBytes]
    omega
  case uploadSub =>
    simp only [RelayTask.miscounts, decide_eq_false_iff_not] at h
    simp only [SocketPc.owesAdd, SocketPc.owesSub, AppState.subBundleBytes, atomicSubSaturating]
    omega
  case uploadAdd =>
    simp only [SocketPc.owesAdd, SocketPc.owesSub]
    omega
  all_goals rfl

/-! ## Properties of all entries -/

theorem SocketPc.Stepped.bundleIds {C : Crates} {e : RelayEvent U} {s s' : Socket}
    {pc pc' : SocketPc U} {w w' : Relay U} (hs : Stepped C e s pc w s' pc' w')
    (h : w.app.bundles.All fun k b => b.id = k) : w'.app.bundles.All fun k b => b.id = k := by
  cases hs
  case said => rwa [Relay.say_app]
  case helloOk => rwa [Relay.say_app]
  case pruned hp =>
    cases PruneTask.stepped_of_step hp
    case removed => exact h.erase _
    all_goals exact h
  case hello hh _ =>
    rcases SocketPc.helloEntry_cases hh with ⟨_, _, _, _, rfl⟩ | ⟨_, _, _, rfl⟩ <;> exact h
  case uploadOver b _ hb _ => exact h.insert hb.1
  case uploadNew b hb _ => exact h.insert hb.1
  all_goals exact h

/-- Every lease in `mailbox_auth` was stamped on a later day than the clock's first. -/
theorem SocketPc.Stepped.leases {C : Crates} {e : RelayEvent U} {s s' : Socket}
    {pc pc' : SocketPc U} {w w' : Relay U} (hs : Stepped C e s pc w s' pc' w')
    (hclock : (RelayTask.socket s pc).stampsZero e = false)
    (h : w.app.mailboxAuth.All fun _ a => a.lastActiveMs ≠ 0) :
    w'.app.mailboxAuth.All fun _ a => a.lastActiveMs ≠ 0 := by
  cases hs
  case said => rwa [Relay.say_app]
  case helloOk => rwa [Relay.say_app]
  case pruned hp => cases PruneTask.stepped_of_step hp <;> exact h
  case hello hh _ =>
    have hstamp : nowActivityMs e.store.now ≠ 0 := of_decide_eq_false hclock
    rcases SocketPc.helloEntry_cases hh with ⟨_, a', _, hl, rfl⟩ | ⟨_, a', hl, rfl⟩
    · exact h.insert (hl ▸ hstamp)
    · exact h.insert (hl ▸ hstamp)
  case tokens auth _ _ _ _ _ _ hget _ =>
    have hlease : auth.lastActiveMs ≠ 0 := h _ _ hget
    exact h.insert hlease
  case sendAuth =>
    have hstamp : nowActivityMs e.store.now ≠ 0 := of_decide_eq_false hclock
    exact h.insert hstamp
  case retire => exact h.erase _
  all_goals exact h

theorem GcTask.Stepped.leases {e : StoreEvent} {g g' : GcTask U} {st st' : AppState}
    (hs : GcTask.Stepped e g st g' st')
    (h : st.mailboxAuth.All fun _ a => a.lastActiveMs ≠ 0) :
    st'.mailboxAuth.All fun _ a => a.lastActiveMs ≠ 0 := by
  cases hs
  case collected => exact h.erase _
  all_goals exact h

end

end AxenoRelay
