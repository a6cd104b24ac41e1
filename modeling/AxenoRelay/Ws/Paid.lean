/-
  Who pays for a new mailbox, bundle or transfer.

  The proof of work is checked where a frame is taken up; the key is added later, by
  the entry lock of Hello, by the insert of UploadBundle, or by the write of a file
  chunk that claimed its transfer. `adds` names the key a handler may yet add, and
  `inHand` the frame it is working on; the invariant `Backed` says that the frame in
  hand of every such handler pays for the key.
-/
import AxenoRelay.FileStore.Txns
import AxenoRelay.Ws.Moves

namespace AxenoRelay

open Interleave FileStore

/-! ## Keys that are paid for -/

/-- The places where a key has to be paid for. -/
inductive Ledger where
  | mailboxes
  | bundles
  | transfers
  deriving DecidableEq, Repr

section

variable {U : Type}

/-- Is the key in `mailbox_auth`, in `bundles`, or in FILE_META on disk? -/
def Ledger.Has (k : String) (st : AppState) : Ledger → Prop
  | mailboxes => (st.mailboxAuth.get k).isSome = true
  | bundles => (st.bundles.get k).isSome = true
  | transfers => OnDisk k st.files.tables

instance (k : String) (st : AppState) (l : Ledger) : Decidable (l.Has k st) := by
  cases l <;> unfold Ledger.Has <;> infer_instance

/-- A frame of the kind that may add this key, which names it and whose proof of work
    is accepted for it at clock `now`. -/
def Pays (C : Crates) (now : Nat) (l : Ledger) (k : String) : ClientFrame U → Prop
  | .hello rid _ _ _ _ _ pow _ =>
    l = .mailboxes ∧ rid = k ∧ (pow.any fun n => verifyPow C now k n) = true
  | .uploadBundle _ id _ _ pow =>
    l = .bundles ∧ id = k ∧ (pow.any fun n => verifyPow C now k n) = true
  | .uploadFileChunk _ id i _ _ _ pow =>
    l = .transfers ∧ id = k ∧ i = 0 ∧ (pow.any fun n => verifyPow C now k n) = true
  | _ => False

/-- The last move is a step of a socket, and the frame it is working on pays for the key. -/
def PaidStep (C : Crates) (l : Ledger) (k : String) (h : RelayPast U) : Prop :=
  ∃ c i e past, h = (c, Move.act i (.run e)) :: past ∧
    ∃ s pc, c.pool[i]? = some (.socket s pc) ∧
      ∃ now f, inHand i h = some (now, f) ∧ Pays C now l k f

end

/-! ## Calls of the file store -/

namespace FileTask

/-- The transfer whose record this call may yet add. -/
def adds : FileTask → Option String
  | storeClaim u => if u.chunkIndex = 0 then some u.transferId else none
  | storeSlot u | storeWrite u true => some u.transferId
  | _ => none

theorem adds_failed (k : After) (r : DbError) : (k.failed r).adds = none := by
  cases k <;> rfl

theorem adds_returned (k : After) (b : Bool) : (k.returned b).adds = none := by
  cases k <;> rfl

/-- A call never comes to create another transfer. -/
theorem adds_step {e : StoreEvent} {t t' : FileTask} {st st' : FileStore}
    (h : t.step e st = some (t', st')) {id : String} (hc : t'.adds = some id) :
    t.adds = some id := by
  cases t with
  | storeClaim u =>
    simp only [step] at h
    cases hshape : checkShape st.config u with
    | error r =>
      rw [hshape] at h
      cases h
      cases hc
    | ok x =>
      rw [hshape] at h
      simp only [FileStore.claim] at h
      cases hm : st.cache.get u.transferId with
      | some m =>
        simp only [hm] at h
        split_ifs at h <;> cases h <;> cases hc
      | none =>
        simp only [hm] at h
        by_cases hi : u.chunkIndex = 0
        · rw [if_neg (not_not.mpr hi)] at h
          cases h
          rw [adds, if_pos hi]
          exact hc
        · rw [if_pos hi] at h
          cases h
          cases hc
  | storeSlot u =>
    simp only [step, reserveSlot] at h
    split_ifs at h <;> cases h
    · cases hc
    · exact hc
  | storeWrite u creating =>
    simp only [step] at h
    rcases writeTxn_cases e.now e.faults creating u st with ⟨r, hr⟩ | ⟨m, hb, ha, hr⟩
    · rw [hr] at h
      cases h
      split_ifs at hc <;> cases hc
    · rw [hr] at h
      cases h
      split_ifs at hc <;> cases hc
  | fetchShape id i =>
    simp only [step] at h
    split at h <;> cases h <;> cases hc
  | delTxn id k =>
    simp only [step] at h
    split at h <;> cases h
    · rw [adds_failed] at hc
      cases hc
    · rw [adds_returned] at hc
      cases hc
    · cases hc
  | delBytes id n k =>
    cases h
    rw [adds_returned] at hc
    cases hc
  | sweepNext rest n =>
    simp only [step] at h
    split_ifs at h
    · cases h
      cases hc
    · split at h <;> cases h
      cases hc
  | done r => cases h
  | _ =>
    cases h
    cases hc

theorem claim_tables (now : Nat) (u : ChunkUpload) (st : FileStore) :
    (claim now u st).2.tables = st.tables := by
  unfold claim
  split <;> split_ifs <;> rfl

/-- Only a call that creates it puts a transfer on disk. -/
theorem adds_of_added {e : StoreEvent} {t t' : FileTask} {st st' : FileStore}
    (h : t.step e st = some (t', st')) {id : String} (hno : ¬OnDisk id st.tables)
    (hdisk : OnDisk id st'.tables) : t.adds = some id := by
  cases t with
  | storeClaim u =>
    have hsame := claim_tables e.now u st
    simp only [step] at h
    split at h
    · cases h
      exact absurd hdisk hno
    · split at h <;> cases h <;> rename_i hclaim <;> rw [hclaim] at hsame <;>
        exact absurd (hsame ▸ hdisk) hno
  | storeSlot u =>
    simp only [step, reserveSlot] at h
    split_ifs at h <;> cases h <;> exact absurd hdisk hno
  | storeWrite u creating =>
    simp only [step] at h
    rcases writeTxn_cases e.now e.faults creating u st with ⟨r, hr⟩ | ⟨m, hb, ha, hr⟩
    · rw [hr] at h
      cases h
      exact absurd hdisk hno
    · rw [hr] at h
      cases h
      obtain rfl : id = u.transferId := by
        rcases (onDisk_writeTables m u st.tables id).mp hdisk with heq | hold
        · exact heq
        · exact absurd hold hno
      cases creating with
      | true => rfl
      | false =>
        have hget : st.tables.fileMeta.get u.transferId = some m := hb
        unfold OnDisk at hno
        rw [hget] at hno
        exact absurd rfl hno
  | fetchShape id' i =>
    simp only [step] at h
    split at h <;> cases h <;> exact absurd hdisk hno
  | delTxn id' k =>
    have hsub : OnDisk id (deletedTables e.lost id' st.tables) → OnDisk id st.tables := by
      unfold OnDisk deletedTables
      dsimp only
      rw [OrdMap.get_erase]
      split_ifs
      · intro hnone
        cases hnone
      · exact fun hold => hold
    simp only [step] at h
    rcases deletedTables_cases e.lost e.faults id' st.tables with ⟨r, hr⟩ | hr
    · rw [hr] at h
      cases h
      exact absurd hdisk hno
    · rw [hr] at h
      cases hm : st.tables.fileMeta.get id' with
      | none =>
        simp only [hm, Option.map_none] at h
        cases h
        exact absurd (hsub hdisk) hno
      | some m =>
        simp only [hm, Option.map_some] at h
        cases h
        exact absurd (hsub hdisk) hno
  | sweepNext rest n =>
    simp only [step] at h
    split_ifs at h
    · cases h
      exact absurd hdisk hno
    · split at h <;> cases h
      exact absurd hdisk hno
  | done r => cases h
  | _ =>
    cases h
    exact absurd hdisk hno

end FileTask

/-! ## Handlers -/

namespace SocketPc

variable {U : Type}

/-- The key this handler may yet add. -/
def adds : SocketPc U → Option (Ledger × String)
  | prune _ (.uploadBundle _ id _ _ _) | uploadLook _ id _ _ | uploadCount _ id _ _
  | uploadBytes _ id _ _ | uploadInsert _ id _ _ => some (.bundles, id)
  | file t _ _ _ => t.adds.map fun id => (.transfers, id)
  | _ => none

theorem adds_fileReply (C : Crates) (r id : String) (i : Nat) (res : FileResult) :
    (fileReply (U := U) C r id i res).adds = none := by
  unfold fileReply
  split <;> rfl

theorem adds_fileNotRun (r id : String) (t : FileTask) :
    (fileNotRun (U := U) r id t).adds = none := by
  unfold fileNotRun
  split <;> rfl

theorem adds_afterPrune (f : ClientFrame U) (p : PruneTask) :
    (afterPrune f).adds = (prune p f).adds := by
  cases f <;> rfl

/-- A frame taken up at this event that pays for the key. -/
def TakesPaid (C : Crates) (e : RelayEvent U) (x : Ledger × String) : Prop :=
  ∃ n f, e.incoming = .text n (.ok f) ∧ Pays C e.store.now x.1 x.2 f

theorem Inner.adds {C : Crates} {e : RelayEvent U} {w : Relay U} {pc pc' : SocketPc U}
    (h : Inner C e w pc pc') {x : Ledger × String} (hc : pc'.adds = some x) :
    pc.adds = some x ∨ (pc.isReady = true ∧ TakesPaid C e x) := by
  cases h
  case upload n r id ct y pow hin hpow =>
    cases hc
    exact Or.inr ⟨rfl, n, _, hin, rfl, rfl, hpow⟩
  case storeChunk n r id i total size ct pow raw hin hpow hid =>
    simp only [SocketPc.adds, FileTask.adds] at hc
    split_ifs at hc with hi
    · cases hc
      exact Or.inr ⟨rfl, n, _, hin, rfl, rfl, hi, hpow hi⟩
    · cases hc
  case pruned f =>
    rw [adds_afterPrune f .done] at hc
    exact Or.inl hc
  case fileDone =>
    rw [adds_fileReply] at hc
    cases hc
  case fileLost =>
    rw [adds_fileNotRun] at hc
    cases hc
  all_goals first | exact Or.inl hc | cases hc

end SocketPc

section

variable {U : Type}

/-- An accepted Hello adds its own mailbox at most, against a proof of work. -/
theorem SocketPc.helloEntry_pays {C : Crates} {now : Nat} {rid auth delivery : String}
    {pow : Option String} {st st' : AppState}
    (h : helloEntry C now rid auth delivery pow st = .ok st')
    (hno : st.mailboxAuth.get rid = none) :
    (pow.any fun n => verifyPow C now rid n) = true := by
  unfold helloEntry at h
  simp only [hno] at h
  split_ifs at h with hpow
  simpa using hpow

/-- A prune adds nothing. -/
theorem PruneTask.keeps {e : StoreEvent} {p p' : PruneTask} {st st' : AppState}
    (h : p.step e st = some (p', st')) {l : Ledger} {k : String} (hk : l.Has k st') :
    l.Has k st := by
  cases PruneTask.stepped_of_step h
  case removed =>
    cases l with
    | bundles =>
      change ((st.bundles.erase _).get k).isSome = true at hk
      rw [OrdMap.get_erase] at hk
      split_ifs at hk
      · cases hk
      · exact hk
    | _ => exact hk
  all_goals exact hk

/-- An entry added by an insert is the one inserted. -/
theorem eq_of_added {A : Type} {m : OrdMap String A} {k k' : String} {a : A}
    (hno : ¬(m.get k).isSome = true) (h : ((m.insert k' a).get k).isSome = true) : k = k' := by
  rw [OrdMap.get_insert] at h
  split_ifs at h with heq
  · exact heq
  · exact absurd h hno

end

namespace SocketPc.Stepped

variable {U : Type} [UuidText U] {C : Crates} {e : RelayEvent U} {s s' : Socket}
  {pc pc' : SocketPc U} {w w' : Relay U}

/-- A handler comes to create a key only by taking up a frame that pays for it. -/
theorem adds (hs : SocketPc.Stepped C e s pc w s' pc' w') {x : Ledger × String}
    (hc : pc'.adds = some x) :
    pc.adds = some x ∨ (pc.isReady = true ∧ TakesPaid C e x) := by
  cases hs
  case inner hin => exact hin.adds hc
  case said last => cases last <;> cases hc
  case helloOk certOnly _ =>
    cases certOnly <;> cases hc
  case filed t t' r id i st h =>
    obtain ⟨k, hk, rfl⟩ := Option.map_eq_some_iff.mp hc
    left
    simp only [SocketPc.adds, FileTask.adds_step h hk, Option.map_some]
  case pruned p p' f st h =>
    left
    cases f <;> exact hc
  all_goals first | exact Or.inl hc | cases hc

/-- A handler adds a key only if it is one it creates, or if the frame it takes up pays. -/
theorem added (hs : SocketPc.Stepped C e s pc w s' pc' w') {l : Ledger} {k : String}
    (hno : ¬l.Has k w.app) (h : l.Has k w'.app) :
    pc.adds = some (l, k) ∨ (pc.isReady = true ∧ TakesPaid C e (l, k)) := by
  cases hs
  case said =>
    rw [Relay.say_app] at h
    exact absurd h hno
  case helloOk =>
    rw [Relay.say_app] at h
    exact absurd h hno
  case filed t t' r id i st hstep =>
    cases l with
    | transfers =>
      left
      simp only [SocketPc.adds, FileTask.adds_of_added hstep hno h, Option.map_some]
    | _ => exact absurd h hno
  case pruned hstep => exact absurd (PruneTask.keeps hstep h) hno
  case hello n rid token delivery pmin pmax version pow selected certOnly app hin hrid happ hs =>
    have hpow := SocketPc.helloEntry_pays happ
    rcases SocketPc.helloEntry_cases happ with ⟨a, a', hget, _, rfl⟩ | ⟨hget, a', _, rfl⟩
    · cases l with
      | mailboxes =>
        obtain rfl := eq_of_added hno h
        exact absurd (Option.isSome_of_eq_some hget) hno
      | _ => exact absurd h hno
    · cases l with
      | mailboxes =>
        obtain rfl := eq_of_added hno h
        exact Or.inr ⟨rfl, n, _, hin, rfl, rfl, hpow hget⟩
      | _ => exact absurd h hno
  case tokens rid auth _ _ _ _ _ _ hget _ =>
    cases l with
    | mailboxes =>
      obtain rfl := eq_of_added hno h
      exact absurd (Option.isSome_of_eq_some hget) hno
    | _ => exact absurd h hno
  case sendAuth m _ _ _ auth _ _ _ hget _ =>
    cases l with
    | mailboxes =>
      obtain rfl := eq_of_added hno h
      exact absurd (Option.isSome_of_eq_some hget) hno
    | _ => exact absurd h hno
  case retire rid auth _ _ _ _ =>
    cases l with
    | mailboxes =>
      change ((w.app.mailboxAuth.erase rid).get k).isSome = true at h
      rw [OrdMap.get_erase] at h
      split_ifs at h
      · cases h
      · exact absurd h hno
    | _ => exact absurd h hno
  case uploadOver r id ct x b old _ hget =>
    cases l with
    | bundles =>
      obtain rfl := eq_of_added hno h
      exact Or.inl rfl
    | _ => exact absurd h hno
  case uploadNew r id ct x b _ hget =>
    cases l with
    | bundles =>
      obtain rfl := eq_of_added hno h
      exact Or.inl rfl
    | _ => exact absurd h hno
  all_goals exact absurd h hno

end SocketPc.Stepped

/-! ## The frame in hand -/

section

variable {U : Type} {c : RelayConfig U} {h : RelayPast U} {i j : Nat} {e : RelayEvent U}

/-- The frame in hand of the socket at place `i` pays for the key. -/
def Backing (C : Crates) (i : Nat) (h : RelayPast U) (x : Ledger × String) : Prop :=
  ∃ now f, inHand i h = some (now, f) ∧ Pays C now x.1 x.2 f

/-- A handler that creates a key keeps what backs it; one that takes up a frame that
    pays for a key is backed from then on. -/
theorem backing_after {C : Crates} {s : Socket} {pc : SocketPc U} {x : Ledger × String}
    (ht : c.pool[i]? = some (.socket s pc)) (hold : pc.adds = some x → Backing C i h x)
    (hx : pc.adds = some x ∨ (pc.isReady = true ∧ SocketPc.TakesPaid C e x)) :
    Backing C i ((c, .act i (.run e)) :: h) x := by
  rcases hx with hc | ⟨hready, n, f, hin, hpays⟩
  · obtain ⟨now, f, hhand, hpays⟩ := hold hc
    refine ⟨now, f, ?_, hpays⟩
    rw [inHand_busy ht, hhand]
    intro s' pc' heq
    cases heq
    cases pc <;> first | rfl | cases hc
  · cases pc <;> first
      | exact ⟨_, f, inHand_taken ht hin, hpays⟩
      | cases hready

end

/-! ## The relay -/

section

variable {U : Type}

def RelayTask.adds : RelayTask U → Option (Ledger × String)
  | socket _ pc => pc.adds
  | sweepFiles t => t.adds.map fun id => (.transfers, id)
  | _ => none

/-- Only sockets create keys, and the frame each has in hand pays for the key. -/
def Backed (C : Crates) (h : RelayPast U) (c : RelayConfig U) : Prop :=
  ∀ (i : Nat) (t : RelayTask U), c.pool[i]? = some t → ∀ x, t.adds = some x →
    (∃ s pc, t = .socket s pc) ∧ Backing C i h x

theorem Backed.started {C : Crates} (st : AppState) : Backed C [] (started st : RelayConfig U) := by
  intro i t ht x hx
  have hmem := List.mem_of_getElem? ht
  rw [List.mem_singleton.mp hmem] at hx
  cases hx

variable [UuidText U]

/-- What a task adds after a step, and what the step itself adds. -/
theorem backed_of_step {C : Crates} {h : RelayPast U} {c : RelayConfig U} (hb : Backed C h c)
    {i : Nat} {e : RelayEvent U} {t t' : RelayTask U} {w' : Relay U} (ht : c.pool[i]? = some t)
    (hstep : t.Stepped C e c.shared t' w') :
    (∀ x, t'.adds = some x →
      (∃ s pc, t' = .socket s pc) ∧ Backing C i ((c, .act i (.run e)) :: h) x) ∧
    ∀ (l : Ledger) (k : String), ¬l.Has k c.shared.app → l.Has k w'.app →
      PaidStep C l k ((c, .act i (.run e)) :: h) := by
  cases hstep with
  | socket s s' pc pc' w w' hs =>
    have hold : ∀ x, pc.adds = some x → Backing C i h x := fun x hx => (hb i _ ht x hx).2
    constructor
    · intro x hx
      exact ⟨⟨s', pc', rfl⟩, backing_after ht (hold x) (hs.adds hx)⟩
    · intro l k hno hhas
      exact ⟨c, i, e, h, rfl, s, pc, ht, backing_after ht (hold _) (hs.added hno hhas)⟩
  | sweepFiles t t' st w hs =>
    have hnone : ∀ id, t.adds ≠ some id := by
      intro id hid
      have hx : (RelayTask.sweepFiles (U := U) t).adds = some (.transfers, id) := by
        simp only [RelayTask.adds, hid, Option.map_some]
      obtain ⟨⟨s, pc, heq⟩, _⟩ := hb i _ ht _ hx
      cases heq
    constructor
    · intro x hx
      obtain ⟨id, hid, rfl⟩ := Option.map_eq_some_iff.mp hx
      exact absurd (FileTask.adds_step hs hid) (hnone id)
    · intro l k hno hhas
      cases l with
      | transfers => exact absurd (FileTask.adds_of_added hs hno hhas) (hnone k)
      | _ => exact absurd hhas hno
  | flush f f' st w hs =>
    constructor
    · intro x hx
      cases hx
    · intro l k hno hhas
      cases hs <;> exact absurd hhas hno
  | gc g g' st w hs =>
    constructor
    · intro x hx
      cases hx
    · intro l k hno hhas
      cases hs
      case collected rid _ _ _ =>
        cases l with
        | mailboxes =>
          change ((c.shared.app.mailboxAuth.erase rid).get k).isSome = true at hhas
          rw [OrdMap.get_erase] at hhas
          split_ifs at hhas
          · cases hhas
          · exact absurd hhas hno
        | _ => exact absurd hhas hno
      all_goals exact absurd hhas hno
  | sweepQueues q q' st w hs =>
    constructor
    · intro x hx
      cases hx
    · intro l k hno hhas
      exact absurd hhas hno

/-- No move adds a key but a step of a socket whose frame in hand pays for it, and every
    handler stays backed. -/
theorem backed_of_moved {C : Crates} {h : RelayPast U} {c c' : RelayConfig U}
    {m : Move (RelayMove U)} (hb : Backed C h c) (hm : Moved C c m c') :
    Backed C ((c, m) :: h) c' ∧
    ∀ (l : Ledger) (k : String), ¬l.Has k c.shared.app → l.Has k c'.shared.app →
      PaidStep C l k ((c, m) :: h) := by
  cases hm with
  | spawned ev t c w hs =>
    constructor
    · intro i t' ht' x hx
      rcases getElem?_snoc_cases ht' with hold | ⟨_, rfl⟩
      · exact hb i t' hold x hx
      · cases hs <;> cases hx
    · intro l k hno hhas
      cases hs <;> exact absurd hhas hno
  | wrote ev c w hs =>
    constructor
    · exact hb
    · intro l k hno hhas
      rw [hs.app] at hhas
      exact absurd hhas hno
  | stepped i e t t' c w ht hstep =>
    obtain ⟨hmoved, hadded⟩ := backed_of_step hb ht hstep
    refine ⟨?_, hadded⟩
    intro j u hu x hx
    rcases getElem?_set_cases hu with ⟨rfl, rfl⟩ | ⟨hj, hold⟩
    · exact hmoved x hx
    · obtain ⟨hsock, now, f, hhand, hpays⟩ := hb j u hold x hx
      exact ⟨hsock, now, f, by rw [inHand_other (Ne.symm hj), hhand], hpays⟩

variable [DecidableEq U]

/-- From empty stores, every key ever present was added by a step of a socket whose frame
    in hand names it, with a proof of work accepted for it when the frame was taken up;
    and no other move adds a key. -/
theorem creation_paid {C : Crates} {st : AppState} {h : RelayPast U} {c : RelayConfig U}
    (hempty : ∀ (l : Ledger) (k : String), ¬l.Has k st)
    (r : Trace (relayMachine C) anyPast (started st) h c) :
    (∀ (l : Ledger) (k : String), l.Has k c.shared.app →
      ∃ h₁, h₁ <:+ h ∧ PaidStep C l k h₁) ∧
    ∀ (m : Move (RelayMove U)) (c' : RelayConfig U), (relayMachine C).next m c = some c' →
      ∀ (l : Ledger) (k : String), ¬l.Has k c.shared.app → l.Has k c'.shared.app →
        PaidStep C l k ((c, m) :: h) := by
  have hinv : Backed C h c ∧ ∀ (l : Ledger) (k : String), l.Has k c.shared.app →
      ∃ h₁, h₁ <:+ h ∧ PaidStep C l k h₁ := by
    refine r.invariant (P := fun h c => Backed C h c ∧ ∀ (l : Ledger) (k : String),
      l.Has k c.shared.app → ∃ h₁, h₁ <:+ h ∧ PaidStep C l k h₁) ⟨Backed.started st, ?_⟩ ?_
    · intro l k hhas
      exact absurd hhas (hempty l k)
    · intro h c m c' ⟨hb, hpaid⟩ _ hn
      obtain ⟨hb', hadded⟩ := backed_of_moved hb (moved_of_next hn)
      refine ⟨hb', fun l k hhas => ?_⟩
      by_cases hold : l.Has k c.shared.app
      · obtain ⟨h₁, hsuffix, hstep⟩ := hpaid l k hold
        exact ⟨h₁, hsuffix.trans (List.suffix_cons _ _), hstep⟩
      · exact ⟨_, List.suffix_rfl, hadded l k hold hhas⟩
  exact ⟨hinv.2, fun m c' hn => (backed_of_moved hinv.1 (moved_of_next hn)).2⟩

end

theorem creation_paid_sample : ∃ h c,
    Trace (relayMachine sampleCrates) anyPast (started (U := Nat) AppState.sampleState) h c ∧
      Ledger.mailboxes.Has AppState.sampleRid c.shared.app ∧
      ∃ h₁, h₁ <:+ h ∧ PaidStep sampleCrates .mailboxes AppState.sampleRid h₁ := by
  obtain ⟨h, c, r, hhas⟩ := exists_trace (M := relayMachine sampleCrates) (G := anyPast)
    (c := started (U := Nat) AppState.sampleState)
    [.spawn (.connect sampleTime), sampleStep sampleTime 1 (sampleHello true) 0 []]
    (p := fun r => decide (Ledger.mailboxes.Has AppState.sampleRid r.2.shared.app))
    (by decide +kernel)
  have hempty : ∀ (l : Ledger) (k : String), ¬l.Has k AppState.sampleState := by
    intro l k hhas
    cases l <;> cases hhas
  exact ⟨h, c, r, of_decide_eq_true hhas,
    (creation_paid hempty r).1 .mailboxes _ (of_decide_eq_true hhas)⟩

end AxenoRelay
