/-
  The caps on hosted bundles.

  An upload checks the number and the bytes of the bundles, inserts, and adds to
  `total_bundle_bytes`, in four steps with nothing reserved; a prune takes off the bytes
  it scanned. `total_bundle_bytes` is the sum of the bundles up to what the handlers owe
  (`bytesStep`). `BundlesFit` names what can go wrong: an insert whose checks no longer
  hold, counting what others have inserted and not yet added, and a wrong amount taken
  off the total. In a run without such a step the caps hold (`bundle_caps`).
-/
import AxenoRelay.Ws.Invites
import AxenoRelay.Ws.MailboxCap

namespace AxenoRelay

open Interleave

section

variable {U : Type}

/-- Does the insert of this step still fit into both caps? `pending` is what handlers have
    inserted and not yet added to the total. -/
def RelayTask.insertFits (pending : Nat) (st : AppState) : RelayTask U → Bool
  | socket _ (.uploadInsert _ id ct _) =>
    ((st.bundles.get id).isSome || decide (st.bundles.size < maxBundles)) &&
      decide (st.totalBundleBytes + pending + len ct ≤ maxTotalBundleBytes)
  | _ => true

/-- Inserts fit when they are made, and no wrong amount is taken off the total. -/
def BundlesFit (c : RelayConfig U) : Move (RelayMove U) → Prop
  | .act i (.run e) => ∀ t, c.pool[i]? = some t →
    t.insertFits (c.total RelayTask.owesAdd) c.shared.app = true ∧
      t.miscounts e c.shared.app = false
  | _ => True

instance (c : RelayConfig U) : ∀ m, Decidable (BundlesFit c m)
  | .act _ (.run _) => decidableForallSome _ _
  | .act _ (.connect _) | .act _ .gc | .act _ .sweepQueues | .act _ .sweepFiles
  | .act _ (.drain _) | .act _ (.drop _) | .spawn _ | .env _ => isTrue trivial

/-- The total is the sum of the bundles up to what is owed, and both caps hold. -/
structure BundlesCounted (c : RelayConfig U) : Prop where
  bytes : c.shared.app.totalBundleBytes + c.total RelayTask.owesAdd =
    bundleBytes c.shared.app.bundles + c.total RelayTask.owesSub
  sum : bundleBytes c.shared.app.bundles ≤ maxTotalBundleBytes
  size : c.shared.app.bundles.size ≤ maxBundles

end

/-! ## One step -/

section

variable {U : Type} [UuidText U] {C : Crates} {e : RelayEvent U}

/-- How a step of a task changes `bundles`. -/
inductive BundlesEdit (t : RelayTask U) (m : OrdMap String HostedBundle) :
    OrdMap String HostedBundle → Prop
  | same : BundlesEdit t m m
  | erased (id : String) : BundlesEdit t m (m.erase id)
  | inserted (s : Socket) (r id ct : String) (x : Nat) (b : HostedBundle)
      (ht : t = .socket s (.uploadInsert r id ct x)) (hct : b.ciphertext = ct) :
      BundlesEdit t m (m.insert id b)

theorem SocketPc.Stepped.bundlesEdit {s s' : Socket} {pc pc' : SocketPc U} {w w' : Relay U}
    (hs : SocketPc.Stepped C e s pc w s' pc' w') :
    BundlesEdit (.socket s pc) w.app.bundles w'.app.bundles := by
  cases hs
  case said =>
    rw [Relay.say_app]
    exact .same
  case helloOk =>
    rw [Relay.say_app]
    exact .same
  case pruned hp =>
    cases PruneTask.stepped_of_step hp
    case removed id _ _ _ _ _ _ _ => exact .erased id
    all_goals exact .same
  case hello hh _ =>
    rcases SocketPc.helloEntry_cases hh with ⟨_, _, _, _, rfl⟩ | ⟨_, _, _, rfl⟩ <;> exact .same
  case uploadOver r id ct x b old hb _ => exact .inserted s r id ct x b rfl hb.2.1
  case uploadNew r id ct x b hb _ => exact .inserted s r id ct x b rfl hb.2.1
  all_goals exact .same

theorem RelayTask.Stepped.bundlesEdit {t t' : RelayTask U} {w w' : Relay U}
    (hs : t.Stepped C e w t' w') : BundlesEdit t w.app.bundles w'.app.bundles := by
  cases hs with
  | socket s s' pc pc' w w' hs => exact hs.bundlesEdit
  | flush f f' st w hs => cases hs <;> exact .same
  | gc g g' st w hs => cases hs <;> exact .same
  | sweepQueues | sweepFiles => exact .same

theorem RelayTask.Stepped.bytesStep {t t' : RelayTask U} {w w' : Relay U}
    (hs : t.Stepped C e w t' w') (h : t.miscounts e w.app = false) :
    w'.app.totalBundleBytes + bundleBytes w.app.bundles + t'.owesAdd + t.owesSub =
      w.app.totalBundleBytes + bundleBytes w'.app.bundles + t.owesAdd + t'.owesSub := by
  cases hs with
  | socket s s' pc pc' w w' hs => exact hs.bytesStep h
  | flush f f' st w hs => cases hs <;> rfl
  | gc g g' st w hs => cases hs <;> rfl
  | sweepQueues | sweepFiles => rfl

theorem bundleBytes_erase_le (m : OrdMap String HostedBundle) (id : String) :
    bundleBytes (m.erase id) ≤ bundleBytes m := by
  have hsum := OrdMap.sum_erase m (fun _ b => len b.ciphertext) id
  unfold bundleBytes
  omega

theorem bundleBytes_insert_le (m : OrdMap String HostedBundle) (id : String) (b : HostedBundle) :
    bundleBytes (m.insert id b) ≤ bundleBytes m + len b.ciphertext := by
  have hsum := OrdMap.sum_insert m (fun _ b => len b.ciphertext) id b
  unfold bundleBytes
  omega

omit [UuidText U] in
/-- A step keeps both caps if its insert fits. -/
theorem BundlesEdit.caps {t : RelayTask U} {st : AppState} {m' : OrdMap String HostedBundle}
    (h : BundlesEdit t st.bundles m') {pending : Nat} (hfit : t.insertFits pending st = true)
    (hbytes : bundleBytes st.bundles ≤ st.totalBundleBytes + pending)
    (hsum : bundleBytes st.bundles ≤ maxTotalBundleBytes) (hsize : st.bundles.size ≤ maxBundles) :
    bundleBytes m' ≤ maxTotalBundleBytes ∧ m'.size ≤ maxBundles := by
  cases h with
  | same => exact ⟨hsum, hsize⟩
  | erased id =>
    refine ⟨(bundleBytes_erase_le _ id).trans hsum, ?_⟩
    exact (OrdMap.size_erase_le _ id).trans hsize
  | inserted s r id ct x b ht hct =>
    subst ht
    simp only [RelayTask.insertFits, Bool.and_eq_true, Bool.or_eq_true, decide_eq_true_eq] at hfit
    obtain ⟨hroom, hcap⟩ := hfit
    constructor
    · have hle := bundleBytes_insert_le st.bundles id b
      rw [hct] at hle
      omega
    · cases hget : st.bundles.get id with
      | some old => exact (OrdMap.size_insert_old hget b).le.trans hsize
      | none =>
        rw [hget] at hroom
        have hlt := hroom.resolve_left Bool.false_ne_true
        exact (OrdMap.size_insert_new hget b).le.trans hlt

end

/-! ## Runs -/

section

variable {U : Type}

theorem bundlesCounted_start {now : Nat} {queues : QueueStore} {files : FileStore}
    {cfg : FileConfig} {root : String} {fs : Faults} {t t' : MetaTables} {st : AppState}
    (hbuild : (AppState.build now queues files cfg root).commit fs t = (.ok st, t'))
    (hids : t.bundles.All fun k b => b.id = k)
    (hsum : bundleBytes t.bundles ≤ maxTotalBundleBytes) (hsize : t.bundles.size ≤ maxBundles) :
    BundlesCounted (started st : RelayConfig U) := by
  have hmap := AppState.ofLoaded_bundles hids now t.auth.entries t queues files cfg root
  rw [AppState.build_ok hbuild]
  refine ⟨?_, ?_, ?_⟩
  · dsimp only [started]
    rw [hmap, total_eq_zero (by simp [RelayTask.owesAdd]),
      total_eq_zero (by simp [RelayTask.owesSub])]
    simp only [AppState.ofLoaded, List.map_map]
    rfl
  · dsimp only [started]
    rw [hmap]
    exact hsum
  · dsimp only [started]
    rw [hmap]
    exact hsize

theorem BundlesCounted.step [UuidText U] {C : Crates} {c c' : RelayConfig U}
    {m : Move (RelayMove U)} (h : BundlesCounted c) (g : BundlesFit c m) (hm : Moved C c m c') :
    BundlesCounted c' := by
  cases hm with
  | spawned ev t c w hs =>
    obtain ⟨n, happ⟩ := hs.app
    have howes : t.owesAdd = 0 ∧ t.owesSub = 0 := by cases hs <;> exact ⟨rfl, rfl⟩
    refine ⟨?_, ?_, ?_⟩
    · dsimp only
      rw [happ, total_spawn, total_spawn, howes.1, howes.2, Nat.add_zero, Nat.add_zero]
      exact h.bytes
    · dsimp only
      rw [happ]
      exact h.sum
    · dsimp only
      rw [happ]
      exact h.size
  | wrote ev c w hs =>
    obtain ⟨hbytes, hsum, hsize⟩ := h
    rw [← hs.app] at hbytes hsum hsize
    exact ⟨hbytes, hsum, hsize⟩
  | stepped i e t t' c w ht hs =>
    obtain ⟨hfit, hcounts⟩ := g t ht
    have hbytes := h.bytes
    have hstep := hs.bytesStep hcounts
    have hadd := total_act RelayTask.owesAdd (u := t') (s := w) ht
    have hsub := total_act RelayTask.owesSub (u := t') (s := w) ht
    obtain ⟨hsum, hsize⟩ := hs.bundlesEdit.caps hfit (by omega) h.sum h.size
    refine ⟨?_, hsum, hsize⟩
    dsimp only
    omega

/-- **The bundle caps.** If every insert fits when it is made and no wrong amount is taken off
    the total, the caps hold throughout, and the total is exact whenever no handler or scan
    is in flight. -/
theorem bundle_caps [UuidText U] [DecidableEq U] {C : Crates} {now : Nat} {queues : QueueStore}
    {files : FileStore} {cfg : FileConfig} {root : String} {fs : Faults} {t t' : MetaTables}
    {st : AppState} {c : RelayConfig U}
    (hbuild : (AppState.build now queues files cfg root).commit fs t = (.ok st, t'))
    (hids : t.bundles.All fun k b => b.id = k)
    (hsum : bundleBytes t.bundles ≤ maxTotalBundleBytes) (hsize : t.bundles.size ≤ maxBundles)
    (r : Run (relayMachine C) BundlesFit (started st) c) :
    bundleBytes c.shared.app.bundles ≤ maxTotalBundleBytes ∧
      c.shared.app.bundles.size ≤ maxBundles ∧
      ((∀ u ∈ c.pool, u.resting = true ∨ u.isFlush = true) →
        c.shared.app.totalBundleBytes = bundleBytes c.shared.app.bundles) := by
  have h : BundlesCounted c := r.invariant (bundlesCounted_start hbuild hids hsum hsize)
    fun c m c' h g hn => h.step g (moved_of_next hn)
  refine ⟨h.sum, h.size, fun hrest => ?_⟩
  have howes : ∀ u ∈ c.pool, u.owesAdd = 0 ∧ u.owesSub = 0 := by
    intro u hu
    rcases hrest u hu with hr | hf
    · unfold RelayTask.resting at hr
      split at hr <;> first | exact ⟨rfl, rfl⟩ | cases hr
    · cases u with
      | flush f => exact ⟨rfl, rfl⟩
      | _ => cases hf
  have hbytes := h.bytes
  rw [total_eq_zero fun u hu => (howes u hu).1, total_eq_zero fun u hu => (howes u hu).2] at hbytes
  exact hbytes

end

/-! ## Sample runs -/

/-- Steps of the handler at place `i`; it takes up no frame before it is done with its own. -/
def pings (i steps : Nat) : List (Move (RelayMove Nat)) :=
  List.replicate steps (sampleStep sampleTime i .ping 0 [])

/-- One upload from the frame to the reply. -/
theorem bundle_caps_sample : ∃ c : RelayConfig Nat, c.shared.app.bundles.size = 1 ∧
    c.shared.app.totalBundleBytes = bundleBytes c.shared.app.bundles := by
  obtain ⟨c, r, hend⟩ := exists_run (M := relayMachine sampleCrates) (G := BundlesFit)
    (c := started (U := Nat) AppState.sampleState)
    (.spawn (.connect sampleTime) :: sampleLook 1 3 "aa" ++ pings 1 4)
    (p := fun c => decide (Resting c ∧ c.shared.app.bundles.size = 1)) (by decide +kernel)
  obtain ⟨hrest, hsize⟩ := of_decide_eq_true hend
  obtain ⟨_, _, hexact⟩ := bundle_caps (AppState.build_run 0 _ _ _ _ ⟨OrdMap.empty, OrdMap.empty⟩)
    OrdMap.all_empty (Nat.zero_le _) (Nat.zero_le _) r
  exact ⟨c, hsize, hexact fun u hu => Or.inl (hrest u hu)⟩

/-- Two uploads under one id: the second takes the bytes of the first off a total they are
    not in yet, and then the first adds them. -/
theorem bundle_total_drifts : ¬∀ (C : Crates) (now : Nat) (queues : QueueStore)
    (files : FileStore) (cfg : FileConfig) (root : String) (fs : Faults) (t t' : MetaTables)
    (st : AppState) (c : RelayConfig Nat),
    (AppState.build now queues files cfg root).commit fs t = (.ok st, t') →
    (t.bundles.All fun k b => b.id = k) → bundleBytes t.bundles ≤ maxTotalBundleBytes →
    t.bundles.size ≤ maxBundles → Run (relayMachine C) anyMove (started st) c →
    bundleBytes c.shared.app.bundles ≤ maxTotalBundleBytes ∧
      c.shared.app.bundles.size ≤ maxBundles ∧
      ((∀ u ∈ c.pool, u.resting = true ∨ u.isFlush = true) →
        c.shared.app.totalBundleBytes = bundleBytes c.shared.app.bundles) := by
  intro hall
  obtain ⟨c, r, hend⟩ := exists_run (M := relayMachine sampleCrates) (G := anyMove)
    (c := started (U := Nat) AppState.sampleState)
    (.spawn (.connect sampleTime) :: .spawn (.connect sampleTime) ::
      sampleLook 1 3 "aa" ++ sampleLook 2 1 "bb" ++ pings 1 1 ++ pings 2 5 ++ pings 1 3)
    (p := fun c => decide (Resting c ∧
      c.shared.app.totalBundleBytes ≠ bundleBytes c.shared.app.bundles)) (by decide +kernel)
  obtain ⟨hrest, hne⟩ := of_decide_eq_true hend
  obtain ⟨_, _, hexact⟩ := hall sampleCrates 0 _ _ _ _ [] ⟨OrdMap.empty, OrdMap.empty⟩ _ _ c
    (AppState.build_run 0 _ _ _ _ ⟨OrdMap.empty, OrdMap.empty⟩) OrdMap.all_empty (Nat.zero_le _)
    (Nat.zero_le _) r
  exact hne (hexact fun u hu => Or.inl (hrest u hu))

end AxenoRelay
