/-
  What the migration loses.

  The state file with the legacy state is replaced at the end of the start, whatever became
  of the enqueues before: their results are dropped. `Held` says of a legacy envelope that
  its call succeeded, or found it in the table, and that no later one replaced it; a step
  lemma keeps that up with the table (`judged_step`). So the start loses nothing exactly if
  every legacy envelope was evicted or is held, and no two records of one id differ
  (`nothing_lost_iff`).
-/
import AxenoRelay.Startup.Migration

namespace AxenoRelay

open Interleave QueueStore

/-! ## Records of one id -/

/-- Entries with the same key are the same. -/
def Agree {V : Type} (l : List (String × V)) : Prop :=
  ∀ e ∈ l, ∀ e' ∈ l, e.1 = e'.1 → e = e'

theorem get_assignAll_some {V : Type} (l : List (String × V)) (t : OrdMap String V) (k : String) :
    (t.assignAll (l.map fun e => (e.1, some e.2))).get k = t.get k ∧ (∀ e ∈ l, e.1 ≠ k) ∨
      ∃ e ∈ l, e.1 = k ∧ (t.assignAll (l.map fun e => (e.1, some e.2))).get k = some e.2 := by
  induction l using List.reverseRecOn with
  | nil => exact Or.inl ⟨rfl, fun e he => absurd he List.not_mem_nil⟩
  | append_singleton l e ih =>
    rw [List.map_append, List.map_singleton, OrdMap.assignAll_append, OrdMap.get_assign]
    by_cases hk : k = e.1
    · exact Or.inr ⟨e, List.mem_append_right _ List.mem_cons_self, hk.symm, if_pos hk⟩
    · rw [if_neg hk]
      rcases ih with ⟨hget, hnone⟩ | ⟨e', he', hk', hget⟩
      · refine Or.inl ⟨hget, fun e' he' => ?_⟩
        rcases List.mem_append.mp he' with he' | he'
        · exact hnone e' he'
        · rw [List.mem_singleton.mp he']
          exact Ne.symm hk
      · exact Or.inr ⟨e', List.mem_append_left _ he', hk', hget⟩

/-- A migrated table has all the entries exactly if they agree. -/
theorem migrated_holds_iff {V : Type} (l : List (String × V)) {t : OrdMap String V}
    (ht : t.entries.isEmpty = true) :
    (∀ e ∈ l, (migrated l t).get e.1 = some e.2) ↔ Agree l := by
  unfold migrated
  rw [if_pos ht]
  constructor
  · intro hget e he e' he' hk
    have h2 : some e.2 = some e'.2 := by rw [← hget e he, ← hget e' he', hk]
    exact Prod.ext hk (Option.some_inj.mp h2)
  · intro hagree e he
    rcases get_assignAll_some l t e.1 with ⟨_, hnone⟩ | ⟨e', he', hk, hget⟩
    · exact absurd rfl (hnone e he)
    · rw [hget, hagree e' he' e he hk]

section Envelopes

variable {U : Type} [UuidText U]

/-! ## The calls for an envelope -/

/-- The envelope is in the table. -/
def Stored (t : Envelopes) (x : RecipientId × StoredEnvelope U) : Prop :=
  ∃ v, t.get (keyFor x.1 x.2.id) = some v ∧ v.t = x.2.envelopeType ∧ v.c = x.2.ciphertext

/-- The two are stored as the same value under the same key. -/
def Same (x y : RecipientId × StoredEnvelope U) : Prop :=
  keyFor y.1 y.2.id = keyFor x.1 x.2.id ∧ y.2.envelopeType = x.2.envelopeType ∧
    y.2.ciphertext = x.2.ciphertext

/-- An enqueue takes the envelope out of the table. -/
def EvictsAt (x : RecipientId × StoredEnvelope U) (p : BootConfig U × Move BootMove) : Prop :=
  ∃ e y st, enqueuing p = some (e, y, st) ∧ Stored st.envelopes x ∧
    (enqueueCall e y st).2.envelopes.get (keyFor x.1 x.2.id) = none

def EvictedIn (x : RecipientId × StoredEnvelope U) (h : BootPast U) : Prop :=
  ∃ p ∈ h, EvictsAt x p

/-- The move is a call for the envelope. -/
def CallsAt (x : RecipientId × StoredEnvelope U) (p : BootConfig U × Move BootMove) : Prop :=
  ∃ e y st, enqueuing p = some (e, y, st) ∧ Same x y

/-- The call for the envelope succeeds, or finds it in the table. -/
def HeldAt (x : RecipientId × StoredEnvelope U) (p : BootConfig U × Move BootMove) : Prop :=
  ∃ e y st, enqueuing p = some (e, y, st) ∧ Same x y ∧
    ((enqueueCall e y st).1.isOk = true ∨ Stored st.envelopes x)

/-- An envelope of other contents takes the key. -/
def ReplacesAt (x : RecipientId × StoredEnvelope U) (p : BootConfig U × Move BootMove) : Prop :=
  ∃ e y st, enqueuing p = some (e, y, st) ∧ keyFor y.1 y.2.id = keyFor x.1 x.2.id ∧ ¬Same x y ∧
    (enqueueCall e y st).1.isOk = true

/-- A call for the envelope succeeded or found it in the table, and none later replaced it. -/
def Held (x : RecipientId × StoredEnvelope U) (h : BootPast U) : Prop :=
  ∃ h₂ p h₁, h = h₂ ++ p :: h₁ ∧ HeldAt x p ∧ ∀ q ∈ h₂, ¬ReplacesAt x q

variable {x : RecipientId × StoredEnvelope U} {p : BootConfig U × Move BootMove}
  {h : BootPast U}

theorem held_cons : Held x (p :: h) ↔ HeldAt x p ∨ Held x h ∧ ¬ReplacesAt x p := by
  constructor
  · rintro ⟨h₂, q, h₁, heq, hq, hafter⟩
    cases h₂ with
    | nil =>
      cases heq
      exact Or.inl hq
    | cons q' h₂ =>
      cases heq
      refine Or.inr ⟨⟨h₂, q, h₁, rfl, hq, fun r hr => ?_⟩, hafter _ List.mem_cons_self⟩
      exact hafter r (List.mem_cons_of_mem _ hr)
  · rintro (hp | ⟨⟨h₂, q, h₁, rfl, hq, hafter⟩, hp⟩)
    · exact ⟨[], p, h, rfl, hp, fun q hq => absurd hq List.not_mem_nil⟩
    · refine ⟨p :: h₂, q, h₁, rfl, hq, fun r hr => ?_⟩
      rcases List.mem_cons.mp hr with rfl | hr
      · exact hp
      · exact hafter r hr

theorem Held.called (hh : Held x h) : ∃ q ∈ h, CallsAt x q := by
  obtain ⟨h₂, q, h₁, rfl, ⟨e, y, st, hq, hs, _⟩, _⟩ := hh
  exact ⟨q, List.mem_append_right _ List.mem_cons_self, e, y, st, hq, hs⟩

/-! ## The table and the calls -/

/-- Whether the envelope is in the table after a call. -/
theorem stored_enqueueTable {y : RecipientId × StoredEnvelope U} {now seq : Nat} {ids : List U}
    {t : Envelopes} :
    (keyFor y.1 y.2.id = keyFor x.1 x.2.id ∧
      (Stored (enqueueTable y.1 y.2.id (storedValue now seq y.2) ids t) x ↔ Same x y)) ∨
    (keyFor y.1 y.2.id ≠ keyFor x.1 x.2.id ∧
      ((enqueueTable y.1 y.2.id (storedValue now seq y.2) ids t).get (keyFor x.1 x.2.id) = none ∨
        (Stored (enqueueTable y.1 y.2.id (storedValue now seq y.2) ids t) x ↔ Stored t x))) := by
  unfold enqueueTable Stored
  rw [OrdMap.get_insert, OrdMap.get_eraseAll]
  by_cases hk : keyFor x.1 x.2.id = keyFor y.1 y.2.id
  · refine Or.inl ⟨hk.symm, ?_⟩
    rw [if_pos hk]
    constructor
    · rintro ⟨v, hv, ht, hc⟩
      cases hv
      exact ⟨hk.symm, ht, hc⟩
    · rintro ⟨-, ht, hc⟩
      exact ⟨_, rfl, ht, hc⟩
  · refine Or.inr ⟨Ne.symm hk, ?_⟩
    rw [if_neg hk]
    split_ifs with hmem
    · exact Or.inl rfl
    · exact Or.inr Iff.rfl

/-- Once a call for the envelope was made, and while it was not evicted, it is in the table
    exactly if it is held. -/
def Judged (x : RecipientId × StoredEnvelope U) (h : BootPast U) (t : Envelopes) : Prop :=
  ¬EvictedIn x h → (∃ q ∈ h, CallsAt x q) → (Stored t x ↔ Held x h)

theorem judged_step {C : KeyCrates} {env : SecretEnv} {disk : DiskState U} {clocks : List Nat}
    {c c' : BootConfig U} {m : Move BootMove} (hb : InSync c.shared)
    (hc : Carried disk clocks c.shared.stage) (hj : Judged x h c.shared.host.envelopes)
    (hn : (bootMachine U C env).next m c = some c') :
    Judged x ((c, m) :: h) c'.shared.host.envelopes := by
  intro hev hcall
  have hev₀ : ¬EvictedIn x h := fun ⟨q, hq, hx⟩ => hev ⟨q, List.mem_cons_of_mem _ hq, hx⟩
  have hevp : ¬EvictsAt x (c, m) := fun hx => hev ⟨_, List.mem_cons_self, hx⟩
  rw [held_cons]
  rcases migration_next hb hc hn with ⟨hp, ht, -⟩ | ⟨e, d, y, rest, st, hp, hs, -, ht⟩
  · -- not a call
    have none_of : ∀ {P : StartEvent → RecipientId × StoredEnvelope U → QueueStore → Prop},
        ¬∃ e y st, enqueuing (c, m) = some (e, y, st) ∧ P e y st := by
      rintro P ⟨e, y, st, he, _⟩
      rw [hp] at he
      cases he
    have hcall₀ : ∃ q ∈ h, CallsAt x q := by
      obtain ⟨q, hq, hx⟩ := hcall
      rcases List.mem_cons.mp hq with rfl | hq
      · exact absurd hx none_of
      · exact ⟨q, hq, hx⟩
    have hheld : ¬HeldAt x (c, m) := none_of
    have hrepl : ¬ReplacesAt x (c, m) := none_of
    rw [ht, hj hev₀ hcall₀]
    exact ⟨fun hh => Or.inr ⟨hh, hrepl⟩, fun hh => (hh.resolve_left hheld).1⟩
  · -- a call for `y`
    have hst : st.envelopes = c.shared.host.envelopes := hb st (by rw [hs]; rfl)
    have the_call : ∀ {P : StartEvent → RecipientId × StoredEnvelope U → QueueStore → Prop},
        (∃ e y st, enqueuing (c, m) = some (e, y, st) ∧ P e y st) ↔ P e y st := by
      intro P
      constructor
      · rintro ⟨e', y', st', he, hP⟩
        rw [hp] at he
        cases he
        exact hP
      · exact fun hP => ⟨e, y, st, hp, hP⟩
    have hcalls : CallsAt x (c, m) ↔ Same x y := the_call
    have hheld : HeldAt x (c, m) ↔ Same x y ∧
        ((enqueueCall e y st).1.isOk = true ∨ Stored st.envelopes x) := the_call
    have hrepl : ReplacesAt x (c, m) ↔ keyFor y.1 y.2.id = keyFor x.1 x.2.id ∧ ¬Same x y ∧
        (enqueueCall e y st).1.isOk = true := the_call
    have hevict : ¬(Stored st.envelopes x ∧
        (enqueueCall e y st).2.envelopes.get (keyFor x.1 x.2.id) = none) :=
      fun hx => hevp (the_call.mpr hx)
    have hbefore : (∃ q ∈ h, CallsAt x q) ∨ Same x y := by
      obtain ⟨q, hq, hx⟩ := hcall
      rcases List.mem_cons.mp hq with rfl | hq
      · exact Or.inr (hcalls.mp hx)
      · exact Or.inl ⟨q, hq, hx⟩
    have hstill : (∃ q ∈ h, CallsAt x q) → (Stored st.envelopes x ↔ Held x h) := by
      rw [hst]
      exact hj hev₀
    rw [ht, hheld, hrepl]
    rcases enqueueCall_cases e y st with ⟨hok, henv⟩ | ⟨hok, ids, henv⟩
    · -- the call fails, and the table is as before
      rw [henv]
      constructor
      · intro hx
        by_cases hs : Same x y
        · exact Or.inl ⟨hs, Or.inr hx⟩
        · refine Or.inr ⟨(hstill (hbefore.resolve_right hs)).mp hx, fun hr => ?_⟩
          rw [hok] at hr
          exact Bool.false_ne_true hr.2.2
      · rintro (⟨-, hs | hx⟩ | ⟨hh, -⟩)
        · rw [hok] at hs
          cases hs
        · exact hx
        · exact (hstill hh.called).mpr hh
    · rw [henv] at hevict ⊢
      rcases stored_enqueueTable (x := x) (y := y) (t := st.envelopes) with ⟨hk, hiff⟩ | ⟨hk, hiff⟩
      · -- `y` takes the key of the envelope
        rw [hiff]
        constructor
        · exact fun hs => Or.inl ⟨hs, Or.inl hok⟩
        · rintro (⟨hs, -⟩ | ⟨-, hr⟩)
          · exact hs
          · by_contra hs
            exact hr ⟨hk, hs, hok⟩
      · have hs : ¬Same x y := fun hs => hk hs.1
        have hold := hstill (hbefore.resolve_right hs)
        constructor
        · intro hx
          refine Or.inr ⟨?_, fun hr => hk hr.1⟩
          rcases hiff with hnone | hiff
          · obtain ⟨v, hv, _⟩ := hx
            rw [hnone] at hv
            cases hv
          · exact hold.mp (hiff.mp hx)
        · rintro (⟨hx, -⟩ | ⟨hh, -⟩)
          · exact absurd hx hs
          · rcases hiff with hnone | hiff
            · exact absurd ⟨hold.mpr hh, hnone⟩ hevict
            · exact hiff.mpr (hold.mpr hh)

/-! ## One process -/

/-- Has the process pruned its state? -/
def Stage.pruned : Stage U → Bool
  | .load | .resolve (.load _ _) | .keyOpen (.load _ _) _ | .keyWrite (.load _ _) _ _
  | .keySync (.load _ _) _ | .decrypt _ _ _ | .init _ | .prune _ => false
  | _ => true

/-- A process that has pruned its state stays past that. -/
theorem pruned_stepped {C : KeyCrates} {env : SecretEnv} {e : StartEvent} {s s' : Stage U}
    {h h' : Host U} (hs : s.Stepped C env e h s' h') (hp : s.pruned = true) :
    s'.pruned = true := by
  cases hs with
  | resolved p | generate p | opened p | wrote p | wroteAll p | synced p =>
    cases p
    · cases hp
    · rfl
  | loadNone | loadPlain | loadSealed | decrypted | kept | generated => cases hp
  | _ => rfl

/-- What one process has done so far. -/
structure Single (disk : DiskState U) (h : BootPast U) (b : Boot U) : Prop where
  sync : InSync b
  judged : ∀ x : RecipientId × StoredEnvelope U, Judged x h b.host.envelopes
  called : ∀ x ∈ disk.legacy, x ∈ b.stage.waiting disk.legacy ∨ ∃ q ∈ h, CallsAt x q
  unpruned : b.stage.pruned = false → pruneClocks h = []
  once : (pruneClocks h).length ≤ 1

theorem single_start {disk : DiskState U} {host : Host U} :
    Single disk [] (firstBoot host).shared where
  sync := fun st hst => by cases hst
  judged := fun x _ ⟨_, hq, _⟩ => absurd hq List.not_mem_nil
  called := fun x hx => Or.inl hx
  unpruned := fun _ => rfl
  once := Nat.zero_le 1

theorem single_step {C : KeyCrates} {env : SecretEnv} {disk : DiskState U}
    {c c' : BootConfig U} {m : Move BootMove} (hs : Single disk h c.shared)
    (hc : Carried disk (pruneClocks h) c.shared.stage) (hg : OneProcess h c m)
    (hn : (bootMachine U C env).next m c = some c') : Single disk ((c, m) :: h) c'.shared := by
  have hsync := inSync_next hs.sync hn
  have hjudged := fun x => judged_step hs.sync hc (hs.judged x) hn
  have hmove := migration_next hs.sync hc hn
  rcases boot_next hn with ⟨rfl, rfl⟩ | ⟨e, s', h', rfl, hstep, rfl⟩
  · exact absurd rfl hg
  have hstep := Stage.stepped_of_step hstep
  have hclocks : pruneClocks ((c, .env (.step e)) :: h) = pruneClocks h ∨
      ∃ d, c.shared.stage = .prune d ∧
        pruneClocks ((c, .env (.step e)) :: h) = e.now :: pruneClocks h := by
    unfold pruneClocks
    rw [List.filterMap_cons]
    cases hst : c.shared.stage with
    | prune d =>
      right
      simp only [pruneClock, hst]
      exact ⟨d, rfl, trivial⟩
    | _ =>
      left
      simp only [pruneClock, hst]
  refine ⟨hsync, hjudged, ?_, ?_, ?_⟩
  · intro x hx
    rcases hs.called x hx with hw | ⟨q, hq, hcall⟩
    · rcases hmove with ⟨-, -, hquiet⟩ | ⟨e', d, y, rest, st, hp, hst, hst', -⟩
      · left
        rcases hquiet with ⟨hr, -⟩ | hf | ⟨-, hsame, -⟩
        · exact absurd hr hg
        · rw [hf]
          exact hx
        · rw [hsame]
          exact hw
      · rw [hst] at hw
        rcases List.mem_cons.mp hw with rfl | hw
        · exact Or.inr ⟨_, List.mem_cons_self, e', x, st, hp, rfl, rfl, rfl⟩
        · left
          rw [hst']
          exact hw
    · exact Or.inr ⟨q, List.mem_cons_of_mem _ hq, hcall⟩
  · intro hp
    have hpruned : c.shared.stage.pruned = false := by
      cases hold : c.shared.stage.pruned with
      | false => rfl
      | true =>
        rw [pruned_stepped hstep hold] at hp
        cases hp
    rcases hclocks with heq | ⟨d, hd, -⟩
    · rw [heq, hs.unpruned hpruned]
    · rw [hd] at hstep
      cases hstep <;> cases hp
  · rcases hclocks with heq | ⟨d, hd, heq⟩
    · rw [heq]
      exact hs.once
    · rw [heq, hs.unpruned (by rw [hd]; rfl)]
      exact le_rfl

/-! ## What is lost -/

/-- Is everything of the legacy state in the tables, but for the evicted envelopes, where
    the tables for the records were empty before? -/
structure NothingLost (disk : DiskState U) (before : Host U) (h : BootPast U) (after : Host U) :
    Prop where
  envelopes : ∀ x ∈ disk.legacy, Stored after.envelopes x ∨ EvictedIn x h
  auth : before.tables.auth.entries.isEmpty = true →
    ∀ e ∈ disk.records, after.tables.auth.get e.1 = some e.2
  bundles : before.tables.bundles.entries.isEmpty = true →
    ∀ now ∈ pruneClocks h, ∀ e ∈ disk.unexpired now, after.tables.bundles.get e.1 = some e.2

/-- A start that comes to the rename has lost nothing of the legacy state, exactly if every
    envelope is evicted or held, and where a table of records was empty, no two records for
    it are of one id. -/
theorem nothing_lost_iff {C : KeyCrates} {env : SecretEnv} {disk : DiskState U} {host : Host U}
    (hfile : host.stateFile = some disk) {h : BootPast U} {c : BootConfig U}
    (ht : Trace (bootMachine U C env) OneProcess (firstBoot host) h c) {K : DiskCrypto}
    {st : QueueStore} (hdone : c.shared.stage = .done K st) :
    NothingLost disk host h c.shared.host ↔
      (∀ x ∈ disk.legacy, EvictedIn x h ∨ Held x h) ∧
      (host.tables.auth.entries.isEmpty = true → Agree disk.records) ∧
      (host.tables.bundles.entries.isEmpty = true →
        ∀ now ∈ pruneClocks h, Agree (disk.unexpired now)) := by
  obtain ⟨hm, hs⟩ := ht.invariant
    (P := fun h c => MetaAt disk host.tables h c.shared ∧ Single disk h c.shared)
    ⟨metaAt_start hfile, single_start⟩ (by
      intro h c m c' ⟨hm, hs⟩ hg hn
      exact ⟨metaAt_step hm (fun hr => absurd hr hg) hn, single_step hs hm.carried hg hn⟩)
  have hauth := hm.authDone (by rw [hdone]; rfl)
  obtain ⟨now, hnow, hbundles⟩ := hm.bundlesDone (by rw [hdone]; rfl)
  have honly : ∀ now' ∈ pruneClocks h, now' = now := by
    have hone := hs.once
    intro now' hnow'
    cases hl : pruneClocks h with
    | nil =>
      rw [hl] at hnow
      cases hnow
    | cons t l =>
      rw [hl] at hone hnow hnow'
      rw [List.length_eq_zero_iff.mp (Nat.le_zero.mp (Nat.le_of_succ_le_succ hone))] at hnow hnow'
      rw [List.mem_singleton.mp hnow', List.mem_singleton.mp hnow]
  have hkept : ∀ x ∈ disk.legacy,
      (Stored c.shared.host.envelopes x ∨ EvictedIn x h ↔ EvictedIn x h ∨ Held x h) := by
    intro x hx
    have hcalled : ∃ q ∈ h, CallsAt x q := by
      refine (hs.called x hx).resolve_left fun hw => ?_
      rw [hdone] at hw
      cases hw
    by_cases hev : EvictedIn x h
    · exact iff_of_true (Or.inr hev) (Or.inl hev)
    · rw [hs.judged x hev hcalled]
      exact Or.comm
  constructor
  · rintro ⟨hE, hA, hB⟩
    refine ⟨fun x hx => (hkept x hx).mp (hE x hx), fun he => ?_, fun he now' hnow' => ?_⟩
    · rw [← migrated_holds_iff disk.records he, ← hauth]
      exact hA he
    · have hget := hB he now' hnow'
      rw [honly now' hnow'] at hget ⊢
      rw [← migrated_holds_iff (disk.unexpired now) he, ← hbundles]
      exact hget
  · rintro ⟨hE, hA, hB⟩
    refine ⟨fun x hx => (hkept x hx).mpr (hE x hx), fun he => ?_, fun he now' hnow' => ?_⟩
    · rw [hauth]
      exact (migrated_holds_iff disk.records he).mpr (hA he)
    · rw [honly now' hnow', hbundles]
      exact (migrated_holds_iff (disk.unexpired now) he).mpr (hB he now hnow)

end Envelopes

/-! ## Two starts -/

/-- A start without failures comes to its end, and holds the envelope. -/
theorem nothing_lost_sample : ∃ (h : BootPast SampleUuid) (c : BootConfig SampleUuid),
    c.shared.stage.running = some oneKey ∧
      ∀ x ∈ legacyDisk.legacy, EvictedIn x h ∨ Held x h := by
  obtain ⟨h, c, ht, hp⟩ := exists_trace
    (M := bootMachine SampleUuid sampleKeyCrates bareEnv) (G := OneProcess)
    (c := firstBoot legacyHost) (legacyStart [])
    (p := fun r => decide (r.2.shared.stage.running = some oneKey) &&
      (r.2.shared.host.envelopes.get (keyFor "alice" SampleUuid.u1)).any
        (fun v => decide (v.t = "Msg" ∧ v.c = "c")) &&
      decide (∀ e ∈ legacyDisk.records, r.2.shared.host.tables.auth.get e.1 = some e.2) &&
      decide (∀ now ∈ pruneClocks r.1, ∀ e ∈ legacyDisk.unexpired now,
        r.2.shared.host.tables.bundles.get e.1 = some e.2)) (by decide +kernel)
  simp only [Bool.and_eq_true, decide_eq_true_eq] at hp
  obtain ⟨⟨⟨hrun, henv⟩, hauth⟩, hbundles⟩ := hp
  refine ⟨h, c, hrun, ?_⟩
  obtain ⟨st, hdone⟩ := Stage.done_of_running hrun
  have hkept : NothingLost legacyDisk legacyHost h c.shared.host := by
    refine ⟨fun x hx => ?_, fun _ => hauth, fun _ => hbundles⟩
    obtain ⟨v, hv, hvc⟩ := (Option.any_eq_true _ _).mp henv
    rw [List.mem_singleton.mp hx]
    exact Or.inl ⟨v, hv, of_decide_eq_true hvc⟩
  exact ((nothing_lost_iff rfl ht hdone).mp hkept).1

/-- The write of the one enqueue fails, and the state file is replaced all the same. -/
theorem legacy_lost : ¬∀ (disk : DiskState SampleUuid) (host : Host SampleUuid)
    (h : BootPast SampleUuid) (c : BootConfig SampleUuid) (K : DiskCrypto) (st : QueueStore),
    host.stateFile = some disk →
    Trace (bootMachine SampleUuid sampleKeyCrates bareEnv) OneProcess (firstBoot host) h c →
    c.shared.stage = .done K st → NothingLost disk host h c.shared.host := by
  intro hall
  obtain ⟨h, c, ht, hp⟩ := exists_trace
    (M := bootMachine SampleUuid sampleKeyCrates bareEnv) (G := OneProcess)
    (c := firstBoot legacyHost) (legacyStart [true])
    (p := fun r => r.2.shared.stage.running.isSome && r.2.shared.host.envelopes.entries.isEmpty &&
      r.1.all fun p => (enqueuing p).all fun q => q.2.2.envelopes.entries.isEmpty)
    (by decide +kernel)
  simp only [Bool.and_eq_true] at hp
  obtain ⟨⟨hrun, hempty⟩, hbefore⟩ := hp
  obtain ⟨K, hrun⟩ := Option.isSome_iff_exists.mp hrun
  obtain ⟨st, hdone⟩ := Stage.done_of_running hrun
  have hmem : ("alice", ⟨.u1, "alice", "Msg", "c"⟩) ∈ legacyDisk.legacy := List.mem_cons_self
  rcases (hall _ _ h c K st rfl ht hdone).envelopes _ hmem with ⟨v, hv, _⟩ | ⟨p, hpm, hev⟩
  · rw [get_of_isEmpty hempty] at hv
    cases hv
  · obtain ⟨e, y, st', he, ⟨v, hv, _⟩, _⟩ := hev
    have hst := List.all_eq_true.mp hbefore p hpm
    rw [he] at hst
    rw [get_of_isEmpty hst] at hv
    cases hv

end AxenoRelay
