/-
  What the connections and the invites can take up.

  `handle_socket` counts itself before it does anything and gives its place back at its end,
  so the counter is the number of sockets that are not over (`Capped.conns`) and stays within
  `MAX_CONNECTIONS`. An open channel belongs to such a socket and nothing is pushed onto a
  full one, so the frames that wait in open channels are bounded. UploadBundle looks at the
  number of bundles some steps before it inserts, so `MAX_BUNDLES` can be passed, but only by
  as many as there are sockets between the two (`Capped.bundles`).
-/
import AxenoRelay.Lib.Owners
import AxenoRelay.Ws.MailboxCap
import AxenoRelay.Ws.Routes

namespace AxenoRelay

open Interleave

variable {U : Type}

/-! ## Places and channels -/

namespace SocketPc

/-- The socket holds its place among the connections. -/
def live : SocketPc U → Nat
  | closed => 0
  | _ => 1

/-- The handler has seen room for another bundle and has not inserted its own. -/
def uploading : SocketPc U → Nat
  | uploadBytes _ _ _ _ | uploadInsert _ _ _ _ => 1
  | _ => 0

end SocketPc

def RelayTask.live : RelayTask U → Nat
  | .socket _ pc => pc.live
  | _ => 0

def RelayTask.uploading : RelayTask U → Nat
  | .socket _ pc => pc.uploading
  | _ => 0

/-- The frames in a channel that the writer task has not taken. -/
def Chan.waiting (c : Chan U) : Nat := c.sent.length - c.taken

/-- The frames that wait in open channels. -/
def Relay.waiting (w : Relay U) : Nat := ((w.chans.filter Chan.isOpen).map Chan.waiting).sum

theorem SocketPc.uploading_le_live (pc : SocketPc U) : pc.uploading ≤ pc.live := by
  cases pc <;> first | exact Nat.zero_le _ | exact le_refl _

theorem RelayTask.uploading_le_live (t : RelayTask U) : t.uploading ≤ t.live := by
  cases t with
  | socket s pc => exact pc.uploading_le_live
  | _ => exact le_refl 0

/-- What one step does to the channels: nothing, a push where there is room, or a close. -/
inductive ChanStep (l : List (Chan U)) : List (Chan U) → Prop
  | same : ChanStep l l
  | pushed (sid : Nat) (c : Chan U) (f : ServerFrame U) (hc : l[sid]? = some c)
      (hroom : c.hasRoom = true) : ChanStep l (l.set sid (c.push f))
  | closed (sid : Nat) : ChanStep l (l.modify sid fun c => { c with isOpen := false })

theorem Chan.waiting_push {c : Chan U} (h : c.hasRoom = true) (f : ServerFrame U) :
    (c.push f).waiting ≤ outboundQueueCapacity := by
  have hroom : c.sent.length - c.taken < outboundQueueCapacity := of_decide_eq_true h
  have hlen : (c.push f).sent.length = c.sent.length + 1 := by simp [push]
  have htaken : (c.push f).taken = c.taken := rfl
  unfold waiting
  omega

/-- No channel gets more than it has room for. -/
theorem ChanStep.bounded {l l' : List (Chan U)} (h : ChanStep l l')
    (hl : ∀ c ∈ l, c.waiting ≤ outboundQueueCapacity) :
    ∀ c ∈ l', c.waiting ≤ outboundQueueCapacity := by
  intro c hc
  cases h with
  | same => exact hl c hc
  | pushed sid d f hd hroom =>
    rcases mem_set_cases hc with rfl | hc
    · exact Chan.waiting_push hroom f
    · exact hl c hc
  | closed sid =>
    obtain ⟨i, hi⟩ := List.getElem?_of_mem hc
    rw [List.getElem?_modify] at hi
    obtain ⟨d, hd, rfl⟩ := Option.map_eq_some_iff.mp hi
    have hle := hl d (List.mem_of_getElem? hd)
    split_ifs
    · exact hle
    · exact hle

theorem trySend_chans (w : Relay U) (sid : Nat) (f : ServerFrame U) :
    ChanStep w.chans (w.trySend sid f).2.chans := by
  unfold Relay.trySend Chan.trySend
  cases hc : w.chans[sid]? with
  | none => exact ChanStep.same
  | some c =>
    dsimp only
    split_ifs with hroom
    · exact ChanStep.pushed sid c f hc (Bool.and_eq_true_iff.mp hroom).2
    · obtain ⟨hlt, rfl⟩ := List.getElem?_eq_some_iff.mp hc
      rw [List.set_getElem_self]
      exact ChanStep.same

theorem awaitSend_chans {w : Relay U} {sid : Nat} {f : ServerFrame U} {r : Bool × Relay U}
    (h : SocketPc.awaitSend w sid f = some r) : ChanStep w.chans r.2.chans := by
  unfold SocketPc.awaitSend at h
  cases hc : w.chans[sid]? with
  | none =>
    rw [hc] at h
    cases h
    exact ChanStep.same
  | some c =>
    rw [hc] at h
    dsimp only at h
    split_ifs at h with hclosed hroom
    · cases h
      exact ChanStep.same
    · cases h
      exact ChanStep.pushed sid c f hc hroom

/-- A channel that is open after a step was open before it. -/
theorem ChanStep.open_before {l l' : List (Chan U)} (h : ChanStep l l') {sid : Nat} {c : Chan U}
    (hc : l'[sid]? = some c) (hopen : c.isOpen = true) :
    ∃ d, l[sid]? = some d ∧ d.isOpen = true := by
  cases h with
  | same => exact ⟨c, hc, hopen⟩
  | pushed k d f hd hroom =>
    rcases getElem?_set_cases hc with ⟨rfl, rfl⟩ | ⟨_, hold⟩
    · exact ⟨d, hd, hopen⟩
    · exact ⟨c, hold, hopen⟩
  | closed k =>
    rw [List.getElem?_modify] at hc
    obtain ⟨d, hd, rfl⟩ := Option.map_eq_some_iff.mp hc
    split_ifs at hopen
    exact ⟨d, hd, hopen⟩

/-! ## One step -/

section

variable {C : Crates} {e : RelayEvent U} {s s' : Socket} {pc pc' : SocketPc U} {w w' : Relay U}

theorem SocketPc.Plain.live {pc : SocketPc U} (h : pc.Plain) : pc.live = 1 := by
  cases pc <;> first | rfl | exact h.elim

theorem SocketPc.afterPrune_uploading (f : ClientFrame U) : (afterPrune f).uploading = 0 := by
  cases f <;> rfl

theorem SocketPc.fileReply_uploading (r id : String) (i : Nat) (res : FileResult) :
    (fileReply C r id i res : SocketPc U).uploading = 0 := by
  unfold fileReply
  split <;> rfl

theorem SocketPc.fileNotRun_uploading (r id : String) (t : FileTask) :
    (fileNotRun r id t : SocketPc U).uploading = 0 := by
  cases t <;> rfl

variable [UuidText U] [DecidableEq U]

theorem SocketPc.step_chans (h : step C e s w pc = some (s', pc', w')) :
    ChanStep w.chans w'.chans := by
  have hs := stepped_of_step h
  cases hs
  case said => exact trySend_chans _ _ _
  case helloOk => exact trySend_chans _ _ _
  case helloPush =>
    obtain ⟨r, hr, heq⟩ := Option.map_eq_some_iff.mp h
    rw [← (Prod.mk.inj (Prod.mk.inj heq).2).2]
    exact awaitSend_chans hr
  case helloSynced =>
    rw [step] at h
    split_ifs at h
    · obtain ⟨r, hr, heq⟩ := Option.map_eq_some_iff.mp h
      rw [← (Prod.mk.inj (Prod.mk.inj heq).2).2]
      exact awaitSend_chans hr
    · rw [← (Prod.mk.inj (Prod.mk.inj (Option.some.inj h)).2).2]
      exact ChanStep.same
  case sendPushed r m ty ct sid c hnew honline hc =>
    rw [step, if_neg hnew] at h
    dsimp only at h
    rw [honline] at h
    dsimp only at h
    have hsend := trySend_chans { w with issued := e.uuid :: w.issued } sid
      (.envelope ⟨e.uuid, m, ty, ct⟩)
    rcases htry : ({ w with issued := e.uuid :: w.issued } : Relay U).trySend sid
      (.envelope ⟨e.uuid, m, ty, ct⟩) with ⟨b, w₁⟩
    rw [htry] at h hsend
    cases b with
    | false => cases (Prod.mk.inj (Prod.mk.inj (Option.some.inj h)).2).1
    | true =>
      rw [← (Prod.mk.inj (Prod.mk.inj (Option.some.inj h)).2).2]
      exact hsend
  case closeEnd => exact ChanStep.closed _
  all_goals exact ChanStep.same

/-- The counter of connections stays, and so does the place, up to the last step, which closes
    the channel. -/
theorem SocketPc.step_conns (h : step C e s w pc = some (s', pc', w')) :
    pc.live = 1 ∧ (pc'.live = 1 ∧ w'.app.connCount = w.app.connCount ∨
      pc'.live = 0 ∧ w'.app.connCount = w.app.connCount - 1 ∧
        w'.chans = w.chans.modify s.sid fun c => { c with isOpen := false }) := by
  have hs := stepped_of_step h
  cases hs
  case inner hin => exact ⟨hin.source.live, Or.inl ⟨hin.target.live, rfl⟩⟩
  case said f last =>
    refine ⟨rfl, Or.inl ⟨?_, by rw [Relay.say_app]⟩⟩
    split <;> rfl
  case helloOk certOnly f =>
    refine ⟨rfl, Or.inl ⟨?_, by rw [Relay.say_app]⟩⟩
    split <;> rfl
  case pruned hp =>
    refine ⟨rfl, Or.inl ⟨rfl, ?_⟩⟩
    cases PruneTask.stepped_of_step hp <;> rfl
  case hello hentry _ =>
    refine ⟨rfl, Or.inl ⟨rfl, ?_⟩⟩
    rcases helloEntry_cases hentry with ⟨_, _, _, _, rfl⟩ | ⟨_, _, _, rfl⟩ <;> rfl
  case closeEnd n =>
    have heq := (Prod.mk.inj (Prod.mk.inj (Option.some.inj h)).2).2
    exact ⟨rfl, Or.inr ⟨rfl, by rw [← heq], rfl⟩⟩
  all_goals exact ⟨rfl, Or.inl ⟨rfl, rfl⟩⟩

/-- A step does not add to the bundles and the uploads under way, or it is one that has seen
    room for a bundle. -/
theorem SocketPc.step_uploading (h : step C e s w pc = some (s', pc', w')) :
    w'.app.bundles.size + pc'.uploading ≤ w.app.bundles.size + pc.uploading ∨
      w'.app.bundles = w.app.bundles ∧ w.app.bundles.size < maxBundles ∧ pc.uploading = 0 := by
  have hs := stepped_of_step h
  cases hs
  case inner hin =>
    cases hin
    case pruned f => exact Or.inl (by rw [afterPrune_uploading]; omega)
    case fileDone res r id i => exact Or.inl (by rw [fileReply_uploading]; omega)
    case fileLost t r id i _ _ => exact Or.inl (by rw [fileNotRun_uploading]; omega)
    case countOk r id ct x =>
      refine Or.inr ⟨rfl, ?_, rfl⟩
      have hpc := (Prod.mk.inj (Prod.mk.inj (Option.some.inj h)).2).1
      by_contra hfull
      rw [if_pos (Nat.le_of_not_lt hfull)] at hpc
      cases hpc
    case bytesOk => exact Or.inl (le_refl _)
    all_goals exact Or.inl (Nat.add_le_add_left (Nat.zero_le _) _)
  case said f last =>
    left
    rw [Relay.say_app]
    split <;> exact le_refl _
  case helloOk certOnly f =>
    left
    rw [Relay.say_app]
    split <;> exact le_refl _
  case pruned hp =>
    left
    cases PruneTask.stepped_of_step hp
    case removed id _ _ _ _ _ _ _ => exact Nat.add_le_add_right (OrdMap.size_erase_le _ id) _
    all_goals exact le_refl _
  case hello hentry _ =>
    left
    rcases helloEntry_cases hentry with ⟨_, _, _, _, rfl⟩ | ⟨_, _, _, rfl⟩ <;> exact le_refl _
  case uploadOver r id ct x b old hb hget =>
    left
    have hsize := OrdMap.size_insert_old hget b
    dsimp only [uploading]
    omega
  case uploadNew r id ct x b hb hget =>
    left
    have hsize := OrdMap.size_insert_new hget b
    dsimp only [uploading]
    omega
  all_goals exact Or.inl (le_refl _)

/-- A step of any task: what it does to the connections, to the bundles and to the channels. -/
structure RelayTask.Kept (t : RelayTask U) (w : Relay U) (t' : RelayTask U) (w' : Relay U) :
    Prop where
  conns : t'.live = t.live ∧ w'.app.connCount = w.app.connCount ∨
    t.live = 1 ∧ t'.live = 0 ∧ w'.app.connCount = w.app.connCount - 1
  uploads : w'.app.bundles.size + t'.uploading ≤ w.app.bundles.size + t.uploading ∨
    w'.app.bundles = w.app.bundles ∧ w.app.bundles.size < maxBundles ∧ t.uploading = 0
  chans : ChanStep w.chans w'.chans

theorem RelayTask.step_kept {t t' : RelayTask U} (h : t.step C e w = some (t', w')) :
    t.Kept w t' w' := by
  cases t with
  | socket s pc =>
    obtain ⟨⟨s', pc', w₁⟩, hs, heq⟩ := Option.map_eq_some_iff.mp h
    cases heq
    obtain ⟨hlive, hconns⟩ := SocketPc.step_conns hs
    refine ⟨?_, SocketPc.step_uploading hs, SocketPc.step_chans hs⟩
    rcases hconns with ⟨hlive', hcount⟩ | ⟨hlive', hcount, -⟩
    · exact Or.inl ⟨hlive'.trans hlive.symm, hcount⟩
    · exact Or.inr ⟨hlive, hlive', hcount⟩
  | flush f =>
    obtain ⟨⟨f', st⟩, hs, heq⟩ := Option.map_eq_some_iff.mp h
    cases heq
    cases FlushTask.stepped_of_step hs <;>
      exact ⟨Or.inl ⟨rfl, rfl⟩, Or.inl (le_refl _), ChanStep.same⟩
  | gc g =>
    obtain ⟨⟨g', st⟩, hs, heq⟩ := Option.map_eq_some_iff.mp h
    cases heq
    cases GcTask.stepped_of_step hs <;>
      exact ⟨Or.inl ⟨rfl, rfl⟩, Or.inl (le_refl _), ChanStep.same⟩
  | sweepQueues q =>
    obtain ⟨⟨q', st⟩, hs, heq⟩ := Option.map_eq_some_iff.mp h
    cases heq
    exact ⟨Or.inl ⟨rfl, rfl⟩, Or.inl (le_refl _), ChanStep.same⟩
  | sweepFiles f =>
    obtain ⟨⟨f', st⟩, hs, heq⟩ := Option.map_eq_some_iff.mp h
    cases heq
    exact ⟨Or.inl ⟨rfl, rfl⟩, Or.inl (le_refl _), ChanStep.same⟩

end

/-! ## Runs -/

/-- The number of the socket of a task. -/
def RelayTask.sid? : RelayTask U → Option Nat
  | .socket s _ => some s.sid
  | _ => none

/-- The counter, the places, the channels and the bundles keep within their bounds, if `bundles`
    had `n` entries at the start. -/
structure Capped (n : Nat) (c : RelayConfig U) : Prop where
  conns : c.shared.app.connCount = c.total RelayTask.live
  cap : c.shared.app.connCount ≤ maxConnections
  room : ∀ ch ∈ c.shared.chans, ch.waiting ≤ outboundQueueCapacity
  owned : ∀ sid ch, c.shared.chans[sid]? = some ch → ch.isOpen = true →
    ∃ t ∈ c.pool, 0 < t.live ∧ t.sid? = some sid
  bundles : c.shared.app.bundles.size + c.total RelayTask.uploading <
    max (n + 1) (maxBundles + maxConnections)

theorem capped_start {st : AppState} (h : st.connCount = 0) :
    Capped st.bundles.size (started st : RelayConfig U) := by
  refine ⟨h, ?_, fun ch hch => absurd hch List.not_mem_nil, fun sid ch hch => ?_, ?_⟩
  · have hcount : (started st : RelayConfig U).shared.app.connCount = 0 := h
    omega
  · cases hch
  · have htotal : (started st : RelayConfig U).total RelayTask.uploading = 0 := rfl
    rw [htotal]
    exact Nat.lt_of_lt_of_le (Nat.lt_succ_self _) (Nat.le_max_left _ _)

theorem uploading_le_live (c : RelayConfig U) :
    c.total RelayTask.uploading ≤ c.total RelayTask.live :=
  List.sum_le_sum fun t _ => t.uploading_le_live

variable {C : Crates} {c c' : RelayConfig U} {m : Move (RelayMove U)} {n : Nat}

theorem Capped.env {w : Relay U} (h : Capped n c) (hw : Wrote c.shared w) :
    Capped n ⟨w, c.pool⟩ := by
  have happ : w.app = c.shared.app := hw.app
  refine ⟨by rw [happ]; exact h.conns, by rw [happ]; exact h.cap, ?_, ?_,
    by rw [happ]; exact h.bundles⟩
  · cases hw with
    | drain sid d w hd =>
      intro ch hch
      rcases mem_set_cases hch with rfl | hch
      · have hle := h.room d (List.mem_of_getElem? hd)
        unfold Chan.waiting at hle ⊢
        dsimp only
        omega
      · exact h.room ch hch
    | drop sid w => exact (ChanStep.closed sid).bounded h.room
  · intro sid ch hch hopen
    cases hw with
    | drain k d w hd =>
      rcases getElem?_set_cases hch with ⟨rfl, rfl⟩ | ⟨_, hold⟩
      · exact h.owned _ d hd hopen
      · exact h.owned sid ch hold hopen
    | drop k w =>
      obtain ⟨d, hd, hd'⟩ := (ChanStep.closed k).open_before hch hopen
      exact h.owned sid d hd hd'

theorem Capped.waiting_le (h : Capped n c) :
    c.shared.waiting ≤ maxConnections * outboundQueueCapacity := by
  have hopen : c.shared.chans.countP Chan.isOpen ≤ c.total RelayTask.live :=
    Owners.countP_le h.owned
  have hsum : c.shared.waiting ≤ c.shared.chans.countP Chan.isOpen * outboundQueueCapacity := by
    unfold Relay.waiting
    rw [List.countP_eq_length_filter, ← smul_eq_mul, ← List.length_map Chan.waiting]
    refine List.sum_le_card_nsmul _ _ fun k hk => ?_
    obtain ⟨ch, hch, rfl⟩ := List.mem_map.mp hk
    exact h.room ch (List.mem_of_mem_filter hch)
  have hcap := h.cap
  rw [h.conns] at hcap
  exact hsum.trans (Nat.mul_le_mul_right _ (hopen.trans hcap))

variable [UuidText U] [DecidableEq U]

theorem Capped.spawn {ev : RelayMove U} {t : RelayTask U} {w : Relay U} (h : Capped n c)
    (hs : (relayMachine C).spawn ev c.shared = some (t, w)) : Capped n ⟨w, c.pool ++ [t]⟩ := by
  have hcases := spawned_of_spawn hs
  cases hcases with
  | connect now =>
    have hfree : c.shared.app.connCount < maxConnections := by
      cases ev <;> simp only [relayMachine] at hs
      case connect now' =>
        by_contra hfull
        rw [if_pos (Nat.le_of_not_lt hfull)] at hs
        cases hs
      all_goals cases hs
    refine ⟨?_, hfree, fun ch hch => ?_, fun sid ch hch hopen => ?_, ?_⟩
    · rw [total_spawn, ← h.conns]
      rfl
    · rcases List.mem_append.mp hch with hch | hch
      · exact h.room ch hch
      · rw [List.mem_singleton.mp hch]
        exact Nat.zero_le _
    · rcases getElem?_snoc_cases hch with hold | ⟨rfl, -⟩
      · obtain ⟨t, ht, hlive, hsid⟩ := h.owned sid ch hold hopen
        exact ⟨t, List.mem_append_left _ ht, hlive, hsid⟩
      · exact ⟨_, List.mem_append_right _ (List.mem_singleton.mpr rfl), Nat.one_pos, rfl⟩
    · rw [total_spawn]
      exact h.bundles
  | _ =>
    refine ⟨?_, h.cap, h.room, fun sid ch hch hopen => ?_, ?_⟩
    · rw [total_spawn]
      exact h.conns
    · obtain ⟨t, ht, hlive, hsid⟩ := h.owned sid ch hch hopen
      exact ⟨t, List.mem_append_left _ ht, hlive, hsid⟩
    · rw [total_spawn]
      exact h.bundles

/-- A socket that closes its channel leaves none of that number open. -/
theorem step_owned {t t' : RelayTask U} {e : RelayEvent U} {w w' : Relay U} {sid : Nat}
    {ch : Chan U} (hs : t.step C e w = some (t', w')) (hch : w'.chans[sid]? = some ch)
    (hopen : ch.isOpen = true) (hlive : 0 < t.live) (hsid : t.sid? = some sid) :
    0 < t'.live ∧ t'.sid? = some sid := by
  cases t with
  | socket s pc =>
    obtain ⟨⟨s', pc', w₁⟩, hstep, heq⟩ := Option.map_eq_some_iff.mp hs
    cases heq
    have hsame : s'.sid = s.sid := (SocketPc.stepped_of_step hstep).sid
    refine ⟨?_, by rw [← hsid, RelayTask.sid?, RelayTask.sid?, hsame]⟩
    rcases (SocketPc.step_conns hstep).2 with ⟨hpc, -⟩ | ⟨-, -, hchans⟩
    · exact Nat.lt_of_lt_of_eq Nat.one_pos hpc.symm
    · cases hsid
      rw [hchans, List.getElem?_modify] at hch
      obtain ⟨d, -, rfl⟩ := Option.map_eq_some_iff.mp hch
      simp at hopen
  | _ => cases hlive

theorem Capped.act {i : Nat} {e : RelayEvent U} {t t' : RelayTask U} {w : Relay U} (h : Capped n c)
    (ht : c.pool[i]? = some t) (hs : t.step C e c.shared = some (t', w)) :
    Capped n ⟨w, c.pool.set i t'⟩ := by
  have hk := RelayTask.step_kept hs
  have hmem := List.mem_of_getElem? ht
  have hconns := total_act RelayTask.live (u := t') (s := w) ht
  have huploads := total_act RelayTask.uploading (u := t') (s := w) ht
  have hlive := le_total (w := RelayTask.live) hmem
  have hcount := h.conns
  have hcap := h.cap
  have hnew : w.app.connCount =
      Config.total RelayTask.live (⟨w, c.pool.set i t'⟩ : RelayConfig U) ∧
        w.app.connCount ≤ maxConnections := by
    rcases hk.conns with ⟨hsame, heq⟩ | ⟨hone, hzero, heq⟩
    · omega
    · omega
  refine ⟨hnew.1, hnew.2, hk.chans.bounded h.room, fun sid ch hch hopen => ?_, ?_⟩
  · obtain ⟨d, hd, hd'⟩ := hk.chans.open_before hch hopen
    obtain ⟨u, hu, hulive, husid⟩ := h.owned sid d hd hd'
    obtain ⟨j, hj⟩ := List.getElem?_of_mem hu
    by_cases hij : i = j
    · subst hij
      obtain rfl : t = u := Option.some.inj (ht.symm.trans hj)
      exact ⟨t', mem_set_self ht t', step_owned hs hch hopen hulive husid⟩
    · exact ⟨u, List.mem_of_getElem? ((List.getElem?_set_ne hij).trans hj), hulive, husid⟩
  · have hbundles := h.bundles
    have hle := uploading_le_live (⟨w, c.pool.set i t'⟩ : RelayConfig U)
    have hconns' := hnew.1
    have hcap' := hnew.2
    dsimp only
    rcases hk.uploads with hadd | ⟨hsame, hroom, -⟩
    · have hle' : w.app.bundles.size +
          Config.total RelayTask.uploading (⟨w, c.pool.set i t'⟩ : RelayConfig U) ≤
            c.shared.app.bundles.size + c.total RelayTask.uploading := by
        omega
      exact Nat.lt_of_le_of_lt hle' hbundles
    · -- whoever sees room sees it below the cap
      rw [hsame]
      rw [hconns'] at hcap'
      exact (Nat.add_lt_add_of_lt_of_le hroom (hle.trans hcap')).trans_le (Nat.le_max_right _ _)

theorem Capped.step (h : Capped n c) (hn : (relayMachine C).next m c = some c') : Capped n c' := by
  cases m with
  | spawn ev =>
    obtain ⟨t, w, hs, rfl⟩ := next_spawn hn
    exact h.spawn hs
  | act i ev =>
    obtain ⟨t, t', w, ht, hs, rfl⟩ := next_act hn
    cases ev with
    | run e => exact h.act ht hs
    | _ => cases hs
  | env ev =>
    have hm := moved_of_next hn
    cases hm with
    | wrote ev c w hw => exact h.env hw

end AxenoRelay
