/-
  A log replayed into a bounded queue, with interruptions.

  `push` appends an element, drops from the front until all fits, and takes out an older
  copy of the element. Suppose the log is pushed from its start over and over, each time
  up to some place, and at last to its end. `Resumed` is what holds on the way: the queue
  is a rest `a` of what was there before, a rest `o` of earlier replays, and what this
  replay has pushed. At the end the queue is what one replay would have made of it
  (`Resumed.replayed`), if no push of an element that is still in the queue drops one that
  was there before the first replay.
-/
import AxenoRelay.Lib.Fifo

namespace Replay

variable {α : Type}

/-! ## Pushing -/

section Push

variable (fits : List α → Prop) [DecidablePred fits]

/-- How many elements go to make room for `e`. -/
def dropped (e : α) (l : List α) : Nat := Fifo.evicted (fun r => fits (r ++ [e])) l

def push [DecidableEq α] (e : α) (l : List α) : List α :=
  (l.drop (dropped fits e l)).filter (· ≠ e) ++ [e]

/-- The newest elements that fit together. -/
def keep (l : List α) : List α := l.drop (Fifo.evicted fits l)

/-- What a log leaves in a queue that held `pre`. -/
def replayed [DecidableEq α] (pre log : List α) : List α :=
  if log = [] then pre else keep fits (pre ++ log)

variable {fits}

theorem fits_drop_dropped {e : α} (he : fits [e]) (l : List α) :
    fits (l.drop (dropped fits e l) ++ [e]) :=
  @Fifo.fits_drop_evicted α (fun r => fits (r ++ [e])) _ he l

theorem not_fits_of_lt {e : α} {l : List α} {k : Nat} (h : k < dropped fits e l) :
    ¬fits (l.drop k ++ [e]) := by
  intro hk
  have hle := @Fifo.evicted_le_of_fits α (fun r => fits (r ++ [e])) _ l k hk
  exact absurd h (Nat.not_lt.mpr hle)

theorem dropped_le {e : α} (he : fits [e]) (l : List α) : dropped fits e l ≤ l.length :=
  @Fifo.evicted_le_length α (fun r => fits (r ++ [e])) _ he l

/-- The elements kept are those after the first `k`, if `k` is the least number to drop. -/
theorem keep_eq_drop {l : List α} {k : Nat} (hk : fits (l.drop k))
    (hmin : ∀ j < k, ¬fits (l.drop j)) (hall : fits []) : keep fits l = l.drop k := by
  have hle := Fifo.evicted_le_of_fits hk
  rcases Nat.lt_or_eq_of_le hle with hlt | heq
  · exact absurd (Fifo.fits_drop_evicted hall l) (hmin _ hlt)
  · rw [keep, heq]

end Push

/-- Fewer elements fit if more do, in any order, and each fits alone. -/
structure Bounded (fits : List α → Prop) (log : List α) : Prop where
  mono : ∀ {l l' : List α}, l.Subperm l' → fits l' → fits l
  single : ∀ e ∈ log, fits [e]

theorem Bounded.of_sublist {fits : List α → Prop} {log : List α} (hf : Bounded fits log)
    {l l' : List α} (h : l.Sublist l') (hl : fits l') : fits l := hf.mono h.subperm hl

/-! ## Lists -/

theorem filter_ne_of_not_mem [DecidableEq α] {e : α} {l : List α} (h : e ∉ l) :
    l.filter (· ≠ e) = l := by
  refine List.filter_eq_self.mpr fun x hx => ?_
  rw [decide_eq_true_eq]
  rintro rfl
  exact h hx

/-- A suffix of `a` that is longer than a drop contains one more element. -/
theorem drop_suffix_of_not_suffix {x a : List α} {k : Nat} (hx : x <:+ a)
    (h : ¬x <:+ a.drop k) : a.drop (k - 1) <:+ x := by
  have hlen : (a.drop k).length < x.length := by
    by_contra hle
    exact h (List.suffix_of_suffix_length_le hx (List.drop_suffix k a) (Nat.not_lt.mp hle))
  refine List.suffix_of_suffix_length_le (List.drop_suffix _ a) hx ?_
  rw [List.length_drop] at hlen ⊢
  omega

/-! ## On the way -/

/-- The queue is `a ++ o ++ n`: what is left of `pre`, what is left of earlier replays, and
    what this replay, which has pushed `fin` and not yet `rest`, has left, `d` dropped. -/
structure Layers (fits : List α → Prop) (pre log fin rest a o : List α) (d : Nat) : Prop where
  le : d ≤ fin.length
  suffix : a <:+ pre
  old : ∀ x ∈ o, x ∈ rest
  cut : 0 < d → a ++ o = [] ∧ ¬fits (fin.drop (d - 1))
  most : ∀ x, x <:+ pre → fits (x ++ log) → x <:+ a

/-- The queue `l` on the way. -/
structure Resumed (fits : List α → Prop) (pre log fin rest l : List α) : Prop where
  split : log = fin ++ rest
  nodup : l.Nodup
  idle : log = [] → l = pre
  fit : fits l ∨ l = pre
  layers : ∃ a o d, l = a ++ o ++ fin.drop d ∧ Layers fits pre log fin rest a o d

variable {fits : List α → Prop} {pre log fin rest l : List α} {e : α}

/-- Before the first replay. -/
theorem Resumed.start (hpre : pre.Nodup) : Resumed fits pre log [] log pre where
  split := rfl
  nodup := hpre
  idle _ := rfl
  fit := Or.inr rfl
  layers := by
    refine ⟨pre, [], 0, by simp, le_rfl, List.suffix_refl pre, ?_, ?_, fun x hx _ => hx⟩
    · intro x hx
      cases hx
    · intro h
      exact absurd h (Nat.lt_irrefl 0)

/-- An interrupted replay begins again: what it pushed is now left from an earlier one. -/
theorem Resumed.restart (h : Resumed fits pre log fin rest l) : Resumed fits pre log [] log l := by
  obtain ⟨a, o, d, hl, hlay⟩ := h.layers
  refine ⟨rfl, h.nodup, h.idle, h.fit, a, o ++ fin.drop d, 0, ?_, le_rfl, hlay.suffix, ?_, ?_,
    hlay.most⟩
  · rw [hl, List.drop_nil, List.append_nil, List.append_assoc]
  · intro x hx
    rw [h.split]
    rcases List.mem_append.mp hx with hx | hx
    · exact List.mem_append_right _ (hlay.old x hx)
    · exact List.mem_append_left _ (List.mem_of_mem_drop hx)
  · intro h0
    exact absurd h0 (Nat.lt_irrefl 0)

section

variable [DecidablePred fits] [DecidableEq α] {a o : List α} {d : Nat}

/-- The push drops nothing that this replay has pushed. -/
theorem Layers.push_old (hb : Bounded fits log) (hnd : (pre ++ log).Nodup)
    (hsplit : log = fin ++ e :: rest) (hl : l = a ++ o ++ fin.drop d) (hlnd : l.Nodup)
    (h : Layers fits pre log fin (e :: rest) a o d)
    (hspare : e ∈ l → ∀ x ∈ l.take (dropped fits e l), x ∉ pre)
    (hk : dropped fits e l ≤ (a ++ o).length) :
    push fits e l = a.drop (dropped fits e l) ++
        (o.drop (dropped fits e l - a.length)).filter (· ≠ e) ++ (fin ++ [e]).drop d ∧
      Layers fits pre log (fin ++ [e]) rest (a.drop (dropped fits e l))
        ((o.drop (dropped fits e l - a.length)).filter (· ≠ e)) d := by
  obtain ⟨-, hlog, hdisj⟩ := List.nodup_append.mp hnd
  have helog : e ∈ log := hsplit ▸ List.mem_append_right _ List.mem_cons_self
  have hepre : e ∉ pre := fun hmem => hdisj e hmem e helog rfl
  have hefin : e ∉ fin := by
    rw [hsplit] at hlog
    exact fun hmem => (List.nodup_append.mp hlog).2.2 e hmem e List.mem_cons_self rfl
  have hsub : (fin ++ [e]).Sublist log := by
    rw [hsplit]
    exact (List.singleton_sublist.mpr List.mem_cons_self).append_left fin
  -- what is left when `k` elements of the first two layers are gone
  have hdrop : ∀ k ≤ (a ++ o).length,
      l.drop k = a.drop k ++ o.drop (k - a.length) ++ fin.drop d := by
    intro k hk
    rw [hl, List.drop_append_of_le_length hk, List.drop_append]
  have happend : (fin ++ [e]).drop d = fin.drop d ++ [e] := List.drop_append_of_le_length h.le
  constructor
  · unfold push
    rw [hdrop _ hk, List.filter_append, List.filter_append,
      filter_ne_of_not_mem fun hmem => hepre (h.suffix.subset (List.mem_of_mem_drop hmem)),
      filter_ne_of_not_mem fun hmem => hefin (List.mem_of_mem_drop hmem), happend,
      ← List.append_assoc]
  · refine ⟨?_, ?_, ?_, ?_, ?_⟩
    · rw [List.length_append]
      exact h.le.trans (Nat.le_add_right _ _)
    · exact (List.drop_suffix _ a).trans h.suffix
    · intro x hx
      obtain ⟨hmem, hne⟩ := List.mem_filter.mp hx
      rcases List.mem_cons.mp (h.old x (List.mem_of_mem_drop hmem)) with rfl | hrest
      · exact absurd rfl (of_decide_eq_true hne)
      · exact hrest
    · intro hd
      obtain ⟨hnil, hcut⟩ := h.cut hd
      obtain ⟨rfl, rfl⟩ := List.append_eq_nil_iff.mp hnil
      refine ⟨by simp, fun hfit => hcut ?_⟩
      exact hb.of_sublist ((List.sublist_append_left fin [e]).drop (d - 1)) hfit
    · intro x hx hfit
      have hxa := h.most x hx hfit
      by_contra hnot
      have hpos : 0 < dropped fits e l := by
        by_contra hzero
        rw [Nat.eq_zero_of_not_pos hzero, List.drop_zero] at hnot
        exact hnot hxa
      by_cases hel : e ∈ l
      · -- a push of a stored element drops nothing of `pre`, so nothing of it is left
        cases a with
        | nil =>
          rw [List.suffix_nil.mp hxa] at hnot
          exact hnot List.nil_suffix
        | cons y a =>
          have hmem : y ∈ l.take (dropped fits e l) := by
            obtain ⟨k, hk⟩ := Nat.exists_eq_succ_of_ne_zero hpos.ne'
            rw [hk, hl]
            exact List.mem_cons_self
          exact hspare hel y hmem (h.suffix.subset List.mem_cons_self)
      · have hlt : dropped fits e l - 1 < dropped fits e l := Nat.sub_lt hpos Nat.one_pos
        refine not_fits_of_lt hlt (hb.mono ?_ hfit)
        rw [hdrop _ (hlt.le.trans hk), List.append_assoc, List.append_assoc]
        refine List.Subperm.append (drop_suffix_of_not_suffix hxa hnot).sublist.subperm ?_
        refine List.Nodup.subperm ?_ ?_
        · rw [← List.append_assoc]
          refine List.nodup_append.mpr ⟨?_, List.nodup_singleton e, ?_⟩
          · refine hlnd.sublist ?_
            rw [hl, List.append_assoc]
            exact ((List.drop_sublist _ o).append_right _).trans (List.sublist_append_right a _)
          · intro y hy z hz
            rw [List.mem_singleton.mp hz]
            rintro rfl
            refine hel (hl ▸ ?_)
            rcases List.mem_append.mp hy with hy | hy
            · exact List.mem_append_left _ (List.mem_append_right _ (List.mem_of_mem_drop hy))
            · exact List.mem_append_right _ hy
        · intro y hy
          rcases List.mem_append.mp hy with hy | hy
          · rw [hsplit]
            exact List.mem_append_right _ (h.old y (List.mem_of_mem_drop hy))
          · refine hsub.subset ?_
            rcases List.mem_append.mp hy with hy | hy
            · exact List.mem_append_left _ (List.mem_of_mem_drop hy)
            · exact List.mem_append_right _ hy

/-- The push drops all that was there before this replay. -/
theorem Layers.push_new (hb : Bounded fits log) (hsplit : log = fin ++ e :: rest)
    (hnd : log.Nodup) (hl : l = a ++ o ++ fin.drop d)
    (hk : (a ++ o).length < dropped fits e l) :
    push fits e l = (fin ++ [e]).drop (d + (dropped fits e l - (a ++ o).length)) ∧
      Layers fits pre log (fin ++ [e]) rest [] []
        (d + (dropped fits e l - (a ++ o).length)) := by
  have helog : e ∈ log := hsplit ▸ List.mem_append_right _ List.mem_cons_self
  have hefin : e ∉ fin := by
    rw [hsplit] at hnd
    exact fun hmem => (List.nodup_append.mp hnd).2.2 e hmem e List.mem_cons_self rfl
  have hsub : (fin ++ [e]).Sublist log := by
    rw [hsplit]
    exact (List.singleton_sublist.mpr List.mem_cons_self).append_left fin
  have hdrop : ∀ k, (a ++ o).length ≤ k → l.drop k = fin.drop (d + (k - (a ++ o).length)) := by
    intro k hk
    rw [hl, List.drop_append, List.drop_eq_nil_of_le hk, List.nil_append, List.drop_drop]
  have hle : d + (dropped fits e l - (a ++ o).length) ≤ fin.length := by
    have hdl := dropped_le (hb.single e helog) l
    have hlen := congrArg List.length hl
    rw [List.length_append, List.length_drop] at hlen
    omega
  constructor
  · unfold push
    rw [hdrop _ hk.le, filter_ne_of_not_mem fun hmem => hefin (List.mem_of_mem_drop hmem),
      List.drop_append_of_le_length hle]
  · have hcut : ¬fits ((fin ++ [e]).drop (d + (dropped fits e l - (a ++ o).length) - 1)) := by
      have hlt : dropped fits e l - 1 < dropped fits e l := by omega
      have hnot := not_fits_of_lt hlt
      rw [hdrop _ (by omega)] at hnot
      have hidx : d + (dropped fits e l - (a ++ o).length) - 1 =
          d + (dropped fits e l - 1 - (a ++ o).length) := by omega
      rw [hidx, List.drop_append_of_le_length (by omega)]
      exact hnot
    refine ⟨?_, List.nil_suffix, ?_, fun _ => ⟨rfl, hcut⟩, ?_⟩
    · refine hle.trans ?_
      rw [List.length_append]
      exact Nat.le_add_right _ _
    · intro x hx
      cases hx
    · intro x hx hfit
      refine absurd (hb.of_sublist ?_ hfit) hcut
      exact ((List.drop_sublist _ _).trans hsub).trans (List.sublist_append_right x log)

/-- One push of the next element of the log. -/
theorem Resumed.push (hb : Bounded fits log)
    (hnd : (pre ++ log).Nodup) (h : Resumed fits pre log fin (e :: rest) l)
    (hspare : e ∈ l → ∀ x ∈ l.take (dropped fits e l), x ∉ pre) :
    Resumed fits pre log (fin ++ [e]) rest (Replay.push fits e l) := by
  have helog : e ∈ log := by
    rw [h.split]
    exact List.mem_append_right _ List.mem_cons_self
  have hsub : (Replay.push fits e l).Sublist (l.drop (dropped fits e l) ++ [e]) :=
    List.filter_sublist.append_right [e]
  obtain ⟨a, o, d, hl, hlay⟩ := h.layers
  refine ⟨?_, ?_, ?_, Or.inl ?_, ?_⟩
  · rw [h.split, List.append_assoc]
    rfl
  · refine List.nodup_append.mpr ⟨(h.nodup.sublist (List.drop_sublist _ _)).filter _,
      List.nodup_singleton e, ?_⟩
    intro x hx y hy
    rw [List.mem_singleton.mp hy]
    exact of_decide_eq_true (List.mem_filter.mp hx).2
  · intro hnil
    rw [hnil] at helog
    cases helog
  · exact hb.of_sublist hsub (fits_drop_dropped (hb.single e helog) l)
  · rcases Nat.lt_or_ge (a ++ o).length (dropped fits e l) with hk | hk
    · obtain ⟨hpush, hlay'⟩ := Layers.push_new hb h.split (List.nodup_append.mp hnd).2.1 hl hk
      exact ⟨[], [], _, hpush, hlay'⟩
    · obtain ⟨hpush, hlay'⟩ := hlay.push_old hb hnd h.split hl h.nodup hspare hk
      exact ⟨_, _, d, hpush, hlay'⟩

/-- At the end of a replay the queue is what the whole log leaves. -/
theorem Resumed.replayed (hb : Bounded fits log) (hnd : (pre ++ log).Nodup)
    (h : Resumed fits pre log log [] l) : l = Replay.replayed fits pre log := by
  by_cases hlog : log = []
  · rw [Replay.replayed, if_pos hlog]
    exact h.idle hlog
  obtain ⟨e, he⟩ := List.exists_mem_of_ne_nil log hlog
  have hall : fits [] := hb.of_sublist (List.nil_sublist [e]) (hb.single e he)
  obtain ⟨a, o, d, hl, hlay⟩ := h.layers
  obtain rfl : o = [] := List.eq_nil_iff_forall_not_mem.mpr fun x hx => by
    have hmem := hlay.old x hx
    cases hmem
  rw [List.append_nil] at hl
  obtain ⟨y, hy⟩ := hlay.suffix
  rw [Replay.replayed, if_neg hlog]
  rcases Nat.eq_zero_or_pos d with rfl | hd
  · -- the whole log fits with `a`, and no longer rest of `pre` does
    rw [List.drop_zero] at hl
    have hdrop : (pre ++ log).drop y.length = l := by
      rw [← hy, List.append_assoc, List.drop_left, hl]
    have hfit : fits l := by
      rcases h.fit with hfit | hpre
      · exact hfit
      · have hmem : e ∈ pre := by
          rw [← hpre, hl]
          exact List.mem_append_right a he
        exact absurd rfl ((List.nodup_append.mp hnd).2.2 e hmem e he)
    rw [keep_eq_drop (hdrop ▸ hfit) ?_ hall, hdrop]
    intro j hj hfits
    rw [← hy, List.append_assoc, List.drop_append_of_le_length hj.le, ← List.append_assoc]
      at hfits
    have hsuf : y.drop j ++ a <:+ pre := by
      exact ⟨y.take j, by rw [← List.append_assoc, List.take_append_drop, hy]⟩
    have hlen := (hlay.most _ hsuf hfits).length_le
    rw [List.length_append, List.length_drop] at hlen
    omega
  · obtain ⟨hnil, hcut⟩ := hlay.cut hd
    obtain ⟨rfl, -⟩ := List.append_eq_nil_iff.mp hnil
    have hdrop : (pre ++ log).drop (pre.length + d) = l := by
      rw [List.drop_append, List.drop_eq_nil_of_le (Nat.le_add_right _ _),
        Nat.add_sub_cancel_left, hl]
    have hfit : fits l := by
      rcases h.fit with hfit | hpre
      · exact hfit
      · have hempty : l = [] := by
          refine List.eq_nil_iff_forall_not_mem.mpr fun x hx => ?_
          have hxlog : x ∈ log := by
            rw [hl] at hx
            exact List.mem_of_mem_drop hx
          exact (List.nodup_append.mp hnd).2.2 x (hpre ▸ hx) x hxlog rfl
        rw [hempty]
        exact hall
    rw [keep_eq_drop (hdrop ▸ hfit) ?_ hall, hdrop]
    intro j hj hfits
    refine hcut (hb.of_sublist ?_ hfits)
    have hlast : (pre ++ log).drop (pre.length + (d - 1)) = log.drop (d - 1) := by
      rw [List.drop_append, List.drop_eq_nil_of_le (Nat.le_add_right _ _),
        Nat.add_sub_cancel_left, List.nil_append]
    rw [← hlast]
    exact List.drop_sublist_drop_left _ (by omega)

end

end Replay
