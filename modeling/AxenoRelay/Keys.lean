/-
  The keys of the tables, compared as bytes.

  redb orders its keys by their bytes; the model's maps are ordered as strings, which is
  the same (`Utf8.lt_iff_bytes_lt`). A range from `id:` to `id;` holds the keys of `id`
  and no others, and a key says whose it is and which (`ranges_select_owner`).
-/
import AxenoRelay.Lib.Utf8
import AxenoRelay.FileStore.Txns
import AxenoRelay.QueueStore.Rows

namespace AxenoRelay

open QueueStore SepKey

/-- Does the half-open range of keys hold `k`? -/
def KeyInRange (bounds : String × String) (k : String) : Prop :=
  bytes bounds.1 ≤ bytes k ∧ bytes k < bytes bounds.2

theorem keyInRange_iff {bounds : String × String} {k : String} :
    KeyInRange bounds k ↔ bounds.1 ≤ k ∧ k < bounds.2 := by
  have hlt : ∀ s t : String, bytes s < bytes t ↔ s < t := fun _ _ => Utf8.lt_iff_bytes_lt
  unfold KeyInRange
  rw [← List.not_lt, hlt, hlt, not_lt]

section

variable {U : Type} [UuidText U]

/-- **Ranges select one owner's keys**: for owners over the accepted alphabet, also where
    one is a prefix of the other. -/
theorem ranges_select_owner {a b : String} (ha : NameOk a) (hb : NameOk b) (u : U) (i : Nat) :
    (KeyInRange (mailboxBounds a) (keyFor b u) ↔ a = b) ∧
      (KeyInRange (chunkBounds a) (chunkKey b i) ↔ a = b) ∧
      parseMailbox (keyFor b u) = some b ∧ parseId U (keyFor b u) = some u ∧
      ∀ j, chunkKey a i = chunkKey b j → a = b ∧ i = j := by
  refine ⟨?_, ?_, parseMailbox_keyFor hb u, parseId_keyFor hb u, fun j hj => ?_⟩
  · rw [keyInRange_iff]
    exact mem_bounds_iff colon_succ ha.free hb.free (UuidText.display u)
  · rw [keyInRange_iff]
    exact mem_bounds_iff colon_succ ha.free hb.free (toString i)
  · obtain ⟨hab, hij⟩ := key_inj ha.no_colon hb.no_colon hj
    exact ⟨hab, Nat.repr_injective hij⟩

end

/-- An owner that is a prefix of another, the rest of it below the separator. -/
theorem ranges_select_owner_sample :
    ¬KeyInRange (mailboxBounds "mbx_a") (keyFor "mbx_a-b" SampleUuid.u1) ∧
      ¬KeyInRange (chunkBounds "mbx_a") (chunkKey "mbx_a-b" 7) := by
  obtain ⟨hkey, hchunk, -⟩ := ranges_select_owner (a := "mbx_a") (b := "mbx_a-b")
    (by decide) (by decide) SampleUuid.u1 7
  exact ⟨fun h => absurd (hkey.mp h) (by decide), fun h => absurd (hchunk.mp h) (by decide)⟩

end AxenoRelay
