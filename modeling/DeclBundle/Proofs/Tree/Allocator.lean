import DeclBundle.Proofs.Tree.Identity
import DeclBundle.Tree.Allocator
import Mathlib.Data.List.Nodup
import Mathlib.Data.List.Perm.Subperm

/-!
# Identities in 32 bits

What an allocator gives out one after the other is kept of consecutive identities
(`IdAllocator.run_draw`). As long as there are fewer than 2³² of them from 0 on, what is kept tells
them apart, and from a position without one (`nodup_kept_consecutive`, `absent_not_mem_kept`); no
more can be told apart (`length_lt_of_nodup`).
-/

namespace DeclBundle

theorem IdAllocator.run_draw : ∀ (n count : Nat),
    (draw count).run ⟨UInt32.ofNat n⟩
      = ((consecutive n count).map DeclId.kept, ⟨UInt32.ofNat (n + count)⟩)
  | _, 0 => rfl
  | n, count + 1 => by
    have hnext : UInt32.ofNat n + 1 = UInt32.ofNat (n + 1) := (UInt32.ofNat_add n 1).symm
    have hrun : (draw (count + 1)).run ⟨UInt32.ofNat n⟩
        = (UInt32.ofNat n :: ((draw count).run ⟨UInt32.ofNat n + 1⟩).1,
          ((draw count).run ⟨UInt32.ofNat n + 1⟩).2) := rfl
    rw [hrun, hnext, run_draw (n + 1) count, Nat.add_assoc, Nat.add_comm 1]
    rfl

theorem toNat_kept {id : DeclId} (h : id < UInt32.size) : (DeclId.kept (some id)).toNat = id :=
  UInt32.toNat_ofNat_of_lt' h

theorem nodup_kept_consecutive {n count : Nat} (h : n + count ≤ UInt32.size) :
    ((consecutive n count).map DeclId.kept).Nodup := by
  refine List.Nodup.map_on (fun i hi j hj he => ?_) (nodup_consecutive n count)
  obtain ⟨i, rfl, -, hlt⟩ := mem_consecutive.1 hi
  obtain ⟨j, rfl, -, hlt'⟩ := mem_consecutive.1 hj
  rw [← toNat_kept (Nat.lt_of_lt_of_le hlt h), he, toNat_kept (Nat.lt_of_lt_of_le hlt' h)]

theorem absent_not_mem_kept {n count : Nat} (h : n + count < UInt32.size) :
    DeclId.absent ∉ (consecutive n count).map DeclId.kept := by
  intro hm
  obtain ⟨i, hi, he⟩ := List.mem_map.1 hm
  obtain ⟨i, rfl, -, hlt⟩ := mem_consecutive.1 hi
  have hi' : i = UInt32.size - 1 := by
    rw [← toNat_kept (Nat.lt_trans hlt h), he]
    rfl
  exact Nat.not_lt.2 (Nat.le_sub_one_of_lt h) (hi' ▸ hlt)

/-- Words that are distinct and stand for identities are fewer than all words. -/
theorem length_lt_of_nodup {ids : List UInt32} (hn : ids.Nodup) (ha : DeclId.absent ∉ ids) :
    ids.length < UInt32.size := by
  have hnodup : ((DeclId.absent :: ids).map UInt32.toNat).Nodup :=
    (List.nodup_cons.2 ⟨ha, hn⟩).map fun _ _ => UInt32.toNat_inj.1
  have hsub : (DeclId.absent :: ids).map UInt32.toNat ⊆ List.range UInt32.size := by
    intro x hx
    obtain ⟨w, -, rfl⟩ := List.mem_map.1 hx
    exact List.mem_range.2 w.toNat_lt_size
  have hlength := (hnodup.subperm hsub).length_le
  rwa [List.length_map, List.length_cons, List.length_range] at hlength

theorem mem_kept_consecutive {count : Nat} (h : count < UInt32.size) {w : UInt32} :
    w ∈ (consecutive 0 count).map DeclId.kept ↔ w < UInt32.ofNat count := by
  rw [UInt32.lt_iff_toNat_lt, UInt32.toNat_ofNat_of_lt' h]
  constructor
  · intro hm
    obtain ⟨i, hi, rfl⟩ := List.mem_map.1 hm
    obtain ⟨i, rfl, -, hlt⟩ := mem_consecutive.1 hi
    rw [Nat.zero_add] at hlt
    rwa [toNat_kept (Nat.lt_trans hlt h)]
  · intro hw
    refine List.mem_map.2 ⟨some w.toNat, mem_consecutive.2 ⟨_, rfl, Nat.zero_le _, ?_⟩, ?_⟩
    · rwa [Nat.zero_add]
    · exact UInt32.ofNat_toNat

end DeclBundle
