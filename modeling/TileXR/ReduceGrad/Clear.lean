import TileXR.Lib.Bytes
import TileXR.Lib.Deal
import TileXR.Lib.Walk
import TileXR.ReduceGrad.Pull

/-!
# Clearing the sources

Behind the last barrier of the gradient reduction every block clears its share of the rows that the rank
lent to the others. Rows of all projections are cut into tiles of one numbering that goes round the blocks;
rows of empty slots are counted in it but left alone. All blocks together clear each byte of a live slot
once, whatever the sizes, and nothing else (`clear_exact`).
-/

namespace TileXR.ReduceGrad
open Lib List
open Function (update)

/-- What `ClearLocalSources` reads. -/
structure ClearTask where
  rowBytes : ℕ → ℕ
  prefetchSlots : ℕ
  rank : ℕ
  expertsToCopy : ℕ → ℤ
  blockCount : ℕ

/-- One `CopyUbToGm` of zeros, at an offset in the sources of a projection. -/
structure ClearWrite where
  projection : ℕ
  offset : ℕ
  bytes : ℕ

namespace ClearWrite

def Covers (projection x : ℕ) (w : ClearWrite) : Prop :=
  w.projection = projection ∧ w.offset ≤ x ∧ x < w.offset + w.bytes

instance (projection x : ℕ) : DecidablePred (Covers projection x) := fun _ => inferInstanceAs (Decidable (_ ∧ _))

/-- What a write does to the sources. -/
def run {β : Type*} [Zero β] (m : ℕ → Cells β) (w : ClearWrite) : ℕ → Cells β :=
  update m w.projection ((m w.projection).clear w.offset w.bytes)

end ClearWrite

namespace ClearTask
variable (c : ClearTask)

def tilesPerRow (projection : ℕ) : ℕ := divideRoundUp (c.rowBytes projection) kReduceGradKernelTileBytes

def Live (slot : ℕ) : Prop := ¬ c.expertsToCopy (c.rank * c.prefetchSlots + slot) < 0

instance : DecidablePred c.Live := fun _ => inferInstanceAs (Decidable (¬ _))

def tileWrite (projection slot tile : ℕ) : ClearWrite where
  projection := projection
  offset := slot * c.rowBytes projection + tile * kReduceGradKernelTileBytes
  bytes := min (c.rowBytes projection - tile * kReduceGradKernelTileBytes) kReduceGradKernelTileBytes

/-- The first tile of a row for a block, when the tiles before the row are `rowTileBase` many. -/
def firstTile (rowTileBase blockIdx : ℕ) : ℕ :=
  (blockIdx + c.blockCount - rowTileBase % c.blockCount) % c.blockCount

def clearRow (rowTileBase projection slot blockIdx : ℕ) : List ClearWrite :=
  if c.Live slot then
    (strided (c.tilesPerRow projection) c.blockCount (c.firstTile rowTileBase blockIdx)).map
      (c.tileWrite projection slot)
  else []

/-- The loops over projections and slots; the number of tiles is a `uint64_t`. -/
def clearRows : List (ℕ × ℕ) → ℕ → ℕ → List ClearWrite
  | [], _, _ => []
  | (projection, slot) :: rows, rowTileBase, blockIdx =>
    c.clearRow rowTileBase projection slot blockIdx ++
      clearRows rows ((rowTileBase + c.tilesPerRow projection) % 2 ^ 64) blockIdx

def rows : List (ℕ × ℕ) := List.range kReduceGradProjectionCount ×ˢ List.range c.prefetchSlots

/-- `ClearLocalSources` of a block. -/
def clearLocalSources (blockIdx : ℕ) : List ClearWrite := c.clearRows c.rows 0 blockIdx

def InLiveSlot (projection x : ℕ) : Prop :=
  projection < kReduceGradProjectionCount ∧ ∃ slot < c.prefetchSlots, c.Live slot ∧
    slot * c.rowBytes projection ≤ x ∧ x < slot * c.rowBytes projection + c.rowBytes projection

instance (projection x : ℕ) : Decidable (c.InLiveSlot projection x) := inferInstanceAs (Decidable (_ ∧ _))

/-! ## All blocks together -/

def rowTiles (row : ℕ × ℕ) : List ClearWrite :=
  if c.Live row.2 then (List.range (c.tilesPerRow row.1)).map (c.tileWrite row.1 row.2) else []

section
variable {c : ClearTask} (hblocks : 0 < c.blockCount)
include hblocks

theorem firstTile_perm (rowTileBase : ℕ) :
    ((List.range c.blockCount).map (c.firstTile rowTileBase)).Perm (List.range c.blockCount) := by
  have hbase := Nat.mod_lt rowTileBase hblocks
  refine range_map_perm (fun k _ => Nat.mod_lt _ hblocks) fun j hj k hk h => ?_
  unfold firstTile at h
  rw [Nat.add_sub_assoc hbase.le, Nat.add_sub_assoc hbase.le] at h
  exact (Nat.ModEq.add_right_cancel' _ h).eq_of_lt_of_lt hj hk

theorem clearRow_perm (rowTileBase projection slot : ℕ) :
    ((List.range c.blockCount).flatMap (c.clearRow rowTileBase projection slot)).Perm
      (c.rowTiles (projection, slot)) := by
  unfold clearRow rowTiles
  split_ifs
  · rw [← map_flatMap]
    refine Perm.map _ (Perm.trans ?_ (blockRows_perm _ hblocks))
    rw [← flatMap_map]
    exact (firstTile_perm hblocks rowTileBase).flatMap_right _
  · simp

/-- The blocks take the same tile numbers for the rows, so that each row is dealt out whole. -/
theorem clearRows_perm (rows : List (ℕ × ℕ)) (rowTileBase : ℕ) :
    ((List.range c.blockCount).flatMap (c.clearRows rows rowTileBase)).Perm (rows.flatMap c.rowTiles) := by
  induction rows generalizing rowTileBase with
  | nil => simp [clearRows]
  | cons row rows ih =>
    obtain ⟨projection, slot⟩ := row
    rw [flatMap_cons]
    exact (flatMap_append_perm _ _ _).symm.trans ((clearRow_perm hblocks _ _ _).append (ih _))

end

/-! ## What is covered -/

variable {c : ClearTask}

theorem tileWrite_covers_iff {projection slot tile x : ℕ} (hx : slot * c.rowBytes projection ≤ x)
    (hlt : x < slot * c.rowBytes projection + c.rowBytes projection) :
    (c.tileWrite projection slot tile).Covers projection x ↔
      tile = (x - slot * c.rowBytes projection) / kReduceGradKernelTileBytes := by
  simp only [ClearWrite.Covers, tileWrite, kReduceGradKernelTileBytes, true_and]
  omega

theorem countP_rowTiles (projection x : ℕ) (row : ℕ × ℕ) :
    (c.rowTiles row).countP (ClearWrite.Covers projection x) =
      if decide (row.1 = projection ∧ c.Live row.2 ∧ row.2 * c.rowBytes projection ≤ x ∧
        x < row.2 * c.rowBytes projection + c.rowBytes projection) then 1 else 0 := by
  obtain ⟨p, slot⟩ := row
  simp only [decide_eq_true_eq]
  split_ifs with hrow
  · obtain ⟨rfl, hlive, hx, hlt⟩ := hrow
    have htile : (List.range (c.tilesPerRow p)).countP (fun tile => (c.tileWrite p slot tile).Covers p x) = 1 := by
      rw [countP_eq_ite_mem nodup_range fun tile _ => decide_eq_true_iff.trans (tileWrite_covers_iff hx hlt), if_pos]
      rw [mem_range, tilesPerRow, divideRoundUp, kReduceGradKernelTileBytes]
      split_ifs <;> omega
    rw [rowTiles, if_pos hlive, countP_map]
    exact htile
  · refine countP_eq_zero.2 fun w hw hcovers => hrow ?_
    unfold rowTiles at hw
    split_ifs at hw with hlive
    · obtain ⟨tile, -, rfl⟩ := mem_map.1 hw
      obtain ⟨hp, hle, hlt⟩ := of_decide_eq_true hcovers
      obtain rfl : p = projection := hp
      simp only [tileWrite] at hle hlt
      exact ⟨rfl, hlive, by omega, by omega⟩
    · exact absurd hw not_mem_nil

theorem rows_nodup : c.rows.Nodup := nodup_range.product nodup_range

/-- All blocks together write a byte once if it is in a live slot, and never otherwise. -/
theorem countP_rows (projection x : ℕ) :
    (c.rows.flatMap c.rowTiles).countP (ClearWrite.Covers projection x) =
      if c.InLiveSlot projection x then 1 else 0 := by
  rw [countP_flatMap_ite fun row _ => countP_rowTiles projection x row]
  split_ifs with hin
  · obtain ⟨hp, slot, hslot, hlive, hx, hlt⟩ := hin
    rw [countP_eq_ite_mem (a := (projection, slot)) rows_nodup, if_pos]
    · exact mem_product.2 ⟨mem_range.2 hp, mem_range.2 hslot⟩
    · rintro ⟨p, slot'⟩ -
      rw [decide_eq_true_iff, Prod.mk.injEq]
      refine ⟨fun ⟨hpe, _, hx', hlt'⟩ => ⟨hpe, ?_⟩, fun ⟨hpe, hse⟩ => ⟨hpe, hse ▸ ⟨hlive, hx, hlt⟩⟩⟩
      -- rows of one size that share a byte are one row
      dsimp only at hx' hlt'
      rcases Nat.lt_trichotomy slot' slot with h | h | h
      · have := row_le (c.rowBytes projection) h
        omega
      · exact h
      · have := row_le (c.rowBytes projection) h
        omega
  · refine countP_eq_zero.2 fun ⟨p, slot⟩ hmem hrow => hin ?_
    obtain ⟨rfl, hlive, hx, hlt⟩ := of_decide_eq_true hrow
    obtain ⟨hp, hslot⟩ := mem_product.1 hmem
    exact ⟨mem_range.1 hp, slot, mem_range.1 hslot, hlive, hx, hlt⟩

end ClearTask

theorem ClearWrite.foldl_run {β : Type*} [Zero β] (writes : List ClearWrite) (m : ℕ → Cells β) (projection x : ℕ) :
    writes.foldl ClearWrite.run m projection x =
      if writes.countP (ClearWrite.Covers projection x) = 0 then m projection x else 0 := by
  induction writes generalizing m with
  | nil => rfl
  | cons w writes ih =>
    have hrun : w.run m projection x = if w.Covers projection x then 0 else m projection x := by
      unfold ClearWrite.run
      rcases eq_or_ne projection w.projection with rfl | hne
      · rw [Function.update_self]
        simp only [Cells.clear, Covers, true_and]
      · rw [Function.update_of_ne hne, if_neg fun h => hne h.1.symm]
    rw [foldl_cons, ih, hrun, countP_cons]
    by_cases hw : w.Covers projection x
    · simp [hw]
    · simp only [hw, decide_false, Bool.false_eq_true, if_false, add_zero]

/-- The writes of all blocks, in any order, write each byte of a live slot of a projection once and no
other byte, and leave zeros in the former. -/
theorem clear_exact {β : Type*} [Zero β] {c : ClearTask} (hblocks : 0 < c.blockCount) {writes : List ClearWrite}
    (h : writes.Perm ((List.range c.blockCount).flatMap c.clearLocalSources)) (m : ℕ → Cells β)
    (projection x : ℕ) :
    (writes.countP (ClearWrite.Covers projection x) = if c.InLiveSlot projection x then 1 else 0) ∧
      writes.foldl ClearWrite.run m projection x = if c.InLiveSlot projection x then 0 else m projection x := by
  have hcount : writes.countP (ClearWrite.Covers projection x) = if c.InLiveSlot projection x then 1 else 0 := by
    rw [(h.trans (ClearTask.clearRows_perm hblocks c.rows 0)).countP_eq, ClearTask.countP_rows]
  refine ⟨hcount, ?_⟩
  rw [ClearWrite.foldl_run, hcount]
  split_ifs <;> simp_all

/-- Two slots of which the second is empty, rows that end within a tile, and two blocks. -/
def raggedRows : ClearTask where
  rowBytes projection := 40960 * (projection + 1) + 100
  prefetchSlots := 2
  rank := 1
  expertsToCopy entry := if entry = 2 then 5 else -1
  blockCount := 2

theorem clear_exact_raggedRows :
    (∀ m : ℕ → Cells ℕ, (raggedRows.clearLocalSources 1 ++ raggedRows.clearLocalSources 0).foldl ClearWrite.run m
      1 82019 = 0) ∧
    ∀ m : ℕ → Cells ℕ, (raggedRows.clearLocalSources 1 ++ raggedRows.clearLocalSources 0).foldl ClearWrite.run m
      1 82020 = m 1 82020 := by
  have horder : (raggedRows.clearLocalSources 1 ++ raggedRows.clearLocalSources 0).Perm
      ((List.range 2).flatMap raggedRows.clearLocalSources) :=
    List.perm_append_comm.trans (List.Perm.of_eq (by simp [List.range_succ]))
  exact ⟨fun m => (clear_exact (by decide) horder m 1 82019).2,
    fun m => (clear_exact (by decide) horder m 1 82020).2⟩

end TileXR.ReduceGrad
