import Mathlib.Data.BitVec
import Mathlib.Data.Nat.Init
import Mathlib.Tactic.Ring

/-!
# Memories

A memory is a function from addresses to what stands there. It is copied to and cleared in blocks; loops
that go through a block in tiles, the last one shorter, do to the block what one copy does
(`copyTiles_eq`, `clearTiles_eq`). In a memory of bytes 32-bit signed integers are stored with the lowest
byte first.
-/

namespace Lib

variable {a d size tile : ℕ}

/-- What stands at each address. -/
abbrev Cells (β : Type*) := ℕ → β

/-! ## Tiles -/

/-- Offset and size of the tiles of a block. -/
def pieces (total tile : ℕ) : List (ℕ × ℕ) :=
  (List.range ((total + tile - 1) / tile)).map fun i => (i * tile, min (total - i * tile) tile)

theorem lt_pieceCount {total i : ℕ} (htile : 0 < tile) : i < (total + tile - 1) / tile ↔ i * tile < total := by
  rw [Nat.lt_iff_add_one_le, Nat.le_div_iff_mul_le htile, Nat.add_mul]
  omega

/-- What holds of nothing and is kept by every tile holds of the whole block. -/
theorem foldl_pieces {β : Type*} {f : β → ℕ × ℕ → β} {b : β} {total : ℕ} {I : ℕ → β → Prop}
    (htile : 0 < tile) (h0 : I 0 b) (hstep : ∀ offset size b, 0 < size → offset + size ≤ total → I offset b →
      I (offset + size) (f b (offset, size))) : I total ((pieces total tile).foldl f b) := by
  have hrun : ∀ n ≤ (total + tile - 1) / tile, I (min (n * tile) total)
      (((List.range n).map fun i => (i * tile, min (total - i * tile) tile)).foldl f b) := by
    intro n
    induction n with
    | zero => intro _; simpa using h0
    | succ n ih =>
      intro hn
      have hlt := (lt_pieceCount htile).1 (Nat.lt_of_succ_le hn)
      have hI := ih (by omega)
      rw [Nat.min_eq_left hlt.le] at hI
      rw [List.range_succ, List.map_append, List.foldl_append]
      have hnext := hstep (n * tile) (min (total - n * tile) tile) _ (by omega) (by omega) hI
      rw [Nat.succ_mul, show min (n * tile + tile) total = n * tile + min (total - n * tile) tile by omega]
      exact hnext
  have hall := hrun _ (Nat.le_refl _)
  rwa [Nat.min_eq_right] at hall
  by_contra hlt
  exact Nat.lt_irrefl _ ((lt_pieceCount htile).2 (Nat.lt_of_not_le hlt))

namespace Cells
variable {β : Type*}

/-! ## Blocks -/

/-- A block of `size` addresses of `src` from `s` on is copied to `d`. -/
def copy (m : Cells β) (d : ℕ) (src : Cells β) (s size : ℕ) : Cells β := fun x =>
  if d ≤ x ∧ x < d + size then src (s + (x - d)) else m x

/-- A block of `size` addresses from `d` on is cleared. -/
def clear [Zero β] (m : Cells β) (d size : ℕ) : Cells β := fun x => if d ≤ x ∧ x < d + size then 0 else m x

/-- A copy tile by tile; `src` gives the memory that is read. -/
def copyTiles (tile : ℕ) (m : Cells β) (d : ℕ) (src : Cells β → Cells β) (s size : ℕ) : Cells β :=
  (pieces size tile).foldl (fun m t => m.copy (d + t.1) (src m) (s + t.1) t.2) m

def clearTiles [Zero β] (tile : ℕ) (m : Cells β) (d size : ℕ) : Cells β :=
  (pieces size tile).foldl (fun m t => m.clear (d + t.1) t.2) m

/-- A copy from a memory whose addresses in question do not change. -/
theorem copyTiles_eq {s : ℕ} {m : Cells β} {src : Cells β → Cells β} (htile : 0 < tile)
    (hsrc : ∀ m' : Cells β, (∀ x, (x < d ∨ d + size ≤ x) → m' x = m x) → ∀ i < size, src m' (s + i) = src m (s + i)) :
    copyTiles tile m d src s size = m.copy d (src m) s size := by
  rw [copyTiles]
  refine foldl_pieces (I := fun done m' => m' = m.copy d (src m) s done) htile ?_ ?_
  · funext x
    rw [copy, if_neg (by omega)]
  · rintro offset n m' hn hle rfl
    have hread := hsrc (m.copy d (src m) s offset) fun x hx => if_neg (by omega)
    funext x
    simp only [copy]
    by_cases hx : d + offset ≤ x ∧ x < d + offset + n
    · rw [if_pos hx, if_pos (by omega), show s + offset + (x - (d + offset)) = s + (x - d) by omega]
      exact hread (x - d) (by omega)
    · rw [if_neg hx]
      by_cases hx' : d ≤ x ∧ x < d + offset
      · rw [if_pos hx', if_pos (by omega)]
      · rw [if_neg hx', if_neg (by omega)]

theorem clearTiles_eq [Zero β] {m : Cells β} (htile : 0 < tile) : clearTiles tile m d size = m.clear d size := by
  rw [clearTiles]
  refine foldl_pieces (I := fun done m' => m' = m.clear d done) htile ?_ ?_
  · funext x
    rw [clear, if_neg (by omega)]
  · rintro offset n m' hn hle rfl
    funext x
    simp only [clear]
    by_cases hx : d + offset ≤ x ∧ x < d + offset + n
    · rw [if_pos hx, if_pos (by omega)]
    · rw [if_neg hx]
      by_cases hx' : d ≤ x ∧ x < d + offset
      · rw [if_pos hx', if_pos (by omega)]
      · rw [if_neg hx', if_neg (by omega)]

end Cells

/-! ## Integers in bytes -/

abbrev Bytes := Cells (BitVec 8)

variable {m : Bytes} {v : ℤ}

namespace Bytes

/-- The unsigned word at an address. -/
def word (m : Bytes) (a : ℕ) : ℕ :=
  (m a).toNat + 2 ^ 8 * (m (a + 1)).toNat + 2 ^ 16 * (m (a + 2)).toNat + 2 ^ 24 * (m (a + 3)).toNat

def loadInt (m : Bytes) (a : ℕ) : ℤ := if m.word a < 2 ^ 31 then m.word a else (m.word a : ℤ) - 2 ^ 32

def storeInt (m : Bytes) (a : ℕ) (v : ℤ) : Bytes := fun x =>
  if a ≤ x ∧ x < a + 4 then .ofNat 8 ((v % 2 ^ 32).toNat / 2 ^ (8 * (x - a))) else m x

theorem loadInt_congr {m' : Bytes} (h : ∀ i < 4, m (a + i) = m' (a + i)) : m.loadInt a = m'.loadInt a := by
  have h0 : m a = m' a := h 0 (by decide)
  rw [loadInt, loadInt, word, word, h0, h 1 (by decide), h 2 (by decide), h 3 (by decide)]

theorem loadInt_storeInt (hlo : -2 ^ 31 ≤ v) (hhi : v < 2 ^ 31) : (m.storeInt a v).loadInt a = v := by
  have hbyte : ∀ i < 4, ((m.storeInt a v) (a + i)).toNat = (v % 2 ^ 32).toNat / 2 ^ (8 * i) % 2 ^ 8 := by
    intro i hi
    rw [storeInt, if_pos (by omega), Nat.add_sub_cancel_left, BitVec.toNat_ofNat]
  have h0 : ((m.storeInt a v) a).toNat = (v % 2 ^ 32).toNat / 2 ^ (8 * 0) % 2 ^ 8 := hbyte 0 (by decide)
  have hword : (m.storeInt a v).word a = (v % 2 ^ 32).toNat := by
    rw [word, h0, hbyte 1 (by decide), hbyte 2 (by decide), hbyte 3 (by decide)]
    omega
  rw [loadInt, hword]
  split <;> omega

theorem loadInt_storeInt_of_ne {b : ℕ} (h : a + 4 ≤ b ∨ b + 4 ≤ a) : (m.storeInt a v).loadInt b = m.loadInt b :=
  loadInt_congr fun i hi => if_neg (by omega)

theorem loadInt_clear (h₁ : d ≤ a) (h₂ : a + 4 ≤ d + size) : loadInt (m.clear d size) a = 0 := by
  have hbyte : ∀ i < 4, (m.clear d size) (a + i) = 0 := fun i hi => if_pos (by omega)
  have h0 : (m.clear d size) a = 0 := hbyte 0 (by decide)
  rw [loadInt, word, h0, hbyte 1 (by decide), hbyte 2 (by decide), hbyte 3 (by decide)]
  rfl

end Bytes

end Lib
