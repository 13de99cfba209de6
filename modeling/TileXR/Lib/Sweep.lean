import TileXR.Lib.Blocks
import Mathlib.Data.List.Basic
import Mathlib.Data.List.Range

/-!
# Loops over parts of an index range

How a kernel sweeps `0, …, count - 1`: cut into parts that differ by at most one (`evenPart`), or dealt
out to the blocks in turn (`strided`). Each of them visits what the plain loop visits.
-/

namespace Lib
open Nat

variable {blocks x : ℕ}
variable {count parts i : ℕ}

/-! ## Parts that differ by at most one -/

/-- The first parts are one longer than the others: where part `i` begins, and how many it has. -/
def evenPart (count parts i : ℕ) : ℕ × ℕ :=
  if i < count % parts then (count / parts * i + i, count / parts + 1)
  else (count / parts * i + count % parts, count / parts)

theorem evenPart_zero (count parts : ℕ) : (evenPart count parts 0).1 = 0 := by
  unfold evenPart
  split <;> simp_all

theorem evenPart_last (count parts : ℕ) (hp : 0 < parts) : (evenPart count parts parts).1 = count := by
  have hlt := mod_lt count hp
  rw [evenPart, if_neg (by omega), Nat.mul_comm]
  exact div_add_mod count parts

theorem evenPart_next (count parts i : ℕ) :
    (evenPart count parts i).1 + (evenPart count parts i).2 = (evenPart count parts (i + 1)).1 := by
  unfold evenPart
  rw [mul_succ]
  split_ifs <;> dsimp only <;> omega

theorem evenPart_le (hi : i < parts) : (evenPart count parts i).1 + (evenPart count parts i).2 ≤ count := by
  have hmono : ∀ j, i + 1 ≤ j → (evenPart count parts (i + 1)).1 ≤ (evenPart count parts j).1 := by
    intro j hj
    induction j, hj using le_induction with
    | base => exact le_rfl
    | succ j _ ih => exact ih.trans (evenPart_next count parts j ▸ Nat.le_add_right _ _)
  rw [evenPart_next]
  exact (hmono parts hi).trans_eq (evenPart_last count parts (by omega))

theorem evenPart_le_ceil (hp : 0 < parts) (i : ℕ) : (evenPart count parts i).2 ≤ (count + parts - 1) / parts := by
  have hmod := mod_add_div count parts
  have hle : count / parts ≤ (count + parts - 1) / parts := Nat.div_le_div_right (by omega)
  unfold evenPart
  split_ifs with hi
  · rw [Nat.le_div_iff_mul_le hp, Nat.add_mul, Nat.mul_comm (count / parts)]
    omega
  · exact hle

theorem evenPart_eq_zero (hi : i < parts) : (evenPart count parts i).2 = 0 ↔ count ≤ i := by
  have hle := mod_le count parts
  unfold evenPart
  split_ifs with hlt
  · exact ⟨False.elim, fun h => by omega⟩
  · rw [Nat.div_eq_zero_iff]
    constructor
    · rintro (h | h)
      · omega
      · rwa [mod_eq_of_lt h, not_lt] at hlt
    · exact fun h => .inr (h.trans_lt hi)

theorem exists_evenPart (hx : x < count) (hp : 0 < parts) : ∃ i < parts, (evenPart count parts i).1 ≤ x ∧
      x < (evenPart count parts i).1 + (evenPart count parts i).2 := by
  have hstep : ∀ n ≤ parts, x < (evenPart count parts n).1 → ∃ i < parts, (evenPart count parts i).1 ≤ x ∧
      x < (evenPart count parts i).1 + (evenPart count parts i).2 := by
    intro n
    induction n with
    | zero => intro _ h; rw [evenPart_zero] at h; omega
    | succ n ih =>
      intro hn h
      rw [← evenPart_next] at h
      rcases Nat.lt_or_ge x (evenPart count parts n).1 with hlt | hge
      · exact ih (by omega) hlt
      · exact ⟨n, by omega, hge, h⟩
  exact hstep parts le_rfl (by rwa [evenPart_last _ _ hp])

/-! ## Dealt out in turn -/

/-- `for (x = i; x < count; x += blocks)`. -/
def strided (count blocks i : ℕ) : List ℕ :=
  (List.range ((count - i + blocks - 1) / blocks)).map fun j => i + j * blocks

/-- The indices all blocks visit, block by block. -/
def blockRows (count blocks : ℕ) : List ℕ := (List.range blocks).flatMap (strided count blocks)

theorem mem_strided (hb : 0 < blocks) : x ∈ strided count blocks i ↔ x < count ∧ ∃ j, x = i + j * blocks := by
  simp only [strided, List.mem_map, List.mem_range]
  constructor
  · rintro ⟨j, hj, rfl⟩
    refine ⟨?_, j, rfl⟩
    have := (Nat.le_div_iff_mul_le hb).1 (succ_le_of_lt hj)
    rw [succ_mul] at this
    omega
  · rintro ⟨hlt, j, rfl⟩
    refine ⟨j, lt_of_succ_le ((Nat.le_div_iff_mul_le hb).2 ?_), rfl⟩
    rw [succ_mul]
    omega

theorem mem_blockRows (hb : 0 < blocks) : x ∈ blockRows count blocks ↔ x < count := by
  simp only [blockRows, List.mem_flatMap, List.mem_range, mem_strided hb]
  constructor
  · rintro ⟨_, _, hx, _⟩; exact hx
  · exact fun hx => ⟨x % blocks, mod_lt _ hb, hx, x / blocks, by
      rw [Nat.mul_comm]; exact (mod_add_div x blocks).symm⟩

end Lib
