import Mathlib.Data.List.Range
import Mathlib.Data.Nat.Prime.Basic
import TileXR.EpMemory.Shape
import TileXR.Lib.Deal
import TileXR.Lib.Walk

/-!
# The order in which combine sends its rows

`ReadSendCount`, `SplitSendRows` and `ExpertAlltoAllDispatchCopyAdd` of the combine kernel. The rows a
rank has received are cut into one part per core, and a core walks its part with a stride that it picks by
the parity of the length, from a start that depends on the rank. Together the cores send every row once.
-/

namespace TileXR.EpMemory
open Lib List Nat
variable {coreIdx n : ℕ}

/-- `ReadSendCount`: the last count of the dispatch, an `int32_t`. -/
def readSendCount (count : BitVec 32) : ℕ := if 0 < count.toInt then count.toNat else 0

theorem readSendCount_lt (count : BitVec 32) : readSendCount count < 2 ^ 31 := by
  unfold readSendCount
  split_ifs with h
  · rw [BitVec.toInt_eq_toNat_cond] at h
    split_ifs at h with hsmall <;> omega
  · decide

/-- `SplitSendRows`: `startSendRow_` and `sendRowCount_` of a core. -/
def splitSendRows (selfSendCnt aivNum coreIdx : ℕ) : ℕ × ℕ := evenPart selfSendCnt aivNum coreIdx

def permStride (sendRowCount : ℕ) : ℕ :=
  if sendRowCount > 2 then
    let stride := sendRowCount / 2 + 1
    if sendRowCount % 2 = 0 ∧ stride % 2 = 0 then stride + 1 else stride
  else 1

namespace Shape
variable (s : Shape)

/-- Where the walk starts: `rankOffset % sendRowCount_`, with a product of 32 bits. -/
def permStart (sendRowCount : ℕ) : ℕ :=
  s.epRankId * sendRowCount % 2 ^ 32 / s.epWorldSize % sendRowCount

/-- The end of a round: `permIdx` is advanced and taken back into the part. -/
def permNext (sendRowCount permIdx : ℕ) : ℕ :=
  let next := (permIdx + permStride sendRowCount) % 2 ^ 32
  if next ≥ sendRowCount then next - sendRowCount else next

/-- `ExpertAlltoAllDispatchCopyAdd`: the rows that a core hands to `SendOneRow`, in order. -/
def expertAlltoAllDispatchCopyAdd (selfSendCnt coreIdx : ℕ) : List ℕ :=
  let (startSendRow, sendRowCount) := splitSendRows selfSendCnt s.aivNum coreIdx
  if sendRowCount = 0 then []
  else (List.iterate (permNext sendRowCount) (s.permStart sendRowCount) sendRowCount).map (startSendRow + ·)

end Shape

/-! ## The stride -/

theorem permStride_le (hn : 0 < n) : permStride n ≤ n := by
  unfold permStride
  dsimp only
  split_ifs <;> omega

/-- Twice the stride is the length and one, two or four more, and the stride is odd when the length is
even. -/
theorem coprime_permStride (hn : 0 < n) : n.Coprime (permStride n) := by
  -- a common factor divides the difference of twice the stride and the length
  have hdvd : ∀ d, 2 * permStride n = n + d → (n.gcd (permStride n)) ∣ d := by
    intro d hd
    have htwice : n.gcd (permStride n) ∣ n + d := hd ▸ (Nat.gcd_dvd_right _ _).mul_left 2
    exact (Nat.dvd_add_right (Nat.gcd_dvd_left _ _)).1 htwice
  have hodd : permStride n % 2 = 1 → Nat.Coprime (n.gcd (permStride n)) 2 := fun h =>
    Coprime.coprime_dvd_left (Nat.gcd_dvd_right _ _) (coprime_two_right.2 (odd_iff.2 h))
  rcases Nat.lt_or_ge 2 n with hbig | hsmall
  · rcases mod_two_eq_zero_or_one n with heven | hone
    · have hstride : permStride n % 2 = 1 ∧
          (2 * permStride n = n + 2 ∨ 2 * permStride n = n + 4) := by
        unfold permStride
        dsimp only
        split_ifs <;> omega
      have htwo := hodd hstride.1
      rcases hstride.2 with h | h
      · exact Coprime.eq_one_of_dvd htwo (hdvd 2 h)
      · exact Coprime.eq_one_of_dvd (htwo.pow_right 2) (hdvd 4 h)
    · refine dvd_one.1 (hdvd 1 ?_)
      unfold permStride
      dsimp only
      split_ifs <;> omega
  · rw [permStride, if_neg (by omega)]
    exact coprime_one_right n

/-- The parts are far below `2^32`, so that the walk never leaves the words. -/
theorem Shape.permNext_eq {x : ℕ} (hn : n < 2 ^ 31) (hx : x < n) : permNext n x = wrapNext n (permStride n) x := by
  have hstride := permStride_le (zero_lt_of_lt hx)
  unfold permNext wrapNext
  rw [mod_eq_of_lt (by omega)]

/-! ## Every row once -/

section Rows
variable (s : Shape) (count : BitVec 32)

theorem splitSendRows_le (hcore : coreIdx < s.aivNum) (selfSendCnt : ℕ) :
    (splitSendRows selfSendCnt s.aivNum coreIdx).2 ≤ selfSendCnt :=
  (Nat.le_add_left _ _).trans (evenPart_le hcore)

theorem dispatchCopyAdd_perm (hcore : coreIdx < s.aivNum) :
    (s.expertAlltoAllDispatchCopyAdd (readSendCount count) coreIdx).Perm
      (List.range' (splitSendRows (readSendCount count) s.aivNum coreIdx).1
        (splitSendRows (readSendCount count) s.aivNum coreIdx).2) := by
  have hle := splitSendRows_le s hcore (readSendCount count)
  have hlt := readSendCount_lt count
  rw [Shape.expertAlltoAllDispatchCopyAdd]
  generalize splitSendRows (readSendCount count) s.aivNum coreIdx = part at *
  obtain ⟨first, n⟩ := part
  dsimp only at *
  rcases Nat.eq_zero_or_pos n with rfl | hn
  · simp
  · rw [if_neg hn.ne']
    have hstart : s.permStart n < n := mod_lt _ hn
    rw [iterate_eq_of_lt (fun x hx => Shape.permNext_eq (by omega) hx)
      (fun x hx => wrapNext_lt hx (permStride_le hn)) n hstart, List.range'_eq_map_range]
    exact (iterate_wrapNext_perm hstart (permStride_le hn) (coprime_permStride hn)).map _

theorem splitSendRows_tile (selfSendCnt : ℕ) (haiv : 0 < s.aivNum) :
    ((List.range s.aivNum).flatMap fun coreIdx => List.range' (splitSendRows selfSendCnt s.aivNum coreIdx).1
        (splitSendRows selfSendCnt s.aivNum coreIdx).2) = List.range selfSendCnt := by
  have htile := flatMap_evenParts (List.range selfSendCnt) haiv
  rw [length_range] at htile
  refine Eq.trans ?_ htile
  refine flatMap_congr fun coreIdx hcore => ?_
  have hle := @evenPart_le selfSendCnt _ _ (mem_range.1 hcore)
  refine ext_getElem ?_ fun i _ _ => ?_
  · simp only [length_range', length_take, length_drop, length_range, splitSendRows]
    omega
  · simp [splitSendRows]

/-- Over all cores every received row is sent exactly once, and each core sends the rows of its own part. -/
theorem combine_sends_rows_once (haiv : 0 < s.aivNum) :
    ((List.range s.aivNum).flatMap fun coreIdx =>
        List.range' (splitSendRows (readSendCount count) s.aivNum coreIdx).1
          (splitSendRows (readSendCount count) s.aivNum coreIdx).2) = List.range (readSendCount count) ∧
      (∀ coreIdx < s.aivNum, (s.expertAlltoAllDispatchCopyAdd (readSendCount count) coreIdx).Perm
        (List.range' (splitSendRows (readSendCount count) s.aivNum coreIdx).1
          (splitSendRows (readSendCount count) s.aivNum coreIdx).2)) ∧
      ((List.range s.aivNum).flatMap (s.expertAlltoAllDispatchCopyAdd (readSendCount count))).Perm
        (List.range (readSendCount count)) := by
  have htile := splitSendRows_tile s (readSendCount count) haiv
  refine ⟨htile, fun coreIdx hcore => dispatchCopyAdd_perm s count hcore, ?_⟩
  rw [← htile]
  exact List.Perm.flatMap_left _ fun coreIdx hcore => dispatchCopyAdd_perm s count (List.mem_range.1 hcore)

end Rows

/-- Three cores of the last of two ranks. -/
def threeCores : Shape where
  epWorldSize := 2
  epRankId := 1
  axisBS := 8
  axisK := 2
  moeExpertNum := 2
  sharedExpertNum := 0
  sharedExpertRankNum := 0
  aivNum := 3

/-- Sixteen rows, six for the first core and five for the others. -/
theorem combine_sends_rows_once_sixteen : 0 < threeCores.aivNum ∧
    ((List.range threeCores.aivNum).flatMap
      (threeCores.expertAlltoAllDispatchCopyAdd (readSendCount 16#32))).Perm (List.range (readSendCount 16#32)) :=
  ⟨by decide, (combine_sends_rows_once threeCores 16#32 (by decide)).2.2⟩

example : threeCores.expertAlltoAllDispatchCopyAdd (readSendCount 16#32) 0 = [3, 2, 1, 0, 5, 4] := by decide

end TileXR.EpMemory
