import TileXR.EpMemory.Routes
import Mathlib.Data.Finset.Card
import Mathlib.Order.Interval.Finset.Nat

/-!
# What combine waits for

The receiving half of the combine kernel. A row of the window consists of blocks with a flag area of eight
floats each; `CheckPackedTokenArrive` looks at the flags of all slots of a token, and `LocalWindowCopy`
polls the tokens of a core until each of them is done. `CombineInput.WaitsFor`: no core comes out of that
loop everywhere unless the row of the slot has been seen complete.
-/

namespace TileXR.EpMemory
open Lib
variable {a : (ℕ → Bool) × ℕ} {seen : ℕ → ℕ → ℕ → Bool} {coreIdx k t : ℕ}

def dataAsFlagFlagFloats : ℕ := 8

/-- What the receiving half of combine reads besides the window. -/
structure CombineInput where
  shape : Shape
  blockCntPerToken : ℕ
  mask : ActiveMask

namespace CombineInput
variable (y : CombineInput)

def slotCount : ℕ := y.shape.axisK + y.shape.sharedExpertNum
def rowFlags : ℕ := y.blockCntPerToken * dataAsFlagFlagFloats
def flagFloatCount : ℕ := y.slotCount * y.blockCntPerToken * dataAsFlagFlagFloats

def tokenActive (tokenIndex : ℕ) : Bool :=
  match y.mask with
  | .token mask => mask tokenIndex
  | _ => true

/-- The loop over the words of the comparison: how many flags are ready before the first one that is
not. -/
def arrivedCount (bits : ℕ → Bool) : ℕ → ℕ → ℕ
  | 0, _ => 0
  | words + 1, index =>
    match (List.range 64).find? fun i => !bits (index * 64 + i) with
    | none => 64 + arrivedCount bits words (index + 1)
    | some firstInvalid => firstInvalid

/-- `CheckPackedTokenArrive`, for the flags of a token one behind the other; the comparison buffer is
cleared first, so that flags behind the last slot are not ready. -/
def checkPackedTokenArrive (ready : ℕ → Bool) : Bool :=
  let n := y.flagFloatCount
  min (arrivedCount (fun i => i < n && ready i) ((n + 63) / 64) 0) n = n

def tokensOf (coreIdx : ℕ) : List ℕ :=
  List.range' (evenPart y.shape.axisBS y.shape.aivNum coreIdx).1
    (evenPart y.shape.axisBS y.shape.aivNum coreIdx).2

/-- One token of a pass of `LocalWindowCopy`: `tokenStatus` and `completed`. -/
def copyToken (seen : ℕ → ℕ → Bool) (a : (ℕ → Bool) × ℕ) (t : ℕ) : (ℕ → Bool) × ℕ :=
  if a.1 t then a
  else if !y.tokenActive t || y.checkPackedTokenArrive (seen t) then (Function.update a.1 t true, a.2 + 1)
  else a

/-- The first passes of `LocalWindowCopy`; `seen n t` are the flags of token `t` at its check in pass `n`. -/
def passes (coreIdx : ℕ) (seen : ℕ → ℕ → ℕ → Bool) : ℕ → (ℕ → Bool) × ℕ
  | 0 => (fun _ => false, 0)
  | n + 1 => (y.tokensOf coreIdx).foldl (y.copyToken (seen n)) (passes coreIdx seen n)

def Finishes (coreIdx : ℕ) (seen : ℕ → ℕ → ℕ → Bool) : Prop :=
  ∃ n, (y.passes coreIdx seen n).2 = (y.tokensOf coreIdx).length

/-- The row of a slot was complete in some pass. -/
def RowSeen (seen : ℕ → ℕ → ℕ → Bool) (t k : ℕ) : Prop :=
  ∃ n, ∀ j < y.rowFlags, seen n t (k * y.rowFlags + j) = true

/-- Combine does not end without the row of slot `k` of token `t`. -/
def WaitsFor (t k : ℕ) : Prop :=
  ∀ seen, (∀ coreIdx < y.shape.aivNum, y.Finishes coreIdx seen) → y.RowSeen seen t k

/-! ## The check -/

theorem le_arrivedCount_iff (bits : ℕ → Bool) : ∀ words index n : ℕ, n ≤ words * 64 →
    (n ≤ arrivedCount bits words index ↔ ∀ i < n, bits (index * 64 + i) = true)
  | 0, index, n, hn => by
    obtain rfl : n = 0 := by omega
    simp
  | words + 1, index, n, hn => by
    rw [arrivedCount]
    split
    · rename_i hnone
      have hword : ∀ i < 64, bits (index * 64 + i) = true := by
        simpa [List.find?_eq_none] using hnone
      rcases Nat.lt_or_ge n 64 with hlt | hge
      · exact iff_of_true (by omega) fun i hi => hword i (by omega)
      · have ih := le_arrivedCount_iff bits words (index + 1) (n - 64) (by omega)
        rw [show (n ≤ 64 + arrivedCount bits words (index + 1)) ↔
          n - 64 ≤ arrivedCount bits words (index + 1) by omega, ih]
        refine ⟨fun h i hi => ?_, fun h i hi => ?_⟩
        · rcases Nat.lt_or_ge i 64 with hi64 | hi64
          · exact hword i hi64
          · have := h (i - 64) (by omega)
            rwa [show (index + 1) * 64 + (i - 64) = index * 64 + i by omega] at this
        · have := h (i + 64) (by omega)
          rwa [show index * 64 + (i + 64) = (index + 1) * 64 + i by omega] at this
    · rename_i firstInvalid hsome
      -- the word has a flag that is not ready, and the flags before it are
      obtain ⟨hbad, hmem, hbefore⟩ := List.find?_range_eq_some.mp hsome
      rw [Bool.not_eq_true'] at hbad
      simp only [Bool.not_not] at hbefore
      refine ⟨fun h i hi => hbefore i (by omega), fun h => ?_⟩
      by_contra hlt
      rw [h firstInvalid (by omega)] at hbad
      exact absurd hbad (by decide)

theorem checkPackedTokenArrive_iff (ready : ℕ → Bool) :
    y.checkPackedTokenArrive ready = true ↔ ∀ i < y.flagFloatCount, ready i = true := by
  unfold checkPackedTokenArrive
  dsimp only
  rw [decide_eq_true_iff, min_eq_right_iff, le_arrivedCount_iff _ _ _ _ (by omega)]
  refine forall₂_congr fun i hi => ?_
  simp [hi]

/-- The flags of a row of the token are among those the check looks at. -/
theorem rowFlags_le {j : ℕ} (hk : k < y.slotCount) (hj : j < y.rowFlags) : k * y.rowFlags + j < y.flagFloatCount := by
  calc k * y.rowFlags + j < (k + 1) * y.rowFlags := by rw [Nat.succ_mul]; omega
    _ ≤ y.slotCount * y.rowFlags := Nat.mul_le_mul_right _ hk
    _ = y.flagFloatCount := by rw [flagFloatCount, rowFlags, Nat.mul_assoc]

/-! ## The polling loop -/

/-- A token needs nothing, or its flags were all ready in one of the first `n` passes. -/
def Arrived (seen : ℕ → ℕ → ℕ → Bool) (n t : ℕ) : Prop :=
  y.tokenActive t = false ∨ ∃ m < n, y.checkPackedTokenArrive (seen m t) = true

/-- `completed` counts the tokens of the core whose status is set. -/
def Counted (coreIdx : ℕ) (a : (ℕ → Bool) × ℕ) : Prop :=
  a.2 = ((y.tokensOf coreIdx).toFinset.filter fun t => a.1 t = true).card

variable {y}

theorem copyToken_counted {seen : ℕ → ℕ → Bool}
    (ht : t ∈ y.tokensOf coreIdx) (ha : y.Counted coreIdx a) : y.Counted coreIdx (y.copyToken seen a t) := by
  unfold copyToken
  split_ifs with hdone hgo
  · exact ha
  · have hinsert : (y.tokensOf coreIdx).toFinset.filter (fun u => Function.update a.1 t true u = true) =
        insert t ((y.tokensOf coreIdx).toFinset.filter fun u => a.1 u = true) := by
      ext u
      rcases eq_or_ne u t with rfl | hne
      · simp [ht]
      · simp [hne]
    unfold Counted at ha ⊢
    dsimp only
    rw [hinsert, Finset.card_insert_of_notMem (by simp [hdone]), ha]
  · exact ha

theorem copyToken_status {u : ℕ} {seen : ℕ → ℕ → Bool} : (y.copyToken seen a t).1 u = true ↔
      a.1 u = true ∨ u = t ∧ (y.tokenActive t = false ∨ y.checkPackedTokenArrive (seen t) = true) := by
  unfold copyToken
  split_ifs with hdone hgo
  · refine ⟨Or.inl, ?_⟩
    rintro (h | ⟨rfl, -⟩)
    exacts [h, hdone]
  · rw [Bool.or_eq_true, Bool.not_eq_true'] at hgo
    rcases eq_or_ne u t with rfl | hne
    · simp [hgo]
    · simp [hne]
  · rw [Bool.or_eq_true, Bool.not_eq_true'] at hgo
    simp [hgo]

theorem pass_spec (seen : ℕ → ℕ → Bool) : ∀ {l : List ℕ} {a : (ℕ → Bool) × ℕ},
    (∀ t ∈ l, t ∈ y.tokensOf coreIdx) → y.Counted coreIdx a →
    y.Counted coreIdx (l.foldl (y.copyToken seen) a) ∧ ∀ u, (l.foldl (y.copyToken seen) a).1 u = true ↔
        a.1 u = true ∨ u ∈ l ∧ (y.tokenActive u = false ∨ y.checkPackedTokenArrive (seen u) = true)
  | [], a, _, ha => ⟨ha, by simp⟩
  | t :: l, a, hl, ha => by
    have hcounted : y.Counted coreIdx (y.copyToken seen a t) := copyToken_counted (hl t List.mem_cons_self) ha
    obtain ⟨hcounted, hstatus⟩ := pass_spec seen (fun u hu => hl u (List.mem_cons_of_mem t hu)) hcounted
    refine ⟨hcounted, fun u => ?_⟩
    rw [List.foldl_cons, hstatus, copyToken_status, List.mem_cons]
    constructor
    · rintro ((h | ⟨rfl, h⟩) | ⟨hu, h⟩)
      exacts [.inl h, .inr ⟨.inl rfl, h⟩, .inr ⟨.inr hu, h⟩]
    · rintro (h | ⟨rfl | hu, h⟩)
      exacts [.inl (.inl h), .inl (.inr ⟨rfl, h⟩), .inr ⟨hu, h⟩]

/-- After a number of passes the tokens are done that have arrived in one of them. -/
theorem passes_spec (coreIdx : ℕ) (seen : ℕ → ℕ → ℕ → Bool) (n : ℕ) :
    y.Counted coreIdx (y.passes coreIdx seen n) ∧ ∀ u, (y.passes coreIdx seen n).1 u = true ↔
      0 < n ∧ u ∈ y.tokensOf coreIdx ∧ y.Arrived seen n u := by
  induction n with
  | zero => exact ⟨by simp [Counted, passes], by simp [passes]⟩
  | succ n ih =>
    obtain ⟨hcounted, hstatus⟩ := pass_spec (seen n) (fun t ht => ht) ih.1
    refine ⟨hcounted, fun u => ?_⟩
    rw [passes, hstatus, ih.2]
    constructor
    · rintro (⟨-, hu, hinactive | ⟨m, hm, hcheck⟩⟩ | ⟨hu, hinactive | hcheck⟩)
      · exact ⟨n.succ_pos, hu, .inl hinactive⟩
      · exact ⟨n.succ_pos, hu, .inr ⟨m, by omega, hcheck⟩⟩
      · exact ⟨n.succ_pos, hu, .inl hinactive⟩
      · exact ⟨n.succ_pos, hu, .inr ⟨n, by omega, hcheck⟩⟩
    · rintro ⟨-, hu, hinactive | ⟨m, hm, hcheck⟩⟩
      · exact .inr ⟨hu, .inl hinactive⟩
      · rcases Nat.lt_succ_iff_lt_or_eq.mp hm with hlt | rfl
        · exact .inl ⟨by omega, hu, .inr ⟨m, hlt, hcheck⟩⟩
        · exact .inr ⟨hu, .inr hcheck⟩

theorem passes_completed_iff {n : ℕ} : (y.passes coreIdx seen n).2 = (y.tokensOf coreIdx).length ↔
      ∀ t ∈ y.tokensOf coreIdx, (y.passes coreIdx seen n).1 t = true := by
  have hnodup : (y.tokensOf coreIdx).Nodup := List.nodup_range'
  rw [(passes_spec coreIdx seen n).1, ← List.toFinset_card_of_nodup hnodup, Finset.card_filter_eq_iff]
  simp

theorem Finishes.arrived (h : y.Finishes coreIdx seen) (ht : t ∈ y.tokensOf coreIdx) : ∃ n, y.Arrived seen n t := by
  obtain ⟨n, hn⟩ := h
  exact ⟨n, (((passes_spec coreIdx seen n).2 t).mp (passes_completed_iff.mp hn t ht)).2.2⟩

/-- One pass is enough where everything is there from the start. -/
theorem finishes_of_arrived (h : ∀ t ∈ y.tokensOf coreIdx, y.Arrived seen 1 t) : y.Finishes coreIdx seen :=
  ⟨1, passes_completed_iff.mpr fun t ht => ((passes_spec coreIdx seen 1).2 t).mpr ⟨Nat.one_pos, ht, h t ht⟩⟩

theorem exists_mem_tokensOf (ht : t < y.shape.axisBS) (haiv : 0 < y.shape.aivNum) :
    ∃ coreIdx < y.shape.aivNum, t ∈ y.tokensOf coreIdx := by
  obtain ⟨i, hi, hle, hlt⟩ := exists_evenPart ht haiv
  exact ⟨i, hi, List.mem_range'_1.mpr ⟨hle, hlt⟩⟩

theorem lt_of_mem_tokensOf (hcore : coreIdx < y.shape.aivNum) (ht : t ∈ y.tokensOf coreIdx) : t < y.shape.axisBS :=
  (List.mem_range'_1.mp ht).2.trans_le (evenPart_le hcore)

/-- Combine waits for every slot of every active token, and for nothing else. -/
theorem waitsFor_iff (haiv : 0 < y.shape.aivNum) (hblocks : 0 < y.blockCntPerToken) :
    y.WaitsFor t k ↔ t < y.shape.axisBS ∧ y.tokenActive t = true ∧ k < y.slotCount := by
  constructor
  · intro hwaits
    by_contra hnot
    -- everything is there except the row
    let seen : ℕ → ℕ → ℕ → Bool := fun _ u i =>
      !decide (u = t ∧ k * y.rowFlags ≤ i ∧ i < k * y.rowFlags + y.rowFlags)
    have harrived : ∀ u < y.shape.axisBS, y.Arrived seen 1 u := by
      intro u hu
      by_cases hactive : y.tokenActive u = true
      · refine .inr ⟨0, Nat.one_pos, (y.checkPackedTokenArrive_iff _).mpr fun i hi => ?_⟩
        simp only [seen, Bool.not_eq_true', decide_eq_false_iff_not]
        rintro ⟨rfl, hle, -⟩
        refine hnot ⟨hu, hactive, ?_⟩
        rw [flagFloatCount, Nat.mul_assoc] at hi
        exact Nat.lt_of_mul_lt_mul_right (hle.trans_lt hi)
      · exact .inl (by simpa using hactive)
    obtain ⟨n, hn⟩ := hwaits seen fun coreIdx hcore =>
      finishes_of_arrived fun u hu => harrived u (lt_of_mem_tokensOf hcore hu)
    have hrow : 0 < y.rowFlags := Nat.mul_pos hblocks (by decide)
    have hfirst := hn 0 hrow
    simp [seen, hrow] at hfirst
  · rintro ⟨ht, hactive, hk⟩ seen hfinish
    obtain ⟨coreIdx, hcore, hmem⟩ := exists_mem_tokensOf ht haiv
    obtain ⟨n, hinactive | ⟨m, -, hcheck⟩⟩ := (hfinish coreIdx hcore).arrived hmem
    · rw [hactive] at hinactive
      exact absurd hinactive (by decide)
    · exact ⟨m, fun j hj => (y.checkPackedTokenArrive_iff _).mp hcheck _ (y.rowFlags_le hk hj)⟩

end CombineInput

end TileXR.EpMemory
