import Mathlib.Algebra.Order.Ring.Int
import Mathlib.Data.Nat.Init

/-!
# Checked arithmetic

The helpers that the layout builders share: sums and products of `uint64_t` or `int64_t` that fail when
they do not fit, and sizes rounded up to a multiple.
-/

namespace TileXR

variable {lhs rhs : ℕ} {alignment out value : ℤ}

def uint64Max : ℕ := 2 ^ 64 - 1
def uint32Max : ℕ := 2 ^ 32 - 1

def checkedAdd (lhs rhs : ℕ) : Option ℕ := if rhs > uint64Max - lhs then none else some (lhs + rhs)

def checkedMul (lhs rhs : ℕ) : Option ℕ :=
  if lhs ≠ 0 ∧ rhs > uint64Max / lhs then none else some (lhs * rhs)

/-- `DivideRoundUp`, and `CeilDivU64` of the kernels. -/
def divideRoundUp (value divisor : ℕ) : ℕ := value / divisor + if value % divisor ≠ 0 then 1 else 0

theorem checkedAdd_eq {out : ℕ} (h : checkedAdd lhs rhs = some out) : out = lhs + rhs := by
  unfold checkedAdd at h
  split at h
  · cases h
  · exact (Option.some.inj h).symm

theorem checkedMul_eq {out : ℕ} (h : checkedMul lhs rhs = some out) : out = lhs * rhs := by
  unfold checkedMul at h
  split at h
  · cases h
  · exact (Option.some.inj h).symm

theorem checkedAdd_eq_some_iff {out : ℕ} (hl : lhs < 2 ^ 64) :
    checkedAdd lhs rhs = some out ↔ lhs + rhs < 2 ^ 64 ∧ out = lhs + rhs := by
  unfold checkedAdd uint64Max
  split_ifs with h
  · exact iff_of_false (by simp) (by omega)
  · rw [Option.some.injEq, eq_comm]
    exact ⟨fun h => ⟨by omega, h⟩, fun h => h.2⟩

theorem checkedMul_eq_some_iff {out : ℕ} : checkedMul lhs rhs = some out ↔ lhs * rhs < 2 ^ 64 ∧ out = lhs * rhs := by
  have hfits : (lhs ≠ 0 ∧ rhs > uint64Max / lhs) ↔ 2 ^ 64 ≤ lhs * rhs := by
    rcases Nat.eq_zero_or_pos lhs with rfl | hpos
    · simp
    · rw [gt_iff_lt, Nat.div_lt_iff_lt_mul hpos, uint64Max, Nat.mul_comm]
      exact ⟨fun h => by omega, fun h => ⟨by omega, by omega⟩⟩
  unfold checkedMul
  split_ifs with h
  · exact iff_of_false (by simp) (by rw [hfits] at h; omega)
  · rw [Option.some.injEq, eq_comm]
    rw [hfits] at h
    exact ⟨fun h' => ⟨by omega, h'⟩, fun h' => h'.2⟩

/-- What a builder returns, `true` for `TILEXR_SUCCESS` and `false` for
`TILEXR_ERROR_PARA_CHECK_FAIL`, and the caller's object after it. -/
def storeResult {α : Type*} (result : Option α) (caller : α) : Bool × α :=
  match result with
  | some value => (true, value)
  | none => (false, caller)

theorem storeResult_true {α : Type*} {result : Option α} {caller value : α}
    (h : storeResult result caller = (true, value)) : result = some value := by
  cases result with
  | some r => exact congrArg some (congrArg Prod.snd h)
  | none => exact absurd (congrArg Prod.fst h) (by simp [storeResult])

theorem storeResult_false {α : Type*} {result : Option α} {caller value : α}
    (h : storeResult result caller = (false, value)) : value = caller := by
  cases result with
  | some r => exact absurd (congrArg Prod.fst h) (by simp [storeResult])
  | none => exact (congrArg Prod.snd h).symm

theorem guard_bind {α : Type} {p : Prop} [Decidable p] {f : Unit → Option α} {a : α}
    (h : (guard p >>= f) = some a) : p ∧ f () = some a := by
  by_cases hp : p
  · rw [guard, if_pos hp] at h
    exact ⟨hp, h⟩
  · rw [guard, if_neg hp] at h
    cases h

theorem lt_divideRoundUp {value divisor x : ℕ} (h : 0 < divisor) :
    x < divideRoundUp value divisor ↔ x * divisor < value := by
  have hdiv := Nat.div_add_mod value divisor
  rw [Nat.mul_comm] at hdiv
  have hmod := Nat.mod_lt value h
  rw [divideRoundUp]
  constructor
  · intro hx
    rcases Nat.lt_or_ge x (value / divisor) with hlt | hge
    · have := Nat.mul_le_mul_right divisor (Nat.succ_le_of_lt hlt)
      rw [Nat.succ_mul] at this
      omega
    · split at hx
      · obtain rfl : x = value / divisor := by omega
        omega
      · omega
  · intro hx
    have hle : x ≤ value / divisor := (Nat.le_div_iff_mul_le h).2 (by omega)
    rcases Nat.lt_or_ge x (value / divisor) with hlt | hge
    · omega
    · obtain rfl : x = value / divisor := by omega
      rw [if_pos (by omega)]
      omega

/-! ## Sizes in `int64_t` -/

def maxInt64 : ℤ := 2 ^ 63 - 1

def mulInt64 (lhs rhs : ℤ) : Option ℤ :=
  if lhs < 0 ∨ rhs < 0 ∨ lhs ≠ 0 ∧ rhs > maxInt64 / lhs then none else some (lhs * rhs)

def addInt64 (lhs rhs : ℤ) : Option ℤ :=
  if lhs < 0 ∨ rhs < 0 ∨ rhs > maxInt64 - lhs then none else some (lhs + rhs)

/-- `AlignUpInt64`, and `TileXREpAlignUp` -/
def alignUpInt64 (value alignment : ℤ) : Option ℤ :=
  if value < 0 ∨ alignment ≤ 0 then none
  else if value % alignment = 0 then some value
  else addInt64 value (alignment - value % alignment)

def ceilDivInt64 (value divisor : ℤ) : Option ℤ :=
  if value < 0 ∨ divisor ≤ 0 then none
  else some (value / divisor + if value % divisor = 0 then 0 else 1)

/-- A chain of `AddInt64` into one sum. -/
def sumInt64 (first : ℤ) (terms : List ℤ) : Option ℤ := terms.foldlM addInt64 first

theorem mulInt64_eq {lhs rhs : ℤ} (h : mulInt64 lhs rhs = some out) : 0 ≤ lhs ∧ 0 ≤ rhs ∧ out = lhs * rhs := by
  unfold mulInt64 at h
  split at h
  · cases h
  · rename_i hok
    exact ⟨by omega, by omega, (Option.some.inj h).symm⟩

theorem addInt64_eq {lhs rhs : ℤ} (h : addInt64 lhs rhs = some out) : 0 ≤ lhs ∧ 0 ≤ rhs ∧ out = lhs + rhs := by
  unfold addInt64 at h
  split at h
  · cases h
  · rename_i hok
    exact ⟨by omega, by omega, (Option.some.inj h).symm⟩

theorem addInt64_le {lhs rhs : ℤ} (h : addInt64 lhs rhs = some out) : out ≤ maxInt64 := by
  unfold addInt64 at h
  split at h
  · cases h
  · rename_i hok
    rw [← Option.some.inj h]
    omega

theorem alignUpInt64_le (h : alignUpInt64 value alignment = some out) (hv : value ≤ maxInt64) : out ≤ maxInt64 := by
  unfold alignUpInt64 at h
  split at h
  · cases h
  split at h
  · exact Option.some.inj h ▸ hv
  · exact addInt64_le h

theorem alignUpInt64_spec (h : alignUpInt64 value alignment = some out) :
    0 ≤ value ∧ 0 < alignment ∧ value ≤ out ∧ out < value + alignment ∧ alignment ∣ out := by
  unfold alignUpInt64 at h
  split at h
  · cases h
  rename_i hok
  have hpos : 0 < alignment := by omega
  have hmod := Int.emod_lt_of_pos value hpos
  have hnonneg := Int.emod_nonneg value hpos.ne'
  split at h
  · cases h
    rename_i hzero
    exact ⟨by omega, hpos, le_rfl, by omega, Int.dvd_of_emod_eq_zero hzero⟩
  · obtain ⟨-, -, rfl⟩ := addInt64_eq h
    refine ⟨by omega, hpos, by omega, by omega, ?_⟩
    have hdiv := Int.mul_ediv_add_emod value alignment
    exact ⟨value / alignment + 1, by rw [mul_add]; omega⟩

theorem sumInt64_spec {first : ℤ} {terms : List ℤ} (h : sumInt64 first terms = some out) :
    (∀ t ∈ terms, 0 ≤ t) ∧ out = first + terms.sum := by
  induction terms generalizing first with
  | nil => cases h; simp
  | cons t terms ih =>
    simp only [sumInt64, List.foldlM_cons] at h
    obtain ⟨next, hnext, hrest⟩ := Option.bind_eq_some_iff.1 h
    obtain ⟨-, hpos, rfl⟩ := addInt64_eq hnext
    obtain ⟨hall, hout⟩ := ih hrest
    refine ⟨List.forall_mem_cons.2 ⟨hpos, hall⟩, ?_⟩
    rw [hout, List.sum_cons, add_assoc]

end TileXR
