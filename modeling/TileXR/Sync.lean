import Mathlib.Algebra.Order.Ring.Nat

/-!
# Flag words

`tilexr_sync.h`: a flag word has the magic of an operation, cast to 32 bits, in its upper half and a
step in its lower half.
-/

namespace TileXR

/-- `MergeMagicWithValue` after the cast of the magic to 32 bits. -/
def mergeMagicWithValue (magic step : ℕ) : ℕ := magic % 2 ^ 32 * 2 ^ 32 + step

theorem mergeMagicWithValue_div {magic step : ℕ} (h : step < 2 ^ 32) :
    mergeMagicWithValue magic step / 2 ^ 32 = magic % 2 ^ 32 := by
  rw [mergeMagicWithValue]; omega

theorem mergeMagicWithValue_mod {magic step : ℕ} (h : step < 2 ^ 32) :
    mergeMagicWithValue magic step % 2 ^ 32 = step := by
  rw [mergeMagicWithValue]; omega

end TileXR
