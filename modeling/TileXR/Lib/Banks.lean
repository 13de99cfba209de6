import Mathlib.Data.Nat.Init

/-!
# Two banks

Items `0, 1, 2, …` are put in turn into two banks, each with a word that shows the last item put there.
A reader that looks for item `c` in its bank finds it exactly while at most one later item has been put.
-/

namespace Lib
variable {ν : Type*} {init : ν} {tok : ℕ → ν} {b c n : ℕ}

/-- What the word of bank `b` shows after `n` items. -/
def shown (init : ν) (tok : ℕ → ν) (b n : ℕ) : ν :=
  if n ≤ b then init else tok (b + (n - 1 - b) / 2 * 2)

@[simp] theorem shown_zero : shown init tok b 0 = init := if_pos (Nat.zero_le _)

theorem shown_of_lt (hc : c < n) (hn : n ≤ c + 2) : shown init tok (c % 2) n = tok c := by
  rw [shown, if_neg (by omega)]
  congr 1
  omega

theorem shown_succ_of_ne (hb : b < 2) (h : b ≠ n % 2) : shown init tok b (n + 1) = shown init tok b n := by
  rw [shown, shown]
  rcases Nat.lt_or_ge b n with hlt | hge
  · rw [if_neg (by omega), if_neg (by omega), show (n + 1 - 1 - b) / 2 = (n - 1 - b) / 2 by omega]
  · rw [if_pos (by omega), if_pos hge]

theorem lt_of_shown (hinit : init ≠ tok c) (hinj : ∀ k < n, tok k = tok c → k = c)
    (h : shown init tok (c % 2) n = tok c) : c < n ∧ n ≤ c + 2 := by
  rw [shown] at h
  split at h
  · exact absurd h hinit
  · have := hinj _ (by omega) h
    omega

end Lib
