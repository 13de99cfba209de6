import Mathlib.Data.List.Nodup
import Mathlib.Data.List.Perm.Subperm
import Mathlib.Data.Set.Basic

/-!
# Schedules of a trace with waits

A trace records events of several threads in one order. Some of them wait for others: they can run only
after an event that enables them. `Runs` executes the events of a trace in a new order, in which every
thread keeps its own. A trace that cannot be executed to its end has a set of waits that block each
other: whatever enables one of them is behind another, in the order of its thread (`completes_iff`).
-/

namespace Lib
open List

variable {τ : Type*}

/-- Events `0, .., length - 1`, each on a thread. -/
structure Trace (τ : Type*) where
  length : ℕ
  thread : ℕ → τ
  waits : ℕ → Prop
  enables : ℕ → ℕ → Prop

namespace Trace
variable (t : Trace τ)

/-- The events executed so far, in the order they were. -/
inductive Runs : List ℕ → Prop
  | nil : Runs []
  | snoc {order : List ℕ} {i : ℕ} (h : Runs order) (hi : i < t.length) (hnew : i ∉ order)
      (hprogram : ∀ j < i, t.thread j = t.thread i → j ∈ order)
      (hwait : t.waits i → ∃ k ∈ order, t.enables k i) : Runs (order ++ [i])

def Completes : Prop := ∃ order, t.Runs order ∧ ∀ i < t.length, i ∈ order

/-- Waits that block each other. -/
structure Blocked (W : Set ℕ) : Prop where
  nonempty : W.Nonempty
  waits : ∀ w ∈ W, w < t.length ∧ t.waits w
  behind : ∀ w ∈ W, ∀ k < t.length, t.enables k w → ∃ w' ∈ W, w' ≤ k ∧ t.thread w' = t.thread k

variable {t}

namespace Runs
variable {order : List ℕ}

section
variable (h : t.Runs order)
include h

theorem lt {i : ℕ} (hi : i ∈ order) : i < t.length := by
  induction h with
  | nil => simp at hi
  | snoc _ hlt _ _ _ ih =>
    rcases mem_append.1 hi with hi | hi
    · exact ih hi
    · rw [mem_singleton.1 hi]; exact hlt

/-- What an executed event's thread did before it has been executed. -/
theorem closed {i j : ℕ} (hi : i ∈ order) (hj : j < i) (hthread : t.thread j = t.thread i) : j ∈ order := by
  induction h with
  | nil => simp at hi
  | snoc _ _ _ hprogram _ ih =>
    refine mem_append_left _ ?_
    rcases mem_append.1 hi with hi | hi
    · exact ih hi
    · rw [mem_singleton.1 hi] at hj hthread
      exact hprogram j hj hthread

theorem nodup : order.Nodup := by
  induction h with
  | nil => exact nodup_nil
  | snoc _ _ hnew _ _ ih => exact ih.append (nodup_singleton _) (by simpa using hnew)

theorem length_le : order.length ≤ t.length := by
  have := (h.nodup.subperm fun i hi => mem_range.2 (h.lt hi)).length_le
  rwa [length_range] at this

theorem not_mem_blocked {W : Set ℕ} (hW : t.Blocked W) {w : ℕ} (hw : w ∈ W) : w ∉ order := by
  induction h generalizing w with
  | nil => simp
  | @snoc order i hruns hi _ _ hwait ih =>
    rw [mem_append, not_or]
    refine ⟨ih hw, fun hlast => ?_⟩
    obtain rfl := mem_singleton.1 hlast
    obtain ⟨k, hk, hen⟩ := hwait (hW.waits w hw).2
    obtain ⟨w', hw', hle, hthread⟩ := hW.behind w hw k (hruns.lt hk) hen
    have hin : w' ∈ order := by
      rcases hle.lt_or_eq with hlt | rfl
      · exact hruns.closed hk hlt hthread
      · exact hk
    exact ih hw' hin

end

end Runs

/-- The next event of its thread. -/
def Frontier (t : Trace τ) (order : List ℕ) (i : ℕ) : Prop :=
  i < t.length ∧ i ∉ order ∧ ∀ j < i, t.thread j = t.thread i → j ∈ order

/-- At or before an event not executed its thread has a next event. -/
theorem exists_frontier {order : List ℕ} {i : ℕ} (hi : i < t.length) (hnew : i ∉ order) :
    ∃ j ≤ i, t.thread j = t.thread i ∧ t.Frontier order j := by
  induction i using Nat.strongRecOn with
  | ind i ih =>
    by_cases hprogram : ∀ j < i, t.thread j = t.thread i → j ∈ order
    · exact ⟨i, le_rfl, rfl, hi, hnew, hprogram⟩
    · push Not at hprogram
      obtain ⟨j, hj, hthread, hout⟩ := hprogram
      obtain ⟨j', hle, hthread', hfront⟩ := ih j hj (hj.trans hi) hout
      exact ⟨j', hle.trans hj.le, hthread'.trans hthread, hfront⟩

/-- Without blocked waits an execution that is not complete can go on. -/
theorem Runs.extend {order : List ℕ} (h : t.Runs order) (hfree : ¬ ∃ W, t.Blocked W) {i : ℕ}
    (hi : i < t.length) (hnew : i ∉ order) : ∃ j, t.Runs (order ++ [j]) := by
  by_contra hstuck
  push Not at hstuck
  -- every next event waits, and nothing executed enables it
  have hwaits : ∀ j, t.Frontier order j → t.waits j ∧ ∀ k ∈ order, ¬ t.enables k j := by
    intro j hj
    by_contra hcan
    refine hstuck j (h.snoc hj.1 hj.2.1 hj.2.2 fun hw => ?_)
    by_contra hnone
    push Not at hnone
    exact hcan ⟨hw, hnone⟩
  refine hfree ⟨{j | t.Frontier order j}, ?_, fun w hw => ⟨hw.1, (hwaits w hw).1⟩, ?_⟩
  · obtain ⟨j, _, _, hj⟩ := exists_frontier hi hnew
    exact ⟨j, hj⟩
  · intro w hw k hk hen
    have hout : k ∉ order := fun hin => (hwaits w hw).2 k hin hen
    obtain ⟨j, hle, hthread, hj⟩ := exists_frontier hk hout
    exact ⟨j, hj, hle, hthread⟩

/-- A trace can be executed to its end exactly when no waits block each other. -/
theorem completes_iff : t.Completes ↔ ¬ ∃ W, t.Blocked W := by
  constructor
  · rintro ⟨order, hruns, hall⟩ ⟨W, hW⟩
    obtain ⟨w, hw⟩ := hW.nonempty
    exact hruns.not_mem_blocked hW hw (hall w (hW.waits w hw).1)
  · intro hfree
    suffices ∀ n order, t.Runs order → t.length - order.length = n → t.Completes from
      this _ [] .nil rfl
    intro n
    induction n with
    | zero =>
      intro order hruns hn
      refine ⟨order, hruns, fun i hi => ?_⟩
      by_contra hnew
      obtain ⟨j, hext⟩ := hruns.extend hfree hi hnew
      have := hext.length_le
      rw [length_append, length_singleton] at this
      omega
    | succ n ih =>
      intro order hruns hn
      by_cases hall : ∀ i < t.length, i ∈ order
      · exact ⟨order, hruns, hall⟩
      · push Not at hall
        obtain ⟨i, hi, hnew⟩ := hall
        obtain ⟨j, hext⟩ := hruns.extend hfree hi hnew
        refine ih _ hext ?_
        rw [length_append, length_singleton]
        omega

end Trace

end Lib
