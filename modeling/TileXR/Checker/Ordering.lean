import Mathlib.Data.List.GetD
import TileXR.Checker.Diagnostics
import TileXR.Lib.Schedule

/-!
# What a clean report of the ordering pass is worth

The flag waits of a log can all be satisfied when the ranks can be interleaved, each in its own order,
so that every wait comes after a store that matches it. `CheckOrdering` looks for a matching store
anywhere in the log, and for a pair of waits only among those without one, so it does not see waits whose
stores stand behind each other: a clean report is worth what it says exactly when the log has no such
circle (`checkOrdering_sound_iff`).
-/

namespace TileXR.Checker
open Lib

def eventAt (entries : List Event) (i : ℕ) : Event := entries.getD i {}

/-- The log as a trace: a rank is a thread, and a flag wait is enabled by the stores that match it. -/
def traceOf (entries : List Event) : Trace ℤ where
  length := entries.length
  thread i := (eventAt entries i).rank
  waits i := (eventAt entries i).kind = .flagWait
  enables k w := isMatchingStore (eventAt entries w) (eventAt entries k) = true

/-- Flag waits that have matching stores, all of them behind other waits of the set on their ranks. -/
structure CircularWait (entries : List Event) (W : Set ℕ) : Prop where
  nonempty : W.Nonempty
  waits : ∀ w ∈ W, w < entries.length ∧ (eventAt entries w).kind = .flagWait
  produced : ∀ w ∈ W, hasMatchingStore (eventAt entries w) entries = true
  behind : ∀ w ∈ W, ∀ k < entries.length,
    isMatchingStore (eventAt entries w) (eventAt entries k) = true →
      ∃ w' ∈ W, w' < k ∧ (eventAt entries w').rank = (eventAt entries k).rank

theorem isMatchingStore_kind {wait store : Event} (h : isMatchingStore wait store = true) :
    store.kind = .flagStore := by
  simp only [isMatchingStore, sameWaitSlot, Bool.and_eq_true, decide_eq_true_eq] at h
  exact h.1.1.1.1.1

theorem eventAt_mem {entries : List Event} {i : ℕ} (hi : i < entries.length) : eventAt entries i ∈ entries := by
  rw [eventAt, List.getD_eq_getElem _ _ hi]
  exact List.getElem_mem hi

/-- In a log without findings, blocked waits are circular: none of them lacks a store. -/
theorem blocked_iff_circular {entries : List Event} (h : ∀ e ∈ entries, Clean entries e) (W : Set ℕ) :
    (traceOf entries).Blocked W ↔ CircularWait entries W := by
  constructor
  · intro hW
    refine ⟨hW.nonempty, hW.waits, fun w hw => ?_, fun w hw k hk hen => ?_⟩
    · obtain ⟨hlt, hkind⟩ := hW.waits w hw
      exact (h _ (eventAt_mem hlt)).produced hkind
    · obtain ⟨w', hw', hle, hthread⟩ := hW.behind w hw k hk hen
      refine ⟨w', hw', lt_of_le_of_ne hle ?_, hthread⟩
      -- a store is not a wait
      rintro rfl
      have hkind : (eventAt entries w').kind = .flagWait := (hW.waits w' hw').2
      rw [isMatchingStore_kind hen] at hkind
      cases hkind
  · intro hW
    refine ⟨hW.nonempty, hW.waits, fun w hw k hk hen => ?_⟩
    obtain ⟨w', hw', hlt, hrank⟩ := hW.behind w hw k hk hen
    exact ⟨w', hw', hlt.le, hrank⟩

/-- A log without findings has satisfiable waits, if and only if one of its events is not clean, and so
reported, or it has no circular wait. -/
theorem checkOrdering_sound_iff (entries : List Event) :
    (checkOrdering entries = [] → (traceOf entries).Completes) ↔
      (∃ event ∈ entries, ¬ Clean entries event) ∨ ¬ ∃ W, CircularWait entries W := by
  rw [checkOrdering_nil_iff]
  by_cases h : ∀ e ∈ entries, Clean entries e
  · have hiff : (∃ W, (traceOf entries).Blocked W) ↔ ∃ W, CircularWait entries W :=
      exists_congr fun W => blocked_iff_circular h W
    rw [Trace.completes_iff, hiff]
    exact ⟨fun hs => .inr (hs h), fun hs _ => hs.resolve_left fun ⟨e, he, hbad⟩ => hbad (h e he)⟩
  · refine ⟨fun _ => .inl ?_, fun _ hn => absurd hn h⟩
    push Not at h
    exact h

/-- Two ranks that wait for each other's flag before they store their own. -/
def crossedWaits : List Event :=
  [{ id := 1, kind := .flagWait, rank := 0, peerRank := 1, slot := 0, magic := 1 },
    { id := 2, kind := .flagStore, rank := 0, peerRank := 1, slot := 1, magic := 1 },
    { id := 3, kind := .flagWait, rank := 1, peerRank := 0, slot := 1, magic := 1 },
    { id := 4, kind := .flagStore, rank := 1, peerRank := 0, slot := 0, magic := 1 }]

/-- Each wait has a store in the log, so nothing is reported; but neither rank gets past its wait. -/
theorem crossedWaits_unseen : checkOrdering crossedWaits = [] ∧ ¬ (traceOf crossedWaits).Completes := by
  refine ⟨by decide, fun hc => Trace.completes_iff.1 hc ⟨{w | w = 0 ∨ w = 2}, ⟨0, .inl rfl⟩, ?_, ?_⟩⟩
  · rintro w (rfl | rfl)
    · exact ⟨by decide, rfl⟩
    · exact ⟨by decide, rfl⟩
  · rintro w (rfl | rfl) k hk hen
    · have hstore : ∀ k < 4, isMatchingStore (eventAt crossedWaits 0) (eventAt crossedWaits k) = true →
          k = 3 := by decide
      obtain rfl := hstore k hk hen
      exact ⟨2, .inr rfl, by decide, rfl⟩
    · have hstore : ∀ k < 4, isMatchingStore (eventAt crossedWaits 2) (eventAt crossedWaits k) = true →
          k = 1 := by decide
      obtain rfl := hstore k hk hen
      exact ⟨0, .inl rfl, by decide, rfl⟩

end TileXR.Checker
