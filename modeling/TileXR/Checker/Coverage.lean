import TileXR.Checker.Diagnostics
import TileXR.Lib.Loop

/-!
# Whether the trace wrote all of an output

`HasUserOutputWriteCoverage` of `tools/checker/src/trace_runtime.cpp`. The events of a log come in no order,
so the function keeps a frontier up to which the span is written and sweeps over the log until no event
moves it. It answers whether the write and copy events of the rank together cover the span
(`hasUserOutputWriteCoverage_iff`). Sizes are `size_t`.
-/

namespace TileXR.Checker
open Lib

variable {s : ℕ × Bool} {coveredUntil : ℕ}
variable {event : Event} {role : BufferRole}

def Event.Writes (event : Event) (rank : ℤ) (role : BufferRole) : Prop :=
  (event.kind = .write ∨ event.kind = .copy) ∧ event.rank = rank ∧ event.bufferRole = role

instance (event : Event) (rank : ℤ) (role : BufferRole) : Decidable (event.Writes rank role) :=
  inferInstanceAs (Decidable (_ ∧ _ ∧ _))

def eventCoversRange (event : Event) (rank : ℤ) (role : BufferRole) (offset bytes : ℕ) : Bool :=
  if ¬ event.Writes rank role then false
  else if offset < event.offset then false
  else
    let relative := offset - event.offset
    relative ≤ event.bytes && bytes ≤ event.bytes - relative

/-- `EventIntersectsCoverageFrontier`: where the event moves the frontier to. -/
def eventIntersectsCoverageFrontier (event : Event) (rank : ℤ) (role : BufferRole) (coveredUntil : ℕ) :
    Option ℕ :=
  if ¬ event.Writes rank role then none
  else if event.offset > coveredUntil then none
  else
    let eventEnd := (event.offset + event.bytes) % 2 ^ 64
    if eventEnd ≤ coveredUntil then none else some eventEnd

section Sweep
variable (rank : ℤ) (targetEnd : ℕ)

/-- One event of the inner loop, on `covered_until` and `advanced`. -/
def coverStep (event : Event) (s : ℕ × Bool) : ℕ × Bool :=
  match eventIntersectsCoverageFrontier event rank .userOutput s.1 with
  | some next => (if next > targetEnd then targetEnd else next, true)
  | none => s

/-- The inner loop; it breaks when the frontier has come to the end of the span. -/
def coverSweep : List Event → ℕ × Bool → ℕ × Bool
  | [], s => s
  | event :: events, s =>
    let s := coverStep rank targetEnd event s
    if s.1 ≥ targetEnd then s else coverSweep events s

def coverRound (events : List Event) (s : ℕ × Bool) : Step (ℕ × Bool) :=
  if s.1 < targetEnd ∧ s.2 = true then .next (coverSweep rank targetEnd events (s.1, false)) else .done s

/-- What is left of the span, twice, and one more when another round is due. -/
def coverMeasure (s : ℕ × Bool) : ℕ := 2 * (targetEnd - s.1) + if s.2 then 1 else 0

end Sweep

def hasUserOutputWriteCoverage (events : List Event) (rank : ℤ) (offset bytes : ℕ) : Bool :=
  if bytes = 0 then true
  else
    let targetEnd := (offset + bytes) % 2 ^ 64
    let s := loop (coverMeasure targetEnd) (coverRound rank targetEnd events) (offset, true)
    s.1 ≥ targetEnd || events.any fun event => eventCoversRange event rank .userOutput offset bytes

/-! ## What is written -/

/-- Some write or copy of the rank to its output covers the byte. -/
def Written (events : List Event) (rank : ℤ) (x : ℕ) : Prop :=
  ∃ event ∈ events, event.Writes rank .userOutput ∧ event.offset ≤ x ∧ x < event.offset + event.bytes

theorem eventCoversRange_sound {rank : ℤ} {offset bytes : ℕ}
    (h : eventCoversRange event rank role offset bytes = true) :
    event.Writes rank role ∧ event.offset ≤ offset ∧ offset + bytes ≤ event.offset + event.bytes := by
  unfold eventCoversRange at h
  split_ifs at h with hwrites hbefore
  simp only [Bool.and_eq_true, decide_eq_true_eq] at h
  exact ⟨hwrites, by omega, by omega⟩

/-- An event that moves the frontier has written everything between the old and the new one. -/
theorem intersects_sound {rank : ℤ} {next : ℕ}
    (h : eventIntersectsCoverageFrontier event rank role coveredUntil = some next) :
    event.Writes rank role ∧ event.offset ≤ coveredUntil ∧ coveredUntil < next ∧
      next ≤ event.offset + event.bytes := by
  unfold eventIntersectsCoverageFrontier at h
  split_ifs at h with hwrites hbehind
  dsimp only at h
  split_ifs at h with hend
  cases h
  exact ⟨hwrites, by omega, by omega, Nat.mod_le _ _⟩

/-- An event that does not move the frontier has not written the byte there, unless its end wraps
around. -/
theorem intersects_complete {rank : ℤ} (hwrap : event.offset + event.bytes < 2 ^ 64)
    (hwrites : event.Writes rank role) (hle : event.offset ≤ coveredUntil)
    (hlt : coveredUntil < event.offset + event.bytes) :
    eventIntersectsCoverageFrontier event rank role coveredUntil ≠ none := by
  unfold eventIntersectsCoverageFrontier
  rw [if_neg (not_not.2 hwrites), if_neg (by omega)]
  dsimp only
  rw [Nat.mod_eq_of_lt hwrap, if_neg (by omega)]
  exact Option.some_ne_none _

/-! ## The frontier -/

section Frontier
variable {rank : ℤ} {offset targetEnd : ℕ} {events : List Event}

/-- The span is written up to the frontier. -/
def FrontierOk (events : List Event) (rank : ℤ) (offset targetEnd covered : ℕ) : Prop :=
  covered ≤ targetEnd ∧ ∀ x, offset ≤ x → x < covered → Written events rank x

theorem coverStep_ok (hmem : event ∈ events) (h : FrontierOk events rank offset targetEnd s.1) :
    FrontierOk events rank offset targetEnd (coverStep rank targetEnd event s).1 := by
  unfold coverStep
  cases hnext : eventIntersectsCoverageFrontier event rank .userOutput s.1 with
  | none => exact h
  | some next =>
    obtain ⟨hwrites, hle, -, hend⟩ := intersects_sound hnext
    refine ⟨by dsimp only; split_ifs <;> omega, fun x hx hlt => ?_⟩
    rcases Nat.lt_or_ge x s.1 with hold | hnew
    · exact h.2 x hx hold
    · refine ⟨event, hmem, hwrites, by omega, ?_⟩
      dsimp only at hlt
      split_ifs at hlt <;> omega

theorem coverSweep_ok {rest : List Event} (hrest : ∀ event ∈ rest, event ∈ events) {s : ℕ × Bool}
    (h : FrontierOk events rank offset targetEnd s.1) :
    FrontierOk events rank offset targetEnd (coverSweep rank targetEnd rest s).1 := by
  induction rest generalizing s with
  | nil => exact h
  | cons event rest ih =>
    obtain ⟨hmem, hrest⟩ := List.forall_mem_cons.1 hrest
    have hstep := coverStep_ok hmem h
    rw [coverSweep]
    split_ifs
    · exact hstep
    · exact ih hrest hstep

/-- A step either leaves the state alone, or moves the frontier and says so. -/
theorem coverStep_cases (event : Event) {s : ℕ × Bool} (hlt : s.1 < targetEnd) :
    (coverStep rank targetEnd event s = s ∧ eventIntersectsCoverageFrontier event rank .userOutput s.1 = none) ∨
      ((coverStep rank targetEnd event s).2 = true ∧ s.1 < (coverStep rank targetEnd event s).1) := by
  unfold coverStep
  cases hnext : eventIntersectsCoverageFrontier event rank .userOutput s.1 with
  | none => exact .inl ⟨rfl, rfl⟩
  | some next =>
    obtain ⟨-, -, hmove, -⟩ := intersects_sound hnext
    refine .inr ⟨rfl, ?_⟩
    dsimp only
    split_ifs <;> omega

theorem coverSweep_cases (rest : List Event) {s : ℕ × Bool} (hlt : s.1 < targetEnd) :
    (coverSweep rank targetEnd rest s = s ∧
        ∀ event ∈ rest, eventIntersectsCoverageFrontier event rank .userOutput s.1 = none) ∨
      ((coverSweep rank targetEnd rest s).2 = true ∧ s.1 < (coverSweep rank targetEnd rest s).1) := by
  induction rest generalizing s with
  | nil => exact .inl ⟨rfl, fun event h => nomatch h⟩
  | cons event rest ih =>
    rw [coverSweep]
    rcases @coverStep_cases rank targetEnd event s hlt with ⟨hsame, hnone⟩ | ⟨hadvanced, hmove⟩
    · rw [hsame, if_neg (by omega)]
      rcases ih hlt with ⟨hrest, hall⟩ | hmoved
      · exact .inl ⟨hrest, List.forall_mem_cons.2 ⟨hnone, hall⟩⟩
      · exact .inr hmoved
    · right
      split_ifs with hend
      · exact ⟨hadvanced, hmove⟩
      · rcases ih (Nat.lt_of_not_le hend) with ⟨hrest, -⟩ | ⟨hagain, hmore⟩
        · rw [hrest]
          exact ⟨hadvanced, hmove⟩
        · exact ⟨hagain, hmove.trans hmore⟩

/-- Every further round moves the frontier, or is the last one. -/
theorem coverRound_decreases (rank : ℤ) (targetEnd : ℕ) (events : List Event) :
    Decreases (coverMeasure targetEnd) (coverRound rank targetEnd events) := by
  intro s s' h
  unfold coverRound at h
  split_ifs at h with hon
  cases h
  obtain ⟨hlt, hadvanced⟩ := hon
  unfold coverMeasure
  rw [if_pos hadvanced]
  rcases @coverSweep_cases rank targetEnd events (s.1, false) hlt with ⟨hsame, -⟩ | ⟨hagain, hmove⟩
  · rw [hsame, if_neg Bool.false_ne_true]
    exact Nat.lt_succ_self _
  · rw [if_pos hagain]
    dsimp only at hmove
    omega

/-- At the head of the outer loop: the span is written up to the frontier, and when no round is due no
event meets the frontier. -/
def HeadOk (events : List Event) (rank : ℤ) (offset targetEnd : ℕ) (s : ℕ × Bool) : Prop :=
  offset ≤ s.1 ∧ FrontierOk events rank offset targetEnd s.1 ∧ (s.1 < targetEnd → s.2 = false →
    ∀ event ∈ events, eventIntersectsCoverageFrontier event rank .userOutput s.1 = none)

theorem coverRound_meets (h : HeadOk events rank offset targetEnd s) :
    (coverRound rank targetEnd events s).Meets (HeadOk events rank offset targetEnd)
      (fun s => HeadOk events rank offset targetEnd s ∧ (s.1 < targetEnd → s.2 = false))
      (coverMeasure targetEnd) s := by
  have hless := coverRound_decreases rank targetEnd events s
  unfold coverRound at hless ⊢
  split_ifs at hless ⊢ with hon
  · have hnext := hless _ rfl
    refine ⟨?_, hnext⟩
    have hfront := @coverSweep_ok rank offset targetEnd events events (fun _ h => h) (s.1, false) h.2.1
    rcases @coverSweep_cases rank targetEnd events (s.1, false) hon.1 with ⟨hsame, hall⟩ | ⟨hagain, hmove⟩
    · rw [hsame]
      exact ⟨h.1, h.2.1, fun _ _ => hall⟩
    · exact ⟨h.1.trans hmove.le, hfront, fun _ hstop => absurd (hstop.symm.trans hagain) Bool.false_ne_true⟩
  · refine ⟨h, fun hlt => ?_⟩
    rw [← Bool.not_eq_true]
    exact fun hadvanced => hon ⟨hlt, hadvanced⟩

end Frontier

theorem cover_loop (events : List Event) (rank : ℤ) {offset targetEnd : ℕ} (h : offset ≤ targetEnd) :
    let s := loop (coverMeasure targetEnd) (coverRound rank targetEnd events) (offset, true)
    HeadOk events rank offset targetEnd s ∧ (s.1 < targetEnd → s.2 = false) :=
  loop_meets (fun _ => coverRound_meets)
    ⟨le_rfl, ⟨h, fun x hx hlt => by omega⟩, fun _ hstop => absurd hstop.symm Bool.false_ne_true⟩

/-- The outer loop ends; a span that is found covered is written, and a written span is found covered
as long as no event of the output ends beyond the last address. -/
theorem hasUserOutputWriteCoverage_iff (events : List Event) (rank : ℤ) {offset bytes : ℕ}
    (hspan : offset + bytes < 2 ^ 64) :
    Ends (coverRound rank (offset + bytes) events) (offset, true)
        (loop (coverMeasure (offset + bytes)) (coverRound rank (offset + bytes) events) (offset, true)) ∧
      (hasUserOutputWriteCoverage events rank offset bytes = true →
        ∀ x, offset ≤ x → x < offset + bytes → Written events rank x) ∧
      ((∀ event ∈ events, event.Writes rank .userOutput → event.offset + event.bytes < 2 ^ 64) →
        (hasUserOutputWriteCoverage events rank offset bytes = true ↔
          ∀ x, offset ≤ x → x < offset + bytes → Written events rank x)) := by
  refine ⟨ends_loop (coverRound_decreases _ _ _) _, ?_⟩
  have hsound : hasUserOutputWriteCoverage events rank offset bytes = true →
      ∀ x, offset ≤ x → x < offset + bytes → Written events rank x := by
    intro h x hx hlt
    unfold hasUserOutputWriteCoverage at h
    rw [if_neg (by omega), Nat.mod_eq_of_lt hspan] at h
    dsimp only at h
    rw [Bool.or_eq_true, decide_eq_true_eq, List.any_eq_true] at h
    rcases h with hend | ⟨event, hmem, hcovers⟩
    · have hhead := (cover_loop events rank (Nat.le_add_right offset bytes)).1
      exact hhead.2.1.2 x hx (by omega)
    · obtain ⟨hwrites, hle, hle'⟩ := eventCoversRange_sound hcovers
      exact ⟨event, hmem, hwrites, by omega, by omega⟩
  refine ⟨hsound, fun hwrap => ⟨hsound, fun h => ?_⟩⟩
  unfold hasUserOutputWriteCoverage
  split_ifs with hzero
  · rfl
  rw [Nat.mod_eq_of_lt hspan]
  dsimp only
  rw [Bool.or_eq_true, decide_eq_true_eq]
  left
  obtain ⟨⟨hge, -, hstuck⟩, hstop⟩ := cover_loop events rank (Nat.le_add_right offset bytes)
  -- the byte at a frontier that stopped early is written by an event that would have moved it
  by_contra hlt
  rw [ge_iff_le, not_le] at hlt
  obtain ⟨event, hmem, hwrites, hle, hlast⟩ := h _ hge hlt
  exact intersects_complete (hwrap event hmem hwrites) hwrites hle hlast
    (hstuck hlt (hstop hlt) event hmem)

/-- Three writes in no order, one inside another, that together cover eight bytes. -/
def scatteredWrites : List Event :=
  [{ kind := .write, rank := 1, bufferRole := .userOutput, offset := 5, bytes := 5 },
    { kind := .copy, rank := 1, bufferRole := .userOutput, offset := 2, bytes := 4 },
    { kind := .write, rank := 1, bufferRole := .userOutput, offset := 3, bytes := 1 }]

theorem hasUserOutputWriteCoverage_scattered : 2 + 8 < 2 ^ 64 ∧
    (hasUserOutputWriteCoverage scatteredWrites 1 2 8 = true ↔
      ∀ x, 2 ≤ x → x < 2 + 8 → Written scatteredWrites 1 x) :=
  ⟨by decide, (hasUserOutputWriteCoverage_iff scatteredWrites 1 (by decide)).2.2 (by decide)⟩

example : hasUserOutputWriteCoverage scatteredWrites 1 2 8 = true := by decide

end TileXR.Checker
