import Mathlib.Order.Basic

/-!
# While loops with a measure

A loop body `f : σ → Step σ` either asks for another round or ends the loop. `loop μ f` runs it with
`μ s + 1` rounds of fuel; when every further round lowers `μ` the fuel is never what ends it
(`loop_eq`), so `loop μ f` satisfies the unrolling equation of the C loop. Invariants
(`loop_inv`) and simulations between two loops (`loop_sim`) follow by one induction each. `Ends` and
`Heads` are the same loop without fuel: the state it ends in, and the states it passes its head in.
-/

namespace Lib

variable {σ τ : Type*}

theorem foldl_range_succ (f : σ → ℕ → σ) (s : σ) (n : ℕ) :
    (List.range (n + 1)).foldl f s = f ((List.range n).foldl f s) n := by
  rw [List.range_succ, List.foldl_append]
  rfl

/-- What one round of a loop does: go on from a state, or leave the loop with one. -/
inductive Step (σ : Type*) where
  | next (s : σ)
  | done (s : σ)

def Step.state : Step σ → σ
  | .next s => s
  | .done s => s

def rounds (f : σ → Step σ) : ℕ → σ → σ
  | 0, s => s
  | n + 1, s => match f s with
    | .next s' => rounds f n s'
    | .done s' => s'

/-- The loop `while (true) f`, with the fuel a measure allows. -/
def loop (μ : σ → ℕ) (f : σ → Step σ) (s : σ) : σ := rounds f (μ s + 1) s

/-- Every further round lowers the measure. -/
def Decreases (μ : σ → ℕ) (f : σ → Step σ) : Prop :=
  ∀ s s', f s = .next s' → μ s' < μ s

theorem rounds_stable {μ : σ → ℕ} {f : σ → Step σ} (hμ : Decreases μ f) :
    ∀ n s, μ s < n → rounds f n s = loop μ f s := by
  intro n
  induction n using Nat.strongRecOn with
  | ind n ih =>
    intro s hn
    obtain ⟨m, rfl⟩ : ∃ m, n = m + 1 := ⟨n - 1, by omega⟩
    rw [loop, rounds, rounds]
    cases hf : f s with
    | done s' => rfl
    | next s' =>
      have hlt : μ s' < μ s := hμ s s' hf
      rcases Nat.lt_or_ge (μ s) m with hm | hm
      · exact (ih m (by omega) s' (by omega)).trans (ih (μ s) (by omega) s' hlt).symm
      · rw [show m = μ s by omega]

/-- The loop is its own unrolling: the fuel never runs out. -/
theorem loop_eq {μ : σ → ℕ} {f : σ → Step σ} (hμ : Decreases μ f) (s : σ) :
    loop μ f s = match f s with
      | .next s' => loop μ f s'
      | .done s' => s' := by
  rw [loop, rounds]
  cases hf : f s with
  | done s' => rfl
  | next s' => exact rounds_stable hμ _ s' (hμ s s' hf)

/-- What a round from `s` may do: go on in a state of `P` with a smaller measure, or end in one of `Q`. -/
def Step.Meets (P Q : σ → Prop) (μ : σ → ℕ) (s : σ) : Step σ → Prop
  | .next s' => P s' ∧ μ s' < μ s
  | .done s' => Q s'

/-- The while rule. -/
theorem loop_meets {μ : σ → ℕ} {f : σ → Step σ} {P Q : σ → Prop} (h : ∀ s, P s → (f s).Meets P Q μ s)
    {s : σ} (hs : P s) : Q (loop μ f s) := by
  suffices ∀ n s, P s → μ s < n → Q (rounds f n s) from this _ s hs (Nat.lt_succ_self _)
  intro n
  induction n with
  | zero => exact fun s _ h => absurd h (Nat.not_lt_zero _)
  | succ n ih =>
    intro s hs hn
    have hround := h s hs
    rw [rounds]
    cases hf : f s with
    | done s' =>
      rw [hf] at hround
      exact hround
    | next s' =>
      rw [hf] at hround
      exact ih s' hround.1 (Nat.lt_of_lt_of_le hround.2 (Nat.le_of_lt_succ hn))

/-- The while rule where every further round lowers the measure. -/
theorem loop_inv {μ : σ → ℕ} {f : σ → Step σ} (hμ : Decreases μ f) {P Q : σ → Prop}
    (hnext : ∀ s s', P s → f s = .next s' → P s') (hdone : ∀ s s', P s → f s = .done s' → Q s')
    {s : σ} (hs : P s) : Q (loop μ f s) := by
  refine loop_meets (fun s hs => ?_) hs
  cases hf : f s with
  | next s' => exact ⟨hnext s s' hs hf, hμ s s' hf⟩
  | done s' => exact hdone s s' hs hf

theorem loop_keeps {μ : σ → ℕ} {f : σ → Step σ} {P : σ → Prop} (h : ∀ s, P s → P (f s).state) {s : σ}
    (hs : P s) : P (loop μ f s) := by
  suffices ∀ n s, P s → P (rounds f n s) from this _ s hs
  intro n
  induction n with
  | zero => exact fun _ h => h
  | succ n ih =>
    intro s hs
    have hf := h s hs
    rw [rounds]
    generalize f s = x at hf ⊢
    cases x with
    | done s' => exact hf
    | next s' => exact ih s' hf

/-- The loop `while (true) f`, entered in `s`, ends in `s'`. -/
inductive Ends (f : σ → Step σ) : σ → σ → Prop
  | done {s s' : σ} (h : f s = .done s') : Ends f s s'
  | next {s s' s'' : σ} (h : f s = .next s') (hrest : Ends f s' s'') : Ends f s s''

/-- A loop with a measure ends, and in the state `loop` computes. -/
theorem ends_loop {μ : σ → ℕ} {f : σ → Step σ} (hμ : Decreases μ f) (s : σ) : Ends f s (loop μ f s) := by
  induction hn : μ s using Nat.strongRecOn generalizing s with
  | ind n ih =>
    rw [loop_eq hμ]
    cases hf : f s with
    | done s' => exact .done hf
    | next s' => exact .next hf (ih (μ s') (hn ▸ hμ s s' hf) s' rfl)

/-- The loop `while (true) f`, entered in `s`, comes to its head in `s'`. -/
inductive Heads (f : σ → Step σ) (s : σ) : σ → Prop
  | enter : Heads f s s
  | again {s' s'' : σ} (h : Heads f s s') (hnext : f s' = .next s'') : Heads f s s''

theorem Heads.keeps {f : σ → Step σ} {P : σ → Prop} (h : ∀ s, P s → P (f s).state) {s s' : σ}
    (hs : P s) (hh : Heads f s s') : P s' := by
  induction hh with
  | enter => exact hs
  | again _ hnext ih => have := h _ ih; rwa [hnext] at this

/-- One round of each loop, related; the first loop may also stop by itself in a state of `B`. -/
inductive StepRel (R : σ → τ → Prop) (B : σ → Prop) : Step σ → Step τ → Prop
  | next {s t} (h : R s t) : StepRel R B (.next s) (.next t)
  | done {s t} (h : R s t) : StepRel R B (.done s) (.done t)
  | stop {s} (h : B s) (y : Step τ) : StepRel R B (.done s) y

/-- Two loops with equal measures whose rounds keep a relation end in related states, unless the
first one stopped by itself. -/
theorem loop_sim {μ : σ → ℕ} {f : σ → Step σ} {ν : τ → ℕ} {g : τ → Step τ} {R : σ → τ → Prop} {B : σ → Prop}
    (hμ : ∀ s t, R s t → μ s = ν t) (hstep : ∀ s t, R s t → StepRel R B (f s) (g t)) {s : σ} {t : τ}
    (h : R s t) : R (loop μ f s) (loop ν g t) ∨ B (loop μ f s) := by
  suffices ∀ n s t, R s t → R (rounds f n s) (rounds g n t) ∨ B (rounds f n s) by
    rw [loop, loop, hμ s t h]; exact this _ s t h
  intro n
  induction n with
  | zero => exact fun s t h => .inl h
  | succ n ih =>
    intro s t h
    have hst := hstep s t h
    rw [rounds, rounds]
    generalize f s = x at hst ⊢
    generalize g t = y at hst ⊢
    cases hst with
    | next h' => exact ih _ _ h'
    | done h' => exact .inl h'
    | stop h' => exact .inr h'

end Lib
