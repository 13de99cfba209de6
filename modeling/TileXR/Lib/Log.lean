import Mathlib.Data.List.Induction
import Mathlib.Logic.Relation

/-!
# Logs of writes that become visible in order

A party's writes to another one's memory are a log; what the other side sees is a prefix of it. A
register of that memory holds the last visible write to it (`foldl_last`), and a write that stands
after everything of its key or below makes all of that visible (`mem_take_of_fence`).

A system is a step relation; `Reachable` states are closed under steps, and an invariant is proved of
all of them by one induction.
-/

namespace Lib
open List

section Register
variable {α β γ : Type*}

/-- Some write of the list goes to the register: it holds the last one, which has the largest key. -/
theorem foldl_last {f : β → α → β} {g : β → γ} {p : α → Option γ} (key : α → ℕ)
    (hget : ∀ b a, g (f b a) = (p a).getD (g b)) (b : β) {l : List α}
    (hsorted : l.Pairwise (key · ≤ key ·)) (hex : ∃ a ∈ l, (p a).isSome) :
    ∃ a ∈ l, p a = some (g (l.foldl f b)) ∧ ∀ a' ∈ l, (p a').isSome → key a' ≤ key a := by
  induction l using List.reverseRecOn with
  | nil => simp at hex
  | append_singleton l x ih =>
    obtain ⟨hl, -, hx⟩ := pairwise_append.1 hsorted
    rw [foldl_append, foldl_cons, foldl_nil, hget]
    cases hsel : p x with
    | some v =>
      refine ⟨x, by simp, hsel, fun a' ha' _ => ?_⟩
      rcases mem_append.1 ha' with h | h
      · exact hx a' h x (by simp)
      · exact Nat.le_of_eq (congrArg key (mem_singleton.1 h))
    | none =>
      have hold : ∀ a ∈ l ++ [x], (p a).isSome → a ∈ l := by
        intro a ha hs
        rcases mem_append.1 ha with h | h
        · exact h
        · rw [mem_singleton.1 h, hsel] at hs; simp at hs
      obtain ⟨a, ha, hs⟩ := hex
      obtain ⟨w, hw, hval, hmax⟩ := ih hl ⟨a, hold a ha hs, hs⟩
      exact ⟨w, mem_append_left _ hw, hval, fun a' ha' hs' => hmax a' (hold a' ha' hs') hs'⟩

/-- No write of the list goes to the register: it keeps its value. -/
theorem foldl_none {f : β → α → β} {g : β → γ} {p : α → Option γ} (hget : ∀ b a, g (f b a) = (p a).getD (g b))
    (b : β) {l : List α} (hnone : ∀ a ∈ l, p a = none) : g (l.foldl f b) = g b := by
  induction l generalizing b with
  | nil => rfl
  | cons x l ih =>
    rw [foldl_cons, ih _ fun a ha => hnone a (mem_cons_of_mem _ ha), hget, hnone x mem_cons_self]
    rfl

/-- With a fence among the first `n` writes, every write that does not come after it is too. -/
theorem mem_take_of_fence {r : α → α → Prop} {l : List α} (h : l.Pairwise r) {n : ℕ} {w a : α}
    (hw : w ∈ l.take n) (ha : a ∈ l) (hnot : ¬ r w a) : a ∈ l.take n := by
  rw [← take_append_drop n l, pairwise_append] at h
  rw [← take_append_drop n l] at ha
  rcases mem_append.1 ha with ha | ha
  · exact ha
  · exact absurd (h.2.2 w hw a ha) hnot

end Register

section Runs
variable {σ : Type*}

def Reachable (step : σ → σ → Prop) (init : σ) : σ → Prop := Relation.ReflTransGen step init

theorem Reachable.invariant {step : σ → σ → Prop} {init s : σ} {P : σ → Prop} (h0 : P init)
    (hstep : ∀ s s', P s → step s s' → P s') (h : Reachable step init s) : P s := by
  induction h with
  | refl => exact h0
  | tail _ hs ih => exact hstep _ _ ih hs

/-- Where every step lowers a measure, each state leads to one without a step. -/
theorem Reachable.exists_final {step : σ → σ → Prop} {P : σ → Prop} (μ : σ → ℕ)
    (hstep : ∀ s s', P s → step s s' → P s' ∧ μ s' < μ s) {s : σ} (h : P s) :
    ∃ s', Reachable step s s' ∧ P s' ∧ ∀ s'', ¬ step s' s'' := by
  induction hm : μ s using Nat.strongRecOn generalizing s with
  | ind m ih =>
    by_cases hfinal : ∃ s', step s s'
    · obtain ⟨s', hs'⟩ := hfinal
      obtain ⟨h', hlt⟩ := hstep s s' h hs'
      obtain ⟨s'', hreach, hend⟩ := ih (μ s') (hm ▸ hlt) h' rfl
      exact ⟨s'', .head hs' hreach, hend⟩
    · exact ⟨s, .refl, h, fun s' hs' => hfinal ⟨s', hs'⟩⟩

def runActions {α : Type*} (act : σ → α → Option σ) : List α → σ → Option σ
  | [], s => some s
  | a :: as, s => (act s a).bind (runActions act as)

theorem reachable_of_run {α : Type*} {act : σ → α → Option σ} {as : List α} {init s : σ}
    (h : runActions act as init = some s) : Reachable (fun s s' => ∃ a, act s a = some s') init s := by
  suffices ∀ s₀, Reachable (fun s s' => ∃ a, act s a = some s') init s₀ →
      runActions act as s₀ = some s → Reachable (fun s s' => ∃ a, act s a = some s') init s from
    this init .refl h
  clear h
  induction as with
  | nil => exact fun s₀ h0 h => Option.some.inj h ▸ h0
  | cons a as ih =>
    intro s₀ h0 h
    cases ha : act s₀ a with
    | none => simp [runActions, ha] at h
    | some s₁ =>
      rw [runActions, ha] at h
      exact ih s₁ (h0.tail ⟨a, ha⟩) h

end Runs

end Lib
