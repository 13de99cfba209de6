import Mathlib.Logic.Function.Basic
import TileXR.Lib.Log

/-!
# Systems that work in phases

The members of a system go through numbered phases. In a phase a member works on a memory that all share,
then shows a token of the phase on its own flag and looks at the flags of the others, one after the other;
it goes on to the next phase when it has seen every flag show the token of this one. A flag that has moved
on is not recognised, so that a member may wait for ever, but one that goes on has met all the others:
members are at most one phase apart, and only such that wait are behind (`Runs.close`).

Hence a property of the memory may be proved phase by phase, as if all members were in the same phase
(`Runs.invariant`). With some progress in every phase there is a run to the end (`exists_run`).
-/

namespace Lib
open List Option
open Function (update update_self update_of_ne)
variable {k : ℕ}

/-- `start` and `complete` are the places at which the work of a phase begins and ends, `work` is one step
of it, with a choice that is open. -/
structure Phased (π χ ρ μ ν : Type*) where
  members : List π
  phases : ℕ
  start : π → ℕ → ρ
  work : π → ℕ → χ → ρ → μ → Option (ρ × μ)
  complete : π → ℕ → ρ → Bool
  order : π → List π
  token : ℕ → ν

namespace Phased

/-- `seen` counts the flags seen by a member that waits. -/
structure State (π ρ μ ν : Type*) where
  phase : π → ℕ
  place : π → ρ
  seen : π → Option ℕ
  flag : π → ν
  mem : μ

inductive Turn (π χ : Type*) where
  | work (p : π) (c : χ)
  | publish (p : π)
  | look (p : π)
  | pass (p : π)

variable {π χ ρ μ ν : Type*} [DecidableEq π] [DecidableEq ν] (P : Phased π χ ρ μ ν)

/-- One turn; a member that is through with all phases has none. -/
def step (s : State π ρ μ ν) : Turn π χ → Option (State π ρ μ ν)
  | .work p c =>
    if p ∈ P.members ∧ s.phase p < P.phases ∧ s.seen p = none then
      (P.work p (s.phase p) c (s.place p) s.mem).map fun r =>
        { s with place := update s.place p r.1, mem := r.2 }
    else none
  | .publish p =>
    if p ∈ P.members ∧ s.phase p < P.phases ∧ s.seen p = none ∧ P.complete p (s.phase p) (s.place p) then
      some { s with flag := update s.flag p (P.token (s.phase p)), seen := update s.seen p (some 0) }
    else none
  | .look p =>
    match s.seen p with
    | none => none
    | some n =>
      match (P.order p)[n]? with
      | none => none
      | some q =>
        if p ∈ P.members ∧ s.flag q = P.token (s.phase p) then
          some { s with seen := update s.seen p (some (n + 1)) }
        else none
  | .pass p =>
    if p ∈ P.members ∧ s.seen p = some (P.order p).length then
      some { s with
        phase := update s.phase p (s.phase p + 1)
        place := update s.place p (P.start p (s.phase p + 1))
        seen := update s.seen p none }
    else none

def initial (flag : π → ν) (mem : μ) : State π ρ μ ν :=
  ⟨fun _ => 0, fun p => P.start p 0, fun _ => none, flag, mem⟩

def Runs (flag : π → ν) (mem : μ) : State π ρ μ ν → Prop :=
  Reachable (fun s s' => ∃ a, P.step s a = some s') (P.initial flag mem)

def Finished (s : State π ρ μ ν) : Prop := ∀ p ∈ P.members, s.phase p = P.phases

/-- A member has shown the token of a phase. -/
def Shown (s : State π ρ μ ν) (q : π) (k : ℕ) : Prop := k < s.phase q ∨ s.phase q = k ∧ s.seen q ≠ none

/-- The tokens are told apart, also from what the flags show at first, and everybody looks at all. -/
structure Sound (flag : π → ν) : Prop where
  order : ∀ p ∈ P.members, ∀ q ∈ P.members, q ∈ P.order p
  token : ∀ k < P.phases, ∀ k' < P.phases, P.token k = P.token k' → k = k'
  fresh : ∀ p ∈ P.members, ∀ k < P.phases, flag p ≠ P.token k

variable {P} {flag₀ : π → ν} {mem₀ : μ} {s s' : State π ρ μ ν}

/-! ## What one turn does -/

inductive Moves (P : Phased π χ ρ μ ν) (s : State π ρ μ ν) : State π ρ μ ν → Prop
  | work (p : π) (c : χ) (l : ρ) (m : μ) (hp : p ∈ P.members) (hlt : s.phase p < P.phases)
    (hseen : s.seen p = none) (h : P.work p (s.phase p) c (s.place p) s.mem = some (l, m)) :
    Moves P s { s with place := update s.place p l, mem := m }
  | publish (p : π) (hp : p ∈ P.members) (hlt : s.phase p < P.phases) (hseen : s.seen p = none)
    (h : P.complete p (s.phase p) (s.place p)) : Moves P s
      { s with flag := update s.flag p (P.token (s.phase p)), seen := update s.seen p (some 0) }
  | look (p q : π) (n : ℕ) (hp : p ∈ P.members) (hseen : s.seen p = some n)
    (hq : (P.order p)[n]? = some q) (h : s.flag q = P.token (s.phase p)) :
    Moves P s { s with seen := update s.seen p (some (n + 1)) }
  | pass (p : π) (hp : p ∈ P.members) (hseen : s.seen p = some (P.order p).length) : Moves P s { s with
      phase := update s.phase p (s.phase p + 1)
      place := update s.place p (P.start p (s.phase p + 1))
      seen := update s.seen p none }

theorem moves_of_step {a : Turn π χ} (h : P.step s a = some s') : Moves P s s' := by
  cases a with
  | work p c =>
    simp only [step] at h
    split at h
    · next hc =>
      obtain ⟨⟨l, m⟩, hw, rfl⟩ := map_eq_some_iff.1 h
      exact .work p c l m hc.1 hc.2.1 hc.2.2 hw
    · cases h
  | publish p =>
    simp only [step] at h
    split at h
    · next hc => exact some.inj h ▸ .publish p hc.1 hc.2.1 hc.2.2.1 hc.2.2.2
    · cases h
  | look p =>
    simp only [step] at h
    split at h
    · cases h
    next n hn =>
    split at h
    · cases h
    next q hq =>
    split at h
    · next hc => exact some.inj h ▸ .look p q n hc.1 hn hq hc.2
    · cases h
  | pass p =>
    simp only [step] at h
    split at h
    · next hc => exact some.inj h ▸ .pass p hc.1 hc.2
    · cases h

/-! ## Members stay close -/

structure Close (P : Phased π χ ρ μ ν) (flag₀ : π → ν) (s : State π ρ μ ν) : Prop where
  waiting : ∀ p ∈ P.members, s.seen p ≠ none → s.phase p < P.phases ∧ P.complete p (s.phase p) (s.place p)
  flag : ∀ p ∈ P.members, s.flag p = flag₀ p ∨ ∃ k < P.phases, s.flag p = P.token k ∧ Shown s p k
  seen : ∀ p ∈ P.members, ∀ n, s.seen p = some n → ∀ i < n, ∀ q ∈ P.members, (P.order p)[i]? = some q →
    Shown s q (s.phase p)
  passed : ∀ p ∈ P.members, ∀ q ∈ P.members, ∀ k < s.phase p, Shown s q k

omit [DecidableEq ν] in
theorem Moves.shown (h : Moves P s s') {q : π} (hq : Shown s q k) : Shown s' q k := by
  unfold Shown at hq ⊢
  cases h with
  | work => exact hq
  | publish p | look p =>
    dsimp only
    by_cases hqp : q = p
    · subst hqp
      rw [update_self]
      exact hq.imp id fun h => ⟨h.1, by simp⟩
    · rwa [update_of_ne hqp]
  | pass p =>
    dsimp only
    by_cases hqp : q = p
    · subst hqp
      rw [update_self]
      exact .inl (by omega)
    · rwa [update_of_ne hqp, update_of_ne hqp]

omit [DecidableEq ν] in
theorem Close.step (hP : P.Sound flag₀) (h : Close P flag₀ s) (hm : Moves P s s') : Close P flag₀ s' := by
  have hshown := fun {q k} => hm.shown (q := q) (k := k)
  have hflag : ∀ q ∈ P.members, s.flag q = flag₀ q ∨ ∃ k < P.phases, s.flag q = P.token k ∧ Shown s' q k :=
    fun q hq => (h.flag q hq).imp id fun ⟨k, hk, hf, hs⟩ => ⟨k, hk, hf, hshown hs⟩
  cases hm with
  | work p c l m hp hlt hseen _ =>
    refine ⟨fun q hq hs => ?_, hflag, fun q hq n hn i hi r hr ho => hshown (h.seen q hq n hn i hi r hr ho),
      fun q hq r hr k hk => hshown (h.passed q hq r hr k hk)⟩
    have hne : q ≠ p := by
      rintro rfl
      exact hs hseen
    dsimp only
    rw [update_of_ne hne]
    exact h.waiting q hq hs
  | publish p hp hlt hseen hc =>
    refine ⟨fun q hq hs => ?_, fun q hq => ?_, fun q hq n hn i hi r hr ho => ?_,
      fun q hq r hr k hk => hshown (h.passed q hq r hr k hk)⟩
    · by_cases hqp : q = p
      · subst hqp
        exact ⟨hlt, hc⟩
      · dsimp only at hs
        rw [update_of_ne hqp] at hs
        exact h.waiting q hq hs
    · dsimp only
      by_cases hqp : q = p
      · subst hqp
        rw [update_self]
        exact .inr ⟨_, hlt, rfl, .inr ⟨rfl, by simp⟩⟩
      · rw [update_of_ne hqp]
        exact hflag q hq
    · dsimp only at hn
      by_cases hqp : q = p
      · subst hqp
        rw [update_self, Option.some.injEq] at hn
        omega
      · rw [update_of_ne hqp] at hn
        exact hshown (h.seen q hq n hn i hi r hr ho)
  | look p q n hp hseen hq hf =>
    have hlt := (h.waiting p hp (by simp [hseen])).1
    refine ⟨fun p' hp' hs => ?_, hflag,
      fun p' hp' n' hn' i hi r hr ho => hshown ?_, fun q hq r hr k hk => hshown (h.passed q hq r hr k hk)⟩
    · by_cases hpp : p' = p
      · subst hpp
        exact h.waiting p' hp' (by simp [hseen])
      · dsimp only at hs
        rw [update_of_ne hpp] at hs
        exact h.waiting p' hp' hs
    · dsimp only at hn'
      by_cases hpp : p' = p
      · subst hpp
        rw [update_self, Option.some.injEq] at hn'
        rcases Nat.lt_or_ge i n with hin | hin
        · exact h.seen p' hp' n hseen i hin r hr ho
        · -- the flag just seen shows no older token and not the one it showed at first
          obtain rfl : i = n := by omega
          obtain rfl := some.inj (hq.symm.trans ho)
          rcases h.flag q hr with h0 | ⟨k, hk, hk', hs⟩
          · exact absurd (h0.symm.trans hf) (hP.fresh q hr _ hlt)
          · rwa [hP.token k hk _ hlt (hk'.symm.trans hf)] at hs
      · rw [update_of_ne hpp] at hn'
        exact h.seen p' hp' n' hn' i hi r hr ho
  | pass p hp hseen =>
    refine ⟨fun q hq hs => ?_, hflag, fun q hq n hn i hi r hr ho => ?_, fun q hq r hr k hk => hshown ?_⟩
    · dsimp only at hs ⊢
      by_cases hqp : q = p
      · subst hqp
        rw [update_self] at hs
        exact absurd rfl hs
      · rw [update_of_ne hqp] at hs ⊢
        rw [update_of_ne hqp]
        exact h.waiting q hq hs
    · dsimp only at hn
      by_cases hqp : q = p
      · subst hqp
        rw [update_self] at hn
        cases hn
      · rw [update_of_ne hqp] at hn
        have hs := hshown (h.seen q hq n hn i hi r hr ho)
        dsimp only
        rwa [update_of_ne hqp]
    · dsimp only at hk
      by_cases hqp : q = p
      · subst hqp
        rw [update_self] at hk
        rcases Nat.lt_succ_iff_lt_or_eq.1 hk with hlt | rfl
        · exact h.passed q hq r hr k hlt
        · obtain ⟨i, hi, hr'⟩ := mem_iff_getElem.1 (hP.order q hp r hr)
          exact h.seen q hp _ hseen i hi r hr (by rw [List.getElem?_eq_getElem hi, hr'])
      · rw [update_of_ne hqp] at hk
        exact h.passed q hq r hr k hk

theorem Runs.close (hP : P.Sound flag₀) (h : P.Runs flag₀ mem₀ s) : Close P flag₀ s := by
  refine Reachable.invariant ⟨fun _ _ hs => absurd rfl hs, fun _ _ => .inl rfl, fun _ _ _ hn => ?_,
    fun _ _ _ _ _ hk => absurd hk (Nat.not_lt_zero _)⟩ (fun s s' h hs => ?_) h
  · cases hn
  · obtain ⟨a, ha⟩ := hs
    exact h.step hP (moves_of_step ha)

/-! ## Proofs phase by phase -/

/-- All members are in phase `k`, or wait to come there. -/
def At (P : Phased π χ ρ μ ν) (s : State π ρ μ ν) (k : ℕ) : Prop :=
  ∀ p ∈ P.members, s.phase p = k ∨ s.phase p + 1 = k ∧ s.seen p ≠ none

/-- Where the members are in phase `k`. -/
def placesAt (P : Phased π χ ρ μ ν) (s : State π ρ μ ν) (k : ℕ) (p : π) : ρ :=
  if p ∈ P.members ∧ s.phase p = k then s.place p else P.start p k

/-- An assertion for each phase that work keeps and complete work hands on to the next phase. -/
structure Kept (P : Phased π χ ρ μ ν) (I : ℕ → (π → ρ) → μ → Prop) : Prop where
  work : ∀ k < P.phases, ∀ l m, I k l m → ∀ p ∈ P.members, ∀ c l' m',
    P.work p k c (l p) m = some (l', m') → I k (update l p l') m'
  next : ∀ k < P.phases, ∀ l m, I k l m → (∀ p ∈ P.members, P.complete p k (l p)) →
    I (k + 1) (fun p => P.start p (k + 1)) m

section Invariant
variable {I : ℕ → (π → ρ) → μ → Prop}

omit [DecidableEq ν] in
theorem At.step (hP : P.Sound flag₀) (hclose : Close P flag₀ s) (hkept : P.Kept I) (hk : k ≤ P.phases)
    (hat : At P s k) (hI : I k (placesAt P s k) s.mem) (hm : Moves P s s') :
    ∃ k ≤ P.phases, At P s' k ∧ I k (placesAt P s' k) s'.mem := by
  cases hm with
  | work p c l m hp hlt hseen hw =>
    have hpk : s.phase p = k := (hat p hp).resolve_right fun h => h.2 hseen
    refine ⟨k, hk, hat, ?_⟩
    have hplace : placesAt P s k p = s.place p := if_pos ⟨hp, hpk⟩
    have hnew := hkept.work k (hpk ▸ hlt) _ _ hI p hp c l m (by rw [hplace, ← hpk]; exact hw)
    have heq : placesAt P { s with place := update s.place p l, mem := m } k =
        update (placesAt P s k) p l := by
      funext q
      by_cases hqp : q = p
      · subst hqp
        rw [update_self, placesAt, if_pos ⟨hp, hpk⟩]
        exact update_self _ _ _
      · rw [update_of_ne hqp, placesAt, placesAt]
        dsimp only
        rw [update_of_ne hqp]
    rw [heq]
    exact hnew
  | publish p | look p =>
    refine ⟨k, hk, fun q hq => (hat q hq).imp id fun h => ⟨h.1, ?_⟩, hI⟩
    dsimp only
    by_cases hqp : q = p
    · subst hqp; simp
    · rw [update_of_ne hqp]; exact h.2
  | pass p hp hseen =>
    have hlt := (hclose.waiting p hp (by simp [hseen])).1
    rcases hat p hp with hpk | ⟨hpk, hne⟩
    · -- the first to come to the next phase: all the others have shown the token of this one
      have hall : ∀ q ∈ P.members, s.phase q = k ∧ s.seen q ≠ none := by
        intro q hq
        obtain ⟨i, hi, hqi⟩ := mem_iff_getElem.1 (hP.order p hp q hq)
        have hs := hclose.seen p hp _ hseen i hi q hq (by rw [List.getElem?_eq_getElem hi, hqi])
        rw [hpk] at hs
        rcases hs with hs | hs
        · rcases hat q hq with h | h <;> omega
        · exact hs
      have hdone : ∀ q ∈ P.members, P.complete q k (placesAt P s k q) := by
        intro q hq
        have := (hclose.waiting q hq (hall q hq).2).2
        rw [placesAt, if_pos ⟨hq, (hall q hq).1⟩]
        rwa [(hall q hq).1] at this
      refine ⟨k + 1, by omega, fun q hq => ?_, ?_⟩
      · dsimp only
        by_cases hqp : q = p
        · subst hqp
          rw [update_self, hpk]
          exact .inl rfl
        · rw [update_of_ne hqp, update_of_ne hqp]
          exact .inr ⟨by rw [(hall q hq).1], (hall q hq).2⟩
      · convert hkept.next k (hpk ▸ hlt) _ _ hI hdone using 1
        funext q
        unfold placesAt
        dsimp only
        split
        · next hq =>
          by_cases hqp : q = p
          · subst hqp
            rw [update_self, hpk]
          · rw [update_of_ne hqp] at hq
            have := (hall q hq.1).1
            omega
        · rfl
    · -- the others are there already
      refine ⟨k, hk, fun q hq => ?_, ?_⟩
      · dsimp only
        by_cases hqp : q = p
        · subst hqp
          rw [update_self]
          exact .inl hpk
        · rw [update_of_ne hqp, update_of_ne hqp]
          exact hat q hq
      · convert hI using 1
        funext q
        by_cases hqp : q = p
        · subst hqp
          have hne : s.phase q ≠ k := by omega
          simp only [placesAt, update_self, hpk, hp, true_and, if_true, hne, if_false]
        · simp only [placesAt, update_of_ne hqp]

/-- What holds at first and is kept holds in every state, with the members in one phase. -/
theorem Runs.invariant (hP : P.Sound flag₀) (h0 : I 0 (fun p => P.start p 0) mem₀) (hkept : P.Kept I)
    (h : P.Runs flag₀ mem₀ s) : ∃ k ≤ P.phases, At P s k ∧ I k (placesAt P s k) s.mem := by
  refine (Reachable.invariant (P := fun s => P.Runs flag₀ mem₀ s ∧
    ∃ k ≤ P.phases, At P s k ∧ I k (placesAt P s k) s.mem) ⟨.refl, 0, Nat.zero_le _, fun _ _ => .inl rfl, ?_⟩
    (fun s s' hs hstep => ?_) h).2
  · have heq : placesAt P (P.initial flag₀ mem₀) 0 = fun p => P.start p 0 := by
      funext p
      unfold placesAt
      split <;> rfl
    rw [heq]
    exact h0
  · obtain ⟨hr, k, hk, hat, hI⟩ := hs
    refine ⟨hr.tail hstep, ?_⟩
    obtain ⟨a, ha⟩ := hstep
    exact hat.step hP (hr.close hP) hkept hk hI (moves_of_step ha)

theorem Runs.finished (hne : P.members ≠ []) (hP : P.Sound flag₀) (h0 : I 0 (fun p => P.start p 0) mem₀)
    (hkept : P.Kept I) (h : P.Runs flag₀ mem₀ s) (hfin : P.Finished s) : ∃ l, I P.phases l s.mem := by
  obtain ⟨k, hk, hat, hI⟩ := h.invariant hP h0 hkept
  obtain ⟨p, hp⟩ := exists_mem_of_ne_nil _ hne
  have hp' := hfin p hp
  obtain rfl : k = P.phases := by rcases hat p hp with h | h <;> omega
  exact ⟨_, hI⟩

end Invariant

/-! ## A run to the end -/

section Progress

def Leads (P : Phased π χ ρ μ ν) : State π ρ μ ν → State π ρ μ ν → Prop :=
  Relation.ReflTransGen fun s s' => ∃ a, P.step s a = some s'

/-- All members are at work in phase `k`, at the places `l`. -/
structure Level (P : Phased π χ ρ μ ν) (k : ℕ) (l : π → ρ) (s : State π ρ μ ν) : Prop where
  phase : ∀ p ∈ P.members, s.phase p = k
  seen : ∀ p ∈ P.members, s.seen p = none
  place : ∀ p ∈ P.members, s.place p = l p

theorem leads_publish {l : π → ρ} (hk : k < P.phases) (h : Level P k l s)
    (hdone : ∀ p ∈ P.members, P.complete p k (l p)) {ps : List π} (hsub : ∀ p ∈ ps, p ∈ P.members)
    (hnodup : ps.Nodup) : ∃ s', Leads P s s' ∧ s'.phase = s.phase ∧ s'.place = s.place ∧ s'.mem = s.mem ∧
      (∀ p ∈ ps, s'.seen p = some 0 ∧ s'.flag p = P.token k) ∧
      ∀ p ∉ ps, s'.seen p = s.seen p ∧ s'.flag p = s.flag p := by
  induction ps with
  | nil => exact ⟨s, .refl, rfl, rfl, rfl, nofun, fun _ _ => ⟨rfl, rfl⟩⟩
  | cons p ps ih =>
    obtain ⟨hp, hnodup⟩ := nodup_cons.1 hnodup
    obtain ⟨s', hs, hphase, hplace, hmem, hin, hout⟩ := ih (fun q hq => hsub q (.tail _ hq)) hnodup
    have hp' := hsub p (.head _)
    have hpk : s'.phase p = k := by rw [hphase, h.phase p hp']
    have hstep : P.step s' (.publish p) = some { s' with
        flag := update s'.flag p (P.token k), seen := update s'.seen p (some 0) } := by
      have hcomplete : P.complete p k (s'.place p) := by
        rw [hplace, h.place p hp']
        exact hdone p hp'
      simp only [step, hpk]
      exact if_pos ⟨hp', hk, by rw [(hout p hp).1, h.seen p hp'], hcomplete⟩
    refine ⟨_, hs.tail ⟨_, hstep⟩, hphase, hplace, hmem, fun q hq => ?_, fun q hq => ?_⟩
    · dsimp only
      by_cases hqp : q = p
      · subst hqp
        rw [update_self, update_self]
        exact ⟨rfl, rfl⟩
      · rw [update_of_ne hqp, update_of_ne hqp]
        exact hin q (mem_of_ne_of_mem hqp hq)
    · rw [mem_cons, not_or] at hq
      dsimp only
      rw [update_of_ne hq.1, update_of_ne hq.1]
      exact hout q hq.2

theorem leads_pass {p : π} (hp : p ∈ P.members) (hphase : s.phase p = k) (hseen : s.seen p = some 0)
    (hflag : ∀ q ∈ P.order p, s.flag q = P.token k) : Leads P s { s with
      phase := update s.phase p (k + 1)
      place := update s.place p (P.start p (k + 1))
      seen := update s.seen p none } := by
  have hlook : ∀ n ≤ (P.order p).length, Leads P s { s with seen := update s.seen p (some n) } := by
    intro n
    induction n with
    | zero =>
      intro _
      rw [← hseen, Function.update_eq_self]
      exact .refl
    | succ n ih =>
      intro hn
      refine (ih (by omega)).tail ⟨.look p, ?_⟩
      have hq : (P.order p)[n]? = some (P.order p)[n] := List.getElem?_eq_getElem (by omega)
      simp only [step, update_self, hq, hphase, hp, true_and, hflag _ (getElem_mem _), if_true, Function.update_idem]
  refine (hlook _ (Nat.le_refl _)).tail ⟨.pass p, ?_⟩
  simp only [step, update_self, hp, true_and, if_true, hphase, Function.update_idem]

theorem leads_passes {ps : List π} (hsub : ∀ p ∈ ps, p ∈ P.members) (hnodup : ps.Nodup)
    (hphase : ∀ p ∈ ps, s.phase p = k) (hseen : ∀ p ∈ ps, s.seen p = some 0)
    (hflag : ∀ p ∈ ps, ∀ q ∈ P.order p, s.flag q = P.token k) : ∃ s', Leads P s s' ∧ s'.mem = s.mem ∧
      s'.flag = s.flag ∧ (∀ p ∈ ps, s'.phase p = k + 1 ∧ s'.seen p = none ∧ s'.place p = P.start p (k + 1)) ∧
      ∀ p ∉ ps, s'.phase p = s.phase p ∧ s'.seen p = s.seen p ∧ s'.place p = s.place p := by
  induction ps with
  | nil => exact ⟨s, .refl, rfl, rfl, nofun, fun _ _ => ⟨rfl, rfl, rfl⟩⟩
  | cons p ps ih =>
    obtain ⟨hp, hnodup⟩ := nodup_cons.1 hnodup
    obtain ⟨s', hs, hmem, hf, hin, hout⟩ := ih (fun q hq => hsub q (.tail _ hq)) hnodup
      (fun q hq => hphase q (.tail _ hq)) (fun q hq => hseen q (.tail _ hq)) fun q hq => hflag q (.tail _ hq)
    obtain ⟨h₁, h₂, -⟩ := hout p hp
    have hpass := leads_pass (s := s') (hsub p (.head _)) (h₁.trans (hphase p (.head _)))
      (h₂.trans (hseen p (.head _))) (by rw [hf]; exact hflag p (.head _))
    refine ⟨_, hs.trans hpass, hmem, hf, fun q hq => ?_, fun q hq => ?_⟩
    · dsimp only
      by_cases hqp : q = p
      · subst hqp
        rw [update_self, update_self, update_self]
        exact ⟨rfl, rfl, rfl⟩
      · rw [update_of_ne hqp, update_of_ne hqp, update_of_ne hqp]
        exact hin q (mem_of_ne_of_mem hqp hq)
    · rw [mem_cons, not_or] at hq
      dsimp only
      rw [update_of_ne hq.1, update_of_ne hq.1, update_of_ne hq.1]
      exact hout q hq.2

variable {I : ℕ → (π → ρ) → μ → Prop} {φ : ℕ → (π → ρ) → ℕ}

theorem leads_work (hk : k < P.phases) (hkept : P.Kept I)
    (hprogress : ∀ l m, I k l m → (∃ p ∈ P.members, ¬ P.complete p k (l p)) →
      ∃ p ∈ P.members, ∃ c l' m', P.work p k c (l p) m = some (l', m') ∧ φ k (update l p l') < φ k l)
    {l : π → ρ} (h : Level P k l s) (hI : I k l s.mem) : ∃ s' l', Leads P s s' ∧ Level P k l' s' ∧
      I k l' s'.mem ∧ ∀ p ∈ P.members, P.complete p k (l' p) := by
  induction hn : φ k l using Nat.strongRecOn generalizing l s with
  | _ n ih =>
    by_cases hdone : ∀ p ∈ P.members, P.complete p k (l p)
    · exact ⟨s, l, .refl, h, hI, hdone⟩
    · simp only [not_forall] at hdone
      obtain ⟨p₀, hp₀, hnot⟩ := hdone
      obtain ⟨p, hp, c, l', m', hw, hlt⟩ := hprogress l s.mem hI ⟨p₀, hp₀, hnot⟩
      have hstep : P.step s (.work p c) = some { s with place := update s.place p l', mem := m' } := by
        simp only [step, h.phase p hp, h.seen p hp, h.place p hp]
        rw [if_pos ⟨hp, hk, trivial⟩, hw, map_some]
      have hlevel : Level P k (update l p l') { s with place := update s.place p l', mem := m' } := by
        refine ⟨h.phase, h.seen, fun q hq => ?_⟩
        dsimp only
        by_cases hqp : q = p
        · subst hqp
          rw [update_self, update_self]
        · rw [update_of_ne hqp, update_of_ne hqp, h.place q hq]
      obtain ⟨s', l'', hs, hres⟩ := ih _ (hn ▸ hlt) hlevel (hkept.work k hk l s.mem hI p hp c l' m' hw) rfl
      exact ⟨s', l'', .head ⟨_, hstep⟩ hs, hres⟩

/-- When all looks go to members, and while some work of a phase is open a step of it can be done, there is
a run to the end. -/
theorem exists_run (hnodup : P.members.Nodup) (horder : ∀ p ∈ P.members, ∀ q ∈ P.order p, q ∈ P.members)
    (h0 : I 0 (fun p => P.start p 0) mem₀) (hkept : P.Kept I)
    (hprogress : ∀ k < P.phases, ∀ l m, I k l m → (∃ p ∈ P.members, ¬ P.complete p k (l p)) →
      ∃ p ∈ P.members, ∃ c l' m', P.work p k c (l p) m = some (l', m') ∧ φ k (update l p l') < φ k l) :
    ∃ s, P.Runs flag₀ mem₀ s ∧ P.Finished s := by
  have hlevels : ∀ k ≤ P.phases, ∃ s, P.Runs flag₀ mem₀ s ∧ Level P k (fun p => P.start p k) s ∧
      I k (fun p => P.start p k) s.mem := by
    intro k
    induction k with
    | zero => exact fun _ => ⟨_, .refl, ⟨fun _ _ => rfl, fun _ _ => rfl, fun _ _ => rfl⟩, h0⟩
    | succ k ih =>
      intro hk
      obtain ⟨s, hs, hlevel, hI⟩ := ih (by omega)
      obtain ⟨s₁, l, hs₁, hl₁, hI₁, hdone⟩ := leads_work hk hkept (hprogress k hk) hlevel hI
      obtain ⟨s₂, hs₂, hphase, hplace, hmem, hin, -⟩ := leads_publish hk hl₁ hdone (fun _ => id) hnodup
      obtain ⟨s₃, hs₃, hmem₃, -, hin₃, -⟩ := leads_passes (s := s₂) (k := k) (fun _ => id) hnodup
        (fun p hp => by rw [hphase, hl₁.phase p hp]) (fun p hp => (hin p hp).1)
        fun p hp q hq => (hin q (horder p hp q hq)).2
      refine ⟨s₃, ((hs.trans hs₁).trans hs₂).trans hs₃, ⟨fun p hp => (hin₃ p hp).1, fun p hp => (hin₃ p hp).2.1,
        fun p hp => (hin₃ p hp).2.2⟩, ?_⟩
      rw [hmem₃, hmem]
      exact hkept.next k hk l _ hI₁ hdone
  obtain ⟨s, hs, hlevel, -⟩ := hlevels P.phases (Nat.le_refl _)
  exact ⟨s, hs, hlevel.phase⟩

end Progress

end Phased

end Lib
