import Mathlib.Logic.Function.Basic
import TileXR.Lib.Log

/-!
# Processes over shared words

A process runs a straight list of instructions: it stores to a shared word, waits until a word passes a
test, reads a word once, or meets the other processes of its group. One turn of the system runs one
instruction of one process, or lets all processes of a group past their meeting.

A word only one process stores to holds what that process stored last (`Runs.mem_eq`), and a process
that has come past an instruction was once, with everybody at most as far as now, just before it
(`Runs.moment`). The rest of the file runs processes by hand: how to get several of them somewhere.
-/

namespace Lib
open Function (update update_self update_of_ne)

/-- One instruction of a process, over words `κ` that hold values `ν`. -/
inductive Inst (κ ν : Type*) where
  | store (c : κ) (v : ν)
  | await (c : κ) (ok : ν → Bool)
  | look (c : κ)
  | sync

namespace Inst
variable {κ ν : Type*}

def isSync : Inst κ ν → Bool
  | sync => true
  | _ => false

@[simp]
theorem isSync_iff {i : Inst κ ν} : i.isSync ↔ i = sync := by cases i <;> simp [isSync]

def isStore : Inst κ ν → Bool
  | store _ _ => true
  | _ => false

/-- The value of `c` after an instruction. -/
def effect [DecidableEq κ] (c : κ) (v : ν) : Inst κ ν → ν
  | store c' v' => if c' = c then v' else v
  | _ => v

end Inst

/-- The code of all processes, and who meets in a `sync` of a group. -/
structure Program (π γ κ ν : Type*) where
  code : π → List (Inst κ ν)
  members : γ → List π

/-- How far every process is, what the words hold, and what each process has read. -/
structure Config (π κ ν : Type*) where
  pc : π → ℕ
  mem : κ → ν
  seen : π → List ν

inductive Turn (π γ : Type*) where
  | run (p : π)
  | meet (g : γ)

namespace Program
variable {π γ κ ν : Type*} [DecidableEq π] [DecidableEq κ] (P : Program π γ κ ν)

def next (s : Config π κ ν) (p : π) : Option (Inst κ ν) := (P.code p)[s.pc p]?

def Finished (s : Config π κ ν) (p : π) : Prop := (P.code p).length ≤ s.pc p

def step (s : Config π κ ν) : Turn π γ → Option (Config π κ ν)
  | .run p =>
    let past := Function.update s.pc p (s.pc p + 1)
    match P.next s p with
    | some (.store c v) => some { s with pc := past, mem := Function.update s.mem c v }
    | some (.await c ok) => if ok (s.mem c) then some { s with pc := past } else none
    | some (.look c) =>
      some { s with pc := past, seen := Function.update s.seen p (s.seen p ++ [s.mem c]) }
    | _ => none
  | .meet g =>
    if P.members g ≠ [] ∧ ∀ p ∈ P.members g, (P.next s p).any Inst.isSync then
      some { s with pc := fun p => if p ∈ P.members g then s.pc p + 1 else s.pc p }
    else none

def start (mem : κ → ν) : Config π κ ν := ⟨fun _ => 0, mem, fun _ => []⟩

def Runs (mem : κ → ν) : Config π κ ν → Prop :=
  Reachable (fun s s' => ∃ t, P.step s t = some s') (start mem)

def Enabled (s : Config π κ ν) : Prop := ∃ t s', P.step s t = some s'

/-- The value of `c` after the first `n` instructions of a process. -/
def held (c : κ) (v : ν) (p : π) (n : ℕ) : ν := ((P.code p).take n).foldl (Inst.effect c) v

/-- Nobody but `q` stores to `c`. -/
def Owned (c : κ) (q : π) : Prop := ∀ p v, .store c v ∈ P.code p → p = q

variable {P}

omit [DecidableEq π] in
@[simp]
theorem held_zero {c : κ} {v : ν} {p : π} : P.held c v p 0 = v := rfl

omit [DecidableEq π] in
theorem held_succ {c : κ} {v : ν} {p : π} {n : ℕ} {i : Inst κ ν} (h : (P.code p)[n]? = some i) :
    P.held c v p (n + 1) = i.effect c (P.held c v p n) := by
  obtain ⟨hn, rfl⟩ := List.getElem?_eq_some_iff.1 h
  rw [held, List.take_add_one, List.foldl_append, h]
  rfl

omit [DecidableEq π] [DecidableEq κ] in
theorem mem_code_of_next {s : Config π κ ν} {p : π} {i : Inst κ ν} (h : P.next s p = some i) :
    i ∈ P.code p := List.mem_of_getElem? h

/-! ## What one turn does -/

inductive Moves (P : Program π γ κ ν) (s : Config π κ ν) : Config π κ ν → Prop
  | store (p : π) (c : κ) (v : ν) (h : P.next s p = some (.store c v)) :
    Moves P s ⟨Function.update s.pc p (s.pc p + 1), Function.update s.mem c v, s.seen⟩
  | await (p : π) (c : κ) (ok : ν → Bool) (h : P.next s p = some (.await c ok)) (hok : ok (s.mem c)) :
    Moves P s ⟨Function.update s.pc p (s.pc p + 1), s.mem, s.seen⟩
  | look (p : π) (c : κ) (h : P.next s p = some (.look c)) :
    Moves P s ⟨Function.update s.pc p (s.pc p + 1), s.mem,
      Function.update s.seen p (s.seen p ++ [s.mem c])⟩
  | meet (g : γ) (h : ∀ p ∈ P.members g, P.next s p = some .sync) :
    Moves P s ⟨fun p => if p ∈ P.members g then s.pc p + 1 else s.pc p, s.mem, s.seen⟩

theorem moves_of_step {s s' : Config π κ ν} {t : Turn π γ} (h : P.step s t = some s') : Moves P s s' := by
  cases t with
  | run p =>
    simp only [step] at h
    split at h
    case h_1 c v hn => exact Option.some.inj h ▸ .store p c v hn
    case h_2 c ok hn =>
      split at h
      · next hok => exact Option.some.inj h ▸ .await p c ok hn hok
      · simp at h
    case h_3 c hn => exact Option.some.inj h ▸ .look p c hn
    case h_4 => simp at h
  | meet g =>
    simp only [step] at h
    split at h
    · next hm =>
      refine Option.some.inj h ▸ .meet g fun p hp => ?_
      have hp := hm.2 p hp
      cases hn : P.next s p with
      | none => simp [hn] at hp
      | some i => rw [hn] at hp; rw [Inst.isSync_iff.1 hp]
    · simp at h

section
variable {s s' : Config π κ ν} (h : Moves P s s')
include h

theorem Moves.pc_le (p : π) : s.pc p ≤ s'.pc p := by
  cases h with
  | meet g => dsimp only; split <;> omega
  | _ q => by_cases hp : p = q <;> simp [update, hp]

theorem Moves.pc_le_succ (p : π) : s'.pc p ≤ s.pc p + 1 := by
  cases h with
  | meet g => dsimp only; split <;> omega
  | _ q => by_cases hp : p = q <;> simp [update, hp]

theorem Moves.next_of_lt {p : π} (hp : s.pc p < s'.pc p) :
    ∃ i, P.next s p = some i ∧ (∀ c ok, i = .await c ok → ok (s.mem c)) := by
  have moved : ∀ {q : π} {n : ℕ}, s.pc p < update s.pc q n p → p = q := by
    intro q n hlt
    by_contra hne
    simp [update_of_ne hne] at hlt
  cases h with
  | store q c v hn => exact ⟨.store c v, moved hp ▸ hn, nofun⟩
  | await q c ok hn hok =>
    refine ⟨_, moved hp ▸ hn, fun c' ok' h => ?_⟩
    cases h
    exact hok
  | look q c hn => exact ⟨.look c, moved hp ▸ hn, nofun⟩
  | meet g hn =>
    dsimp only at hp
    split at hp
    · next hg => exact ⟨.sync, hn p hg, nofun⟩
    · omega

theorem Moves.held_eq {c : κ} {q : π} {v : ν} (hc : P.Owned c q)
    (hmem : s.mem c = P.held c v q (s.pc q)) : s'.mem c = P.held c v q (s'.pc q) := by
  -- an instruction that is no store to `c` leaves both sides
  have keeps : ∀ {p : π} {i : Inst κ ν}, P.next s p = some i → (∀ w : ν, i.effect c w = w) →
      s.mem c = P.held c v q (update s.pc p (s.pc p + 1) q) := by
    intro p i hn hi
    by_cases hq : q = p
    · subst hq
      rw [update_self, held_succ hn, hi, hmem]
    · rw [update_of_ne hq, hmem]
  cases h with
  | store p c' w hn =>
    dsimp only
    by_cases hcc : c' = c
    · subst hcc
      obtain rfl := hc p w (mem_code_of_next hn)
      rw [update_self, update_self, held_succ hn]
      simp [Inst.effect]
    · rw [update_of_ne (Ne.symm hcc)]
      exact keeps hn fun w => by simp [Inst.effect, hcc]
  | await p c' ok hn => exact keeps hn fun _ => rfl
  | look p c' hn => exact keeps hn fun _ => rfl
  | meet g hn =>
    dsimp only
    split
    · next hg => rw [held_succ (hn q hg), hmem]; rfl
    · exact hmem

end

/-! ## Who can go on -/

theorem enabled_store {s : Config π κ ν} {p : π} {c : κ} {v : ν}
    (h : P.next s p = some (.store c v)) : P.Enabled s := ⟨.run p, _, by simp only [step, h]; rfl⟩

theorem enabled_look {s : Config π κ ν} {p : π} {c : κ} (h : P.next s p = some (.look c)) :
    P.Enabled s := ⟨.run p, _, by simp only [step, h]; rfl⟩

theorem enabled_await {s : Config π κ ν} {p : π} {c : κ} {ok : ν → Bool}
    (h : P.next s p = some (.await c ok)) (hok : ok (s.mem c)) : P.Enabled s :=
  ⟨.run p, _, by simp only [step, h, hok, if_true]; rfl⟩

theorem enabled_meet {s : Config π κ ν} {g : γ} (hne : P.members g ≠ [])
    (h : ∀ p ∈ P.members g, P.next s p = some .sync) : P.Enabled s :=
  ⟨.meet g, _, if_pos ⟨hne, fun p hp => by simp [h p hp, Inst.isSync]⟩⟩

/-! ## Whole runs -/

theorem Runs.invariant {m : κ → ν} {I : Config π κ ν → Prop} (h0 : I (start m))
    (hstep : ∀ s s', P.Runs m s → I s → Moves P s s' → I s') {s : Config π κ ν} (h : P.Runs m s) : I s := by
  refine (Reachable.invariant (P := fun s => P.Runs m s ∧ I s) ⟨.refl, h0⟩ ?_ h).2
  rintro s s' ⟨hr, hi⟩ ⟨t, ht⟩
  exact ⟨hr.tail ⟨t, ht⟩, hstep s s' hr hi (moves_of_step ht)⟩

section
variable {m : κ → ν} {s : Config π κ ν} (h : P.Runs m s)
include h

theorem Runs.mem_eq {c : κ} {q : π} (hc : P.Owned c q) : s.mem c = P.held c (m c) q (s.pc q) :=
  h.invariant (I := fun s => s.mem c = P.held c (m c) q (s.pc q)) rfl
    fun _ _ _ hi hm => hm.held_eq hc hi

/-- Before it came past its `i`-th instruction a process was at it, and nobody was further than now. -/
theorem Runs.moment {p : π} {i : ℕ} (hi : i < s.pc p) : ∃ s₀, P.Runs m s₀ ∧ s₀.pc p = i ∧ (∀ q, s₀.pc q ≤ s.pc q) ∧
      ∃ x, (P.code p)[i]? = some x ∧ ∀ c ok, x = .await c ok → ok (s₀.mem c) := by
  refine h.invariant (I := fun s => i < s.pc p → ∃ s₀, P.Runs m s₀ ∧ s₀.pc p = i ∧
    (∀ q, s₀.pc q ≤ s.pc q) ∧ ∃ x, (P.code p)[i]? = some x ∧ ∀ c ok, x = .await c ok → ok (s₀.mem c))
    (fun h => absurd h (Nat.not_lt_zero i)) ?_ hi
  intro s s' hr ih hm hlt
  rcases Nat.lt_or_ge i (s.pc p) with hi | hi
  · obtain ⟨s₀, hr₀, hpc, hle, hx⟩ := ih hi
    exact ⟨s₀, hr₀, hpc, fun q => Nat.le_trans (hle q) (hm.pc_le q), hx⟩
  · have hpc : s.pc p = i := by have := hm.pc_le_succ p; omega
    obtain ⟨x, hx, hok⟩ := hm.next_of_lt (hpc ▸ hlt)
    exact ⟨s, hr, hpc, hm.pc_le, x, hpc ▸ hx, hok⟩

/-- A process that has come past a wait saw its owner at a point that passes the test. -/
theorem Runs.await_passed {p q : π} {i : ℕ} {c : κ} {ok : ν → Bool} (hc : P.Owned c q) (hi : i < s.pc p)
    (hx : (P.code p)[i]? = some (.await c ok)) : ∃ n ≤ s.pc q, ok (P.held c (m c) q n) := by
  obtain ⟨s₀, hr, -, hle, x, hx', hok⟩ := h.moment hi
  rw [hx] at hx'
  exact ⟨s₀.pc q, hle q, hr.mem_eq hc ▸ hok c ok (Option.some.inj hx').symm⟩

end

/-! ## Running processes by hand -/

def Leads (P : Program π γ κ ν) : Config π κ ν → Config π κ ν → Prop :=
  Relation.ReflTransGen fun s s' => ∃ t, P.step s t = some s'

theorem Runs.leads {m : κ → ν} {s s' : Config π κ ν} (h : P.Runs m s) (h' : P.Leads s s') :
    P.Runs m s' := Relation.ReflTransGen.trans h h'

theorem leads_store {s : Config π κ ν} {p : π} {c : κ} {v : ν} (h : P.next s p = some (.store c v)) :
    ∃ s', P.Leads s s' ∧ s'.pc p = s.pc p + 1 ∧ (∀ q, q ≠ p → s'.pc q = s.pc q) ∧
      s'.mem = update s.mem c v ∧ s'.seen = s.seen := by
  refine ⟨⟨update s.pc p (s.pc p + 1), update s.mem c v, s.seen⟩,
    .single ⟨.run p, by simp [step, h]⟩, ?_, ?_, rfl, rfl⟩
  · exact update_self ..
  · exact fun q hq => update_of_ne hq ..

theorem leads_awaits {s : Config π κ ν} {p : π} (n : ℕ)
    (h : ∀ k < n, ∃ c ok, (P.code p)[s.pc p + k]? = some (.await c ok) ∧ ok (s.mem c)) :
    ∃ s', P.Leads s s' ∧ s'.pc p = s.pc p + n ∧ (∀ q, q ≠ p → s'.pc q = s.pc q) ∧
      s'.mem = s.mem ∧ s'.seen = s.seen := by
  induction n with
  | zero => exact ⟨s, .refl, rfl, fun _ _ => rfl, rfl, rfl⟩
  | succ n ih =>
    obtain ⟨s', hs, hp, hq, hmem, hseen⟩ := ih fun k hk => h k (by omega)
    obtain ⟨c, ok, hx, hok⟩ := h n (by omega)
    refine ⟨⟨update s'.pc p (s'.pc p + 1), s'.mem, s'.seen⟩,
      hs.tail ⟨.run p, by simp [step, next, hp, hx, hmem, hok]⟩, ?_, ?_, hmem, hseen⟩
    · simp [hp, Nat.add_assoc]
    · exact fun q hne => (update_of_ne hne ..).trans (hq q hne)

theorem leads_looks {s : Config π κ ν} {p : π} (n : ℕ) (h : ∀ k < n, ∃ c, (P.code p)[s.pc p + k]? = some (.look c)) :
    ∃ s', P.Leads s s' ∧ s'.pc p = s.pc p + n ∧ (∀ q, q ≠ p → s'.pc q = s.pc q) ∧ s'.mem = s.mem := by
  induction n with
  | zero => exact ⟨s, .refl, rfl, fun _ _ => rfl, rfl⟩
  | succ n ih =>
    obtain ⟨s', hs, hp, hq, hmem⟩ := ih fun k hk => h k (by omega)
    obtain ⟨c, hx⟩ := h n (by omega)
    refine ⟨⟨update s'.pc p (s'.pc p + 1), s'.mem,
      update s'.seen p (s'.seen p ++ [s'.mem c])⟩,
      hs.tail ⟨.run p, by simp [step, next, hp, hx]⟩, ?_, ?_, hmem⟩
    · simp [hp, Nat.add_assoc]
    · exact fun q hne => (update_of_ne hne ..).trans (hq q hne)

theorem leads_meets {s : Config π κ ν} {g : γ} (n : ℕ) (hne : P.members g ≠ [])
    (h : ∀ p ∈ P.members g, ∀ k < n, (P.code p)[s.pc p + k]? = some .sync) :
    ∃ s', P.Leads s s' ∧ (∀ p ∈ P.members g, s'.pc p = s.pc p + n) ∧
      (∀ p ∉ P.members g, s'.pc p = s.pc p) ∧ s'.mem = s.mem ∧ s'.seen = s.seen := by
  induction n with
  | zero => exact ⟨s, .refl, fun _ _ => rfl, fun _ _ => rfl, rfl, rfl⟩
  | succ n ih =>
    obtain ⟨s', hs, hin, hout, hmem, hseen⟩ := ih fun p hp k hk => h p hp k (by omega)
    have hall : ∀ p ∈ P.members g, (P.next s' p).any Inst.isSync := by
      intro p hp
      simp [next, hin p hp, h p hp n (by omega), Inst.isSync]
    refine ⟨_, hs.tail ⟨.meet g, if_pos ⟨hne, hall⟩⟩, ?_, ?_, hmem, hseen⟩
    · intro p hp
      simp [hp, hin p hp, Nat.add_assoc]
    · intro p hp
      simp [hp, hout p hp]

end Program

end Lib
