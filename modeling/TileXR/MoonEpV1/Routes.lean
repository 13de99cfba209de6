import TileXR.MoonEpV1.DuplicatePlan

/-!
# Routes and slots

What the arrays `dst` of all ranks say about the slots of a rank: which route a slot belongs to, and for
the slot of a route whose row is there already, in which slot. The kernel finds the latter by
`FindPrimaryOffset` (`findPrimaryOffset_eq`).
-/

namespace TileXR.MoonEpV1
open Lib List
variable {L : DispatchLayout} {nvS p rankSize : ℕ}

/-- The routes of all ranks; route `i` of a rank is that of its token `i / k`. -/
structure Routes where
  rankSize : ℕ
  n : ℕ
  k : ℕ
  nvS : ℕ
  dst : ℕ → ℕ → ℤ

namespace Routes
variable (R : Routes)

def routeTo (rank slot : ℕ) : Option (ℕ × ℕ) :=
  ((List.range R.rankSize).flatMap fun r => (List.range R.n).map fun i => (r, i)).find? fun route =>
    rawRoute (R.dst route.1 route.2) = rank * R.nvS + slot

/-- The first route before `i` that takes the row of the same token to a rank. -/
def primaryRoute (r i rank : ℕ) : Option ℕ :=
  (List.range i).find? fun i' => i' / R.k = i / R.k ∧ 0 ≤ R.dst r i' ∧ R.dst r i' / R.nvS = rank

def primaryOf (rank slot : ℕ) : Option ℕ :=
  match R.routeTo rank slot with
  | none => none
  | some (r, i) =>
    if R.dst r i < 0 then (R.primaryRoute r i rank).map fun i' => (R.dst r i' % R.nvS).toNat else none

/-- Destinations are distinct and in range, and a duplicate has a primary. -/
structure Proper : Prop where
  k_pos : 0 < R.k
  nvS_pos : 0 < R.nvS
  lt : ∀ r < R.rankSize, ∀ i < R.n, rawRoute (R.dst r i) < R.rankSize * R.nvS
  distinct : ∀ r < R.rankSize, ∀ i < R.n, ∀ r' < R.rankSize, ∀ i' < R.n,
    rawRoute (R.dst r i) = rawRoute (R.dst r' i') → r = r' ∧ i = i'
  primary : ∀ r < R.rankSize, ∀ i < R.n, R.dst r i < 0 → ∃ i' < i, i' / R.k = i / R.k ∧
    0 ≤ R.dst r i' ∧ R.dst r i' / R.nvS = rawRoute (R.dst r i) / R.nvS

variable {R} {r i d x : ℕ}

theorem rawRoute_nonneg (encoded : ℤ) : 0 ≤ rawRoute encoded := by
  unfold rawRoute
  split <;> omega

theorem mem_routes : (r, i) ∈ ((List.range R.rankSize).flatMap fun r => (List.range R.n).map fun i => (r, i)) ↔
    r < R.rankSize ∧ i < R.n := by
  simp

theorem routeTo_eq_some (h : R.Proper) : R.routeTo d x = some (r, i) ↔
    r < R.rankSize ∧ i < R.n ∧ rawRoute (R.dst r i) = d * R.nvS + x := by
  constructor
  · intro heq
    have hmem := mem_routes.1 (mem_of_find?_eq_some heq)
    have hraw := List.find?_some heq
    exact ⟨hmem.1, hmem.2, by simpa using hraw⟩
  · rintro ⟨hr, hi, hraw⟩
    rcases hfind : R.routeTo d x with _ | ⟨r', i'⟩
    · have hno := List.find?_eq_none.1 hfind (r, i) (mem_routes.2 ⟨hr, hi⟩)
      exact absurd hraw (by simpa using hno)
    · have hmem := mem_routes.1 (mem_of_find?_eq_some hfind)
      have hraw' := List.find?_some hfind
      have heq : rawRoute (R.dst r i) = rawRoute (R.dst r' i') := by
        rw [hraw]; exact Eq.symm (by simpa using hraw')
      obtain ⟨rfl, rfl⟩ := h.distinct r hr i hi r' hmem.1 i' hmem.2 heq
      rfl

theorem raw_eq (h : R.Proper) (hr : r < R.rankSize) (hi : i < R.n) : ∃ d < R.rankSize, ∃ x < R.nvS,
    rawRoute (R.dst r i) = d * R.nvS + x ∧ rawRoute (R.dst r i) / R.nvS = d ∧ rawRoute (R.dst r i) % R.nvS = x := by
  have hpos := h.nvS_pos
  have hlt := h.lt r hr i hi
  obtain ⟨raw, hraw⟩ := Int.eq_ofNat_of_zero_le (rawRoute_nonneg (R.dst r i))
  rw [hraw] at hlt ⊢
  have hmod := Nat.div_add_mod raw R.nvS
  rw [Nat.mul_comm] at hmod
  refine ⟨raw / R.nvS, (Nat.div_lt_iff_lt_mul hpos).2 (by exact_mod_cast hlt), raw % R.nvS,
    Nat.mod_lt _ hpos, by exact_mod_cast hmod.symm, rfl, rfl⟩

theorem slot_ediv (hx : x < nvS) : ((d : ℤ) * nvS + x) / nvS = d := by
  rw [Int.add_comm, Int.add_mul_ediv_right _ _ (by omega), Int.ediv_eq_zero_of_lt (by omega) (by omega)]
  omega

theorem slot_emod (hx : x < nvS) : ((d : ℤ) * nvS + x) % nvS = x := by
  rw [Int.add_comm, Int.add_mul_emod_self_right, Int.emod_eq_of_lt (by omega) (by omega)]

theorem decodeRoute_eq {encoded : ℤ} (hd : d < rankSize) (hx : x < L.nvS)
    (h : rawRoute encoded = d * L.nvS + x) : decodeRoute L rankSize encoded = some (d, x) := by
  have hnonneg := rawRoute_nonneg encoded
  simp only [decodeRoute]
  rw [h] at hnonneg ⊢
  rw [slot_ediv hx, slot_emod hx, if_neg (by omega), Int.toNat_natCast, Int.toNat_natCast]

theorem rawRoute_of_nonneg {encoded : ℤ} (h : 0 ≤ encoded) : rawRoute encoded = encoded := if_pos h

theorem findPrimary_eq {dst : ℕ → ℤ} (l : List ℕ)
    (h : ∀ c ∈ l, 0 ≤ dst c → ∃ d < rankSize, ∃ x < L.nvS, dst c = d * L.nvS + x) :
    findPrimary L rankSize dst d l =
      match l.find? fun c => 0 ≤ dst c ∧ dst c / L.nvS = d with
      | none => -1
      | some c => dst c % L.nvS := by
  induction l with
  | nil => rfl
  | cons c l ih =>
    rw [findPrimary]
    have ih' := ih fun c hc => h c (mem_cons_of_mem _ hc)
    by_cases hneg : dst c < 0
    · rw [if_pos hneg, ih', List.find?_cons_of_neg (by simp; omega)]
    · obtain ⟨d', hd', x, hx, hdst⟩ := h c mem_cons_self (by omega)
      have hdiv : dst c / L.nvS = d' := by rw [hdst, slot_ediv hx]
      have hmod : dst c % L.nvS = x := by rw [hdst, slot_emod hx]
      rw [if_neg hneg, decodeRoute_eq hd' hx (by rw [rawRoute_of_nonneg (by omega), hdst])]
      by_cases hd : d' = d
      · rw [List.find?_cons_of_pos (by simp [hdiv, hd]; omega)]
        simp only [hd, if_true, hmod]
      · rw [List.find?_cons_of_neg (by simp [hdiv]; omega), ← ih']
        exact if_neg hd

/-- The candidates of the kernel are the routes of the token. -/
theorem find_token {k : ℕ} (hk : 0 < k) (i : ℕ) (p : ℕ → Bool) : (List.range' (i / k * k) (i - i / k * k)).find? p =
      (List.range i).find? fun i' => decide (i' / k = i / k) && p i' := by
  have hle := Nat.div_mul_le_self i k
  have hsplit : List.range i = List.range (i / k * k) ++ List.range' (i / k * k) (i - i / k * k) := by
    have happend := List.range'_append_1 (s := 0) (m := i / k * k) (n := i - i / k * k)
    rw [Nat.zero_add, Nat.add_sub_cancel' hle] at happend
    rw [range_eq_range', range_eq_range', happend]
  have hbefore : (List.range (i / k * k)).find? (fun i' => decide (i' / k = i / k) && p i') = none := by
    refine List.find?_eq_none.2 fun i' hi' => ?_
    have hlt := (Nat.div_lt_iff_lt_mul hk).2 (mem_range.1 hi')
    simp [Nat.ne_of_lt hlt]
  rw [hsplit, List.find?_append, hbefore, Option.none_or, ← List.head?_filter, ← List.head?_filter]
  refine congrArg List.head? (filter_congr fun i' hi' => ?_)
  obtain ⟨h1, h2⟩ := List.mem_range'_1.1 hi'
  have heq : i' / k = i / k :=
    Nat.le_antisymm (Nat.div_le_div_right (by omega)) ((Nat.le_div_iff_mul_le hk).2 h1)
  simp [heq]

theorem primaryRoute_eq_some {i' : ℕ} (h : R.primaryRoute r i d = some i') :
    i' < i ∧ i' / R.k = i / R.k ∧ 0 ≤ R.dst r i' ∧ R.dst r i' / R.nvS = d := by
  have hmem := mem_range.1 (mem_of_find?_eq_some h)
  have hpred := List.find?_some h
  exact ⟨hmem, by simpa using hpred⟩

/-- The slot of a primary: its route is an earlier one of the same token. -/
theorem primaryOf_eq_some (h : R.Proper) (hp : R.primaryOf d x = some p) :
    p < R.nvS ∧ ∃ r i i', R.routeTo d x = some (r, i) ∧ R.dst r i < 0 ∧ R.primaryRoute r i d = some i' ∧
      i' / R.k = i / R.k ∧ 0 ≤ R.dst r i' ∧ R.routeTo d p = some (r, i') := by
  unfold primaryOf at hp
  split at hp
  · exact nomatch hp
  · next r i hroute =>
    split at hp
    · next hneg =>
      obtain ⟨i', hi', rfl⟩ := Option.map_eq_some_iff.1 hp
      obtain ⟨hlt, htoken, hnonneg, hrank⟩ := primaryRoute_eq_some hi'
      obtain ⟨hr, hi, -⟩ := (routeTo_eq_some h).1 hroute
      obtain ⟨d', -, p, hp', hraw, hdiv, hmod⟩ := raw_eq h hr (hlt.trans hi)
      rw [rawRoute_of_nonneg hnonneg] at hdiv hmod hraw
      obtain rfl : d' = d := by omega
      rw [hmod, Int.toNat_natCast]
      refine ⟨hp', r, i, i', hroute, hneg, hi', htoken, hnonneg, (routeTo_eq_some h).2 ⟨hr, hlt.trans hi, ?_⟩⟩
      rw [rawRoute_of_nonneg hnonneg, hraw]
    · exact nomatch hp

theorem primaryOf_of_nonneg (hroute : R.routeTo d x = some (r, i)) (h : 0 ≤ R.dst r i) : R.primaryOf d x = none := by
  unfold primaryOf
  rw [hroute]
  exact if_neg (by omega)

theorem primaryOf_of_neg (h : R.Proper) (hx : x < R.nvS) (hroute : R.routeTo d x = some (r, i))
    (hneg : R.dst r i < 0) : ∃ p, R.primaryOf d x = some p := by
  obtain ⟨hr, hi, hraw⟩ := (routeTo_eq_some h).1 hroute
  obtain ⟨i', hlt, htoken, hnonneg, hrank⟩ := h.primary r hr i hi hneg
  rw [hraw, slot_ediv hx] at hrank
  obtain ⟨j, hj⟩ : ∃ j, R.primaryRoute r i d = some j := by
    refine Option.isSome_iff_exists.1 (List.find?_isSome.2 ⟨i', mem_range.2 hlt, ?_⟩)
    simp [htoken, hnonneg, hrank]
  refine ⟨(R.dst r j % R.nvS).toNat, ?_⟩
  unfold primaryOf
  rw [hroute]
  dsimp only
  rw [if_pos hneg, hj]
  rfl

theorem primaryOf_none (hroute : R.routeTo d x = none) : R.primaryOf d x = none := by
  unfold primaryOf
  rw [hroute]

theorem primariesOk (h : R.Proper) (d : ℕ) : PrimariesOk R.nvS (R.primaryOf d) where
  lt _ _ _ hp := (primaryOf_eq_some h hp).1
  none _ _ _ hp := by
    obtain ⟨-, r, i, i', -, -, -, -, hnonneg, hroute⟩ := primaryOf_eq_some h hp
    exact primaryOf_of_nonneg hroute hnonneg

end Routes

def DispatchTask.routes (t : DispatchTask) : Routes :=
  ⟨t.rankSize, t.layout.n, t.layout.k, t.layout.nvS, t.dst⟩

theorem findPrimaryOffset_eq {t : DispatchTask} {r i d x : ℕ} (h : t.routes.Proper)
    (hroute : t.routes.routeTo d x = some (r, i)) (hp : t.routes.primaryOf d x = some p) :
    findPrimaryOffset t.layout t.rankSize (t.dst r) i d = p := by
  obtain ⟨hlt, r', i₀, i', hroute', hneg, hprim, -, hnonneg, hroute₂⟩ := Routes.primaryOf_eq_some h hp
  obtain ⟨rfl, rfl⟩ := Prod.mk.inj (Option.some.inj (hroute.symm.trans hroute'))
  obtain ⟨hr, hi, -⟩ := (Routes.routeTo_eq_some h).1 hroute
  obtain ⟨-, -, hraw⟩ := (Routes.routeTo_eq_some h).1 hroute₂
  have hle := Nat.div_mul_le_self i t.layout.k
  have hk : 0 < t.layout.k := h.k_pos
  rw [findPrimaryOffset, Routes.findPrimary_eq _ fun c hc hc' => ?_, Routes.find_token hk]
  · have hfind : (List.range i).find? (fun i' => decide (i' / t.layout.k = i / t.layout.k) &&
        decide (0 ≤ t.dst r i' ∧ t.dst r i' / t.layout.nvS = d)) = some i' := by
      simp only [← Bool.decide_and]
      exact hprim
    rw [hfind]
    dsimp only
    rw [Routes.rawRoute_of_nonneg hnonneg] at hraw
    have hdst : t.dst r i' = d * t.layout.nvS + p := hraw
    have hlt' : p < t.layout.nvS := hlt
    rw [hdst, Routes.slot_emod hlt']
  · obtain ⟨-, hc⟩ := List.mem_range'_1.1 hc
    have hci : c < i := by omega
    obtain ⟨d', hd', x', hx', hraw', -⟩ := Routes.raw_eq h hr (hci.trans hi)
    exact ⟨d', hd', x', hx', (Routes.rawRoute_of_nonneg hc').symm.trans hraw'⟩

end TileXR.MoonEpV1
