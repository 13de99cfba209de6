import TileXR.Plan.Run

/-!
# What `BuildDst` writes

The first pass numbers the routes of every expert, so that a route is determined by its expert and its
ordinal (`numberRoutes`). The second pass looks up the segment of each ordinal. `buildDst_spec`: when
every ordinal lies in a segment whose place is below `nvS`, every route gets its place, written as it
is for the first route of its token to that rank and complemented for the later ones.
-/

namespace TileXR.Plan
open Lib List

variable {segments : List TokenSegmentMove} {topk : ℕ → ℕ} {base : ℕ → ℕ → ℕ}
variable {n token k : ℕ} {c : Ctx}

/-! ## Ordinals -/

/-- The routes below `n` that go to expert `e`. -/
def routeCount (topk : ℕ → ℕ) (n e : ℕ) : ℕ := (List.range n).countP (topk · = e)

theorem routeCount_succ (topk : ℕ → ℕ) (n e : ℕ) :
    routeCount topk (n + 1) e = routeCount topk n e + if topk n = e then 1 else 0 := by
  rw [routeCount, range_succ, countP_append]
  congr 1
  by_cases h : topk n = e <;> simp [h]

theorem routeCount_mono (topk : ℕ → ℕ) (e : ℕ) {m : ℕ} (h : m ≤ n) : routeCount topk m e ≤ routeCount topk n e := by
  induction h with
  | refl => exact le_rfl
  | step _ ih => rw [routeCount_succ]; omega

theorem numberRoutes_spec (topk : ℕ → ℕ) (n : ℕ) : (∀ e, (numberRoutes topk n).1 e = routeCount topk n e) ∧
      ∀ i < n, (numberRoutes topk n).2 i = routeCount topk i (topk i) := by
  induction n with
  | zero => exact ⟨fun _ => rfl, fun i hi => absurd hi (Nat.not_lt_zero _)⟩
  | succ n ih =>
    obtain ⟨h1, h2⟩ := ih
    have hstep : numberRoutes topk (n + 1) =
        (add1 (numberRoutes topk n).1 (topk n) 1,
          Function.update (numberRoutes topk n).2 n ((numberRoutes topk n).1 (topk n))) := by
      rw [numberRoutes, range_succ, foldl_append]; rfl
    rw [hstep]
    refine ⟨fun e => ?_, fun i hi => ?_⟩
    · dsimp only; rw [add1_apply, h1, routeCount_succ]; simp only [eq_comm]
    · by_cases hin : i = n
      · subst hin; simp [h1]
      · simp only [Function.update_of_ne hin]; exact h2 i (by omega)

theorem ordinal_lt (topk : ℕ → ℕ) {i : ℕ} (h : i < n) : routeCount topk i (topk i) < routeCount topk n (topk i) := by
  have h1 := routeCount_succ topk i (topk i)
  rw [if_pos rfl] at h1
  have h2 : routeCount topk (i + 1) (topk i) ≤ routeCount topk n (topk i) := routeCount_mono topk _ h
  omega

theorem ordinal_injective {i j : ℕ} (he : topk i = topk j)
    (ho : routeCount topk i (topk i) = routeCount topk j (topk j)) : i = j := by
  rcases lt_trichotomy i j with h | h | h
  · have := ordinal_lt topk h; rw [← he] at ho; omega
  · exact h
  · have := ordinal_lt topk h; rw [he] at ho; omega

theorem ordinal_surjective {e o : ℕ} (ho : o < routeCount topk n e) :
    ∃ i < n, topk i = e ∧ routeCount topk i e = o := by
  induction n with
  | zero => simp [routeCount] at ho
  | succ n ih =>
    rw [routeCount_succ] at ho
    rcases Nat.lt_or_ge o (routeCount topk n e) with h | h
    · obtain ⟨i, hi, hrest⟩ := ih h
      exact ⟨i, by omega, hrest⟩
    · by_cases hn : topk n = e
      · rw [if_pos hn] at ho
        exact ⟨n, by omega, hn, by omega⟩
      · rw [if_neg hn] at ho; omega

/-! ## Encoding -/

@[simp] theorem decodeDst_encodeDst (first : Bool) (raw : ℕ) : decodeDst (encodeDst first raw) = raw := by
  unfold decodeDst encodeDst
  cases first
  · rw [if_neg (by simp; omega)]; simp
  · simp

theorem encodeDst_nonneg {first : Bool} {raw : ℕ} : 0 ≤ encodeDst first raw ↔ first = true := by
  unfold encodeDst
  cases first
  · simp; omega
  · simp

/-! ## The places of the routes -/

/-- Where the segments and the layout put a route: rank and slot on that rank. -/
structure Places (c : Ctx) (segments : List TokenSegmentMove) (base : ℕ → ℕ → ℕ)
    (place : ℕ → ℕ × ℕ) : Prop where
  found : ∀ i < c.cap, ∃ m, matchSegment segments (c.topkExperts i)
      (routeCount c.topkExperts i (c.topkExperts i)) = some m ∧
    place i = (m.dstRank, base m.dstRank (c.topkExperts i) + m.dstExpertBegin +
      (routeCount c.topkExperts i (c.topkExperts i) - m.srcExpertBegin))
  slot : ∀ i < c.cap, (place i).2 < c.nvS
  raw : ∀ i < c.cap, (place i).1 * c.nvS + (place i).2 ≤ int32Max

/-- No earlier route of the token goes to the rank of route `token * topK + k`. -/
def firstVisit (topK : ℕ) (place : ℕ → ℕ × ℕ) (token k : ℕ) : Bool :=
  (List.range k).all fun prior =>
    decide ((place (token * topK + prior)).1 ≠ (place (token * topK + k)).1)

/-- What `dst` should hold for a route. -/
def encodedPlace (c : Ctx) (place : ℕ → ℕ × ℕ) (token k : ℕ) : ℤ :=
  encodeDst (firstVisit c.topK place token k)
    ((place (token * c.topK + k)).1 * c.nvS + (place (token * c.topK + k)).2)

theorem decode_encodedPlace {place : ℕ → ℕ × ℕ} (h : (place (token * c.topK + k)).2 < c.nvS) :
    decodeDst (encodedPlace c place token k) / c.nvS = (place (token * c.topK + k)).1 := by
  rw [encodedPlace, decodeDst_encodeDst, Nat.mul_comm,
    Nat.mul_add_div (by omega), Nat.div_eq_of_lt h, Nat.add_zero]

/-- The routes below `token * topK + k` are written, the others not yet. -/
structure Written (c : Ctx) (place : ℕ → ℕ × ℕ) (token k : ℕ) (a : (ℕ → ℤ) × Bool) : Prop where
  ok : a.2 = true
  done : ∀ t j, j < c.topK → (t < token ∨ t = token ∧ j < k) →
    a.1 (t * c.topK + j) = encodedPlace c place t j

theorem token_route_lt (hcap : c.cap = c.s * c.topK) (ht : token < c.s) (hk : k < c.topK) :
    token * c.topK + k < c.cap := by
  calc token * c.topK + k < token * c.topK + c.topK := by omega
    _ = (token + 1) * c.topK := by rw [Nat.add_mul, Nat.one_mul]
    _ ≤ c.s * c.topK := Nat.mul_le_mul_right _ ht
    _ = c.cap := hcap.symm

theorem route_injective {topK t t' j j' : ℕ} (hj : j < topK) (hj' : j' < topK)
    (h : t * topK + j = t' * topK + j') : t = t' ∧ j = j' := by
  have hpos : 0 < topK := by omega
  have h1 : (t * topK + j) / topK = t := by
    rw [Nat.mul_comm, Nat.mul_add_div hpos, Nat.div_eq_of_lt hj, Nat.add_zero]
  have h2 : (t' * topK + j') / topK = t' := by
    rw [Nat.mul_comm, Nat.mul_add_div hpos, Nat.div_eq_of_lt hj', Nat.add_zero]
  obtain rfl : t = t' := by rw [← h1, h, h2]
  exact ⟨rfl, by omega⟩

theorem writeRoute_written {place : ℕ → ℕ × ℕ}
    (hcap : c.cap = c.s * c.topK) (hp : Places c segments base place) (ht : token < c.s) (hk : k < c.topK)
    {a : (ℕ → ℤ) × Bool} (h : Written c place token k a) : Written c place token (k + 1)
      (writeRoute c segments base (numberRoutes c.topkExperts c.cap).2 token a k) := by
  have hlt := token_route_lt hcap ht hk
  obtain ⟨m, hm, hplace⟩ := hp.found _ hlt
  have hslot := hp.slot _ hlt
  have hraw := hp.raw _ hlt
  unfold writeRoute
  rw [if_neg (by rw [h.ok]; decide)]
  dsimp only
  rw [(numberRoutes_spec c.topkExperts c.cap).2 _ hlt, hm]
  dsimp only
  rw [hplace] at hslot hraw
  dsimp only at hslot hraw
  rw [if_neg (by simp; omega)]
  have hfirst : ((List.range k).all fun prior =>
      decide (decodeDst (a.1 (token * c.topK + prior)) / c.nvS ≠ m.dstRank)) =
      firstVisit c.topK place token k := by
    unfold firstVisit
    rw [Bool.eq_iff_iff, all_eq_true, all_eq_true]
    refine forall₂_congr fun prior hprior => ?_
    have hprior := mem_range.1 hprior
    rw [h.done token prior (by omega) (.inr ⟨rfl, hprior⟩),
      decode_encodedPlace (hp.slot _ (token_route_lt hcap ht (by omega))), hplace]
  refine ⟨rfl, fun t j hj hbefore => ?_⟩
  rw [hfirst]
  dsimp only
  by_cases hsame : t * c.topK + j = token * c.topK + k
  · obtain ⟨rfl, rfl⟩ := route_injective hj hk hsame
    rw [Function.update_self, encodedPlace, hplace]
  · rw [Function.update_of_ne hsame]
    refine h.done t j hj (hbefore.imp_right fun hb => ⟨hb.1, ?_⟩)
    have : j ≠ k := fun hjk => hsame (by rw [hb.1, hjk])
    omega

theorem buildDst_spec {place : ℕ → ℕ × ℕ} (hcap : c.cap = c.s * c.topK) (hp : Places c segments base place) :
    (buildDst c segments base).2 = .ok ∧ ∀ token < c.s, ∀ k < c.topK,
      (buildDst c segments base).1 (token * c.topK + k) = encodedPlace c place token k := by
  set ord := (numberRoutes c.topkExperts c.cap).2 with hord
  have hrow : ∀ token < c.s, ∀ n ≤ c.topK, ∀ a, Written c place token 0 a → Written c place token n
      ((List.range n).foldl (writeRoute c segments base ord token) a) := by
    intro token ht n
    induction n with
    | zero => exact fun _ a ha => ha
    | succ n ih =>
      intro hn a ha
      rw [foldl_range_succ]
      exact writeRoute_written hcap hp ht hn (ih (by omega) a ha)
  have hall : ∀ n ≤ c.s, Written c place n 0 ((List.range n).foldl
      (fun a token => (List.range c.topK).foldl (writeRoute c segments base ord token) a)
      (fun _ => 0, true)) := by
    intro n
    induction n with
    | zero => exact fun _ => ⟨rfl, fun t j _ hb => by omega⟩
    | succ n ih =>
      intro hn
      rw [foldl_range_succ]
      have hw := hrow n hn c.topK le_rfl _ (ih (by omega))
      exact ⟨hw.ok, fun t j hj hb => hw.done t j hj (by omega)⟩
  have hend := hall c.s le_rfl
  refine ⟨?_, fun token ht k hk => hend.done token k hk (.inl ht)⟩
  unfold buildDst
  dsimp only
  rw [← hord, hend.ok]; rfl

end TileXR.Plan
