import TileXR.MoonEpV1.DispatchRun

/-!
# The dispatch is exact

For every accepted layout and all routes to distinct slots: a launch that no failure ends leaves in each
slot the row and the weight of its route, and the table of duplicates of each rank (`dispatch_exact`).
Such a run exists for every input; that a run may also wait for ever is a property of the barrier.
-/

namespace TileXR.MoonEpV1
open List
open Function (update update_self update_of_ne)
open Lib

section Run
variable {t : DispatchTask} {k : ℕ} {l : ℕ → Place} {m : DispatchMem} {p : ℕ}
variable (hL : t.layout.Accepted t.rankSize) (hdedup : buildDedup t.layout.flags) (hR : t.routes.Proper)
variable (hmagic : 0 < t.magic)
include hL hdedup hR hmagic

/-- A rank that is not through has a step, which keeps the invariant. -/
theorem DispatchInv.work (h : DispatchInv t k l m) (hlast : k < 3 * t.layout.chunkCount) (hp : p < t.rankSize)
    (hlt : (l p).step < dispatchSteps t.layout k) :
    ∃ m', dispatchWork t p k () (l p) m = some (.at ((l p).step + 1), m') ∧
      DispatchInv t k (update l p (.at ((l p).step + 1))) m' := by
  have hj := (h.place p hp).1
  obtain ⟨m', hstep, hinv⟩ := h.step hL hdedup hR hlast hp hj hlt
  refine ⟨m', ?_, hinv⟩
  have hvalid := dispatchValid_of_accepted hL hdedup hmagic hp
  have hwork : dispatchWork t p k () (.at (l p).step) m = some (.at ((l p).step + 1), m') := by
    simp only [dispatchWork]
    rw [if_pos ⟨hvalid, hlt⟩, hstep]
  rw [← hwork, ← hj]

theorem DispatchInv.of_work (h : DispatchInv t k l m) (hlast : k < 3 * t.layout.chunkCount)
    (hp : p < t.rankSize) {l' : Place} {m' : DispatchMem}
    (hwork : dispatchWork t p k () (l p) m = some (l', m')) : DispatchInv t k (update l p l') m' := by
  by_cases hlt : (l p).step < dispatchSteps t.layout k
  · obtain ⟨m'', hwork', hinv⟩ := h.work hL hdedup hR hmagic hlast hp hlt
    obtain ⟨rfl, rfl⟩ := Prod.mk.inj (Option.some.inj (hwork.symm.trans hwork'))
    exact hinv
  · rw [(h.place p hp).1, dispatchWork, if_neg fun h => hlt h.2] at hwork
    exact nomatch hwork

omit hL hdedup hmagic in
theorem DispatchInv.of_complete (h : DispatchInv t k l m)
    (hdone : ∀ p ∈ (dispatch t).members, (dispatch t).complete p k (l p)) :
    DispatchInv t (k + 1) (fun _ => .at 0) m :=
  h.next hR fun d hd => eq_of_beq (hdone d (mem_range.2 hd))

omit hL hdedup hR hmagic in
theorem dispatchInv_start (m : DispatchMem) : DispatchInv t 0 (fun _ => .at 0) m := by
  refine ⟨fun _ _ => ⟨rfl, Nat.zero_le _⟩, fun _ d _ => ⟨fun x _ b _ hb => ?_, nofun, nofun⟩,
    fun _ _ _ h => absurd (Place.at.inj h) (by decide), nofun, nofun⟩
  exact absurd hb (by simp)

omit hdedup hR hmagic in
/-- Flags of other launches are not taken for those of this one. -/
theorem dispatch_sound {flag : ℕ → ℕ} (hflag : ∀ p < t.rankSize, flag p / 2 ^ 32 ≠ t.magic % 2 ^ 32) :
    (dispatch t).Sound flag := by
  have hcount := hL.chunkCount_le
  have hsmall : ∀ k < 3 * t.layout.chunkCount,
      chunkStep (kMoonEpDispatchWindowClearedStep + k % 3) (k / 3) < 2 ^ 32 := by
    intro k hk
    simp only [chunkStep, kMoonEpDispatchWindowClearedStep, kMoonEpDispatchWindowDrainedStep] at hcount ⊢
    omega
  refine ⟨fun p hp q hq => ?_, fun k hk k' hk' heq => ?_, fun p hp k hk heq => ?_⟩
  · exact (mem_dispatchPeers (mem_range.1 hp) q).2 (mem_range.1 hq)
  · have hmod := congrArg (· % 2 ^ 32) heq
    simp only [dispatch, dispatchToken] at hmod
    rw [mergeMagicWithValue_mod (hsmall k hk), mergeMagicWithValue_mod (hsmall k' hk')] at hmod
    simp only [chunkStep] at hmod
    omega
  · refine hflag p (mem_range.1 hp) ?_
    rw [heq]
    exact mergeMagicWithValue_div (hsmall k hk)

theorem dispatch_kept : (dispatch t).Kept (DispatchInv t) :=
  ⟨fun _ hk _ _ h _ hp _ _ _ hw => h.of_work hL hdedup hR hmagic hk (mem_range.1 hp) hw,
    fun _ _ _ _ h hdone => h.of_complete hR hdone⟩

theorem dispatch_exists_run (flag : ℕ → ℕ) (m₀ : DispatchMem) :
    ∃ s, (dispatch t).Runs flag m₀ s ∧ (dispatch t).Finished s := by
  refine Phased.exists_run (I := DispatchInv t)
    (φ := fun k l => ∑ p ∈ Finset.range t.rankSize, (dispatchSteps t.layout k - (l p).step))
    nodup_range (fun p hp q hq => ?_) (dispatchInv_start m₀)
    (dispatch_kept hL hdedup hR hmagic) (fun k hk l m h hleft => ?_)
  · exact mem_range.2 ((mem_dispatchPeers (mem_range.1 hp) q).1 hq)
  · obtain ⟨p, hp, hopen⟩ := hleft
    have hp' := mem_range.1 hp
    have hplace := h.place p hp'
    have hlt : (l p).step < dispatchSteps t.layout k := by
      refine lt_of_le_of_ne hplace.2 fun heq => hopen ?_
      rw [hplace.1, heq]
      exact beq_self_eq_true _
    obtain ⟨m', hwork, -⟩ := h.work hL hdedup hR hmagic hk hp' hlt
    refine ⟨p, hp, (), _, m', hwork, Finset.sum_lt_sum (fun q _ => ?_) ⟨p, Finset.mem_range.2 hp', ?_⟩⟩
    · by_cases hq : q = p
      · subst hq
        rw [update_self]
        simp only [Place.step_at]
        omega
      · rw [update_of_ne hq]
    · rw [update_self]
      simp only [Place.step_at]
      omega

end Run

section Exact
variable {t : DispatchTask} {commRank commWorld : ℤ} {plan : PlanV1} {hiddenSh hiddenNvsh : Tensor}
variable {routeWeightsSk routeWeightsNvs : Option Tensor} {flags : ℕ}

/-- In every run to the end, of which there is one, each slot has the row and the weight of its route, and
zeros if there is none, and each rank has the table of its duplicates. -/
theorem dispatch_exact
    (hlayout : buildDispatchLayout commRank commWorld plan hiddenSh routeWeightsSk hiddenNvsh routeWeightsNvs
      flags = some t.layout)
    (hworld : t.rankSize = commWorld.toNat) (hdedup : buildDedup flags) (hmagic : 0 < t.magic)
    (hlt : ∀ r < t.rankSize, ∀ i < t.layout.n, rawRoute (t.dst r i) < t.rankSize * t.layout.nvS)
    (hdistinct : ∀ r < t.rankSize, ∀ i < t.layout.n, ∀ r' < t.rankSize, ∀ i' < t.layout.n,
      rawRoute (t.dst r i) = rawRoute (t.dst r' i') → r = r' ∧ i = i')
    (hprimary : ∀ r < t.rankSize, ∀ i < t.layout.n, t.dst r i < 0 → ∃ i' < i,
      i' / t.layout.k = i / t.layout.k ∧ 0 ≤ t.dst r i' ∧
      t.dst r i' / t.layout.nvS = rawRoute (t.dst r i) / t.layout.nvS)
    (flag : ℕ → ℕ) (hflag : ∀ p < t.rankSize, flag p / 2 ^ 32 ≠ t.magic % 2 ^ 32) (m₀ : DispatchMem) :
    (∃ s, (dispatch t).Runs flag m₀ s ∧ (dispatch t).Finished s) ∧
    ∀ s, (dispatch t).Runs flag m₀ s → (dispatch t).Finished s → ∀ d < t.rankSize,
      (∀ x < t.layout.nvS, ∀ b < t.layout.hiddenRowBytes,
        s.mem.hiddenNvsh d (x * t.layout.hiddenRowBytes + b) =
          match t.routes.routeTo d x with
          | some (r, i) => t.hiddenSh r (i / t.layout.k * t.layout.hiddenRowBytes + b)
          | none => 0) ∧
      (routeWeightsSk.isSome → ∀ x < t.layout.nvS, ∀ b < 4,
        s.mem.routeWeightsNvs d (x * 4 + b) =
          match t.routes.routeTo d x with
          | some (r, i) => t.routeWeightsSk r (i * 4 + b)
          | none => 0) ∧
      ∃ primaries, DuplicateTable t.layout.nvS (t.routes.primaryOf d) primaries (s.mem.dupGroups d)
        (s.mem.dupLoffs d) (s.mem.dupCounts d) := by
  obtain ⟨hL, hflags, hweights⟩ := buildDispatchLayout_accepted hlayout
  rw [← hworld] at hL
  rw [← hflags] at hdedup
  have hnpos : 0 < t.layout.n := by
    rw [hL.n_eq]
    exact Nat.mul_pos hL.s_pos hL.k_pos
  have hR : t.routes.Proper := ⟨hL.k_pos, hnpos.trans_le hL.nvS_ge, hlt, hdistinct, hprimary⟩
  refine ⟨dispatch_exists_run hL hdedup hR hmagic flag m₀, fun s hs hfin d hd => ?_⟩
  have hne : (dispatch t).members ≠ [] := List.ne_nil_of_mem (List.mem_range.2 hd)
  obtain ⟨l, hinv⟩ := Phased.Runs.finished hne (dispatch_sound hL hflag) (dispatchInv_start m₀)
    (dispatch_kept hL hdedup hR hmagic) hs hfin
  have hphases : (dispatch t).phases = 3 * t.layout.chunkCount := rfl
  rw [hphases] at hinv
  have hk := hinv.kept (by omega) d hd
  rw [Nat.mul_div_cancel_left _ (by decide)] at hk
  have hchunks : 0 < t.layout.chunkCount := by
    rw [hL.chunkCount_eq]
    exact Nat.succ_pos _
  have hall : t.layout.hiddenRowBytes ≤ t.layout.chunkCount * t.layout.hiddenChunkBytes := by
    have hdiv := Nat.lt_div_mul_add hL.chunk_pos (a := t.layout.hiddenRowBytes - 1)
    rw [hL.chunkCount_eq, Nat.succ_mul]
    omega
  refine ⟨fun x hx b hb => ?_, fun hsome x hx b hb => ?_, hk.table hchunks⟩
  · have hrow := hk.rows x hx b hb (by omega)
    rw [rowByte] at hrow
    rw [show s.mem.hiddenNvsh d = (s.mem.rank d).hiddenNvsh from rfl, hrow]
    rcases t.routes.routeTo d x with _ | ⟨r, i⟩ <;> rfl
  · have hpos : 0 < t.layout.routeWeightsBytes := by
      rw [hweights, if_pos hsome]
      have hnvS := hnpos.trans_le hL.nvS_ge
      omega
    have hweight := hk.weights hchunks hpos x hx b hb
    rw [weightByte] at hweight
    rw [show s.mem.routeWeightsNvs d = (s.mem.rank d).routeWeightsNvs from rfl, hweight]
    rcases t.routes.routeTo d x with _ | ⟨r, i⟩ <;> rfl

end Exact

/-- Two ranks with one token each, which goes to two slots of the other rank. -/
def twoRanksPlan : PlanV1 where
  structSize := 120
  abiVersion := 1
  n := 2
  r := 2
  e := 2
  b := 1
  nvS := 2
  k := 2
  dst := true
  expertsToCopy := true
  zeroFillRanges := true
  remoteStats := true
  dupGroups := true
  dupLoffs := true
  dupCounts := true
  status := true

def twoRanksHidden (rows : ℕ) : Tensor :=
  ⟨64, 1, true, rows * 32, .bfloat16, 2, fun dim => if dim = 0 then rows else if dim = 1 then 32 else 0⟩

def twoRanksLayout : Option DispatchLayout :=
  buildDispatchLayout 0 2 twoRanksPlan (twoRanksHidden 1) none (twoRanksHidden 2) none 1

theorem twoRanksLayout_isSome : twoRanksLayout.isSome := by decide +kernel

def twoRanks : DispatchTask where
  rankSize := 2
  layout := twoRanksLayout.get twoRanksLayout_isSome
  magic := 1
  dst := fun rank route => if rank = 0 then if route = 0 then 2 else -4 else if route = 0 then 0 else -2
  hiddenSh := fun rank a => .ofNat 8 (rank * 100 + a)
  routeWeightsSk := fun _ _ => 0

/-- The second slot of rank 1 gets the row of the token of rank 0. -/
theorem dispatch_twoRanks : twoRanksLayout = some twoRanks.layout ∧
    ∀ m₀, (∃ s, (dispatch twoRanks).Runs (fun _ => 0) m₀ s ∧ (dispatch twoRanks).Finished s) ∧
      ∀ s, (dispatch twoRanks).Runs (fun _ => 0) m₀ s → (dispatch twoRanks).Finished s →
        s.mem.hiddenNvsh 1 (1 * 64 + 5) = 5 := by
  have hlayout : twoRanksLayout = some twoRanks.layout := (Option.some_get twoRanksLayout_isSome).symm
  refine ⟨hlayout, fun m₀ => ?_⟩
  have hn : twoRanks.layout.n = 2 := by decide +kernel
  have hdistinct : ∀ r i r' i' : Fin 2, rawRoute (twoRanks.dst r i) = rawRoute (twoRanks.dst r' i') →
      r.1 = r'.1 ∧ i.1 = i'.1 := by decide
  obtain ⟨hrun, hexact⟩ := dispatch_exact hlayout rfl (by decide) (by decide) (by decide +kernel)
    (fun r hr i hi r' hr' i' hi' => hdistinct ⟨r, hr⟩ ⟨i, hn ▸ hi⟩ ⟨r', hr'⟩ ⟨i', hn ▸ hi'⟩)
    (by decide +kernel) (fun _ => 0) (fun _ _ => by decide) m₀
  refine ⟨hrun, fun s hs hfin => ?_⟩
  have hrow := (hexact s hs hfin 1 (by decide)).1 1 (by decide +kernel) 5 (by decide +kernel)
  have hbytes : twoRanks.layout.hiddenRowBytes = 64 := by decide +kernel
  have hroute : twoRanks.routes.routeTo 1 1 = some (0, 1) := by decide +kernel
  rw [hbytes, hroute] at hrow
  rw [hrow]
  decide +kernel

end TileXR.MoonEpV1
