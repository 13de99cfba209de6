import TileXR.ReduceGrad.PullLeader
import Mathlib.Tactic.Ring

/-!
# Steps of transfers and helpers

A read lands in the part of the workspace that belongs to its lane, bank and ordinal (`reads_apart`), so
it disturbs no other. A helper stores only tiles it owns: what it adds up is what the wave contributes
(`input_eq`), and the elements of a tile are told by their chunk and tile number (`inCopy_iff`).
-/

namespace TileXR.ReduceGrad
open Lib List Nat Option
open Function (update update_self update_of_ne)

variable {r' : Read} {e e' entry : ℕ}
variable {α : Type*} {t : Task α} {s s' : State α} {lane : ℕ} {v v' : View}
variable {k i projection localExpert chunk tile j c : ℕ} {r : Read} {w : Wave} {work : Work}

/-! ## Transfers -/

theorem mem_readsAt (hr : r ∈ readsAt t lane k) : ∃ w o entry, (laneWaves t lane)[k]? = some w ∧
      ((w.contributors t).filter t.isRemote)[o]? = some entry ∧
      r = waveRead t lane (projectionForLane t.layout lane) (k % 2) w o entry := by
  unfold readsAt at hr
  split at hr
  · next w hw =>
    rw [(issueWave_eq t _ _ _ w).2.2] at hr
    obtain ⟨o, ho, rfl⟩ := mem_iff_getElem.1 hr
    rw [length_mapIdx] at ho
    exact ⟨w, o, _, hw, List.getElem?_eq_getElem ho, getElem_mapIdx⟩
  · cases hr

theorem ordinal_lt (hL : t.layout.Accepted) (hlane : lane < t.layout.laneCount) {o : ℕ}
    (hw : (laneWaves t lane)[k]? = some w) (ho : ((w.contributors t).filter t.isRemote)[o]? = some entry) :
    o < t.layout.rankSize := by
  have hvalid := valid_of_mem_laneWaves hL hlane (mem_of_getElem? hw)
  have h₁ := (List.getElem?_eq_some_iff.1 ho).1
  have h₂ := length_filter_le t.isRemote (w.contributors t)
  have h₃ := hvalid.length
  have h₄ := hvalid.count_le
  omega

theorem reads_apart (hL : t.layout.Accepted) {lane' k' : ℕ} (hlane : lane < t.layout.laneCount)
    (hlane' : lane' < t.layout.laneCount) (hr : r ∈ readsAt t lane k) (hr' : r' ∈ readsAt t lane' k') :
    r.localOffset + r.bytes ≤ r'.localOffset ∨ r'.localOffset + r'.bytes ≤ r.localOffset ∨
      (lane = lane' ∧ k % 2 = k' % 2 ∧ (k = k' → r = r')) := by
  obtain ⟨w, o, entry, hw, ho, rfl⟩ := mem_readsAt hr
  obtain ⟨w', o', entry', hw', ho', rfl⟩ := mem_readsAt hr'
  have hlt := ordinal_lt hL hlane hw ho
  have hlt' := ordinal_lt hL hlane' hw' ho'
  have hplace : ∀ lane b o, bankPayload t.layout lane b + o * t.layout.chunkBytes =
      t.layout.stagingOffset + ((lane * 2 + b) * t.layout.rankSize + o) * t.layout.chunkBytes := by
    intro lane b o
    rw [bankPayload, hL.laneStride_eq, hL.bankStride_eq, kReduceGradBankCount]
    ring
  have hbytes : ∀ p c, chunkBytesOf t p c ≤ t.layout.chunkBytes := fun _ _ => Nat.min_le_right _ _
  have h₁ := hbytes (projectionForLane t.layout lane) w.chunk
  have h₂ := hbytes (projectionForLane t.layout lane') w'.chunk
  simp only [waveRead, hplace]
  rcases lt_trichotomy ((lane * 2 + k % 2) * t.layout.rankSize + o)
    ((lane' * 2 + k' % 2) * t.layout.rankSize + o') with hlt₀ | heq | hlt₀
  · left
    have := Nat.mul_le_mul_right t.layout.chunkBytes (succ_le_of_lt hlt₀)
    rw [succ_mul] at this
    omega
  · right; right
    obtain ⟨hbank, rfl⟩ := row_unique hlt hlt' heq
    obtain rfl : lane = lane' := by omega
    refine ⟨rfl, by omega, fun hk => ?_⟩
    subst hk
    rw [hw, Option.some.injEq] at hw'
    subst hw'
    rw [ho, Option.some.injEq] at ho'
    rw [ho']
  · right; left
    have := Nat.mul_le_mul_right t.layout.chunkBytes (succ_le_of_lt hlt₀)
    rw [succ_mul] at this
    omega

theorem staged_execute (r : Read) (hs : s'.workspace = execute t r s.workspace) : Staged t s' r := by
  intro b hb
  rw [hs, execute, if_pos ⟨Nat.le_add_right _ _, by omega⟩, Nat.add_sub_cancel_left]

theorem Staged.execute (h : Staged t s r) (hs : s'.workspace = execute t r' s.workspace)
    (hapart : r.localOffset + r.bytes ≤ r'.localOffset ∨ r'.localOffset + r'.bytes ≤ r.localOffset) :
    Staged t s' r := by
  intro b hb
  rw [hs, ReduceGrad.execute, if_neg (by omega)]
  exact h b hb

theorem mem_eraseIdx_of_ne {β : Type*} {l : List β} {a b : β} (ha : a ∈ l) (hb : l[i]? = some b) (h : b ≠ a) :
    a ∈ l.eraseIdx i := by
  obtain ⟨j, hj, rfl⟩ := mem_iff_getElem.1 ha
  refine mem_eraseIdx_iff_getElem.2 ⟨j, hj, fun hij => h ?_, rfl⟩
  subst hij
  rw [List.getElem?_eq_getElem hj] at hb
  exact (some.inj hb).symm

section Steps
variable [Add α] {token₀ : ℕ → ℕ → ℕ} {gradient₀ : ℕ → ℕ → α}

theorem transferStep_inv (hL : t.layout.Accepted) (hlane : lane < t.layout.laneCount) {index : ℕ}
    (h : Inv t token₀ gradient₀ s) (hstep : transferStep t lane index s = some s') : Inv t token₀ gradient₀ s' := by
  obtain ⟨f, hf, rfl⟩ := map_eq_some_iff.1 hstep
  have hmem : f ∈ s.flight lane := mem_of_getElem? hf
  obtain ⟨v, hv⟩ := h.lanes lane hlane
  have hfl := hv.flights f hmem
  refine ⟨h.status, fun lane' hlane' => ?_, h.gradient, h.stored⟩
  rcases eq_or_ne lane' lane with rfl | hne
  · have hflight : ({ s with
        flight := update s.flight lane' ((s.flight lane').eraseIdx index)
        workspace := execute t f.read s.workspace } : State α).flight lane' =
        (s.flight lane').eraseIdx index := update_self _ _ _
    refine ⟨v, hv.phase.mono rfl rfl ?_ fun _ _ _ => Nat.le_refl _, hv.locals, hv.ready, hv.abort, hv.items, ?_,
      fun k hk hk' r hr => ?_, fun blockIdx helperIndex hb => (hv.helpers _ _ hb).mono rfl
      (fun _ _ => rfl) (hv.helpers _ _ hb).known (Nat.le_refl _) hv.phase.bounds.published⟩
    · rw [hflight]; exact fun g hg => mem_of_mem_eraseIdx hg
    · rw [hflight]; exact fun g hg => hv.flights g (mem_of_mem_eraseIdx hg)
    · rw [hflight]
      -- a read that is executed is staged; another one of the same bank is of the same wave
      rcases eq_or_ne f ⟨k, r⟩ with rfl | hne
      · exact .inr (staged_execute r rfl)
      rcases hv.staged k hk hk' r hr with hmem' | hst
      · exact .inl (mem_eraseIdx_of_ne hmem' hf hne)
      · refine .inr ?_
        rcases reads_apart hL hlane hlane hr hfl.2.2 with hap | hap | ⟨-, hpar, heq⟩
        · exact hst.execute rfl (.inl hap)
        · exact hst.execute rfl (.inr hap)
        · have hbanks := hv.phase.bounds.banks
          have hknown := hv.phase.bounds.known
          rw [heq (by omega)]
          exact staged_execute _ rfl
  · obtain ⟨v', hv'⟩ := h.lanes lane' hlane'
    refine ⟨v', hv'.frame rfl rfl rfl (update_of_ne hne _ _) (fun k r hr hst => ?_) fun _ _ _ => rfl⟩
    rcases reads_apart hL hlane' hlane hr hfl.2.2 with hap | hap | ⟨heq, -⟩
    · exact hst.execute rfl (.inl hap)
    · exact hst.execute rfl (.inr hap)
    · exact absurd heq hne

end Steps

/-! ## Elements and tiles -/

section Elements

section
variable (hL : t.layout.Accepted)
include hL

theorem four_dvd_chunkBytes : 4 ∣ t.layout.chunkBytes :=
  Nat.dvd_trans (by decide) hL.chunk_dvd

theorem four_dvd_chunkBytesOf (projection chunk : ℕ) : 4 ∣ chunkBytesOf t projection chunk := by
  have h₁ : 4 ∣ t.layout.rowBytes projection := by rw [hL.rowBytes_eq]; exact Nat.dvd_mul_left _ _
  have h₂ := four_dvd_chunkBytes hL
  rw [chunkBytesOf]
  rcases Nat.le_total (t.layout.rowBytes projection - chunk * t.layout.chunkBytes) t.layout.chunkBytes with
    h | h
  · rw [Nat.min_eq_left h]
    exact Nat.dvd_sub h₁ (Nat.dvd_mul_left_of_dvd h₂ _)
  · rwa [Nat.min_eq_right h]

omit hL in
theorem four_dvd_tileBytes {w : Work} (h : 4 ∣ w.itemChunkBytes) (tile : ℕ) : 4 ∣ w.tileBytes tile := by
  rw [Work.tileBytes, kReduceGradKernelTileBytes]
  omega

theorem four_mul_tileStart (chunk tile : ℕ) :
    4 * tileStart t chunk tile = chunk * t.layout.chunkBytes + tile * kReduceGradKernelTileBytes :=
  Nat.mul_div_cancel' (Nat.dvd_add (Nat.dvd_mul_left_of_dvd (four_dvd_chunkBytes hL) _)
    (Nat.dvd_mul_left_of_dvd (by decide) _))

theorem outputAddress_tile (projection localExpert chunk tile j : ℕ) :
    outputAddress t projection localExpert chunk + tile * kReduceGradKernelTileBytes + 4 * j =
      elemAddress t projection localExpert (tileStart t chunk tile + j) := by
  have := four_mul_tileStart hL chunk tile
  rw [elemAddress, outputAddress, Nat.mul_add]
  omega

theorem inCopy_iff {bytes x : ℕ} (hbytes : 4 ∣ bytes) :
    inCopy (outputAddress t projection localExpert chunk + tile * kReduceGradKernelTileBytes) bytes x ↔
      ∃ j < bytes / 4, x = elemAddress t projection localExpert (tileStart t chunk tile + j) := by
  simp only [← outputAddress_tile hL]
  generalize outputAddress t projection localExpert chunk + tile * kReduceGradKernelTileBytes = a
  simp only [inCopy, Bool.and_eq_true, decide_eq_true_eq, beq_iff_eq]
  constructor
  · rintro ⟨⟨h₁, h₂⟩, h₃⟩
    exact ⟨(x - a) / 4, by omega, by omega⟩
  · rintro ⟨j, hj, rfl⟩
    omega

theorem elemAddress_inj {i' : ℕ} (hi : i < t.layout.rowElements projection)
    (hi' : i' < t.layout.rowElements projection)
    (h : elemAddress t projection e i = elemAddress t projection e' i') : e = e' ∧ i = i' := by
  have hrow := hL.rowBytes_eq projection
  obtain ⟨he, hi⟩ := row_unique (by omega) (by omega) h
  exact ⟨by rw [Task.globalExpert, Task.globalExpert] at he; omega, by omega⟩

theorem chunk_lt_iff : chunk < t.layout.chunkCounts projection ↔
      chunk * t.layout.chunkBytes < t.layout.rowBytes projection := by
  rw [hL.chunkCounts_eq, lt_divideRoundUp hL.chunkPos]

theorem tile_element (htile : tile * kReduceGradKernelTileBytes < chunkBytesOf t projection chunk)
    (hj : 4 * j < min (chunkBytesOf t projection chunk - tile * kReduceGradKernelTileBytes)
      kReduceGradKernelTileBytes) :
    chunkOf t (tileStart t chunk tile + j) = chunk ∧ tileOf t (tileStart t chunk tile + j) = tile ∧
      tileStart t chunk tile + j < t.layout.rowElements projection := by
  have hstart := four_mul_tileStart hL chunk tile
  have hrow := hL.rowBytes_eq projection
  have hle : chunkBytesOf t projection chunk ≤ t.layout.chunkBytes := Nat.min_le_right _ _
  have hle' : chunkBytesOf t projection chunk ≤
      t.layout.rowBytes projection - chunk * t.layout.chunkBytes := Nat.min_le_left _ _
  have hi : 4 * (tileStart t chunk tile + j) =
      tile * kReduceGradKernelTileBytes + 4 * j + chunk * t.layout.chunkBytes := by omega
  rw [chunkOf, tileOf, hi, add_mul_div_right _ _ hL.chunkPos, add_mul_mod_self_right,
    div_eq_of_lt (by omega), mod_eq_of_lt (by omega), Nat.add_comm (tile * _),
    add_mul_div_right _ _ (by decide), div_eq_of_lt (by omega)]
  omega

theorem element_tile (hi : i < t.layout.rowElements projection) : chunkOf t i < t.layout.chunkCounts projection ∧
      tileOf t i * kReduceGradKernelTileBytes < chunkBytesOf t projection (chunkOf t i) ∧
      ∃ j, 4 * j < min (chunkBytesOf t projection (chunkOf t i) - tileOf t i * kReduceGradKernelTileBytes)
        kReduceGradKernelTileBytes ∧ i = tileStart t (chunkOf t i) (tileOf t i) + j := by
  have hrow := hL.rowBytes_eq projection
  have hdiv := div_add_mod (4 * i) t.layout.chunkBytes
  have hmod := mod_lt (4 * i) hL.chunkPos
  have hdiv' := div_add_mod (4 * i % t.layout.chunkBytes) kReduceGradKernelTileBytes
  have hmod' := mod_lt (4 * i % t.layout.chunkBytes) (show 0 < kReduceGradKernelTileBytes by decide)
  have hstart := four_mul_tileStart hL (chunkOf t i) (tileOf t i)
  rw [Nat.mul_comm] at hdiv hdiv'
  rw [chunk_lt_iff hL, chunkBytesOf]
  rw [chunkOf, tileOf] at *
  generalize kReduceGradKernelTileBytes = tileBytes at *
  refine ⟨by omega, by omega, i - tileStart t (4 * i / t.layout.chunkBytes)
    (4 * i % t.layout.chunkBytes / tileBytes), by omega, by omega⟩

theorem inCopy_tile (htile : tile * kReduceGradKernelTileBytes < chunkBytesOf t projection chunk)
    (hi : i < t.layout.rowElements projection) :
    inCopy (outputAddress t projection e chunk + tile * kReduceGradKernelTileBytes)
      (min (chunkBytesOf t projection chunk - tile * kReduceGradKernelTileBytes) kReduceGradKernelTileBytes)
      (elemAddress t projection e' i) ↔ e' = e ∧ chunkOf t i = chunk ∧ tileOf t i = tile := by
  rw [inCopy_iff hL]
  · constructor
    · rintro ⟨j, hj, hx⟩
      obtain ⟨hchunk, htile, hlt⟩ := tile_element hL (j := j) htile (by omega)
      obtain ⟨rfl, rfl⟩ := elemAddress_inj hL hi hlt hx
      exact ⟨rfl, hchunk, htile⟩
    · rintro ⟨rfl, rfl, rfl⟩
      obtain ⟨-, -, j, hj, hij⟩ := element_tile hL hi
      have hfour := four_dvd_chunkBytesOf hL projection (chunkOf t i)
      refine ⟨j, ?_, congrArg _ hij⟩
      rw [kReduceGradKernelTileBytes] at *
      omega
  · have hfour := four_dvd_chunkBytesOf hL projection chunk
    rw [kReduceGradKernelTileBytes]
    omega

theorem tileOf_lt (hi : i < t.layout.rowElements projection) :
    tileOf t i < divideRoundUp (chunkBytesOf t projection (chunkOf t i)) kReduceGradKernelTileBytes :=
  (lt_divideRoundUp (by decide)).2 (element_tile hL hi).2.1

end

/-! ## Contributions -/

theorem contributed_succ (hw : (laneWaves t lane)[c]? = some w) :
    contributed t lane (c + 1) localExpert chunk = contributed t lane c localExpert chunk ++
      if w.localExpert = localExpert ∧ w.chunk = chunk then w.contributors t else [] := by
  rw [contributed, contributed, take_add_one, hw, flatMap_append]
  simp

theorem accumulated_append [Add α] (gradient₀ : ℕ → ℕ → α) (projection localExpert i : ℕ) (entries : List ℕ)
    (entry : ℕ) : accumulated t gradient₀ projection localExpert i (entries ++ [entry]) =
      accumulated t gradient₀ projection localExpert i entries + contribution t projection i entry := by
  rw [accumulated, foldl_append]
  rfl

end Elements

/-! ## What a helper leaves alone -/

/-- Nothing changes but a helper, its done tokens and the gradient. -/
structure OnlyHelper (blockIdx lane helperIndex : ℕ) (s s' : State α) : Prop where
  leader : s'.leader = s.leader
  item : s'.item = s.item
  flight : s'.flight = s.flight
  workspace : s'.workspace = s.workspace
  status : s'.status = s.status
  helper : ∀ b, b ≠ blockIdx → s'.helper b = s.helper b
  token : ∀ lane' offset, (lane' ≠ lane ∨ ∀ b < 2, offset ≠ bankDoneToken b helperIndex) →
    s'.token lane' offset = s.token lane' offset

section Helpers
variable {blockIdx helperIndex : ℕ}

theorem onlyHelper_go (h : Helper α) : OnlyHelper blockIdx lane helperIndex s (s.setHelper blockIdx h) :=
  ⟨rfl, rfl, rfl, rfl, rfl, fun _ hne => update_of_ne hne _ _, fun _ _ _ => rfl⟩

theorem onlyHelper_done (h : Helper α) {b : ℕ} (hb : b < 2) (value : ℕ) : OnlyHelper blockIdx lane helperIndex s
      ((s.storeToken lane (bankDoneToken b helperIndex) value).setHelper blockIdx h) := by
  refine ⟨rfl, rfl, rfl, rfl, rfl, fun _ hne => update_of_ne hne _ _, fun lane' offset hoff => ?_⟩
  show update s.token lane _ lane' offset = _
  rcases eq_or_ne lane' lane with rfl | hne
  · rw [update_self, update_of_ne]
    rcases hoff with hoff | hoff
    · exact absurd rfl hoff
    · exact hoff b hb
  · rw [update_of_ne hne]

theorem Owns.lane_eq (ho : Owns t blockIdx projection localExpert i)
    (hb : IsHelper t.layout blockIdx lane helperIndex) :
    ownerLane t.layout projection localExpert (chunkOf t i) = lane ∧
      tileOf t i % helperShape t.layout lane = helperIndex := by
  obtain ⟨rfl, h⟩ := ho.helper.unique hb
  exact ⟨rfl, h⟩

/-- A wave that hits an element of a helper reaches the tile of the element. -/
theorem Owns.tile_lt (hL : t.layout.Accepted) (ho : Owns t blockIdx projection localExpert i)
    (hb : IsHelper t.layout blockIdx lane helperIndex) :
    tileOf t i < divideRoundUp (chunkBytesOf t (projectionForLane t.layout lane) (chunkOf t i))
      kReduceGradKernelTileBytes := by
  rw [← (ho.lane_eq hb).1, projectionForLane_ownerLane hL ho.projection_lt]
  exact tileOf_lt hL ho.element

theorem contributed_skip (hL : t.layout.Accepted) (hb : IsHelper t.layout blockIdx lane helperIndex)
    (hw : (laneWaves t lane)[c]? = some w) (ho : Owns t blockIdx projection localExpert i)
    (hskip : divideRoundUp (chunkBytesOf t (projectionForLane t.layout lane) w.chunk)
      kReduceGradKernelTileBytes ≤ tileOf t i) : contributed t lane (c + 1) localExpert (chunkOf t i) =
      contributed t lane c localExpert (chunkOf t i) := by
  rw [contributed_succ hw, if_neg, append_nil]
  rintro ⟨-, hchunk⟩
  have := ho.tile_lt hL hb
  rw [← hchunk] at this
  omega

theorem tileBytes_work (w : Wave) (tile : ℕ) : (w.work t lane).tileBytes tile =
    min (chunkBytesOf t (projectionForLane t.layout lane) w.chunk - tile * kReduceGradKernelTileBytes)
      kReduceGradKernelTileBytes := rfl

theorem lt_tileElements (hL : t.layout.Accepted) (w : Wave) (tile j : ℕ) : j < (w.work t lane).tileBytes tile / 4 ↔
      4 * j < min (chunkBytesOf t (projectionForLane t.layout lane) w.chunk -
        tile * kReduceGradKernelTileBytes) kReduceGradKernelTileBytes := by
  rw [← tileBytes_work]
  exact Nat.lt_div_iff_mul_lt' (four_dvd_tileBytes (four_dvd_chunkBytesOf hL _ _) _) j

theorem processBankItem_eq (hL : t.layout.Accepted) (hlane : lane < t.layout.laneCount) {sequence : ℕ}
    (hw : w ∈ laneWaves t lane) :
    processBankItem t blockIdx helperIndex ((pendingWave t lane k sequence w).item t) s =
      s.setHelper blockIdx ⟨if (w.work t lane).tiles ≤ helperIndex then .done
        else .adding (w.work t lane) helperIndex 0 0 ((w.work t lane).loadTile t s helperIndex),
        (s.helper blockIdx).sequence⟩ := by
  have hvalid := valid_of_mem_laneWaves hL hlane hw
  have hproj := (projectionForLane_lt hL hlane).1
  have hchunk := (chunk_lt_iff hL).1 hvalid.chunk
  have hpos := hL.chunkPos
  have hbytes : 0 < chunkBytesOf t (projectionForLane t.layout lane) w.chunk ∧
      chunkBytesOf t (projectionForLane t.layout lane) w.chunk ≤ t.layout.chunkBytes := by
    rw [chunkBytesOf]
    omega
  have hcount : (w.contributors t).countP (fun c => decide (c / t.layout.prefetchSlots ≠ t.layout.rank)) =
      ((w.contributors t).filter t.isRemote).length := countP_eq_length_filter
  have hv₁ := hvalid.expert
  have hv₂ := hvalid.chunk
  have hv₃ := hvalid.count_pos
  have hv₄ := hvalid.count_le
  simp only [processBankItem, PendingWave.item, pendingWave, collectWaveContributors_eq t w]
  rw [if_neg (by omega), if_neg (by rw [hvalid.length]; exact not_not_intro rfl),
    if_neg (by rw [(issueWave_eq t _ _ _ w).2.1, hcount]; exact not_not_intro rfl)]
  rw [Wave.work]
  split <;> rfl

theorem applied_stored (hL : t.layout.Accepted) (hb : IsHelper t.layout blockIdx lane helperIndex)
    {next : ℕ → α} (hwork : AtWork t lane helperIndex c work tile w)
    (ho : Owns t blockIdx projection localExpert i) :
    contributed t lane (HelperPhase.applied (if tile + helperShape t.layout lane < work.tiles then
        .adding work (tile + helperShape t.layout lane) 0 0 next else .done) c (tileOf t i))
      localExpert (chunkOf t i) =
    contributed t lane (if tileOf t i ≤ tile then c + 1 else c) localExpert (chunkOf t i) := by
  have hindex := (ho.lane_eq hb).2
  have hmod := hwork.index
  have hpos := helperShape_pos hL lane
  -- the next tile of the helper is a whole round away
  have hnext : ¬ tileOf t i ≤ tile → tile + helperShape t.layout lane ≤ tileOf t i := by
    intro hlt
    have h₁ := div_add_mod (tileOf t i) (helperShape t.layout lane)
    have h₂ := div_add_mod tile (helperShape t.layout lane)
    rw [hindex] at h₁
    rw [hmod] at h₂
    have h₃ : tile / helperShape t.layout lane < tileOf t i / helperShape t.layout lane :=
      Nat.lt_of_mul_lt_mul_left (a := helperShape t.layout lane) (by omega)
    have h₄ := Nat.mul_le_mul_left (helperShape t.layout lane) (succ_le_of_lt h₃)
    rw [mul_succ] at h₄
    omega
  by_cases hle : tileOf t i ≤ tile
  · rw [if_pos hle]
    split
    · show contributed t lane (if tileOf t i < tile + helperShape t.layout lane then _ else _) _ _ = _
      rw [if_pos (by omega)]
    · rfl
  · rw [if_neg hle]
    split
    · show contributed t lane (if tileOf t i < tile + helperShape t.layout lane then _ else _) _ _ = _
      rw [if_neg (Nat.not_lt_of_le (hnext hle))]
    · next hlast =>
      refine contributed_skip hL hb hwork.wave ho (Nat.le_trans ?_ (hnext hle))
      have htiles : work.tiles = divideRoundUp (chunkBytesOf t (projectionForLane t.layout lane) w.chunk)
          kReduceGradKernelTileBytes := by rw [hwork.work_eq]; rfl
      omega

theorem token_done (sequence : ℕ) (b : ℕ) (h : Helper α) :
    ((s.storeToken lane (bankDoneToken b helperIndex) (laneToken t sequence)).setHelper blockIdx h).token
      lane (bankDoneToken b helperIndex) = laneToken t sequence := by
  show update s.token lane _ lane _ = _
  rw [update_self, update_self]

/-- Two counts of applied waves tell the same contributions of the elements of a helper. -/
def SameContributions (t : Task α) (blockIdx : ℕ) (f f' : ℕ → ℕ) : Prop :=
  ∀ projection localExpert i, Owns t blockIdx projection localExpert i →
    contributed t (ownerLane t.layout projection localExpert (chunkOf t i)) (f' (tileOf t i)) localExpert
      (chunkOf t i) =
    contributed t (ownerLane t.layout projection localExpert (chunkOf t i)) (f (tileOf t i)) localExpert
      (chunkOf t i)

variable [Add α] {token₀ : ℕ → ℕ → ℕ} {gradient₀ : ℕ → ℕ → α}

theorem GradInv.setHelper (h : GradInv t gradient₀ s) (hgradient : s'.gradient = s.gradient)
    (ho : ∀ b, b ≠ blockIdx → s'.helper b = s.helper b)
    (hmine : SameContributions t blockIdx ((s.helper blockIdx).phase.applied (s.served blockIdx))
      ((s'.helper blockIdx).phase.applied (s'.served blockIdx))) : GradInv t gradient₀ s' := by
  intro b projection localExpert i hown
  rw [hgradient, h b projection localExpert i hown]
  rcases eq_or_ne b blockIdx with rfl | hne
  · rw [hmine _ _ _ hown]
  · rw [State.served, State.served, ho b hne]

theorem HelperInv.bank (hi : HelperInv t token₀ gradient₀ s blockIdx lane helperIndex v) :
    bankOf (s.helper blockIdx).sequence = s.served blockIdx % 2 := by
  rw [hi.sequence, bankOf_succ]

/-- The accumulator of a tile that the wave has not reached yet. -/
theorem sums_loadTile (hL : t.layout.Accepted) (hb : IsHelper t.layout blockIdx lane helperIndex)
    (hgradient : GradInv t gradient₀ s) (hwork : AtWork t lane helperIndex c work tile w)
    (happ : (s.helper blockIdx).phase.applied (s.served blockIdx) tile = c) :
    Sums t gradient₀ lane c work tile w [] (work.loadTile t s tile) := by
  have hlane := hb.lane_lt hL
  have hvalid := valid_of_mem_laneWaves hL hlane (mem_of_getElem? hwork.wave)
  obtain ⟨hw, rfl, htile, hindex⟩ := hwork
  rw [Work.tiles, lt_divideRoundUp (by decide)] at htile
  intro i hi
  rw [lt_tileElements hL] at hi
  obtain ⟨hchunk, htileOf, hlt⟩ := tile_element hL htile hi
  have hown : Owns t blockIdx (projectionForLane t.layout lane) w.localExpert
      (tileStart t w.chunk tile + i) := by
    refine ⟨(projectionForLane_lt hL hlane).1, hvalid.expert, hlt, ?_⟩
    rw [hchunk, htileOf, hvalid.owner, hindex]
    exact hb
  have hval := hgradient _ _ _ _ hown
  rw [hchunk, htileOf, hvalid.owner, happ] at hval
  rw [Work.loadTile, copyGmToUb, outputAddress_tile hL, append_nil]
  exact hval

theorem input_eq (hL : t.layout.Accepted) (hv : LaneInv t token₀ gradient₀ s lane v)
    (hwork : AtWork t lane helperIndex c work tile w) (hknown : v.known ≤ c) (hc : c < v.published)
    (hj : (w.contributors t)[j]? = some entry) :
    (contributorTile t s lane (c % 2) work entry (((w.contributors t).take j).countP t.isRemote)
      (tile * kReduceGradKernelTileBytes)).2 = ((w.contributors t).take (j + 1)).countP t.isRemote ∧
    ∀ i < work.tileBytes tile / 4,
      (contributorTile t s lane (c % 2) work entry (((w.contributors t).take j).countP t.isRemote)
        (tile * kReduceGradKernelTileBytes)).1 i =
      contribution t work.projection (tileStart t w.chunk tile + i) entry := by
  obtain ⟨hw, rfl, htile, hindex⟩ := hwork
  have hstart := four_mul_tileStart hL w.chunk tile
  have hcount : ((w.contributors t).take (j + 1)).countP t.isRemote =
      ((w.contributors t).take j).countP t.isRemote + if t.isRemote entry then 1 else 0 := by
    rw [take_add_one, hj, countP_append]
    simp [countP_cons]
  rw [hcount, contributorTile]
  dsimp only [Wave.work]
  by_cases hloc : entry / t.layout.prefetchSlots = t.layout.rank
  · have hrem : t.isRemote entry = false := by simp [Task.isRemote, hloc]
    rw [if_pos hloc, hrem]
    refine ⟨rfl, fun i _ => ?_⟩
    show copyGmToUb _ _ i = _
    rw [copyGmToUb, contribution, hloc, Nat.mul_add, hstart]
    congr 1
    omega
  · have hrem : t.isRemote entry = true := by simp [Task.isRemote, hloc]
    rw [if_neg hloc, hrem]
    refine ⟨rfl, fun i hi => ?_⟩
    -- the entry is the next remote one, so its read is the one staged there
    have hget := getElem?_filter_countP hj hrem
    generalize ((w.contributors t).take j).countP t.isRemote = o at hget
    have hread : waveRead t lane (projectionForLane t.layout lane) (c % 2) w o entry ∈ readsAt t lane c := by
      rw [readsAt, hw]
      dsimp only
      rw [(issueWave_eq t _ _ _ w).2.2]
      obtain ⟨ho, rfl⟩ := List.getElem?_eq_some_iff.1 hget
      exact mem_iff_getElem.2 ⟨o, by simpa using ho, getElem_mapIdx⟩
    have hissued : c < v.issued := by
      have := (List.getElem?_eq_some_iff.1 hw).1
      rcases hv.phase.bounds.order with h | h <;> omega
    have hstaged : Staged t s (waveRead t lane (projectionForLane t.layout lane) (c % 2) w o entry) := by
      refine (hv.staged c hknown hissued _ hread).resolve_left fun hmem => ?_
      have := (hv.flights _ hmem).1
      dsimp only at this
      omega
    have hi' : i < (w.work t lane).tileBytes tile / 4 := hi
    rw [lt_tileElements hL] at hi'
    have hval := hstaged (tile * kReduceGradKernelTileBytes + 4 * i) (add_lt_of_lt_sub' (lt_min_iff.1 hi').1)
    dsimp only [waveRead] at hval
    show copyGmToUb _ _ i = _
    rw [copyGmToUb, contribution, Nat.mul_add, hstart, Nat.add_assoc (bankPayload _ _ _ + _)]
    refine hval.trans (congrArg _ ?_)
    omega

theorem helperStep_storing (hb : IsHelper t.layout blockIdx lane helperIndex) {accum next : ℕ → α}
    (hp : (s.helper blockIdx).phase = .storing (w.work t lane) tile accum next)
    (hstep : helperStep t blockIdx s = some s') :
    (s'.gradient = update s.gradient (projectionForLane t.layout lane)
      (copyUbToGm (s.gradient (projectionForLane t.layout lane)) (outputAddress t
      (projectionForLane t.layout lane) w.localExpert w.chunk + tile * kReduceGradKernelTileBytes) accum
      ((w.work t lane).tileBytes tile))) ∧
    (s'.stored = update s.stored (projectionForLane t.layout lane) fun x =>
      inCopy (outputAddress t (projectionForLane t.layout lane) w.localExpert w.chunk +
        tile * kReduceGradKernelTileBytes) ((w.work t lane).tileBytes tile) x ||
        s.stored (projectionForLane t.layout lane) x) ∧
    s'.helper blockIdx = ⟨if tile + helperShape t.layout lane < (w.work t lane).tiles then
      .adding (w.work t lane) (tile + helperShape t.layout lane) 0 0 next else .done,
      (s.helper blockIdx).sequence⟩ ∧
    s'.served blockIdx = s.served blockIdx ∧ s'.token = s.token ∧
    OnlyHelper blockIdx lane helperIndex s s' := by
  simp only [helperStep, hb.eq, hp, Option.some.injEq] at hstep
  subst hstep
  have hhelper := update_self blockIdx (⟨if tile + helperShape t.layout lane < (w.work t lane).tiles then
    .adding (w.work t lane) (tile + helperShape t.layout lane) 0 0 next else .done,
    (s.helper blockIdx).sequence⟩ : Helper α) s.helper
  exact ⟨rfl, rfl, hhelper, congrArg (fun h => h.sequence - 1) hhelper, rfl, rfl, rfl, rfl, rfl, rfl,
    fun _ hne => update_of_ne hne _ _, fun _ _ _ => rfl⟩

theorem gradient_stored (hL : t.layout.Accepted) (h : GradInv t gradient₀ s)
    (hb : IsHelper t.layout blockIdx lane helperIndex) {accum next : ℕ → α}
    (hp : (s.helper blockIdx).phase = .storing (w.work t lane) tile accum next)
    (hwork : AtWork t lane helperIndex (s.served blockIdx) (w.work t lane) tile w)
    (hsums : Sums t gradient₀ lane (s.served blockIdx) (w.work t lane) tile w (w.contributors t) accum)
    (hstep : helperStep t blockIdx s = some s') : GradInv t gradient₀ s' := by
  obtain ⟨hgradient, -, hhelper, hserved, -, honly⟩ := helperStep_storing hb hp hstep
  have hvalid := valid_of_mem_laneWaves hL (hb.lane_lt hL) (mem_of_getElem? hwork.wave)
  have htile : tile * kReduceGradKernelTileBytes <
      chunkBytesOf t (projectionForLane t.layout lane) w.chunk :=
    (lt_divideRoundUp (by decide)).1 hwork.tile_lt
  -- an element is in the copy just if the wave hits it in this tile
  intro b projection localExpert i ho
  have hcopy : projection = projectionForLane t.layout lane →
      (inCopy (outputAddress t (projectionForLane t.layout lane) w.localExpert w.chunk +
        tile * kReduceGradKernelTileBytes) ((w.work t lane).tileBytes tile)
        (elemAddress t (projectionForLane t.layout lane) localExpert i) ↔
      localExpert = w.localExpert ∧ chunkOf t i = w.chunk ∧ tileOf t i = tile) := by
    rintro rfl
    exact inCopy_tile hL htile ho.element
  have hold := h b projection localExpert i ho
  by_cases hb' : b = blockIdx
  · subst hb'
    obtain ⟨howner, htileIdx⟩ := ho.lane_eq hb
    obtain rfl : projection = projectionForLane t.layout lane := by
      rw [← howner, projectionForLane_ownerLane hL ho.projection_lt]
    rw [hgradient, update_self, hserved, hhelper, howner, applied_stored hL hb hwork ho, copyUbToGm]
    rw [howner, hp] at hold
    by_cases hin : localExpert = w.localExpert ∧ chunkOf t i = w.chunk ∧ tileOf t i = tile
    · rw [if_pos ((hcopy rfl).2 hin), if_pos (by omega)]
      obtain ⟨rfl, hchunk, rfl⟩ := hin
      obtain ⟨-, -, j, hj, hij⟩ := element_tile hL ho.element
      rw [hchunk] at hij hj ⊢
      have haddr := outputAddress_tile hL (projectionForLane t.layout lane) w.localExpert w.chunk
        (tileOf t i) j
      rw [← hij] at haddr
      rw [← haddr, Nat.add_sub_cancel_left, Nat.mul_div_cancel_left _ (by decide), hsums j,
        contributed_succ hwork.wave, if_pos ⟨rfl, rfl⟩, ← hij]
      · rfl
      · exact (lt_tileElements hL _ _ _).2 hj
    · rw [if_neg fun hc' => hin ((hcopy rfl).1 hc'), hold]
      show accumulated _ _ _ _ _ (contributed _ _ (if tileOf t i < tile then _ else _) _ _) = _
      rcases lt_trichotomy (tileOf t i) tile with hlt | heq | hgt
      · rw [if_pos hlt, if_pos hlt.le]
      · rw [if_neg (by omega), if_pos heq.le, contributed_succ hwork.wave, if_neg, append_nil]
        exact fun hhit => hin ⟨hhit.1.symm, hhit.2.symm, heq⟩
      · rw [if_neg (by omega), if_neg (by omega)]
  · rw [State.served, honly.helper b hb', ← State.served, ← hold, hgradient]
    by_cases hproj' : projection = projectionForLane t.layout lane
    · rw [hproj', update_self, copyUbToGm, if_neg]
      intro hc'
      obtain ⟨rfl, hchunk, htileOf⟩ := (hcopy hproj').1 hc'
      have howner := ho.helper
      rw [hproj', hchunk, htileOf, hvalid.owner, hwork.index] at howner
      exact hb' (howner.block_unique hL hb)
    · rw [update_of_ne hproj']

/-- The done words of a helper after it has stored another token. -/
theorem HelperInv.done_next (hL : t.layout.Accepted) (hb : IsHelper t.layout blockIdx lane helperIndex)
    (hi : HelperInv t token₀ gradient₀ s blockIdx lane helperIndex v)
    (hack : (s.helper blockIdx).phase.acknowledged (s.served blockIdx) = s.served blockIdx) (h : Helper α) (b : ℕ)
    (hb' : b < 2) : ((s.storeToken lane (bankDoneToken (s.served blockIdx % 2) helperIndex)
      (laneToken t (s.served blockIdx + 1))).setHelper blockIdx h).token lane (bankDoneToken b helperIndex) =
    shown (token₀ lane (bankDoneToken b helperIndex)) (fun k => laneToken t (k + 1)) b (s.served blockIdx + 1) := by
  rcases eq_or_ne b (s.served blockIdx % 2) with rfl | hne
  · rw [token_done, shown_of_lt (lt_succ_self _) (by omega)]
  · have hidx := hb.index_lt hL
    have hcount := helperShape_le hL lane
    have hold := hi.done b hb'
    rw [hack] at hold
    rw [shown_succ_of_ne hb' hne, ← hold]
    show update s.token lane _ lane _ = _
    rw [update_self, update_of_ne]
    exact fun heq => hne (bankDoneToken_inj (by omega) (by omega) heq).1

/-! ## The phases -/

section
variable (hL : t.layout.Accepted) (h : Inv t token₀ gradient₀ s)
  (hb : IsHelper t.layout blockIdx lane helperIndex) (hv : LaneInv t token₀ gradient₀ s lane v)
include hL h hb hv

theorem OnlyHelper.inv (ho : OnlyHelper blockIdx lane helperIndex s s')
    (hserved : s.served blockIdx ≤ s'.served blockIdx)
    (hinv : HelperInv t token₀ gradient₀ s' blockIdx lane helperIndex v)
    (hgradient : GradInv t gradient₀ s') (hstored : StoredInv t s') : Inv t token₀ gradient₀ s' := by
  have hcount := helperShape_le hL lane
  have hidx := hb.index_lt hL
  refine ⟨by rw [ho.status]; exact h.status, fun lane' hlane' => ?_, hgradient, hstored⟩
  rcases eq_or_ne lane' lane with rfl | hne
  · have hready : ∀ b < 2, s'.token lane' (bankReady b) = s.token lane' (bankReady b) := fun b hb' =>
      ho.token _ _ (.inr fun _ _ => bankReady_ne_done hb')
    have hserved' : ∀ b i, IsHelper t.layout b lane' i → s.served b ≤ s'.served b := by
      intro b i _
      rcases eq_or_ne b blockIdx with rfl | hne
      · exact hserved
      · rw [State.served, State.served, ho.helper b hne]
    refine ⟨v, hv.phase.mono (by rw [ho.leader]) (by rw [ho.item]) (by rw [ho.flight]; exact fun _ => id)
      hserved', by rw [ho.leader]; exact hv.locals, fun b hb' => by rw [hready b hb', hv.ready b hb'], ?_,
      by rw [ho.item]; exact hv.items, by rw [ho.flight]; exact hv.flights, ?_, fun b i hb' => ?_⟩
    · rw [ho.token _ _ (.inr fun b hb' => (bankDoneToken_ne_error hb' (by omega)).symm), hv.abort]
    · intro k hk hk' r hr
      rw [ho.flight]
      refine (hv.staged k hk hk' r hr).imp_right fun hst x hx => ?_
      rw [ho.workspace]
      exact hst x hx
    · rcases eq_or_ne b blockIdx with rfl | hne
      · obtain ⟨-, rfl⟩ := hb.unique hb'
        exact hinv
      · have hne' : i ≠ helperIndex := fun heq => hne (hb'.block_unique hL (heq ▸ hb))
        have hi := hb'.index_lt hL
        exact (hv.helpers _ _ hb').mono (ho.helper b hne) (fun c hc => ho.token _ _ (.inr fun c' hc' heq =>
          hne' (bankDoneToken_inj (by omega) (by omega) heq).2)) (hv.helpers _ _ hb').known (Nat.le_refl _)
          hv.phase.bounds.published
  · obtain ⟨v', hv'⟩ := h.lanes lane' hlane'
    refine ⟨v', hv'.frame (by rw [ho.leader]) (funext fun offset => ho.token _ _ (.inl hne))
      (by rw [ho.item]) (by rw [ho.flight]) (fun k r _ hst x hx => ?_) fun b i hb' => ho.helper b ?_⟩
    · rw [ho.workspace]; exact hst x hx
    · rintro rfl
      exact hne (hb'.unique hb).1

theorem helper_quiet (ho : OnlyHelper blockIdx lane helperIndex s s') (hgradient : s'.gradient = s.gradient)
    (hstored : s'.stored = s.stored) (hserved : s.served blockIdx ≤ s'.served blockIdx)
    (hinv : HelperInv t token₀ gradient₀ s' blockIdx lane helperIndex v)
    (hmine : SameContributions t blockIdx ((s.helper blockIdx).phase.applied (s.served blockIdx))
      ((s'.helper blockIdx).phase.applied (s'.served blockIdx))) : Inv t token₀ gradient₀ s' :=
  ho.inv hL h hb hv hserved hinv (h.gradient.setHelper hgradient ho.helper hmine)
    fun projection x hx => h.stored projection x (hstored ▸ hx)

theorem helper_go {phase : HelperPhase α} (hack : phase.acknowledged (s.served blockIdx) =
      (s.helper blockIdx).phase.acknowledged (s.served blockIdx))
    (hok : HelperOk t gradient₀ (s.setHelper blockIdx { s.helper blockIdx with phase := phase }) blockIdx
      lane helperIndex v)
    (hmine : SameContributions t blockIdx ((s.helper blockIdx).phase.applied (s.served blockIdx))
      (phase.applied (s.served blockIdx))) :
    Inv t token₀ gradient₀ (s.setHelper blockIdx { s.helper blockIdx with phase := phase }) := by
  have hi := hv.helpers _ _ hb
  have hself : (s.setHelper blockIdx { s.helper blockIdx with phase := phase }).helper blockIdx =
      { s.helper blockIdx with phase := phase } := update_self _ _ _
  have hserved : (s.setHelper blockIdx { s.helper blockIdx with phase := phase }).served blockIdx =
      s.served blockIdx := by rw [State.served, hself]; rfl
  refine helper_quiet hL h hb hv (onlyHelper_go _) rfl rfl hserved.ge ⟨?_, ?_, ?_, hok, fun b hb' => ?_⟩ ?_
  · rw [hself, hserved]; exact hi.sequence
  · rw [hserved]; exact hi.known
  · rw [hserved]; exact hi.served
  · rw [hself, hserved, hack]; exact hi.done b hb'
  · rw [hself, hserved]; exact hmine

variable (hstep : helperStep t blockIdx s = some s')
include hstep

theorem helper_waiting (hfresh : Fresh t token₀) (hn : (laneWaves t lane).length ≤ 2 ^ 32 - 2)
    (hp : (s.helper blockIdx).phase = .waiting) : Inv t token₀ gradient₀ s' := by
  have hi := hv.helpers _ _ hb
  have hok := hi.phase
  simp only [HelperOk, hp] at hok
  simp only [helperStep, hb.eq, hp, hi.bank] at hstep
  split at hstep
  · next htok =>
    obtain rfl := some.inj hstep
    rw [hv.ready _ (mod_lt _ (by decide)), hi.sequence] at htok
    have hlt : s.served blockIdx < v.published := by
      refine (lt_of_shown ?_ ?_ htok).1
      · exact hfresh.ne (by omega) _
      · intro j _ hj
        have := laneToken_inj hj
        omega
    refine helper_go hL h hb hv (by rw [hp]; rfl) ?_ fun _ _ _ _ => by rw [hp]; rfl
    simpa only [HelperOk, State.setHelper, State.served, update_self] using hlt
  · split at hstep
    · next hab =>
      rw [State.laneAborted, hv.abort] at hab
      exact absurd hab (hfresh.ne (by decide) _)
    · cases hstep

theorem helper_loading (hp : (s.helper blockIdx).phase = .loading) : Inv t token₀ gradient₀ s' := by
  have hi := hv.helpers _ _ hb
  have hlane := hb.lane_lt hL
  have hok := hi.phase
  simp only [HelperOk, hp] at hok
  have hidx := hb.index_lt hL
  simp only [helperStep, hb.eq, hp, hi.bank, hv.items _ hi.known hok] at hstep
  rcases Nat.lt_or_ge (s.served blockIdx) (laneWaves t lane).length with hlt | hge
  · obtain ⟨w, hw⟩ : ∃ w, (laneWaves t lane)[s.served blockIdx]? = some w :=
      ⟨_, List.getElem?_eq_getElem hlt⟩
    have hitem : itemAt t lane (s.served blockIdx) =
        (pendingWave t lane (s.served blockIdx) (s.served blockIdx + 1) w).item t := by
      rw [itemAt, hw]
    rw [hitem, if_neg (by rw [hi.sequence]; exact not_not_intro rfl),
      processBankItem_eq hL hlane (mem_of_getElem? hw)] at hstep
    obtain rfl := some.inj hstep
    split
    · next htiles =>
      refine helper_go hL h hb hv (by rw [hp]; rfl) ?_ fun _ _ i ho => ?_
      · simpa only [HelperOk, State.setHelper, State.served, update_self] using ⟨hok, hlt⟩
      · rw [hp, (ho.lane_eq hb).1]
        refine contributed_skip hL hb hw ho (Nat.le_trans htiles ?_)
        rw [← (ho.lane_eq hb).2]
        exact mod_le _ _
    · next htiles =>
      have hvalid := valid_of_mem_laneWaves hL hlane (mem_of_getElem? hw)
      have hwork : AtWork t lane helperIndex (s.served blockIdx) (w.work t lane) helperIndex w :=
        ⟨hw, rfl, Nat.lt_of_not_le htiles, mod_eq_of_lt hidx⟩
      refine helper_go hL h hb hv (by rw [hp]; rfl) ?_ fun _ _ i ho => ?_
      · simp only [HelperOk, State.setHelper, State.served, update_self]
        refine ⟨hok, w, hwork, ?_, rfl, sums_loadTile hL hb h.gradient hwork (by rw [hp]; rfl)⟩
        show 0 < (w.contributors t).length
        rw [hvalid.length]
        exact hvalid.count_pos
      · -- the tiles of the helper begin with its index
        have hle := mod_le (tileOf t i) (helperShape t.layout lane)
        rw [(ho.lane_eq hb).2] at hle
        show contributed t _ (if tileOf t i < helperIndex then _ else _) _ _ = _
        rw [if_neg (Nat.not_lt_of_le hle), hp]
        rfl
  · have hitem : itemAt t lane (s.served blockIdx) = terminalItem t (s.served blockIdx + 1) := by
      rw [itemAt, List.getElem?_eq_none hge]
    rw [hitem, if_neg (by rw [hi.sequence]; exact not_not_intro rfl)] at hstep
    obtain rfl := some.inj hstep
    refine helper_go hL h hb hv (by rw [hp]; rfl) ?_ fun _ _ _ _ => by rw [hp]; rfl
    have hbounds := hv.phase.bounds.published
    simp only [HelperOk, State.setHelper, State.served, update_self]
    rw [State.served] at hok hge
    omega

theorem helper_adding {remoteOrdinal : ℕ} {accum : ℕ → α}
    (hp : (s.helper blockIdx).phase = .adding work tile j remoteOrdinal accum) :
    Inv t token₀ gradient₀ s' := by
  have hi := hv.helpers _ _ hb
  have hok := hi.phase
  simp only [HelperOk, hp] at hok
  obtain ⟨hc, w, hwork, hj, rfl, hsums⟩ := hok
  obtain ⟨entry, hentry⟩ : ∃ entry, work.contributors[j]? = some entry := ⟨_, List.getElem?_eq_getElem hj⟩
  have hcontributors : work.contributors = w.contributors t := by rw [hwork.work_eq]; rfl
  simp only [helperStep, hb.eq, hp, hi.bank, hentry, map_some, Option.some.injEq] at hstep
  rw [hcontributors] at hentry hj hstep
  obtain ⟨hord, hinput⟩ := input_eq hL hv hwork hi.known hc hentry
  -- the sum of the tile after this contribution
  have hsums' : Sums t gradient₀ lane (s.served blockIdx) work tile w ((w.contributors t).take (j + 1))
      fun i => if i < work.tileBytes tile / 4 then
        accum i + (contributorTile t s lane (s.served blockIdx % 2) work entry
          (((w.contributors t).take j).countP t.isRemote) (tile * kReduceGradKernelTileBytes)).1 i
        else accum i := by
    intro i hi'
    dsimp only
    rw [if_pos hi', hsums i hi', hinput i hi', take_add_one, hentry, toList_some, ← append_assoc, accumulated_append]
  split at hstep
  · next hmore =>
    subst hstep
    refine helper_go hL h hb hv (by rw [hp]; rfl) ?_ fun _ _ i _ => by rw [hp]; rfl
    simp only [HelperOk, State.setHelper, State.served, update_self]
    exact ⟨hc, w, hwork, by rw [hcontributors]; exact hmore, hord, hsums'⟩
  · next hlast =>
    subst hstep
    refine helper_go hL h hb hv (by rw [hp]; rfl) ?_ fun _ _ i _ => by rw [hp]; rfl
    simp only [HelperOk, State.setHelper, State.served, update_self]
    rw [take_of_length_le (by omega)] at hsums'
    refine ⟨hc, w, hwork, hsums', fun hnext => ?_⟩
    refine sums_loadTile hL hb h.gradient ⟨hwork.wave, hwork.work_eq, hnext, ?_⟩ ?_
    · rw [add_mod_right, hwork.index]
    · rw [hp]
      exact if_neg (by omega)

theorem helper_storing {accum next : ℕ → α} (hp : (s.helper blockIdx).phase = .storing work tile accum next) :
    Inv t token₀ gradient₀ s' := by
  have hi := hv.helpers _ _ hb
  have hlane := hb.lane_lt hL
  have hok := hi.phase
  simp only [HelperOk, hp] at hok
  obtain ⟨hc, w, hwork, hsums, hnext⟩ := hok
  have hvalid := valid_of_mem_laneWaves hL hlane (mem_of_getElem? hwork.wave)
  have hproj := (projectionForLane_lt hL hlane).1
  obtain ⟨hw, rfl, htile, hindex⟩ := hwork
  have hwork : AtWork t lane helperIndex (s.served blockIdx) (w.work t lane) tile w :=
    ⟨hw, rfl, htile, hindex⟩
  have htile' : tile * kReduceGradKernelTileBytes <
      chunkBytesOf t (projectionForLane t.layout lane) w.chunk := (lt_divideRoundUp (by decide)).1 htile
  have hfour : 4 ∣ (w.work t lane).tileBytes tile := four_dvd_tileBytes (four_dvd_chunkBytesOf hL _ _) _
  have helem : ∀ j, j < (w.work t lane).tileBytes tile / 4 →
      chunkOf t (tileStart t w.chunk tile + j) = w.chunk ∧ tileOf t (tileStart t w.chunk tile + j) = tile ∧
        tileStart t w.chunk tile + j < t.layout.rowElements (projectionForLane t.layout lane) := by
    intro j hj
    exact tile_element hL htile' ((lt_tileElements hL _ _ _).1 hj)
  obtain ⟨-, hstored, hhelper, hserved, htoken, honly⟩ := helperStep_storing hb hp hstep
  refine honly.inv hL h hb hv hserved.ge ⟨?_, ?_, ?_, ?_, ?_⟩ ?_ ?_
  · rw [hhelper, hserved]; exact hi.sequence
  · rw [hserved]; exact hi.known
  · rw [hserved]; exact hi.served
  · simp only [HelperOk, hhelper, hserved]
    by_cases hmore : tile + helperShape t.layout lane < (w.work t lane).tiles
    · rw [if_pos hmore]
      refine ⟨hc, w, ⟨hw, rfl, hmore, by rw [add_mod_right, hindex]⟩, ?_, rfl, hnext hmore⟩
      show 0 < (w.contributors t).length
      rw [hvalid.length]
      exact hvalid.count_pos
    · rw [if_neg hmore]
      exact ⟨hc, (List.getElem?_eq_some_iff.1 hw).1⟩
  · intro b hb'
    rw [htoken, hi.done b hb', hserved, hhelper, hp]
    congr 1
    dsimp only
    split <;> rfl
  · exact gradient_stored hL h.gradient hb hp hwork hsums hstep
  · -- only the elements of the tile are written
    intro projection x hx
    rw [hstored] at hx
    rcases eq_or_ne projection (projectionForLane t.layout lane) with rfl | hne
    · rw [update_self, Bool.or_eq_true] at hx
      rcases hx with hx | hx
      · obtain ⟨j, hj, rfl⟩ := (inCopy_iff hL hfour).1 hx
        exact ⟨hproj, w.localExpert, hvalid.expert, _, (helem j hj).2.2, rfl⟩
      · exact h.stored _ x hx
    · rw [update_of_ne hne] at hx
      exact h.stored _ x hx

theorem helper_done (hn : (laneWaves t lane).length ≤ 2 ^ 32 - 2) (hp : (s.helper blockIdx).phase = .done) :
    Inv t token₀ gradient₀ s' := by
  have hi := hv.helpers _ _ hb
  have hok := hi.phase
  simp only [HelperOk, hp] at hok
  simp only [helperStep, hb.eq, hp, hi.bank, Option.some.injEq] at hstep
  rw [hi.sequence, mod_eq_of_lt (show s.served blockIdx + 1 + 1 < 2 ^ 32 by omega)] at hstep
  have hhelper : s'.helper blockIdx = ⟨.waiting, s.served blockIdx + 1 + 1⟩ := by
    rw [← hstep]; exact update_self _ _ _
  have hserved : s'.served blockIdx = s.served blockIdx + 1 := by rw [State.served, hhelper]; rfl
  have hknown := hi.known
  refine helper_quiet hL h hb hv (by rw [← hstep]; exact onlyHelper_done _ (mod_lt _ (by decide)) _)
    (by rw [← hstep]; rfl) (by rw [← hstep]; rfl) (by omega)
    ⟨by rw [hhelper, hserved], by omega, by omega, ?_, fun b hb' => ?_⟩ fun _ _ _ _ => ?_
  · simp only [HelperOk, hhelper, hserved]
    omega
  · rw [hhelper, hserved, ← hstep]
    exact hi.done_next hL hb (by rw [hp]; rfl) _ b hb'
  · rw [hhelper, hserved, hp]
    rfl

theorem helper_last (hp : (s.helper blockIdx).phase = .last) : Inv t token₀ gradient₀ s' := by
  have hi := hv.helpers _ _ hb
  have hok := hi.phase
  simp only [HelperOk, hp] at hok
  simp only [helperStep, hb.eq, hp, hi.bank, Option.some.injEq] at hstep
  rw [hi.sequence] at hstep
  have hhelper : s'.helper blockIdx = ⟨.finished, s.served blockIdx + 1⟩ := by
    rw [← hstep]; exact update_self _ _ _
  have hserved : s'.served blockIdx = s.served blockIdx := by rw [State.served, hhelper]; rfl
  refine helper_quiet hL h hb hv (by rw [← hstep]; exact onlyHelper_done _ (mod_lt _ (by decide)) _)
    (by rw [← hstep]; rfl) (by rw [← hstep]; rfl) hserved.ge
    ⟨by rw [hhelper, hserved], hserved ▸ hi.known, hserved ▸ hi.served, ?_, fun b hb' => ?_⟩ fun _ _ _ _ => ?_
  · simp only [HelperOk, hhelper, hserved]
    exact hok
  · rw [hhelper, hserved, ← hstep]
    exact hi.done_next hL hb (by rw [hp]; rfl) _ b hb'
  · rw [hhelper, hserved, hp]
    rfl

end

theorem helperStep_inv (hL : t.layout.Accepted) (hfresh : Fresh t token₀)
    (hn : ∀ lane < t.layout.laneCount, (laneWaves t lane).length ≤ 2 ^ 32 - 2)
    (h : Inv t token₀ gradient₀ s) (hb : IsHelper t.layout blockIdx lane helperIndex)
    (hstep : helperStep t blockIdx s = some s') : Inv t token₀ gradient₀ s' := by
  have hlane := hb.lane_lt hL
  obtain ⟨v, hv⟩ := h.lanes lane hlane
  rcases hp : (s.helper blockIdx).phase with _ | _ | ⟨work, tile, j, remoteOrdinal, accum⟩ |
    ⟨work, tile, accum, next⟩ | _ | _ | _
  · exact helper_waiting hL h hb hv hstep hfresh (hn lane hlane) hp
  · exact helper_loading hL h hb hv hstep hp
  · exact helper_adding hL h hb hv hstep hp
  · exact helper_storing hL h hb hv hstep hp
  · exact helper_done hL h hb hv hstep (hn lane hlane) hp
  · exact helper_last hL h hb hv hstep hp
  · simp only [helperStep, hp, reduceCtorEq] at hstep

end Helpers

end TileXR.ReduceGrad
