import TileXR.MoonEpV1.Routes

/-!
# What the routes write

The windows of all ranks while they take their routes: `Scattered` says what stands in the window of a rank
when each rank has taken the first so many of its routes. A route writes to its own slot only, and slots of
different routes are different, so that the order in which the ranks go on does not matter.
-/

namespace TileXR.MoonEpV1
open Option
open Function (update update_self update_of_ne)
open Lib
variable {done' : ℕ → ℕ} {b : ℕ}

section Window
variable (t : DispatchTask) (rank chunk route x : ℕ)

/-- The row of a route to slot `x`. -/
def writeRow (w : Bytes) : Bytes :=
  if 0 ≤ t.dst rank route then
    w.copy (x * t.layout.hiddenChunkStride) (t.hiddenSh rank)
      (route / t.layout.k * t.layout.hiddenRowBytes + chunk * t.layout.hiddenChunkBytes)
      (t.layout.bytesOf chunk)
  else w

def writeWeight (w : Bytes) : Bytes :=
  if chunk = 0 ∧ 0 < t.layout.routeWeightsBytes then
    w.copy (t.layout.routeWeightsOffset + x * 4) (t.routeWeightsSk rank) (route * 4) 4
  else w

/-- The primary of slot `x`, if it is a duplicate. -/
def writeParent (primary : Option ℕ) (w : Bytes) : Bytes :=
  if chunk = 0 then primary.elim w fun p => w.storeInt (t.layout.dedupParentsOffset + x * 4) (p + 1) else w

variable {t rank chunk route x} {primary : Option ℕ} {w : Bytes} {a : ℕ}

theorem writeRow_frame (h : a < x * t.layout.hiddenChunkStride ∨
    x * t.layout.hiddenChunkStride + t.layout.bytesOf chunk ≤ a) : writeRow t rank chunk route x w a = w a := by
  unfold writeRow
  split
  · exact if_neg (by omega)
  · rfl

theorem writeRow_self (hb : b < t.layout.bytesOf chunk) (h : 0 ≤ t.dst rank route) :
    writeRow t rank chunk route x w (x * t.layout.hiddenChunkStride + b) = t.hiddenSh rank
      (route / t.layout.k * t.layout.hiddenRowBytes + chunk * t.layout.hiddenChunkBytes + b) := by
  rw [writeRow, if_pos h, Cells.copy, if_pos (by omega), Nat.add_sub_cancel_left]

theorem writeWeight_frame
    (h : a < t.layout.routeWeightsOffset + x * 4 ∨ t.layout.routeWeightsOffset + x * 4 + 4 ≤ a) :
    writeWeight t rank chunk route x w a = w a := by
  unfold writeWeight
  split
  · exact if_neg (by omega)
  · rfl

theorem writeWeight_self (hb : b < 4) (hchunk : chunk = 0) (h : 0 < t.layout.routeWeightsBytes) :
    writeWeight t rank chunk route x w (t.layout.routeWeightsOffset + x * 4 + b) =
      t.routeWeightsSk rank (route * 4 + b) := by
  rw [writeWeight, if_pos ⟨hchunk, h⟩, Cells.copy, if_pos (by omega), Nat.add_sub_cancel_left]

theorem writeParent_none : writeParent t chunk x none w = w := by
  unfold writeParent
  split <;> rfl

theorem writeParent_frame
    (h : a < t.layout.dedupParentsOffset + x * 4 ∨ t.layout.dedupParentsOffset + x * 4 + 4 ≤ a) :
    writeParent t chunk x primary w a = w a := by
  unfold writeParent
  split
  · cases primary with
    | none => rfl
    | some p => exact if_neg (by omega)
  · rfl

theorem writeParent_self (hchunk : chunk = 0) (hsmall : ∀ p, primary = some p → p + 1 < 2 ^ 31)
    (h0 : w.loadInt (t.layout.dedupParentsOffset + x * 4) = 0) :
    (writeParent t chunk x primary w).loadInt (t.layout.dedupParentsOffset + x * 4) =
      primary.elim 0 fun p => p + 1 := by
  rw [writeParent, if_pos hchunk]
  cases primary with
  | none => exact h0
  | some p =>
    have hp := hsmall p rfl
    exact Bytes.loadInt_storeInt (by omega) (by omega)

end Window

/-- What a route to slot `x` makes of the window of its rank. -/
def routeWindow (t : DispatchTask) (rank chunk route x : ℕ) (primary : Option ℕ) (w : Bytes) : Bytes :=
  writeParent t chunk x primary (writeWeight t rank chunk route x (writeRow t rank chunk route x w))

theorem scatterRoute_eq {t : DispatchTask} {rank route d x : ℕ} (chunk : ℕ) (m : DispatchMem)
    (hdedup : buildDedup t.layout.flags) (h : t.routes.Proper) (hx : x < t.layout.nvS) (hd : d < t.rankSize)
    (hroute : t.routes.routeTo d x = some (rank, route)) :
    scatterRoute t rank chunk route m = ({ m with
      window := update m.window d
        (routeWindow t rank chunk route x (t.routes.primaryOf d x) (m.window d)) }, true) := by
  obtain ⟨-, -, hraw⟩ := (Routes.routeTo_eq_some h).1 hroute
  have hdecode : decodeRoute t.layout t.rankSize (t.dst rank route) = some (d, x) :=
    Routes.decodeRoute_eq hd hx hraw
  simp only [scatterRoute, hdecode, copyBytesGmToGm_const]
  by_cases hneg : t.dst rank route < 0
  · obtain ⟨p, hp⟩ := Routes.primaryOf_of_neg h hx hroute hneg
    have hlt : p < t.layout.nvS := (Routes.primaryOf_eq_some h hp).1
    rw [hp, findPrimaryOffset_eq h hroute hp, routeWindow, writeParent]
    by_cases hchunk : chunk = 0
    · rw [if_pos ⟨hchunk, hdedup, hneg⟩, if_neg (by omega), if_pos hchunk]
      rfl
    · rw [if_neg fun h => hchunk h.1, if_neg hchunk]
      rfl
  · have hnone := Routes.primaryOf_of_nonneg hroute (Int.not_lt.1 hneg)
    rw [hnone, if_neg fun h => hneg h.2.2, routeWindow, writeParent_none]
    rfl

/-- The route to a slot, if its rank has taken it. -/
def takenTo (t : DispatchTask) (done : ℕ → ℕ) (d x : ℕ) : Option (ℕ × ℕ) :=
  (t.routes.routeTo d x).filter fun route => route.2 < done route.1

/-- The window of rank `d` when each rank has taken the first routes. -/
structure Scattered (t : DispatchTask) (chunk : ℕ) (done : ℕ → ℕ) (d : ℕ) (w : Bytes) : Prop where
  row : ∀ x < t.layout.nvS, ∀ b < t.layout.bytesOf chunk, w (x * t.layout.hiddenChunkStride + b) =
    ((takenTo t done d x).filter fun route => 0 ≤ t.dst route.1 route.2).elim 0 fun route =>
      t.hiddenSh route.1
        (route.2 / t.layout.k * t.layout.hiddenRowBytes + chunk * t.layout.hiddenChunkBytes + b)
  weight : chunk = 0 → 0 < t.layout.routeWeightsBytes → ∀ x < t.layout.nvS, ∀ b < 4,
    w (t.layout.routeWeightsOffset + x * 4 + b) =
      (takenTo t done d x).elim 0 fun route => t.routeWeightsSk route.1 (route.2 * 4 + b)
  parent : chunk = 0 → ∀ x < t.layout.nvS, w.loadInt (t.layout.dedupParentsOffset + x * 4) =
    if (takenTo t done d x).isSome then (t.routes.primaryOf d x).elim 0 fun p => p + 1 else 0
  groupMap : chunk = 0 → ∀ x < t.layout.nvS, w.loadInt (t.layout.dedupGroupMapOffset + x * 4) = 0

section Taken
variable {t : DispatchTask} {done : ℕ → ℕ} {rank d x : ℕ}

theorem takenTo_none (h : t.routes.routeTo d x = some (rank, done rank)) : takenTo t done d x = none := by
  rw [takenTo, h, filter_some, if_neg (by simp)]

theorem takenTo_self (h : t.routes.routeTo d x = some (rank, done rank)) :
    takenTo t (update done rank (done rank + 1)) d x = some (rank, done rank) := by
  rw [takenTo, h, filter_some, if_pos (by simp)]

theorem takenTo_other (h : t.routes.routeTo d x ≠ some (rank, done rank)) :
    takenTo t (update done rank (done rank + 1)) d x = takenTo t done d x := by
  rcases hroute : t.routes.routeTo d x with _ | ⟨r, i⟩
  · rw [takenTo, takenTo, hroute]
    rfl
  · rw [takenTo, takenTo, hroute, filter_some, filter_some]
    by_cases hr : r = rank
    · subst hr
      have hne : i ≠ done r := by
        rintro rfl
        exact h hroute
      have hiff : i < done r + 1 ↔ i < done r := by omega
      simp only [update_self, hiff]
    · simp only [update_of_ne hr]

theorem takenTo_congr (hR : t.routes.Proper) (h : ∀ r < t.rankSize, done r = done' r)
    (d x : ℕ) : takenTo t done d x = takenTo t done' d x := by
  rcases hroute : t.routes.routeTo d x with _ | ⟨r, i⟩
  · rw [takenTo, takenTo, hroute]
    rfl
  · have hr : r < t.rankSize := ((Routes.routeTo_eq_some hR).1 hroute).1
    rw [takenTo, takenTo, hroute, filter_some, filter_some, h r hr]

end Taken

section Step
variable {t : DispatchTask} {world rank chunk d x : ℕ} {done : ℕ → ℕ} {w : Bytes}

/-- What the proofs use of the places of the regions when duplicates are found. -/
theorem DispatchLayout.Accepted.regions {L : DispatchLayout} (hL : L.Accepted world)
    (hdedup : buildDedup L.flags) : L.nvS * L.hiddenChunkStride ≤ L.routeWeightsOffset ∧
      (0 < L.routeWeightsBytes → L.routeWeightsOffset + L.nvS * 4 ≤ L.dedupParentsOffset) ∧
      L.routeWeightsOffset ≤ L.dedupParentsOffset ∧
      L.dedupParentsOffset + L.nvS * 4 ≤ L.dedupGroupMapOffset ∧ L.nvS < 2 ^ 31 := by
  have h1 := hL.weights_ge
  have h2 := hL.parents_ge
  have h3 := hL.groupMap_ge
  have h4 := hL.window_le
  rw [hL.payload_eq] at h1
  rw [hL.groupMap_eq, hL.parents_eq, if_pos hdedup] at h4
  rw [hL.parents_eq, if_pos hdedup] at h3
  have h5 : L.dedupGroupMapOffset + L.nvS * 4 ≤ 2 ^ 31 := h4.trans (by decide)
  refine ⟨h1, fun hpos => ?_, by omega, h3, by omega⟩
  rcases hL.weights_eq with h | h <;> omega

theorem Scattered.other (h : Scattered t chunk done d w)
    (hne : ∀ y < t.layout.nvS, t.routes.routeTo d y ≠ some (rank, done rank)) :
    Scattered t chunk (update done rank (done rank + 1)) d w where
  row y hy b hb := by rw [takenTo_other (hne y hy)]; exact h.row y hy b hb
  weight h0 hpos y hy b hb := by rw [takenTo_other (hne y hy)]; exact h.weight h0 hpos y hy b hb
  parent h0 y hy := by rw [takenTo_other (hne y hy)]; exact h.parent h0 y hy
  groupMap := h.groupMap

theorem Scattered.congr (hR : t.routes.Proper) (hdone : ∀ r < t.rankSize, done r = done' r)
    (h : Scattered t chunk done d w) : Scattered t chunk done' d w where
  row x hx b hb := by rw [← takenTo_congr hR hdone]; exact h.row x hx b hb
  weight h0 hpos x hx b hb := by rw [← takenTo_congr hR hdone]; exact h.weight h0 hpos x hx b hb
  parent h0 x hx := by rw [← takenTo_congr hR hdone]; exact h.parent h0 x hx
  groupMap := h.groupMap

theorem Scattered.route (hL : t.layout.Accepted world) (hdedup : buildDedup t.layout.flags)
    (hR : t.routes.Proper) (h : Scattered t chunk done d w) (hx : x < t.layout.nvS)
    (hroute : t.routes.routeTo d x = some (rank, done rank)) :
    Scattered t chunk (update done rank (done rank + 1)) d
      (routeWindow t rank chunk (done rank) x (t.routes.primaryOf d x) w) := by
  obtain ⟨h1, h2, h3, h4, h5⟩ := hL.regions hdedup
  have hbytes := bytesOf_le chunk hL.chunk_le
  have hxend := row_le t.layout.hiddenChunkStride hx
  have hother : ∀ y, y ≠ x → t.routes.routeTo d y ≠ some (rank, done rank) := by
    intro y hy heq
    have hy' := ((Routes.routeTo_eq_some hR).1 heq).2.2
    have hx' := ((Routes.routeTo_eq_some hR).1 hroute).2.2
    omega
  refine ⟨fun y hy b hb => ?_, fun h0 hpos y hy b hb => ?_, fun h0 y hy => ?_, fun h0 y hy => ?_⟩
  · have hyend := row_le t.layout.hiddenChunkStride hy
    rw [routeWindow, writeParent_frame (by omega), writeWeight_frame (by omega)]
    by_cases hyx : y = x
    · subst hyx
      rw [takenTo_self hroute, filter_some]
      by_cases henc : 0 ≤ t.dst rank (done rank)
      · rw [writeRow_self hb henc, if_pos (by simpa using henc)]
        rfl
      · rw [writeRow, if_neg henc, h.row y hy b hb, takenTo_none hroute, if_neg (by simpa using henc)]
        rfl
    · have hapart := row_apart t.layout.hiddenChunkStride hyx
      rw [takenTo_other (hother y hyx), writeRow_frame (by omega)]
      exact h.row y hy b hb
  · have hwend := h2 hpos
    rw [routeWindow, writeParent_frame (by omega)]
    by_cases hyx : y = x
    · subst hyx
      rw [takenTo_self hroute, writeWeight_self hb h0 hpos]
      rfl
    · rw [takenTo_other (hother y hyx), writeWeight_frame (by omega), writeRow_frame (by omega)]
      exact h.weight h0 hpos y hy b hb
  · have hframe : ∀ y' < t.layout.nvS,
        (writeWeight t rank chunk (done rank) x (writeRow t rank chunk (done rank) x w)).loadInt
          (t.layout.dedupParentsOffset + y' * 4) = w.loadInt (t.layout.dedupParentsOffset + y' * 4) := by
      intro y' hy'
      refine Bytes.loadInt_congr fun i hi => ?_
      by_cases hpos : 0 < t.layout.routeWeightsBytes
      · have hwend := h2 hpos
        rw [writeWeight_frame (by omega), writeRow_frame (by omega)]
      · rw [writeWeight, if_neg fun h => hpos h.2, writeRow_frame (by omega)]
    by_cases hyx : y = x
    · subst hyx
      rw [takenTo_self hroute, isSome_some, if_pos rfl, routeWindow]
      refine writeParent_self h0 (fun p hp => ?_) ?_
      · have hlt : p < t.layout.nvS := (Routes.primaryOf_eq_some hR hp).1
        omega
      · rw [hframe y hy, h.parent h0 y hy, takenTo_none hroute]
        rfl
    · rw [takenTo_other (hother y hyx), ← h.parent h0 y hy, ← hframe y hy]
      exact Bytes.loadInt_congr fun i hi => writeParent_frame (by omega)
  · rw [← h.groupMap h0 y hy]
    refine Bytes.loadInt_congr fun i hi => ?_
    rw [routeWindow, writeParent_frame (by omega)]
    by_cases hpos : 0 < t.layout.routeWeightsBytes
    · have hwend := h2 hpos
      rw [writeWeight_frame (by omega), writeRow_frame (by omega)]
    · rw [writeWeight, if_neg fun h => hpos h.2, writeRow_frame (by omega)]

end Step

end TileXR.MoonEpV1
