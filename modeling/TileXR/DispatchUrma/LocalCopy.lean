import TileXR.DispatchUrma.Builders
import TileXR.DispatchUrma.Schedule
import TileXR.Lib.Deal
import TileXR.Lib.Word

/-!
# The local copies of the URMA dispatch

`DispatchContiguousRange` of `dispatch_schedule.h` cuts a number of items into even parts. The local copy
path of the kernel with vector selection takes the routes chunk by chunk: every core selects the routes of
the chunk that stay on the rank, by a comparison of shifted destinations, and copies its part of them.
-/

namespace TileXR.DispatchUrma
open Lib List
variable {core itemCount partCount routeId : ℕ}

/-- `DispatchContiguousRange`: where a part starts and where it ends. -/
def dispatchContiguousRange (itemCount partCount part : ℕ) : Word × Word :=
  if partCount = 0 ∨ part ≥ partCount then (.exact 0, .exact 0)
  else
    let itemsPerPart := itemCount / partCount
    let extraItems := itemCount % partCount
    let prefixExtra := if part < extraItems then part else extraItems
    let start := Word.exact part * .exact itemsPerPart + .exact prefixExtra
    (start, start + .exact itemsPerPart + .exact (if part < extraItems then 1 else 0))

def kVectorCompareMinElements : ℕ := 64

def dispatchRouteSelectChunkElements (routeCount topK : ℕ) : ℕ :=
  if routeCount < kVectorCompareMinElements ∨ topK = 0 then 0
  else
    let chunkElements := if routeCount < kRouteSelectChunkElements then routeCount else kRouteSelectChunkElements
    let chunkElements := chunkElements - chunkElements % topK
    if chunkElements < kVectorCompareMinElements ∨ chunkElements > 2 ^ 15 then 0 else chunkElements

def dispatchDecodeDestination (encoded : BitVec 32) (capacity world : ℤ) : Option (ℤ × ℤ) :=
  if capacity ≤ 0 ∨ world ≤ 0 then none
  else if encoded.toInt < 0 then none
  else
    let raw := encoded.toInt
    if raw / capacity ≥ world then none else some (raw / capacity, raw % capacity)

/-- The bits that `destinationCapacity` is shifted out by. -/
def routeShift (value : ℕ) : ℕ := if value > 1 then routeShift (value >>> 1) + 1 else 0
termination_by value
decreasing_by rw [Nat.shiftRight_eq_div_pow]; omega

/-- `SelectDispatchPeerRoutes`: the indices of the routes that go to a peer. -/
def selectDispatchPeerRoutes (routeRank : ℕ → BitVec 32) (peer : BitVec 32) (routeCount : ℕ) :
    List (BitVec 16) :=
  ((List.range routeCount).filter fun i => routeRank i = peer).map (BitVec.ofNat 16)

/-- What the kernel is launched with on a rank. -/
structure LocalDispatch where
  dst : ℕ → BitVec 32
  k : ℕ
  routeCount : ℕ
  destinationCapacity : ℕ
  rank : ℕ
  rankSize : ℕ
  blockNum : ℕ

/-- What a core counts, the first route it holds for invalid, and the routes it copies with their slots. -/
structure LocalCopies where
  scannedRouteCount : ℕ
  matchedRouteCount : ℕ
  selectedRouteCount : ℕ
  processedRouteCount : ℕ
  firstInvalid : Option (ℕ × BitVec 32)
  copies : List (ℕ × ℕ)

def LocalCopies.recordInvalidRoute (s : LocalCopies) (routeId : ℕ) (rawDst : BitVec 32) : LocalCopies :=
  { s with firstInvalid := s.firstInvalid.or (some (routeId, rawDst)) }

namespace LocalDispatch
variable (c : LocalDispatch)

def chunkSize : ℕ := dispatchRouteSelectChunkElements c.routeCount c.k

def decodeSendDst (encoded : BitVec 32) : Option (ℕ × ℕ) :=
  (dispatchDecodeDestination encoded c.destinationCapacity c.rankSize).map fun p => (p.1.toNat, p.2.toNat)

def chunkElements (chunkStart : ℕ) : ℕ :=
  let chunkRemaining := c.routeCount - chunkStart
  if chunkRemaining < c.chunkSize then chunkRemaining else c.chunkSize

/-- `LoadDispatchRouteChunk`; a single chunk is loaded once, before the loop over the chunks. -/
def routePlan (chunkStart i : ℕ) : BitVec 32 :=
  c.dst ((if c.routeCount ≤ c.chunkSize then 0 else chunkStart) + i)

def selected (chunkStart : ℕ) : List (BitVec 16) :=
  selectDispatchPeerRoutes
    (fun i => (c.routePlan chunkStart i).sshiftRight (routeShift c.destinationCapacity))
    (BitVec.ofNat 32 c.rank) (c.chunkElements chunkStart)

/-- The round of the loop over the selected routes of a chunk. -/
def copyRoute (chunkStart : ℕ) (s : LocalCopies) (selected : BitVec 16) : LocalCopies :=
  let routeInChunk := selected.toNat
  let routeId := chunkStart + routeInChunk
  let rawDst := c.routePlan chunkStart routeInChunk
  if routeInChunk ≥ c.chunkElements chunkStart then s.recordInvalidRoute routeId 0
  else
    match c.decodeSendDst rawDst with
    | some (targetRank, targetSlot) =>
      if targetRank ≠ c.rank then s.recordInvalidRoute routeId rawDst
      else { s with
        processedRouteCount := s.processedRouteCount + 1
        copies := s.copies ++ [(routeId, targetSlot)] }
    | none => s.recordInvalidRoute routeId rawDst

/-- The round of the loop over the chunks. -/
def copyChunk (core : ℕ) (s : LocalCopies) (chunkStart : ℕ) : LocalCopies :=
  let range := dispatchContiguousRange (c.selected chunkStart).length c.blockNum core
  let localCount := range.2.value - range.1.value
  (((c.selected chunkStart).drop range.1.value).take localCount).foldl (c.copyRoute chunkStart)
    { s with
      scannedRouteCount := s.scannedRouteCount + c.chunkElements chunkStart
      matchedRouteCount := s.matchedRouteCount + localCount
      selectedRouteCount := s.selectedRouteCount + localCount }

def chunkStarts : List ℕ := strided c.routeCount c.chunkSize 0

def localCopies (core : ℕ) : LocalCopies := c.chunkStarts.foldl (c.copyChunk core) ⟨0, 0, 0, 0, none, []⟩

/-- The route and its slot, if the route stays on the rank. -/
def localRoute (routeId : ℕ) : Option (ℕ × ℕ) :=
  (c.decodeSendDst (c.dst routeId)).bind fun p => if p.1 = c.rank then some (routeId, p.2) else none

def routesAt (chunkStart : ℕ) (indices : List (BitVec 16)) : List (ℕ × ℕ) :=
  indices.filterMap fun i => c.localRoute (chunkStart + i.toNat)

/-- The selected indices of a chunk that are a core's. -/
def share (core chunkStart : ℕ) : List (BitVec 16) :=
  let part := evenPart (c.selected chunkStart).length c.blockNum core
  ((c.selected chunkStart).drop part.1).take part.2

/-- What the kernel has checked when it takes the path. -/
structure Vector : Prop where
  cores : 0 < c.blockNum ∧ c.blockNum ≤ kDispatchAivCoreCount
  rank : c.rank < c.rankSize ∧ c.rankSize ≤ 128
  capacity : 0 < c.destinationCapacity ∧ c.destinationCapacity < 2 ^ 32
  power : c.destinationCapacity &&& (c.destinationCapacity - 1) = 0
  chunk : c.chunkSize ≠ 0

end LocalDispatch

/-! ## Even parts -/

/-- Parts that follow each other from 0 to `itemCount`, none more than one longer than another, and no
operation that wraps around. -/
structure EvenTiling (itemCount partCount : ℕ) (range : ℕ → Word × Word) : Prop where
  exact : ∀ part < partCount, (range part).1.wrapped = false ∧ (range part).2.wrapped = false
  first : (range 0).1.value = 0
  ordered : ∀ part < partCount, (range part).1.value ≤ (range part).2.value
  next : ∀ part, part + 1 < partCount → (range part).2.value = (range (part + 1)).1.value
  last : (range (partCount - 1)).2.value = itemCount
  even : ∀ part < partCount, ∀ part' < partCount,
    (range part).2.value - (range part).1.value ≤ (range part').2.value - (range part').1.value + 1

theorem dispatchContiguousRange_eq {part : ℕ} (h : itemCount < 2 ^ 64)
    (hp : part < partCount) : dispatchContiguousRange itemCount partCount part =
      (.exact (evenPart itemCount partCount part).1, .exact (evenPart itemCount partCount (part + 1)).1) := by
  have hle := @evenPart_le itemCount partCount part hp
  have hstart : part * (itemCount / partCount) + (if part < itemCount % partCount then part
      else itemCount % partCount) = (evenPart itemCount partCount part).1 := by
    unfold evenPart
    rw [Nat.mul_comm]
    split_ifs <;> rfl
  have hcount : itemCount / partCount + (if part < itemCount % partCount then 1 else 0) =
      (evenPart itemCount partCount part).2 := by
    unfold evenPart
    split_ifs <;> rfl
  rw [dispatchContiguousRange, if_neg (by omega), ← evenPart_next, ← hcount]
  dsimp only
  rw [Word.exact_mul (by omega), Word.exact_add (by omega), hstart, Word.exact_add (by omega),
    Word.exact_add (by omega), Nat.add_assoc]

theorem evenTiling (h : itemCount < 2 ^ 64) (hp : 0 < partCount) :
    EvenTiling itemCount partCount (dispatchContiguousRange itemCount partCount) := by
  have heq := fun {part} (hpart : part < partCount) => dispatchContiguousRange_eq h hpart
  have hlength : ∀ part, itemCount / partCount ≤ (evenPart itemCount partCount part).2 ∧
      (evenPart itemCount partCount part).2 ≤ itemCount / partCount + 1 := by
    intro part
    unfold evenPart
    split_ifs <;> simp
  refine ⟨fun part hpart => ?_, ?_, fun part hpart => ?_, fun part hpart => ?_, ?_, fun part hpart part' hpart' => ?_⟩
  · rw [heq hpart]
    exact ⟨rfl, rfl⟩
  · rw [heq hp]
    exact evenPart_zero _ _
  · rw [heq hpart]
    exact evenPart_next itemCount partCount part ▸ Nat.le_add_right _ _
  · rw [heq hpart, heq (by omega)]
  · rw [heq (by omega), Nat.sub_add_cancel hp]
    exact evenPart_last _ _ hp
  · rw [heq hpart, heq hpart']
    simp only [Word.exact, ← evenPart_next, Nat.add_sub_cancel_left]
    exact (hlength part).2.trans (Nat.succ_le_succ (hlength part').1)

/-! ## Selected routes -/

theorem routeShift_pow (n : ℕ) : routeShift (2 ^ n) = n := by
  induction n with
  | zero => rw [routeShift, if_neg (by decide)]
  | succ n ih =>
    have hpos := Nat.two_pow_pos n
    rw [routeShift, if_pos (by rw [Nat.pow_succ]; omega), Nat.shiftRight_eq_div_pow, Nat.pow_one, Nat.pow_succ,
      Nat.mul_div_cancel _ (by decide), ih]

namespace LocalDispatch
variable {c : LocalDispatch}

/-- The shifted destination is the rank just if the route stays on it. -/
theorem Vector.shifted_eq_iff (h : c.Vector) (routeId : ℕ) :
    (c.dst routeId).sshiftRight (routeShift c.destinationCapacity) = BitVec.ofNat 32 c.rank ↔
      ∃ slot, c.decodeSendDst (c.dst routeId) = some (c.rank, slot) := by
  obtain ⟨n, hn⟩ := (Nat.and_sub_one_eq_zero_iff_isPowerOfTwo h.capacity.1.ne').1 h.power
  have hrank := h.rank
  have hpos : (0 : ℤ) < (2 ^ n : ℕ) := by exact_mod_cast Nat.two_pow_pos n
  have hmod : (BitVec.ofNat 32 c.rank).toNat = c.rank := by
    rw [BitVec.toNat_ofNat, Nat.mod_eq_of_lt (by omega)]
  have hint : (BitVec.ofNat 32 c.rank).toInt = c.rank := by
    rw [BitVec.toInt_eq_toNat_of_lt (by omega), hmod]
  rw [← BitVec.toInt_inj, BitVec.toInt_sshiftRight, Int.shiftRight_eq_div_pow, hint, decodeSendDst,
    dispatchDecodeDestination, hn, routeShift_pow, if_neg (by omega)]
  generalize (c.dst routeId).toInt = raw
  by_cases hneg : raw < 0
  · have hdiv := Int.ediv_neg_of_neg_of_pos hneg hpos
    rw [if_pos hneg]
    simp only [Option.map_none, reduceCtorEq, exists_false, iff_false]
    omega
  · have hdiv := Int.ediv_nonneg (not_lt.1 hneg) hpos.le
    rw [if_neg hneg]
    dsimp only
    split_ifs with hge
    · simp only [Option.map_none, reduceCtorEq, exists_false, iff_false]
      omega
    · simp only [Option.map_some, Option.some.injEq, Prod.mk.injEq, exists_and_left, exists_eq', and_true]
      omega

theorem Vector.chunkSize_pos (h : c.Vector) : 0 < c.chunkSize := Nat.pos_of_ne_zero h.chunk

theorem chunkElements_eq (chunkStart : ℕ) :
    c.chunkElements chunkStart = min (c.routeCount - chunkStart) c.chunkSize := by
  unfold chunkElements
  dsimp only
  split_ifs <;> omega

theorem chunkElements_le (chunkStart : ℕ) : c.chunkElements chunkStart ≤ 2 ^ 15 := by
  have hsize : c.chunkSize ≤ 2 ^ 15 := by
    unfold chunkSize dispatchRouteSelectChunkElements
    dsimp only
    split_ifs <;> omega
  rw [chunkElements_eq]
  exact (Nat.min_le_right _ _).trans hsize

/-- The loaded routes are those of the chunk, also where the only chunk was loaded before the loop. -/
theorem Vector.routePlan_eq (h : c.Vector) {chunkStart : ℕ} (hc : chunkStart ∈ c.chunkStarts) (i : ℕ) :
    c.routePlan chunkStart i = c.dst (chunkStart + i) := by
  obtain ⟨hlt, j, rfl⟩ := (mem_strided h.chunkSize_pos).1 hc
  rw [routePlan]
  split_ifs with hcached
  · have hj : j = 0 := by
      by_contra hj
      have := Nat.le_mul_of_pos_left c.chunkSize (Nat.pos_of_ne_zero hj)
      omega
    rw [hj, Nat.zero_mul]
  · rfl

theorem localRoute_eq_some {slot : ℕ} (h : c.decodeSendDst (c.dst routeId) = some (c.rank, slot)) :
    c.localRoute routeId = some (routeId, slot) := by
  rw [localRoute, h]
  exact if_pos rfl

theorem isSome_localRoute_iff :
    (c.localRoute routeId).isSome ↔ ∃ slot, c.decodeSendDst (c.dst routeId) = some (c.rank, slot) := by
  refine ⟨fun h => ?_, fun ⟨slot, h⟩ => by rw [localRoute_eq_some h]; rfl⟩
  rw [localRoute] at h
  rcases hd : c.decodeSendDst (c.dst routeId) with _ | ⟨rank, slot⟩ <;> rw [hd] at h
  · exact absurd h (by simp)
  · by_cases hr : rank = c.rank
    · exact ⟨slot, hr ▸ rfl⟩
    · exact absurd h (by simp [hr])

theorem Vector.selected_eq (h : c.Vector) {chunkStart : ℕ} (hc : chunkStart ∈ c.chunkStarts) :
    c.selected chunkStart = ((List.range (c.chunkElements chunkStart)).filter fun i =>
      (c.localRoute (chunkStart + i)).isSome).map (BitVec.ofNat 16) := by
  rw [selected, selectDispatchPeerRoutes]
  congr 1
  refine filter_congr fun i _ => ?_
  rw [h.routePlan_eq hc, Bool.eq_iff_iff, decide_eq_true_iff, h.shifted_eq_iff, isSome_localRoute_iff]

theorem toNat_index {chunkStart i : ℕ} (hi : i ∈ List.range (c.chunkElements chunkStart)) :
    (BitVec.ofNat 16 i).toNat = i := by
  have hle := c.chunkElements_le chunkStart
  have hlt := mem_range.1 hi
  rw [BitVec.toNat_ofNat, Nat.mod_eq_of_lt (by omega)]

theorem Vector.routesAt_selected (h : c.Vector) {chunkStart : ℕ} (hc : chunkStart ∈ c.chunkStarts) :
    c.routesAt chunkStart (c.selected chunkStart) =
      ((List.range (c.chunkElements chunkStart)).map (chunkStart + ·)).filterMap c.localRoute := by
  rw [routesAt, h.selected_eq hc, filterMap_map, filterMap_filter, filterMap_map]
  refine filterMap_congr fun i hi => ?_
  rw [Function.comp_apply, toNat_index hi, Function.comp_apply]
  cases c.localRoute (chunkStart + i) <;> rfl

/-! ## The copies of a core -/

/-- No route is held for invalid, and these are copied. -/
def Copied (s : LocalCopies) (routes : List (ℕ × ℕ)) : Prop := s.firstInvalid = none ∧ s.copies = routes

section Chunk
variable (h : c.Vector) {chunkStart : ℕ} (hc : chunkStart ∈ c.chunkStarts)
  {s : LocalCopies} {routes : List (ℕ × ℕ)} (hs : Copied s routes)
include h hc hs

theorem copyRoute_copied {i : BitVec 16} (hi : i ∈ c.selected chunkStart) :
    Copied (c.copyRoute chunkStart s i) (routes ++ (c.localRoute (chunkStart + i.toNat)).toList) := by
  rw [h.selected_eq hc, mem_map] at hi
  obtain ⟨j, hj, rfl⟩ := hi
  obtain ⟨hrange, hlocal⟩ := mem_filter.1 hj
  obtain ⟨slot, hslot⟩ := isSome_localRoute_iff.1 hlocal
  have hlt := mem_range.1 hrange
  rw [copyRoute, toNat_index hrange, if_neg (not_le.2 hlt), h.routePlan_eq hc, hslot, localRoute_eq_some hslot]
  dsimp only
  rw [if_neg (not_not.2 rfl)]
  exact ⟨hs.1, congrArg (· ++ [_]) hs.2⟩

theorem copyChunk_copied (hcore : core < c.blockNum) : Copied (c.copyChunk core s chunkStart)
    (routes ++ c.routesAt chunkStart (c.share core chunkStart)) := by
  have hlen : (c.selected chunkStart).length < 2 ^ 64 := by
    have hle := c.chunkElements_le chunkStart
    have hfilter := length_filter_le (fun i => (c.localRoute (chunkStart + i)).isSome)
      (List.range (c.chunkElements chunkStart))
    rw [length_range] at hfilter
    rw [h.selected_eq hc, length_map]
    omega
  rw [copyChunk, share, dispatchContiguousRange_eq hlen hcore]
  dsimp only [Word.exact]
  rw [← evenPart_next, Nat.add_sub_cancel_left]
  rw [routesAt, filterMap_eq_flatMap_toList]
  apply foldl_collects (P := Copied)
  · exact fun i hi s routes hs => copyRoute_copied h hc hs (mem_of_mem_drop (mem_of_mem_take hi))
  · exact ⟨hs.1, hs.2⟩

end Chunk

theorem Vector.localCopies_copied (h : c.Vector) (hcore : core < c.blockNum) : Copied (c.localCopies core)
    (c.chunkStarts.flatMap fun chunkStart => c.routesAt chunkStart (c.share core chunkStart)) := by
  have hstart : Copied ⟨0, 0, 0, 0, none, []⟩ [] := ⟨rfl, rfl⟩
  exact foldl_collects (P := Copied) (fun _ hc _ _ hs => copyChunk_copied h hc hs hcore) hstart

/-- All cores together copy each route that stays on the rank once. -/
theorem Vector.copies_perm (h : c.Vector) :
    ((List.range c.blockNum).flatMap fun core => (c.localCopies core).copies).Perm
      ((List.range c.routeCount).filterMap c.localRoute) := by
  have hcopies : ((List.range c.blockNum).flatMap fun core => (c.localCopies core).copies) =
      (List.range c.blockNum).flatMap fun core => c.chunkStarts.flatMap fun chunkStart =>
        c.routesAt chunkStart (c.share core chunkStart) :=
    flatMap_congr fun core hcore => (h.localCopies_copied (mem_range.1 hcore)).2
  have hroutes : (List.range c.routeCount).filterMap c.localRoute =
      c.chunkStarts.flatMap fun chunkStart => (List.range c.blockNum).flatMap fun core =>
        c.routesAt chunkStart (c.share core chunkStart) := by
    rw [← flatMap_chunks c.routeCount h.chunkSize_pos, filterMap_flatMap]
    refine flatMap_congr fun chunkStart hc => ?_
    rw [← chunkElements_eq, ← h.routesAt_selected hc]
    simp only [routesAt, ← filterMap_flatMap]
    exact congrArg _ (flatMap_evenParts _ h.cores.1).symm
  rw [hcopies, hroutes]
  exact flatMap_comm_perm _ _ _

end LocalDispatch

/-- The ranges of the parts tile the items evenly, and of the locally addressed routes the cores copy each
once and hold none for invalid. -/
theorem contiguous_ranges_tile {itemCount partCount : ℕ} (hitem : itemCount < 2 ^ 64) (hpart : 0 < partCount)
    {c : LocalDispatch} (hc : c.Vector) :
    EvenTiling itemCount partCount (dispatchContiguousRange itemCount partCount) ∧
      ((List.range c.blockNum).flatMap fun core => (c.localCopies core).copies).Perm
        ((List.range c.routeCount).filterMap c.localRoute) ∧
      ∀ core < c.blockNum, (c.localCopies core).firstInvalid = none :=
  ⟨evenTiling hitem hpart, hc.copies_perm, fun _ hcore => (hc.localCopies_copied hcore).1⟩

/-- Three cores and the routes of 64 tokens that stay on the first of two ranks. -/
def sixtyFourTokens : LocalDispatch := ⟨fun _ => 5, 1, 64, 64, 0, 2, 3⟩

theorem contiguous_ranges_tile_sixtyFour : EvenTiling 10 4 (dispatchContiguousRange 10 4) ∧
    ((List.range 3).flatMap fun core => (sixtyFourTokens.localCopies core).copies).Perm
      ((List.range 64).filterMap sixtyFourTokens.localRoute) ∧
    ∀ core < 3, (sixtyFourTokens.localCopies core).firstInvalid = none :=
  contiguous_ranges_tile (by decide) (by decide) ⟨by decide, by decide, by decide, by decide, by decide⟩

end TileXR.DispatchUrma
