import TileXR.Plan.Bounds

/-!
# The int32 arithmetic of an accepted run

The planner computes in `int32_t`, the model in ℕ. `Int32Value` lists what an accepted run computes in
`int32_t`, by its exact value and function by function; products that the source widens to `int64_t`
first are not among them. All of them are in range (`Int32Value.exact`) but for one: the bound of the
loop with which `BuildLayouts` clears `expertPhysicalBase`, `rankSize * expertNum`, whose factors
`Validate` checks one at a time only.
-/

namespace TileXR.Plan
open Lib List
open Finset (range range_mono sum_congr sum_le_sum_of_subset)

variable {v : ℤ} {n r : ℕ} {s : State}

/-- An `int32_t` holds the value. -/
def Exact32 (v : ℤ) : Prop := (BitVec.ofInt 32 v).toInt = v

theorem exact32_iff : Exact32 v ↔ -2147483648 ≤ v ∧ v ≤ 2147483647 := by
  unfold Exact32
  rw [BitVec.toInt_ofInt, Int.bmod_def]
  simp only [Nat.reducePow, Nat.cast_ofNat]
  split <;> omega

theorem exact32_natCast (h : n ≤ int32Max) : Exact32 n :=
  exact32_iff.2 ⟨by omega, by unfold int32Max at h; omega⟩

theorem exact32_sub {m : ℕ} (hm : m ≤ int32Max) (hn : n ≤ int32Max) : Exact32 (m - n) := by
  unfold int32Max at hm hn
  exact exact32_iff.2 ⟨by omega, by omega⟩

/-! ## The values -/

/-- What is kept or computed in `int32_t` from the tables of one state. -/
inductive StateValue (c : Ctx) (s : State) : ℤ → Prop
  | rankLoad {r : ℕ} (hr : r < c.rankSize) : StateValue c s (s.rankLoad r)
  -- `rankLoad[active[0]] + rankLoad[active[1]]` and the like: two ranks of one list
  | loadPair {r r' : ℕ} (hr : r < c.rankSize) (hr' : r' < c.rankSize) (hne : r ≠ r') :
      StateValue c s (s.rankLoad r + s.rankLoad r' : ℕ)
  | excess {r : ℕ} (hr : r < c.rankSize) : StateValue c s (s.rankLoad r - c.cap)
  | lack {r : ℕ} (hr : r < c.rankSize) : StateValue c s (c.cap - s.rankLoad r)
  -- the running sum of `FillStatus`
  | deficit {n : ℕ} (hn : n ≤ c.rankSize) :
      StateValue c s (∑ r ∈ Finset.range n, (c.cap - s.rankLoad r) : ℕ)
  | remainingTpe {src e : ℕ} (hsrc : src < c.rankSize) (he : e < c.expertNum) :
      StateValue c s (s.remainingTpe src e)
  | alloc {r e : ℕ} (hr : r < c.rankSize) (he : e < c.expertNum) : StateValue c s (s.alloc r e)
  | srcExpertCursor {src e : ℕ} (hsrc : src < c.rankSize) (he : e < c.expertNum) :
      StateValue c s (s.srcExpertCursor src e)
  | dstExpertCursor {dst e : ℕ} (hdst : dst < c.rankSize) (he : e < c.expertNum) :
      StateValue c s (s.dstExpertCursor dst e)
  | routedPairTokens {src dst : ℕ} (hl : c.routeLimit ≠ 0) : StateValue c s (s.routedPairTokens src dst)
  | pairRemain {src dst : ℕ} (hl : c.routeLimit ≠ 0) :
      StateValue c s (c.routeLimit - s.routedPairTokens src dst)
  -- `scratch[dst]`
  | remoteCount (dst : ℕ) : StateValue c s (s.remoteExpertSet dst).length
  | localSegments : StateValue c s s.tokenSegments.length
  | globalSegments : StateValue c s s.globalSegments
  | expertMoves : StateValue c s s.expertMoves
  | intraRounds : StateValue c s s.intraRounds
  | interRounds : StateValue c s s.interRounds
  -- `srcExpertBegin + tokenCount` of a record, and what `BuildDst` subtracts from an ordinal in it
  | segmentEnd {m : TokenSegmentMove} (hm : m ∈ s.tokenSegments) :
      StateValue c s (m.srcExpertBegin + m.tokenCount : ℕ)
  | segmentOffset {m : TokenSegmentMove} {ordinal : ℕ} (hm : m ∈ s.tokenSegments)
      (hlow : m.srcExpertBegin ≤ ordinal) (hhigh : ordinal < m.srcExpertBegin + m.tokenCount) :
      StateValue c s (ordinal - m.srcExpertBegin)

/-- A call of `ApplyExpertMove` that gets past its first line. -/
structure InCall (c : Ctx) (s : State) (home dst : ℕ) : Prop where
  call : CallAt c s home dst
  ne : home ≠ dst
  pos : 0 < requestedUnits c.cap s.rankLoad home dst

/-- A call before its expert `i`. -/
def turnAt (c : Ctx) (s : State) (home dst i : ℕ) : MoveAcc :=
  ((expertOrder c.toParams s.toTables home).take i).foldl (moveExpert c home dst)
    ⟨s, requestedUnits c.cap s.rankLoad home dst, false, true⟩

/-- The turn of an expert before its source `j`. -/
def sourceAt (c : Ctx) (a : MoveAcc) (home dst expert j : ℕ) : TakeAcc :=
  ((c.affinityOrder dst).take j).foldl (takeFromSource c dst expert)
    (startTake a.st home expert a.demand)

def rowsAt (c : Ctx) (t : Tables) (n : ℕ) : Layout × Bool :=
  (List.range n).foldl (recordRows c t) (Layout.initial, true)

def ranksAt (c : Ctx) (t : Tables) (n : ℕ) : Layout × Bool :=
  (List.range n).foldl (layoutRank c t) ((rowsAt c t c.rankSize).1, true)

def groupsAt (c : Ctx) (t : Tables) (dst g : ℕ) : GroupAcc :=
  (List.range g).foldl (layoutGroup c t dst ((ranksAt c t dst).1.rows dst)) ⟨(ranksAt c t dst).1, 0, true⟩

/-- What an accepted run computes in `int32_t`. -/
inductive Int32Value (c : Ctx) : ℤ → Prop
  -- ranks, experts, routes and prefetch slots, numbers of them, and the loop variables over them
  | ranks {n : ℕ} (hn : n ≤ c.rankSize) : Int32Value c n
  | experts {n : ℕ} (hn : n ≤ c.expertNum) : Int32Value c n
  | routes {n : ℕ} (hn : n ≤ c.s * c.topK) : Int32Value c n
  | slots {n : ℕ} (hn : n ≤ c.prefetchSlots) : Int32Value c n
  | routeLimit : Int32Value c c.routeLimit
  | nvS : Int32Value c c.nvS
  | status (st : PlanStatus) : Int32Value c st.code
  -- `Validate`: `rankSize * 16`, and `++expertCount[e]`; the other multiples are offsets into `scratch`
  | scratch {k : ℕ} (hk : k ≤ 16) : Int32Value c (c.rankSize * k : ℕ)
  | histogram {n : ℕ} (hn : n ≤ c.cap) (e : ℕ) : Int32Value c (routeCount c.topkExperts n e)
  -- `RunPlanAlgorithm`: the bound of the loop over pairs, `count += ..` and `rankLoad[home] += count`
  | pairs {n : ℕ} (hl : c.routeLimit ≠ 0) (hn : n ≤ c.rankSize * c.rankSize) : Int32Value c n
  | expertCount {n e : ℕ} (hn : n ≤ c.rankSize) (he : e < c.expertNum) :
      Int32Value c (∑ src ∈ Finset.range n, c.tokensPerExpert src e : ℕ)
  | initialLoad {n : ℕ} (hn : n ≤ c.expertNum) (r : ℕ) :
      Int32Value c (∑ e ∈ (Finset.range n).filter (c.homeRank · = r), c.expertTotal e : ℕ)
  -- the tables and counters at every point of the three phases
  | state {s : State} {v : ℤ} (h : RunPoint c s) (hv : StateValue c s v) : Int32Value c v
  -- the rounds: `actualRound += ..`
  | intraMoved {key : ℕ} {s : State} (h : IntraHead c key s) (n : ℕ) : Int32Value c
      (((serverPairs c.toParams s.toTables key).take n).foldl (movePair c) (s, 0)).2
  | interMoved {s : State} (h : InterHead c s) (n : ℕ) : Int32Value c (interBefore c s n).actualRound
  -- `ApplyExpertMove`: `begin`, `end`, `demand`, what is returned, `expertDemand` and `actual`
  | firstExpert {r : ℕ} (hr : r < c.rankSize) : Int32Value c (r * c.expertsPerRank : ℕ)
  | lastExpert {r : ℕ} (hr : r < c.rankSize) : Int32Value c (r * c.expertsPerRank + c.expertsPerRank : ℕ)
  | demand {s : State} {home dst : ℕ} (h : InCall c s home dst) (i : ℕ) :
      Int32Value c (turnAt c s home dst i).demand
  | moved {s : State} {home dst : ℕ} (h : InCall c s home dst) (i : ℕ) :
      Int32Value c (requestedUnits c.cap s.rankLoad home dst - (turnAt c s home dst i).demand)
  | expertDemand {s : State} {home dst : ℕ} (h : InCall c s home dst) (i expert j : ℕ) :
      Int32Value c (sourceAt c (turnAt c s home dst i) home dst expert j).expertDemand
  | actual {s : State} {home dst : ℕ} (h : InCall c s home dst) (i expert j : ℕ) :
      Int32Value c (sourceAt c (turnAt c s home dst i) home dst expert j).actual
  -- `BuildLayouts`, reached when the moves have not failed
  | targetWords : Int32Value c (c.rankSize + 63 : ℕ)
  | clearBound (hok : (runMoves c).fatal = .ok) : Int32Value c (c.rankSize * c.expertNum : ℕ)
  | maxRemote (hok : (runMoves c).fatal = .ok) {n : ℕ} (hn : n ≤ c.rankSize) :
      Int32Value c (rowsAt c (runMoves c).toTables n).1.maxRemote
  | ownRemote (hok : (runMoves c).fatal = .ok) {n : ℕ} (hn : n ≤ c.rankSize) :
      Int32Value c (rowsAt c (runMoves c).toTables n).1.remoteStats0
  | ownedRemote (hok : (runMoves c).fatal = .ok) {n k : ℕ} (hn : n < c.rankSize)
      (hk : k ≤ ((remoteRowOf c.toParams (runMoves c).toTables n).filter (c.homeRank · = c.rank)).length) :
      Int32Value c ((rowsAt c (runMoves c).toTables n).1.remoteStats1 + k : ℕ)
  | localExpert {e : ℕ} (he : e < c.expertNum) (hown : c.homeRank e = c.rank) :
      Int32Value c (e - (c.rank * c.expertsPerRank : ℕ))
  | padded {count n : ℕ} (h : paddedCount c.tokenPadding count = some n) : Int32Value c n
  | previousEnd (hok : (runMoves c).fatal = .ok) (dst g : ℕ) :
      Int32Value c (groupsAt c (runMoves c).toTables dst g).previousEnd
  -- `BuildDst`: `expertCount[expert]++`, and the values written to and read from `out.dst`
  | ordinal {n : ℕ} (hn : n ≤ c.cap) (e : ℕ) : Int32Value c ((numberRoutes c.topkExperts n).1 e)
  | rawDst {raw : ℕ} (hraw : raw ≤ int32Max) (first : Bool) : Int32Value c (encodeDst first raw)

/-! ## All but one are in range -/

section Bounds
variable {c : Ctx}

section
variable (hc : c.toParams.Valid) (h : Balanced c s)
include hc h

theorem Balanced.sum_load : ∑ r ∈ range c.rankSize, s.rankLoad r = c.tokens := by
  rw [sum_congr rfl fun r _ => h.loads r, Finset.sum_comm,
    sum_congr rfl fun e he => h.allocated e (Finset.mem_range.1 he)]
  exact hc.sum_expertTotal

theorem Balanced.load_le (hr : r < c.rankSize) : s.rankLoad r ≤ c.tokens := by
  rw [← h.sum_load hc]
  exact Finset.single_le_sum_of_canonicallyOrdered (f := s.rankLoad) (Finset.mem_range.2 hr)

theorem Balanced.loadPair_le {r' : ℕ} (hr : r < c.rankSize)
    (hr' : r' < c.rankSize) (hne : r ≠ r') : s.rankLoad r + s.rankLoad r' ≤ c.tokens := by
  rw [← h.sum_load hc, ← Finset.sum_pair hne]
  refine sum_le_sum_of_subset fun x hx => ?_
  rcases Finset.mem_insert.1 hx with rfl | hx
  · exact Finset.mem_range.2 hr
  · rw [Finset.mem_singleton.1 hx]; exact Finset.mem_range.2 hr'

theorem Balanced.alloc_le {e : ℕ} (hr : r < c.rankSize) (he : e < c.expertNum) : s.alloc r e ≤ c.tokens := by
  refine le_trans ?_ (hc.expertTotal_le he)
  rw [← h.allocated e he]
  exact Finset.single_le_sum_of_canonicallyOrdered (f := fun r => s.alloc r e) (Finset.mem_range.2 hr)

end

theorem Balanced.foreign_fit (h : Balanced c s) (d : ℕ) :
    (foreignExperts c.toParams s.toTables d).length ≤ c.prefetchSlots := by
  have hnodup : (foreignExperts c.toParams s.toTables d).Nodup := nodup_range.filter _
  have hsub : foreignExperts c.toParams s.toTables d ⊆ s.remoteExpertSet d := by
    intro e he
    obtain ⟨_, hne, hpos⟩ := mem_foreignExperts.1 he
    exact h.registered d e hne.symm hpos
  exact (hnodup.subperm hsub).length_le.trans (h.slots d)

theorem RunState.exact (hc : c.toParams.Valid) (hslots : c.prefetchSlots ≤ int32Max)
    (hlimit : c.routeLimit ≤ c.cap) (h : RunState c s) (hv : StateValue c s v) : Exact32 v := by
  have htokens := hc.tokens_le
  have hcap := hc.cap_le_tokens
  obtain ⟨log, hlog⟩ := h.recorded
  have hmoves := h.balanced.moves
  have hrounds := h.rounds
  have hinitial := deficit_le_tokens (p := c.toParams) (Tables.initial c.toParams)
  have hlen := hlog.tables.length_le hc
  unfold State.countedRounds at hrounds
  have hend : ∀ m ∈ s.tokenSegments, m.srcExpertBegin + m.tokenCount ≤ c.cap := by
    intro m hm
    rw [hlog.own] at hm
    have hm := mem_of_mem_filter hm
    obtain ⟨hsrc, _, he⟩ := hlog.tables.inRange m hm
    have hle := hlog.tables.chained.src_le (mem_map_of_mem (f := TokenSegmentMove.toTransfer) hm)
    have hrem := hlog.tables.remaining m.srcRank m.expertId
    have := hc.tokensPerExpert_le hsrc he
    change m.srcExpertBegin + m.tokenCount ≤ srcTotal _ (m.srcRank, m.expertId) at hle
    omega
  cases hv with
  | rankLoad hr => exact exact32_natCast ((h.balanced.load_le hc hr).trans htokens)
  | loadPair hr hr' hne => exact exact32_natCast ((h.balanced.loadPair_le hc hr hr' hne).trans htokens)
  | excess hr => exact exact32_sub ((h.balanced.load_le hc hr).trans htokens) (by omega)
  | lack hr => exact exact32_sub (by omega) ((h.balanced.load_le hc hr).trans htokens)
  | @deficit n hn =>
    refine exact32_natCast (le_trans ?_ htokens)
    exact (sum_le_sum_of_subset (range_mono hn)).trans (deficit_le_tokens s.toTables)
  | @remainingTpe src e hsrc he =>
    have := hlog.tables.remaining src e
    have := hc.tokensPerExpert_le hsrc he
    exact exact32_natCast (by omega)
  | alloc hr he => exact exact32_natCast ((h.balanced.alloc_le hc hr he).trans htokens)
  | @srcExpertCursor src e hsrc he =>
    have := hlog.tables.remaining src e
    have := hlog.tables.srcCursor src e
    have := hc.tokensPerExpert_le hsrc he
    exact exact32_natCast (by omega)
  | dstExpertCursor _ _ => exact exact32_natCast ((hlog.tables.dstCursor_le hc _ _).trans htokens)
  | routedPairTokens hl => exact exact32_natCast ((h.routed hl _ _).trans (by omega))
  | pairRemain hl => exact exact32_sub (by omega) ((h.routed hl _ _).trans (by omega))
  | remoteCount dst => exact exact32_natCast ((h.balanced.slots dst).trans hslots)
  | localSegments =>
    rw [hlog.own]
    exact exact32_natCast ((length_filter_le _ _).trans (by omega))
  | globalSegments =>
    have hmade := hlog.made
    refine exact32_natCast ?_
    by_cases hok : s.fatal = .ok
    · rw [if_pos hok] at hmade; omega
    · rw [if_neg hok] at hmade
      obtain ⟨src, hsrc, e, he, hleft⟩ := hlog.left hok
      have := hlog.tables.length_lt hc hsrc he hleft
      omega
  | expertMoves => exact exact32_natCast (by omega)
  | intraRounds => exact exact32_natCast (by omega)
  | interRounds => exact exact32_natCast (by omega)
  | segmentEnd hm => exact exact32_natCast ((hend _ hm).trans (by omega))
  | segmentOffset hm hlow hhigh =>
    have := hend _ hm
    exact exact32_sub (by omega) (by omega)

/-! ## Rounds and calls -/

theorem intraMoved_le {key : ℕ} (n : ℕ) :
    (((serverPairs c.toParams s.toTables key).take n).foldl (movePair c) (s, 0)).2 ≤ c.tokens := by
  have hpaid := (serverPairs_paid c s key n).paid
  have := deficit_le_tokens (p := c.toParams) s.toTables
  dsimp only at hpaid
  omega

theorem interMoved_le (n : ℕ) : (interBefore c s n).actualRound ≤ c.tokens := by
  have hpaid := (interBefore_paid c s n).paid
  have := deficit_le_tokens (p := c.toParams) s.toTables
  dsimp only [InterAcc.moved] at hpaid
  omega

theorem turnAt_demand_le (s : State) {home dst : ℕ} (hne : home ≠ dst) (i : ℕ) :
    (turnAt c s home dst i).demand ≤ requestedUnits c.cap s.rankLoad home dst ∧
      requestedUnits c.cap s.rankLoad home dst ≤ c.cap :=
  ⟨(MoveKeeps.start hne s _ _).le, (min_le_right _ _).trans (Nat.sub_le _ _)⟩

theorem sourceAt_total (a : MoveAcc) (home dst expert j : ℕ) :
    (sourceAt c a home dst expert j).expertDemand + (sourceAt c a home dst expert j).actual ≤ a.demand := by
  have hk : TakeKeeps a.st (min (a.st.alloc home expert) a.demand) (sourceAt c a home dst expert j) :=
    TakeKeeps.start ..
  rw [hk.total]
  exact min_le_right _ _

/-! ## Layouts -/

theorem remoteRowOf_length_le (t : Tables) (d : ℕ) : (remoteRowOf c.toParams t d).length ≤ c.expertNum := by
  rw [remoteRowOf, length_insertSort]
  exact (length_filter_le _ _).trans (length_range).le

theorem rowsAt_lengths_le (t : Tables) (n : ℕ) :
    (rowsAt c t n).1.maxRemote ≤ c.expertNum ∧ (rowsAt c t n).1.remoteStats0 ≤ c.expertNum := by
  unfold rowsAt
  refine foldlRecOn _ _
    (motive := fun a : Layout × Bool => a.1.maxRemote ≤ c.expertNum ∧ a.1.remoteStats0 ≤ c.expertNum)
    ⟨Nat.zero_le _, Nat.zero_le _⟩ fun a ha d _ => ?_
  unfold recordRows
  split
  · exact ha
  · split
    · exact ha
    · rename_i row hrow
      have hlen : row.length ≤ c.expertNum := by
        unfold remoteRow at hrow
        dsimp only at hrow
        split at hrow
        · cases hrow
        · cases hrow; exact remoteRowOf_length_le t d
      unfold recordRow
      dsimp only
      refine ⟨max_le ha.1 hlen, ?_⟩
      split
      · exact hlen
      · exact ha.2

theorem remoteRowOf_length_le_load (h : Balanced c s) (d : ℕ) :
    (remoteRowOf c.toParams s.toTables d).length ≤ s.rankLoad d := by
  rw [remoteRowOf, length_insertSort, h.loads, foreignExperts,
    ← toFinset_card_of_nodup (nodup_range.filter _), Finset.card_eq_sum_ones]
  refine (Finset.sum_le_sum fun e he => ?_).trans (sum_le_sum_of_subset fun e he => ?_)
  · have := (mem_filter.1 (mem_toFinset.1 he)).2
    simp only [Bool.and_eq_true, decide_eq_true_eq] at this
    exact this.2
  · exact Finset.mem_range.2 (mem_range.1 (mem_filter.1 (mem_toFinset.1 he)).1)

theorem ownedRemote_le (hc : c.toParams.Valid) (h : Balanced c s) {k : ℕ} (hn : n < c.rankSize)
    (hk : k ≤ ((remoteRowOf c.toParams s.toTables n).filter (c.homeRank · = c.rank)).length) :
    (rowsAt c s.toTables n).1.remoteStats1 + k ≤ c.tokens := by
  have hrow : ∀ d, ((remoteRowOf c.toParams s.toTables d).filter (c.homeRank · = c.rank)).length ≤
      s.rankLoad d := fun d =>
    (length_filter_le _ _).trans (remoteRowOf_length_le_load h d)
  have hsum := (recordRows_tallied hc.expertsPerRank_pos (n := n)
    fun d _ => h.foreign_fit d).2.occurrences
  unfold rowsAt
  rw [hsum, ← h.sum_load hc]
  calc _ ≤ ∑ d ∈ range n, s.rankLoad d + s.rankLoad n :=
        Nat.add_le_add (Finset.sum_le_sum fun d _ => hrow d) (hk.trans (hrow n))
    _ = ∑ d ∈ range (n + 1), s.rankLoad d := (Finset.sum_range_succ ..).symm
    _ ≤ _ := sum_le_sum_of_subset (range_mono (by omega))

theorem groupsAt_previousEnd_le (t : Tables) (dst g : ℕ) : (groupsAt c t dst g).previousEnd ≤ c.nvS := by
  unfold groupsAt
  refine foldlRecOn _ _ (motive := fun a : GroupAcc => a.previousEnd ≤ c.nvS) (Nat.zero_le _)
    fun a ha g _ => ?_
  unfold layoutGroup
  split
  · exact ha
  dsimp only
  split
  · exact ha
  · split
    · exact ha
    · dsimp only; omega

theorem paddedCount_le {padding count : ℕ} (h : paddedCount padding count = some n) : n ≤ int32Max := by
  unfold paddedCount alignCount at h
  split at h
  · cases h; exact Nat.zero_le _
  split at h
  · cases h
  · dsimp only at h
    split at h
    · cases h
    · cases h; omega

/-- The values of a run whose clearing loop has an exact bound, or which does not get there. -/
theorem Int32Value.exact (hc : c.toParams.Valid) (haff : ∀ d, ∀ r ∈ c.affinityOrder d, r < c.rankSize)
    (hexperts : c.expertNum ≤ int32Max) (hslots : c.prefetchSlots ≤ int32Max) (hlimit : c.routeLimit ≤ c.cap)
    (hclear : c.rankSize * c.expertNum ≤ int32Max ∨ (runMoves c).fatal ≠ .ok) (hv : Int32Value c v) : Exact32 v := by
  have htokens := hc.tokens_le
  have hcap := hc.cap_le_tokens
  have hranks := hc.rankLe
  have hbound : (128 : ℕ) * 128 ≤ int32Max := by decide
  have hcount : ∀ n e, routeCount c.topkExperts n e ≤ n := fun n e =>
    countP_le_length.trans length_range.le
  have hlast : ∀ {r}, r < c.rankSize → r * c.expertsPerRank + c.expertsPerRank ≤ c.expertNum := by
    intro r hr
    rw [hc.expertNum_eq, ← Nat.succ_mul]
    exact Nat.mul_le_mul_right _ hr
  cases hv with
  | ranks hn => exact exact32_natCast (by omega)
  | experts hn => exact exact32_natCast (by omega)
  | routes hn => rw [← hc.cap_eq] at hn; exact exact32_natCast (by omega)
  | slots hn => exact exact32_natCast (by omega)
  | routeLimit => exact exact32_natCast (by omega)
  | nvS => exact exact32_natCast hc.nvS_le
  | status st => cases st <;> exact exact32_iff.2 (by decide)
  | scratch hk =>
    exact exact32_natCast ((Nat.mul_le_mul hranks (hk.trans (by decide))).trans hbound)
  | histogram hn e => exact exact32_natCast ((hcount _ e).trans (by omega))
  | pairs _ hn => exact exact32_natCast (hn.trans ((Nat.mul_le_mul hranks hranks).trans hbound))
  | @expertCount n e hn he =>
    refine exact32_natCast (le_trans ?_ ((hc.expertTotal_le he).trans htokens))
    exact sum_le_sum_of_subset (range_mono hn)
  | @initialLoad n hn r =>
    refine exact32_natCast (le_trans ?_ (hc.sum_expertTotal.le.trans htokens))
    exact sum_le_sum_of_subset ((Finset.filter_subset _ _).trans (range_mono hn))
  | state h hv => exact (h.runState hc haff).exact hc hslots hlimit hv
  | intraMoved _ n => exact exact32_natCast ((intraMoved_le n).trans htokens)
  | interMoved _ n => exact exact32_natCast ((interMoved_le n).trans htokens)
  | firstExpert hr => have := hlast hr; exact exact32_natCast (by omega)
  | lastExpert hr => exact exact32_natCast ((hlast hr).trans hexperts)
  | @demand s _ _ h i =>
    have hle := turnAt_demand_le (c := c) s h.ne i
    exact exact32_natCast (by omega)
  | @moved s _ _ h i =>
    have hle := turnAt_demand_le (c := c) s h.ne i
    exact exact32_sub (by omega) (by omega)
  | @expertDemand s home dst h i expert j =>
    have hle := turnAt_demand_le (c := c) s h.ne i
    have htotal := sourceAt_total (c := c) (turnAt c s home dst i) home dst expert j
    exact exact32_natCast (by omega)
  | @actual s home dst h i expert j =>
    have hle := turnAt_demand_le (c := c) s h.ne i
    have htotal := sourceAt_total (c := c) (turnAt c s home dst i) home dst expert j
    exact exact32_natCast (by omega)
  | targetWords => exact exact32_natCast (by unfold int32Max; omega)
  | clearBound hok => exact exact32_natCast (hclear.resolve_right (not_not.2 hok))
  | maxRemote _ _ => exact exact32_natCast ((rowsAt_lengths_le _ _).1.trans hexperts)
  | ownRemote _ _ => exact exact32_natCast ((rowsAt_lengths_le _ _).2.trans hexperts)
  | ownedRemote _ hn hk =>
    have hbal := ((runPoint_runMoves c).runState hc haff).balanced
    exact exact32_natCast ((ownedRemote_le hc hbal hn hk).trans htokens)
  | @localExpert e he hown =>
    have hle : c.rank * c.expertsPerRank ≤ e := by
      rw [← hown]; exact Nat.div_mul_le_self _ _
    exact exact32_sub (by omega) (by omega)
  | padded h => exact exact32_natCast (paddedCount_le h)
  | previousEnd _ dst g => exact exact32_natCast ((groupsAt_previousEnd_le _ _ _).trans hc.nvS_le)
  | ordinal hn e =>
    rw [(numberRoutes_spec _ _).1]
    exact exact32_natCast ((hcount _ e).trans (by omega))
  | rawDst hraw first =>
    unfold int32Max at hraw
    unfold encodeDst
    refine exact32_iff.2 ?_
    split <;> omega

end Bounds

/-- An accepted run computes in `int32_t` exactly what it means to, if and only if the bound of the
clearing loop is in range or the moves end the run before it. -/
theorem int32_exact_iff {x : PlanAlgorithmInput} {ptr : PlanPointers} {ws : PlanAlgorithmWorkspace}
    (hvalid : validate x ptr ws = .ok)
    (hcache : ws.affinityOrderValid = true → ∀ d, ∀ r ∈ ws.affinityOrder d, r < x.rankSize.toNat) :
    (∀ v, Int32Value (ctxOf x ptr ws) v → Exact32 v) ↔
      (ctxOf x ptr ws).rankSize * (ctxOf x ptr ws).expertNum ≤ int32Max ∨
        (runMoves (ctxOf x ptr ws)).fatal ≠ .ok := by
  have hc := validate_ok hvalid
  obtain ⟨hexperts, hslots, hlimit⟩ := validate_sizes hvalid
  refine ⟨fun h => ?_, fun hclear v hv =>
    hv.exact hc.shared (ctxOf_affinity_lt ptr hcache) hexperts hslots hlimit hclear⟩
  by_cases hok : (runMoves (ctxOf x ptr ws)).fatal = .ok
  · have := (exact32_iff.1 (h _ (.clearBound hok))).2
    left
    unfold int32Max
    omega
  · exact .inr hok

/-- Two ranks with two routes each stay in range. -/
theorem int32_exact_records : validate noRecords {} (recordsWorkspace 2) = .ok ∧
    ∀ v, Int32Value (recordsCtx 2) v → Exact32 v :=
  ⟨by decide, (@int32_exact_iff noRecords {} (recordsWorkspace 2) (by decide) nofun).2 (.inl (by decide))⟩

/-- Two ranks with one route each, to the first of `2^30` experts. -/
def wideExperts : PlanAlgorithmInput where
  rank := 0
  rankSize := 2
  s := 1
  topK := 1
  expertNum := 1073741824
  config := { rankTokenCapacity := 1, prefetchSlots := 1, nvS := 2 }
  topkExperts _ := 0
  tokensPerExpert i := if i % 1073741824 = 0 then 1 else 0
  globalRankIds r := r

theorem wideExperts_row (src e : ℕ) (he : e < 1073741824) :
    wideExperts.tokensPerExpert (src * 1073741824 + e) = if e = 0 then 1 else 0 := by
  show (if (src * 1073741824 + e) % 1073741824 = 0 then (1 : ℤ) else 0) = _
  rw [Nat.mul_comm, Nat.mul_add_mod, Nat.mod_eq_of_lt he]

theorem wideExperts_valid : validate wideExperts {} (recordsWorkspace 1) = .ok := by
  have hshape : ¬ badShape wideExperts {} (recordsWorkspace 1) = true := by decide
  have hconfig : ¬ badConfig wideExperts {} (recordsWorkspace 1) = true := by decide
  unfold validate
  rw [if_neg hshape, if_neg hconfig]
  dsimp only
  rw [if_neg (by decide), if_neg (by decide)]
  rw [List.findSome?_eq_none_iff.2, Option.getD_none]
  intro src _
  refine checkRow_eq_none (fun e he => ?_) ?_
  · have hrow := wideExperts_row src e he
    have hhist : histogram wideExperts.topkExperts 1 e = if e = 0 then 1 else 0 := by
      rw [histogram, range_one, countP_singleton]
      refine if_congr (decide_eq_true_iff.trans ?_) rfl rfl
      show (0 : ℤ) = e ↔ e = 0
      omega
    change 0 ≤ wideExperts.tokensPerExpert (src * 1073741824 + e) ∧
      (_ → wideExperts.tokensPerExpert (src * 1073741824 + e) = (histogram wideExperts.topkExperts 1 e : ℕ))
    rw [hrow, hhist]
    split <;> exact ⟨by decide, fun _ => rfl⟩
  · change ∑ e ∈ range 1073741824, wideExperts.tokensPerExpert (src * 1073741824 + e) = 1
    rw [sum_congr rfl fun e he => wideExperts_row src e (Finset.mem_range.1 he),
      Finset.sum_ite_eq', if_pos (Finset.mem_range.2 (by decide))]

theorem wideExperts_overflows :
    validate wideExperts {} (recordsWorkspace 1) = .ok ∧
    ∃ v, Int32Value (ctxOf wideExperts {} (recordsWorkspace 1)) v ∧ ¬ Exact32 v := by
  have hc := validate_ok wideExperts_valid
  have haff := @ctxOf_affinity_lt wideExperts {} (recordsWorkspace 1) nofun
  have hok : (runMoves (ctxOf wideExperts {} (recordsWorkspace 1))).fatal = .ok :=
    ((sim_of_valid hc haff).resolve_right fun hover => absurd hover.2 (by decide)).fatal
  have hbound : Int32Value (ctxOf wideExperts {} (recordsWorkspace 1)) 2147483648 := .clearBound hok
  exact ⟨wideExperts_valid, _, hbound, fun h => absurd (exact32_iff.1 h).2 (by decide)⟩

end TileXR.Plan
