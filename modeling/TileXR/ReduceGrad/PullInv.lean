import TileXR.Lib.Banks
import TileXR.ReduceGrad.Waves

/-!
# The invariant of the owner-pull kernel

A lane is described by three numbers (`View`): how many waves are issued, how many items are published,
and how many of them the leader knows to be done by all helpers. They stay within two of each other, so
that the two banks hold what they should: tokens and items show the last items published (`LaneInv.ready`,
`LaneInv.items`), and a bank that is read has everything its wave asked for (`LaneInv.staged`).

Every gradient element belongs to one helper (`Owns`) and is the sum of what the waves its helper has
come past contribute (`GradInv`).
-/

namespace TileXR.ReduceGrad
open Lib
open Function (update)

variable {k b b' helper blockIdx helperIndex : ℕ} {L : Layout}

section Defs
variable {α : Type*} (t : Task α)

/-! ## Elements and contributions -/

/-- The address of an element of an expert of the rank. -/
def elemAddress (projection localExpert i : ℕ) : ℕ :=
  t.globalExpert localExpert * t.layout.rowBytes projection + 4 * i

/-- The element of a source row that an entry of the plan contributes. -/
def contribution (projection i entry : ℕ) : α :=
  t.sources (entry / t.layout.prefetchSlots) projection
    (entry % t.layout.prefetchSlots * t.layout.rowBytes projection + 4 * i)

/-- Contributions added one by one to the initial gradient. -/
def accumulated [Add α] (gradient₀ : ℕ → ℕ → α) (projection localExpert i : ℕ) (entries : List ℕ) : α :=
  entries.foldl (fun sum entry => sum + contribution t projection i entry)
    (gradient₀ projection (elemAddress t projection localExpert i))

/-- What the first `n` waves of a lane contribute to a chunk. -/
def contributed (lane n localExpert chunk : ℕ) : List ℕ :=
  ((laneWaves t lane).take n).flatMap fun w =>
    if w.localExpert = localExpert ∧ w.chunk = chunk then w.contributors t else []

/-- The chunk and the tile of an element. -/
def chunkOf (i : ℕ) : ℕ := 4 * i / t.layout.chunkBytes
def tileOf (i : ℕ) : ℕ := 4 * i % t.layout.chunkBytes / kReduceGradKernelTileBytes

def tileStart (chunk tile : ℕ) : ℕ :=
  (chunk * t.layout.chunkBytes + tile * kReduceGradKernelTileBytes) / 4

/-! ## A lane -/

def itemAt (lane k : ℕ) : Item :=
  match (laneWaves t lane)[k]? with
  | some w => (pendingWave t lane k (k + 1) w).item t
  | none => terminalItem t (k + 1)

def readsAt (lane k : ℕ) : List Read :=
  match (laneWaves t lane)[k]? with
  | some w => (issueWave t lane (projectionForLane t.layout lane) (k % 2) w).reads
  | none => []

structure View where
  issued : ℕ
  published : ℕ
  known : ℕ

structure IsHelper (L : Layout) (blockIdx lane helperIndex : ℕ) : Prop where
  lo : L.laneCount ≤ blockIdx
  hi : blockIdx < L.blockDim
  eq : helperLane L blockIdx = (lane, helperIndex, helperShape L lane)

/-- The items a helper is through with. -/
def State.served (s : State α) (blockIdx : ℕ) : ℕ := (s.helper blockIdx).sequence - 1

/-- The helpers of a lane with these indices are through with `n` items. -/
def Served (s : State α) (lane n : ℕ) (which : ℕ → Prop) : Prop :=
  ∀ blockIdx helperIndex, IsHelper t.layout blockIdx lane helperIndex → which helperIndex →
    n ≤ s.served blockIdx

/-- Everything a read asked for is in the workspace. -/
def Staged (s : State α) (r : Read) : Prop :=
  ∀ b < r.bytes, s.workspace (r.localOffset + b) = t.sources r.sourceRank r.projection (r.remoteOffset + b)

/-- Between the issue of a wave and the publication of an item. -/
def Between (n wave : ℕ) (v : View) : Prop :=
  (wave < n ∧ 0 < wave ∧ v.issued = wave + 1 ∧ v.published = wave - 1 ∧ v.known = wave - 1) ∨
    (wave = n ∧ 0 < n ∧ v.issued = n ∧ v.published = n - 1 ∧ v.known = n - 2)

def PhaseOk (s : State α) (lane : ℕ) (v : View) : Prop :=
  let l := s.leader lane
  let n := (laneWaves t lane).length
  match l.phase with
  | .begins => l.wave = 0 ∧ v.issued = 0 ∧ v.published = 0 ∧ v.known = 0
  | .await helper =>
    l.wave ≤ n ∧ v.issued = l.wave ∧ v.published = l.wave - 1 ∧ v.known = l.wave - 2 ∧
      (2 ≤ l.wave → Served t s lane (l.wave - 1) (· < helper))
  | .issue => l.wave < n ∧ v.issued = l.wave ∧ v.published = l.wave - 1 ∧ v.known = l.wave - 1
  | .complete => Between n l.wave v
  | .publish => Between n l.wave v ∧ s.item lane (v.published % 2) = itemAt t lane v.published ∧
      ∀ f ∈ s.flight lane, v.published < f.wave
  | .drain => l.wave = n ∧ v.issued = n ∧ (v.published = n - 1 ∨ v.published = n) ∧ v.known = n - 2
  | .lastAwait bank helper => l.wave = n ∧ v.issued = n ∧ v.published = n ∧ v.known = n - 2 ∧
      ∀ k, n - 2 ≤ k → k < n → (k % 2 < bank → Served t s lane (k + 1) fun _ => True) ∧
        (k % 2 = bank → Served t s lane (k + 1) (· < helper))
  | .terminal => l.sequence = n + 1 ∧ v.issued = n ∧ v.published = n ∧ v.known = n
  | .terminalPublish => l.sequence = n + 1 ∧ v.issued = n ∧ v.published = n ∧ v.known = n ∧
      s.item lane (n % 2) = itemAt t lane n
  | .finished => v.issued = n ∧ v.published = n + 1 ∧ v.known = n

/-- The leader has not seen everything done yet. -/
def LeaderPhase.busy : LeaderPhase → Bool
  | .terminal | .terminalPublish | .finished => false
  | _ => true

/-- The variables of a busy leader. -/
structure Locals (lane : ℕ) (l : Leader) (v : View) : Prop where
  sequence : l.sequence = l.wave + 1
  nextReady : l.nextReadySequence = v.published + 1
  bankIssued : ∀ b < 2, l.bankIssued b = true ↔ ∃ k, v.published ≤ k ∧ k < v.issued ∧ k % 2 = b
  bankPublished : ∀ b < 2, l.bankPublished b = true ↔ ∃ k, v.known ≤ k ∧ k < v.published ∧ k % 2 = b
  bankSequence : ∀ k, v.known ≤ k → k < v.published → l.bankSequence (k % 2) = k + 1
  pending : ∀ k w, v.published ≤ k → k < v.issued → (laneWaves t lane)[k]? = some w →
    l.pending (k % 2) = pendingWave t lane k (k + 1) w

def Wave.work (lane : ℕ) (w : Wave) : Work :=
  ⟨projectionForLane t.layout lane, w.localExpert, w.chunk,
    chunkBytesOf t (projectionForLane t.layout lane) w.chunk, w.contributors t⟩

/-- A helper at work on a tile of the `c`-th wave. -/
structure AtWork (lane helperIndex c : ℕ) (work : Work) (tile : ℕ) (w : Wave) : Prop where
  wave : (laneWaves t lane)[c]? = some w
  work_eq : work = w.work t lane
  tile_lt : tile < work.tiles
  index : tile % helperShape t.layout lane = helperIndex

/-- A tile holds the sums of what `c` waves and these further entries contribute. -/
def Sums [Add α] (gradient₀ : ℕ → ℕ → α) (lane c : ℕ) (work : Work) (tile : ℕ) (w : Wave)
    (more : List ℕ) (accum : ℕ → α) : Prop :=
  ∀ i < work.tileBytes tile / 4, accum i = accumulated t gradient₀ work.projection w.localExpert
    (tileStart t w.chunk tile + i) (contributed t lane c w.localExpert w.chunk ++ more)

def HelperOk [Add α] (gradient₀ : ℕ → ℕ → α) (s : State α) (blockIdx lane helperIndex : ℕ) (v : View) :
    Prop :=
  let n := (laneWaves t lane).length
  let c := s.served blockIdx
  match (s.helper blockIdx).phase with
  | .waiting => c ≤ n
  | .loading => c < v.published
  | .adding work tile j remoteOrdinal accum => c < v.published ∧ ∃ w,
      AtWork t lane helperIndex c work tile w ∧ j < work.contributors.length ∧
      remoteOrdinal = ((w.contributors t).take j).countP t.isRemote ∧
      Sums t gradient₀ lane c work tile w ((w.contributors t).take j) accum
  | .storing work tile accum next => c < v.published ∧ ∃ w, AtWork t lane helperIndex c work tile w ∧
      Sums t gradient₀ lane c work tile w (w.contributors t) accum ∧
      (tile + helperShape t.layout lane < work.tiles →
        Sums t gradient₀ lane c work (tile + helperShape t.layout lane) w [] next)
  | .done => c < v.published ∧ c < n
  | .last => c = n ∧ v.published = n + 1
  | .finished => c = n ∧ v.published = n + 1

/-- The items whose done token a helper has stored. -/
def HelperPhase.acknowledged (phase : HelperPhase α) (c : ℕ) : ℕ :=
  match phase with
  | .finished => c + 1
  | _ => c

structure HelperInv [Add α] (token₀ : ℕ → ℕ → ℕ) (gradient₀ : ℕ → ℕ → α) (s : State α)
    (blockIdx lane helperIndex : ℕ) (v : View) : Prop where
  sequence : (s.helper blockIdx).sequence = s.served blockIdx + 1
  known : v.known ≤ s.served blockIdx
  served : s.served blockIdx ≤ v.published
  phase : HelperOk t gradient₀ s blockIdx lane helperIndex v
  done : ∀ b < 2, s.token lane (bankDoneToken b helperIndex) =
    shown (token₀ lane (bankDoneToken b helperIndex)) (fun k => laneToken t (k + 1)) b
      ((s.helper blockIdx).phase.acknowledged (s.served blockIdx))

structure LaneInv [Add α] (token₀ : ℕ → ℕ → ℕ) (gradient₀ : ℕ → ℕ → α) (s : State α) (lane : ℕ)
    (v : View) : Prop where
  phase : PhaseOk t s lane v
  locals : (s.leader lane).phase.busy → Locals t lane (s.leader lane) v
  ready : ∀ b < 2, s.token lane (bankReady b) =
    shown (token₀ lane (bankReady b)) (fun k => laneToken t (k + 1)) b v.published
  abort : s.token lane kReduceGradLaneErrorOffset = token₀ lane kReduceGradLaneErrorOffset
  items : ∀ k, v.known ≤ k → k < v.published → s.item lane (k % 2) = itemAt t lane k
  flights : ∀ f ∈ s.flight lane,
    v.published ≤ f.wave ∧ f.wave < v.issued ∧ f.read ∈ readsAt t lane f.wave
  staged : ∀ k, v.known ≤ k → k < v.issued → ∀ r ∈ readsAt t lane k,
    ⟨k, r⟩ ∈ s.flight lane ∨ Staged t s r
  helpers : ∀ blockIdx helperIndex, IsHelper t.layout blockIdx lane helperIndex →
    HelperInv t token₀ gradient₀ s blockIdx lane helperIndex v

/-! ## The gradient -/

/-- The waves a helper has put into a tile. -/
def HelperPhase.applied (phase : HelperPhase α) (c tile : ℕ) : ℕ :=
  match phase with
  | .adding _ current _ _ _ => if tile < current then c + 1 else c
  | .storing _ current _ _ => if tile < current then c + 1 else c
  | .done => c + 1
  | _ => c

/-- An element is in the care of a helper. -/
structure Owns (blockIdx projection localExpert i : ℕ) : Prop where
  projection_lt : projection < kReduceGradProjectionCount
  expert : localExpert < t.layout.expertsPerRank
  element : i < t.layout.rowElements projection
  helper : IsHelper t.layout blockIdx (ownerLane t.layout projection localExpert (chunkOf t i))
    (tileOf t i % helperShape t.layout (ownerLane t.layout projection localExpert (chunkOf t i)))

def GradInv [Add α] (gradient₀ : ℕ → ℕ → α) (s : State α) : Prop :=
  ∀ blockIdx projection localExpert i, Owns t blockIdx projection localExpert i →
    s.gradient projection (elemAddress t projection localExpert i) =
      accumulated t gradient₀ projection localExpert i
        (contributed t (ownerLane t.layout projection localExpert (chunkOf t i))
          ((s.helper blockIdx).phase.applied (s.served blockIdx) (tileOf t i)) localExpert (chunkOf t i))

def StoredInv (s : State α) : Prop :=
  ∀ projection x, s.stored projection x = true → projection < kReduceGradProjectionCount ∧
    ∃ localExpert < t.layout.expertsPerRank, ∃ i < t.layout.rowElements projection,
      x = elemAddress t projection localExpert i

structure Inv [Add α] (token₀ : ℕ → ℕ → ℕ) (gradient₀ : ℕ → ℕ → α) (s : State α) : Prop where
  status : s.status = 0
  lanes : ∀ lane < t.layout.laneCount, ∃ v, LaneInv t token₀ gradient₀ s lane v
  gradient : GradInv t gradient₀ s
  stored : StoredInv t s

end Defs

/-! ## Reading the invariant -/

section Facts
variable {α : Type*} {t : Task α} {s : State α} {lane : ℕ} {v : View}

/-- The words of the lanes show no token of this launch at first. -/
def Fresh (t : Task α) (token₀ : ℕ → ℕ → ℕ) : Prop :=
  ∀ lane offset, token₀ lane offset / 2 ^ 32 ≠ t.magic % 2 ^ 32

theorem laneToken_div (hk : k < 2 ^ 32) : laneToken t k / 2 ^ 32 = t.magic % 2 ^ 32 := by
  rw [laneToken, Nat.add_comm, Nat.add_mul_div_right _ _ (by decide), Nat.div_eq_of_lt hk, Nat.zero_add]

theorem laneToken_inj {k' : ℕ} (h : laneToken t k = laneToken t k') : k = k' :=
  Nat.add_left_cancel h

theorem Fresh.ne {token₀ : ℕ → ℕ → ℕ} (h : Fresh t token₀) (hk : k < 2 ^ 32) (offset : ℕ) :
    token₀ lane offset ≠ laneToken t k := fun heq => h lane offset (heq ▸ laneToken_div hk)

theorem bankOf_succ (k : ℕ) : bankOf (k + 1) = k % 2 := by
  rw [bankOf, uint32Max, kReduceGradBankCount]
  omega

theorem bankReady_ne (h : b ≠ b') : bankReady b ≠ bankReady b' := by
  simp only [bankReady, kReduceGradBankReadyOffset, kReduceGradLaneFlagStrideBytes]
  omega

theorem bankReady_ne_done (hb : b < 2) : bankReady b ≠ bankDoneToken b' helper := by
  simp only [bankReady, bankDoneToken, kReduceGradBankReadyOffset, kReduceGradLaneFlagStrideBytes,
    kReduceGradBankDoneOffset, kReduceGradBankCount]
  omega

theorem bankReady_ne_error (hb : b < 2) : bankReady b ≠ kReduceGradLaneErrorOffset := by
  have : kReduceGradLaneErrorOffset = 4352 := by decide
  simp only [bankReady, kReduceGradBankReadyOffset, kReduceGradLaneFlagStrideBytes]
  omega

theorem bankDoneToken_ne_error (hb : b < 2) (hh : helper < kReduceGradDoneTokenCount) :
    bankDoneToken b helper ≠ kReduceGradLaneErrorOffset := by
  have : kReduceGradLaneErrorOffset = 4352 := by decide
  simp only [bankDoneToken, kReduceGradBankDoneOffset, kReduceGradBankCount, kReduceGradDoneTokenCount,
    kReduceGradLaneFlagStrideBytes, kReduceGradDoneBankStrideBytes, kReduceGradDoneTokenBytes] at *
  omega

theorem bankDoneToken_inj {helper' : ℕ} (hh : helper < kReduceGradDoneTokenCount)
    (hh' : helper' < kReduceGradDoneTokenCount) (h : bankDoneToken b helper = bankDoneToken b' helper') :
    b = b' ∧ helper = helper' := by
  simp only [bankDoneToken, kReduceGradBankDoneOffset, kReduceGradBankCount, kReduceGradDoneTokenCount,
    kReduceGradLaneFlagStrideBytes, kReduceGradDoneBankStrideBytes, kReduceGradDoneTokenBytes] at *
  omega

theorem IsHelper.index_lt (hL : L.Accepted) {lane : ℕ} (h : IsHelper L blockIdx lane helperIndex) :
    helperIndex < helperShape L lane :=
  (helperLane_spec hL h.lo h.hi h.eq).2.2.1

theorem IsHelper.lane_lt (hL : L.Accepted) {lane : ℕ} (h : IsHelper L blockIdx lane helperIndex) :
    lane < L.laneCount :=
  (helperLane_spec hL h.lo h.hi h.eq).1

theorem helperBegin_eq (L : Layout) (lane : ℕ) : helperBegin L lane =
    L.laneCount + lane * ((L.blockDim - L.laneCount) / L.laneCount) +
      min lane ((L.blockDim - L.laneCount) % L.laneCount) := by
  rw [helperBegin]
  split <;> omega

theorem IsHelper.block_eq (hL : L.Accepted) {lane : ℕ} (h : IsHelper L blockIdx lane helperIndex) :
    blockIdx = helperBegin L lane + helperIndex := by
  rw [helperBegin_eq]
  exact (helperLane_spec hL h.lo h.hi h.eq).2.2.2

theorem IsHelper.unique {lane lane' helperIndex' : ℕ} (h : IsHelper L blockIdx lane helperIndex)
    (h' : IsHelper L blockIdx lane' helperIndex') : lane = lane' ∧ helperIndex = helperIndex' := by
  have := h.eq.symm.trans h'.eq
  simp only [Prod.mk.injEq] at this
  exact ⟨this.1, this.2.1⟩

theorem IsHelper.block_unique (hL : L.Accepted) {blockIdx' lane : ℕ} (h : IsHelper L blockIdx lane helperIndex)
    (h' : IsHelper L blockIdx' lane helperIndex) : blockIdx = blockIdx' := by
  rw [(helperLane_spec hL h.lo h.hi h.eq).2.2.2, (helperLane_spec hL h'.lo h'.hi h'.eq).2.2.2]

theorem isHelper_of_block (hL : L.Accepted) (hlo : L.laneCount ≤ blockIdx) (hhi : blockIdx < L.blockDim) :
    IsHelper L blockIdx (helperLane L blockIdx).1 (helperLane L blockIdx).2.1 := by
  rcases h : helperLane L blockIdx with ⟨lane, helperIndex, helperCount⟩
  exact ⟨hlo, hhi, by rw [h, (helperLane_spec hL hlo hhi h).2.1]⟩

structure Bounds (n : ℕ) (v : View) : Prop where
  known : v.known ≤ v.published
  published : v.published ≤ n + 1
  issued : v.issued ≤ n
  banks : v.issued ≤ v.known + 2
  order : v.published ≤ v.issued ∨ v.published = n + 1 ∧ v.issued = n ∧ v.known = n

theorem PhaseOk.bounds (h : PhaseOk t s lane v) : Bounds (laneWaves t lane).length v := by
  unfold PhaseOk at h
  dsimp only at h
  split at h
  case h_4 => rcases h with h | h <;> constructor <;> omega
  case h_5 => rcases h.1 with h | h <;> constructor <;> omega
  all_goals constructor <;> omega

end Facts

end TileXR.ReduceGrad
