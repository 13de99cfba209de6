import Mathlib.Tactic.Linarith
import TileXR.Checked

/-!
# The UDMA workspace of the expert-parallel operations

A workspace holds two operations and a status word. An operation has a send and a receive window, a ready
flag for every rank, a relay slot for every pair of ranks and a relay-ready flag for every rank. The host
computes the size with checked sums (`ep_layout.cpp`), the kernel every offset with plain ones
(`tilexr_ep_kernel_common.h`). For what the host accepts the two agree, no sum of the kernel overflows and
the areas lie side by side (`workspace_layout`).
-/

namespace TileXR.Ep
open Option (bind_eq_some_iff bind_eq_bind bind_some)
variable {dstRank srcRank x : ℤ}

def kEpWindowAlignmentBytes : ℤ := 32
def udmaCacheLineSize : ℤ := 64
def maxRankSize : ℤ := 128
def sizeofUint64 : ℤ := 8

/-! ## Host -/

/-- `TileXREpUdmaOperationBytes`; `TILEXR_INVALID_VALUE` is `none`. -/
def tileXREpUdmaOperationBytes (totalBytes rankSize slotBytes : ℤ) : Option ℤ := do
  guard (0 < totalBytes ∧ 0 < rankSize ∧ rankSize ≤ maxRankSize ∧ 0 < slotBytes)
  let alignedTotal ← alignUpInt64 totalBytes kEpWindowAlignmentBytes
  let readyBytes ← mulInt64 rankSize sizeofUint64
  let doubleTotal ← mulInt64 alignedTotal 2
  let readyOffset ← addInt64 doubleTotal readyBytes
  let relaySlotsOffset ← alignUpInt64 readyOffset udmaCacheLineSize
  let rankSquare ← mulInt64 rankSize rankSize
  let relayBytes ← mulInt64 rankSquare slotBytes
  let relayEnd ← addInt64 relaySlotsOffset relayBytes
  let relayReadyBase ← alignUpInt64 relayEnd udmaCacheLineSize
  let relayReadyEnd ← addInt64 relayReadyBase readyBytes
  alignUpInt64 relayReadyEnd udmaCacheLineSize

def tileXREpUdmaRequiredWorkspaceBytes (totalBytes rankSize slotBytes : ℤ) : Option ℤ := do
  let operationBytes ← tileXREpUdmaOperationBytes totalBytes rankSize slotBytes
  let twoOperations ← mulInt64 operationBytes 2
  let withStatus ← addInt64 twoOperations sizeofUint64
  alignUpInt64 withStatus udmaCacheLineSize

/-- `TileXREpUdmaStatusOffset` of `ep_kernel_launch.cpp`, where the host reads the status word. -/
def tileXREpUdmaStatusOffset (totalBytes rankSize slotBytes : ℤ) : Option ℤ := do
  let operationBytes ← tileXREpUdmaOperationBytes totalBytes rankSize slotBytes
  guard (operationBytes ≤ maxInt64 / 2)
  return operationBytes * 2

/-! ## Kernel -/

/-- The result of an `int64_t` operation. An overflow is undefined. -/
def int64 (x : ℤ) : Option ℤ := if -2 ^ 63 ≤ x ∧ x ≤ maxInt64 then some x else none

def alignUp (value alignment : ℤ) : Option ℤ :=
  if alignment ≤ 0 then some value
  else if value.tmod alignment = 0 then some value
  else do
    let sum ← int64 (value + alignment)
    int64 (sum - value.tmod alignment)

def udmaReadyOffset (totalBytes rank : ℤ) : Option ℤ := do
  let window ← alignUp totalBytes kEpWindowAlignmentBytes
  let windows ← int64 (window * 2)
  let flags ← int64 (rank * sizeofUint64)
  int64 (windows + flags)

def udmaRecvWindowOffset (totalBytes : ℤ) : Option ℤ := alignUp totalBytes kEpWindowAlignmentBytes

def udmaRelaySlotsOffset (totalBytes rankSize : ℤ) : Option ℤ := do
  let readyBytes ← udmaReadyOffset totalBytes rankSize
  alignUp readyBytes udmaCacheLineSize

def udmaRelaySlotOffset (totalBytes rankSize srcRank dstRank slotBytes : ℤ) : Option ℤ := do
  let row ← int64 (srcRank * rankSize)
  let slotIndex ← int64 (row + dstRank)
  let slots ← udmaRelaySlotsOffset totalBytes rankSize
  let bytes ← int64 (slotIndex * slotBytes)
  int64 (slots + bytes)

def udmaRelayReadyBaseOffset (totalBytes rankSize slotBytes : ℤ) : Option ℤ := do
  let rankSquare ← int64 (rankSize * rankSize)
  let relayBytes ← int64 (rankSquare * slotBytes)
  let slots ← udmaRelaySlotsOffset totalBytes rankSize
  let relayEnd ← int64 (slots + relayBytes)
  alignUp relayEnd udmaCacheLineSize

def udmaRelayReadyOffset (totalBytes rankSize slotBytes srcRank : ℤ) : Option ℤ := do
  let base ← udmaRelayReadyBaseOffset totalBytes rankSize slotBytes
  let flags ← int64 (srcRank * sizeofUint64)
  int64 (base + flags)

/-- `UDMAOperationBytes`, and `UDMASecondOperationOffset` -/
def udmaOperationBytes (totalBytes rankSize slotBytes : ℤ) : Option ℤ := do
  let relayReadyBytes ← int64 (rankSize * sizeofUint64)
  let base ← udmaRelayReadyBaseOffset totalBytes rankSize slotBytes
  let relayReadyEnd ← int64 (base + relayReadyBytes)
  alignUp relayReadyEnd udmaCacheLineSize

def udmaStatusOffset (totalBytes rankSize slotBytes : ℤ) : Option ℤ := do
  let second ← udmaOperationBytes totalBytes rankSize slotBytes
  let operationBytes ← udmaOperationBytes totalBytes rankSize slotBytes
  int64 (second + operationBytes)

def udmaRequiredWorkspaceBytes (totalBytes rankSize slotBytes : ℤ) : Option ℤ := do
  let status ← udmaStatusOffset totalBytes rankSize slotBytes
  let withStatus ← int64 (status + sizeofUint64)
  alignUp withStatus udmaCacheLineSize

/-! ## Areas -/

/-- What an operation keeps in the workspace. -/
inductive OperationArea where
  | sendWindow
  | recvWindow
  | readyFlag (rank : ℤ)
  | relaySlot (srcRank dstRank : ℤ)
  | relayReadyFlag (srcRank : ℤ)
  deriving DecidableEq

/-- What the workspace holds: the areas of both operations and the status word. -/
inductive WorkspaceArea where
  | first (area : OperationArea)
  | second (area : OperationArea)
  | status
  deriving DecidableEq

def OperationArea.Valid (rankSize : ℤ) : OperationArea → Prop
  | sendWindow => True
  | recvWindow => True
  | readyFlag rank => 0 ≤ rank ∧ rank < rankSize
  | relaySlot srcRank dstRank => (0 ≤ srcRank ∧ srcRank < rankSize) ∧ 0 ≤ dstRank ∧ dstRank < rankSize
  | relayReadyFlag srcRank => 0 ≤ srcRank ∧ srcRank < rankSize

def WorkspaceArea.Valid (rankSize : ℤ) : WorkspaceArea → Prop
  | first area => area.Valid rankSize
  | second area => area.Valid rankSize
  | status => True

variable {area : OperationArea}

section Sizes
variable (totalBytes rankSize slotBytes : ℤ)

def OperationArea.bytes : OperationArea → ℤ
  | sendWindow => totalBytes
  | recvWindow => totalBytes
  | readyFlag _ => sizeofUint64
  | relaySlot _ _ => slotBytes
  | relayReadyFlag _ => sizeofUint64

def WorkspaceArea.bytes : WorkspaceArea → ℤ
  | first area => area.bytes totalBytes slotBytes
  | second area => area.bytes totalBytes slotBytes
  | status => sizeofUint64

/-- Where the kernel has the area, from the start of the operation on. -/
def OperationArea.offset : OperationArea → Option ℤ
  | sendWindow => some 0
  | recvWindow => udmaRecvWindowOffset totalBytes
  | readyFlag rank => udmaReadyOffset totalBytes rank
  | relaySlot srcRank dstRank => udmaRelaySlotOffset totalBytes rankSize srcRank dstRank slotBytes
  | relayReadyFlag srcRank => udmaRelayReadyOffset totalBytes rankSize slotBytes srcRank

def WorkspaceArea.offset : WorkspaceArea → Option ℤ
  | first area => area.offset totalBytes rankSize slotBytes
  | second area => do
    let base ← udmaOperationBytes totalBytes rankSize slotBytes
    let offset ← area.offset totalBytes rankSize slotBytes
    int64 (base + offset)
  | status => udmaStatusOffset totalBytes rankSize slotBytes

/-! ## What the host accepts -/

/-- The offsets the host has computed, in the order in which they follow each other. -/
structure UdmaLayout where
  window : ℤ
  relaySlots : ℤ
  relayReady : ℤ
  operation : ℤ
  workspace : ℤ
  total_pos : 0 < totalBytes
  rank_pos : 0 < rankSize
  slot_pos : 0 < slotBytes
  window_eq : alignUpInt64 totalBytes kEpWindowAlignmentBytes = some window
  relaySlots_eq : alignUpInt64 (window * 2 + rankSize * 8) udmaCacheLineSize = some relaySlots
  relayReady_eq :
    alignUpInt64 (relaySlots + rankSize * rankSize * slotBytes) udmaCacheLineSize = some relayReady
  operation_eq : alignUpInt64 (relayReady + rankSize * 8) udmaCacheLineSize = some operation
  workspace_eq : alignUpInt64 (operation * 2 + 8) udmaCacheLineSize = some workspace
  workspace_le : workspace ≤ maxInt64

end Sizes

variable {totalBytes rankSize slotBytes : ℤ}

theorem operationBytes_cases {operation : ℤ}
    (h : tileXREpUdmaOperationBytes totalBytes rankSize slotBytes = some operation) :
    (0 < totalBytes ∧ 0 < rankSize ∧ rankSize ≤ maxRankSize ∧ 0 < slotBytes) ∧ ∃ window relaySlots relayReady,
        alignUpInt64 totalBytes kEpWindowAlignmentBytes = some window ∧
        alignUpInt64 (window * 2 + rankSize * 8) udmaCacheLineSize = some relaySlots ∧
        alignUpInt64 (relaySlots + rankSize * rankSize * slotBytes) udmaCacheLineSize = some relayReady ∧
        alignUpInt64 (relayReady + rankSize * 8) udmaCacheLineSize = some operation := by
  unfold tileXREpUdmaOperationBytes at h
  obtain ⟨hguard, h⟩ := guard_bind h
  obtain ⟨window, hwindow, h⟩ := bind_eq_some_iff.1 h
  obtain ⟨readyBytes, hready, h⟩ := bind_eq_some_iff.1 h
  obtain ⟨doubleTotal, hdouble, h⟩ := bind_eq_some_iff.1 h
  obtain ⟨readyOffset, hoffset, h⟩ := bind_eq_some_iff.1 h
  obtain ⟨relaySlots, hslots, h⟩ := bind_eq_some_iff.1 h
  obtain ⟨rankSquare, hsquare, h⟩ := bind_eq_some_iff.1 h
  obtain ⟨relayBytes, hrelay, h⟩ := bind_eq_some_iff.1 h
  obtain ⟨relayEnd, hend, h⟩ := bind_eq_some_iff.1 h
  obtain ⟨relayReady, hbase, h⟩ := bind_eq_some_iff.1 h
  obtain ⟨readyEnd, hlast, h⟩ := bind_eq_some_iff.1 h
  obtain ⟨-, -, rfl⟩ := mulInt64_eq hready
  obtain ⟨-, -, rfl⟩ := mulInt64_eq hdouble
  obtain ⟨-, -, rfl⟩ := addInt64_eq hoffset
  obtain ⟨-, -, rfl⟩ := mulInt64_eq hsquare
  obtain ⟨-, -, rfl⟩ := mulInt64_eq hrelay
  obtain ⟨-, -, rfl⟩ := addInt64_eq hend
  obtain ⟨-, -, rfl⟩ := addInt64_eq hlast
  exact ⟨hguard, window, relaySlots, relayReady, hwindow, hslots, hbase, h⟩

theorem exists_udmaLayout {workspace : ℤ}
    (h : tileXREpUdmaRequiredWorkspaceBytes totalBytes rankSize slotBytes = some workspace) :
    ∃ l : UdmaLayout totalBytes rankSize slotBytes, l.workspace = workspace ∧
      tileXREpUdmaOperationBytes totalBytes rankSize slotBytes = some l.operation := by
  unfold tileXREpUdmaRequiredWorkspaceBytes at h
  obtain ⟨operation, hoperation, h⟩ := bind_eq_some_iff.1 h
  obtain ⟨twoOperations, htwo, h⟩ := bind_eq_some_iff.1 h
  obtain ⟨withStatus, hstatus, hworkspace⟩ := bind_eq_some_iff.1 h
  have hle := alignUpInt64_le hworkspace (addInt64_le hstatus)
  obtain ⟨-, -, rfl⟩ := mulInt64_eq htwo
  obtain ⟨-, -, rfl⟩ := addInt64_eq hstatus
  obtain ⟨⟨htotal, hrank, -, hslot⟩, window, relaySlots, relayReady, hw, hs, hr, ho⟩ :=
    operationBytes_cases hoperation
  exact ⟨⟨window, relaySlots, relayReady, operation, workspace, htotal, hrank, hslot, hw, hs, hr, ho, hworkspace,
    hle⟩, rfl, hoperation⟩

/-! ## The kernel computes the same offsets -/

theorem int64_of_le (h : 0 ≤ x) (h' : x ≤ maxInt64) : int64 x = some x := by
  rw [int64, if_pos ⟨by omega, h'⟩]

/-- Where the host's rounding succeeds the kernel's does, also its sum before the remainder is taken off. -/
theorem alignUp_eq {value alignment out : ℤ} (h : alignUpInt64 value alignment = some out)
    (hdvd : alignment ∣ 2 ^ 63) : alignUp value alignment = some out := by
  obtain ⟨hvalue, hpos, -, -, hout⟩ := alignUpInt64_spec h
  unfold alignUpInt64 at h
  rw [if_neg (by omega)] at h
  rw [alignUp, if_neg (by omega), Int.tmod_eq_emod_of_nonneg hvalue]
  have hmod := Int.emod_lt_of_pos value hpos
  have hnonneg := Int.emod_nonneg value hpos.ne'
  split_ifs at h ⊢ with hzero
  · exact h
  · have hle := addInt64_le h
    obtain ⟨-, -, rfl⟩ := addInt64_eq h
    -- the next multiple is at most the last one below `2^63`
    have hlast : value + (alignment - value % alignment) + alignment ≤ 2 ^ 63 := by
      obtain ⟨q, hq⟩ := hout
      obtain ⟨q', hq'⟩ := hdvd
      rw [hq, hq']
      have hlt : q < q' := by
        refine lt_of_mul_lt_mul_left (a := alignment) ?_ hpos.le
        rw [← hq, ← hq']
        unfold maxInt64 at hle
        omega
      have := Int.mul_le_mul_of_nonneg_left (Int.add_one_le_of_lt hlt) hpos.le
      rw [mul_add, mul_one] at this
      exact this
    unfold maxInt64 at hle
    rw [int64_of_le (by omega) (by unfold maxInt64; omega), bind_eq_bind, bind_some,
      show value + alignment - value % alignment = value + (alignment - value % alignment) by omega]
    exact int64_of_le (by omega) (by unfold maxInt64; omega)

namespace UdmaLayout
variable (l : UdmaLayout totalBytes rankSize slotBytes)
include l

/-- The sizes in order, with the square of the ranks. -/
theorem order : (0 < totalBytes ∧ 0 < rankSize ∧ 0 < slotBytes) ∧
    (0 ≤ rankSize * rankSize ∧ rankSize * rankSize ≤ rankSize * rankSize * slotBytes) ∧
    totalBytes ≤ l.window ∧ l.window * 2 + rankSize * 8 ≤ l.relaySlots ∧
    l.relaySlots + rankSize * rankSize * slotBytes ≤ l.relayReady ∧
    l.relayReady + rankSize * 8 ≤ l.operation ∧ l.operation * 2 + 8 ≤ l.workspace :=
  ⟨⟨l.total_pos, l.rank_pos, l.slot_pos⟩,
    ⟨mul_self_nonneg _, le_mul_of_one_le_right (mul_self_nonneg _) l.slot_pos⟩,
    (alignUpInt64_spec l.window_eq).2.2.1, (alignUpInt64_spec l.relaySlots_eq).2.2.1,
    (alignUpInt64_spec l.relayReady_eq).2.2.1, (alignUpInt64_spec l.operation_eq).2.2.1,
    (alignUpInt64_spec l.workspace_eq).2.2.1⟩

theorem relaySlot_bounds (hsrc : 0 ≤ srcRank ∧ srcRank < rankSize) (hdst : 0 ≤ dstRank ∧ dstRank < rankSize) :
    0 ≤ srcRank * rankSize ∧ srcRank * rankSize + dstRank ≤ rankSize * rankSize ∧
    0 ≤ (srcRank * rankSize + dstRank) * slotBytes ∧
      (srcRank * rankSize + dstRank) * slotBytes + slotBytes ≤ rankSize * rankSize * slotBytes := by
  have hrow : 0 ≤ srcRank * rankSize := mul_nonneg hsrc.1 l.rank_pos.le
  have hrows : (srcRank + 1) * rankSize ≤ rankSize * rankSize :=
    mul_le_mul_of_nonneg_right (Int.add_one_le_of_lt hsrc.2) l.rank_pos.le
  rw [add_mul, one_mul] at hrows
  have hslot := mul_le_mul_of_nonneg_right
    (show srcRank * rankSize + dstRank + 1 ≤ rankSize * rankSize by omega) l.slot_pos.le
  rw [add_mul, one_mul] at hslot
  exact ⟨hrow, by omega, mul_nonneg (by omega) l.slot_pos.le, hslot⟩

theorem int64_eq (h : 0 ≤ x) (h' : x ≤ l.workspace) : int64 x = some x :=
  int64_of_le h (h'.trans l.workspace_le)

theorem recvWindowOffset_eq : udmaRecvWindowOffset totalBytes = some l.window :=
  alignUp_eq l.window_eq (by decide)

theorem readyOffset_eq {rank : ℤ} (h : 0 ≤ rank) (h' : rank ≤ rankSize) :
    udmaReadyOffset totalBytes rank = some (l.window * 2 + rank * 8) := by
  have hwindow : alignUp totalBytes kEpWindowAlignmentBytes = some l.window := l.recvWindowOffset_eq
  have horder := l.order
  simp only [udmaReadyOffset, sizeofUint64, hwindow, bind_eq_bind, bind_some]
  rw [l.int64_eq (by omega) (by omega), bind_some, l.int64_eq (by omega) (by omega), bind_some,
    l.int64_eq (by omega) (by omega)]

theorem relaySlotsOffset_eq : udmaRelaySlotsOffset totalBytes rankSize = some l.relaySlots := by
  rw [udmaRelaySlotsOffset, l.readyOffset_eq l.rank_pos.le le_rfl]
  exact alignUp_eq l.relaySlots_eq (by decide)

theorem relaySlotOffset_eq (hsrc : 0 ≤ srcRank ∧ srcRank < rankSize) (hdst : 0 ≤ dstRank ∧ dstRank < rankSize) :
    udmaRelaySlotOffset totalBytes rankSize srcRank dstRank slotBytes =
      some (l.relaySlots + (srcRank * rankSize + dstRank) * slotBytes) := by
  obtain ⟨hrow, hindex, hbytes, hlast⟩ := l.relaySlot_bounds hsrc hdst
  have horder := l.order
  rw [udmaRelaySlotOffset, l.relaySlotsOffset_eq, l.int64_eq hrow (by omega), bind_eq_bind,
    bind_some, l.int64_eq (by omega) (by omega), bind_some, bind_some,
    l.int64_eq hbytes (by omega)]
  exact l.int64_eq (by omega) (by omega)

theorem relayReadyBaseOffset_eq : udmaRelayReadyBaseOffset totalBytes rankSize slotBytes = some l.relayReady := by
  have horder := l.order
  rw [udmaRelayReadyBaseOffset, l.int64_eq (mul_self_nonneg _) (by omega), bind_eq_bind,
    bind_some, l.int64_eq (by omega) (by omega), bind_some, l.relaySlotsOffset_eq,
    bind_some, l.int64_eq (by omega) (by omega)]
  exact alignUp_eq l.relayReady_eq (by decide)

theorem relayReadyOffset_eq (hsrc : 0 ≤ srcRank ∧ srcRank < rankSize) :
    udmaRelayReadyOffset totalBytes rankSize slotBytes srcRank = some (l.relayReady + srcRank * 8) := by
  have horder := l.order
  rw [udmaRelayReadyOffset, l.relayReadyBaseOffset_eq, bind_eq_bind, bind_some, sizeofUint64,
    l.int64_eq (by omega) (by omega)]
  exact l.int64_eq (by omega) (by omega)

theorem operationBytes_eq : udmaOperationBytes totalBytes rankSize slotBytes = some l.operation := by
  have horder := l.order
  rw [udmaOperationBytes, sizeofUint64, l.int64_eq (by omega) (by omega), bind_eq_bind,
    bind_some, l.relayReadyBaseOffset_eq, bind_some,
    l.int64_eq (by omega) (by omega)]
  exact alignUp_eq l.operation_eq (by decide)

theorem statusOffset_eq : udmaStatusOffset totalBytes rankSize slotBytes = some (l.operation * 2) := by
  have horder := l.order
  rw [udmaStatusOffset, l.operationBytes_eq, bind_eq_bind, bind_some, bind_some, mul_two]
  exact l.int64_eq (by omega) (by omega)

theorem requiredWorkspaceBytes_eq : udmaRequiredWorkspaceBytes totalBytes rankSize slotBytes = some l.workspace := by
  have horder := l.order
  rw [udmaRequiredWorkspaceBytes, l.statusOffset_eq, bind_eq_bind, bind_some, sizeofUint64,
    l.int64_eq (by omega) (by omega)]
  exact alignUp_eq l.workspace_eq (by decide)

/-! ## The areas lie side by side -/

def start : OperationArea → ℤ
  | .sendWindow => 0
  | .recvWindow => l.window
  | .readyFlag rank => l.window * 2 + rank * 8
  | .relaySlot srcRank dstRank => l.relaySlots + (srcRank * rankSize + dstRank) * slotBytes
  | .relayReadyFlag srcRank => l.relayReady + srcRank * 8

theorem offset_eq (h : area.Valid rankSize) : area.offset totalBytes rankSize slotBytes = some (l.start area) := by
  cases area with
  | sendWindow => rfl
  | recvWindow => exact l.recvWindowOffset_eq
  | readyFlag rank => exact l.readyOffset_eq h.1 h.2.le
  | relaySlot srcRank dstRank => exact l.relaySlotOffset_eq h.1 h.2
  | relayReadyFlag srcRank => exact l.relayReadyOffset_eq h

def part : OperationArea → ℤ × ℤ
  | .sendWindow => (0, l.window)
  | .recvWindow => (l.window, l.window * 2)
  | .readyFlag _ => (l.window * 2, l.relaySlots)
  | .relaySlot _ _ => (l.relaySlots, l.relayReady)
  | .relayReadyFlag _ => (l.relayReady, l.operation)

theorem start_in_part (h : area.Valid rankSize) :
    (l.part area).1 ≤ l.start area ∧ l.start area + area.bytes totalBytes slotBytes ≤ (l.part area).2 := by
  have horder := l.order
  cases area with
  | sendWindow | recvWindow =>
    simp only [start, part, OperationArea.bytes]
    omega
  | readyFlag rank | relayReadyFlag rank =>
    obtain ⟨hrank, hrank'⟩ := h
    simp only [start, part, OperationArea.bytes, sizeofUint64]
    omega
  | relaySlot srcRank dstRank =>
    obtain ⟨-, -, hbytes, hlast⟩ := l.relaySlot_bounds h.1 h.2
    simp only [start, part, OperationArea.bytes]
    omega

theorem relaySlot_apart {srcRank' dstRank' : ℤ} (hdst : 0 ≤ dstRank ∧ dstRank < rankSize)
    (hdst' : 0 ≤ dstRank' ∧ dstRank' < rankSize) (hne : srcRank ≠ srcRank' ∨ dstRank ≠ dstRank') :
    (srcRank * rankSize + dstRank) * slotBytes + slotBytes ≤ (srcRank' * rankSize + dstRank') * slotBytes ∨
      (srcRank' * rankSize + dstRank') * slotBytes + slotBytes ≤ (srcRank * rankSize + dstRank) * slotBytes := by
  have hnext : ∀ {i j : ℤ}, i < j → i * slotBytes + slotBytes ≤ j * slotBytes := by
    intro i j hlt
    have := mul_le_mul_of_nonneg_right (Int.add_one_le_of_lt hlt) l.slot_pos.le
    rwa [add_mul, one_mul] at this
  -- the rank of the destination is the last digit of the index
  have hindex : srcRank * rankSize + dstRank ≠ srcRank' * rankSize + dstRank' := by
    intro heq
    have hmod := congrArg (· % rankSize) heq
    simp only [Int.mul_add_emod_self_right, Int.emod_eq_of_lt hdst.1 hdst.2,
      Int.emod_eq_of_lt hdst'.1 hdst'.2] at hmod
    rw [hmod] at heq
    have hsrc := mul_right_cancel₀ l.rank_pos.ne' (add_right_cancel heq)
    exact hne.elim (fun h => h hsrc) fun h => h hmod
  rcases lt_or_gt_of_ne hindex with hlt | hlt
  · exact .inl (hnext hlt)
  · exact .inr (hnext hlt)

theorem start_apart {area' : OperationArea} (h : area.Valid rankSize) (h' : area'.Valid rankSize)
    (hne : area ≠ area') : l.start area + area.bytes totalBytes slotBytes ≤ l.start area' ∨
      l.start area' + area'.bytes totalBytes slotBytes ≤ l.start area := by
  have horder := l.order
  obtain ⟨hstart, hend⟩ := l.start_in_part h
  obtain ⟨hstart', hend'⟩ := l.start_in_part h'
  cases area <;> cases area'
  case sendWindow.sendWindow | recvWindow.recvWindow => exact absurd rfl hne
  case readyFlag.readyFlag | relayReadyFlag.relayReadyFlag =>
    simp only [Ne, OperationArea.readyFlag.injEq, OperationArea.relayReadyFlag.injEq] at hne
    simp only [start, OperationArea.bytes, sizeofUint64]
    omega
  case relaySlot.relaySlot srcRank dstRank srcRank' dstRank' =>
    rw [Ne, OperationArea.relaySlot.injEq, not_and_or] at hne
    have := l.relaySlot_apart h.2 h'.2 hne
    simp only [start, OperationArea.bytes]
    omega
  -- areas of different kinds lie in different parts
  all_goals
    simp only [part] at hstart hend hstart' hend'
    omega

theorem start_in_operation (h : area.Valid rankSize) :
    0 ≤ l.start area ∧ l.start area + area.bytes totalBytes slotBytes ≤ l.operation := by
  have horder := l.order
  obtain ⟨hstart, hend⟩ := l.start_in_part h
  cases area <;> simp only [part] at hstart hend <;> omega

theorem bytes_pos (area : OperationArea) : 0 < area.bytes totalBytes slotBytes := by
  cases area with
  | sendWindow | recvWindow => exact l.total_pos
  | relaySlot => exact l.slot_pos
  | readyFlag | relayReadyFlag => exact (by decide : (0 : ℤ) < 8)

theorem operation_pos : 0 < l.operation :=
  (l.bytes_pos .sendWindow).trans_le
    ((zero_add _).ge.trans (l.start_in_operation (show OperationArea.sendWindow.Valid rankSize from trivial)).2)

def position : WorkspaceArea → ℤ
  | .first area => l.start area
  | .second area => l.operation + l.start area
  | .status => l.operation * 2

section
variable {area : WorkspaceArea} (h : area.Valid rankSize)
include h

theorem position_eq : area.offset totalBytes rankSize slotBytes = some (l.position area) := by
  cases area with
  | first area => exact l.offset_eq h
  | second area =>
    have hin := l.start_in_operation h
    have hpos := l.bytes_pos area
    have horder := l.order
    rw [WorkspaceArea.offset, l.operationBytes_eq, bind_eq_bind, bind_some, l.offset_eq h, bind_some]
    exact l.int64_eq (by omega) (by omega)
  | status => exact l.statusOffset_eq

theorem position_inside : 0 ≤ l.position area ∧ l.position area + area.bytes totalBytes slotBytes ≤ l.workspace := by
  have horder := l.order
  cases area with
  | first area | second area =>
    have hin := l.start_in_operation h
    have hpos := l.bytes_pos area
    simp only [position, WorkspaceArea.bytes]
    omega
  | status =>
    have hpos := l.operation_pos
    simp only [position, WorkspaceArea.bytes, sizeofUint64]
    omega

theorem position_apart {area' : WorkspaceArea} (h' : area'.Valid rankSize)
    (hne : area ≠ area') : l.position area + area.bytes totalBytes slotBytes ≤ l.position area' ∨
      l.position area' + area'.bytes totalBytes slotBytes ≤ l.position area := by
  have hin : ∀ {a : OperationArea}, a.Valid rankSize →
      0 ≤ l.start a ∧ l.start a + a.bytes totalBytes slotBytes ≤ l.operation := l.start_in_operation
  have hoperation := l.operation_pos
  cases area <;> cases area' <;> simp only [position, WorkspaceArea.bytes]
  case first.first area area' | second.second area area' =>
    have := l.start_apart h h' (fun heq => hne (congrArg _ heq))
    omega
  case first.second | second.first =>
    have := hin h
    have := hin h'
    omega
  case first.status | second.status =>
    have := hin h
    omega
  case status.first | status.second =>
    have := hin h'
    omega
  case status.status => exact absurd rfl hne

end

end UdmaLayout

/-- For every window size, number of ranks and slot size that the host accepts: the kernel requires the
same number of bytes and has the status word where the host reads it, its offsets are computed without
overflow, and the areas lie inside the workspace and apart from each other. -/
theorem workspace_layout {workspace : ℤ}
    (h : tileXREpUdmaRequiredWorkspaceBytes totalBytes rankSize slotBytes = some workspace) :
    udmaRequiredWorkspaceBytes totalBytes rankSize slotBytes = some workspace ∧
    tileXREpUdmaStatusOffset totalBytes rankSize slotBytes =
      udmaStatusOffset totalBytes rankSize slotBytes ∧
    (∀ area : WorkspaceArea, area.Valid rankSize → ∃ offset,
      area.offset totalBytes rankSize slotBytes = some offset ∧ 0 ≤ offset ∧
      offset + area.bytes totalBytes slotBytes ≤ workspace) ∧
    ∀ area area' : WorkspaceArea, area.Valid rankSize → area'.Valid rankSize → area ≠ area' →
      ∀ offset offset', area.offset totalBytes rankSize slotBytes = some offset →
        area'.offset totalBytes rankSize slotBytes = some offset' →
        offset + area.bytes totalBytes slotBytes ≤ offset' ∨
          offset' + area'.bytes totalBytes slotBytes ≤ offset := by
  obtain ⟨l, rfl, hoperation⟩ := exists_udmaLayout h
  refine ⟨l.requiredWorkspaceBytes_eq, ?_, fun area hvalid => ?_, fun area area' hvalid hvalid' hne => ?_⟩
  · have hle := l.workspace_le
    have hin := l.position_inside (show WorkspaceArea.status.Valid rankSize from trivial)
    simp only [UdmaLayout.position, WorkspaceArea.bytes, sizeofUint64] at hin
    rw [l.statusOffset_eq, tileXREpUdmaStatusOffset, hoperation, Option.bind_eq_bind, Option.bind_some,
      guard, if_pos (by omega)]
    rfl
  · exact ⟨_, l.position_eq hvalid, l.position_inside hvalid⟩
  · intro offset offset' hoffset hoffset'
    rw [l.position_eq hvalid, Option.some.injEq] at hoffset
    rw [l.position_eq hvalid', Option.some.injEq] at hoffset'
    rw [← hoffset, ← hoffset']
    exact l.position_apart hvalid hvalid' hne

/-- Four ranks with slots of 4096 bytes. -/
theorem workspace_layout_four :
    udmaRequiredWorkspaceBytes 16448 4 4096 = some 197184 ∧
      ∃ offset, (WorkspaceArea.second (.relaySlot 3 2)).offset 16448 4 4096 = some offset ∧ 0 ≤ offset ∧
        offset + 4096 ≤ 197184 := by
  have hlayout := workspace_layout (show tileXREpUdmaRequiredWorkspaceBytes 16448 4 4096 = some 197184 by decide)
  exact ⟨hlayout.1, hlayout.2.2.1 (.second (.relaySlot 3 2)) (by simp [WorkspaceArea.Valid, OperationArea.Valid])⟩

end TileXR.Ep
