import TileXR.Lib.Proc
import TileXR.MoonEpCombineV2.Schedule
import TileXR.MoonEpV1.Layout
import TileXR.Sync

/-!
# The cross-rank barriers of the dispatch and combine kernels

A rank owns one flag word, which holds its latest magic and step. At a barrier the rank stores its step
there and then waits, peer by peer, for the flag of each peer to show exactly the same magic and step.
`dispatchCode` and `combineCode` are the flag and done-token accesses of the two kernels, core by core;
`program` is a sequence of operations on all ranks.

The store of the next step is held back by nothing but the storing rank's own waits, so a rank that is
quick past its barrier overwrites the step a slower peer still has to read. `missed` runs any program
that begins with two such barriers to that point. A single rank only ever waits for itself.
-/

namespace TileXR.MoonEpV1
open Lib List MoonEpCombineV2

/-- The words ranks synchronize on: the flag of a rank, and the token a source leaves in its window. -/
inductive Cell where
  | flag (rank : ℕ)
  | done (rank source : ℕ)
  deriving DecidableEq

/-- `WaitPeerStep` returns 0 on this value of the peer's flag. -/
def waitPeerStep (magic step value : ℕ) : Bool :=
  value / 2 ^ 32 == magic % 2 ^ 32 && value % 2 ^ 32 == step

/-- `PublishStep` and the waits for the peers of a list, in its order. -/
def publishAndWait (rank magic step : ℕ) (peers : List ℕ) : List (Inst Cell ℕ) :=
  .store (.flag rank) (mergeMagicWithValue magic step) ::
    peers.map fun peer => .await (.flag peer) (waitPeerStep magic step)

/-- `Process` of the dispatch kernel, which only runs on block 0. -/
def dispatchCode (rankSize rank core magic chunkCount : ℕ) : List (Inst Cell ℕ) :=
  if core ≠ 0 then []
  else
    (List.range chunkCount).flatMap fun chunk =>
      [kMoonEpDispatchWindowClearedStep, kMoonEpDispatchDataReadyStep,
        kMoonEpDispatchWindowDrainedStep].flatMap fun base =>
        publishAndWait rank magic (chunkStep base chunk) (dispatchPeers rankSize rank)

/-- `CrossRankBarrier` of the combine kernel: core 0 handles the flags. -/
def crossRankBarrier (rankSize rank core magic step : ℕ) : List (Inst Cell ℕ) :=
  .sync :: (if core = 0 then publishAndWait rank magic step (List.range rankSize) else []) ++ [.sync]

/-- The done tokens a core leaves its peers in a chunk, one per step. -/
def pushPeers (rankSize rank core magic chunk : ℕ) : List (Inst Cell ℕ) :=
  (List.range (stepCount rankSize)).map fun step =>
    .store (.done (singleRingPeer rank step core rankSize) rank) (doneToken magic chunk step)

def waitInboundDone (rankSize rank core magic chunk : ℕ) : List (Inst Cell ℕ) :=
  (List.range (rankSize / activeCoreCount rankSize)).map fun sourceIndex =>
    let source := sourceForCore core sourceIndex rankSize
    .await (.done rank source) (· == doneToken magic chunk (singleRingReceiveStep rank source rankSize))

/-- `Process` of the combine kernel; the second sync is the one in `BuildDuplicateMask`. -/
def combineCode (rankSize rank core magic chunkCount : ℕ) : List (Inst Cell ℕ) :=
  [.sync, .sync, .sync] ++ crossRankBarrier rankSize rank core magic kMoonEpCombineDataReadyStep ++
    ((List.range chunkCount).flatMap fun chunk =>
      [.sync, .sync] ++ crossRankBarrier rankSize rank core magic (kChunkReadyStepBase + chunk) ++
        pushPeers rankSize rank core magic chunk ++ waitInboundDone rankSize rank core magic chunk ++
        [.sync, .sync] ++ crossRankBarrier rankSize rank core magic (kChunkDrainedStepBase + chunk)) ++
    [.sync, .sync]

inductive Op where
  | dispatch (magic chunkCount : ℕ)
  | combine (magic chunkCount : ℕ)

/-- What the layout builders and the kernels' own checks accept. -/
def Op.Accepted (rankSize : ℕ) : Op → Prop
  | dispatch magic chunkCount => 0 < magic ∧ 0 < chunkCount ∧
      chunkCount ≤ (2 ^ 31 - 1 - kMoonEpDispatchWindowDrainedStep) / 4
  | combine magic chunkCount => RankSizeSupported rankSize ∧ 0 < magic ∧ magic < 2 ^ 31 ∧
      0 < chunkCount ∧ chunkCount ≤ kMaxChunkCount

/-- A kernel ends on a rank when all its cores have; only then the next one starts there. -/
def Op.code (rankSize rank core : ℕ) : Op → List (Inst Cell ℕ)
  | dispatch magic chunkCount => dispatchCode rankSize rank core magic chunkCount ++ [.sync]
  | combine magic chunkCount => combineCode rankSize rank core magic chunkCount ++ [.sync]

/-- The cores `(rank, core)` of all ranks, each running the operations in order. -/
def program (rankSize : ℕ) (ops : List Op) : Program (ℕ × ℕ) ℕ Cell ℕ where
  code := fun (rank, core) =>
    if rank < rankSize ∧ core < activeCoreCount rankSize then ops.flatMap (Op.code rankSize rank core)
    else []
  members := fun rank =>
    if rank < rankSize then (List.range (activeCoreCount rankSize)).map (rank, ·) else []

def showsStep : Inst Cell ℕ → Bool
  | .store (.flag _) _ => true
  | _ => false

/-- The steps a rank has shown on its flag so far. -/
def shown (P : Program (ℕ × ℕ) ℕ Cell ℕ) (s : Config (ℕ × ℕ) Cell ℕ) (rank : ℕ) : ℕ :=
  ((P.code (rank, 0)).take (s.pc (rank, 0))).countP showsStep

/-- `rank` is in `WaitPeerStep` for `peer`. -/
def WaitsFor (P : Program (ℕ × ℕ) ℕ Cell ℕ) (s : Config (ℕ × ℕ) Cell ℕ) (rank peer : ℕ) : Prop :=
  ∃ ok, P.next s (rank, 0) = some (.await (.flag peer) ok)

/-- All ranks show the same steps in the same order, so a peer has replaced the step a rank waits for
when it has shown more of them. -/
def NoMissedBarrier (rankSize : ℕ) (ops : List Op) : Prop :=
  ∀ mem s, (program rankSize ops).Runs mem s →
    (∀ rank peer, WaitsFor (program rankSize ops) s rank peer →
      shown (program rankSize ops) s peer ≤ shown (program rankSize ops) s rank) ∧
    ((∃ p, ¬ (program rankSize ops).Finished s p) → (program rankSize ops).Enabled s)

/-! ## Two barriers in a row -/

variable {s : Config (ℕ × ℕ) Cell ℕ} {ops : List Op} {op : Op} {c k : ℕ}

/-- Every rank begins with two barriers: core 0 meets the other cores, shows `w`, waits for the peers,
meets the other cores again and shows `w'`. -/
structure TwoBarriers (P : Program (ℕ × ℕ) ℕ Cell ℕ) (rankSize cores a b w w' : ℕ) (ok : ℕ → Bool)
    (peers : ℕ → List ℕ) : Prop where
  cores_pos : 0 < cores
  members : ∀ r < rankSize, P.members r = (List.range cores).map (r, ·)
  lead : ∀ r < rankSize, ∃ rest, P.code (r, 0) = List.replicate a .sync ++
    (.store (.flag r) w :: ((peers r).map (fun peer => .await (.flag peer) ok) ++
      (List.replicate b .sync ++ .store (.flag r) w' :: rest)))
  others : ∀ r < rankSize, ∀ c, 0 < c → c < cores →
    ∃ rest, P.code (r, c) = List.replicate (a + b) .sync ++ rest
  ok_w : ok w
  mem_peers : ∀ r < rankSize, ∀ p, p ∈ peers r ↔ p < rankSize

namespace TwoBarriers
variable {P : Program (ℕ × ℕ) ℕ Cell ℕ} {rankSize cores a b w w' : ℕ} {ok : ℕ → Bool}
  {peers : ℕ → List ℕ} {r : ℕ}

section
variable (h : TwoBarriers P rankSize cores a b w w' ok peers)
include h

section
variable (hr : r < rankSize)
include hr

theorem sync_first (hc : c < cores) (hk : k < a) : (P.code (r, c))[k]? = some .sync := by
  rcases Nat.eq_zero_or_pos c with rfl | h0
  · obtain ⟨rest, hl⟩ := h.lead r hr
    simp [hl, List.getElem?_append, hk]
  · obtain ⟨rest, hl⟩ := h.others r hr c h0 hc
    simp [hl, List.getElem?_append, Nat.lt_add_right b hk]

theorem store_first : (P.code (r, 0))[a]? = some (.store (.flag r) w) := by
  obtain ⟨rest, hl⟩ := h.lead r hr
  simp [hl]

theorem await_peer (hk : k < (peers r).length) :
    (P.code (r, 0))[a + 1 + k]? = some (.await (.flag (peers r)[k]) ok) := by
  obtain ⟨rest, hl⟩ := h.lead r hr
  rw [hl, List.getElem?_append_right (by simp; omega), length_replicate,
    show a + 1 + k - a = k + 1 by omega, List.getElem?_cons_succ,
    List.getElem?_append_left (by simpa using hk)]
  simp [hk]

theorem sync_again (hk : k < b) : (P.code (r, 0))[a + 1 + (peers r).length + k]? = some .sync := by
  obtain ⟨rest, hl⟩ := h.lead r hr
  rw [hl, List.getElem?_append_right (by simp; omega), length_replicate,
    show a + 1 + (peers r).length + k - a = (peers r).length + k + 1 by omega,
    List.getElem?_cons_succ, List.getElem?_append_right (by simp), length_map,
    Nat.add_sub_cancel_left, List.getElem?_append_left (by simpa using hk), List.getElem?_replicate,
    if_pos hk]

theorem store_again : (P.code (r, 0))[a + 1 + (peers r).length + b]? = some (.store (.flag r) w') := by
  obtain ⟨rest, hl⟩ := h.lead r hr
  rw [hl, List.getElem?_append_right (by simp; omega), length_replicate,
    show a + 1 + (peers r).length + b - a = (peers r).length + b + 1 by omega,
    List.getElem?_cons_succ, List.getElem?_append_right (by simp), length_map,
    Nat.add_sub_cancel_left, List.getElem?_append_right (by simp)]
  simp

theorem mem_members {q : ℕ × ℕ} : q ∈ P.members r ↔ q.1 = r ∧ q.2 < cores := by
  rw [h.members r hr]
  constructor
  · rintro hq
    obtain ⟨c, hc, rfl⟩ := mem_map.1 hq
    exact ⟨rfl, mem_range.1 hc⟩
  · rintro ⟨rfl, hc⟩
    exact mem_map.2 ⟨q.2, mem_range.2 hc, rfl⟩

theorem members_ne_nil : P.members r ≠ [] := by
  rw [h.members r hr]
  simpa using h.cores_pos.ne'

end

end

/-- The first `k` ranks show `w`, the others have not begun. -/
structure Shown (P : Program (ℕ × ℕ) ℕ Cell ℕ) (cores a w k : ℕ) (s : Config (ℕ × ℕ) Cell ℕ) :
    Prop where
  lead : ∀ r < k, s.pc (r, 0) = a + 1
  others : ∀ r < k, ∀ c, 0 < c → c < cores → s.pc (r, c) = a
  flag : ∀ r < k, s.mem (.flag r) = w
  rest : ∀ r c, k ≤ r → s.pc (r, c) = 0

theorem exists_shown (h : TwoBarriers P rankSize cores a b w w' ok peers) (mem : Cell → ℕ) :
    ∀ k ≤ rankSize, ∃ s, P.Runs mem s ∧ Shown P cores a w k s := by
  intro k hk
  induction k with
  | zero => exact ⟨_, .refl, nofun, nofun, nofun, fun _ _ _ => rfl⟩
  | succ k ih =>
    obtain ⟨s, hs, hk'⟩ := ih (by omega)
    have hr : k < rankSize := hk
    have hmem : ∀ r c, (r, c) ∈ P.members k ↔ r = k ∧ c < cores := fun r c => h.mem_members hr
    have hpc : ∀ c, s.pc (k, c) = 0 := fun c => hk'.rest k c (Nat.le_refl _)
    -- rank `k` meets its cores `a` times, then stores
    obtain ⟨s₁, hs₁, hin, hout, hmem₁, -⟩ := Program.leads_meets (s := s) a (h.members_ne_nil hr) <| by
      rintro ⟨r, c⟩ hq i hi
      obtain ⟨rfl, hc⟩ := (hmem _ _).1 hq
      rw [hpc, Nat.zero_add]
      exact h.sync_first hr hc hi
    have hlead : s₁.pc (k, 0) = a := by
      rw [hin _ ((hmem _ _).2 ⟨rfl, h.cores_pos⟩), hpc, Nat.zero_add]
    obtain ⟨s₂, hs₂, hk₂, hout₂, hmem₂, -⟩ := Program.leads_store (s := s₁) (p := (k, 0)) (by
      rw [Program.next, hlead]; exact h.store_first hr)
    have hbelow : ∀ r < k, ∀ c, s₂.pc (r, c) = s.pc (r, c) := by
      intro r hlt c
      rw [hout₂ (r, c) (by simp [hlt.ne]), hout (r, c) (by simp [hmem, hlt.ne])]
    refine ⟨s₂, (hs.leads hs₁).leads hs₂, ?_, ?_, ?_, ?_⟩
    · intro r hrk
      rcases Nat.lt_succ_iff_lt_or_eq.1 hrk with hlt | rfl
      · rw [hbelow r hlt, hk'.lead r hlt]
      · rw [hk₂, hlead]
    · intro r hrk c h0 hc
      rcases Nat.lt_succ_iff_lt_or_eq.1 hrk with hlt | rfl
      · rw [hbelow r hlt, hk'.others r hlt c h0 hc]
      · rw [hout₂ _ (by simp [h0.ne']), hin _ ((hmem _ _).2 ⟨rfl, hc⟩), hpc, Nat.zero_add]
    · intro r hrk
      rcases Nat.lt_succ_iff_lt_or_eq.1 hrk with hlt | rfl
      · simp [hmem₂, Function.update, hlt.ne, hmem₁, hk'.flag r hlt]
      · simp [hmem₂]
    · intro r c hrk
      have hne : r ≠ k := by omega
      rw [hout₂ (r, c) (by simp [hne]), hout (r, c) (by simp [hmem, hne]), hk'.rest r c (by omega)]

theorem countP_sync (n : ℕ) : (List.replicate n (Inst.sync : Inst Cell ℕ)).countP showsStep = 0 :=
  countP_eq_zero.2 fun i hi => by rw [eq_of_mem_replicate hi]; simp [showsStep]

theorem countP_waits (l : List ℕ) : (l.map fun peer => Inst.await (Cell.flag peer) ok).countP showsStep = 0 := by
  refine countP_eq_zero.2 fun i hi => ?_
  obtain ⟨p, -, rfl⟩ := mem_map.1 hi
  simp [showsStep]

section
variable (h : TwoBarriers P rankSize cores a b w w' ok peers)
include h

theorem shown_waiting (hr : r < rankSize) {n : ℕ}
    (hn : n ≤ (peers r).length) (hs : s.pc (r, 0) = a + 1 + n) : shown P s r = 1 := by
  obtain ⟨rest, hl⟩ := h.lead r hr
  rw [shown, hs, hl, take_append, length_replicate, show a + 1 + n - a = n + 1 by omega,
    take_succ_cons, take_append_of_le_length (by simpa using hn), ← map_take,
    take_of_length_le (by simp; omega), countP_append, countP_sync, countP_cons,
    countP_waits]
  rfl

theorem shown_again (hr : r < rankSize) (hs : s.pc (r, 0) = a + 1 + (peers r).length + b + 1) : shown P s r = 2 := by
  obtain ⟨rest, hl⟩ := h.lead r hr
  have hsplit : P.code (r, 0) = (List.replicate a .sync ++ (.store (.flag r) w ::
      ((peers r).map (fun peer => .await (.flag peer) ok) ++
        (List.replicate b .sync ++ [.store (.flag r) w'])))) ++ rest := by
    simp [hl]
  rw [shown, hs, hsplit, take_left' (by simp; omega), countP_append, countP_sync,
    countP_cons, countP_append, countP_waits, countP_append, countP_sync]
  rfl

/-- Rank 0 shows the second step while rank 1 still waits for the first. -/
theorem missed (hR : 2 ≤ rankSize)
    (mem : Cell → ℕ) : ∃ s, P.Runs mem s ∧ WaitsFor P s 1 0 ∧ shown P s 1 < shown P s 0 := by
  have h0 : 0 < rankSize := by omega
  have h1 : 1 < rankSize := hR
  obtain ⟨s, hs, hall⟩ := h.exists_shown mem rankSize (Nat.le_refl _)
  have pass : ∀ {s' : Config (ℕ × ℕ) Cell ℕ} {r : ℕ}, r < rankSize → s'.mem = s.mem →
      s'.pc (r, 0) = a + 1 → ∀ n ≤ (peers r).length, ∀ k < n, ∃ c ok,
        (P.code (r, 0))[s'.pc (r, 0) + k]? = some (.await c ok) ∧ ok (s'.mem c) := by
    intro s' r hr hm hpc n hn k hk
    refine ⟨_, ok, hpc ▸ h.await_peer hr (Nat.lt_of_lt_of_le hk hn), ?_⟩
    rw [hm, hall.flag _ ((h.mem_peers r hr _).1 (getElem_mem _))]
    exact h.ok_w
  -- rank 1 waits until it is rank 0's turn
  obtain ⟨n, hn, hn0⟩ := getElem_of_mem ((h.mem_peers 1 h1 0).2 h0)
  obtain ⟨s₁, hs₁, hone, hout₁, hmem₁, -⟩ :=
    Program.leads_awaits n (pass h1 rfl (hall.lead 1 h1) n hn.le)
  -- rank 0 goes through the whole barrier
  have hpc₁ : s₁.pc (0, 0) = a + 1 := (hout₁ (0, 0) (by simp)).trans (hall.lead 0 h0)
  obtain ⟨s₂, hs₂, hzero, hout₂, -⟩ :=
    Program.leads_awaits (peers 0).length (pass h0 hmem₁ hpc₁ _ (Nat.le_refl _))
  rw [hpc₁] at hzero
  obtain ⟨s₃, hs₃, hin, hout₃, -⟩ := Program.leads_meets (s := s₂) b (h.members_ne_nil h0) <| by
    rintro ⟨r, c⟩ hq k hk
    obtain ⟨rfl, hc⟩ := (h.mem_members h0).1 hq
    rcases Nat.eq_zero_or_pos c with rfl | hc0
    · rw [hzero]; exact h.sync_again h0 hk
    · obtain ⟨rest, hl⟩ := h.others 0 h0 c hc0 hc
      rw [hout₂ _ (by simp [hc0.ne']), hout₁ _ (by simp), hall.others 0 h0 c hc0 hc, hl]
      simp [List.getElem?_append, hk]
  have hpc₃ : s₃.pc (0, 0) = a + 1 + (peers 0).length + b := by
    rw [hin _ ((h.mem_members h0).2 ⟨rfl, h.cores_pos⟩), hzero]
  -- and shows its next step
  obtain ⟨s₄, hs₄, hzero₄, hout₄, -⟩ := Program.leads_store (s := s₃) (p := (0, 0)) (by
    rw [Program.next, hpc₃]; exact h.store_again h0)
  have hpc₄ : s₄.pc (1, 0) = a + 1 + n := by
    rw [hout₄ _ (by simp), hout₃ (1, 0) (by simp [h.mem_members h0]), hout₂ _ (by simp), hone,
      hall.lead 1 h1]
  refine ⟨s₄, (((hs.leads hs₁).leads hs₂).leads hs₃).leads hs₄, ⟨ok, ?_⟩, ?_⟩
  · rw [Program.next, hpc₄, h.await_peer h1 hn, hn0]
  · rw [h.shown_waiting h1 hn.le hpc₄, h.shown_again h0 (by rw [hzero₄, hpc₃])]
    exact Nat.one_lt_two

end

end TwoBarriers

/-! ## The kernels begin with two barriers -/

theorem waitPeerStep_merge (magic : ℕ) {step : ℕ} (h : step < 2 ^ 32) :
    waitPeerStep magic step (mergeMagicWithValue magic step) := by
  rw [waitPeerStep, mergeMagicWithValue_div h, mergeMagicWithValue_mod h]
  simp

theorem program_code {rankSize r : ℕ} (hr : r < rankSize) (hc : c < activeCoreCount rankSize)
    (ops : List Op) : (program rankSize ops).code (r, c) = ops.flatMap (Op.code rankSize r c) :=
  if_pos ⟨hr, hc⟩

theorem program_members {rankSize r : ℕ} (hr : r < rankSize) (ops : List Op) :
    (program rankSize ops).members r = (List.range (activeCoreCount rankSize)).map (r, ·) := if_pos hr

theorem twoBarriers {rankSize : ℕ} (hR : 0 < rankSize) (hop : op.Accepted rankSize)
    (ops : List Op) : ∃ a b w w' ok peers, TwoBarriers (program rankSize (op :: ops)) rankSize
      (activeCoreCount rankSize) a b w w' ok peers := by
  cases op with
  | dispatch magic chunkCount =>
    obtain ⟨n, rfl⟩ : ∃ n, chunkCount = n + 1 := ⟨chunkCount - 1, by have := hop.2.1; omega⟩
    refine ⟨0, 0, mergeMagicWithValue magic (chunkStep kMoonEpDispatchWindowClearedStep 0),
      mergeMagicWithValue magic (chunkStep kMoonEpDispatchDataReadyStep 0), _,
      dispatchPeers rankSize, activeCoreCount_pos hR, fun r hr => program_members hr _, ?_, ?_,
      waitPeerStep_merge magic (by decide), fun r hr => mem_dispatchPeers hr⟩
    · intro r hr
      rw [program_code hr (activeCoreCount_pos hR)]
      exact ⟨_, by simp only [flatMap_cons, Op.code, dispatchCode, range_succ_eq_map,
        publishAndWait, ne_eq, not_true_eq_false, if_false, append_assoc, cons_append,
        replicate_zero, nil_append]; rfl⟩
    · exact fun r hr c h0 hc => ⟨_, rfl⟩
  | combine magic chunkCount =>
    obtain ⟨n, rfl⟩ : ∃ n, chunkCount = n + 1 := ⟨chunkCount - 1, by have := hop.2.2.2.1; omega⟩
    refine ⟨4, 4, mergeMagicWithValue magic kMoonEpCombineDataReadyStep,
      mergeMagicWithValue magic (kChunkReadyStepBase + 0), _,
      fun _ => List.range rankSize, activeCoreCount_pos hR, fun r hr => program_members hr _, ?_, ?_,
      waitPeerStep_merge magic (by decide), fun r hr p => mem_range⟩
    · intro r hr
      rw [program_code hr (activeCoreCount_pos hR)]
      exact ⟨_, by simp only [flatMap_cons, Op.code, combineCode, crossRankBarrier,
        range_succ_eq_map, publishAndWait, if_true, append_assoc, cons_append,
        replicate_succ, replicate_zero, nil_append]; rfl⟩
    · intro r hr c h0 hc
      rw [program_code hr hc]
      exact ⟨_, by simp only [flatMap_cons, Op.code, combineCode, crossRankBarrier, h0.ne',
        range_succ_eq_map, publishAndWait, if_false, append_assoc, cons_append,
        replicate_succ, replicate_zero, nil_append]; rfl⟩

/-! ## A rank alone -/

/-- Every wait of the code is for flag 0 and finds there what the code stored before it. -/
def SelfServed (l : List (Inst Cell ℕ)) : Prop :=
  ∀ (v i : ℕ) (c : Cell) (ok : ℕ → Bool), l[i]? = some (.await c ok) →
    c = .flag 0 ∧ ok ((l.take i).foldl (Inst.effect (.flag 0)) v)

theorem SelfServed.append {l l' : List (Inst Cell ℕ)} (h : SelfServed l) (h' : SelfServed l') :
    SelfServed (l ++ l') := by
  intro v i c ok hi
  rcases Nat.lt_or_ge i l.length with hlt | hge
  · rw [List.getElem?_append_left hlt] at hi
    rw [take_append_of_le_length hlt.le]
    exact h v i c ok hi
  · rw [List.getElem?_append_right hge] at hi
    rw [take_append, take_of_length_le hge, foldl_append]
    exact h' _ _ c ok hi

theorem SelfServed.flatMap {α : Type*} {l : List α} {f : α → List (Inst Cell ℕ)}
    (h : ∀ a ∈ l, SelfServed (f a)) : SelfServed (l.flatMap f) := by
  induction l with
  | nil => exact fun v i c ok hi => by simp at hi
  | cons a l ih =>
    rw [flatMap_cons]
    exact (h a (by simp)).append (ih fun x hx => h x (mem_cons_of_mem _ hx))

theorem selfServed_publishAndWait {magic step : ℕ} (h : step < 2 ^ 32) :
    SelfServed (publishAndWait 0 magic step [0]) := by
  intro v i c ok hi
  match i with
  | 0 => simp [publishAndWait] at hi
  | 1 =>
    simp only [publishAndWait, map_cons, map_nil, List.getElem?_cons_succ,
      List.getElem?_cons_zero, Option.some.injEq, Inst.await.injEq] at hi
    obtain ⟨rfl, rfl⟩ := hi
    exact ⟨rfl, waitPeerStep_merge magic h⟩
  | i + 2 => simp [publishAndWait] at hi

theorem selfServed_code (hop : op.Accepted 1) : SelfServed (op.code 1 0 0) := by
  cases op with
  | combine magic chunkCount => exact absurd hop.1 (by decide)
  | dispatch magic chunkCount =>
    obtain ⟨-, -, hcount⟩ := hop
    refine SelfServed.append (SelfServed.flatMap fun chunk hchunk => SelfServed.flatMap fun base hbase =>
      ?_) fun v i c ok hi => ?_
    · have hchunk := mem_range.1 hchunk
      refine selfServed_publishAndWait ?_
      simp only [mem_cons, not_mem_nil, or_false, kMoonEpDispatchWindowClearedStep,
        kMoonEpDispatchDataReadyStep, kMoonEpDispatchWindowDrainedStep, chunkStep] at hbase hcount ⊢
      omega
    · match i with
      | 0 => simp at hi
      | i + 1 => simp at hi

theorem program_code_nil {rankSize r : ℕ} (h : ¬ (r < rankSize ∧ c < activeCoreCount rankSize))
    (ops : List Op) : (program rankSize ops).code (r, c) = [] := if_neg h

theorem WaitsFor.rank_lt {rankSize : ℕ} {rank peer : ℕ}
    (h : WaitsFor (program rankSize ops) s rank peer) : rank < rankSize := by
  obtain ⟨ok, h⟩ := h
  by_contra hge
  rw [Program.next, program_code_nil fun hlt => hge hlt.1] at h
  simp at h

theorem eq_zero_of_mem_code {p : ℕ × ℕ} (h : (program 1 ops).code p ≠ []) : p = (0, 0) := by
  obtain ⟨r, c⟩ := p
  by_contra hne
  refine h (program_code_nil (fun hlt => hne ?_) ops)
  simp [activeCoreCount, kGroupSize] at hlt
  simp [hlt]

theorem alone (hops : ∀ op ∈ ops, op.Accepted 1) {mem : Cell → ℕ}
    (hs : (program 1 ops).Runs mem s) : (∀ rank peer, WaitsFor (program 1 ops) s rank peer → peer = rank) ∧
      ∀ p, ¬ (program 1 ops).Finished s p → (program 1 ops).Enabled s := by
  have hself : SelfServed ((program 1 ops).code (0, 0)) := by
    rw [program_code (by decide) (by decide)]
    exact SelfServed.flatMap fun op hop => selfServed_code (hops op hop)
  have howned : (program 1 ops).Owned (.flag 0) (0, 0) :=
    fun p v hv => eq_zero_of_mem_code (ne_nil_of_mem hv)
  constructor
  · intro rank peer hw
    obtain rfl : rank = 0 := by have := hw.rank_lt; omega
    obtain ⟨ok, hw⟩ := hw
    cases (hself 0 _ _ _ hw).1
    rfl
  · intro p hp
    obtain ⟨i, hi⟩ : ∃ i, (program 1 ops).next s p = some i :=
      ⟨_, List.getElem?_eq_getElem (Nat.lt_of_not_le hp)⟩
    obtain rfl := eq_zero_of_mem_code (ne_nil_of_mem (Program.mem_code_of_next hi))
    cases i with
    | store c v => exact Program.enabled_store hi
    | look c => exact Program.enabled_look hi
    | sync =>
      refine Program.enabled_meet (g := 0) (by simp [program, activeCoreCount, kGroupSize]) fun p hp => ?_
      have : p = (0, 0) := by simpa [program, activeCoreCount, kGroupSize] using hp
      rw [this, hi]
    | await c ok =>
      obtain ⟨rfl, hok⟩ := hself (mem (.flag 0)) _ c ok hi
      exact Program.enabled_await hi (hs.mem_eq howned ▸ hok)

theorem not_noMissedBarrier {rankSize : ℕ} (hR : 2 ≤ rankSize)
    (hop : op.Accepted rankSize) (ops : List Op) : ¬ NoMissedBarrier rankSize (op :: ops) := by
  intro h
  obtain ⟨a, b, w, w', ok, peers, htwo⟩ := twoBarriers (by omega) hop ops
  obtain ⟨s, hs, hwait, hlt⟩ := htwo.missed hR fun _ => 0
  exact absurd ((h _ s hs).1 1 0 hwait) (by omega)

/-- Rank 0 shows that its data is ready while rank 1 still waits to see its window cleared. -/
theorem twoRanks_missBarrier : ¬ NoMissedBarrier 2 [.dispatch 1 1] :=
  not_noMissedBarrier (by decide)
    (show Op.Accepted 2 (.dispatch 1 1) from ⟨by decide, by decide, by decide⟩) []

/-- Barriers are missed unless there is only one rank, or nothing to run. -/
theorem noMissedBarrier_iff {rankSize : ℕ} {ops : List Op} (hops : ∀ op ∈ ops, op.Accepted rankSize) :
    NoMissedBarrier rankSize ops ↔ rankSize ≤ 1 ∨ ops = [] := by
  constructor
  · intro h
    by_contra hne
    obtain ⟨hR, hnil⟩ := not_or.1 hne
    obtain ⟨op, ops, rfl⟩ := List.exists_cons_of_ne_nil hnil
    exact not_noMissedBarrier (by omega) (hops op (by simp)) ops h
  · rintro h mem s hs
    have hnone : (∀ p, (program rankSize ops).code p = []) →
        (∀ rank peer, WaitsFor (program rankSize ops) s rank peer →
          shown (program rankSize ops) s peer ≤ shown (program rankSize ops) s rank) ∧
        ((∃ p, ¬ (program rankSize ops).Finished s p) → (program rankSize ops).Enabled s) := by
      refine fun hnil => ⟨?_, ?_⟩
      · rintro rank peer ⟨ok, hw⟩
        simp [Program.next, hnil] at hw
      · rintro ⟨p, hp⟩
        simp [Program.Finished, hnil] at hp
    rcases h with hR | rfl
    · rcases Nat.le_one_iff_eq_zero_or_eq_one.1 hR with rfl | rfl
      · exact hnone fun p => program_code_nil (by simp) ops
      · obtain ⟨hw, hen⟩ := alone hops hs
        refine ⟨fun rank peer hwait => by rw [hw rank peer hwait], fun hleft => ?_⟩
        obtain ⟨p, hp⟩ := hleft
        exact hen p hp
    · exact hnone fun p => by simp [program]

theorem oneRank_noMissedBarrier : NoMissedBarrier 1 [.dispatch 1 2, .dispatch 3 1] :=
  (noMissedBarrier_iff (by simp [Op.Accepted, kMoonEpDispatchWindowDrainedStep])).2 (.inl (by decide))

end TileXR.MoonEpV1
