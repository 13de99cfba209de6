import TileXR.Lib.Proc
import TileXR.Sync
import TileXR.ReduceGrad.Layout

/-!
# The completion barrier

`CrossRankBarrier` of the owner-pull kernel, launch after launch: a rank stores its magic with the
success or the failure step in its flag, waits for every peer's flag to show the magic with at least
the success step, then reads every flag once more. The rank clears its source slots if its own status
and all the words it read are good.

One launch is sound (`OneLaunch`): a flag that has been waited for is not written again, so the second
reads see what every rank entered with. Across launches nothing holds a rank back: it can enter the
barrier of the next launch, and overwrite its flag, while a peer is still waiting for it (`overtaken`).
-/

namespace TileXR.ReduceGrad
open Function Lib List

def kReduceGradBarrierStep : ℕ := 0x5247
def kReduceGradBarrierFailureStep : ℕ := kReduceGradBarrierStep + 1

/-- `WaitInnerFlag` goes on: the magic is the expected one and the word is not smaller. -/
def waitInnerFlag (magic step value : ℕ) : Bool :=
  value / 2 ^ 32 == mergeMagicWithValue magic step / 2 ^ 32 &&
    decide (mergeMagicWithValue magic step ≤ value)

/-- One launch on all ranks, and the ranks whose device status is not zero when they come to the
barrier. -/
structure Launch where
  magic : ℕ
  failed : ℕ → Bool

def Launch.successValue (l : Launch) : ℕ := mergeMagicWithValue l.magic kReduceGradBarrierStep

def Launch.localFlag (l : Launch) (rank : ℕ) : ℕ :=
  mergeMagicWithValue l.magic
    (if l.failed rank then kReduceGradBarrierFailureStep else kReduceGradBarrierStep)

/-- `CrossRankBarrier`; the word `p` is the flag of rank `p`. -/
def crossRankBarrier (rankSize rank : ℕ) (l : Launch) : List (Inst ℕ ℕ) :=
  .store rank (l.localFlag rank) ::
    ((List.range rankSize).map (fun peer =>
      .await peer (waitInnerFlag l.magic kReduceGradBarrierStep)) ++ (List.range rankSize).map .look)

def program (rankSize : ℕ) (launches : List Launch) : Program ℕ Unit ℕ ℕ where
  code := fun rank =>
    if rank < rankSize then launches.flatMap (crossRankBarrier rankSize rank) else []
  members := fun _ => []

/-- The launches whose flag a rank has stored. -/
def entered (rankSize : ℕ) (launches : List Launch) (s : Config ℕ ℕ ℕ) (rank : ℕ) : ℕ :=
  (((program rankSize launches).code rank).take (s.pc rank)).countP Inst.isStore

/-- `rank` is waiting for, or about to read again, the flag of `peer`. -/
def ReadsFlag (rankSize : ℕ) (launches : List Launch) (s : Config ℕ ℕ ℕ) (rank peer : ℕ) : Prop :=
  (∃ ok, (program rankSize launches).next s rank = some (.await peer ok)) ∨
    (program rankSize launches).next s rank = some (.look peer)

/-- `rank` has come through the barrier of launch `m`. -/
def Done (rankSize : ℕ) (s : Config ℕ ℕ ℕ) (rank m : ℕ) : Prop :=
  (m + 1) * (1 + 2 * rankSize) ≤ s.pc rank

/-- `rank` clears its source slots in launch `m`: its status is zero after the second reads. -/
def clears (rankSize : ℕ) (l : Launch) (s : Config ℕ ℕ ℕ) (rank m : ℕ) : Bool :=
  !l.failed rank && (((s.seen rank).drop (m * rankSize)).take rankSize).all (· == l.successValue)

/-- No flag is overwritten before it is read, all ranks agree on every launch, and sources are cleared
exactly in launches that no rank entered with a failure. -/
structure Agreement (rankSize : ℕ) (launches : List Launch) (s : Config ℕ ℕ ℕ) : Prop where
  read : ∀ rank peer, ReadsFlag rankSize launches s rank peer →
    entered rankSize launches s peer ≤ entered rankSize launches s rank
  agree : ∀ m l, launches[m]? = some l → ∀ r < rankSize, ∀ r' < rankSize,
    Done rankSize s r m → Done rankSize s r' m → clears rankSize l s r m = clears rankSize l s r' m
  clear : ∀ m l, launches[m]? = some l → ∀ r < rankSize, Done rankSize s r m →
    (clears rankSize l s r m ↔ ∀ p < rankSize, ¬ l.failed p)

/-! ## The words of a launch -/

namespace Launch
variable (l : Launch)

theorem localFlag_div (rank : ℕ) : l.localFlag rank / 2 ^ 32 = l.magic % 2 ^ 32 := by
  rw [localFlag]
  exact mergeMagicWithValue_div (by split <;> decide)

theorem waitInnerFlag_localFlag (rank : ℕ) : waitInnerFlag l.magic kReduceGradBarrierStep (l.localFlag rank) := by
  have hle : mergeMagicWithValue l.magic kReduceGradBarrierStep ≤ l.localFlag rank := by
    rw [localFlag, mergeMagicWithValue, mergeMagicWithValue]
    split <;> simp [kReduceGradBarrierFailureStep]
  rw [waitInnerFlag, l.localFlag_div, mergeMagicWithValue_div (by decide)]
  simp [hle]

theorem magic_of_waitInnerFlag {l : Launch} {v : ℕ}
    (h : waitInnerFlag l.magic kReduceGradBarrierStep v) : v / 2 ^ 32 = l.magic % 2 ^ 32 := by
  simp only [waitInnerFlag, Bool.and_eq_true, beq_iff_eq] at h
  rw [h.1, mergeMagicWithValue_div (by decide)]

theorem localFlag_eq_successValue (rank : ℕ) : l.localFlag rank = l.successValue ↔ ¬ l.failed rank := by
  rw [localFlag, successValue, mergeMagicWithValue, mergeMagicWithValue]
  cases l.failed rank <;> simp [kReduceGradBarrierFailureStep]

end Launch

section Code
variable {rankSize k : ℕ} (rank : ℕ) (l : Launch) (rest : List (Inst ℕ ℕ))

theorem length_crossRankBarrier : (crossRankBarrier rankSize rank l).length = 1 + 2 * rankSize := by
  simp [crossRankBarrier]; omega

theorem countP_crossRankBarrier : (crossRankBarrier rankSize rank l).countP Inst.isStore = 1 := by
  rw [crossRankBarrier, countP_cons, countP_eq_zero.2 fun i hi => ?_]
  · rfl
  · rcases mem_append.1 hi with hi | hi
    · obtain ⟨k, -, rfl⟩ := mem_map.1 hi; simp [Inst.isStore]
    · obtain ⟨k, -, rfl⟩ := mem_map.1 hi; simp [Inst.isStore]

theorem barrier_await (hk : k < rankSize) : (crossRankBarrier rankSize rank l ++ rest)[1 + k]? =
    some (.await k (waitInnerFlag l.magic kReduceGradBarrierStep)) := by
  rw [crossRankBarrier, cons_append, Nat.add_comm 1, List.getElem?_cons_succ, append_assoc,
    List.getElem?_append_left (by simpa using hk)]
  simp [hk]

theorem barrier_look (hk : k < rankSize) :
    (crossRankBarrier rankSize rank l ++ rest)[1 + rankSize + k]? = some (.look k) := by
  rw [crossRankBarrier, cons_append, show 1 + rankSize + k = rankSize + k + 1 by omega,
    List.getElem?_cons_succ, append_assoc, List.getElem?_append_right (by simp),
    List.getElem?_append_left (by simpa using hk)]
  simp [hk]

end Code

theorem program_code {rankSize rank : ℕ} (h : rank < rankSize) (launches : List Launch) :
    (program rankSize launches).code rank = launches.flatMap (crossRankBarrier rankSize rank) :=
  if_pos h

theorem program_code_nil {rankSize rank : ℕ} (h : ¬ rank < rankSize) (launches : List Launch) :
    (program rankSize launches).code rank = [] := if_neg h

/-! ## One launch -/

section OneLaunch
variable {rankSize : ℕ} {l : Launch} {mem : ℕ → ℕ} {s : Config ℕ ℕ ℕ} {r : ℕ}

theorem code_one (hr : r < rankSize) : (program rankSize [l]).code r = crossRankBarrier rankSize r l := by
  rw [program_code hr]; simp

theorem code_cases (hr : r < rankSize) {n : ℕ} {i : Inst ℕ ℕ}
    (h : ((program rankSize [l]).code r)[n]? = some i) : (n = 0 ∧ i = .store r (l.localFlag r)) ∨
      (∃ k < rankSize, n = 1 + k ∧ i = .await k (waitInnerFlag l.magic kReduceGradBarrierStep)) ∨
      ∃ k < rankSize, n = 1 + rankSize + k ∧ i = .look k := by
  rw [code_one hr] at h
  rcases Nat.eq_zero_or_pos n with rfl | h0
  · exact .inl ⟨rfl, by simpa [crossRankBarrier] using h.symm⟩
  rcases Nat.lt_or_ge (n - 1) rankSize with hk | hk
  · have := barrier_await r l [] hk
    rw [append_nil, show 1 + (n - 1) = n by omega, h] at this
    exact .inr (.inl ⟨n - 1, hk, by omega, Option.some.inj this⟩)
  · have hlt : n < 1 + 2 * rankSize := length_crossRankBarrier r l ▸ (List.getElem?_eq_some_iff.1 h).1
    have := barrier_look r l [] (show n - 1 - rankSize < rankSize by omega)
    rw [append_nil, show 1 + rankSize + (n - 1 - rankSize) = n by omega, h] at this
    exact .inr (.inr ⟨_, by omega, by omega, Option.some.inj this⟩)

theorem owned_flag (p : ℕ) : (program rankSize [l]).Owned p p := by
  intro r v hv
  by_cases hr : r < rankSize
  · obtain ⟨n, hn, heq⟩ := getElem_of_mem hv
    rcases code_cases hr (List.getElem?_eq_some_iff.2 ⟨hn, heq⟩) with ⟨-, h⟩ | ⟨k, -, -, h⟩ | ⟨k, -, -, h⟩
    · exact (Inst.store.inj h).1.symm
    · cases h
    · cases h
  · rw [program_code_nil hr] at hv
    cases hv

theorem held_flag (hr : r < rankSize) (v : ℕ) : ∀ n, 0 < n → (program rankSize [l]).held r v r n = l.localFlag r := by
  intro n hn
  rw [Program.held, code_one hr, crossRankBarrier]
  obtain ⟨n, rfl⟩ : ∃ m, n = m + 1 := ⟨n - 1, by omega⟩
  rw [take_succ_cons, foldl_cons, show Inst.effect r v (.store r (l.localFlag r)) =
    l.localFlag r from if_pos rfl]
  -- waits and reads leave the word
  refine foldlRecOn (motive := (· = l.localFlag r)) _ _ rfl fun w hw i hi => ?_
  rcases mem_append.1 (mem_of_mem_take hi) with hi | hi
  · obtain ⟨k, -, rfl⟩ := mem_map.1 hi
    exact hw
  · obtain ⟨k, -, rfl⟩ := mem_map.1 hi
    exact hw

/-- A rank that has waited for a peer finds its flag stored, and it stays so. -/
theorem flag_of_waited (hfresh : ∀ p < rankSize, mem p / 2 ^ 32 ≠ l.magic % 2 ^ 32)
    (hs : (program rankSize [l]).Runs mem s) (hr : r < rankSize) {k : ℕ} (hk : k < rankSize)
    (hpc : 1 + k < s.pc r) : s.mem k = l.localFlag k := by
  have hcode := barrier_await r l [] hk
  rw [append_nil, ← code_one hr] at hcode
  obtain ⟨n, hn, hok⟩ := hs.await_passed (owned_flag k) hpc hcode
  have hpos : 0 < n := by
    rcases Nat.eq_zero_or_pos n with rfl | h0
    · exact absurd (Launch.magic_of_waitInnerFlag hok) (hfresh k hk)
    · exact h0
  rw [hs.mem_eq (owned_flag k), held_flag hk _ _ (by omega)]

theorem seen_eq (hfresh : ∀ p < rankSize, mem p / 2 ^ 32 ≠ l.magic % 2 ^ 32)
    (hs : (program rankSize [l]).Runs mem s) (hr : r < rankSize) : s.pc r ≤ 1 + 2 * rankSize ∧
      s.seen r = ((List.range (s.pc r - (1 + rankSize))).map l.localFlag) := by
  refine hs.invariant (I := fun s => s.pc r ≤ 1 + 2 * rankSize ∧
    s.seen r = ((List.range (s.pc r - (1 + rankSize))).map l.localFlag)) ?_ ?_
  · simp [Program.start]
  intro s s' hruns ⟨hle, hseen⟩ hm
  -- a turn of another rank leaves both
  have other : ∀ {q n : ℕ}, q ≠ r → Function.update s.pc q n r = s.pc r := fun hq =>
    update_of_ne hq.symm ..
  cases hm with
  | store q c v hn =>
    by_cases hq : q = r
    · subst hq
      rcases code_cases hr hn with ⟨h0, -⟩ | ⟨k, -, -, h⟩ | ⟨k, -, -, h⟩
      · simp [hseen, h0]
      · cases h
      · cases h
    · simp only [other hq]; exact ⟨hle, hseen⟩
  | await q c ok hn hok =>
    by_cases hq : q = r
    · subst hq
      rcases code_cases hr hn with ⟨-, h⟩ | ⟨k, hk, hpc, -⟩ | ⟨k, -, -, h⟩
      · cases h
      · simp only [update_self, hseen, hpc]
        rw [show 1 + k - (1 + rankSize) = 0 by omega, show 1 + k + 1 - (1 + rankSize) = 0 by omega]
        exact ⟨by omega, rfl⟩
      · cases h
    · simp only [other hq]; exact ⟨hle, hseen⟩
  | look q c hn =>
    by_cases hq : q = r
    · subst hq
      rcases code_cases hr hn with ⟨-, h⟩ | ⟨k, -, -, h⟩ | ⟨k, hk, hpc, h⟩
      · cases h
      · cases h
      · cases h
        simp only [update_self, hseen, hpc]
        rw [show 1 + rankSize + c - (1 + rankSize) = c by omega,
          show 1 + rankSize + c + 1 - (1 + rankSize) = c + 1 by omega, range_succ,
          map_append, flag_of_waited hfresh hruns hr hk (by omega)]
        exact ⟨by omega, rfl⟩
    · simp only [other hq, update_of_ne (Ne.symm hq)]; exact ⟨hle, hseen⟩
  | meet g hn => simpa [program] using ⟨hle, hseen⟩

theorem entered_le_one (p : ℕ) : entered rankSize [l] s p ≤ 1 := by
  by_cases hp : p < rankSize
  · refine (Sublist.countP_le (take_sublist ..)).trans ?_
    rw [code_one hp, countP_crossRankBarrier]
  · simp [entered, program_code_nil hp]

theorem entered_of_reads {p : ℕ} (h : ReadsFlag rankSize [l] s r p) : 1 ≤ entered rankSize [l] s r := by
  have hr : r < rankSize := by
    by_contra hge
    simp [ReadsFlag, Program.next, program_code_nil hge] at h
  obtain ⟨n, hn⟩ : ∃ n, s.pc r = n + 1 := by
    refine ⟨s.pc r - 1, ?_⟩
    have hpos : s.pc r ≠ 0 := by
      intro h0
      rcases h with ⟨ok, h⟩ | h <;> simp [Program.next, code_one hr, h0, crossRankBarrier] at h
    omega
  rw [entered, hn, code_one hr, crossRankBarrier, take_succ_cons, countP_cons]
  simp [Inst.isStore]

theorem agreement_one (hfresh : ∀ p < rankSize, mem p / 2 ^ 32 ≠ l.magic % 2 ^ 32)
    (hs : (program rankSize [l]).Runs mem s) : Agreement rankSize [l] s := by
  have hclear : ∀ m l', [l][m]? = some l' → ∀ r < rankSize, Done rankSize s r m →
      (clears rankSize l' s r m ↔ ∀ p < rankSize, ¬ l'.failed p) := by
    intro m l' hm r hr hdone
    obtain ⟨rfl, rfl⟩ : m = 0 ∧ l = l' := by
      cases m with
      | zero => exact ⟨rfl, Option.some.inj hm⟩
      | succ n => cases hm
    obtain ⟨hle, hseen⟩ := seen_eq hfresh hs hr
    have hpc : s.pc r - (1 + rankSize) = rankSize := by rw [Done] at hdone; omega
    have hall : (s.seen r).take rankSize = (List.range rankSize).map l.localFlag := by
      rw [hseen, hpc, take_of_length_le (by simp)]
    simp only [clears, Nat.zero_mul, drop_zero, hall, Bool.and_eq_true, all_eq_true, mem_map, mem_range, beq_iff_eq,
      forall_exists_index, and_imp, forall_apply_eq_imp_iff₂, l.localFlag_eq_successValue]
    exact ⟨fun h => h.2, fun h => ⟨by simpa using h r hr, h⟩⟩
  refine ⟨fun rank peer h => (entered_le_one peer).trans (entered_of_reads h), ?_, hclear⟩
  intro m l' hm r hr r' hr' hd hd'
  rw [Bool.eq_iff_iff, hclear m l' hm r hr hd, hclear m l' hm r' hr' hd']

end OneLaunch

/-! ## Two launches -/

section TwoLaunches
variable {rankSize : ℕ} {l l' : Launch} {launches : List Launch}

/-- The first `k` ranks have entered the first barrier, the others have not begun. -/
theorem exists_entered (mem : ℕ → ℕ) : ∀ k ≤ rankSize, ∃ s, (program rankSize (l :: launches)).Runs mem s ∧
      (∀ r < k, s.pc r = 1 ∧ s.mem r = l.localFlag r) ∧ ∀ r, k ≤ r → s.pc r = 0 := by
  intro k hk
  induction k with
  | zero => exact ⟨_, .refl, nofun, fun _ _ => rfl⟩
  | succ k ih =>
    obtain ⟨s, hs, hin, hout⟩ := ih (by omega)
    have hnext : (program rankSize (l :: launches)).next s k = some (.store k (l.localFlag k)) := by
      rw [Program.next, hout k (Nat.le_refl _), program_code (by omega), flatMap_cons]
      rfl
    obtain ⟨s', hs', hk', hother, hmem, -⟩ := Program.leads_store hnext
    refine ⟨s', hs.leads hs', fun r hr => ?_, fun r hr => ?_⟩
    · rcases Nat.lt_succ_iff_lt_or_eq.1 hr with hlt | rfl
      · rw [hother r hlt.ne, hmem, update_of_ne hlt.ne]
        exact hin r hlt
      · rw [hk', hout r (Nat.le_refl _), hmem, update_self]
        exact ⟨rfl, rfl⟩
    · rw [hother r (by omega), hout r (by omega)]

/-- Rank 0 enters the second barrier while rank 1 still waits for it in the first. -/
theorem overtaken (hR : 2 ≤ rankSize) (mem : ℕ → ℕ) : ∃ s, (program rankSize (l :: l' :: launches)).Runs mem s ∧
      ReadsFlag rankSize (l :: l' :: launches) s 1 0 ∧
      entered rankSize (l :: l' :: launches) s 1 < entered rankSize (l :: l' :: launches) s 0 := by
  have code : ∀ r < rankSize, (program rankSize (l :: l' :: launches)).code r =
      crossRankBarrier rankSize r l ++ (crossRankBarrier rankSize r l' ++
        launches.flatMap (crossRankBarrier rankSize r)) := fun r hr => program_code hr _
  obtain ⟨s, hs, hall, -⟩ := exists_entered mem rankSize (Nat.le_refl _)
  -- rank 0 waits for all flags, reads them again and stores its next word
  obtain ⟨s₁, hs₁, h₁, hout₁, -⟩ := Program.leads_awaits (s := s) (p := 0) rankSize fun k hk =>
    ⟨k, _, by rw [(hall 0 (by omega)).1, code 0 (by omega)]; exact barrier_await 0 l _ hk,
      (hall k hk).2 ▸ l.waitInnerFlag_localFlag k⟩
  rw [(hall 0 (by omega)).1] at h₁
  obtain ⟨s₂, hs₂, h₂, hout₂, -⟩ := Program.leads_looks (s := s₁) (p := 0) rankSize fun k hk =>
    ⟨k, by rw [h₁, code 0 (by omega)]; exact barrier_look 0 l _ hk⟩
  rw [h₁] at h₂
  have hnext : (program rankSize (l :: l' :: launches)).next s₂ 0 =
      some (.store 0 (l'.localFlag 0)) := by
    rw [Program.next, h₂, code 0 (by omega), List.getElem?_append_right (by
      rw [length_crossRankBarrier]; omega), length_crossRankBarrier,
      show 1 + rankSize + rankSize - (1 + 2 * rankSize) = 0 by omega]
    rfl
  obtain ⟨s₃, hs₃, h₃, hout₃, -⟩ := Program.leads_store hnext
  have hone : s₃.pc 1 = 1 := by
    rw [hout₃ 1 (by simp), hout₂ 1 (by simp), hout₁ 1 (by simp), (hall 1 (by omega)).1]
  refine ⟨s₃, ((hs.leads hs₁).leads hs₂).leads hs₃, .inl ⟨waitInnerFlag l.magic kReduceGradBarrierStep, ?_⟩, ?_⟩
  · rw [Program.next, hone, code 1 (by omega)]
    exact barrier_await (k := 0) 1 l _ (by omega)
  · have hfull : s₂.pc 0 = (crossRankBarrier rankSize 0 l).length := by
      rw [h₂, length_crossRankBarrier]; omega
    have htwo : entered rankSize (l :: l' :: launches) s₃ 0 = 2 := by
      rw [entered, h₃, take_add_one, countP_append, show ((program rankSize
        (l :: l' :: launches)).code 0)[s₂.pc 0]? = _ from hnext, hfull, code 0 (by omega),
        take_left, countP_crossRankBarrier]
      rfl
    rw [htwo, entered, hone, code 1 (by omega)]
    exact Nat.one_lt_two

end TwoLaunches

theorem not_agreement (rankSize : ℕ) (hR : 2 ≤ rankSize) (l l' : Launch) (launches : List Launch)
    (mem : ℕ → ℕ) : ∃ s, (program rankSize (l :: l' :: launches)).Runs mem s ∧
      ¬ Agreement rankSize (l :: l' :: launches) s := by
  obtain ⟨s, hs, hreads, hlt⟩ := overtaken hR mem
  exact ⟨s, hs, fun h => absurd (h.read 1 0 hreads) (by omega)⟩

/-- Four ranks, two launches: rank 0 is in the second barrier before rank 1 has seen it in the first. -/
theorem fourRanks_overtaken : ¬ ∀ s, (program 4 [⟨1, fun _ => false⟩, ⟨2, fun _ => false⟩]).Runs
    (fun _ => 0) s → Agreement 4 [⟨1, fun _ => false⟩, ⟨2, fun _ => false⟩] s := by
  obtain ⟨s, hs, hnot⟩ := not_agreement 4 (by decide) ⟨1, fun _ => false⟩
    ⟨2, fun _ => false⟩ [] fun _ => 0
  exact fun h => hnot (h s hs)

/-- The ranks agree on the outcome of a launch, and on no more than one. -/
theorem agreement_iff {rankSize : ℕ} (hR : kReduceGradMinRankCount ≤ rankSize) (launches : List Launch)
    {mem : ℕ → ℕ} (hfresh : ∀ p < rankSize, ∀ l ∈ launches, mem p / 2 ^ 32 ≠ l.magic % 2 ^ 32) :
    (∀ s, (program rankSize launches).Runs mem s → Agreement rankSize launches s) ↔
      launches.length ≤ 1 := by
  have hR : 4 ≤ rankSize := hR
  match launches, hfresh with
  | [], _ =>
    refine ⟨fun _ => by simp, fun _ s _ => ⟨fun rank peer h => ?_, nofun, nofun⟩⟩
    simp [ReadsFlag, Program.next, program] at h
  | [l], hfresh =>
    exact ⟨fun _ => by simp, fun _ s hs => agreement_one (fun p hp => hfresh p hp l (by simp)) hs⟩
  | l :: l' :: launches, _ =>
    obtain ⟨s, hs, hnot⟩ := not_agreement rankSize (by omega) l l' launches mem
    exact ⟨fun h => absurd (h s hs) hnot, fun h => by simp at h⟩

/-- Rank 2 fails in a single launch. -/
theorem fourRanks_oneLaunch : kReduceGradMinRankCount ≤ 4 ∧
    ∀ s, (program 4 [⟨1, (· == 2)⟩]).Runs (fun _ => 0) s → Agreement 4 [⟨1, (· == 2)⟩] s :=
  ⟨by decide, (agreement_iff (by decide) _ (by simp)).2 (by simp)⟩

end TileXR.ReduceGrad
