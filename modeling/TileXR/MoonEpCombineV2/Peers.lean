import Mathlib.Data.List.Nodup
import TileXR.MoonEpCombineV2.Schedule

/-!
# The server pairs of combine V2

`moonep_combine_schedule.h` in the mode `MOONEP_COMBINE_V2_SERVER_PAIR_PARITY` of the kernel, for the rank sizes
with more than one step. In a step the sixteen cores of a rank serve a pair of servers of one half of the ranks;
the parity of the rank says which half comes first. The sender computes the peer of a round and a core, the
receiver the round and the core of a source: they agree, and in every round a rank has
one source for each of its cores (`peer_schedule`).
-/

namespace TileXR.MoonEpCombineV2

def kInvalidPeer : ℕ := 2 ^ 32 - 1

def ServerPairRankSize (rankSize : ℕ) : Prop := rankSize = 32 ∨ rankSize = 64 ∨ rankSize = kRankCount

instance : DecidablePred ServerPairRankSize := fun _ => inferInstanceAs (Decidable (_ ∨ _))

def serverPairPeer (sourceRank round core rankSize : ℕ) : ℕ :=
  let phaseStepCount := rankSize / 32
  let sourceParity := sourceRank % 2
  let targetHalf := if round / phaseStepCount = 0 then 1 - sourceParity else sourceParity
  let pairIndex := (sourceRank / kGroupSize % phaseStepCount + round % phaseStepCount) % phaseStepCount
  let serversPerHalf := 2 * phaseStepCount
  let halfBase := targetHalf * serversPerHalf
  let firstServer := halfBase + (2 * pairIndex + 1) % serversPerHalf
  let secondServer := halfBase + (2 * pairIndex + 2) % serversPerHalf
  (if core < kGroupSize then firstServer else secondServer) * kGroupSize + core % kGroupSize

/-- `MoonEpCombineV2ServerPairReceive`: the round and the core. -/
def serverPairReceive (destinationRank sourceRank rankSize : ℕ) : ℕ × ℕ :=
  let phaseStepCount := rankSize / 32
  let serversPerHalf := 2 * phaseStepCount
  let destinationServer := destinationRank / kGroupSize
  let destinationLocal := destinationRank % kGroupSize
  let targetHalf := destinationServer / serversPerHalf
  let relativeServer := destinationServer - targetHalf * serversPerHalf
  let pairIndex := (relativeServer + serversPerHalf - 1) % serversPerHalf / 2
  let phaseStep := (pairIndex + phaseStepCount - sourceRank / kGroupSize % phaseStepCount) % phaseStepCount
  let phase := if targetHalf = sourceRank % 2 then 1 else 0
  let firstServer := targetHalf * serversPerHalf + (2 * pairIndex + 1) % serversPerHalf
  (phase * phaseStepCount + phaseStep,
    if destinationServer = firstServer then destinationLocal else kGroupSize + destinationLocal)

/-- The ranks a rank receives from in a step, in the order of the loops of the next two functions. -/
def sources (destinationRank step rankSize : ℕ) : List ℕ :=
  (List.range rankSize).filter fun sourceRank => (serverPairReceive destinationRank sourceRank rankSize).1 = step

def receiveSource (destinationRank step receiverCore rankSize : ℕ) : ℕ :=
  (sources destinationRank step rankSize)[receiverCore]?.getD kInvalidPeer

def receiveCore (destinationRank sourceRank step rankSize : ℕ) : ℕ :=
  if (serverPairReceive destinationRank sourceRank rankSize).1 ≠ step then kInvalidPeer
  else (sources destinationRank step rankSize).idxOf sourceRank

/-- `MoonEpCombineV2TransferCore`: no core, or several, are an error. -/
def transferCore (sourceRank destinationRank step rankSize : ℕ) : ℕ :=
  match (List.range (activeCoreCount rankSize)).filter fun core =>
    serverPairPeer sourceRank step core rankSize = destinationRank with
  | [core] => core
  | _ => kInvalidPeer

/-! ## Sender and receiver agree -/

/-- The place of `d` among the servers of its half is the one `r` serves in round `s` with core `c`. -/
def Meets (p d r s c : ℕ) : Prop :=
  d % 8 = c % 8 ∧ d / 8 / (2 * p) = (if s / p = 0 then 1 - r % 2 else r % 2) ∧
    (d / 8 % (2 * p) + 2 * p - 1) % (2 * p) = 2 * ((r / 8 % p + s % p) % p) + c / 8

section Pairs
variable {p d r s c : ℕ} (hp : p = 1 ∨ p = 2 ∨ p = 4)
include hp

theorem meets_serverPairPeer (hc : c < 16) :
    serverPairPeer r s c (32 * p) < 32 * p ∧ Meets p (serverPairPeer r s c (32 * p)) r s c := by
  have hx : (r / 8 % p + s % p) % p < p := Nat.mod_lt _ (by omega)
  have hh : (if s / p = 0 then 1 - r % 2 else r % 2) < 2 := by split_ifs <;> omega
  simp only [serverPairPeer, Meets, kGroupSize, Nat.mul_div_cancel_left p (show 0 < 32 by decide)]
  generalize (r / 8 % p + s % p) % p = x at *
  generalize (if s / p = 0 then 1 - r % 2 else r % 2) = half at *
  rcases hp with rfl | rfl | rfl <;> split_ifs <;> refine ⟨?_, ?_, ?_, ?_⟩ <;> omega

theorem meets_serverPairReceive (hd : d < 32 * p) (h : serverPairReceive d r (32 * p) = (s, c)) :
    s < 2 * p ∧ c < 16 ∧ Meets p d r s c := by
  simp only [serverPairReceive, kGroupSize, Nat.mul_div_cancel_left p (show 0 < 32 by decide),
    Prod.mk.injEq] at h
  unfold Meets
  rcases hp with rfl | rfl | rfl <;> split_ifs at h ⊢ <;> refine ⟨?_, ?_, ?_, ?_, ?_⟩ <;> omega

theorem serverPairReceive_eq_iff (hd : d < 32 * p) (hs : s < 2 * p) (hc : c < 16) :
    serverPairReceive d r (32 * p) = (s, c) ↔ serverPairPeer r s c (32 * p) = d := by
  obtain ⟨hlt, hpeer⟩ := meets_serverPairPeer hp hc (r := r) (s := s)
  constructor <;> intro h
  · have hm := (meets_serverPairReceive hp hd h).2.2
    generalize serverPairPeer r s c (32 * p) = d' at *
    unfold Meets at *
    rcases hp with rfl | rfl | rfl <;> omega
  · rw [h] at hpeer
    rcases hx : serverPairReceive d r (32 * p) with ⟨s', c'⟩
    obtain ⟨hs', hc', hm⟩ := meets_serverPairReceive hp hd hx
    clear hx h hlt
    unfold Meets at *
    rcases hp with rfl | rfl | rfl <;> split_ifs at * <;> rw [Prod.mk.injEq] <;> omega

/-- Every step of a rank has as many sources as the rank has cores. -/
theorem length_sources (hd : d < 32 * p) (hs : s < 2 * p) : (sources d s (32 * p)).length = 16 := by
  have hcount : ∀ a < 2, ∀ b < p,
      ((List.range (32 * p)).filter fun r => r % 2 = a ∧ r / 8 % p = b).length = 16 := by
    rcases hp with rfl | rfl | rfl <;> decide +kernel
  rw [← hcount (if s / p = 0 then 1 - d / 8 / (2 * p) else d / 8 / (2 * p)) ?_
    (((d / 8 % (2 * p) + 2 * p - 1) % (2 * p) / 2 + p - s % p) % p) (Nat.mod_lt _ (by omega)), sources]
  · congr 2
    ext r
    rcases hx : serverPairReceive d r (32 * p) with ⟨s', c⟩
    obtain ⟨hs', hc, hm⟩ := meets_serverPairReceive hp hd hx
    clear hcount hx
    unfold Meets at hm
    rw [decide_eq_decide]
    rcases hp with rfl | rfl | rfl <;> split_ifs at * <;> omega
  · rcases hp with rfl | rfl | rfl <;> split_ifs <;> omega

end Pairs

/-- What the kernel needs of the schedule. -/
structure Regular (n : ℕ) : Prop where
  steps_le : stepCount n ≤ 8
  peer_lt : ∀ r s c, c < activeCoreCount n → serverPairPeer r s c n < n
  receive_lt : ∀ d r, d < n →
    (serverPairReceive d r n).1 < stepCount n ∧ (serverPairReceive d r n).2 < activeCoreCount n
  receive_iff : ∀ d r s c, d < n → s < stepCount n → c < activeCoreCount n →
    (serverPairReceive d r n = (s, c) ↔ serverPairPeer r s c n = d)
  count : ∀ d s, d < n → s < stepCount n → (sources d s n).length = activeCoreCount n

theorem regular {n : ℕ} (h : ServerPairRankSize n) : Regular n := by
  obtain ⟨p, hp, rfl⟩ : ∃ p, (p = 1 ∨ p = 2 ∨ p = 4) ∧ n = 32 * p := by
    rcases h with rfl | rfl | rfl
    exacts [⟨1, by decide⟩, ⟨2, by decide⟩, ⟨4, by decide⟩]
  have hsteps : stepCount (32 * p) = 2 * p := by rcases hp with rfl | rfl | rfl <;> rfl
  have hcores : activeCoreCount (32 * p) = 16 := by rcases hp with rfl | rfl | rfl <;> rfl
  refine ⟨?_, ?_, ?_, ?_, ?_⟩ <;> simp only [hsteps, hcores]
  · rcases hp with rfl | rfl | rfl <;> decide
  · exact fun r s c hc => (meets_serverPairPeer hp hc).1
  · intro d r hd
    obtain ⟨hs, hc, -⟩ := meets_serverPairReceive hp hd (r := r) rfl
    exact ⟨hs, hc⟩
  · exact fun d r s c hd hs hc => serverPairReceive_eq_iff hp hd hs hc
  · exact fun d s hd hs => length_sources hp hd hs

namespace Regular
variable {n r s c d : ℕ} (H : Regular n)
include H

theorem transferCore_eq (hd : d < n) (hs : s < stepCount n) (hc : c < activeCoreCount n)
    (h : serverPairPeer r s c n = d) : transferCore r d s n = c := by
  have hone : ∀ x ∈ List.range (activeCoreCount n), decide (serverPairPeer r s x n = d) = (x == c) := by
    intro x hx
    rw [beq_eq_decide, decide_eq_decide, ← H.receive_iff d r s x hd hs (List.mem_range.1 hx),
      (H.receive_iff d r s c hd hs hc).2 h]
    simp [eq_comm]
  rw [transferCore, List.filter_congr hone, List.filter_beq,
    List.count_eq_one_of_mem List.nodup_range (List.mem_range.2 hc)]
  rfl

theorem receiveSource_receiveCore (hd : d < n) (hs : s < stepCount n) (hr : r < n)
    (h : (serverPairReceive d r n).1 = s) :
    receiveCore d r s n < activeCoreCount n ∧ receiveSource d s (receiveCore d r s n) n = r := by
  have hmem : r ∈ sources d s n := by simp [sources, hr, h]
  rw [receiveCore, if_neg (by simp [h]), receiveSource, List.getElem?_idxOf hmem, ← H.count d s hd hs]
  exact ⟨List.idxOf_lt_length_of_mem hmem, rfl⟩

theorem receiveCore_receiveSource (hd : d < n) (hs : s < stepCount n) (hc : c < activeCoreCount n) :
    ∃ r < n, receiveSource d s c n = r ∧ (serverPairReceive d r n).1 = s ∧ receiveCore d r s n = c := by
  have hlt : c < (sources d s n).length := by rwa [H.count d s hd hs]
  have hmem := List.getElem_mem hlt
  have hstep : (serverPairReceive d (sources d s n)[c] n).1 = s := by simpa using List.of_mem_filter hmem
  refine ⟨_, List.mem_range.1 (List.mem_of_mem_filter hmem), ?_, hstep, ?_⟩
  · rw [receiveSource, List.getElem?_eq_getElem hlt, Option.getD_some]
  · rw [receiveCore, if_neg (by simp [hstep])]
    exact (List.nodup_range.filter _).idxOf_getElem c hlt

end Regular

/-- A rank is the peer of another in one round and with one core, which it computes itself, and in that
round one of its own cores, and no other, has the other as its source. -/
theorem peer_schedule {rankSize sourceRank destinationRank : ℕ} (h : ServerPairRankSize rankSize)
    (hr : sourceRank < rankSize) (hd : destinationRank < rankSize) :
    let x := serverPairReceive destinationRank sourceRank rankSize
    let receiver := receiveCore destinationRank sourceRank x.1 rankSize
    (∀ s < stepCount rankSize, ∀ c < activeCoreCount rankSize,
      serverPairPeer sourceRank s c rankSize = destinationRank ↔ (s, c) = x) ∧
      x.1 < stepCount rankSize ∧ x.2 < activeCoreCount rankSize ∧
      transferCore sourceRank destinationRank x.1 rankSize = x.2 ∧
      receiver < activeCoreCount rankSize ∧ ∀ c < activeCoreCount rankSize,
        receiveSource destinationRank x.1 c rankSize = sourceRank ↔ c = receiver := by
  have H := regular h
  obtain ⟨hs, hc⟩ := H.receive_lt destinationRank sourceRank hd
  obtain ⟨hcore, hsource⟩ := H.receiveSource_receiveCore hd hs hr rfl
  refine ⟨fun s hs c hc => ?_, hs, hc, ?_, hcore, fun c hc => ⟨fun hcr => ?_, ?_⟩⟩
  · rw [← H.receive_iff _ _ s c hd hs hc, eq_comm]
  · exact H.transferCore_eq hd hs hc ((H.receive_iff _ _ _ _ hd hs hc).1 rfl)
  · obtain ⟨r, -, hr, -, hback⟩ := H.receiveCore_receiveSource hd hs hc
    rw [← hback, ← hr, hcr]
  · rintro rfl
    exact hsource

/-- Rank 5 meets rank 127 with core 7 of round 7, where rank 127 receives from it with core 2. -/
theorem peer_schedule_last : (∀ s < 8, ∀ c < 16, serverPairPeer 5 s c 128 = 127 ↔ (s, c) = (7, 7)) ∧
    transferCore 5 127 7 128 = 7 ∧ ∀ c < 16, receiveSource 127 7 c 128 = 5 ↔ c = 2 := by
  obtain ⟨hpeer, -, -, htransfer, -, hreceive⟩ :=
    @peer_schedule 128 5 127 (by decide) (by decide) (by decide)
  have hround : serverPairReceive 127 5 128 = (7, 7) := by decide
  have hcore : receiveCore 127 5 7 128 = 2 := by decide +kernel
  simp only [hround, hcore] at hpeer htransfer hreceive
  exact ⟨hpeer, htransfer, hreceive⟩

end TileXR.MoonEpCombineV2
