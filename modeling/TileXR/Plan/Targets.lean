import TileXR.Plan.Conserved
import TileXR.Plan.Downstream

/-!
# The remote rows, the target masks and the statistics of `BuildLayouts`

When `BuildLayouts` succeeds, every remote row fits its slots (`recordRows_fit`), so it is the sorted list
of the experts that a destination holds tokens of without owning them. The target masks of a rank are
the transpose of these rows: bit `d` of an owned expert is set exactly when the expert is in the row of
`d` (`RowsTallied.targets`), which is also what `BuildMoonEPExpertTargets` computes from the table
(`buildMoonEPExpertTargets_bit`).
-/

namespace TileXR.Plan
open Function Lib List Nat
variable {c : Ctx} {row : List ℕ} {t : Tables} {e n : ℕ}

theorem getLsbD_or_bit (x : BitVec 64) {k : ℕ} (hk : k < 64) (b : ℕ) :
    (x ||| 1#64 <<< k).getLsbD b = (x.getLsbD b || decide (b = k)) := by
  rw [BitVec.getLsbD_or, BitVec.getLsbD_shiftLeft, BitVec.getLsbD_one]
  by_cases hb : b = k
  · subst hb; simp [hk]
  · by_cases hlt : b < k
    · simp [hb, hlt]
    · have : b - k ≠ 0 := by omega
      simp [hb, this]

/-! ## The rows -/

theorem betterRemote_strict (alloc : ℕ → ℕ) : StrictTotal (betterRemote alloc) :=
  .thenBy alloc (.flip .of_lt) .of_lt

theorem remoteRowOf_sorted (p : Params) (t : Tables) (d : ℕ) : (remoteRowOf p t d).Pairwise fun e e' =>
      t.alloc d e' < t.alloc d e ∨ (t.alloc d e = t.alloc d e' ∧ e < e') := by
  have hsorted := insertSort_pairwise (betterRemote_strict (t.alloc d)) (foreignExperts p t d)
  have hnodup : (insertSort (betterRemote (t.alloc d)) (foreignExperts p t d)).Nodup :=
    remoteRowOf_nodup p t d
  refine (hsorted.and hnodup).imp ?_
  rintro e e' ⟨hnot, hne⟩
  unfold betterRemote at hnot
  by_cases h : t.alloc d e' = t.alloc d e
  · simp only [h, ne_eq, not_true_eq_false, if_false, decide_eq_true_eq, not_lt] at hnot
    exact .inr ⟨h.symm, lt_of_le_of_ne hnot hne⟩
  · simp only [h, ne_eq, not_false_eq_true, if_true, decide_eq_true_eq] at hnot
    exact .inl (by omega)

theorem recordRows_stopped {a : Layout × Bool} (h : a.2 = false) (d : ℕ) : recordRows c t a d = a := by
  unfold recordRows; rw [if_pos (by simp [h])]

theorem recordRows_fit (h : ((List.range n).foldl (recordRows c t) (Layout.initial, true)).2 = true) :
    ∀ d < n, (foreignExperts c.toParams t d).length ≤ c.prefetchSlots := by
  induction n with
  | zero => exact fun d hd => absurd hd (Nat.not_lt_zero d)
  | succ n ih =>
    rw [foldl_range_succ] at h
    generalize hprev : (List.range n).foldl (recordRows c t) (Layout.initial, true) = a at h ih
    cases hok : a.2 with
    | false => rw [recordRows_stopped hok, hok] at h; cases h
    | true =>
      intro d hd
      rcases Nat.lt_succ_iff_lt_or_eq.1 hd with hd | rfl
      · exact ih hok d hd
      · by_contra hbig
        have hnone : remoteRow c.toParams t d = none := if_pos (by omega)
        unfold recordRows at h
        rw [if_neg (by simp [hok]), hnone] at h
        cases h

/-! ## Masks and statistics -/

theorem getLsbD_markTarget (dst : ℕ) (targets : ℕ → ℕ → BitVec 64) (owned e w b : ℕ) :
    (markTarget dst targets owned e w).getLsbD b =
      ((targets e w).getLsbD b || decide (e = owned ∧ w = dst / 64 ∧ b = dst % 64)) := by
  unfold markTarget
  by_cases he : e = owned
  · subst he
    rw [update_self]
    by_cases hw : w = dst / 64
    · subst hw
      rw [update_self, getLsbD_or_bit _ (mod_lt _ (by decide))]
      simp
    · rw [update_of_ne hw]; simp [hw]
  · rw [update_of_ne he]; simp [he]

theorem getLsbD_markTargets (dst base : ℕ) (owned : List ℕ) (targets : ℕ → ℕ → BitVec 64) (e w b : ℕ) :
    (owned.foldl (fun tg x => markTarget dst tg (x - base)) targets e w).getLsbD b =
      ((targets e w).getLsbD b || decide ((∃ x ∈ owned, x - base = e) ∧ w = dst / 64 ∧ b = dst % 64)) := by
  induction owned generalizing targets with
  | nil => simp
  | cons x xs ih =>
    rw [foldl_cons, ih, getLsbD_markTarget, Bool.or_assoc]
    congr 1
    rw [Bool.eq_iff_iff]
    simp only [Bool.or_eq_true, decide_eq_true_eq, mem_cons, exists_eq_or_imp]
    constructor
    · rintro (⟨h1, h2⟩ | ⟨h1, h2⟩)
      exacts [⟨.inl h1.symm, h2⟩, ⟨.inr h1, h2⟩]
    · rintro ⟨h1 | h1, h2⟩
      exacts [.inl ⟨h1.symm, h2⟩, .inr ⟨h1, h2⟩]

def ownedExpert (c : Ctx) (localExpert : ℕ) : ℕ := c.rank * c.expertsPerRank + localExpert

theorem exists_owned_iff (hE : 0 < c.expertsPerRank) (he : e < c.expertsPerRank) :
    (∃ x ∈ row.filter (c.homeRank · = c.rank), x - c.rank * c.expertsPerRank = e) ↔ ownedExpert c e ∈ row := by
  unfold ownedExpert
  constructor
  · rintro ⟨x, hx, hxe⟩
    obtain ⟨hmem, hhome⟩ := mem_filter.1 hx
    have hhome : x / c.expertsPerRank = c.rank := of_decide_eq_true hhome
    have := div_mul_le_self x c.expertsPerRank
    rw [hhome] at this
    rw [show c.rank * c.expertsPerRank + e = x by omega]
    exact hmem
  · intro hmem
    refine ⟨_, mem_filter.2 ⟨hmem, ?_⟩, by omega⟩
    have : (c.rank * c.expertsPerRank + e) / c.expertsPerRank = c.rank := by
      rw [Nat.add_comm, add_mul_div_right _ _ hE, div_eq_of_lt he, Nat.zero_add]
    exact decide_eq_true this

/-- After the rows of the destinations below `n`: the statistics and the masks. -/
structure RowsTallied (c : Ctx) (t : Tables) (n : ℕ) (o : Layout) : Prop where
  own : c.rank < n → o.remoteStats0 = (remoteRowOf c.toParams t c.rank).length
  occurrences : o.remoteStats1 =
    ∑ d ∈ Finset.range n, ((remoteRowOf c.toParams t d).filter (c.homeRank · = c.rank)).length
  targets : c.metadata = true → ∀ e < c.expertsPerRank, ∀ w, ∀ b < 64,
    ((o.expertTargets e w).getLsbD b = true ↔
      w * 64 + b < n ∧ ownedExpert c e ∈ remoteRowOf c.toParams t (w * 64 + b))

theorem recordRows_tallied (hE : 0 < c.expertsPerRank)
    (hfit : ∀ d < n, (foreignExperts c.toParams t d).length ≤ c.prefetchSlots) :
    ((List.range n).foldl (recordRows c t) (Layout.initial, true)).2 = true ∧
      RowsTallied c t n ((List.range n).foldl (recordRows c t) (Layout.initial, true)).1 := by
  induction n with
  | zero =>
    refine ⟨rfl, fun h => absurd h (Nat.not_lt_zero _), rfl, fun _ e _ w b hb => ?_⟩
    simp [Layout.initial]
  | succ n ih =>
    obtain ⟨hok, h⟩ := ih fun d hd => hfit d (by omega)
    rw [foldl_range_succ]
    generalize (List.range n).foldl (recordRows c t) (Layout.initial, true) = a at hok h ⊢
    unfold recordRows
    rw [if_neg (by simp [hok]), remoteRow_eq (hfit n (by omega))]
    refine ⟨rfl, fun hr => ?_, ?_, fun hm e he w b hb => ?_⟩
    · by_cases hrn : n = c.rank
      · exact (if_pos hrn).trans (by rw [hrn])
      · exact (if_neg hrn).trans (h.own (by omega))
    · rw [Finset.sum_range_succ, ← h.occurrences]; rfl
    · simp only [recordRow, hm, if_true]
      rw [getLsbD_markTargets, Bool.or_eq_true, h.targets hm e he w b hb, decide_eq_true_eq, exists_owned_iff hE he]
      constructor
      · rintro (⟨hlt, hmem⟩ | ⟨hmem, hw, hb'⟩)
        · exact ⟨by omega, hmem⟩
        · rw [show w * 64 + b = n by omega]
          exact ⟨lt_succ_self n, hmem⟩
      · rintro ⟨hlt, hmem⟩
        rcases Nat.lt_succ_iff_lt_or_eq.1 hlt with hlt | heq
        · exact .inl ⟨hlt, hmem⟩
        · rw [heq] at hmem
          exact .inr ⟨hmem, by omega, by omega⟩

/-- What the layouts leave as the rows have it. -/
def Layout.tallies (o : Layout) := (o.expertTargets, o.remoteStats0, o.remoteStats1)

theorem layoutGroup_frame (c : Ctx) (t : Tables) (dst : ℕ) (row : List ℕ) (a : GroupAcc) (g : ℕ) :
    (layoutGroup c t dst row a g).out.tallies = a.out.tallies := by
  unfold layoutGroup
  split
  · rfl
  dsimp only
  split
  · rfl
  · split <;> rfl

theorem layoutRank_frame (c : Ctx) (t : Tables) (a : Layout × Bool) (dst : ℕ) :
    (layoutRank c t a dst).1.tallies = a.1.tallies := by
  have hgroups := foldlRecOn (motive := fun b : GroupAcc => b.out.tallies = a.1.tallies)
    (List.range (c.expertNum + c.prefetchSlots)) (layoutGroup c t dst (a.1.rows dst)) (b := ⟨a.1, 0, true⟩) rfl
    fun b hb g _ => (layoutGroup_frame c t dst (a.1.rows dst) b g).trans hb
  unfold layoutRank
  split
  · rfl
  dsimp only
  split
  · exact hgroups
  · split <;> exact hgroups

theorem layoutRanks_frame (c : Ctx) (t : Tables) (dsts : List ℕ) (a : Layout × Bool) :
    (dsts.foldl (layoutRank c t) a).1.tallies = a.1.tallies :=
  foldlRecOn (motive := fun b : Layout × Bool => b.1.tallies = a.1.tallies) _ _ rfl
    fun b hb d _ => (layoutRank_frame c t b d).trans hb

/-- A successful `BuildLayouts`: the layout, and the masks and statistics of all rows. -/
theorem buildLayouts_tallied (hp : c.toParams.Valid) (hok : (buildLayouts c t).2 = .ok) :
    (∀ d < c.rankSize, (foreignExperts c.toParams t d).length ≤ c.prefetchSlots) ∧
      LayoutOk c t c.rankSize (buildLayouts c t).1 ∧ RowsTallied c t c.rankSize (buildLayouts c t).1 := by
  have hfit : ∀ d < c.rankSize, (foreignExperts c.toParams t d).length ≤ c.prefetchSlots := by
    refine recordRows_fit ?_
    by_contra hbad
    unfold buildLayouts at hok
    rw [if_pos (by simpa using hbad)] at hok
    cases hok
  refine ⟨hfit, ?_, ?_⟩
  · rcases buildLayouts_spec hp.paddingPos hp.nvS_le hfit with ⟨_, _, hlayout⟩ | ⟨_, hbad⟩
    · exact hlayout
    · rw [hok] at hbad; cases hbad
  · obtain ⟨hrows, h⟩ := recordRows_tallied hp.expertsPerRank_pos hfit
    unfold buildLayouts
    rw [if_neg (by simp [hrows])]
    have hframe := layoutRanks_frame c t (List.range c.rankSize)
      (((List.range c.rankSize).foldl (recordRows c t) (Layout.initial, true)).1, true)
    simp only [Layout.tallies, Prod.mk.injEq] at hframe
    obtain ⟨h1, h2, h3⟩ := hframe
    exact ⟨fun hr => h2.trans (h.own hr), h3.trans h.occurrences, fun hm e he w b hb => by
      rw [← h.targets hm e he w b hb]; dsimp only; rw [h1]⟩

/-! ## `BuildMoonEPExpertTargets` -/

namespace TargetTable

def SetsBit (x : TargetTable) (i b : ℕ) (entry : ℕ × ℕ) : Prop :=
  ∃ expert : ℕ, x.remoteExperts (entry.1 * x.prefetchSlots + entry.2) = expert ∧
    expert / x.expertsPerRank = x.ownerRank ∧
    i = (expert - x.ownerRank * x.expertsPerRank) * x.words + entry.1 / 64 ∧ b = entry.1 % 64

variable {x : TargetTable}

theorem targetEntry_bit {entry : ℕ × ℕ} (hentry : x.remoteExperts (entry.1 * x.prefetchSlots + entry.2) < x.expertNum)
    (f : ℕ → BitVec 64) : ∃ f', targetEntry x (f, true) entry = (f', true) ∧
      ∀ i b, (f' i).getLsbD b = true ↔ (f i).getLsbD b = true ∨ x.SetsBit i b entry := by
  unfold targetEntry SetsBit
  rw [if_neg (by simp)]
  dsimp only
  generalize x.remoteExperts (entry.1 * x.prefetchSlots + entry.2) = expert at hentry ⊢
  by_cases hneg : expert < 0
  · rw [if_pos hneg]
    refine ⟨f, rfl, fun i b => ⟨.inl, ?_⟩⟩
    rintro (h | ⟨y, hy, -⟩)
    · exact h
    · omega
  rw [if_neg hneg, if_neg (by omega)]
  obtain ⟨e, rfl⟩ : ∃ e : ℕ, expert = e := ⟨expert.toNat, by omega⟩
  rw [Int.toNat_natCast]
  by_cases hown : e / x.expertsPerRank = x.ownerRank
  · rw [if_pos hown]
    refine ⟨_, rfl, fun i b => ?_⟩
    by_cases hi : i = (e - x.ownerRank * x.expertsPerRank) * x.words + entry.1 / 64
    · subst hi
      rw [update_self, getLsbD_or_bit _ (mod_lt _ (by decide)), Bool.or_eq_true,
        decide_eq_true_eq]
      refine or_congr_right ⟨fun hb => ⟨e, rfl, hown, rfl, hb⟩, ?_⟩
      rintro ⟨_, _, _, _, hb⟩; exact hb
    · rw [update_of_ne hi]
      refine ⟨.inl, ?_⟩
      rintro (h | ⟨y, hy, _, hiy, _⟩)
      · exact h
      · obtain rfl : e = y := by omega
        exact absurd hiy hi
  · rw [if_neg hown]
    refine ⟨f, rfl, fun i b => ⟨.inl, ?_⟩⟩
    rintro (h | ⟨y, hy, hyown, _⟩)
    · exact h
    · obtain rfl : e = y := by omega
      exact absurd hyown hown

theorem targetEntries_bit {entries : List (ℕ × ℕ)}
    (hentries : ∀ entry ∈ entries, x.remoteExperts (entry.1 * x.prefetchSlots + entry.2) < x.expertNum)
    (f : ℕ → BitVec 64) : ∃ f', entries.foldl (targetEntry x) (f, true) = (f', true) ∧
      ∀ i b, (f' i).getLsbD b = true ↔ (f i).getLsbD b = true ∨ ∃ entry ∈ entries, x.SetsBit i b entry := by
  induction entries generalizing f with
  | nil => exact ⟨f, rfl, fun i b => by simp⟩
  | cons entry rest ih =>
    obtain ⟨f₁, h₁, hbit₁⟩ := targetEntry_bit (hentries entry mem_cons_self) f
    obtain ⟨f₂, h₂, hbit₂⟩ := ih (fun q hq => hentries q (mem_cons_of_mem _ hq)) f₁
    refine ⟨f₂, by rw [foldl_cons, h₁, h₂], fun i b => ?_⟩
    rw [hbit₂, hbit₁, or_assoc]
    simp only [mem_cons, exists_eq_or_imp]

end TargetTable

def flatTable (rowSize : ℕ) (table : ℕ → ℕ → ℤ) (i : ℕ) : ℤ := table (i / rowSize) (i % rowSize)

theorem flatTable_apply {rowSize slot : ℕ} (h : slot < rowSize) (table : ℕ → ℕ → ℤ) (d : ℕ) :
    flatTable rowSize table (d * rowSize + slot) = table d slot := by
  unfold flatTable
  rw [Nat.add_comm, add_mul_div_right _ _ (by omega), div_eq_of_lt h, Nat.zero_add,
    add_mul_mod_self_right, mod_eq_of_lt h]

theorem slotEntry_iff {slots : ℕ} (hlen : row.length ≤ slots) :
    (∃ slot < slots, slotEntry row slot = e) ↔ e ∈ row := by
  constructor
  · rintro ⟨slot, -, h⟩
    unfold slotEntry at h
    split at h
    · rename_i x hx
      obtain rfl : x = e := by omega
      exact mem_of_getElem? hx
    · omega
  · intro hmem
    obtain ⟨slot, hslot, hget⟩ := getElem_of_mem hmem
    refine ⟨slot, by omega, ?_⟩
    unfold slotEntry
    rw [List.getElem?_eq_getElem hslot, hget]

theorem slotEntry_lt (hpos : 0 < n) (h : ∀ e ∈ row, e < n) (slot : ℕ) : slotEntry row slot < n := by
  unfold slotEntry
  split
  · rename_i e he
    have := h e (mem_of_getElem? he)
    omega
  · omega

/-- `BuildMoonEPExpertTargets` on a table of rows gives the transpose of the rows. -/
theorem buildMoonEPExpertTargets_bit {R E B owner : ℕ} (hR : 0 < R) (hR' : R ≤ 128) (hE : 0 < E) (hdvd : R ∣ E)
    (howner : owner < R) {rows : ℕ → List ℕ} {table : ℕ → ℕ → ℤ} (htable : ∀ d < R, table d = slotEntry (rows d))
    (hlen : ∀ d < R, (rows d).length ≤ B) (hrows : ∀ d < R, ∀ e ∈ rows d, e < E) (old : ℕ → BitVec 64) :
    ∃ words, buildMoonEPExpertTargets (flatTable B table) R E B owner old (E / R * ((R + 63) / 64))
        true true = (words, .ok) ∧ ∀ e < E / R, ∀ w < (R + 63) / 64, ∀ b < 64,
        ((words (e * ((R + 63) / 64) + w)).getLsbD b = true ↔
          w * 64 + b < R ∧ owner * (E / R) + e ∈ rows (w * 64 + b)) := by
  have hepr : 0 < E / R := Nat.div_pos (le_of_dvd hE hdvd) hR
  have hgood : ¬ badTargetsCall R E B owner true true = true := by
    have hmod : (E : ℤ) % R = 0 := Int.emod_eq_zero_of_dvd (Int.natCast_dvd_natCast.2 hdvd)
    simp only [badTargetsCall, Bool.not_true, Bool.false_or, Bool.or_eq_true, decide_eq_true_eq,
      not_or, hmod, ne_eq, not_true_eq_false, not_false_eq_true, and_true]
    refine ⟨⟨⟨⟨⟨?_, ?_⟩, ?_⟩, ?_⟩, ?_⟩, ?_⟩ <;> omega
  set W := (R + 63) / 64 with hW
  set x : TargetTable := ⟨flatTable B table, B, E, E / R, W, owner⟩ with hx
  have hmem : ∀ entry ∈ tableEntries R B, entry.1 < R ∧ entry.2 < B := by
    intro entry h
    simp only [tableEntries, mem_flatMap, mem_range, mem_map] at h
    obtain ⟨d, hd, slot, hslot, rfl⟩ := h
    exact ⟨hd, hslot⟩
  have hread : ∀ entry ∈ tableEntries R B,
      x.remoteExperts (entry.1 * x.prefetchSlots + entry.2) = slotEntry (rows entry.1) entry.2 := by
    intro entry h
    obtain ⟨hd, hslot⟩ := hmem entry h
    rw [← htable _ hd]
    exact flatTable_apply hslot table entry.1
  have hentries : ∀ entry ∈ tableEntries R B,
      x.remoteExperts (entry.1 * x.prefetchSlots + entry.2) < x.expertNum := by
    intro entry h
    rw [hread entry h]
    exact slotEntry_lt hE (hrows _ (hmem entry h).1) _
  obtain ⟨words, hfold, hbit⟩ := TargetTable.targetEntries_bit hentries
    (fun i => if i < E / R * W then 0 else old i)
  refine ⟨words, ?_, fun e he w hw b hb => ?_⟩
  · unfold buildMoonEPExpertTargets
    rw [if_neg hgood]
    have hcount : ¬ E / R * W ≠ (E : ℤ).toNat / (R : ℤ).toNat * (((R : ℤ).toNat + 63) / 64) :=
      not_not.2 rfl
    dsimp only
    rw [if_neg hcount]
    change (((tableEntries R B).foldl (targetEntry x)
      (fun i => if i < E / R * W then 0 else old i, true)).1, if ((tableEntries R B).foldl (targetEntry x)
      (fun i => if i < E / R * W then 0 else old i, true)).2 then _ else _) = _
    rw [hfold]
    rfl
  · have hword : e * W + w < E / R * W := by
      have := row_le W he
      omega
    rw [hbit, if_pos hword]
    have hzero : ((0 : BitVec 64).getLsbD b = true) ↔ False := by simp
    rw [hzero, false_or]
    constructor
    · rintro ⟨⟨d, slot⟩, hin, expert, hval, hown, hi, hbd⟩
      obtain ⟨hd, hslot⟩ := hmem _ hin
      rw [hread _ hin] at hval
      dsimp only at hval hown hi hbd hd hslot
      have hd64 : d / 64 < W := by omega
      obtain ⟨h1, h2⟩ := row_unique hw hd64 hi
      have hle := div_mul_le_self expert (E / R)
      rw [hown] at hle
      have hexpert : owner * (E / R) + e = expert := by rw [h1]; exact Nat.add_sub_cancel' hle
      rw [show w * 64 + b = d by omega, hexpert]
      exact ⟨hd, (slotEntry_iff (hlen d hd)).1 ⟨slot, hslot, hval⟩⟩
    · rintro ⟨hd, hin⟩
      obtain ⟨slot, hslot, hval⟩ := (slotEntry_iff (hlen _ hd)).2 hin
      have hentry : (w * 64 + b, slot) ∈ tableEntries R B := by
        simp only [tableEntries, mem_flatMap, mem_range, mem_map]
        exact ⟨_, hd, slot, hslot, rfl⟩
      refine ⟨_, hentry, owner * (E / R) + e, (hread _ hentry).trans hval, ?_, ?_, ?_⟩
      · show (owner * (E / R) + e) / (E / R) = owner
        rw [Nat.add_comm, add_mul_div_right _ _ hepr, div_eq_of_lt he, Nat.zero_add]
      · show e * W + w = (owner * (E / R) + e - owner * (E / R)) * W + (w * 64 + b) / 64
        rw [Nat.add_sub_cancel_left, show (w * 64 + b) / 64 = w by omega]
      · show b = (w * 64 + b) % 64
        omega

/-! ## The contract -/

/-- What a successful `BuildLayouts` leaves in the remote table, the masks and the statistics. -/
structure RemoteContract (c : Ctx) (t : Tables) (o : Layout) : Prop where
  /-- a row lists the experts a destination holds without owning them -/
  members : ∀ d < c.rankSize, ∀ e, e ∈ remoteRowOf c.toParams t d ↔
    e < c.expertNum ∧ c.homeRank e ≠ d ∧ 0 < t.alloc d e
  nodup : ∀ d < c.rankSize, (remoteRowOf c.toParams t d).Nodup
  fits : ∀ d < c.rankSize, (remoteRowOf c.toParams t d).length ≤ c.prefetchSlots
  sorted : ∀ d < c.rankSize, (remoteRowOf c.toParams t d).Pairwise fun e e' =>
    t.alloc d e' < t.alloc d e ∨ (t.alloc d e = t.alloc d e' ∧ e < e')
  /-- the table holds the rows, with -1 in the unused slots -/
  table : c.metadata = true → ∀ d < c.rankSize, o.remoteExperts d = slotEntry (remoteRowOf c.toParams t d)
  bits : c.metadata = true → ∀ e < c.expertsPerRank, ∀ d < c.rankSize,
    ((o.expertTargets e (d / 64)).getLsbD (d % 64) = true ↔
      ∃ slot < c.prefetchSlots, o.remoteExperts d slot = ownedExpert c e)
  targets : c.metadata = true → ∀ old, ∃ words,
    buildMoonEPExpertTargets (flatTable c.prefetchSlots o.remoteExperts) c.rankSize c.expertNum
      c.prefetchSlots c.rank old (c.expertsPerRank * ((c.rankSize + 63) / 64)) true true = (words, .ok) ∧
    ∀ e < c.expertsPerRank, ∀ w < (c.rankSize + 63) / 64,
      words (e * ((c.rankSize + 63) / 64) + w) = o.expertTargets e w
  own : o.remoteStats0 = (remoteRowOf c.toParams t c.rank).length
  occurrences : o.remoteStats1 =
    ∑ d ∈ Finset.range c.rankSize, (remoteRowOf c.toParams t d).countP (c.homeRank · = c.rank)

/-- `BuildLayouts` of an accepted call, whatever the moves left behind. -/
theorem buildLayouts_contract {x : PlanAlgorithmInput} {ptr : PlanPointers}
    {ws : PlanAlgorithmWorkspace} (hvalid : validate x ptr ws = .ok) {t : Tables}
    (hok : (buildLayouts (ctxOf x ptr ws) t).2 = .ok) :
    RemoteContract (ctxOf x ptr ws) t (buildLayouts (ctxOf x ptr ws) t).1 := by
  have hv := validate_ok hvalid
  set c := ctxOf x ptr ws with hc
  have hp := hv.shared
  obtain ⟨hfit, hlayout, htally⟩ := buildLayouts_tallied hp hok
  set o := (buildLayouts c t).1 with ho
  have hlen : ∀ d < c.rankSize, (remoteRowOf c.toParams t d).length ≤ c.prefetchSlots := fun d hd =>
    (length_insertSort ..).le.trans (hfit d hd)
  have hentry : c.metadata = true → ∀ d < c.rankSize, ∀ e : ℕ,
      (∃ slot < c.prefetchSlots, o.remoteExperts d slot = e) ↔ e ∈ remoteRowOf c.toParams t d := by
    intro hm d hd e
    rw [hlayout.remoteExperts hm d hd]
    exact slotEntry_iff (hlen d hd)
  refine
    { members := fun d _ e => mem_remoteRowOf, nodup := fun d _ => remoteRowOf_nodup ..
      fits := hlen, sorted := fun d _ => remoteRowOf_sorted .., table := hlayout.remoteExperts
      bits := fun hm e he d hd => ?_, targets := fun hm old => ?_, own := htally.own hv.rank_lt
      occurrences := ?_ }
  · rw [htally.targets hm e he _ _ (Nat.mod_lt _ (by decide)), Nat.div_add_mod', hentry hm d hd]
    exact and_iff_right hd
  · obtain ⟨words, hrun, hbit⟩ := buildMoonEPExpertTargets_bit hp.rankPos hp.rankLe hp.expertPos hp.dvd
      hv.rank_lt (hlayout.remoteExperts hm) hlen (fun d hd e he => (mem_remoteRowOf.1 he).1) old
    refine ⟨words, hrun, fun e he w hw => BitVec.eq_of_getLsbD_eq fun b hb => ?_⟩
    rw [Bool.eq_iff_iff, hbit e he w hw b hb, htally.targets hm e he w b hb]
    rfl
  · rw [htally.occurrences]
    exact Finset.sum_congr rfl fun d _ => List.countP_eq_length_filter.symm

/-- Two ranks: the expert of rank 0 is also in the row of rank 1. -/
theorem buildLayouts_contract_twoRanks :
    RemoteContract (twoRanks.ctx 0) (runMoves (twoRanks.ctx 0)).toTables
      (buildLayouts (twoRanks.ctx 0) (runMoves (twoRanks.ctx 0)).toTables).1 ∧
    (buildLayouts (twoRanks.ctx 0) (runMoves (twoRanks.ctx 0)).toTables).1.remoteExperts 1 0 = 0 ∧
    (buildLayouts (twoRanks.ctx 0) (runMoves (twoRanks.ctx 0)).toTables).1.expertTargets 0 0 = 2 :=
  ⟨@buildLayouts_contract (twoRanks.input 0) (twoRanks.ptr 0) (twoRanks.ws 0) (by decide) _ (by decide),
    by decide, by decide⟩

end TileXR.Plan
