import TileXR.Plan.SimRounds
import Mathlib.Data.Finset.Prod

/-!
# How often a server is balanced

A move that stays short of its request leaves its pair blocked: every expert of the home rank is used
up, has no slot on the destination, or comes from sources that have reached the route limit. Later
moves keep it so. Every round of a server therefore balances a rank or blocks a pair that was not
blocked, and a plan has at most `rankSize + rankSize * rankSize` such rounds (`intraRounds_le`).
-/

namespace TileXR.Plan.Reference
open Lib List Nat Option
variable {a asg : Assignment} {dst' home' request : ℕ}

/-! ## Blocked pairs -/

/-- A source that can give `dst` no more tokens of an expert. -/
def Exhausted (p : Params) (remaining routed : ℕ → ℕ) (src : ℕ) : Prop :=
  remaining src = 0 ∨ (p.routeLimit ≠ 0 ∧ p.routeLimit ≤ routed src)

/-- Expert `e` of `home` has nothing for `dst`. -/
def Spent (p : Params) (aff : ℕ → List ℕ) (t : RefState) (home dst e : ℕ) : Prop :=
  t.alloc home e = 0 ∨
  (e ∉ t.remoteExpertSets dst ∧ p.prefetchSlots ≤ (t.remoteExpertSets dst).card) ∨
  ∀ src ∈ aff dst, Exhausted p (t.remainingTpe · e) (t.routedPairTokens · dst) src

def Blocked (p : Params) (aff : ℕ → List ℕ) (t : RefState) (home dst : ℕ) : Prop :=
  ∀ e, p.homeRank e = home → Spent p aff t home dst e

/-- What moves from `home` to `dst` do to the tables. -/
structure Onward (p : Params) (home dst : ℕ) (t t' : RefState) : Prop where
  remaining : ∀ src e, t'.remainingTpe src e ≤ t.remainingTpe src e
  routed : ∀ src d, t.routedPairTokens src d ≤ t'.routedPairTokens src d
  alloc : ∀ e, t'.alloc (p.homeRank e) e ≤ t.alloc (p.homeRank e) e
  remote : ∀ d, t.remoteExpertSets d ⊆ t'.remoteExpertSets d
  fresh : ∀ d e, e ∈ t'.remoteExpertSets d →
    e ∈ t.remoteExpertSets d ∨ (d = dst ∧ p.homeRank e = home)
  rounds : t'.intraRounds = t.intraRounds

namespace Onward
variable {p : Params} {aff : ℕ → List ℕ} {home dst : ℕ} {t t' t'' : RefState}

theorem refl (p : Params) (home dst : ℕ) (t : RefState) : Onward p home dst t t :=
  ⟨fun _ _ => le_rfl, fun _ _ => le_rfl, fun _ => le_rfl, fun _ => Finset.Subset.refl _, fun _ _ h => .inl h, rfl⟩

theorem trans (h : Onward p home dst t t') (h' : Onward p home dst t' t'') : Onward p home dst t t'' where
  remaining src e := (h'.remaining src e).trans (h.remaining src e)
  routed src d := (h.routed src d).trans (h'.routed src d)
  alloc e := (h'.alloc e).trans (h.alloc e)
  remote d := (h.remote d).trans (h'.remote d)
  fresh d e he := by
    rcases h'.fresh d e he with he | he
    · exact h.fresh d e he
    · exact .inr he
  rounds := h'.rounds.trans h.rounds

/-- An expert stays spent, unless it is the one that got a slot. -/
theorem spent (h : Onward p home dst t t') {e : ℕ} (he : p.homeRank e = home')
    (hnew : e ∈ t'.remoteExpertSets dst' → e ∈ t.remoteExpertSets dst')
    (hs : Spent p aff t home' dst' e) : Spent p aff t' home' dst' e := by
  rcases hs with h0 | ⟨hslot, hcard⟩ | hsrc
  · subst he
    exact .inl (le_zero.1 ((h.alloc e).trans h0.le))
  · exact .inr (.inl ⟨fun hmem => hslot (hnew hmem), hcard.trans (Finset.card_le_card (h.remote dst'))⟩)
  · refine .inr (.inr fun src hmem => ?_)
    rcases hsrc src hmem with h0 | ⟨hl, hfull⟩
    · exact .inl (le_zero.1 ((h.remaining src e).trans h0.le))
    · exact .inr ⟨hl, hfull.trans (h.routed src dst')⟩

theorem blocked (h : Onward p home dst t t') (hne : ¬ (home' = home ∧ dst' = dst))
    (hb : Blocked p aff t home' dst') : Blocked p aff t' home' dst' := by
  intro e he
  refine h.spent he (fun hmem => ?_) (hb e he)
  rcases h.fresh dst' e hmem with hold | ⟨hd, hh⟩
  · exact hold
  · exact absurd ⟨he.symm.trans hh, hd⟩ hne

end Onward

/-! ## The sources of one expert -/

section Sources
variable {p : Params} {expert dst : ℕ}

theorem assign_exhausted {order : List ℕ} (hsrc : ∀ src ∈ order, Exhausted p a.remaining a.routed src)
    (h : order.foldl (assignFromSource p expert dst) (some a) = some asg) : asg = a := by
  induction order with
  | nil => exact (some.inj h).symm
  | cons src order ih =>
    rw [foldl_cons] at h
    have ih := ih fun r hr => hsrc r (mem_cons_of_mem _ hr)
    rcases assignFromSource_cases p expert dst a src with he | ⟨he, -⟩ | ⟨-, take, h0, hr, -, hl, -⟩
    · rw [he] at h; exact ih h
    · rw [he, foldl_assign_none] at h; cases h
    · rcases hsrc src mem_cons_self with hs | ⟨hl0, hfull⟩
      · omega
      · have := hl hl0; omega

theorem assignFromSource_exhausted {b : Assignment} {src : ℕ}
    (h : assignFromSource p expert dst (some a) src = some b) (hd : 0 < b.demand) :
    Exhausted p b.remaining b.routed src := by
  unfold assignFromSource at h
  dsimp only at h
  split at h
  · obtain rfl := some.inj h; omega
  split at h
  · cases h
  rename_i hdemand _
  -- the take is what the source has left, what the pair has left, or all that is wanted
  split at h
  · rename_i hl
    split at h
    · obtain rfl := some.inj h
      by_cases hr : a.remaining src = 0
      · exact .inl hr
      · exact .inr ⟨hl, by omega⟩
    · obtain rfl := some.inj h
      dsimp only [Assignment.take] at hd ⊢
      by_cases hr : a.remaining src ≤ p.routeLimit - a.routed src
      · refine .inl ?_
        rw [sub1_apply, if_pos rfl]
        omega
      · refine .inr ⟨hl, ?_⟩
        rw [if_pos hl, add1_apply, if_pos rfl]
        omega
  · split at h
    · obtain rfl := some.inj h
      exact .inl (by omega)
    · obtain rfl := some.inj h
      dsimp only [Assignment.take] at hd ⊢
      refine .inl ?_
      rw [sub1_apply, if_pos rfl]
      omega

theorem assign_mono (order : List ℕ) (h : order.foldl (assignFromSource p expert dst) (some a) = some asg) :
    (∀ src, asg.remaining src ≤ a.remaining src) ∧ (∀ src, a.routed src ≤ asg.routed src) ∧
      asg.demand ≤ a.demand := by
  refine assignTokenSources_inv (P := fun b => (∀ src, b.remaining src ≤ a.remaining src) ∧
    (∀ src, a.routed src ≤ b.routed src) ∧ b.demand ≤ a.demand) ?_ order
    ⟨fun _ => le_rfl, fun _ => le_rfl, le_rfl⟩ h
  rintro b src take ⟨hrem, hrouted, hdem⟩ _ _ _ _ _
  refine ⟨fun r => ?_, fun r => ?_, (sub_le _ _).trans hdem⟩
  · show sub1 b.remaining src take r ≤ _
    rw [sub1_apply]
    exact (sub_le _ _).trans (hrem r)
  · dsimp only [Assignment.take]
    split
    · rw [add1_apply]
      exact (hrouted r).trans (Nat.le_add_right _ _)
    · exact hrouted r

/-- An assignment that stays short has exhausted its sources. -/
theorem assign_short {order : List ℕ} (h : order.foldl (assignFromSource p expert dst) (some a) = some asg)
    (hd : 0 < asg.demand) : ∀ src ∈ order, Exhausted p asg.remaining asg.routed src := by
  induction order generalizing a with
  | nil => simp
  | cons src order ih =>
    rw [foldl_cons] at h
    cases hb : assignFromSource p expert dst (some a) src with
    | none => rw [hb, foldl_assign_none] at h; cases h
    | some b =>
      rw [hb] at h
      obtain ⟨hrem, hrouted, hdem⟩ := assign_mono order h
      intro r hr
      rcases mem_cons.1 hr with rfl | hr
      · rcases assignFromSource_exhausted hb (by omega) with h0 | ⟨hl, hfull⟩
        · exact .inl (le_zero.1 ((hrem r).trans h0.le))
        · exact .inr ⟨hl, hfull.trans (hrouted r)⟩
      · exact ih h r hr

end Sources

/-! ## One move -/

section Move
variable {p : Params} {aff : ℕ → List ℕ} {home dst : ℕ}

theorem bookMove_rounds (expert request : ℕ) (remote : Bool) (t : RefState) (a : Assignment) :
    (bookMove p home dst expert request remote t a).intraRounds = t.intraRounds := by
  rw [bookMove_eq]

theorem bookMove_onward {expert : ℕ} (hhome : p.homeRank expert = home) (hne : home ≠ dst) (remote : Bool)
    (t : RefState) (hrem : ∀ src, a.remaining src ≤ t.remainingTpe src expert)
    (hrouted : ∀ src, t.routedPairTokens src dst ≤ a.routed src) :
    Onward p home dst t (bookMove p home dst expert request remote t a) where
  remaining src e := by
    rw [bookMove_tables]
    simp only [Tables.book, writeBack]
    split
    · rename_i h; rw [h.2]; exact hrem src
    · exact le_rfl
  routed src d := by
    rw [bookMove_tables]
    simp only [Tables.book, writeBack]
    split
    · rename_i h; rw [h.2]; exact hrouted src
    · exact le_rfl
  alloc e := by
    rw [bookMove_tables, book_alloc]
    have hdst : ¬ (p.homeRank e = dst ∧ e = expert) := by
      rintro ⟨hd, rfl⟩; exact hne (hhome.symm.trans hd)
    rw [if_neg hdst]
    exact sub_le _ _
  remote d := by
    rw [bookMove_remote]
    split
    · rw [Function.update_apply]
      split
      · rename_i hd; rw [hd]; exact Finset.subset_insert _ _
      · exact Finset.Subset.refl _
    · exact Finset.Subset.refl _
  fresh d e he := by
    rw [bookMove_remote] at he
    split at he
    · rw [Function.update_apply] at he
      split at he
      · rename_i hd
        rcases Finset.mem_insert.1 he with rfl | he
        · exact .inr ⟨hd, hhome⟩
        · exact .inl (hd ▸ he)
      · exact .inl he
    · exact .inl he
  rounds := bookMove_rounds ..

theorem moveExpert_cases (home : ℕ) (haff : ∀ r ∈ aff dst, r < p.rankSize) (a : RefMoveAcc) (expert : ℕ) :
    (moveExpert p aff home dst a expert = a ∧ (a.demand = 0 ∨ a.st.alloc home expert = 0)) ∨
    (moveExpert p aff home dst a expert = { a with st := { a.st with sawSlotBlock := true } } ∧
      expert ∉ a.st.remoteExpertSets dst ∧ p.prefetchSlots ≤ (a.st.remoteExpertSets dst).card) ∨
    ∃ asg, assignTokenSources p expert dst (min (a.st.alloc home expert) a.demand) (aff dst)
        (a.st.remainingTpe · expert) (a.st.routedPairTokens · dst) (a.st.srcExpertCursor · expert)
        (a.st.dstExpertCursor dst expert) = some asg ∧
      (expert ∈ a.st.remoteExpertSets dst ∨ (a.st.remoteExpertSets dst).card < p.prefetchSlots) ∧
      moveExpert p aff home dst a expert =
        { st := bookMove p home dst expert (min (a.st.alloc home expert) a.demand)
            (decide (expert ∈ a.st.remoteExpertSets dst)) a.st asg
          demand := a.demand - asg.actualAssigned
          found := true } := by
  unfold moveExpert
  by_cases h0 : a.demand = 0
  · rw [if_pos h0]; exact .inl ⟨rfl, .inl h0⟩
  rw [if_neg h0]
  dsimp only
  by_cases h1 : a.st.alloc home expert = 0
  · rw [if_pos h1]; exact .inl ⟨rfl, .inr h1⟩
  rw [if_neg h1]
  split
  · rename_i hslot
    simp only [Bool.and_eq_true, Bool.not_eq_true', decide_eq_false_iff_not, decide_eq_true_eq] at hslot
    exact .inr (.inl ⟨rfl, hslot.1, hslot.2⟩)
  · rename_i hslot
    obtain ⟨asg, hasg⟩ : ∃ asg, assignTokenSources p expert dst (min (a.st.alloc home expert) a.demand)
        (aff dst) (a.st.remainingTpe · expert) (a.st.routedPairTokens · dst)
        (a.st.srcExpertCursor · expert) (a.st.dstExpertCursor dst expert) = some asg :=
      assignTokenSources_isSome haff _
    refine .inr (.inr ⟨asg, hasg, ?_, by rw [hasg]⟩)
    by_cases hmem : expert ∈ a.st.remoteExpertSets dst
    · exact .inl hmem
    · exact .inr (by simpa [hmem] using hslot)

section
variable (haff : ∀ r ∈ aff dst, r < p.rankSize)
include haff

theorem moveExpert_onward (hne : home ≠ dst) {expert : ℕ} (hhome : p.homeRank expert = home)
    (a : RefMoveAcc) : Onward p home dst a.st (moveExpert p aff home dst a expert).st := by
  rcases moveExpert_cases home haff a expert with ⟨h, -⟩ | ⟨h, -⟩ | ⟨asg, hasg, -, h⟩
  · rw [h]; exact Onward.refl ..
  · rw [h]; exact ⟨fun _ _ => le_rfl, fun _ _ => le_rfl, fun _ => le_rfl,
      fun _ => Finset.Subset.refl _, fun _ _ h => .inl h, rfl⟩
  · rw [h]
    obtain ⟨hrem, hrouted, -⟩ := assign_mono (aff dst) hasg
    exact bookMove_onward hhome hne _ _ hrem hrouted

/-- The turn of a spent expert moves nothing and takes no slot. -/
theorem moveExpert_spent {a : RefMoveAcc} {expert : ℕ} (hs : Spent p aff a.st home dst expert) :
    (moveExpert p aff home dst a expert).demand = a.demand ∧
      (moveExpert p aff home dst a expert).st.remoteExpertSets = a.st.remoteExpertSets := by
  rcases moveExpert_cases home haff a expert with ⟨h, -⟩ | ⟨h, -⟩ | ⟨asg, hasg, hroom, h⟩
  · rw [h]; exact ⟨rfl, rfl⟩
  · rw [h]; exact ⟨rfl, rfl⟩
  · have h0 : asg.actualAssigned = 0 := by
      have htotal := assignTokenSources_total hasg
      rcases hs with halloc | ⟨hslot, hcard⟩ | hsrc
      · rw [halloc] at htotal; omega
      · rcases hroom with hmem | hlt
        · exact absurd hmem hslot
        · omega
      · exact congrArg Assignment.actualAssigned (assign_exhausted hsrc hasg)
    rw [h, bookMove_remote, if_neg (by omega), h0]
    exact ⟨rfl, rfl⟩

theorem moveExpert_short (hne : home ≠ dst) {a : RefMoveAcc} {expert : ℕ}
    (hd : 0 < (moveExpert p aff home dst a expert).demand) :
    Spent p aff (moveExpert p aff home dst a expert).st home dst expert := by
  rcases moveExpert_cases home haff a expert with ⟨h, h0⟩ | ⟨h, hslot⟩ | ⟨asg, hasg, -, h⟩
  · rw [h] at hd ⊢
    rcases h0 with h0 | h0
    · omega
    · exact .inl h0
  · rw [h]; exact .inr (.inl hslot)
  · rw [h] at hd ⊢
    have htotal := assignTokenSources_total hasg
    dsimp only at hd ⊢
    rcases Nat.eq_zero_or_pos asg.demand with hz | hshort
    · -- the whole allocation has gone
      refine .inl ?_
      rw [bookMove_tables, book_alloc, if_pos ⟨rfl, rfl⟩, if_neg fun hc => hne hc.1]
      show a.st.alloc home expert - _ + 0 = 0
      omega
    · refine .inr (.inr fun src hsrc => ?_)
      have hlt := haff src hsrc
      have := assign_short hasg hshort src hsrc
      rw [bookMove_tables]
      simpa [Exhausted, Tables.book, writeBack, hlt] using this

theorem moveExperts_onward (hne : home ≠ dst) (experts : List ℕ) (hhome : ∀ e ∈ experts, p.homeRank e = home)
    (a : RefMoveAcc) : Onward p home dst a.st (experts.foldl (moveExpert p aff home dst) a).st := by
  induction experts generalizing a with
  | nil => exact Onward.refl ..
  | cons e es ih =>
    exact (moveExpert_onward haff hne (hhome e mem_cons_self) a).trans
      (ih (fun x hx => hhome x (mem_cons_of_mem _ hx)) _)

theorem moveExperts_blocked (hne : home ≠ dst) (experts : List ℕ)
    (hhome : ∀ e ∈ experts, p.homeRank e = home) {a : RefMoveAcc} (hb : Blocked p aff a.st home dst) :
    (experts.foldl (moveExpert p aff home dst) a).demand = a.demand ∧
      Blocked p aff (experts.foldl (moveExpert p aff home dst) a).st home dst := by
  induction experts generalizing a with
  | nil => exact ⟨rfl, hb⟩
  | cons e es ih =>
    have he := hhome e mem_cons_self
    obtain ⟨hdem, hrem⟩ := moveExpert_spent haff (hb e he)
    have hb' : Blocked p aff (moveExpert p aff home dst a e).st home dst := fun x hx =>
      (moveExpert_onward haff hne he a).spent hx (by rw [hrem]; exact id) (hb x hx)
    obtain ⟨h1, h2⟩ := ih (fun x hx => hhome x (mem_cons_of_mem _ hx)) hb'
    exact ⟨h1.trans hdem, h2⟩

omit haff in
/-- Only the experts that have a turn get slots, and the demand only falls. -/
theorem moveExperts_fresh (home : ℕ) (haff : ∀ r ∈ aff dst, r < p.rankSize) (experts : List ℕ) (a : RefMoveAcc) :
    (experts.foldl (moveExpert p aff home dst) a).demand ≤ a.demand ∧
      ∀ d, ∀ e ∈ (experts.foldl (moveExpert p aff home dst) a).st.remoteExpertSets d,
        e ∈ a.st.remoteExpertSets d ∨ e ∈ experts := by
  induction experts generalizing a with
  | nil => exact ⟨le_rfl, fun _ _ h => .inl h⟩
  | cons x es ih =>
    obtain ⟨hdem, hfresh⟩ := ih (moveExpert p aff home dst a x)
    have hstep : (moveExpert p aff home dst a x).demand ≤ a.demand ∧
        ∀ d, ∀ e ∈ (moveExpert p aff home dst a x).st.remoteExpertSets d,
          e ∈ a.st.remoteExpertSets d ∨ e = x := by
      rcases moveExpert_cases home haff a x with ⟨h, -⟩ | ⟨h, -⟩ | ⟨asg, -, -, h⟩
      · rw [h]; exact ⟨le_rfl, fun _ _ h => .inl h⟩
      · rw [h]; exact ⟨le_rfl, fun _ _ h => .inl h⟩
      · rw [h]
        refine ⟨sub_le _ _, fun d e he => ?_⟩
        rw [bookMove_remote] at he
        split at he
        · rw [Function.update_apply] at he
          split at he
          · rename_i hd
            rcases Finset.mem_insert.1 he with rfl | he
            · exact .inr rfl
            · exact .inl (hd ▸ he)
          · exact .inl he
        · exact .inl he
    refine ⟨hdem.trans hstep.1, fun d e he => ?_⟩
    rcases hfresh d e he with he | he
    · rcases hstep.2 d e he with he | rfl
      · exact .inl he
      · exact .inr mem_cons_self
    · exact .inr (mem_cons_of_mem _ he)

/-- When tokens are still wanted after all turns, every expert that had one is spent. -/
theorem moveExperts_short (hne : home ≠ dst) {experts : List ℕ} (hhome : ∀ e ∈ experts, p.homeRank e = home)
    {a : RefMoveAcc} (hd : 0 < (experts.foldl (moveExpert p aff home dst) a).demand) :
    ∀ e ∈ experts, Spent p aff (experts.foldl (moveExpert p aff home dst) a).st home dst e := by
  induction experts generalizing a with
  | nil => simp
  | cons x es ih =>
    have hes := fun e he => hhome e (mem_cons_of_mem x he)
    have ih := ih hes hd
    intro e he
    by_cases hmem : e ∈ es
    · exact ih e hmem
    obtain rfl : e = x := (mem_cons.1 he).resolve_right hmem
    obtain ⟨hle, hfresh⟩ := moveExperts_fresh home haff es (moveExpert p aff home dst a e)
    have hspent := moveExpert_short haff hne (a := a) (hd.trans_le hle)
    exact (moveExperts_onward haff hne es hes _).spent (hhome e mem_cons_self)
      (fun hin => (hfresh dst e hin).resolve_right hmem) hspent

end

def turns (p : Params) (t : RefState) (home : ℕ) : List ℕ :=
  stdSort (expertBefore (t.alloc home))
    ((List.range' (home * p.expertsPerRank) p.expertsPerRank).filter (0 < t.alloc home ·))

theorem turns_home {t : RefState} : ∀ e ∈ turns p t home, p.homeRank e = home :=
  fun _ he => mem_home (mem_of_mem_filter (mem_stdSort.1 he))

theorem applyExpertMove_onward (home : ℕ) (haff : ∀ r ∈ aff dst, r < p.rankSize) (t : RefState) (request : ℕ) :
    Onward p home dst t (applyExpertMove p aff t home dst request).1 := by
  unfold applyExpertMove
  split
  · exact Onward.refl ..
  rename_i hgo
  have h := moveExperts_onward haff (fun he => hgo (.inr he)) (turns p t home) turns_home
    ⟨t, request, false⟩
  dsimp only
  split
  · exact ⟨h.remaining, h.routed, h.alloc, h.remote, h.fresh, h.rounds⟩
  · exact h

theorem applyExpertMove_blocked (haff : ∀ r ∈ aff dst, r < p.rankSize) {t : RefState} (request : ℕ)
    (hb : Blocked p aff t home dst) : (applyExpertMove p aff t home dst request).2 = 0 ∧
      Blocked p aff (applyExpertMove p aff t home dst request).1 home dst := by
  unfold applyExpertMove
  split
  · exact ⟨rfl, hb⟩
  rename_i hgo
  obtain ⟨hdem, hend⟩ := moveExperts_blocked haff (fun he => hgo (.inr he)) (turns p t home) turns_home
    (a := ⟨t, request, false⟩) hb
  refine ⟨?_, ?_⟩
  · show request - ((turns p t home).foldl (moveExpert p aff home dst) ⟨t, request, false⟩).demand = 0
    rw [hdem, Nat.sub_self]
  · dsimp only
    split <;> exact hend

theorem applyExpertMove_short (hE : 0 < p.expertsPerRank) (haff : ∀ r ∈ aff dst, r < p.rankSize)
    {t : RefState} (hne : home ≠ dst) (hshort : (applyExpertMove p aff t home dst request).2 < request) :
    Blocked p aff (applyExpertMove p aff t home dst request).1 home dst := by
  have honward := applyExpertMove_onward home haff t request
  unfold applyExpertMove at hshort honward ⊢
  have hgo : ¬ (request = 0 ∨ home = dst) := by
    rintro (rfl | he)
    · omega
    · exact hne he
  rw [if_neg hgo] at hshort honward ⊢
  have hd : 0 < ((turns p t home).foldl (moveExpert p aff home dst) ⟨t, request, false⟩).demand := by
    change request - ((turns p t home).foldl (moveExpert p aff home dst) ⟨t, request, false⟩).demand <
      request at hshort
    omega
  intro e he
  by_cases hmem : e ∈ turns p t home
  · have := moveExperts_short haff hne turns_home hd e hmem
    dsimp only
    split <;> exact this
  · -- the expert had nothing when the turns were drawn up
    refine .inl (le_zero.1 ?_)
    have h0 : t.alloc home e = 0 := by
      by_contra hpos
      refine hmem (mem_stdSort.2 (mem_filter.2 ⟨?_, by simp; omega⟩))
      rw [List.mem_range'_1, ← he]
      exact ⟨div_mul_le_self _ _, by
        have := lt_div_mul_add (a := e) hE; exact this⟩
    have := honward.alloc e
    rw [he] at this
    exact this.trans h0.le

end Move

/-! ## Rounds -/

section Rounds
variable {p : Params} {aff : ℕ → List ℕ}

def unbalanced (p : Params) (t : RefState) : Finset ℕ :=
  (Finset.range p.rankSize).filter (t.rankLoad · ≠ p.cap)

open Classical in
noncomputable def openPairs (p : Params) (aff : ℕ → List ℕ) (t : RefState) : Finset (ℕ × ℕ) :=
  (Finset.range p.rankSize ×ˢ Finset.range p.rankSize).filter fun pr => ¬ Blocked p aff t pr.1 pr.2

theorem mem_openPairs {t : RefState} {pr : ℕ × ℕ} : pr ∈ openPairs p aff t ↔
    (pr.1 < p.rankSize ∧ pr.2 < p.rankSize) ∧ ¬ Blocked p aff t pr.1 pr.2 := by
  simp [openPairs]

/-- Every round of a server lowers it. -/
noncomputable def potential (p : Params) (aff : ℕ → List ℕ) (t : RefState) : ℕ :=
  (unbalanced p t).card + (openPairs p aff t).card

theorem potential_le (t : RefState) : potential p aff t ≤ p.rankSize + p.rankSize * p.rankSize := by
  refine Nat.add_le_add ((Finset.card_filter_le _ _).trans (Finset.card_range _).le) ?_
  have hsub : openPairs p aff t ⊆ Finset.range p.rankSize ×ˢ Finset.range p.rankSize :=
    fun pr hpr => by simpa using (mem_openPairs.1 hpr).1
  exact (Finset.card_le_card hsub).trans (by rw [Finset.card_product, Finset.card_range])

section
variable (hE : 0 < p.expertsPerRank)
include hE

/-- A move between ranks lowers the potential if it moves anything. -/
theorem move_potential (haff : ∀ d, ∀ r ∈ aff d, r < p.rankSize)
    (t : RefState) {home dst : ℕ} (hh : home < p.rankSize) (hd : dst < p.rankSize) (hne : home ≠ dst) :
    let r := applyExpertMove p aff t home dst (requestedUnits p.cap t.rankLoad home dst)
    potential p aff r.1 ≤ potential p aff t ∧ (0 < r.2 → potential p aff r.1 < potential p aff t) := by
  set k := requestedUnits p.cap t.rankLoad home dst with hk
  intro r
  obtain ⟨hle, hload⟩ := applyExpertMove_load p aff t home dst k
  have honward := applyExpertMove_onward home (haff dst) t k
  have hload' : ∀ x, r.1.rankLoad x =
      t.rankLoad x - (if x = home then r.2 else 0) + if x = dst then r.2 else 0 := hload.apply
  have hkeep : ∀ pr : ℕ × ℕ, Blocked p aff t pr.1 pr.2 → Blocked p aff r.1 pr.1 pr.2 := by
    rintro ⟨h', d'⟩ hb
    by_cases hpr : h' = home ∧ d' = dst
    · obtain ⟨rfl, rfl⟩ := hpr
      exact (applyExpertMove_blocked (haff d') k hb).2
    · exact honward.blocked hpr hb
  have hpairs : openPairs p aff r.1 ⊆ openPairs p aff t := fun pr hpr => by
    rw [mem_openPairs] at hpr ⊢
    exact ⟨hpr.1, fun hb => hpr.2 (hkeep pr hb)⟩
  have hr2 : r.2 ≤ min (t.rankLoad home - p.cap) (p.cap - t.rankLoad dst) := hle
  have hactive : unbalanced p r.1 ⊆ unbalanced p t := by
    intro x hx
    rw [unbalanced, Finset.mem_filter] at hx ⊢
    refine ⟨hx.1, fun hcap => hx.2 ?_⟩
    rw [hload' x]
    by_cases h1 : x = home
    · subst h1; rw [if_pos rfl, if_neg hne]; omega
    · by_cases h2 : x = dst
      · subst h2; rw [if_neg h1, if_pos rfl]; omega
      · rw [if_neg h1, if_neg h2]; omega
  refine ⟨Nat.add_le_add (Finset.card_le_card hactive) (Finset.card_le_card hpairs), fun hpos => ?_⟩
  rcases Nat.lt_or_ge r.2 k with hshort | hfull
  · -- the pair was open, and is blocked now
    refine Nat.add_lt_add_of_le_of_lt (Finset.card_le_card hactive) (Finset.card_lt_card ?_)
    refine (Finset.ssubset_iff_of_subset hpairs).2 ⟨(home, dst), mem_openPairs.2 ⟨⟨hh, hd⟩, fun hb => ?_⟩,
      fun hmem => (mem_openPairs.1 hmem).2 (applyExpertMove_short hE (haff dst) hne hshort)⟩
    exact absurd (applyExpertMove_blocked (haff dst) k hb).1 hpos.ne'
  · -- the sender or the receiver is at capacity now
    refine Nat.add_lt_add_of_lt_of_le (Finset.card_lt_card ?_) (Finset.card_le_card hpairs)
    have hk' : k = min (t.rankLoad home - p.cap) (p.cap - t.rankLoad dst) := hk
    rcases Nat.le_total (t.rankLoad home - p.cap) (p.cap - t.rankLoad dst) with hmin | hmin
    · refine (Finset.ssubset_iff_of_subset hactive).2 ⟨home, ?_, fun hmem => ?_⟩
      · exact Finset.mem_filter.2 ⟨Finset.mem_range.2 hh, by omega⟩
      · have hload := hload' home
        rw [if_pos rfl, if_neg hne] at hload
        exact (Finset.mem_filter.1 hmem).2 (by omega)
    · refine (Finset.ssubset_iff_of_subset hactive).2 ⟨dst, ?_, fun hmem => ?_⟩
      · exact Finset.mem_filter.2 ⟨Finset.mem_range.2 hd, by omega⟩
      · have hload := hload' dst
        rw [if_neg hne.symm, if_pos rfl] at hload
        exact (Finset.mem_filter.1 hmem).2 (by omega)

theorem moves_potential (haff : ∀ d, ∀ r ∈ aff d, r < p.rankSize)
    {pairs : List (ℕ × ℕ)} (hpairs : ∀ pr ∈ pairs, pr.1 < p.rankSize ∧ pr.2 < p.rankSize ∧ pr.1 ≠ pr.2)
    (b : RefState × ℕ) : b.2 ≤ (pairs.foldl (moveCurrent p aff) b).2 ∧
    (pairs.foldl (moveCurrent p aff) b).1.intraRounds = b.1.intraRounds ∧
    potential p aff (pairs.foldl (moveCurrent p aff) b).1 ≤ potential p aff b.1 ∧
    (b.2 < (pairs.foldl (moveCurrent p aff) b).2 →
      potential p aff (pairs.foldl (moveCurrent p aff) b).1 < potential p aff b.1) := by
  induction pairs generalizing b with
  | nil => exact ⟨le_rfl, rfl, le_rfl, fun h => absurd h (lt_irrefl _)⟩
  | cons pr pairs ih =>
    obtain ⟨h1, h2, hne⟩ := hpairs pr mem_cons_self
    obtain ⟨hle, hlt⟩ := move_potential hE haff b.1 h1 h2 hne
    have hrounds := (applyExpertMove_onward pr.1 (haff pr.2) b.1 (requestedUnits p.cap b.1.rankLoad pr.1 pr.2)).rounds
    obtain ⟨ih1, ih2, ih3, ih4⟩ := ih (fun q hq => hpairs q (mem_cons_of_mem _ hq))
      (moveCurrent p aff b pr)
    rw [foldl_cons]
    refine ⟨(Nat.le_add_right _ _).trans ih1, ih2.trans hrounds, ih3.trans hle, fun h => ?_⟩
    by_cases hmoved : 0 < (applyExpertMove p aff b.1 pr.1 pr.2 (requestedUnits p.cap b.1.rankLoad pr.1 pr.2)).2
    · exact ih3.trans_lt (hlt hmoved)
    · refine (ih4 (lt_of_le_of_lt ?_ h)).trans_le hle
      show b.2 + _ ≤ b.2
      omega

theorem intraRound_potential (hcap : p.cap ≠ 0)
    (haff : ∀ d, ∀ r ∈ aff d, r < p.rankSize) (key : ℕ) {n : ℕ} {t : RefState}
    (h : t.intraRounds + potential p aff t ≤ n) : (intraRound p aff (membersOf p key) t).state.intraRounds +
      potential p aff (intraRound p aff (membersOf p key) t).state ≤ n := by
  rw [refIntraRound_eq hcap]
  split
  · exact h
  obtain ⟨-, hrounds, hle, hlt⟩ := moves_potential hE haff (mem_serverPairs (p := p) key) (t, 0)
  dsimp only
  split
  · exact (Nat.add_le_add hrounds.le hle).trans h
  · rename_i hmoved
    have hlt := hlt (Nat.pos_of_ne_zero hmoved)
    refine le_trans ?_ h
    show _ + 1 + potential p aff _ ≤ _
    rw [hrounds, Nat.add_assoc, Nat.add_comm 1]
    exact Nat.add_le_add_left hlt _

theorem runIntraServerStage_rounds (hcap : p.cap ≠ 0)
    (haff : ∀ d, ∀ r ∈ aff d, r < p.rankSize) : (runIntraServerStage p aff (RefState.initial p)).intraRounds ≤
      p.rankSize + p.rankSize * p.rankSize := by
  have := foldlRecOn (motive := fun t : RefState =>
      t.intraRounds + potential p aff t ≤ p.rankSize + p.rankSize * p.rankSize)
    (stdSort (· < ·) (serverKeys p)) (intraServer p aff) (b := RefState.initial p)
    ((Nat.zero_add _).trans_le (potential_le _)) fun t h key _ =>
      loop_keeps (P := fun t => t.intraRounds + potential p aff t ≤ _)
        (fun t ht => intraRound_potential hE hcap haff key ht) h
  unfold runIntraServerStage
  omega

end

theorem tryCandidates_rounds (haff : ∀ d, ∀ r ∈ aff d, r < p.rankSize) (dst : ℕ) (cands : List ℕ)
    (a : RefInterAcc) : (tryCandidates p aff dst cands a).st.intraRounds = a.st.intraRounds := by
  induction cands generalizing a with
  | nil => rfl
  | cons src rest ih =>
    unfold tryCandidates
    split
    · exact ih a
    dsimp only
    split
    · exact ih a
    have hmove := (applyExpertMove_onward src (haff dst) a.st (requestedUnits p.cap a.st.rankLoad src dst)).rounds
    split
    · exact hmove
    · exact (ih _).trans hmove

theorem interRound_rounds (haff : ∀ d, ∀ r ∈ aff d, r < p.rankSize) (t : RefState) :
    (interRound p aff t).state.intraRounds = t.intraRounds := by
  have hserve (senders receivers : List ℕ) (a : RefInterAcc) :
      (receivers.foldl (serveReceiver p aff senders) a).st.intraRounds = a.st.intraRounds :=
    foldlRecOn (motive := fun b : RefInterAcc => b.st.intraRounds = a.st.intraRounds) _ _ rfl
      fun b hb dst _ => (tryCandidates_rounds haff dst _ b).trans hb
  unfold interRound
  dsimp only
  split
  · rfl
  split
  · rfl
  split <;> exact hserve _ _ _

theorem appendRemainderSegments_rounds (t : RefState) :
    (appendRemainderSegments p t).intraRounds = t.intraRounds := by
  have hstep : ∀ (t : RefState) (e src : ℕ), (appendRemainder p t e src).intraRounds = t.intraRounds := by
    intro t e src
    unfold appendRemainder
    dsimp only
    split <;> rfl
  refine foldlRecOn (motive := fun t' : RefState => t'.intraRounds = t.intraRounds) _ _ rfl fun t' ht e _ => ?_
  exact foldlRecOn (motive := fun t' : RefState => t'.intraRounds = t.intraRounds) _ _ ht
    fun t' ht src _ => (hstep t' e src).trans ht

theorem intraRounds_le (hE : 0 < p.expertsPerRank) (hcap : p.cap ≠ 0) (haff : ∀ d, ∀ r ∈ aff d, r < p.rankSize) :
    (runMoves p aff).intraRounds ≤ p.rankSize + p.rankSize * p.rankSize := by
  rw [runMoves, appendRemainderSegments_rounds]
  exact loop_keeps (P := fun t => t.intraRounds ≤ p.rankSize + p.rankSize * p.rankSize)
    (fun t ht => (interRound_rounds haff t).trans_le ht) (runIntraServerStage_rounds hE hcap haff)

end Rounds

end TileXR.Plan.Reference
