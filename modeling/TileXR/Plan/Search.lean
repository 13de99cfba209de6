import TileXR.Plan.Conserved

/-!
# What the search between servers has looked at when it gives up

`RunInter` ends a round without a move when none of the pairs it looked at could move a token. These are,
for every receiver of the round, the first three ranks of its affinity row that are among the senders
(`examined`). A call moves nothing exactly when, for every expert the home rank still holds, the
destination has no slot for it or no source can give any of its tokens (`Stuck`), which depends on the
tables and rows only, so it still holds when the phase has ended. The pairs not looked at may well be
able to move tokens: the senders can be ranks below capacity, and then they take the places of the
heavier ones (`farExpert_overlooked`).
-/

namespace TileXR.Plan
open Lib List

variable {s s' : State} {a : TakeAcc} {src : ℕ}

/-- Two states that differ in the noted blocks and the counters of rounds only. -/
structure SameMoves (s s' : State) : Prop where
  tables : s'.toTables = s.toTables
  rows : s'.remoteExpertSet = s.remoteExpertSet
  segments : s'.tokenSegments = s.tokenSegments
  fatal : s'.fatal = s.fatal

theorem SameMoves.refl (s : State) : SameMoves s s := ⟨rfl, rfl, rfl, rfl⟩

theorem SameMoves.trans {s'' : State} (h : SameMoves s s') (h' : SameMoves s' s'') : SameMoves s s'' :=
  ⟨h'.tables.trans h.tables, h'.rows.trans h.rows, h'.segments.trans h.segments, h'.fatal.trans h.fatal⟩

theorem SameMoves.symm (h : SameMoves s s') : SameMoves s' s :=
  ⟨h.tables.symm, h.rows.symm, h.segments.symm, h.fatal.symm⟩

/-- A source has no tokens of the expert left, or no room towards the destination. -/
def Drained (p : Params) (t : Tables) (dst expert src : ℕ) : Prop :=
  t.remainingTpe src expert = 0 ∨ (p.routeLimit ≠ 0 ∧ p.routeLimit ≤ t.routedPairTokens src dst)

theorem takeAmount_eq_zero (p : Params) (t : Tables) (dst expert src : ℕ) {demand : ℕ} (hd : demand ≠ 0) :
    takeAmount p t dst expert src demand = 0 ↔ Drained p t dst expert src := by
  unfold takeAmount Drained
  dsimp only
  by_cases hl : p.routeLimit = 0
  · simp only [hl, ne_eq, not_true_eq_false, if_false, false_and, or_false]; omega
  · simp only [hl, ne_eq, not_false_eq_true, if_true, true_and]; omega

/-- An expert cannot be moved: none of it is at home, there is no slot for it, or no source gives any. -/
def Fixed (c : Ctx) (s : State) (home dst expert : ℕ) : Prop :=
  s.alloc home expert = 0 ∨
    (findRemote s dst expert = false ∧ c.prefetchSlots ≤ (s.remoteExpertSet dst).length) ∨
    ∀ src ∈ c.affinityOrder dst, Drained c.toParams s.toTables dst expert src

def Stuck (c : Ctx) (s : State) (home dst : ℕ) : Prop :=
  ∀ e ∈ expertOrder c.toParams s.toTables home, Fixed c s home dst e

theorem Fixed.congr {c : Ctx} (h : SameMoves s s') {home dst e : ℕ} (hf : Fixed c s home dst e) :
    Fixed c s' home dst e := by
  unfold Fixed findRemote at *
  rw [h.tables, h.rows]
  exact hf

theorem Stuck.congr {c : Ctx} (h : SameMoves s s') {home dst : ℕ} (hs : Stuck c s home dst) :
    Stuck c s' home dst := by
  intro e he
  rw [h.tables] at he
  exact (hs e he).congr h

/-! ## A call that moves nothing -/

section Takes
variable (c : Ctx) (dst expert : ℕ)

theorem takeFromSource_actual_le (a : TakeAcc) (src : ℕ) : a.actual ≤ (takeFromSource c dst expert a src).actual := by
  rcases takeFromSource_cases c dst expert a src with hsame | ⟨_, take, s', _, _, hc⟩
  · rw [hsame]
  · rcases hc with ⟨_, hres⟩ | ⟨_, hres⟩ <;> rw [hres]
    exact Nat.le_add_right _ _

theorem takes_actual_le (srcs : List ℕ) (a : TakeAcc) :
    a.actual ≤ (srcs.foldl (takeFromSource c dst expert) a).actual := by
  exact foldlRecOn (motive := fun b : TakeAcc => a.actual ≤ b.actual) _ _ le_rfl fun b hb src _ =>
    hb.trans (takeFromSource_actual_le c dst expert b src)

/-- A source that gives nothing is drained, and leaves everything as it is. -/
theorem takeFromSource_idle (hok : a.ok = true) (hd : a.expertDemand ≠ 0) (src : ℕ) :
    (Drained c.toParams a.st.toTables dst expert src → takeFromSource c dst expert a src = a) ∧
    (¬ Drained c.toParams a.st.toTables dst expert src → (takeFromSource c dst expert a src).ok = false ∨
        a.actual < (takeFromSource c dst expert a src).actual) := by
  have hzero := takeAmount_eq_zero c.toParams a.st.toTables dst expert src hd
  unfold takeFromSource
  rw [if_neg (by simp [hok, hd])]
  dsimp only
  refine ⟨fun hdr => if_pos (hzero.2 hdr), fun hdr => ?_⟩
  have hne := fun h => hdr (hzero.1 h)
  rw [if_neg hne]
  split
  · exact .inl rfl
  · exact .inr (Nat.lt_add_of_pos_right (Nat.pos_of_ne_zero hne))

/-- The sources of a row give nothing exactly when all are drained. -/
theorem takes_idle (srcs : List ℕ) (hok : a.ok = true) (hd : a.expertDemand ≠ 0) :
    ((∀ src ∈ srcs, Drained c.toParams a.st.toTables dst expert src) →
      srcs.foldl (takeFromSource c dst expert) a = a) ∧ ((srcs.foldl (takeFromSource c dst expert) a).ok = true →
      (srcs.foldl (takeFromSource c dst expert) a).actual = a.actual →
        ∀ src ∈ srcs, Drained c.toParams a.st.toTables dst expert src) := by
  induction srcs with
  | nil => exact ⟨fun _ => rfl, fun _ _ _ h => by simp at h⟩
  | cons src srcs ih =>
    obtain ⟨hidle, hmove⟩ := takeFromSource_idle c dst expert hok hd src
    constructor
    · intro hall
      rw [foldl_cons, hidle (hall src mem_cons_self)]
      exact ih.1 fun r hr => hall r (mem_cons_of_mem _ hr)
    · intro hend hsame
      rw [foldl_cons] at hend hsame
      have hdr : Drained c.toParams a.st.toTables dst expert src := by
        by_contra hdr
        rcases hmove hdr with hstop | hlt
        · rw [foldl_fixed' (takeFromSource_stopped hstop), hstop] at hend; cases hend
        · have := takes_actual_le c dst expert srcs (takeFromSource c dst expert a src)
          omega
      rw [hidle hdr] at hend hsame
      rintro r hr
      rcases mem_cons.1 hr with rfl | hr
      · exact hdr
      · exact ih.2 hend hsame r hr

end Takes

section Experts
variable (c : Ctx) (home dst : ℕ)

theorem bookMove_idle (expert : ℕ) (remote : Bool) {t : TakeAcc} (h : t.actual = 0) :
    SameMoves t.st (bookMove c home dst expert remote t) := by
  unfold bookMove
  simp only [h, lt_irrefl, if_false]
  split
  · split
    · exact ⟨rfl, rfl, rfl, rfl⟩
    · split <;> exact ⟨rfl, rfl, rfl, rfl⟩
  · exact .refl _

theorem moveExpert_demand_le (a : MoveAcc) (expert : ℕ) : (moveExpert c home dst a expert).demand ≤ a.demand := by
  rcases moveExpert_cases c home dst expert a with hsame | hslot | ⟨_, t, _, hc⟩
  · rw [hsame]
  · rw [hslot]
  · rcases hc with ⟨_, hres⟩ | ⟨_, hres⟩ <;> rw [hres]
    exact Nat.sub_le _ _

theorem moveExperts_demand_le (experts : List ℕ) (a : MoveAcc) :
    (experts.foldl (moveExpert c home dst) a).demand ≤ a.demand := by
  exact foldlRecOn (motive := fun b : MoveAcc => b.demand ≤ a.demand) _ _ le_rfl fun b hb e _ =>
    (moveExpert_demand_le c home dst b e).trans hb

/-- An expert's turn that moves nothing: the expert is fixed, and the state keeps its tables. -/
theorem moveExpert_idle {a : MoveAcc} (hok : a.ok = true) (hd : a.demand ≠ 0) (expert : ℕ) :
    (Fixed c a.st home dst expert → (moveExpert c home dst a expert).ok = true ∧
      (moveExpert c home dst a expert).demand = a.demand ∧
      SameMoves a.st (moveExpert c home dst a expert).st) ∧ ((moveExpert c home dst a expert).ok = true →
      (moveExpert c home dst a expert).demand = a.demand →
        Fixed c a.st home dst expert ∧ SameMoves a.st (moveExpert c home dst a expert).st) := by
  unfold moveExpert
  rw [if_neg (by simp [hok, hd])]
  dsimp only
  by_cases h0 : a.st.alloc home expert = 0
  · rw [if_pos h0]
    exact ⟨fun _ => ⟨hok, rfl, .refl _⟩, fun _ _ => ⟨.inl h0, .refl _⟩⟩
  rw [if_neg h0]
  by_cases hslot : (!findRemote a.st dst expert && c.prefetchSlots ≤ (a.st.remoteExpertSet dst).length) = true
  · rw [if_pos hslot]
    have hblocked : findRemote a.st dst expert = false ∧
        c.prefetchSlots ≤ (a.st.remoteExpertSet dst).length := by simpa using hslot
    exact ⟨fun _ => ⟨hok, rfl, ⟨rfl, rfl, rfl, rfl⟩⟩, fun _ _ => ⟨.inr (.inl hblocked), ⟨rfl, rfl, rfl, rfl⟩⟩⟩
  rw [if_neg hslot]
  have hopen : ¬ (findRemote a.st dst expert = false ∧
      c.prefetchSlots ≤ (a.st.remoteExpertSet dst).length) := by simpa using hslot
  have hrequest : min (a.st.alloc home expert) a.demand ≠ 0 := by omega
  obtain ⟨hidle, hmove⟩ := takes_idle c dst expert (c.affinityOrder dst)
    (a := ⟨a.st, min (a.st.alloc home expert) a.demand, 0, true⟩) rfl hrequest
  constructor
  · intro hfixed
    have hall := (hfixed.resolve_left h0).resolve_left hopen
    rw [hidle hall]
    refine ⟨rfl, rfl, ?_⟩
    rw [if_neg (by simp)]
    exact bookMove_idle c home dst expert _ (t := ⟨a.st, _, 0, true⟩) rfl
  · set t := (c.affinityOrder dst).foldl (takeFromSource c dst expert)
      ⟨a.st, min (a.st.alloc home expert) a.demand, 0, true⟩ with ht
    intro hend hsame
    cases htok : t.ok with
    | false => rw [htok, if_pos (by rfl)] at hend; cases hend
    | true =>
      rw [htok] at hsame
      simp only [Bool.not_true, Bool.false_eq_true, if_false] at hsame ⊢
      have hkeeps : TakeKeeps a.st (min (a.st.alloc home expert) a.demand) t := TakeKeeps.start ..
      have hzero : t.actual = 0 := by
        have := hkeeps.total
        have : t.actual ≤ a.demand := by omega
        omega
      have hall := hmove htok hzero
      have hst : t = ⟨a.st, min (a.st.alloc home expert) a.demand, 0, true⟩ := hidle hall
      refine ⟨.inr (.inr hall), ?_⟩
      have := bookMove_idle c home dst expert (findRemote a.st dst expert) hzero
      rw [hst] at this ⊢
      exact this

theorem moveExperts_idle (experts : List ℕ) {a : MoveAcc} (hok : a.ok = true) (hd : a.demand ≠ 0) :
    ((∀ e ∈ experts, Fixed c a.st home dst e) → (experts.foldl (moveExpert c home dst) a).ok = true ∧
      (experts.foldl (moveExpert c home dst) a).demand = a.demand) ∧
    ((experts.foldl (moveExpert c home dst) a).ok = true →
      (experts.foldl (moveExpert c home dst) a).demand = a.demand → (∀ e ∈ experts, Fixed c a.st home dst e) ∧
          SameMoves a.st (experts.foldl (moveExpert c home dst) a).st) := by
  induction experts generalizing a with
  | nil => exact ⟨fun _ => ⟨hok, rfl⟩, fun _ _ => ⟨fun _ h => by simp at h, .refl _⟩⟩
  | cons e es ih =>
    obtain ⟨hidle, hmove⟩ := moveExpert_idle c home dst hok hd e
    rw [foldl_cons]
    constructor
    · intro hall
      obtain ⟨hok', hd', hsame⟩ := hidle (hall e mem_cons_self)
      have := (ih hok' (by omega)).1 fun x hx => (hall x (mem_cons_of_mem _ hx)).congr hsame
      rw [hd'] at this
      exact this
    · intro hend hdemand
      have h1 := moveExperts_demand_le c home dst es (moveExpert c home dst a e)
      have h2 := moveExpert_demand_le c home dst a e
      have hok' : (moveExpert c home dst a e).ok = true := by
        by_contra hbad
        rw [foldl_fixed' (moveExpert_stopped (by simpa using hbad))] at hend
        exact hbad hend
      obtain ⟨hfixed, hsame⟩ := hmove hok' (by omega)
      obtain ⟨hrest, hsame'⟩ := (ih hok' (by omega)).2 hend (by omega)
      refine ⟨fun x hx => ?_, hsame.trans hsame'⟩
      rcases mem_cons.1 hx with rfl | hx
      · exact hfixed
      · exact (hrest x hx).congr hsame.symm

variable {c home dst}

theorem Stuck.moves_nothing (h : Stuck c s home dst) (request : ℕ) :
    (applyExpertMove c s home dst request).2 = 0 := by
  unfold applyExpertMove
  split
  · rfl
  rename_i hgo
  have hreq : request ≠ 0 := fun h0 => hgo (.inl h0)
  obtain ⟨hok, hdemand⟩ := (moveExperts_idle c home dst (expertOrder c.toParams s.toTables home)
    (a := ⟨s, request, false, true⟩) rfl hreq).1 h
  dsimp only
  rw [if_neg (by simp [hok]), hdemand, Nat.sub_self]

/-- A call that moved nothing was between stuck ranks, and kept the tables. -/
theorem stuck_of_moves_nothing {request : ℕ} (hreq : request ≠ 0) (hne : home ≠ dst) (hs : s.fatal = .ok)
    (hfatal : (applyExpertMove c s home dst request).1.fatal = .ok)
    (hzero : (applyExpertMove c s home dst request).2 = 0) :
    Stuck c s home dst ∧ SameMoves s (applyExpertMove c s home dst request).1 := by
  have hkeeps := MoveKeeps.start (c := c) hne s request (expertOrder c.toParams s.toTables home)
  have hmove := (moveExperts_idle c home dst
    (expertOrder c.toParams s.toTables home) (a := ⟨s, request, false, true⟩) rfl hreq).2
  unfold applyExpertMove at hfatal hzero ⊢
  rw [if_neg (by simp [hreq, hne, hs])] at hfatal hzero ⊢
  dsimp only at hfatal hzero ⊢
  generalize (expertOrder c.toParams s.toTables home).foldl (moveExpert c home dst)
    ⟨s, request, false, true⟩ = a at hkeeps hmove hfatal hzero ⊢
  cases hok : a.ok with
  | false =>
    rw [hok, if_pos (by rfl)] at hfatal
    exact absurd hfatal (hkeeps.fatal hok)
  | true =>
    rw [hok] at hzero
    rw [if_neg (by simp)] at hzero ⊢
    have hle := hkeeps.le
    obtain ⟨hstuck, hsame⟩ := hmove hok (by dsimp only at hzero ⊢; omega)
    refine ⟨hstuck, ?_⟩
    dsimp only
    split
    · exact hsame.trans ⟨rfl, rfl, rfl, rfl⟩
    · exact hsame

end Experts

/-! ## A round that moves nothing -/

/-- A pair with nothing to ask for or nothing to move. -/
def Blocked (c : Ctx) (s : State) (src dst : ℕ) : Prop :=
  requestedUnits c.cap s.rankLoad src dst = 0 ∨ Stuck c s src dst

theorem Blocked.congr {c : Ctx} (h : SameMoves s s') {dst : ℕ} (hb : Blocked c s src dst) : Blocked c s' src dst := by
  refine hb.imp (fun h0 => ?_) fun hs => hs.congr h
  rw [h.tables]
  exact h0

theorem Blocked.moves_nothing {c : Ctx} {dst : ℕ} (h : Blocked c s src dst) :
    (applyExpertMove c s src dst (requestedUnits c.cap s.rankLoad src dst)).2 = 0 := by
  rcases h with h0 | hstuck
  · rw [h0, applyExpertMove, if_pos (.inl rfl)]
  · exact hstuck.moves_nothing _

/-- The ranks the search looks at for a receiver: the first candidates of a row among the senders. -/
def examined (senders row : List ℕ) (n : ℕ) : List ℕ :=
  (row.filter senders.contains).take (kPlanCrossCandidateCount - n)

theorem mem_examined_cons {senders : List ℕ} {x : ℕ} {rest : List ℕ} {n : ℕ}
    (hn : n < kPlanCrossCandidateCount) (hmem : senders.contains src = true) :
    x ∈ examined senders (src :: rest) n ↔ x = src ∨ x ∈ examined senders rest (n + 1) := by
  unfold examined
  rw [filter_cons, if_pos hmem,
    show kPlanCrossCandidateCount - n = (kPlanCrossCandidateCount - (n + 1)) + 1 by omega,
    take_succ_cons, mem_cons]

section Round
variable (c : Ctx) (senders : List ℕ)

/-- Nothing has been moved in the round so far, and nothing can be moved from the ranks of a list. -/
structure Searched (s : State) (srcs : List ℕ) (dst : ℕ) (a : InterAcc) : Prop where
  free : a.occupied = []
  same : SameMoves s a.st
  blocked : ∀ src ∈ srcs, Blocked c s src dst

/-- A receiver that got nothing: no examined rank can give it anything. -/
theorem tryCandidates_idle (dst : ℕ) (row : List ℕ) (n : ℕ) {a : InterAcc} (hfree : a.occupied = [])
    (hok : a.st.fatal = .ok) (hend : (tryCandidates c senders dst row n a).st.fatal = .ok)
    (hzero : (tryCandidates c senders dst row n a).actualRound = a.actualRound) :
    Searched c a.st (examined senders row n) dst (tryCandidates c senders dst row n a) := by
  induction row generalizing n a with
  | nil => exact ⟨hfree, .refl _, fun src h => by simp [examined] at h⟩
  | cons src rest ih =>
    unfold tryCandidates at hend hzero ⊢
    by_cases hn : n ≥ kPlanCrossCandidateCount
    · rw [if_pos hn]
      refine ⟨hfree, .refl _, fun x hx => ?_⟩
      rw [examined, Nat.sub_eq_zero_of_le hn, take_zero] at hx
      simp at hx
    rw [if_neg hn] at hend hzero ⊢
    by_cases hmem : senders.contains src = true
    swap
    · rw [if_pos (by simp only [hmem, Bool.not_false])] at hend hzero ⊢
      have hskip : examined senders (src :: rest) n = examined senders rest n := by
        unfold examined; rw [filter_cons, if_neg hmem]
      rw [hskip]
      exact ih n hfree hok hend hzero
    rw [if_neg (by rw [hmem]; decide), if_neg (by simp [hfree])] at hend hzero ⊢
    dsimp only at hend hzero ⊢
    -- the rest of the row is searched in a state that differs in the notes only
    have hnext : ∀ {b : InterAcc}, b.occupied = [] → SameMoves a.st b.st → b.actualRound = a.actualRound →
        (tryCandidates c senders dst rest (n + 1) b).st.fatal = .ok →
        (tryCandidates c senders dst rest (n + 1) b).actualRound = a.actualRound →
        Blocked c a.st src dst → Searched c a.st (examined senders (src :: rest) n) dst
          (tryCandidates c senders dst rest (n + 1) b) := by
      intro b hb hsame hround hfat hz hblocked
      have hrest := ih (n + 1) hb (hsame.fatal.trans hok) hfat (hz.trans hround.symm)
      refine ⟨hrest.free, hsame.trans hrest.same, fun x hx => ?_⟩
      rcases (mem_examined_cons (by omega) hmem).1 hx with rfl | hx
      · exact hblocked
      · exact (hrest.blocked x hx).congr hsame.symm
    by_cases hreq : requestedUnits c.cap a.st.rankLoad src dst = 0
    · rw [if_pos hreq] at hend hzero ⊢
      exact hnext hfree (.refl _) rfl hend hzero (.inl hreq)
    rw [if_neg hreq] at hend hzero ⊢
    have hne : src ≠ dst := by
      rintro rfl
      unfold requestedUnits at hreq
      omega
    by_cases hfatal : (applyExpertMove c a.st src dst (requestedUnits c.cap a.st.rankLoad src dst)).1.fatal = .ok
    swap
    · rw [if_pos hfatal] at hend
      exact absurd hend hfatal
    rw [if_neg (not_not.2 hfatal)] at hend hzero ⊢
    by_cases hmoved : 0 < (applyExpertMove c a.st src dst (requestedUnits c.cap a.st.rankLoad src dst)).2
    · rw [if_pos hmoved] at hzero
      dsimp only at hzero
      omega
    rw [if_neg hmoved] at hend hzero ⊢
    obtain ⟨hstuck, hsame⟩ := stuck_of_moves_nothing hreq hne hok hfatal (by omega)
    exact hnext (b := { a with st := _ }) hfree hsame rfl hend hzero (.inr hstuck)

/-- A round without a move has found every examined pair blocked. -/
theorem serveReceivers_idle {receivers : List ℕ} (hrs : ∀ r ∈ receivers, r < c.rankSize) {a : InterAcc}
    (hfree : a.occupied = []) (hok : a.st.fatal = .ok)
    (hend : (receivers.foldl (serveReceiver c senders) a).st.fatal = .ok)
    (hzero : (receivers.foldl (serveReceiver c senders) a).actualRound = a.actualRound) :
    SameMoves a.st (receivers.foldl (serveReceiver c senders) a).st ∧
      ∀ dst ∈ receivers, ∀ src ∈ examined senders (c.affinityOrder dst) 0, Blocked c a.st src dst := by
  induction receivers generalizing a with
  | nil => exact ⟨.refl _, fun dst h => by simp at h⟩
  | cons dst rest ih =>
    rw [foldl_cons] at hend hzero ⊢
    have hserve : serveReceiver c senders a dst =
        tryCandidates c senders dst (c.affinityOrder dst) 0 a := if_neg (not_not.2 hok)
    have hround : (serveReceiver c senders a dst).actualRound = a.actualRound := by
      have h1 := (serveReceivers_paid c senders (forall_mem_cons.1 hrs).2 (serveReceiver c senders a dst)).le
      have h2 := (tryCandidates_paid c senders (hrs dst mem_cons_self) (c.affinityOrder dst) 0 a).le
      rw [← hserve] at h2
      dsimp only [InterAcc.moved] at h1 h2
      omega
    have hok' : (serveReceiver c senders a dst).st.fatal = .ok := by
      by_contra hbad
      rw [foldl_serveReceiver_fatal rest _ hbad] at hend
      exact hbad hend
    have hfirst := tryCandidates_idle c senders dst (c.affinityOrder dst) 0 hfree hok
      (by rw [← hserve]; exact hok') (by rw [← hserve]; exact hround)
    rw [← hserve] at hfirst
    obtain ⟨hsame, hblocked⟩ := ih (forall_mem_cons.1 hrs).2 hfirst.free hok' hend (hzero.trans hround.symm)
    refine ⟨hfirst.same.trans hsame, fun d hd src hsrc => ?_⟩
    rcases mem_cons.1 hd with rfl | hd
    · exact hfirst.blocked src hsrc
    · exact (hblocked d hd src hsrc).congr hfirst.same.symm

end Round

/-! ## The end of the search -/

/-- The pairs `RunInter` has looked at when it ends in `s` cannot move a token. -/
def GivenUp (c : Ctx) (s : State) : Prop :=
  ∀ dst ∈ interReceivers c.toParams s.toTables,
    ∀ src ∈ examined (interSenders c.toParams s.toTables) (c.affinityOrder dst) 0,
      Blocked c s src dst

/-- Without an unbalanced pair there is no receiver, or no rank to take from. -/
theorem interIdle_givenUp {c : Ctx} (h : interIdle c.toParams s.toTables) : GivenUp c s := by
  intro dst hdst src hsrc
  have hcount : receiverCount c.toParams s.toTables ≠ 0 := by
    intro h0
    rw [interReceivers, h0, Nat.sub_zero, ← heavyFirst_length, drop_length] at hdst
    exact absurd hdst (by simp [insertSort])
  unfold receiverCount at hcount
  -- all unbalanced ranks are below the capacity
  have hall : underloadedCount c.toParams s.toTables = (activeRanks c.toParams s.toTables).length := by
    rcases h with h | h | h <;> omega
  have hlight := length_filter_eq_length_iff.1 hall
  have hmem : src ∈ activeRanks c.toParams s.toTables := by
    have hsend : src ∈ interSenders c.toParams s.toTables := by
      simpa using (mem_filter.1 (mem_of_mem_take hsrc)).2
    exact mem_insertSort.1 (mem_of_mem_take hsend)
  have hload : s.rankLoad src < c.cap := by simpa using hlight src hmem
  left
  unfold requestedUnits
  omega

theorem interRound_givenUp {c : Ctx} (hok : s.fatal = .ok) (h : interRound c s = .done s')
    (hend : s'.fatal = .ok) : GivenUp c s' := by
  rw [interRound_eq] at h
  by_cases hidle : interIdle c.toParams s.toTables
  · rw [if_pos hidle] at h
    cases h
    exact interIdle_givenUp hidle
  rw [if_neg hidle] at h
  dsimp only at h
  have hsearch := serveReceivers_idle c (interSenders c.toParams s.toTables)
    (fun _ hr => mem_interReceivers (t := s.toTables) hr) (a := ⟨s, [], 0⟩) rfl hok
  generalize (interReceivers c.toParams s.toTables).foldl
    (serveReceiver c (interSenders c.toParams s.toTables)) ⟨s, [], 0⟩ = r at h hsearch
  by_cases hfatal : r.st.fatal = .ok
  swap
  · rw [if_pos hfatal] at h
    cases h
    exact absurd hend hfatal
  rw [if_neg (not_not.2 hfatal)] at h
  by_cases hround : r.actualRound = 0
  swap
  · rw [if_neg hround] at h
    cases h
  rw [if_pos hround] at h
  cases h
  obtain ⟨hsame, hblocked⟩ := hsearch hfatal hround
  have hsame' : SameMoves s { r.st with pairBlock := true } := hsame.trans ⟨rfl, rfl, rfl, rfl⟩
  intro dst hdst src hsrc
  rw [hsame'.tables] at hdst hsrc
  exact (hblocked dst hdst src hsrc).congr hsame'

theorem interRound_next_fatal {c : Ctx} (h : interRound c s = .next s') : s'.fatal = .ok := by
  rw [interRound_eq] at h
  split at h
  · cases h
  dsimp only at h
  split at h
  · cases h
  rename_i hok
  split at h
  · cases h
  · cases h
    exact not_not.1 hok

/-- `RunInter` gives up only when every pair it looks at is blocked. -/
theorem runInter_givenUp (c : Ctx) (hs : s.fatal = .ok) (hend : (runInter c s).fatal = .ok) :
    GivenUp c (runInter c s) := by
  have := loop_inv (interRound_decreases c) (P := fun s => s.fatal = .ok)
    (Q := fun s => s.fatal = .ok → GivenUp c s) (fun s s' _ h => interRound_next_fatal h)
    (fun s s' hok h => interRound_givenUp hok h) hs
  exact this hend

/-- The only fatal error of the phases is a missing segment record. -/
def FatalKind (s : State) : Prop := s.fatal = .ok ∨ s.fatal = .errorMoveRecordOverflow

theorem appendSegment_fatalKind (c : Ctx) (m : TokenSegmentMove) (hs : FatalKind s) :
    FatalKind (appendSegment c s m).1 := by
  unfold appendSegment
  dsimp only
  split
  · exact hs
  · split
    · exact .inr rfl
    · exact hs

theorem Prim.fatalKind {c : Ctx} {new : List TokenSegmentMove} (h : Prim c s new s') (hs : FatalKind s) :
    FatalKind s' := by
  have happend : ∀ {m s' b}, appendSegment c s m = (s', b) → FatalKind s' := fun {m _ _} happ => by
    have := appendSegment_fatalKind c m hs
    rwa [happ] at this
  cases h with
  | take _ _ _ _ _ _ happ => have h' := happend happ; exact h'
  | full _ _ _ _ _ happ => exact happend happ
  | book => exact hs
  | note => exact hs

theorem Made.fatalKind {c : Ctx} {log : List TokenSegmentMove} (h : Made c s log) : FatalKind s := by
  induction h with
  | initial => exact .inl rfl
  | step _ hstep ih => exact hstep.fatalKind ih
  | count _ _ _ _ ih => exact ih

theorem appendRemainder_fatalKind (c : Ctx) (expert src : ℕ) (hs : FatalKind s) :
    FatalKind (appendRemainder c s expert src) := by
  unfold appendRemainder
  dsimp only
  split
  · exact hs
  split
  · exact hs
  have := appendSegment_fatalKind c
    (s.nextSegment expert src (c.homeRank expert) (s.remainingTpe src expert)) hs
  split
  · rename_i happ; rwa [happ] at this
  · rename_i happ; rwa [happ] at this

theorem appendRemainders_fatalKind (c : Ctx) (hs : FatalKind s) : FatalKind (appendRemainders c s) := by
  refine foldlRecOn _ _ hs fun s hs expert _ => ?_
  exact foldlRecOn _ _ hs fun s hs src _ => appendRemainder_fatalKind c expert src hs

theorem runMoves_ok_of_noFeasiblePair {c : Ctx} (haff : ∀ d, ∀ r ∈ c.affinityOrder d, r < c.rankSize)
    (h : (planFrom c).status = .partialNoFeasiblePair) : (runMoves c).fatal = .ok := by
  have hmoves : FatalKind (runMoves c) := by
    have hintra := (made_invariant haff).runIntra ⟨[], .initial⟩
    unfold runMoves
    dsimp only
    generalize runIntra c (State.initial c.toParams) = s₁ at hintra ⊢
    have hinter : ∃ log, Made c (if s₁.fatal = .ok then runInter c s₁ else s₁) log := by
      split
      · exact (made_invariant haff).runInter haff hintra
      · exact hintra
    obtain ⟨log, hmade⟩ := hinter
    generalize (if s₁.fatal = .ok then runInter c s₁ else s₁) = s₂ at hmade ⊢
    split
    · exact appendRemainders_fatalKind c hmade.fatalKind
    · exact hmade.fatalKind
  refine hmoves.resolve_right fun hover => ?_
  have : (planFrom c).status = (runMoves c).fatal := by
    unfold planFrom; dsimp only; rw [if_pos (by rw [hover]; decide)]
  rw [this, hover] at h
  cases h

def movesEnd (c : Ctx) : State := runInter c (runIntra c (State.initial c.toParams))

/-- `PLAN_PARTIAL_NO_FEASIBLE_PAIR`: no receiver of a further round could get a token from one of the
first three senders in its affinity row. -/
theorem noFeasiblePair_examined {x : PlanAlgorithmInput} {ptr : PlanPointers}
    {ws : PlanAlgorithmWorkspace} (hvalid : validate x ptr ws = .ok)
    (hcache : ws.affinityOrderValid = true → ∀ d, ∀ r ∈ ws.affinityOrder d, r < x.rankSize.toNat)
    (hstatus : (runPlanAlgorithm x ptr ws).status = .partialNoFeasiblePair) :
    ∃ s, s = movesEnd (ctxOf x ptr ws) ∧ s.fatal = .ok ∧
      ∀ d ∈ interReceivers (ctxOf x ptr ws).toParams s.toTables,
        ∀ h ∈ (((ctxOf x ptr ws).affinityOrder d).filter
            (interSenders (ctxOf x ptr ws).toParams s.toTables).contains).take kPlanCrossCandidateCount,
          (applyExpertMove (ctxOf x ptr ws) s h d
            (min (s.rankLoad h - (ctxOf x ptr ws).cap) ((ctxOf x ptr ws).cap - s.rankLoad d))).2 = 0 := by
  have haff := ctxOf_affinity_lt ptr hcache
  have hplan : (planFrom (ctxOf x ptr ws)).status = .partialNoFeasiblePair := by
    rw [← hstatus, runPlanAlgorithm]
    exact (congrArg PlanResult.status (if_neg (not_not.2 hvalid))).symm
  have hmoves := runMoves_ok_of_noFeasiblePair haff hplan
  -- a phase that fails is the last one, so both have ended without an error
  have hintra : (runIntra (ctxOf x ptr ws) (State.initial (ctxOf x ptr ws).toParams)).fatal = .ok := by
    by_contra hbad
    rw [runMoves, if_neg hbad, if_neg hbad] at hmoves
    exact hbad hmoves
  have hinter : (movesEnd (ctxOf x ptr ws)).fatal = .ok := by
    by_contra hbad
    unfold movesEnd at hbad
    rw [runMoves, if_pos hintra, if_neg hbad] at hmoves
    exact hbad hmoves
  have hup := runInter_givenUp (ctxOf x ptr ws) hintra hinter
  exact ⟨_, rfl, hinter, fun d hd h hh => (hup d hd h hh).moves_nothing⟩

/-- Eight ranks, one route and one expert each; all routes go to the expert of rank 7, which sits alone
in its server. -/
def farExpert : PlanAlgorithmInput where
  rank := 0
  rankSize := 8
  s := 1
  topK := 1
  expertNum := 8
  config := { rankTokenCapacity := 1, prefetchSlots := 1, nvS := 8 }
  topkExperts _ := 7
  tokensPerExpert i := if i % 8 = 7 then 1 else 0
  globalRankIds r := if r = 7 then 8 else r

def farWorkspace : PlanAlgorithmWorkspace where
  tokenSegmentCapacity := 1
  scratchCount := 128
  affinityOrder _ := []
  affinityOrderValid := false

def farCtx : Ctx := ctxOf farExpert {} farWorkspace

/-- Rank 0 and the five others below capacity are nearer to each other than rank 7: it is never asked. -/
theorem noFeasiblePair_farExpert :
    (runPlanAlgorithm farExpert {} farWorkspace).status = .partialNoFeasiblePair ∧
    (movesEnd farCtx).fatal = .ok ∧
      ∀ d ∈ interReceivers farCtx.toParams (movesEnd farCtx).toTables,
        ∀ h ∈ ((farCtx.affinityOrder d).filter
            (interSenders farCtx.toParams (movesEnd farCtx).toTables).contains).take kPlanCrossCandidateCount,
          (applyExpertMove farCtx (movesEnd farCtx) h d
            (min ((movesEnd farCtx).rankLoad h - farCtx.cap) (farCtx.cap - (movesEnd farCtx).rankLoad d))).2 = 0 := by
  have hstatus : (runPlanAlgorithm farExpert {} farWorkspace).status = .partialNoFeasiblePair := by
    decide +kernel
  obtain ⟨s, rfl, h⟩ := @noFeasiblePair_examined farExpert {} farWorkspace (by decide +kernel) nofun hstatus
  exact ⟨hstatus, h⟩

/-- When the phases end, rank 7 still holds seven tokens too many and rank 0 lacks one, which a call
would move. -/
theorem farExpert_overlooked :
    validate farExpert {} farWorkspace = .ok ∧
    (runPlanAlgorithm farExpert {} farWorkspace).status = .partialNoFeasiblePair ∧
    farCtx.cap < (movesEnd farCtx).rankLoad 7 ∧ (movesEnd farCtx).rankLoad 0 < farCtx.cap ∧
    (applyExpertMove farCtx (movesEnd farCtx) 7 0
      (min ((movesEnd farCtx).rankLoad 7 - farCtx.cap) (farCtx.cap - (movesEnd farCtx).rankLoad 0))).2 = 1 := by
  refine ⟨by decide +kernel, by decide +kernel, by decide +kernel, by decide +kernel, ?_⟩
  decide +kernel

end TileXR.Plan
