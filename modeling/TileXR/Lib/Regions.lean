import TileXR.Lib.Blocks

/-!
# Regions of a workspace

Regions of given sizes are placed one after the other, each at the next multiple of an alignment. They
are aligned, follow each other and lie between the cursor they start from and the one they end at.
Starting a multiple of the alignment later moves them by as much. A workspace addressed by 64-bit words
holds regions placed so, also with a gap between a first and a last group.
-/

namespace Lib
open List

structure Region where
  offset : ℕ
  bytes : ℕ
  deriving DecidableEq, Repr, Inhabited

def Region.Before (r r' : Region) : Prop := r.offset + r.bytes ≤ r'.offset

def Region.shift (r : Region) (by_ : ℕ) : Region := ⟨r.offset + by_, r.bytes⟩

/-- Place regions of the given sizes from a cursor on: the regions and the cursor behind them. -/
def place (align : ℕ) : ℕ → List ℕ → List Region × ℕ
  | cursor, [] => ([], cursor)
  | cursor, bytes :: sizes =>
    let rest := place align (roundUp align cursor + bytes) sizes
    (⟨roundUp align cursor, bytes⟩ :: rest.1, rest.2)

theorem dvd_roundUp (align n : ℕ) : align ∣ roundUp align n := ⟨_, Nat.mul_comm ..⟩

theorem roundUp_add_of_dvd {align d : ℕ} (h : 0 < align) (n : ℕ) (hd : align ∣ d) :
    roundUp align (n + d) = roundUp align n + d := by
  obtain ⟨q, rfl⟩ := hd
  rw [roundUp, roundUp, show n + align * q + align - 1 = n + align - 1 + align * q by omega,
    Nat.add_mul_div_left _ _ h, Nat.add_mul, Nat.mul_comm q]

theorem roundUp_of_dvd {align n : ℕ} (h : 0 < align) (hn : align ∣ n) : roundUp align n = n := by
  have := roundUp_add_of_dvd h 0 hn
  rwa [Nat.zero_add, roundUp_zero h, Nat.zero_add] at this

theorem roundUp_eq_add {align n : ℕ} (hpos : 0 < align) (h : n % align ≠ 0) :
    roundUp align n = n + (align - n % align) := by
  have hlt := Nat.mod_lt n hpos
  have hn := Nat.div_add_mod n align
  generalize n % align = m at *
  generalize n / align = q at *
  subst hn
  rw [roundUp, show align * q + m + align - 1 = m - 1 + align * (q + 1) by rw [Nat.mul_succ]; omega,
    Nat.add_mul_div_left _ _ hpos, Nat.div_eq_of_lt (by omega), Nat.zero_add, Nat.mul_comm, Nat.mul_succ]
  omega

section Place
variable {align : ℕ} (h : 0 < align)
include h

theorem le_place (cursor : ℕ) (sizes : List ℕ) : cursor ≤ (place align cursor sizes).2 := by
  induction sizes generalizing cursor with
  | nil => exact le_rfl
  | cons bytes sizes ih =>
    exact ((le_roundUp h cursor).trans (Nat.le_add_right _ _)).trans (ih _)

theorem mem_place {cursor : ℕ} {sizes : List ℕ} {r : Region} (hr : r ∈ (place align cursor sizes).1) :
    align ∣ r.offset ∧ cursor ≤ r.offset ∧ r.offset + r.bytes ≤ (place align cursor sizes).2 := by
  induction sizes generalizing cursor with
  | nil => cases hr
  | cons bytes sizes ih =>
    have hcursor := le_roundUp h cursor
    rcases mem_cons.1 hr with rfl | hr
    · exact ⟨dvd_roundUp _ _, hcursor, le_place h _ sizes⟩
    · obtain ⟨hdvd, hle, hend⟩ := ih hr
      exact ⟨hdvd, (hcursor.trans (Nat.le_add_right _ _)).trans hle, hend⟩

theorem place_pairwise (cursor : ℕ) (sizes : List ℕ) : (place align cursor sizes).1.Pairwise Region.Before := by
  induction sizes generalizing cursor with
  | nil => exact .nil
  | cons bytes sizes ih => exact .cons (fun r hr => (mem_place h hr).2.1) (ih _)

/-- Starting later by a multiple of the alignment moves the regions. -/
theorem place_add {d : ℕ} (hd : align ∣ d) (cursor : ℕ) (sizes : List ℕ) : place align (cursor + d) sizes =
      ((place align cursor sizes).1.map (·.shift d), (place align cursor sizes).2 + d) := by
  induction sizes generalizing cursor with
  | nil => rfl
  | cons bytes sizes ih =>
    rw [place, place, roundUp_add_of_dvd h _ hd, Nat.add_right_comm, ih]
    rfl

end Place

theorem place_append (align cursor : ℕ) (sizes more : List ℕ) : place align cursor (sizes ++ more) =
      ((place align cursor sizes).1 ++ (place align (place align cursor sizes).2 more).1,
        (place align (place align cursor sizes).2 more).2) := by
  induction sizes generalizing cursor with
  | nil => rfl
  | cons bytes sizes ih =>
    simp only [cons_append, place, ih]

/-- Regions that a workspace of `total` bytes can hold. -/
structure RegionsOk (align : ℕ) (regions : List Region) (total : ℕ) : Prop where
  aligned : ∀ r ∈ regions, align ∣ r.offset
  inside : ∀ r ∈ regions, r.offset + r.bytes ≤ total
  disjoint : regions.Pairwise fun r r' => r.Before r' ∨ r'.Before r
  total_lt : total < 2 ^ 64

theorem regionsOk_of_place {align : ℕ} {sizes : List ℕ} {regions : List Region} {start last total : ℕ}
    (hpos : 0 < align) (hplace : place align start sizes = (regions, last)) (htotal : last ≤ total)
    (hlt : total < 2 ^ 64) : RegionsOk align regions total := by
  have hpairwise := place_pairwise hpos start sizes
  have hmem := fun r => @mem_place align hpos start sizes r
  rw [hplace] at hpairwise hmem
  exact ⟨fun r hr => (hmem r hr).1, fun r hr => (hmem r hr).2.2.trans htotal, hpairwise.imp fun h => .inl h, hlt⟩

instance : Trans Region.Before Region.Before Region.Before where
  trans := fun {_ r' _} h h' => le_trans h (le_trans (Nat.le_add_right r'.offset r'.bytes) h')

theorem regionsOk_of_chain {align total : ℕ} {regions : List Region} (haligned : ∀ r ∈ regions, align ∣ r.offset)
    (hinside : ∀ r ∈ regions, r.offset + r.bytes ≤ total) (hchain : regions.IsChain Region.Before)
    (hlt : total < 2 ^ 64) : RegionsOk align regions total :=
  ⟨haligned, hinside, hchain.pairwise.imp fun h => .inl h, hlt⟩

/-- Two groups of regions, the second one behind the end of the first. -/
theorem RegionsOk.append {align total total' : ℕ} {front back : List Region}
    (hfront : RegionsOk align front total) (hback : RegionsOk align back total') (h : total ≤ total')
    (hbehind : ∀ r ∈ back, total ≤ r.offset) : RegionsOk align (front ++ back) total' := by
  refine ⟨fun r hr => ?_, fun r hr => ?_, ?_, hback.total_lt⟩
  · rcases mem_append.1 hr with hr | hr
    exacts [hfront.aligned r hr, hback.aligned r hr]
  · rcases mem_append.1 hr with hr | hr
    exacts [(hfront.inside r hr).trans h, hback.inside r hr]
  · exact pairwise_append.2 ⟨hfront.disjoint, hback.disjoint,
      fun r hr r' hr' => .inl ((hfront.inside r hr).trans (hbehind r' hr'))⟩

theorem regionsOk_insert {align : ℕ} {before after : List Region} {total : ℕ}
    (h : RegionsOk align (before ++ after) total) : RegionsOk align (before ++ ⟨0, 0⟩ :: after) total := by
  obtain ⟨haligned, hinside, hdisjoint, hlt⟩ := h
  rw [pairwise_append] at hdisjoint
  refine ⟨fun r hr => ?_, fun r hr => ?_, ?_, hlt⟩
  · rcases mem_append.1 hr with hr | hr
    · exact haligned r (mem_append_left _ hr)
    · rcases mem_cons.1 hr with rfl | hr
      · exact Nat.dvd_zero align
      · exact haligned r (mem_append_right _ hr)
  · rcases mem_append.1 hr with hr | hr
    · exact hinside r (mem_append_left _ hr)
    · rcases mem_cons.1 hr with rfl | hr
      · exact Nat.zero_le _
      · exact hinside r (mem_append_right _ hr)
  · refine pairwise_append.2 ⟨hdisjoint.1, .cons (fun r _ => .inl (Nat.zero_le _)) hdisjoint.2.1,
      fun r hr r' hr' => ?_⟩
    rcases mem_cons.1 hr' with rfl | hr'
    · exact .inr (Nat.zero_le _)
    · exact hdisjoint.2.2 r hr r' hr'

end Lib
