import Mathlib.Data.Nat.Bitwise
import TileXR.Lib.Blocks

/-!
# Words that remember an overflow

Unsigned arithmetic of 64 bits in which every result also says whether an operation it was computed by
has wrapped around. A computation that ends in `exact n` has no such operation, and `n` is its value in
the natural numbers. Arithmetic of fewer bits is that of 64 bits with `narrow` behind it.
-/

namespace Lib
open List Nat

@[ext]
structure Word where
  value : ℕ
  wrapped : Bool
  deriving DecidableEq, Repr

variable {l l' : List Word} {n n' : ℕ}

namespace Word

def exact (n : ℕ) : Word := ⟨n, false⟩

instance : Add Word :=
  ⟨fun a b => ⟨(a.value + b.value) % 2 ^ 64, a.wrapped || b.wrapped || 2 ^ 64 ≤ a.value + b.value⟩⟩

instance : Sub Word :=
  ⟨fun a b => ⟨(a.value + 2 ^ 64 - b.value) % 2 ^ 64, a.wrapped || b.wrapped || a.value < b.value⟩⟩

instance : Mul Word :=
  ⟨fun a b => ⟨a.value * b.value % 2 ^ 64, a.wrapped || b.wrapped || 2 ^ 64 ≤ a.value * b.value⟩⟩

instance : Div Word := ⟨fun a b => ⟨a.value / b.value, a.wrapped || b.wrapped⟩⟩

instance : AndOp Word := ⟨fun a b => ⟨a.value &&& b.value, a.wrapped || b.wrapped⟩⟩

instance : Max Word := ⟨fun a b => ⟨max a.value b.value, a.wrapped || b.wrapped⟩⟩

/-- The low bits of a word; taking them counts as wrapping around when a higher one is set. -/
def narrow (bits : ℕ) (a : Word) : Word := ⟨a.value % 2 ^ bits, a.wrapped || 2 ^ bits ≤ a.value⟩

def ceilDiv (a b : Word) : Word :=
  ⟨a.value / b.value + if a.value % b.value = 0 then 0 else 1, a.wrapped || b.wrapped⟩

def alignUp (a b : Word) : Word := ceilDiv a b * b

variable {a b : ℕ}

theorem exact_div : exact a / exact b = exact (a / b) := rfl

theorem exact_max : max (exact a) (exact b) = exact (max a b) := rfl

theorem exact_narrow {bits : ℕ} (h : a < 2 ^ bits) : narrow bits (exact a) = exact a :=
  Word.ext (mod_eq_of_lt h) (decide_eq_false (not_le.2 h))

theorem exact_ceilDiv (hb : 0 < b) : ceilDiv (exact a) (exact b) = exact ((a + b - 1) / b) :=
  Word.ext (div_add_ite a hb) rfl

theorem exact_add (h : a + b < 2 ^ 64) : exact a + exact b = exact (a + b) :=
  Word.ext (mod_eq_of_lt h) (decide_eq_false (not_le.2 h))

theorem exact_sub (ha : a < 2 ^ 64) (h : b ≤ a) : exact a - exact b = exact (a - b) := by
  refine Word.ext ?_ (decide_eq_false (not_lt.2 h))
  change (a + 2 ^ 64 - b) % 2 ^ 64 = a - b
  omega

theorem exact_mul (h : a * b < 2 ^ 64) : exact a * exact b = exact (a * b) :=
  Word.ext (mod_eq_of_lt h) (decide_eq_false (not_le.2 h))

theorem mul_comm (v w : Word) : v * w = w * v := by
  refine Word.ext (congrArg (· % 2 ^ 64) (Nat.mul_comm _ _)) ?_
  change (v.wrapped || w.wrapped || _) = (w.wrapped || v.wrapped || _)
  rw [Bool.or_comm v.wrapped, Nat.mul_comm]

theorem exact_alignUp (hb : 0 < b) (h : a + b ≤ 2 ^ 64) : alignUp (exact a) (exact b) = exact (roundUp b a) := by
  rw [alignUp, exact_ceilDiv hb]
  refine exact_mul ?_
  have := div_mul_le_self (a + b - 1) b
  omega

/-- Words none of which comes from an overflow, with their sum. -/
def Sums (l : List Word) (n : ℕ) : Prop := (∀ w ∈ l, w.wrapped = false) ∧ (l.map value).sum = n

theorem sums_nil : Sums [] 0 := ⟨fun _ h => absurd h not_mem_nil, rfl⟩

theorem sums_cons (h : Sums l n) : Sums (exact a :: l) (a + n) :=
  ⟨forall_mem_cons.2 ⟨rfl, h.1⟩, by rw [map_cons, sum_cons, h.2]; rfl⟩

theorem sums_append (h : Sums l n) (h' : Sums l' n') : Sums (l ++ l') (n + n') :=
  ⟨forall_mem_append.2 ⟨h.1, h'.1⟩, by rw [map_append, List.sum_append, h.2, h'.2]⟩

theorem sums_ite {p : Prop} [Decidable p] (h : Sums l n) (h' : Sums l' n') :
    Sums (if p then l else l') (if p then n else n') := by
  split_ifs
  exacts [h, h']

theorem sums_map (l : List ℕ) : Sums (l.map exact) l.sum := by
  induction l with
  | nil => exact sums_nil
  | cons a l ih => exact sums_cons ih

theorem exact_and_high {k : ℕ} (hk : k ≤ 64) (ha : a < 2 ^ 64) :
    exact a &&& exact (2 ^ 64 - 2 ^ k) = exact (a / 2 ^ k * 2 ^ k) := by
  have hmask : 2 ^ 64 - 2 ^ k = (2 ^ (64 - k) - 1) <<< k := by
    rw [shiftLeft_eq, Nat.sub_mul, ← Nat.pow_add, Nat.sub_add_cancel hk, Nat.one_mul]
  have hround : a / 2 ^ k * 2 ^ k = (a >>> k) <<< k := by
    rw [shiftLeft_eq, shiftRight_eq_div_pow]
  have hand : a &&& (2 ^ 64 - 2 ^ k) = a / 2 ^ k * 2 ^ k := by
    rw [hmask, hround]
    refine eq_of_testBit_eq fun i => ?_
    rw [testBit_and, testBit_shiftLeft, testBit_shiftLeft, testBit_two_pow_sub_one, testBit_shiftRight]
    by_cases hi : k ≤ i
    · rw [Nat.add_sub_cancel' hi]
      by_cases h64 : i < 64
      · simp [hi, show i - k < 64 - k by omega]
      · -- above the word `a` has no bit
        have : a.testBit i = false := testBit_lt_two_pow (ha.trans_le (Nat.pow_le_pow_right (by decide)
          (by omega)))
        simp [this]
    · simp [hi]
  exact Word.ext hand rfl

end Word

end Lib
