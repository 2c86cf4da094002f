import Mathlib.Data.Nat.Bitwise
import Mathlib.Tactic.Ring

/-!
# Numbers and bits in bytes

A piece of memory is a function from offsets to bytes. `leNat` reads a little-endian number, `putNat` writes one and `blit`
copies a range. The bit `k` of a bitmap is the bit `k % 8` of the byte `k / 8`.
-/

namespace Glenda.Lib

variable {b b' : Nat → UInt8} {w w' v o o' k j n : Nat}

/-! ### Numbers -/

def leNat : Nat → (Nat → UInt8) → Nat → Nat
  | 0, _, _ => 0
  | w + 1, b, o => (b o).toNat + 256 * leNat w b (o + 1)

def putNat (w v o : Nat) (b : Nat → UInt8) : Nat → UInt8 := fun p =>
  if o ≤ p ∧ p < o + w then UInt8.ofNat (v / 256 ^ (p - o)) else b p

lemma leNat_lt (w : Nat) (b : Nat → UInt8) (o : Nat) : leNat w b o < 256 ^ w := by
  induction w generalizing o with
  | zero => exact Nat.one_pos
  | succ w ih =>
    have hbyte := (b o).toNat_lt
    have hrest := ih (o + 1)
    rw [leNat, pow_succ]
    omega

lemma leNat_congr (h : ∀ p, o ≤ p → p < o + w → b p = b' p) : leNat w b o = leNat w b' o := by
  induction w generalizing o with
  | zero => rfl
  | succ w ih =>
    rw [leNat, leNat, h o le_rfl (by omega), ih fun p hp hlt => h p (by omega) (by omega)]

lemma leNat_eq (h : ∀ p, p < w → b (o + p) = UInt8.ofNat (v / 256 ^ p)) : leNat w b o = v % 256 ^ w := by
  induction w generalizing o v with
  | zero => rw [leNat, pow_zero, Nat.mod_one]
  | succ w ih =>
    have hrest : leNat w b (o + 1) = v / 256 % 256 ^ w := by
      apply ih
      intro p hp
      rw [Nat.div_div_eq_div_mul, ← pow_succ', Nat.add_assoc, Nat.add_comm 1]
      exact h (p + 1) (by omega)
    have hbyte : (b o).toNat = v % 256 := by
      have h0 := h 0 (by omega)
      rw [Nat.add_zero, pow_zero, Nat.div_one] at h0
      rw [h0, UInt8.toNat_ofNat']
    rw [leNat, hrest, hbyte, pow_succ', Nat.mod_mul]

lemma leNat_putNat (w v o : Nat) (b : Nat → UInt8) : leNat w (putNat w v o b) o = v % 256 ^ w := by
  apply leNat_eq
  intro p hp
  unfold putNat
  rw [if_pos (by omega), Nat.add_sub_cancel_left]

lemma putNat_of_not (h : ¬(o ≤ k ∧ k < o + w)) : putNat w v o b k = b k := if_neg h

lemma leNat_putNat_of_disjoint (h : o + w ≤ o' ∨ o' + w' ≤ o) : leNat w' (putNat w v o b) o' = leNat w' b o' :=
  leNat_congr fun p hp hlt => putNat_of_not (by omega)

/-! ### Copies -/

/-- `b` with `n` bytes of `src` from `so` on copied to `o`. -/
def blit (src : Nat → UInt8) (so n o : Nat) (b : Nat → UInt8) : Nat → UInt8 := fun p =>
  if o ≤ p ∧ p < o + n then src (so + (p - o)) else b p

lemma blit_zero (src : Nat → UInt8) (so o : Nat) (b : Nat → UInt8) : blit src so 0 o b = b := by
  funext p
  exact if_neg (by omega)

lemma blit_blit (src : Nat → UInt8) (so n n' o : Nat) (b : Nat → UInt8) :
    blit src (so + n) n' (o + n) (blit src so n o b) = blit src so (n + n') o b := by
  funext p
  unfold blit
  by_cases hfirst : o ≤ p ∧ p < o + n
  · rw [if_neg (by omega), if_pos hfirst, if_pos (by omega)]
  · by_cases hsecond : o + n ≤ p ∧ p < o + n + n'
    · rw [if_pos hsecond, if_pos (by omega)]
      congr 1
      omega
    · rw [if_neg hsecond, if_neg hfirst, if_neg (by omega)]

lemma blit_congr {src src' : Nat → UInt8} {so so' : Nat} (h : ∀ q < n, src (so + q) = src' (so' + q)) :
    blit src so n o b = blit src' so' n o b := by
  funext p
  unfold blit
  split_ifs with hp
  · exact h (p - o) (by omega)
  · rfl

/-! ### Bits -/

def bit (b : Nat → UInt8) (k : Nat) : Bool := (b (k / 8) &&& 1 <<< UInt8.ofNat (k % 8)) != 0

def setBit (k : Nat) (b : Nat → UInt8) : Nat → UInt8 :=
  Function.update b (k / 8) (b (k / 8) ||| 1 <<< UInt8.ofNat (k % 8))

def clearBit (k : Nat) (b : Nat → UInt8) : Nat → UInt8 :=
  Function.update b (k / 8) (b (k / 8) &&& ~~~(1 <<< UInt8.ofNat (k % 8)))

lemma mask_toNat : ∀ i < 8, ((1 : UInt8) <<< UInt8.ofNat i).toNat = 2 ^ i := by decide

lemma bit_eq (b : Nat → UInt8) (k : Nat) : bit b k = (b (k / 8)).toNat.testBit (k % 8) := by
  have hand : (b (k / 8) &&& 1 <<< UInt8.ofNat (k % 8)).toNat = ((b (k / 8)).toNat.testBit (k % 8)).toNat * 2 ^ (k % 8) := by
    rw [UInt8.toNat_and, mask_toNat _ (Nat.mod_lt _ (by decide)), Nat.and_two_pow]
  have hpos : 0 < 2 ^ (k % 8) := Nat.two_pow_pos _
  unfold bit
  cases hbit : (b (k / 8)).toNat.testBit (k % 8) with
  | false =>
    rw [hbit] at hand
    simpa [UInt8.ext_iff] using hand
  | true =>
    rw [hbit] at hand
    have hne : b (k / 8) &&& 1 <<< UInt8.ofNat (k % 8) ≠ 0 := by
      intro hz
      rw [hz] at hand
      simp only [UInt8.toNat_zero, Bool.toNat_true, one_mul] at hand
      omega
    simpa using hne

lemma setBit_testBit (x : UInt8) : ∀ i < 8, ∀ j < 8,
    (x ||| 1 <<< UInt8.ofNat i).toNat.testBit j = (decide (j = i) || x.toNat.testBit j) := by
  intro i hi j hj
  rw [UInt8.toNat_or, mask_toNat i hi, Nat.testBit_or, Nat.testBit_two_pow, Bool.or_comm]
  congr 1
  simp [eq_comm]

lemma clearMask_testBit : ∀ i < 8, ∀ j < 8,
    (~~~((1 : UInt8) <<< UInt8.ofNat i)).toNat.testBit j = decide (j ≠ i) := by decide

lemma bit_setBit (k j : Nat) (b : Nat → UInt8) : bit (setBit k b) j = (decide (j = k) || bit b j) := by
  rw [bit_eq, bit_eq]
  unfold setBit
  by_cases hq : j / 8 = k / 8
  · rw [hq, Function.update_self, setBit_testBit _ _ (Nat.mod_lt _ (by decide)) _ (Nat.mod_lt _ (by decide))]
    congr 1
    exact decide_eq_decide.mpr (by omega)
  · have hne : j ≠ k := fun h => hq (by rw [h])
    rw [Function.update_of_ne hq]
    simp [hne]

lemma bit_clearBit (k j : Nat) (b : Nat → UInt8) : bit (clearBit k b) j = (decide (j ≠ k) && bit b j) := by
  rw [bit_eq, bit_eq]
  unfold clearBit
  by_cases hq : j / 8 = k / 8
  · rw [hq, Function.update_self, UInt8.toNat_and, Nat.testBit_and,
      clearMask_testBit _ (Nat.mod_lt _ (by decide)) _ (Nat.mod_lt _ (by decide)), Bool.and_comm]
    congr 1
    exact decide_eq_decide.mpr (by omega)
  · have hne : j ≠ k := fun h => hq (by rw [h])
    rw [Function.update_of_ne hq]
    simp [hne]

lemma byte_full_iff (b : Nat → UInt8) (i : Nat) : b i = 0xFF ↔ ∀ j < 8, bit b (i * 8 + j) = true := by
  have hbit : ∀ j < 8, bit b (i * 8 + j) = (b i).toNat.testBit j := by
    intro j hj
    rw [bit_eq, show (i * 8 + j) / 8 = i by omega, show (i * 8 + j) % 8 = j by omega]
  constructor
  · intro hfull j hj
    rw [hbit j hj, hfull]
    revert j
    decide
  · intro hall
    apply UInt8.toNat_inj.mp
    apply Nat.eq_of_testBit_eq
    intro j
    by_cases hj : j < 8
    · rw [← hbit j hj, hall j hj]
      revert j
      decide
    · have hlt : ∀ x : UInt8, x.toNat.testBit j = false := fun x =>
        Nat.testBit_lt_two_pow (x.toNat_lt.trans_le (Nat.pow_le_pow_right (by decide) (by omega)))
      rw [hlt, hlt]

end Glenda.Lib
