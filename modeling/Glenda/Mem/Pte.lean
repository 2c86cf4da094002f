import Glenda.Basic

/-!
# Addresses and page-table entries

Model of `mem/addr.rs` and `mem/pte.rs`. Words are natural numbers below `2 ^ 64`; the bit
operations never leave that range. The lemmas give each operation in terms of quotients and
remainders.
-/

namespace Glenda.Mem

def PGSIZE : Nat := 4096
def PGNUM : Nat := 512
def PGMASK : Nat := PGSIZE - 1
def VA_MAX : Nat := 2 ^ 38
def MMAP_END : Nat := VA_MAX - (16 * 256 + 2) * PGSIZE
def MMAP_BEGIN : Nat := MMAP_END - 64 * 256 * PGSIZE

def PTE_V : Nat := 2 ^ 0
def PTE_R : Nat := 2 ^ 1
def PTE_W : Nat := 2 ^ 2
def PTE_X : Nat := 2 ^ 3
def PTE_U : Nat := 2 ^ 4
def PTE_A : Nat := 2 ^ 6
def PTE_D : Nat := 2 ^ 7

/-- `value & !PGMASK`. -/
def alignDown (value : Nat) : Nat := value - (value &&& PGMASK)

def alignUp {σ : Type} (P : Profile) (value : Nat) : K σ Nat := do
  return alignDown (← addW P 64 value PGMASK)

def vpn (addr level : Nat) : Nat := (addr >>> (12 + 9 * level)) &&& 0x1FF

def getPpn (pte : Nat) : Nat := (pte >>> 10) &&& 0xFFFFFFFFFFF

def isValid (pte : Nat) : Bool := (pte &&& PTE_V) ≠ 0

def isLeaf (pte : Nat) : Bool := (pte &&& (PTE_R ||| PTE_W ||| PTE_X)) ≠ 0

def isTable (pte : Nat) : Bool := isValid pte && !isLeaf pte

def pteToPa (pte : Nat) : Nat := getPpn pte <<< 12

def paToPte (pa flags : Nat) : Nat := (((pa >>> 12) &&& 0xFFFFFFFFFFF) <<< 10) ||| (flags &&& 0x3FF)

lemma alignDown_eq (value : Nat) : alignDown value = value / 4096 * 4096 := by
  have hand : value &&& PGMASK = value % 4096 := Nat.and_two_pow_sub_one_eq_mod value 12
  unfold alignDown
  omega

lemma div_mul_PGSIZE (n : Nat) : n * PGSIZE / PGSIZE = n := Nat.mul_div_cancel n (by decide)

lemma alignUp_ok {σ : Type} {P : Profile} {v n : Nat} {t t' : σ} (h : alignUp P v t = .ok (n, t')) :
    t = t' ∧ n = (v + 4095) % 2 ^ 64 / 4096 * 4096 := by
  unfold alignUp at h
  obtain ⟨x, t1, hx, h⟩ := K.bind_ok h
  obtain ⟨rfl, hsum⟩ := addW_ok hx
  cases h
  refine ⟨rfl, ?_⟩
  rw [alignDown_eq, hsum, show PGMASK = 4095 from rfl]

lemma vpn_eq (addr level : Nat) : vpn addr level = addr / 2 ^ (12 + 9 * level) % 512 := by
  unfold vpn
  rw [Nat.shiftRight_eq_div_pow]
  exact Nat.and_two_pow_sub_one_eq_mod _ 9

lemma getPpn_eq (pte : Nat) : getPpn pte = pte / 1024 % 2 ^ 44 := by
  unfold getPpn
  rw [Nat.shiftRight_eq_div_pow]
  exact Nat.and_two_pow_sub_one_eq_mod _ 44

lemma paToPte_eq (pa flags : Nat) : paToPte pa flags = pa / 4096 % 2 ^ 44 * 1024 + flags % 1024 := by
  have hppn : (pa >>> 12) &&& 0xFFFFFFFFFFF = pa / 4096 % 2 ^ 44 := by
    rw [Nat.shiftRight_eq_div_pow]
    exact Nat.and_two_pow_sub_one_eq_mod _ 44
  have hflags : flags &&& 0x3FF = flags % 1024 := Nat.and_two_pow_sub_one_eq_mod flags 10
  have hlt : flags % 1024 < 2 ^ 10 := Nat.mod_lt _ (by decide)
  unfold paToPte
  rw [hppn, hflags, ← Nat.shiftLeft_add_eq_or_of_lt hlt, Nat.shiftLeft_eq]

lemma pteToPa_eq (pte : Nat) : pteToPa pte = getPpn pte * 4096 := Nat.shiftLeft_eq _ _

lemma getPpn_paToPte (pa flags : Nat) : getPpn (paToPte pa flags) = pa / 4096 % 2 ^ 44 := by
  rw [getPpn_eq, paToPte_eq]
  omega

lemma paToPte_mod (pa flags : Nat) : paToPte pa flags % 1024 = flags % 1024 := by
  rw [paToPte_eq]
  omega

lemma paToPte_testBit {pa flags i : Nat} (hi : i < 10) :
    (paToPte pa flags).testBit i = flags.testBit i := by
  have hmod : ∀ x : Nat, (x % 2 ^ 10).testBit i = x.testBit i := by
    intro x
    rw [Nat.testBit_mod_two_pow]
    simp [hi]
  rw [← hmod, ← hmod flags]
  exact congrArg (Nat.testBit · i) (paToPte_mod pa flags)

lemma isValid_eq (pte : Nat) : isValid pte = pte.testBit 0 := by
  unfold isValid PTE_V
  rw [Bool.eq_iff_iff, decide_eq_true_iff, ne_eq, Nat.and_two_pow]
  cases pte.testBit 0 <;> simp

lemma isLeaf_eq (pte : Nat) : isLeaf pte = (pte.testBit 1 || pte.testBit 2 || pte.testBit 3) := by
  unfold isLeaf PTE_R PTE_W PTE_X
  rw [Bool.eq_iff_iff, decide_eq_true_iff, ne_eq, Nat.and_or_distrib_left, Nat.and_or_distrib_left,
    Nat.or_eq_zero_iff, Nat.or_eq_zero_iff, Nat.and_two_pow, Nat.and_two_pow, Nat.and_two_pow]
  cases pte.testBit 1 <;> cases pte.testBit 2 <;> cases pte.testBit 3 <;> simp

lemma isValid_paToPte (pa flags : Nat) : isValid (paToPte pa flags) = isValid flags := by
  rw [isValid_eq, isValid_eq, paToPte_testBit (by decide)]

lemma isLeaf_paToPte (pa flags : Nat) : isLeaf (paToPte pa flags) = isLeaf flags := by
  rw [isLeaf_eq, isLeaf_eq, paToPte_testBit (by decide), paToPte_testBit (by decide),
    paToPte_testBit (by decide)]

end Glenda.Mem
