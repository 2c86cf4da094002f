import Glenda.Mem.Pte
import Glenda.Lib.LinkedList

/-!
# Physical pages

Model of `mem/pmem.rs` on one hart. Memory is given by pages of 512 words: `mem n i` is the
word `i` of the page at address `n * PGSIZE`. The free pages of a region form a list that is
linked through their first words, where 0 stands for the null pointer. `PmemInv` says that
the two lists are well formed and share no page with those in use.
-/

namespace Glenda.Mem
open Glenda.Lib
open Function (update update_of_ne update_self)

variable {a b pa : Nat} {k' : Bool} {e : Panic}

def PHY_MEM_START : Nat := 0x80000000
def TOTAL_PAGES : Nat := 128 * 1024 * 1024 / PGSIZE

/-- An `AllocRegion`: its bounds and the head of its free list. -/
structure AllocRegion where
  lower : Nat
  upper : Nat
  head : Option Nat
  allocable : Nat

structure Phys where
  mem : Nat → Nat → Nat
  pageRef : Nat → Nat
  region : Bool → AllocRegion

namespace Phys

def setWord (ph : Phys) (n i w : Nat) : Phys :=
  { ph with mem := Function.update ph.mem n (Function.update (ph.mem n) i w) }

def zeroPage (ph : Phys) (n : Nat) : Phys := { ph with mem := Function.update ph.mem n fun _ => 0 }

def setRegion (ph : Phys) (k : Bool) (r : AllocRegion) : Phys :=
  { ph with region := Function.update ph.region k r }

def setRef (ph : Phys) (idx x : Nat) : Phys :=
  { ph with pageRef := Function.update ph.pageRef idx x }

@[simp] lemma setWord_region (ph : Phys) (n i w : Nat) : (ph.setWord n i w).region = ph.region := rfl

@[simp] lemma setWord_pageRef (ph : Phys) (n i w : Nat) : (ph.setWord n i w).pageRef = ph.pageRef := rfl

@[simp] lemma zeroPage_region (ph : Phys) (n : Nat) : (ph.zeroPage n).region = ph.region := rfl

@[simp] lemma zeroPage_pageRef (ph : Phys) (n : Nat) : (ph.zeroPage n).pageRef = ph.pageRef := rfl

@[simp] lemma setRegion_mem (ph : Phys) (k : Bool) (r : AllocRegion) : (ph.setRegion k r).mem = ph.mem := rfl

@[simp] lemma setRegion_pageRef (ph : Phys) (k : Bool) (r : AllocRegion) :
    (ph.setRegion k r).pageRef = ph.pageRef := rfl

@[simp] lemma setRef_mem (ph : Phys) (idx x : Nat) : (ph.setRef idx x).mem = ph.mem := rfl

@[simp] lemma setRef_region (ph : Phys) (idx x : Nat) : (ph.setRef idx x).region = ph.region := rfl

end Phys

/-- The pointer that a word holds. -/
def ptr (w : Nat) : Option Nat := if w = 0 then none else some w

/-- The `next` field of the free page at an address. -/
def freeNext (mem : Nat → Nat → Nat) (addr : Nat) : Option Nat := ptr (mem (addr / PGSIZE) 0)

lemma freeNext_setWord (ph : Phys) (addr : Nat) {head : Option Nat} (hh : ∀ q, head = some q → q ≠ 0) :
    freeNext (ph.setWord (addr / PGSIZE) 0 (head.getD 0)).mem addr = head := by
  unfold freeNext
  simp only [Phys.setWord, update_self]
  cases head with
  | none => rfl
  | some q => simp [ptr, hh q rfl]

def AllocRegion.contains (r : AllocRegion) (addr : Nat) : Bool := r.lower ≤ addr && addr < r.upper

namespace Pmem

def paToIndex (pa : Nat) : K Phys Nat := do
  K.panicIf (pa < PHY_MEM_START) .paTooLow
  let idx := (pa - PHY_MEM_START) / PGSIZE
  K.panicIf (TOTAL_PAGES ≤ idx) .paTooHigh
  return idx

def allocate (k : Bool) : K Phys (Option Nat) := do
  let ph ← get
  match (ph.region k).head with
  | none => return none
  | some p =>
    set (ph.setRegion k { ph.region k with
      head := freeNext ph.mem p, allocable := (ph.region k).allocable - 1 })
    let idx ← paToIndex p
    let old := ph.pageRef idx
    modify (·.setRef idx ((old + 1) % 256))
    K.panicIf (old ≠ 0) .refCountCorrupted
    modify (·.zeroPage (p / PGSIZE))
    return some p

/-- `AllocRegion::free`. -/
def freeIn (k : Bool) (addr : Nat) : K Phys Unit := do
  let r := (← get).region k
  K.panicIf (addr < r.lower ∨ r.upper ≤ addr ∨ addr % PGSIZE ≠ 0) .freeOutOfBounds
  let idx ← paToIndex addr
  let old := (← get).pageRef idx
  modify (·.setRef idx ((old + 255) % 256))
  K.panicIf (old = 0) .doubleFree
  -- a page that is still referenced stays in use
  if old ≤ 1 then
    modify (·.setWord (addr / PGSIZE) 0 (r.head.getD 0))
    modify (·.setRegion k { r with head := some addr, allocable := r.allocable + 1 })

def alloc (forKernel : Bool) : K Phys Nat := do
  match ← allocate forKernel with
  | some p => return p
  | none => throw .regionExhausted

def free (addr : Nat) : K Phys Unit := do
  let ph ← get
  if (ph.region true).contains addr then freeIn true addr
  else if (ph.region false).contains addr then freeIn false addr
  else throw .freeOutOfRegions

def getRegion (pa : Nat) (ph : Phys) : Option Bool :=
  if (ph.region true).contains pa then some true
  else if (ph.region false).contains pa then some false
  else none

end Pmem

/-! ### The free lists -/

/-- The index of the page in `PAGE_REF`. -/
def pageIndex (addr : Nat) : Nat := (addr - PHY_MEM_START) / PGSIZE

/-- `free k` is the free list of the region `k`, and no page of it is in use. The kernel region
lies below the user region, both above `PHY_MEM_START`. -/
structure PmemInv (ph : Phys) (free : Bool → List Nat) (used : Nat → Prop) : Prop where
  chain : ∀ k, Chain (freeNext ph.mem) (ph.region k).head (free k)
  nodup : ∀ k, (free k).Nodup
  aligned : ∀ k, ∀ a ∈ free k, a % PGSIZE = 0
  bounds : ∀ k, ∀ a ∈ free k, (ph.region k).lower ≤ a ∧ a < (ph.region k).upper
  ref : ∀ k, ∀ a ∈ free k, ph.pageRef (pageIndex a) = 0
  unused : ∀ k, ∀ a ∈ free k, ¬used (a / PGSIZE)
  lower : PHY_MEM_START ≤ (ph.region true).lower
  split : (ph.region true).lower ≤ (ph.region true).upper ∧
    (ph.region true).upper ≤ (ph.region false).lower

namespace PmemInv

variable {ph ph' : Phys} {free : Bool → List Nat} {used used' : Nat → Prop} {k : Bool} {p : Nat}

lemma pos (h : PmemInv ph free used) (ha : a ∈ free k) : 0 < a := by
  have hb := h.bounds k a ha
  have hl := h.lower
  have hs := h.split
  unfold PHY_MEM_START at hl
  cases k <;> omega

lemma disjoint (h : PmemInv ph free used) (hk : k ≠ k') (ha : a ∈ free k) :
    a ∉ free k' := by
  intro ha'
  have hb := h.bounds k a ha
  have hb' := h.bounds k' a ha'
  have hs := h.split
  cases k <;> cases k' <;> simp at hk <;> omega

lemma congr (h : PmemInv ph free used) (hm : ∀ k, ∀ a ∈ free k, ph'.mem (a / PGSIZE) 0 = ph.mem (a / PGSIZE) 0)
    (hr : ph'.region = ph.region) (hp : ph'.pageRef = ph.pageRef)
    (hu : ∀ k, ∀ a ∈ free k, ¬used' (a / PGSIZE)) : PmemInv ph' free used' := by
  refine ⟨fun k => ?_, h.nodup, h.aligned, ?_, ?_, hu, ?_, ?_⟩
  · rw [hr]
    apply (h.chain k).congr
    intro a ha
    unfold freeNext
    rw [hm k a ha]
  · rw [hr]
    exact h.bounds
  · rw [hp]
    exact h.ref
  · rw [hr]
    exact h.lower
  · rw [hr]
    exact h.split

lemma mono (h : PmemInv ph free used) (hu : ∀ n, used' n → used n) : PmemInv ph free used' :=
  { h with unused := fun k a ha hn => h.unused k a ha (hu _ hn) }

end PmemInv

lemma pageIndex_injective (ha : a % PGSIZE = 0) (hb : b % PGSIZE = 0) (hla : PHY_MEM_START ≤ a)
    (hlb : PHY_MEM_START ≤ b) (h : pageIndex a = pageIndex b) : a = b := by
  unfold pageIndex at h
  unfold PGSIZE at *
  unfold PHY_MEM_START at *
  omega

lemma div_injective (ha : a % PGSIZE = 0) (hb : b % PGSIZE = 0) (h : a / PGSIZE = b / PGSIZE) :
    a = b := by
  unfold PGSIZE at *
  omega

namespace Pmem

variable {ph ph' : Phys} {free : Bool → List Nat} {used : Nat → Prop} {k : Bool} {p : Nat}

lemma paToIndex_ok {idx : Nat} (h : paToIndex pa ph = .ok (idx, ph')) :
    idx = pageIndex pa ∧ ph' = ph ∧ PHY_MEM_START ≤ pa ∧ pageIndex pa < TOTAL_PAGES := by
  obtain ⟨u, ph1, h1, hrest⟩ := K.bind_ok h
  obtain ⟨hlow, rfl⟩ := K.panicIf_eq_ok.mp h1
  obtain ⟨v, ph2, h2, hret⟩ := K.bind_ok hrest
  obtain ⟨hhigh, rfl⟩ := K.panicIf_eq_ok.mp h2
  cases hret
  exact ⟨rfl, rfl, by omega, by unfold pageIndex; omega⟩

/-- The page that `alloc` returns comes from the free list and is zeroed. -/
structure Allocated (ph ph' : Phys) (k : Bool) (p : Nat) (rest : List Nat) : Prop where
  aligned : p % PGSIZE = 0
  lower : PHY_MEM_START ≤ p
  index : pageIndex p < TOTAL_PAGES
  mem : ph'.mem = Function.update ph.mem (p / PGSIZE) fun _ => 0
  region : ph'.region = Function.update ph.region k
    { ph.region k with head := rest.head?, allocable := (ph.region k).allocable - 1 }
  ref : ph'.pageRef = Function.update ph.pageRef (pageIndex p) 1

lemma allocate_ok (h : PmemInv ph free used) (he : allocate k ph = .ok (some p, ph')) :
    ∃ rest, free k = p :: rest ∧ Allocated ph ph' k p rest := by
  unfold allocate at he
  obtain ⟨ph0, ph1, hget, he⟩ := K.bind_ok he
  cases hget
  cases hhead : (ph.region k).head with
  | none =>
    rw [hhead] at he
    cases he
  | some q =>
    rw [hhead] at he
    obtain ⟨u, ph2, hset, he⟩ := K.bind_ok he
    cases hset
    obtain ⟨idx, ph3, hidx, he⟩ := K.bind_ok he
    obtain ⟨rfl, rfl, hlow, hlt⟩ := paToIndex_ok hidx
    obtain ⟨v, ph4, hmod, he⟩ := K.bind_ok he
    cases hmod
    obtain ⟨w, ph5, hguard, he⟩ := K.bind_ok he
    obtain ⟨hold, rfl⟩ := K.panicIf_eq_ok.mp hguard
    obtain ⟨x, ph6, hzero, he⟩ := K.bind_ok he
    cases hzero
    cases he
    have hchain := h.chain k
    cases hl : free k with
    | nil =>
      rw [hl, hhead] at hchain
      cases hchain
    | cons a rest =>
      rw [hl, hhead, Chain.cons] at hchain
      obtain ⟨hp, hrest⟩ := hchain
      obtain rfl := Option.some.inj hp
      have hmem : p ∈ free k := by simp [hl]
      refine ⟨rest, rfl, h.aligned k p hmem, hlow, hlt, rfl, ?_, ?_⟩
      · rw [← hrest.head_eq]
        rfl
      · simp only [Phys.zeroPage, Phys.setRef, Phys.setRegion]
        rw [not_not.mp hold]

lemma Allocated.inv {rest : List Nat} (h : PmemInv ph free used) (hl : free k = p :: rest)
    (ha : Allocated ph ph' k p rest) :
    PmemInv ph' (update free k rest) (fun n => used n ∨ n = p / PGSIZE) := by
  have hsub : ∀ k' a, a ∈ update free k rest k' → a ∈ free k' ∧ a ≠ p := by
    intro k' a hmem
    by_cases hk : k' = k
    · subst hk
      rw [update_self] at hmem
      have hnd := h.nodup k'
      rw [hl, List.nodup_cons] at hnd
      exact ⟨by simp [hl, hmem], fun he => hnd.1 (he ▸ hmem)⟩
    · rw [update_of_ne hk] at hmem
      refine ⟨hmem, fun he => ?_⟩
      exact h.disjoint hk hmem (by simp [hl, he])
  have hpage : ∀ k' a, a ∈ update free k rest k' → a / PGSIZE ≠ p / PGSIZE := by
    intro k' a hmem he
    obtain ⟨hin, hne⟩ := hsub k' a hmem
    exact hne (div_injective (h.aligned k' a hin) ha.aligned he)
  have hregion : ∀ k', (ph'.region k').lower = (ph.region k').lower ∧
      (ph'.region k').upper = (ph.region k').upper := by
    intro k'
    rw [ha.region]
    by_cases hk : k' = k
    · subst hk
      simp
    · simp [hk]
  refine ⟨fun k' => ?_, fun k' => ?_, fun k' a hmem => ?_, fun k' a hmem => ?_, fun k' a hmem => ?_,
    fun k' a hmem => ?_, ?_, ?_⟩
  · have hlink : ∀ a ∈ update free k rest k', freeNext ph'.mem a = freeNext ph.mem a := by
      intro a hmem
      unfold freeNext
      rw [ha.mem, update_of_ne (hpage k' a hmem)]
    refine Seg.congr ?_ hlink
    rw [ha.region]
    by_cases hk : k' = k
    · subst hk
      rw [update_self, update_self]
      have hchain := h.chain k'
      rw [hl, Chain.cons] at hchain
      dsimp only
      rw [← hchain.2.head_eq]
      exact hchain.2
    · rw [update_of_ne hk, update_of_ne hk]
      exact h.chain k'
  · by_cases hk : k' = k
    · subst hk
      rw [update_self]
      exact (hl ▸ h.nodup k').of_cons
    · rw [update_of_ne hk]
      exact h.nodup k'
  · exact h.aligned k' a (hsub k' a hmem).1
  · rw [(hregion k').1, (hregion k').2]
    exact h.bounds k' a (hsub k' a hmem).1
  · obtain ⟨hin, hne⟩ := hsub k' a hmem
    have hidx : pageIndex a ≠ pageIndex p := by
      intro he
      refine hne (pageIndex_injective (h.aligned k' a hin) ha.aligned ?_ ha.lower he)
      have hb := h.bounds k' a hin
      have hlow := h.lower
      have hs := h.split
      cases k' <;> omega
    rw [ha.ref, update_of_ne hidx]
    exact h.ref k' a hin
  · rintro (hu | hu)
    · exact h.unused k' a (hsub k' a hmem).1 hu
    · exact hpage k' a hmem hu
  · rw [(hregion true).1]
    exact h.lower
  · rw [(hregion true).1, (hregion true).2, (hregion false).1]
    exact h.split

lemma alloc_ok (h : PmemInv ph free used) (he : alloc k ph = .ok (p, ph')) :
    ∃ rest, free k = p :: rest ∧ Allocated ph ph' k p rest := by
  obtain ⟨r, ph1, ha, he'⟩ := K.bind_ok he
  cases r with
  | none => cases he'
  | some q =>
    cases he'
    exact allocate_ok h ha

/-- What `free` does: the reference count goes down, and if it was 1 the page becomes the head
of the free list of its region. -/
structure Freed (ph ph' : Phys) (k : Bool) (addr : Nat) : Prop where
  aligned : addr % PGSIZE = 0
  lower : PHY_MEM_START ≤ addr
  bounds : (ph.region k).lower ≤ addr ∧ addr < (ph.region k).upper
  old : ph.pageRef (pageIndex addr) ≠ 0
  ref : ph'.pageRef = Function.update ph.pageRef (pageIndex addr) ((ph.pageRef (pageIndex addr) + 255) % 256)
  state : if ph.pageRef (pageIndex addr) ≤ 1 then
      ph'.mem = (ph.setWord (addr / PGSIZE) 0 ((ph.region k).head.getD 0)).mem ∧
      ph'.region = Function.update ph.region k { ph.region k with
        head := some addr, allocable := (ph.region k).allocable + 1 }
    else ph'.mem = ph.mem ∧ ph'.region = ph.region

lemma freeIn_ok {addr : Nat} {u : Unit} (he : freeIn k addr ph = .ok (u, ph')) : Freed ph ph' k addr := by
  unfold freeIn at he
  obtain ⟨ph0, ph1, hget, he⟩ := K.bind_ok he
  cases hget
  obtain ⟨u1, ph2, hguard, he⟩ := K.bind_ok he
  obtain ⟨hb, rfl⟩ := K.panicIf_eq_ok.mp hguard
  obtain ⟨idx, ph3, hidx, he⟩ := K.bind_ok he
  obtain ⟨rfl, rfl, hlow, -⟩ := paToIndex_ok hidx
  obtain ⟨ph4, ph5, hget, he⟩ := K.bind_ok he
  cases hget
  obtain ⟨u2, ph6, hmod, he⟩ := K.bind_ok he
  cases hmod
  obtain ⟨u3, ph7, hguard, he⟩ := K.bind_ok he
  obtain ⟨hold, rfl⟩ := K.panicIf_eq_ok.mp hguard
  have hal : addr % PGSIZE = 0 := by
    by_contra hne
    exact hb (.inr (.inr hne))
  refine ⟨hal, hlow, by omega, hold, ?_, ?_⟩
  · split_ifs at he
    · cases he
      rfl
    · cases he
      rfl
  · split_ifs at he ⊢
    · cases he
      exact ⟨rfl, rfl⟩
    · cases he
      exact ⟨rfl, rfl⟩

lemma Freed.ref_other {addr : Nat} (hf : Freed ph ph' k addr) (h : PmemInv ph free used)
    (ha : a ∈ free k') : ph'.pageRef (pageIndex a) = 0 := by
  have hne : pageIndex a ≠ pageIndex addr := by
    intro he
    exact hf.old (he ▸ h.ref k' a ha)
  rw [hf.ref, update_of_ne hne]
  exact h.ref k' a ha

lemma Freed.not_mem {addr : Nat} (hf : Freed ph ph' k addr) (h : PmemInv ph free used) :
    addr ∉ free k' :=
  fun ha => hf.old (h.ref k' addr ha)

lemma Freed.region {addr : Nat} (hf : Freed ph ph' k addr) (k' : Bool) :
    (ph'.region k').lower = (ph.region k').lower ∧ (ph'.region k').upper = (ph.region k').upper := by
  have hs := hf.state
  split_ifs at hs
  · rw [hs.2]
    by_cases hk : k' = k
    · subst hk
      simp
    · simp [hk]
  · rw [hs.2]
    exact ⟨rfl, rfl⟩

lemma Freed.mem_other {addr n : Nat} (hf : Freed ph ph' k addr) (hn : n ≠ addr / PGSIZE) :
    ph'.mem n = ph.mem n := by
  have hs := hf.state
  split_ifs at hs
  · rw [hs.1]
    exact update_of_ne hn _ _
  · rw [hs.1]

lemma Freed.inv {addr : Nat} (h : PmemInv ph free used) (hu : ¬used (addr / PGSIZE))
    (hf : Freed ph ph' k addr) : ∃ free', PmemInv ph' free' used ∧ (∀ j a, a ∈ free j → a ∈ free' j) ∧
      (∀ j a, a ∈ free' j → a ∈ free j ∨ a = addr) ∧ (ph.pageRef (pageIndex addr) = 1 → addr ∈ free' k) := by
  have hregion := hf.region
  by_cases hold : ph.pageRef (pageIndex addr) ≤ 1
  · have hs := hf.state
    rw [if_pos hold] at hs
    obtain ⟨hmem, hreg⟩ := hs
    have hcases : ∀ k' a, a ∈ update free k (addr :: free k) k' → a ∈ free k' ∨ k' = k ∧ a = addr := by
      intro k' a ha
      by_cases hk : k' = k
      · subst hk
        rw [update_self] at ha
        rcases List.mem_cons.mp ha with rfl | ha
        · exact .inr ⟨rfl, rfl⟩
        · exact .inl ha
      · rw [update_of_ne hk] at ha
        exact .inl ha
    have hlink : ∀ k' a, a ∈ free k' → freeNext ph'.mem a = freeNext ph.mem a := by
      intro k' a ha
      have hne : a / PGSIZE ≠ addr / PGSIZE := by
        intro he
        exact hf.not_mem h (div_injective (h.aligned k' a ha) hf.aligned he ▸ ha)
      unfold freeNext
      rw [hf.mem_other hne]
    refine ⟨update free k (addr :: free k), ⟨fun k' => ?_, fun k' => ?_, fun k' a ha => ?_,
      fun k' a ha => ?_, fun k' a ha => ?_, fun k' a ha => ?_, ?_, ?_⟩, fun k' a ha => ?_,
      fun k' a ha => (hcases k' a ha).imp_right And.right, fun _ => by simp⟩
    · rw [hreg]
      by_cases hk : k' = k
      · subst hk
        rw [update_self, update_self, Chain.cons]
        refine ⟨rfl, ?_⟩
        have hnext : freeNext ph'.mem addr = (ph.region k').head := by
          rw [hmem]
          refine freeNext_setWord ph addr fun q hq => ?_
          have hchain := (h.chain k').head_eq
          rw [hq] at hchain
          exact Nat.ne_of_gt (h.pos (List.mem_of_mem_head? hchain.symm))
        rw [hnext]
        exact (h.chain k').congr (hlink k')
      · rw [update_of_ne hk, update_of_ne hk]
        exact (h.chain k').congr (hlink k')
    · by_cases hk : k' = k
      · subst hk
        rw [update_self]
        exact List.nodup_cons.mpr ⟨hf.not_mem h, h.nodup k'⟩
      · rw [update_of_ne hk]
        exact h.nodup k'
    · rcases hcases k' a ha with ha | ⟨-, rfl⟩
      · exact h.aligned k' a ha
      · exact hf.aligned
    · rw [(hregion k').1, (hregion k').2]
      rcases hcases k' a ha with ha | ⟨rfl, rfl⟩
      · exact h.bounds k' a ha
      · exact hf.bounds
    · rcases hcases k' a ha with ha | ⟨-, rfl⟩
      · exact hf.ref_other h ha
      · have hone : ph.pageRef (pageIndex a) = 1 := by
          have hne := hf.old
          omega
        rw [hf.ref, update_self, hone]
    · rcases hcases k' a ha with ha | ⟨-, rfl⟩
      · exact h.unused k' a ha
      · exact hu
    · rw [(hregion true).1]
      exact h.lower
    · rw [(hregion true).1, (hregion true).2, (hregion false).1]
      exact h.split
    · by_cases hk : k' = k
      · subst hk
        simp [ha]
      · rwa [update_of_ne hk]
  · have hs := hf.state
    rw [if_neg hold] at hs
    refine ⟨free, ⟨fun k' => ?_, h.nodup, h.aligned, fun k' a ha => ?_, fun k' a ha => hf.ref_other h ha, h.unused,
      ?_, ?_⟩, fun _ _ ha => ha, fun _ _ ha => .inl ha, fun hone => absurd hone.le hold⟩
    · rw [hs.1, hs.2]
      exact h.chain k'
    · rw [hs.2]
      exact h.bounds k' a ha
    · rw [hs.2]
      exact h.lower
    · rw [hs.2]
      exact h.split

lemma free_ok {addr : Nat} {u : Unit} (he : Pmem.free addr ph = .ok (u, ph')) : ∃ k, Freed ph ph' k addr := by
  obtain ⟨ph0, ph1, hget, he⟩ := K.bind_ok he
  cases hget
  split_ifs at he
  · exact ⟨true, freeIn_ok he⟩
  · exact ⟨false, freeIn_ok he⟩
  · cases he

/-! ### Panics -/

def allocErrors : List Panic := [.regionExhausted, .paTooLow, .paTooHigh, .refCountCorrupted]

def freeErrors : List Panic := [.freeOutOfRegions, .freeOutOfBounds, .paTooLow, .paTooHigh, .doubleFree]

lemma paToIndex_error (h : paToIndex pa ph = .error e) : e = .paTooLow ∨ e = .paTooHigh := by
  rcases K.bind_eq_error.mp h with h | ⟨u, ph1, -, h⟩
  · exact .inl (K.panicIf_eq_error.mp h).2
  rcases K.bind_eq_error.mp h with h | ⟨v, ph2, -, h⟩
  · exact .inr (K.panicIf_eq_error.mp h).2
  · cases h

lemma alloc_error (h : alloc k ph = .error e) : e ∈ allocErrors := by
  unfold alloc allocate at h
  rcases K.bind_eq_error.mp h with h | ⟨r, ph1, -, h⟩
  · rcases K.bind_eq_error.mp h with h | ⟨ph0, ph1, hget, h⟩
    · cases h
    cases hget
    cases hhead : (ph.region k).head with
    | none =>
      rw [hhead] at h
      cases h
    | some p =>
      rw [hhead] at h
      rcases K.bind_eq_error.mp h with h | ⟨u, ph2, -, h⟩
      · cases h
      rcases K.bind_eq_error.mp h with h | ⟨idx, ph3, -, h⟩
      · rcases paToIndex_error h with rfl | rfl <;> simp [allocErrors]
      rcases K.bind_eq_error.mp h with h | ⟨v, ph4, -, h⟩
      · cases h
      rcases K.bind_eq_error.mp h with h | ⟨w, ph5, -, h⟩
      · simp [(K.panicIf_eq_error.mp h).2, allocErrors]
      · cases h
  · cases r with
    | none =>
      cases h
      simp [allocErrors]
    | some p => cases h

lemma freeIn_error {addr : Nat} (h : freeIn k addr ph = .error e) : e ∈ freeErrors := by
  unfold freeIn at h
  rcases K.bind_eq_error.mp h with h | ⟨ph0, ph1, -, h⟩
  · cases h
  rcases K.bind_eq_error.mp h with h | ⟨u, ph2, -, h⟩
  · simp [(K.panicIf_eq_error.mp h).2, freeErrors]
  rcases K.bind_eq_error.mp h with h | ⟨idx, ph3, -, h⟩
  · rcases paToIndex_error h with rfl | rfl <;> simp [freeErrors]
  rcases K.bind_eq_error.mp h with h | ⟨ph4, ph5, -, h⟩
  · cases h
  rcases K.bind_eq_error.mp h with h | ⟨v, ph6, -, h⟩
  · cases h
  rcases K.bind_eq_error.mp h with h | ⟨w, ph7, -, h⟩
  · simp [(K.panicIf_eq_error.mp h).2, freeErrors]
  · split_ifs at h <;> cases h

lemma free_error {addr : Nat} (h : Pmem.free addr ph = .error e) : e ∈ freeErrors := by
  rcases K.bind_eq_error.mp h with h | ⟨ph0, ph1, -, h⟩
  · cases h
  split_ifs at h
  · exact freeIn_error h
  · exact freeIn_error h
  · cases h
    simp [freeErrors]

end Pmem

end Glenda.Mem
