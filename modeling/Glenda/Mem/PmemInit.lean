import Glenda.Mem.PmemFlow
import Glenda.Mem.PmemHarts

/-!
# The regions at boot

Model of `initialize_regions` of `mem/pmem.rs`. The free memory behind the kernel image is cut into the two regions and
every page of them is linked into a free list. `Stocked` is what the allocator keeps afterwards: each free page has a
slot in `PAGE_REF`, and `allocable` counts the free pages.
-/

namespace Glenda.Mem
open Glenda.Lib
open Function (update update_of_ne update_self)

def KERN_PAGES : Nat := 8192

/-- The symbols of the linker script: the image starts at `0x80200000`, and the memory behind it starts with the next
page. Physical addresses have 56 bits. -/
structure KernelImage where
  bssEnd : Nat
  allocStart : Nat
  start : 0x80200000 ≤ bssEnd
  allocStart_eq : allocStart = (bssEnd + 4095) / 4096 * 4096
  bound : allocStart < 2 ^ 56

structure MemoryRange where
  start : Nat
  size : Nat

namespace Pmem

variable (P : Profile)

def initializeRegions (img : KernelImage) (range : Option MemoryRange) : K Phys Unit := do
  let kernelEnd ← alignUp P img.bssEnd
  let memRange := range.getD ⟨0x80000000, 128 * 1024 * 1024⟩
  let memEnd ← addW P 64 memRange.start memRange.size
  K.panicIf (memEnd ≤ kernelEnd) .kernelBeyondMemory
  let allocBegin := img.allocStart
  K.panicIf (P = .dev ∧ allocBegin < kernelEnd) .debugAssert
  K.panicIf (P = .dev ∧ allocBegin &&& (PGSIZE - 1) ≠ 0) .debugAssert
  let kernelSplit ← alignUp P (← addW P 64 allocBegin (KERN_PAGES * PGSIZE))
  let kernelSplit := if memEnd < kernelSplit then memEnd else kernelSplit
  let kernelSplit := if kernelSplit < allocBegin then allocBegin else kernelSplit
  init P true allocBegin kernelSplit
  init P false kernelSplit memEnd
  let ph ← get
  K.panicIf (P = .dev ∧ ∃ k, (ph.region k).lower &&& (PGSIZE - 1) ≠ 0 ∨ (ph.region k).upper &&& (PGSIZE - 1) ≠ 0) .debugAssert

end Pmem

/-- The addresses of `n` pages from the page `lo` on, the highest first. -/
def pagesDown (lo : Nat) : Nat → List Nat
  | 0 => []
  | n + 1 => (lo + n) * PGSIZE :: pagesDown lo n

lemma mem_pagesDown {lo n a : Nat} : a ∈ pagesDown lo n ↔ ∃ x, lo ≤ x ∧ x < lo + n ∧ a = x * PGSIZE := by
  induction n with
  | zero =>
    simp only [pagesDown, List.not_mem_nil, false_iff]
    rintro ⟨x, hlo, hlt, -⟩
    omega
  | succ n ih =>
    rw [pagesDown, List.mem_cons, ih]
    constructor
    · rintro (rfl | ⟨x, hlo, hlt, rfl⟩)
      · exact ⟨lo + n, by omega, by omega, rfl⟩
      · exact ⟨x, hlo, by omega, rfl⟩
    · rintro ⟨x, hlo, hlt, rfl⟩
      by_cases hx : x = lo + n
      · exact .inl (by rw [hx])
      · exact .inr ⟨x, hlo, by omega, rfl⟩

lemma nodup_pagesDown (lo n : Nat) : (pagesDown lo n).Nodup := by
  induction n with
  | zero => exact List.nodup_nil
  | succ n ih =>
    rw [pagesDown, List.nodup_cons]
    refine ⟨fun hmem => ?_, ih⟩
    obtain ⟨x, -, hlt, hx⟩ := mem_pagesDown.mp hmem
    have := Nat.eq_of_mul_eq_mul_right (by decide) hx
    omega

lemma pagesDown_succ (lo n : Nat) : pagesDown lo (n + 1) = pagesDown (lo + 1) n ++ [lo * PGSIZE] := by
  induction n with
  | zero => rfl
  | succ n ih =>
    rw [pagesDown, ih, pagesDown, List.cons_append]
    congr 2
    omega

lemma pagesDown_eq (lo n : Nat) : pagesDown lo n = (pagesFrom (lo * PGSIZE) n).reverse := by
  induction n generalizing lo with
  | zero => rfl
  | succ n ih =>
    rw [pagesDown_succ, pagesFrom_succ, List.reverse_cons, ih, show (lo + 1) * PGSIZE = lo * PGSIZE + PGSIZE by
      unfold PGSIZE; omega]

lemma length_pagesDown (lo n : Nat) : (pagesDown lo n).length = n := by
  induction n with
  | zero => rfl
  | succ n ih => rw [pagesDown, List.length_cons, ih]

/-! ### What the allocator keeps -/

/-- The pages `out` are in the hands of the callers. -/
structure Stocked (ph : Phys) (free : Bool → List Nat) (out : List Nat) : Prop where
  pmem : PmemInv ph free fun n => ∃ p ∈ out, p / PGSIZE = n
  count : ∀ k, (ph.region k).allocable = (free k).length
  slot : ∀ k, ∀ a ∈ free k, pageIndex a < TOTAL_PAGES
  nodup : out.Nodup
  aligned : ∀ p ∈ out, p % PGSIZE = 0
  lower : ∀ p ∈ out, PHY_MEM_START ≤ p
  index : ∀ p ∈ out, pageIndex p < TOTAL_PAGES
  ref : ∀ p ∈ out, ph.pageRef (pageIndex p) = 1

/-- The allocator in use: pages are allocated, written and freed by their holders. -/
inductive AllocRun (ph₀ : Phys) : Phys → List Nat → Prop
  | start : AllocRun ph₀ ph₀ []
  | alloc {ph ph' : Phys} {out : List Nat} {k : Bool} {p : Nat} (h : AllocRun ph₀ ph out)
      (he : Pmem.allocate k ph = .ok (some p, ph')) : AllocRun ph₀ ph' (p :: out)
  | free {ph ph' : Phys} {out : List Nat} {p : Nat} (h : AllocRun ph₀ ph out) (hp : p ∈ out)
      (he : Pmem.free p ph = .ok ((), ph')) : AllocRun ph₀ ph' (out.erase p)
  | write {ph ph' : Phys} {out : List Nat} (h : AllocRun ph₀ ph out)
      (hmem : ∀ n, (∀ p ∈ out, p / PGSIZE ≠ n) → ph'.mem n = ph.mem n) (hr : ph'.region = ph.region)
      (hc : ph'.pageRef = ph.pageRef) : AllocRun ph₀ ph' out

/-- `allocate` returns a page if one is left, and does not panic. -/
def Allocates (ph : Phys) (k : Bool) : Prop :=
  ((ph.region k).allocable ≠ 0 → ∃ p ph', Pmem.allocate k ph = .ok (some p, ph')) ∧
    ((ph.region k).allocable = 0 → Pmem.allocate k ph = .ok (none, ph))

namespace Stocked

variable {ph ph' ph₀ : Phys} {free : Bool → List Nat} {out : List Nat} {k : Bool} {p : Nat}

section

variable (h : Stocked ph free out)
include h

lemma free_lower {a : Nat} (ha : a ∈ free k) : PHY_MEM_START ≤ a := by
  have hb := h.pmem.bounds k a ha
  have hl := h.pmem.lower
  have hs := h.pmem.split
  cases k <;> omega

lemma allocates (k : Bool) : Allocates ph k := by
  have hchain := h.pmem.chain k
  constructor
  · intro hne
    rw [h.count k] at hne
    cases hl : free k with
    | nil =>
      rw [hl] at hne
      exact absurd rfl hne
    | cons p rest =>
      have hp : p ∈ free k := by simp [hl]
      have hlow := h.free_lower hp
      have hidx := h.slot k p hp
      have href := h.pmem.ref k p hp
      rw [hl, Chain.cons] at hchain
      unfold pageIndex at hidx href
      have hindex : ∀ t, Pmem.paToIndex p t = .ok ((p - PHY_MEM_START) / PGSIZE, t) := by
        intro t
        unfold Pmem.paToIndex
        rw [K.bind_of_ok (K.panicIf_of_not (by omega))]
        exact K.bind_of_ok (K.panicIf_of_not (by omega))
      unfold Pmem.allocate
      rw [K.bind_of_ok (K.get_apply ph), hchain.1]
      dsimp only
      rw [K.bind_of_ok (K.set_apply _ _), K.bind_of_ok (hindex _), K.bind_of_ok (K.modify_apply _ _),
        K.bind_of_ok (K.panicIf_of_not (not_not.mpr href))]
      exact ⟨p, _, rfl⟩
  · intro hzero
    rw [h.count k, List.length_eq_zero_iff] at hzero
    rw [hzero] at hchain
    unfold Pmem.allocate
    rw [K.bind_of_ok (K.get_apply ph), Chain.nil.mp hchain]
    rfl

lemma alloc (he : Pmem.allocate k ph = .ok (some p, ph')) :
    ∃ free', Stocked ph' free' (p :: out) := by
  obtain ⟨rest, hl, ha⟩ := Pmem.allocate_ok h.pmem he
  have hinv := ha.inv h.pmem hl
  have hp : p ∈ free k := by simp [hl]
  have hnot : p ∉ out := fun hmem => h.pmem.unused k p hp ⟨p, hmem, rfl⟩
  refine ⟨update free k rest, hinv.mono ?_, fun k' => ?_, fun k' a hmem => ?_, List.nodup_cons.mpr ⟨hnot, h.nodup⟩,
    ?_, ?_, ?_, ?_⟩
  · rintro n ⟨q, hq, rfl⟩
    rcases List.mem_cons.mp hq with rfl | hq
    · exact .inr rfl
    · exact .inl ⟨q, hq, rfl⟩
  · rw [ha.region]
    by_cases hk : k' = k
    · subst hk
      rw [update_self, update_self]
      dsimp only
      rw [h.count k', hl, List.length_cons, Nat.add_sub_cancel]
    · rw [update_of_ne hk, update_of_ne hk, h.count k']
  · by_cases hk : k' = k
    · subst hk
      rw [update_self] at hmem
      exact h.slot k' a (by simp [hl, hmem])
    · rw [update_of_ne hk] at hmem
      exact h.slot k' a hmem
  · exact List.forall_mem_cons.mpr ⟨ha.aligned, h.aligned⟩
  · exact List.forall_mem_cons.mpr ⟨ha.lower, h.lower⟩
  · exact List.forall_mem_cons.mpr ⟨ha.index, h.index⟩
  · rw [ha.ref]
    refine List.forall_mem_cons.mpr ⟨update_self .., fun q hq => ?_⟩
    have hne : pageIndex q ≠ pageIndex p := by
      intro he
      exact hnot (pageIndex_injective (h.aligned q hq) ha.aligned (h.lower q hq) ha.lower he ▸ hq)
    rw [update_of_ne hne]
    exact h.ref q hq

lemma freed (hp : p ∈ out) (he : Pmem.free p ph = .ok ((), ph')) :
    ∃ free', Stocked ph' free' (out.erase p) := by
  obtain ⟨k, hf⟩ := Pmem.free_ok he
  have href := h.ref p hp
  have hinv : PmemInv ph free fun n => ∃ q ∈ out.erase p, q / PGSIZE = n :=
    h.pmem.mono fun n ⟨q, hq, hn⟩ => ⟨q, List.mem_of_mem_erase hq, hn⟩
  have hmem : ∀ q ∈ out.erase p, q ∈ out ∧ q ≠ p := by
    intro q hq
    exact ⟨List.mem_of_mem_erase hq, fun he => h.nodup.not_mem_erase (he ▸ hq)⟩
  obtain ⟨free', hinv', hkeep, hnew, hin⟩ := hf.inv hinv (by
    rintro ⟨q, hq, he⟩
    obtain ⟨hq, hne⟩ := hmem q hq
    exact hne (div_injective (h.aligned q hq) hf.aligned he))
  have hp' := hin href
  -- The list of the region has one more page, the other list is the same.
  have hlen : ∀ k', (free' k').length = (free k').length + if k' = k then 1 else 0 := by
    intro k'
    by_cases hk : k' = k
    · subst hk
      have hperm : (free' k').Perm (p :: free k') := by
        apply (List.perm_ext_iff_of_nodup (hinv'.nodup k') (List.nodup_cons.mpr ⟨hf.not_mem h.pmem, h.pmem.nodup k'⟩)).mpr
        intro a
        rw [List.mem_cons]
        constructor
        · intro ha
          exact (hnew k' a ha).symm
        · rintro (rfl | ha)
          · exact hp'
          · exact hkeep k' a ha
      rw [if_pos rfl, hperm.length_eq, List.length_cons]
    · have hperm : (free' k').Perm (free k') := by
        apply (List.perm_ext_iff_of_nodup (hinv'.nodup k') (h.pmem.nodup k')).mpr
        intro a
        constructor
        · intro ha
          rcases hnew k' a ha with ha' | rfl
          · exact ha'
          · exact absurd ha (hinv'.disjoint (Ne.symm hk) hp')
        · exact hkeep k' a
      rw [if_neg hk, hperm.length_eq, Nat.add_zero]
  have hstate := hf.state
  rw [if_pos (by omega)] at hstate
  refine ⟨free', hinv', fun k' => ?_, fun k' a ha => ?_, h.nodup.erase p, ?_, ?_, ?_, fun q hq => ?_⟩
  · rw [hstate.2, hlen k']
    by_cases hk : k' = k
    · subst hk
      rw [update_self, if_pos rfl]
      dsimp only
      rw [h.count k']
    · rw [update_of_ne hk, if_neg hk, h.count k', Nat.add_zero]
  · rcases hnew k' a ha with ha | rfl
    · exact h.slot k' a ha
    · exact h.index a hp
  · exact fun q hq => h.aligned q (hmem q hq).1
  · exact fun q hq => h.lower q (hmem q hq).1
  · exact fun q hq => h.index q (hmem q hq).1
  · obtain ⟨hq, hne⟩ := hmem q hq
    have hidx : pageIndex q ≠ pageIndex p := by
      intro he
      exact hne (pageIndex_injective (h.aligned q hq) hf.aligned (h.lower q hq) hf.lower he)
    rw [hf.ref, update_of_ne hidx]
    exact h.ref q hq

lemma write (hmem : ∀ n, (∀ p ∈ out, p / PGSIZE ≠ n) → ph'.mem n = ph.mem n)
    (hr : ph'.region = ph.region) (hc : ph'.pageRef = ph.pageRef) : Stocked ph' free out := by
  refine ⟨h.pmem.congr (fun k a ha => ?_) hr hc h.pmem.unused, fun k => ?_, h.slot, h.nodup, h.aligned, h.lower, h.index, ?_⟩
  · rw [hmem]
    intro p hp he
    exact h.pmem.unused k a ha ⟨p, hp, he⟩
  · rw [hr, h.count k]
  · rw [hc]
    exact h.ref

end

lemma run (h : Stocked ph₀ free []) (hr : AllocRun ph₀ ph out) : ∃ free', Stocked ph free' out := by
  induction hr with
  | start => exact ⟨free, h⟩
  | alloc _ he ih =>
    obtain ⟨free', h'⟩ := ih
    exact h'.alloc he
  | free _ hp he ih =>
    obtain ⟨free', h'⟩ := ih
    exact h'.freed hp he
  | write _ hmem hreg hc ih =>
    obtain ⟨free', h'⟩ := ih
    exact ⟨free', h'.write hmem hreg hc⟩

end Stocked

/-! ### Setting up the regions -/

namespace Pmem

variable {P : Profile} {ph ph' : Phys}

lemma alignUp_eq_pages {σ : Type} {v : Nat} (h : v + 4095 < 2 ^ 64) :
    (alignUp P v : K σ Nat) = pure ((v + 4095) / 4096 * PGSIZE) := by
  unfold alignUp
  rw [addW_of_lt P (show v + PGMASK < 2 ^ 64 from h)]
  show (pure (alignDown (v + 4095)) : K σ Nat) = _
  rw [alignDown_eq]
  rfl

lemma init_stocked {k : Bool} {begin fin : Nat} (hpos : 0 < begin) (hb : begin + 8191 < 2 ^ 64) (hf : fin / 4096 * 4096 + 4096 < 2 ^ 64) :
    ∃ head ph', init P k begin fin ph = .ok ((), ph') ∧
      Chain (freeNext ph'.mem) head (pagesDown ((begin + 4095) / 4096) (fin / 4096 - (begin + 4095) / 4096)) ∧
      ph'.region = update ph.region k
        ⟨(begin + 4095) / 4096 * PGSIZE, fin / 4096 * PGSIZE, head, fin / 4096 - (begin + 4095) / 4096⟩ ∧
      (∀ x, x < (begin + 4095) / 4096 ∨ fin / 4096 ≤ x → ph'.mem x = ph.mem x) ∧ ph'.pageRef = ph.pageRef := by
  unfold init
  rw [alignUp_eq_pages (by omega), K.bind_of_ok (K.pure_apply _ ph)]
  dsimp only
  rw [alignDown_eq, show fin / 4096 * 4096 = fin / 4096 * PGSIZE from rfl]
  generalize hc : (begin + 4095) / 4096 = c
  generalize he : fin / 4096 = e at *
  obtain ⟨hn, hcpos, hclt, helt, hfuel⟩ : e - c = (e * PGSIZE - c * PGSIZE) / PGSIZE ∧ 0 < c * PGSIZE ∧
      c * PGSIZE + PGSIZE < 2 ^ 64 ∧ e * PGSIZE + PGSIZE < 2 ^ 64 ∧ e - c < e * PGSIZE / PGSIZE + 1 := by
    unfold PGSIZE
    omega
  obtain ⟨head, ph', hrun, hch, hr, href, hmem⟩ := @initFrom_ok P ph (e * PGSIZE) (e - c) _ (c * PGSIZE) none [] 0 hn
    (Nat.mul_mod_left c PGSIZE) hcpos hclt helt hfuel (Chain.nil.mpr rfl) nofun
  rw [List.append_nil, ← pagesDown_eq] at hch
  rw [Nat.zero_add] at hrun
  refine ⟨head, _, K.bind_of_ok hrun, hch, ?_, fun x hx => hmem x fun a ha => ?_, href⟩
  · show update ph'.region k _ = _
    rw [hr]
  · rw [← List.mem_reverse, ← pagesDown_eq] at ha
    obtain ⟨y, hlo, hlt, rfl⟩ := mem_pagesDown.mp ha
    rw [div_mul_PGSIZE]
    omega

/-- The end of memory is in the last page of the address space: the loop never gets past its last page. -/
lemma initFrom_error {fuel c count : Nat} {head : Option Nat} (hc : c < 2 ^ 52) :
    ∃ e, initFrom P ((2 ^ 52 - 1) * PGSIZE) fuel (c * PGSIZE) head count ph = .error e := by
  induction fuel generalizing c head ph count with
  | zero => exact ⟨.diverge, rfl⟩
  | succ fuel ih =>
    rw [initFrom]
    by_cases hsum : c * PGSIZE + PGSIZE < 2 ^ 64
    · rw [addW_of_lt P hsum, K.bind_of_ok (K.pure_apply _ ph), if_pos (by unfold PGSIZE at *; omega),
        K.bind_of_ok (K.modify_apply _ ph), show c * PGSIZE + PGSIZE = (c + 1) * PGSIZE by unfold PGSIZE; omega]
      exact ih (by unfold PGSIZE at hsum; omega)
    · have hlast : c * PGSIZE + PGSIZE = 2 ^ 64 := by
        unfold PGSIZE at *
        omega
      cases P with
      | dev =>
        refine ⟨.overflow, K.bind_of_error ?_⟩
        unfold addW
        rw [hlast]
        rfl
      | release =>
        have hadd : addW .release 64 (c * PGSIZE) PGSIZE ph = .ok (0 * PGSIZE, ph) := by
          unfold addW
          rw [hlast]
          rfl
        rw [K.bind_of_ok hadd, if_pos (by unfold PGSIZE; omega), K.bind_of_ok (K.modify_apply _ ph)]
        exact ih (by decide)

lemma and_page (x : Nat) : x * PGSIZE &&& (PGSIZE - 1) = 0 := by
  rw [show PGSIZE - 1 = 2 ^ 12 - 1 from rfl, Nat.and_two_pow_sub_one_eq_mod]
  exact Nat.mul_mod_left x 4096

end Pmem

/-- The regions as `initialize_regions` leaves them: the kernel region starts behind the image and has at most
`KERN_PAGES` pages, the user region has the rest. -/
structure RegionsSet (ph : Phys) (a m u : Nat) : Prop where
  kernel : (ph.region true).lower = a * PGSIZE ∧ (ph.region true).upper = min (a + KERN_PAGES) m * PGSIZE
  user : (ph.region false).lower = u * PGSIZE ∧ (ph.region false).upper = m * PGSIZE
  above : min (a + KERN_PAGES) m ≤ u
  next : a + KERN_PAGES ≤ m → u = a + KERN_PAGES
  count : (ph.region true).allocable = min (a + KERN_PAGES) m - a ∧ (ph.region false).allocable = m - u
  chain : Chain (freeNext ph.mem) (ph.region true).head (pagesDown a (min (a + KERN_PAGES) m - a)) ∧
    Chain (freeNext ph.mem) (ph.region false).head (pagesDown u (m - u))

namespace KernelImage

variable {P : Profile} {ph ph' : Phys} (img : KernelImage)

/-- The first page behind the image. -/
def firstPage : Nat := (img.bssEnd + 4095) / 4096

lemma allocStart_page : img.allocStart = img.firstPage * PGSIZE := img.allocStart_eq

lemma firstPage_bounds : 0x80200 ≤ img.firstPage ∧ img.firstPage < 2 ^ 44 := by
  have hs := img.start
  have hb := img.bound
  have he := img.allocStart_eq
  unfold firstPage
  omega

variable {size : Nat}

lemma initializeRegions_eq (hbeyond : img.allocStart < 0x80000000 + size) (hsize : 0x80000000 + size < 2 ^ 64) :
    Pmem.initializeRegions P img (some ⟨0x80000000, size⟩) ph = (do
      Pmem.init P true (img.firstPage * PGSIZE) (min ((img.firstPage + KERN_PAGES) * PGSIZE) (0x80000000 + size))
      Pmem.init P false (min ((img.firstPage + KERN_PAGES) * PGSIZE) (0x80000000 + size)) (0x80000000 + size)
      let ph ← get
      K.panicIf (P = .dev ∧ ∃ k, (ph.region k).lower &&& (PGSIZE - 1) ≠ 0 ∨ (ph.region k).upper &&& (PGSIZE - 1) ≠ 0)
        .debugAssert : K Phys Unit) ph := by
  have hpage := img.allocStart_page
  obtain ⟨hlo, hhi⟩ := img.firstPage_bounds
  have hstart := img.start
  have hbss : img.bssEnd + 4095 < 2 ^ 64 := by
    unfold firstPage at hhi
    omega
  have hkern : img.firstPage * PGSIZE + KERN_PAGES * PGSIZE + 4095 < 2 ^ 64 := by
    unfold PGSIZE KERN_PAGES
    omega
  have hsplit : (img.firstPage * PGSIZE + KERN_PAGES * PGSIZE + 4095) / 4096 * PGSIZE = (img.firstPage + KERN_PAGES) * PGSIZE := by
    unfold PGSIZE KERN_PAGES
    omega
  unfold Pmem.initializeRegions
  rw [Pmem.alignUp_eq_pages hbss, K.bind_of_ok (K.pure_apply _ ph)]
  dsimp only [Option.getD_some]
  rw [addW_of_lt P hsize, K.bind_of_ok (K.pure_apply _ ph), show (img.bssEnd + 4095) / 4096 = img.firstPage from rfl,
    ← hpage, K.bind_of_ok (K.panicIf_of_not (by omega)), K.bind_of_ok (K.panicIf_of_not (by omega)), hpage,
    K.bind_of_ok (K.panicIf_of_not fun h => h.2 (Pmem.and_page _)), addW_of_lt P (by omega), K.bind_of_ok (K.pure_apply _ ph),
    Pmem.alignUp_eq_pages hkern, K.bind_of_ok (K.pure_apply _ ph), hsplit]
  have hmin : (if 0x80000000 + size < (img.firstPage + KERN_PAGES) * PGSIZE then 0x80000000 + size
      else (img.firstPage + KERN_PAGES) * PGSIZE) = min ((img.firstPage + KERN_PAGES) * PGSIZE) (0x80000000 + size) := by
    split_ifs <;> omega
  have hle : ¬min ((img.firstPage + KERN_PAGES) * PGSIZE) (0x80000000 + size) < img.firstPage * PGSIZE := by
    rw [hpage] at hbeyond
    unfold PGSIZE KERN_PAGES at *
    omega
  rw [hmin, if_neg hle]

lemma initializeRegions_ok (hbeyond : img.allocStart < 0x80000000 + size)
    (hsize : (0x80000000 + size) / 4096 * 4096 + 4096 < 2 ^ 64) :
    ∃ ph' u, Pmem.initializeRegions P img (some ⟨0x80000000, size⟩) ph = .ok ((), ph') ∧
      RegionsSet ph' img.firstPage ((0x80000000 + size) / 4096) u ∧ ph'.pageRef = ph.pageRef := by
  have hpage := img.allocStart_page
  obtain ⟨hlo, hhi⟩ := img.firstPage_bounds
  rw [img.initializeRegions_eq hbeyond (by omega)]
  rw [hpage] at hbeyond
  generalize hmem : 0x80000000 + size = memEnd at *
  generalize hfirst : img.firstPage = a at *
  generalize hsp : min ((a + KERN_PAGES) * PGSIZE) memEnd = sp
  have hbounds : (0 < a * PGSIZE ∧ a * PGSIZE + 8191 < 2 ^ 64) ∧
      (0 < sp ∧ sp + 8191 < 2 ^ 64 ∧ sp / 4096 * 4096 + 4096 < 2 ^ 64) ∧ min (a + KERN_PAGES) (memEnd / 4096) ≤ (sp + 4095) / 4096 ∧
      sp / 4096 = min (a + KERN_PAGES) (memEnd / 4096) ∧
      (a + KERN_PAGES ≤ memEnd / 4096 → (sp + 4095) / 4096 = a + KERN_PAGES) := by
    unfold PGSIZE KERN_PAGES at *
    omega
  obtain ⟨⟨hapos, halt⟩, ⟨hspos, hslt, hsend⟩, habove, hsplit, hnext⟩ := hbounds
  obtain ⟨head1, ph1, hrun1, hch1, hreg1, hmem1, href1⟩ := @Pmem.init_stocked P ph true (a * PGSIZE) sp hapos halt hsend
  obtain ⟨head2, ph2, hrun2, hch2, hreg2, hmem2, href2⟩ := @Pmem.init_stocked P ph1 false sp memEnd hspos hslt hsize
  have hfirst' : (a * PGSIZE + 4095) / 4096 = a := by
    unfold PGSIZE
    omega
  rw [hfirst', hsplit] at hch1 hreg1
  have htrue : ph2.region true = ⟨a * PGSIZE, min (a + KERN_PAGES) (memEnd / 4096) * PGSIZE, head1,
      min (a + KERN_PAGES) (memEnd / 4096) - a⟩ := by
    rw [hreg2, update_of_ne (by decide), hreg1, update_self]
  have hfalse : ph2.region false = ⟨(sp + 4095) / 4096 * PGSIZE, memEnd / 4096 * PGSIZE, head2,
      memEnd / 4096 - (sp + 4095) / 4096⟩ := by
    rw [hreg2, update_self]
  refine ⟨ph2, (sp + 4095) / 4096, ?_, ⟨?_, ?_, habove, hnext, ?_, ?_⟩, href2.trans href1⟩
  · rw [K.bind_of_ok hrun1, K.bind_of_ok hrun2, K.bind_of_ok (K.get_apply ph2)]
    refine K.panicIf_of_not ?_
    rintro ⟨-, k, hk⟩
    cases k
    · rw [hfalse] at hk
      exact hk.elim (fun h => h (Pmem.and_page _)) fun h => h (Pmem.and_page _)
    · rw [htrue] at hk
      exact hk.elim (fun h => h (Pmem.and_page _)) fun h => h (Pmem.and_page _)
  · rw [htrue]
    exact ⟨rfl, rfl⟩
  · rw [hfalse]
    exact ⟨rfl, rfl⟩
  · rw [htrue, hfalse]
    exact ⟨rfl, rfl⟩
  · rw [htrue, hfalse]
    refine ⟨hch1.congr fun p hp => ?_, hch2⟩
    obtain ⟨x, -, hx, rfl⟩ := mem_pagesDown.mp hp
    unfold freeNext
    rw [div_mul_PGSIZE, hmem2 x (by omega)]

/-- Memory that ends in the last page of the address space cannot be linked, and one that ends beyond is refused. -/
lemma initializeRegions_error (hsize : size < 2 ^ 64) (hhigh : 2 ^ 64 ≤ (0x80000000 + size) / 4096 * 4096 + 4096) :
    ∃ e, Pmem.initializeRegions P img (some ⟨0x80000000, size⟩) ph = .error e := by
  have hpage := img.allocStart_page
  obtain ⟨hlo, hhi⟩ := img.firstPage_bounds
  have hstart := img.start
  by_cases hlt : 0x80000000 + size < 2 ^ 64
  · have hbeyond : img.allocStart < 0x80000000 + size := by
      have hb := img.bound
      omega
    rw [img.initializeRegions_eq hbeyond hlt]
    clear hpage hbeyond
    generalize hmem : 0x80000000 + size = memEnd at *
    generalize hfirst : img.firstPage = a at *
    obtain ⟨hmin, hbounds⟩ : min ((a + KERN_PAGES) * PGSIZE) memEnd = (a + KERN_PAGES) * PGSIZE ∧
        (0 < a * PGSIZE ∧ a * PGSIZE + 8191 < 2 ^ 64) ∧ (a + KERN_PAGES) * PGSIZE + 4095 < 2 ^ 64 ∧
        (a + KERN_PAGES) * PGSIZE / 4096 * 4096 + 4096 < 2 ^ 64 ∧ ((a + KERN_PAGES) * PGSIZE + 4095) / 4096 = a + KERN_PAGES ∧
        memEnd / 4096 * 4096 = (2 ^ 52 - 1) * PGSIZE ∧ a + KERN_PAGES < 2 ^ 52 := by
      unfold PGSIZE KERN_PAGES
      omega
    obtain ⟨⟨hapos, halt⟩, hslt, hsend, hsplit, hend, hlast⟩ := hbounds
    rw [hmin]
    obtain ⟨head1, ph1, hrun1, -⟩ := @Pmem.init_stocked P ph true (a * PGSIZE) ((a + KERN_PAGES) * PGSIZE) hapos
      halt hsend
    obtain ⟨e, herr⟩ := @Pmem.initFrom_error P ph1 (memEnd / 4096 * 4096 / PGSIZE + 1) (a + KERN_PAGES) 0 none hlast
    refine ⟨e, ?_⟩
    rw [K.bind_of_ok hrun1]
    refine K.bind_of_error ?_
    unfold Pmem.init
    rw [Pmem.alignUp_eq_pages hslt, K.bind_of_ok (K.pure_apply _ ph1), hsplit]
    dsimp only
    rw [alignDown_eq]
    rw [hend] at herr ⊢
    exact K.bind_of_error herr
  · have hbss : img.bssEnd + 4095 < 2 ^ 64 := by
      unfold firstPage at hhi
      omega
    unfold Pmem.initializeRegions
    rw [Pmem.alignUp_eq_pages hbss, K.bind_of_ok (K.pure_apply _ ph)]
    dsimp only [Option.getD_some]
    cases P with
    | dev =>
      refine ⟨.overflow, K.bind_of_error ?_⟩
      unfold addW
      rw [if_neg hlt]
      rfl
    | release =>
      have hadd : addW .release 64 0x80000000 size ph = .ok ((0x80000000 + size) % 2 ^ 64, ph) := by
        unfold addW
        rw [if_neg hlt]
        rfl
      refine ⟨.kernelBeyondMemory, ?_⟩
      rw [K.bind_of_ok hadd]
      refine K.bind_of_error (K.panicIf_eq_error.mpr ⟨?_, rfl⟩)
      rw [show (img.bssEnd + 4095) / 4096 = img.firstPage from rfl]
      clear hpage
      unfold PGSIZE
      omega

end KernelImage

/-- `initialize_regions` succeeds, the regions lie apart within memory, and from then on `allocate` returns a page
exactly if one is left. -/
structure RegionsWork (P : Profile) (img : KernelImage) (size : Nat) (ph ph' : Phys) : Prop where
  returns : Pmem.initializeRegions P img (some ⟨0x80000000, size⟩) ph = .ok ((), ph')
  aligned : ∀ k, PGSIZE ∣ (ph'.region k).lower ∧ PGSIZE ∣ (ph'.region k).upper
  disjoint : ∀ pa, (ph'.region true).contains pa = true → (ph'.region false).contains pa = false
  inside : ∀ k pa, (ph'.region k).contains pa = true → 0x80000000 ≤ pa ∧ pa < 0x80000000 + size
  slots : ∀ k p, ph'.OnFree k p → pageIndex p < TOTAL_PAGES
  allocates : ∀ ph'' out k, AllocRun ph' ph'' out → Allocates ph'' k

namespace RegionsSet

variable {ph : Phys} {a m u : Nat}

def pages (a m u : Nat) (k : Bool) : List Nat :=
  if k then pagesDown a (min (a + KERN_PAGES) m - a) else pagesDown u (m - u)

lemma mem_pages (h : RegionsSet ph a m u) {k : Bool} {p : Nat} (hp : p ∈ pages a m u k) :
    ∃ x, p = x * PGSIZE ∧ a ≤ x ∧ x < m ∧ (ph.region k).lower ≤ p ∧ p < (ph.region k).upper := by
  have hpos : ∀ {x y : Nat}, x < y → x * PGSIZE < y * PGSIZE := fun hlt => Nat.mul_lt_mul_of_pos_right hlt (by decide)
  have habove := h.above
  cases k with
  | true =>
    obtain ⟨x, hlo, hlt, rfl⟩ := mem_pagesDown.mp hp
    rw [h.kernel.1, h.kernel.2]
    exact ⟨x, rfl, hlo, by omega, Nat.mul_le_mul_right _ hlo, hpos (by omega)⟩
  | false =>
    obtain ⟨x, hlo, hlt, rfl⟩ := mem_pagesDown.mp hp
    rw [h.user.1, h.user.2]
    exact ⟨x, rfl, by omega, by omega, Nat.mul_le_mul_right _ hlo, hpos (by omega)⟩

lemma pmem (h : RegionsSet ph a m u) (ha : 0x80200 ≤ a) (hm : a ≤ m) (href : ∀ i, ph.pageRef i = 0) :
    PmemInv ph (pages a m u) fun n => ∃ p ∈ ([] : List Nat), p / PGSIZE = n := by
  refine ⟨fun k => ?_, fun k => ?_, fun k p hp => ?_, fun k p hp => ?_, fun k p _ => href _, fun k p _ => nofun, ?_, ?_⟩
  · cases k
    · exact h.chain.2
    · exact h.chain.1
  · cases k
    · exact nodup_pagesDown _ _
    · exact nodup_pagesDown _ _
  · obtain ⟨x, rfl, -⟩ := h.mem_pages hp
    exact Nat.mul_mod_left _ _
  · obtain ⟨x, -, -, -, hb⟩ := h.mem_pages hp
    exact hb
  · rw [h.kernel.1]
    unfold PHY_MEM_START PGSIZE
    omega
  · rw [h.kernel.1, h.kernel.2, h.user.1]
    have habove := h.above
    exact ⟨Nat.mul_le_mul_right _ (by omega), Nat.mul_le_mul_right _ habove⟩

lemma stocked (h : RegionsSet ph a m u) (ha : 0x80200 ≤ a) (hm : a ≤ m) (href : ∀ i, ph.pageRef i = 0)
    (hslot : m ≤ 0x88000 ∨ m ≤ a) : Stocked ph (pages a m u) [] := by
  refine ⟨h.pmem ha hm href, fun k => ?_, fun k p hp => ?_, List.nodup_nil, nofun, nofun, nofun, nofun⟩
  · cases k
    · exact h.count.2.trans (length_pagesDown _ _).symm
    · exact h.count.1.trans (length_pagesDown _ _).symm
  · obtain ⟨x, rfl, hlo, hlt, -⟩ := h.mem_pages hp
    unfold pageIndex PHY_MEM_START TOTAL_PAGES PGSIZE
    omega

lemma exists_pages (h : RegionsSet ph a m u) {x : Nat} (hlo : a ≤ x) (hlt : x < m) : ∃ k, x * PGSIZE ∈ pages a m u k := by
  by_cases hx : x < a + KERN_PAGES
  · exact ⟨true, mem_pagesDown.mpr ⟨x, hlo, by omega, rfl⟩⟩
  · have hu := h.next (by omega)
    exact ⟨false, mem_pagesDown.mpr ⟨x, by omega, by omega, rfl⟩⟩

end RegionsSet

/-- The allocator works exactly for memory of up to 128 MiB, or if no page is left behind the kernel image. -/
theorem regions_work_iff (P : Profile) (img : KernelImage) (size : Nat) (hsize : size < 2 ^ 64)
    (hbeyond : img.allocStart < 0x80000000 + size) (ph : Phys) (href : ∀ i, ph.pageRef i = 0) :
    (∃ ph', RegionsWork P img size ph ph') ↔
      size < 128 * 1024 * 1024 + 4096 ∨ (0x80000000 + size) / 4096 * 4096 ≤ img.allocStart := by
  have hpage := img.allocStart_page
  obtain ⟨hlo, hhi⟩ := img.firstPage_bounds
  have hfirst : img.allocStart = img.firstPage * 4096 := hpage
  clear hpage
  constructor
  · rintro ⟨ph', hw⟩
    by_contra hno
    by_cases hlast : (0x80000000 + size) / 4096 * 4096 + 4096 < 2 ^ 64
    · obtain ⟨ph₁, u, hrun, hset, href₁⟩ := @KernelImage.initializeRegions_ok P ph img _ hbeyond hlast
      have hret := hw.returns
      rw [hrun] at hret
      cases hret
      -- The last page of memory has no slot.
      obtain ⟨k, hk⟩ := hset.exists_pages (x := (0x80000000 + size) / 4096 - 1) (by omega) (by omega)
      have hpmem := hset.pmem hlo (by omega) fun i => by rw [href₁, href i]
      have hslot := hw.slots k _ (hpmem.onFree_iff.mpr hk)
      unfold pageIndex PHY_MEM_START TOTAL_PAGES PGSIZE at hslot
      omega
    · obtain ⟨e, herr⟩ := @KernelImage.initializeRegions_error P ph img _ hsize (by omega)
      rw [hw.returns] at herr
      cases herr
  · intro hcase
    have hbound := img.bound
    obtain ⟨ph', u, hrun, hset, href'⟩ := @KernelImage.initializeRegions_ok P ph img _ hbeyond (by omega)
    have hstock := hset.stocked hlo (by omega) (fun i => by rw [href', href i]) (by omega)
    have habove := hset.above
    refine ⟨ph', hrun, fun k => ?_, fun pa hpa => ?_, fun k pa hpa => ?_, fun k p hp => ?_, fun ph'' out k hr => ?_⟩
    · cases k
      · rw [hset.user.1, hset.user.2]
        exact ⟨Nat.dvd_mul_left .., Nat.dvd_mul_left ..⟩
      · rw [hset.kernel.1, hset.kernel.2]
        exact ⟨Nat.dvd_mul_left .., Nat.dvd_mul_left ..⟩
    · unfold AllocRegion.contains at *
      rw [hset.kernel.1, hset.kernel.2, Bool.and_eq_true, decide_eq_true_eq, decide_eq_true_eq] at hpa
      rw [hset.user.1, hset.user.2, Bool.and_eq_false_iff, decide_eq_false_iff_not, decide_eq_false_iff_not]
      have hle := Nat.mul_le_mul_right PGSIZE habove
      omega
    · unfold AllocRegion.contains at hpa
      rw [Bool.and_eq_true, decide_eq_true_eq, decide_eq_true_eq] at hpa
      cases k
      · rw [hset.user.1, hset.user.2] at hpa
        unfold PGSIZE at hpa
        omega
      · rw [hset.kernel.1, hset.kernel.2] at hpa
        unfold PGSIZE at hpa
        omega
    · exact hstock.slot k p (hstock.pmem.onFree_iff.mp hp)
    · obtain ⟨free', hstock'⟩ := hstock.run hr
      exact hstock'.allocates k

/-- An image of one MiB, and memory in which no page is referenced. -/
def smallImage : KernelImage := ⟨0x80300000, 0x80300000, by decide, by decide, by decide⟩

def freshPhys : Phys := ⟨fun _ _ => 0, fun _ => 0, fun _ => ⟨0, 0, none, 0⟩⟩

theorem regions_work_default : ∃ ph', RegionsWork .dev smallImage (128 * 1024 * 1024) freshPhys ph' :=
  (regions_work_iff .dev smallImage (128 * 1024 * 1024) (by decide) (by decide) freshPhys fun _ => rfl).mpr (.inl (by decide))

/-- With 256 MiB the first page of the user region that is handed out has no slot. -/
theorem first_user_page_refused : ∃ ph', Pmem.initializeRegions .dev smallImage (some ⟨0x80000000, 256 * 1024 * 1024⟩) freshPhys =
    .ok ((), ph') ∧ (ph'.region false).allocable ≠ 0 ∧ Pmem.allocate false ph' = .error .paTooHigh := by
  obtain ⟨ph', u, hrun, hset, -⟩ := @KernelImage.initializeRegions_ok .dev freshPhys smallImage (256 * 1024 * 1024)
    (by decide) (by decide)
  have hm : (0x80000000 + 256 * 1024 * 1024) / 4096 = 0x90000 := by decide
  have ha : smallImage.firstPage = 0x80300 := by decide
  rw [hm, ha] at hset
  have hu : u = 0x82300 := hset.next (by decide)
  have hchain := hset.chain.2
  rw [hu, show 0x90000 - 0x82300 = 0xDCFF + 1 from rfl, pagesDown, Chain.cons] at hchain
  refine ⟨ph', hrun, ?_, ?_⟩
  · rw [hset.count.2, hu]
    decide
  · unfold Pmem.allocate
    rw [K.bind_of_ok (K.get_apply ph'), hchain.1]
    dsimp only
    rw [K.bind_of_ok (K.set_apply _ _)]
    refine K.bind_of_error ?_
    unfold Pmem.paToIndex
    rw [K.bind_of_ok (K.panicIf_of_not (by decide))]
    exact K.bind_of_error (K.panicIf_eq_error.mpr ⟨by decide, rfl⟩)

end Glenda.Mem
