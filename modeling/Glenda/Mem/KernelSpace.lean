import Glenda.Mem.Holders
import Glenda.Mem.KernelStack
import Glenda.Mem.PageTableRuns

/-!
# The page table of the kernel

The kernel owns the pages of the kernel stacks, which lie in an area of their own below the trampoline. The
leaves outside of the area map memory where it is, and own nothing.
-/

namespace Glenda.Mem
open Glenda.Lib

namespace KernelVm

/-- The first page of the area of the kernel stacks. -/
def stackFirst : Nat := KSTACK_VA_BASE / PGSIZE

/-- The page of the trampoline is the last one below `VA_MAX`. -/
def trampPage : Nat := VA_MAX / PGSIZE - 1

def stackArea (q : Nat) : Prop := stackFirst ≤ q ∧ q < trampPage

/-- The pages of the kernel stack of a process id. -/
def stackOf (pid q : Nat) : Prop := stackFirst + 4 * pid ≤ q ∧ q < stackFirst + 4 * pid + 4

def kernelOwn (q : Nat) (_ : Entry) : Prop := stackArea q

/-- The table of the kernel: the page of the trampoline is mapped, and is in neither region. -/
structure KernelTable (ph : Phys) (kpt : Nat) (node : List Nat → Option Nat) (m : PageMap) (used : Nat → Prop) : Prop where
  space : Space ph kpt node m kernelOwn used
  tramp : ∃ e, m trampPage = some e ∧ ∀ k, ¬ph.InRegion k e.ppn

lemma stackFirst_eq : stackFirst = 2 ^ 26 - 2 ^ 16 := by decide

lemma trampPage_eq : trampPage = 2 ^ 26 - 1 := by decide

lemma stackOf_area {pid q : Nat} (hpid : pid + 1 < 2 ^ 14) (hq : stackOf pid q) : stackArea q := by
  unfold stackOf at hq
  unfold stackArea
  rw [stackFirst_eq] at *
  rw [trampPage_eq]
  omega

lemma stackOf_inj {pid pid' q : Nat} (h : stackOf pid q) (h' : stackOf pid' q) : pid = pid' := by
  unfold stackOf at h h'
  omega

lemma kstackVa_eq {pid i : Nat} : KSTACK_VA_BASE + pid * KSTACK_SIZE + i * PGSIZE = (stackFirst + 4 * pid + i) * PGSIZE := by
  have hbase : KSTACK_VA_BASE = stackFirst * PGSIZE := by decide
  have hsize : KSTACK_SIZE = 4 * PGSIZE := rfl
  rw [hbase, hsize]
  unfold PGSIZE
  omega

variable {P : Profile} {ph ph' : Phys} {kpt pid i : Nat} {node : List Nat → Option Nat} {m : PageMap} {used : Nat → Prop}
  {u : PUnit}

/-- The body of the loop of `alloc_kstack`. -/
def allocPage (P : Profile) (kpt pid i : Nat) : K Phys Unit := do
  let va ← addW P 64 (KSTACK_VA_BASE + pid * KSTACK_SIZE) (i * PGSIZE)
  let pa ← Pmem.alloc true
  mappages P kpt va pa PGSIZE (PTE_R ||| PTE_W ||| PTE_A ||| PTE_D)

def freePage (P : Profile) (kpt pid i : Nat) : K Phys Unit := do
  let va ← addW P 64 (KSTACK_VA_BASE + pid * KSTACK_SIZE) (i * PGSIZE)
  unmappages P kpt va PGSIZE true

lemma kstackBase_eq {σ : Type} (hpid : pid < 2 ^ 14) :
    (kstackBase P pid : K σ Nat) = pure (KSTACK_VA_BASE + pid * KSTACK_SIZE) := by
  have hsize : KSTACK_SIZE = 2 ^ 14 := rfl
  have hbase : KSTACK_VA_BASE < 2 ^ 60 := by decide
  unfold kstackBase
  rw [mulW_of_lt P (by rw [hsize]; omega), pure_bind, addW_of_lt P (by rw [hsize]; omega)]

lemma kstackVa_lt (hpid : pid < 2 ^ 14) (hi : i < 4) : KSTACK_VA_BASE + pid * KSTACK_SIZE + i * PGSIZE < 2 ^ 64 := by
  rw [kstackVa_eq, stackFirst_eq]
  unfold PGSIZE
  omega

lemma allocKstack_eq (hpid : pid < 2 ^ 14) : allocKstack P kpt pid = (do
    (List.range 4).forM (allocPage P kpt pid)
    return KSTACK_VA_BASE + pid * KSTACK_SIZE + KSTACK_SIZE) := by
  have htop := kstackVa_lt hpid (show 3 < 4 by decide)
  have hsize : KSTACK_SIZE = 4 * PGSIZE := rfl
  have hlt : KSTACK_VA_BASE + pid * KSTACK_SIZE + KSTACK_SIZE < 2 ^ 64 := by
    have hpid' : pid * KSTACK_SIZE < 2 ^ 28 := by
      rw [hsize]
      unfold PGSIZE
      omega
    have hbase : KSTACK_VA_BASE < 2 ^ 60 := by decide
    have hsmall : KSTACK_SIZE < 2 ^ 15 := by decide
    omega
  unfold allocKstack
  rw [kstackBase_eq hpid, pure_bind, addW_of_lt P hlt]
  rfl

lemma freeKstack_eq (hpid : pid < 2 ^ 14) : freeKstack P kpt pid = (List.range 4).forM (freePage P kpt pid) := by
  unfold freeKstack
  rw [kstackBase_eq hpid, pure_bind]
  rfl

end KernelVm

namespace Space

variable {P : Profile} {ph ph' : Phys} {table : Nat} {node : List Nat → Option Nat} {m : PageMap}
  {own own' : Nat → Entry → Prop} {used : Nat → Prop}

lemma restrict (h : Space ph table node m own used) (ho : ∀ q e, own' q e → own q e) : Space ph table node m own' used :=
  ⟨h.toPtInv, fun q e hm hq => h.leaf q e hm (ho q e hq), fun q q' e e' hm hm' hq hq' =>
    h.unique q q' e e' hm hm' (ho q e hq) (ho q' e' hq'), fun q e s hm hq => h.apart q e s hm (ho q e hq)⟩

lemma allocMap {k b : Bool} {q pa flags : Nat} {ph1 : Phys} (h : Space ph table node m own used) (hf : isLeaf flags = true)
    (hq : q < 2 ^ 26) (hleaf : ∀ e, m q = some e → used e.ppn ∨ ¬ph.InRegion k e.ppn)
    (ha : Pmem.alloc k ph = .ok (pa, ph1)) (he : PageTable.map P table (q * PGSIZE) pa PGSIZE flags ph1 = .ok (b, ph')) :
    b = decide (m q = none) := by
  have hnone : Space ph table node m (fun _ _ => False) used := h.restrict fun _ _ h => h.elim
  obtain ⟨n, rfl, hn, h1⟩ := hnone.alloc ha
  refine (h1.mapPage hf hq (hn.lt.trans (by decide)) (fun e hm heq => ?_) (fun hc => hc.elim) he).1
  rcases hleaf e hm with hu | hreg
  · exact hn.unused (heq ▸ hu)
  · exact hreg (heq ▸ hn.region)

end Space

namespace KernelVm

variable {P : Profile} {ph ph' : Phys} {kpt pid i : Nat} {node : List Nat → Option Nat} {m : PageMap} {used : Nat → Prop}

section

variable (h : KernelTable ph kpt node m used)
include h

lemma KernelTable.used_or {q : Nat} (hq : stackFirst ≤ q) (hlt : q < 2 ^ 26) {e : Entry}
    (hm : m q = some e) : used e.ppn ∨ ¬ph.InRegion true e.ppn := by
  by_cases hqt : q = trampPage
  · obtain ⟨e', hm', hk⟩ := h.tramp
    rw [← hqt, hm] at hm'
    cases hm'
    exact .inr (hk true)
  · have harea : stackArea q := by
      refine ⟨hq, ?_⟩
      rw [trampPage_eq] at *
      omega
    exact .inl (h.space.leaf q e hm harea)

lemma allocPage_ok {u : Unit} (hpid : pid < 2 ^ 14) (hi : i < 4)
    (he : allocPage P kpt pid i ph = .ok (u, ph')) :
    stackFirst + 4 * pid + i < trampPage ∧ m (stackFirst + 4 * pid + i) = none ∧ ∃ node' m' used',
      KernelTable ph' kpt node' m' used' ∧
      Grown ph ph' node node' m m' kernelOwn used used' (· = stackFirst + 4 * pid + i) := by
  unfold allocPage at he
  rw [addW_of_lt P (kstackVa_lt hpid hi), pure_bind, kstackVa_eq] at he
  obtain ⟨pa, ph1, ha, he⟩ := K.bind_ok he
  rw [mappages_eq_ok] at he
  have hlt : stackFirst + 4 * pid + i < 2 ^ 26 := by
    rw [stackFirst_eq]
    omega
  have hleaf : ∀ e, m (stackFirst + 4 * pid + i) = some e → used e.ppn ∨ ¬ph.InRegion true e.ppn :=
    fun e hm => h.used_or (by omega) hlt hm
  have hnone : m (stackFirst + 4 * pid + i) = none := of_decide_eq_true (h.space.allocMap (by decide) hlt hleaf ha he).symm
  have harea : stackFirst + 4 * pid + i < trampPage := by
    obtain ⟨e, hm, -⟩ := h.tramp
    have hne : stackFirst + 4 * pid + i ≠ trampPage := by
      intro heq
      rw [heq, hm] at hnone
      cases hnone
    rw [trampPage_eq] at *
    omega
  obtain ⟨-, -, hgrow⟩ := h.space.growPage (by decide) hlt (fun _ _ _ => ⟨by omega, harea⟩) hleaf ha he
  obtain ⟨node', used', n, -, -, -, hspace, hg⟩ := hgrow hnone
  obtain ⟨e, hm, hk⟩ := h.tramp
  refine ⟨harea, hnone, node', _, used', ⟨hspace, e, ?_, fun k => ?_⟩, hg⟩
  · rw [Function.update_of_ne (by omega), hm]
  · rw [hg.takes.region.inRegion]
    exact hk k

/-- `alloc_kstack` maps the four pages of the stack. -/
theorem allocKstack_ok {top : Nat} (hpid : pid < 2 ^ 40)
    (he : allocKstack P kpt pid ph = .ok (top, ph')) :
    pid + 1 < 2 ^ 14 ∧ top = KSTACK_VA_BASE + pid * KSTACK_SIZE + KSTACK_SIZE ∧ ∃ node' m' used',
      KernelTable ph' kpt node' m' used' ∧ Grown ph ph' node node' m m' kernelOwn used used' (stackOf pid) := by
  have hlt := allocKstack_lt hpid he
  rw [allocKstack_eq hlt] at he
  obtain ⟨u, ph1, hloop, he⟩ := K.bind_ok he
  cases he
  have hinv := K.forM_induct (I := fun done ph1 => (3 ∈ done → stackFirst + 4 * pid + 3 < trampPage) ∧ ∃ node' m' used',
      KernelTable ph1 kpt node' m' used' ∧
      Grown ph ph1 node node' m m' kernelOwn used used' fun q => ∃ i ∈ done, q = stackFirst + 4 * pid + i)
    (fun done i s s' hi hI hs => ?_) hloop
    ⟨fun hc => (by cases hc), node, m, used, h, (Grown.refl ph node m kernelOwn used).congr fun q => by simp⟩
  · obtain ⟨hlast, node', m', used', h', hg⟩ := hinv
    refine ⟨?_, rfl, node', m', used', h', hg.congr fun q => ?_⟩
    · have hthree := hlast (by decide)
      rw [stackFirst_eq, trampPage_eq] at hthree
      omega
    · unfold stackOf
      constructor
      · rintro ⟨i, hi, rfl⟩
        have := List.mem_range.mp hi
        omega
      · intro hq
        exact ⟨q - (stackFirst + 4 * pid), List.mem_range.mpr (by omega), by omega⟩
  · obtain ⟨hlast, node1, m1, used1, h1, hg1⟩ := hI
    obtain ⟨harea, -, node', m', used', h', hg⟩ := allocPage_ok h1 hlt (List.mem_range.mp hi) hs
    refine ⟨fun hmem => ?_, node', m', used', h', (hg1.trans hg).congr fun q => ?_⟩
    · rcases List.mem_append.mp hmem with hmem | hmem
      · exact hlast hmem
      · rw [List.mem_singleton] at hmem
        rw [hmem]
        exact harea
    · simp only [List.mem_append, List.mem_singleton, or_and_right, exists_or, exists_eq_left]

/-- If the pages of the stack are free, only the allocator can fail. -/
theorem allocKstack_error {e : Panic} (hpid : pid + 1 < 2 ^ 14)
    (hnone : ∀ q, stackOf pid q → m q = none) (he : allocKstack P kpt pid ph = .error e) : e ∈ Pmem.allocErrors := by
  have hlt : pid < 2 ^ 14 := by omega
  rw [allocKstack_eq hlt] at he
  rcases K.bind_eq_error.mp he with he | ⟨u, ph1, -, he⟩
  · obtain ⟨done, i, rest, ph1, hl, ⟨node1, m1, used1, h1, hg⟩, he⟩ := K.forM_error (I := fun done ph1 =>
      ∃ node' m' used', KernelTable ph1 kpt node' m' used' ∧
        Grown ph ph1 node node' m m' kernelOwn used used' fun q => ∃ i ∈ done, q = stackFirst + 4 * pid + i)
      (fun done i s s' hi hI hs => by
        obtain ⟨node1, m1, used1, h1, hg1⟩ := hI
        obtain ⟨-, -, node', m', used', h', hg⟩ := allocPage_ok h1 hlt (List.mem_range.mp hi) hs
        exact ⟨node', m', used', h', (hg1.trans hg).congr fun q => by
          simp only [List.mem_append, List.mem_singleton, or_and_right, exists_or, exists_eq_left]⟩) he
      ⟨node, m, used, h, (Grown.refl ph node m kernelOwn used).congr fun q => by simp⟩
    have hi : i < 4 := by
      rw [← List.mem_range, hl]
      simp
    have hnew : ∀ j ∈ done, j ≠ i := by
      have hnodup : (done ++ i :: rest).Nodup := hl ▸ List.nodup_range
      rintro j hj rfl
      exact (List.nodup_append.mp hnodup).2.2 j hj j List.mem_cons_self rfl
    have hfree : m1 (stackFirst + 4 * pid + i) = none := by
      rw [hg.old _ fun hc => ?_]
      · exact hnone _ ⟨by omega, by omega⟩
      · obtain ⟨j, hj, heq⟩ := hc
        exact hnew j hj (by omega)
    have hq : stackFirst + 4 * pid + i < 2 ^ 26 := by
      rw [stackFirst_eq]
      omega
    unfold allocPage at he
    rw [addW_of_lt P (kstackVa_lt hlt hi), pure_bind, kstackVa_eq] at he
    rcases K.bind_eq_error.mp he with he | ⟨pa, ph2, ha, he⟩
    · exact Pmem.alloc_error he
    · obtain ⟨free, hp⟩ := h1.space.pmem
      obtain ⟨n, rfl, hn, -⟩ := Pmem.alloc_fresh hp ha
      unfold mappages at he
      rcases K.bind_eq_error.mp he with he | ⟨b, ph3, hmap, he⟩
      · refine PtCall.exec_error (c := .map ((stackFirst + 4 * pid + i) * PGSIZE) (n * PGSIZE) PGSIZE _) ?_ he
        have := hn.lt
        refine ⟨?_, ?_, by decide⟩
        · unfold PGSIZE VA_MAX
          omega
        · unfold PGSIZE
          omega
      · have hb := h1.space.allocMap (by decide) hq (fun e hm => by rw [hfree] at hm; cases hm) ha hmap
        rw [decide_eq_true hfree] at hb
        rw [hb] at he
        cases he
  · cases he

/-- `free_kstack` gives the four pages of the stack back. -/
theorem freeKstack_ok {u : Unit} (hpid : pid + 1 < 2 ^ 14)
    (he : freeKstack P kpt pid ph = .ok (u, ph')) :
    ∃ m' used', KernelTable ph' kpt node m' used' ∧ Shrunk ph ph' node m m' kernelOwn used used' (stackOf pid) := by
  rw [freeKstack_eq (by omega)] at he
  have hinv := K.forM_induct (I := fun done ph1 => ∃ m' used', KernelTable ph1 kpt node m' used' ∧
      Shrunk ph ph1 node m m' kernelOwn used used' fun q => ∃ i ∈ done, q = stackFirst + 4 * pid + i)
    (fun done i s s' hi hI hs => ?_) he
    ⟨m, used, h, (Shrunk.refl ph node m kernelOwn used).congr fun q => by simp⟩
  · obtain ⟨m', used', h', hs⟩ := hinv
    refine ⟨m', used', h', hs.congr fun q => ?_⟩
    unfold stackOf
    constructor
    · rintro ⟨i, hi, rfl⟩
      have := List.mem_range.mp hi
      omega
    · intro hq
      exact ⟨q - (stackFirst + 4 * pid), List.mem_range.mpr (by omega), by omega⟩
  · obtain ⟨m1, used1, h1, hs1⟩ := hI
    have hi := List.mem_range.mp hi
    have hq : stackArea (stackFirst + 4 * pid + i) := stackOf_area hpid ⟨by omega, by omega⟩
    have hlt : stackFirst + 4 * pid + i + 1 ≤ 2 ^ 26 := by
      have := hq.2
      rw [trampPage_eq] at this
      omega
    unfold freePage at hs
    rw [addW_of_lt P (kstackVa_lt (by omega) hi), pure_bind, kstackVa_eq, unmappages_eq_ok] at hs
    obtain ⟨k, hk, hb, -, m', used', hspace, hsh⟩ := h1.space.unmap (n := 1) (by decide) hlt
      (fun q e hq1 hq2 _ => by rw [show q = stackFirst + 4 * pid + i by omega]; exact hq) (by rw [Nat.one_mul]; exact hs)
    obtain rfl : k = 1 := of_decide_eq_true hb.symm
    obtain ⟨e, hm, hreg⟩ := h1.tramp
    refine ⟨m', used', ⟨hspace, e, ?_, fun k => ?_⟩, (hs1.trans hsh).congr fun q => ?_⟩
    · rw [hsh.old _ fun hc => ?_, hm]
      have := hq.2
      omega
    · rw [hsh.gives.region.inRegion]
      exact hreg k
    · simp only [List.mem_append, List.mem_singleton, or_and_right, exists_or, exists_eq_left]
      exact or_congr_right (by omega)

end

end KernelVm

end Glenda.Mem
