import Glenda.Mem.PageTable

/-!
# Kernel stacks

Model of `mappages`, `unmappages`, `alloc_kstack` and `free_kstack` of `mem/vm.rs`. The table of the kernel
is a static page `kpt`.
-/

namespace Glenda.Mem
open Glenda.Lib

namespace KernelVm

variable (P : Profile)

def mappages (table va pa size perm : Nat) : K Phys Unit := do
  if ← PageTable.map P table va pa size perm then return () else throw .vmMappages

def unmappages (table va size : Nat) (free : Bool) : K Phys Unit := do
  if ← PageTable.unmap P table va size free then return () else throw .vmUnmappages

def KSTACK_REGION_SIZE : Nat := 0x10000000
def KSTACK_VA_BASE : Nat := VA_MAX - KSTACK_REGION_SIZE
def KSTACK_SIZE : Nat := PGSIZE * 4

def kstackBase {σ : Type} (procid : Nat) : K σ Nat := do
  addW P 64 KSTACK_VA_BASE (← mulW P 64 procid KSTACK_SIZE)

def allocKstack (kpt pid : Nat) : K Phys Nat := do
  let base ← kstackBase P pid
  (List.range (KSTACK_SIZE / PGSIZE)).forM fun i => do
    let va ← addW P 64 base (i * PGSIZE)
    let pa ← Pmem.alloc true
    mappages P kpt va pa PGSIZE (PTE_R ||| PTE_W ||| PTE_A ||| PTE_D)
  addW P 64 base KSTACK_SIZE

def freeKstack (kpt pid : Nat) : K Phys Unit := do
  let base ← kstackBase P pid
  (List.range (KSTACK_SIZE / PGSIZE)).forM fun i => do
    let va ← addW P 64 base (i * PGSIZE)
    unmappages P kpt va PGSIZE true

end KernelVm

variable {P : Profile} {table kpt pid top : Nat} {ph ph' : Phys}

lemma PageTable.map_lt {va pa flags : Nat} (hva : PGSIZE ∣ va) (hlt : va < 2 ^ 64)
    (he : PageTable.map P table va pa PGSIZE flags ph = .ok (true, ph')) : va < VA_MAX := by
  by_contra hge
  obtain ⟨q, rfl⟩ := hva
  unfold PageTable.map at he
  rw [if_neg (by decide)] at he
  obtain ⟨sum, ph1, hsum, he⟩ := K.bind_ok he
  obtain ⟨rfl, hsum⟩ := addW_ok hsum
  obtain ⟨upper, ph1, hupper, he⟩ := K.bind_ok he
  obtain ⟨rfl, hupper⟩ := alignUp_ok hupper
  obtain ⟨last, ph1, hlast, he⟩ := K.bind_ok he
  obtain ⟨rfl, hlast⟩ := subW_ok (by omega) hlast
  have heq : last = alignDown (PGSIZE * q) := by
    rw [alignDown_eq]
    unfold PGSIZE at *
    omega
  have hdown : alignDown (PGSIZE * q) = PGSIZE * q := by
    rw [alignDown_eq]
    unfold PGSIZE
    omega
  rw [PageTable.mapFrom, heq, if_neg (by omega), hdown, PageTable.walk, if_pos (by omega)] at he
  cases he

namespace KernelVm

lemma mappages_eq_ok {va pa size perm : Nat} {u : Unit} :
    mappages P table va pa size perm ph = .ok (u, ph') ↔
      PageTable.map P table va pa size perm ph = .ok (true, ph') := by
  unfold mappages
  constructor
  · intro he
    obtain ⟨b, ph1, hmap, he⟩ := K.bind_ok he
    cases b with
    | true =>
      cases he
      exact hmap
    | false => cases he
  · exact fun hmap => K.bind_of_ok hmap

lemma unmappages_eq_ok {va size : Nat} {free : Bool} {u : Unit} :
    unmappages P table va size free ph = .ok (u, ph') ↔
      PageTable.unmap P table va size free ph = .ok (true, ph') := by
  unfold unmappages
  constructor
  · intro he
    obtain ⟨b, ph1, hmap, he⟩ := K.bind_ok he
    cases b with
    | true =>
      cases he
      exact hmap
    | false => cases he
  · exact fun hmap => K.bind_of_ok hmap

lemma kstackBase_ok {σ : Type} {s s' : σ} {base : Nat} (hpid : pid < 2 ^ 40) (he : kstackBase P pid s = .ok (base, s')) :
    base = KSTACK_VA_BASE + pid * KSTACK_SIZE ∧ s' = s := by
  have hsize : KSTACK_SIZE = 2 ^ 14 := rfl
  have hbase : KSTACK_VA_BASE < 2 ^ 60 := by decide
  unfold kstackBase at he
  rw [mulW_of_lt P (by rw [hsize]; omega), pure_bind, addW_of_lt P (by rw [hsize]; omega)] at he
  cases he
  exact ⟨rfl, rfl⟩

lemma allocKstack_lt (hpid : pid < 2 ^ 40) (he : allocKstack P kpt pid ph = .ok (top, ph')) : pid < 2 ^ 14 := by
  unfold allocKstack at he
  obtain ⟨base, ph1, hbase, hrest⟩ := K.bind_ok he
  obtain ⟨rfl, rfl⟩ := kstackBase_ok hpid hbase
  obtain ⟨u, ph2, hpages, -⟩ := K.bind_ok hrest
  rw [show List.range (KSTACK_SIZE / PGSIZE) = [0, 1, 2, 3] from rfl] at hpages
  obtain ⟨u1, ph3, hfirst, -⟩ := K.bind_ok hpages
  obtain ⟨va, ph4, hva, hfirst⟩ := K.bind_ok hfirst
  obtain ⟨pa, ph5, -, hmap⟩ := K.bind_ok hfirst
  obtain ⟨-, hva⟩ := addW_ok hva
  have hsize : KSTACK_SIZE = 4096 * 4 := rfl
  have hregion : KSTACK_VA_BASE + 2 ^ 14 * KSTACK_SIZE = VA_MAX := by decide
  have halign : KSTACK_VA_BASE = 4096 * 67043328 := by decide
  rw [hsize] at hva hregion
  have hdvd : PGSIZE ∣ va := by
    unfold PGSIZE
    omega
  have hlt := PageTable.map_lt hdvd (by omega) (mappages_eq_ok.mp hmap)
  omega

end KernelVm

end Glenda.Mem
