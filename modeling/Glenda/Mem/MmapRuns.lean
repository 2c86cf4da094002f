import Glenda.Mem.MmapSpec
import Glenda.Mem.PageTableRuns

/-!
# Runs of `mmap` and `munmap`

The regions of a process are the pages of the window that its page table maps, after any series of calls
that succeed. What `mmap` returns is the start of the pages it maps unless it joins them to a region
that ends there, or wraps around the address space.
-/

namespace Glenda.Mem
open Glenda.Lib

variable {q begin lo n b f npages : Nat}

def InWindow (q : Nat) : Prop := MMAP_BEGIN ≤ q * PGSIZE ∧ q * PGSIZE < MMAP_END

instance : DecidablePred InWindow := fun _ => inferInstanceAs (Decidable (_ ∧ _))

/-- The entry of the page table for the page number `q`. -/
def Vm.page (s : Vm) (table q : Nat) : Option Entry := PageTable.denote s.ph.mem table (q * PGSIZE)

structure VmInv (s : Vm) (table : Nat) (ids free : List Nat) (node : List Nat → Option Nat) (m : PageMap)
    (own : Nat → Entry → Prop) (used : Nat → Prop) : Prop where
  lists : RegionLists s.wh s.head ids free
  regions : Regions (s.wh.spans ids)
  space : Space s.ph table node m own used
  agree : ∀ q, InWindow q → (m q ≠ none ↔ pagesOf (s.wh.spans ids) q)
  owned : Uvm.WindowOwned m own
  new : ∀ q x, InWindow q → s.ph.InRegion false x → x < 2 ^ 43 → own q (.new x (Uvm.MMAP_FLAGS ||| PTE_V))

lemma Vm.page_of_le (s : Vm) (table : Nat) (h : 2 ^ 26 ≤ q) : s.page table q = none := by
  have hmax : VA_MAX ≤ q * PGSIZE := by
    unfold VA_MAX PGSIZE
    omega
  unfold Vm.page PageTable.denote PageTable.lookup
  rw [if_pos hmax]

namespace VmInv

variable {P : Profile} {s s' : Vm} {table : Nat} {ids free : List Nat} {node : List Nat → Option Nat} {m : PageMap}
  {own : Nat → Entry → Prop} {used : Nat → Prop}

section

variable (h : VmInv s table ids free node m own used)
include h

lemma page_eq (hq : q < 2 ^ 26) : s.page table q = m q := by
  unfold Vm.page
  rw [h.space.tree.denote_eq (PageTable.page_lt hq), Nat.mul_div_cancel _ (by decide)]

/-- A successful `mmap` keeps the invariant. -/
theorem mmap {len : Nat} (hwrap : begin + Uvm.pageSize len < 2 ^ 64)
    (he : Uvm.mmap P table begin len MMAP_BEGIN MMAP_END s = .ok (.ok lo, s')) :
    ∃ b ids' free' node' m' used', VmInv s' table ids' free' node' m' own used' ∧ 0 < len ∧
      PGSIZE ∣ b ∧ MMAP_BEGIN ≤ b ∧ b + Uvm.pageSize len ≤ MMAP_END ∧
      Uvm.Starts (s.wh.spans ids) begin (Uvm.pageSize len) b ∧ Moves s.wh s'.wh ids free ids' free' ∧
      Joined (s.wh.spans ids) (s'.wh.spans ids') b (b + Uvm.pageSize len) lo ∧
      Grown s.ph s'.ph node node' m m' own used used' fun q => b ≤ q * PGSIZE ∧ q * PGSIZE < b + Uvm.pageSize len := by
  have hown : Uvm.Ownable s.ph m own fun q => MMAP_BEGIN ≤ q * PGSIZE ∧ q * PGSIZE < MMAP_END :=
    ⟨fun q x hq hx => h.new q x hq hx, fun q e hq hm => h.owned q e hq.1 hq.2 hm⟩
  rcases Uvm.mmap_ok h.lists h.regions hwrap h.space hown he with ⟨hr, -⟩ | ⟨hr, -⟩ | ⟨hr, -⟩ | ⟨lo', hr, hlen, b, ids', free',
    node', m', used', hb, hlow, hhigh, hst, -, hl, hmv, hj, hsp, hg⟩
  · cases hr
  · cases hr
  · cases hr
  cases hr
  have hpos : 0 < Uvm.pageSize len := by
    unfold Uvm.pageSize
    omega
  have hsize : PGSIZE ∣ Uvm.pageSize len := Nat.dvd_mul_left _ _
  have hcover := fun q : Nat => hj.mem_cover (x := q * PGSIZE) (Nat.lt_add_of_pos_right hpos) h.regions.separated
  refine ⟨b, ids', free', node', m', used', ⟨hl, ?_, hsp, fun q hq => ?_, fun q e hq hq' hm => ?_, fun q x hq hx => ?_⟩,
    hlen, hb, hlow, hhigh, hst, hmv, hj, hg⟩
  · exact h.regions.join hj (by omega) hb (Nat.dvd_add hb hsize) hlow hhigh
  · unfold pagesOf
    rw [hcover q]
    by_cases hS : b ≤ q * PGSIZE ∧ q * PGSIZE < b + Uvm.pageSize len
    · obtain ⟨-, e, hm, -⟩ := hg.new q hS
      simp [hm, hS]
    · rw [hg.old q hS, h.agree q hq, iff_comm]
      exact or_iff_left hS
  · by_cases hS : b ≤ q * PGSIZE ∧ q * PGSIZE < b + Uvm.pageSize len
    · obtain ⟨-, e', hm', ho, -⟩ := hg.new q hS
      rw [hm'] at hm
      cases hm
      exact ho
    · rw [hg.old q hS] at hm
      exact h.owned q e hq hq' hm
  · exact h.new q x hq (hg.takes.region.inRegion.mp hx)

lemma cut {start fin : Nat} (hlt : start < fin)
    (hdvd : PGSIZE ∣ start ∧ PGSIZE ∣ fin) (hok : Uvm.MunmapOk s s' table node m own used ids free start fin) :
    ∃ ids' free' m' used', VmInv s' table ids' free' node m' own used' ∧ Moves s.wh s'.wh ids free ids' free' ∧
      Shrunk s.ph s'.ph node m m' own used used' fun q => pagesOf (s.wh.spans ids) q ∧
        start ≤ q * PGSIZE ∧ q * PGSIZE < fin := by
  obtain ⟨ids', free', m', used', hl, hmv, hspans, hsp, hs⟩ := hok
  refine ⟨ids', free', m', used', ⟨hl, ?_, hsp, fun q hq => ?_, fun q e hq hq' hm => ?_, fun q x hq hx => ?_⟩, hmv, hs⟩
  · rw [hspans]
    exact h.regions.cut hlt hdvd.1 hdvd.2
  · unfold pagesOf
    rw [hspans, mem_cover_flatMap_cut]
    by_cases hS : pagesOf (s.wh.spans ids) q ∧ start ≤ q * PGSIZE ∧ q * PGSIZE < fin
    · rw [(hs.gone q hS).1]
      simp [hS.2]
    · rw [hs.old q hS, h.agree q hq]
      rw [not_and] at hS
      exact ⟨fun hp => ⟨hp, hS hp⟩, And.left⟩
  · by_cases hS : pagesOf (s.wh.spans ids) q ∧ start ≤ q * PGSIZE ∧ q * PGSIZE < fin
    · rw [(hs.gone q hS).1] at hm
      cases hm
    · rw [hs.old q hS] at hm
      exact h.owned q e hq hq' hm
  · exact h.new q x hq (hs.gives.region.inRegion.mp hx)

/-- A successful `munmap` keeps the invariant. -/
theorem munmap {len : Nat} (hlen : 0 < len)
    (hwrap : begin + len + 4095 < 2 ^ 64) (he : Uvm.munmap P table begin len s = .ok (.ok (), s')) :
    ∃ ids' free' m' used', VmInv s' table ids' free' node m' own used' ∧ Moves s.wh s'.wh ids free ids' free' ∧
      Shrunk s.ph s'.ph node m m' own used used' fun q => pagesOf (s.wh.spans ids) q ∧
        alignDown begin ≤ q * PGSIZE ∧ q * PGSIZE < Uvm.pageSize (begin + len) := by
  rcases Uvm.munmap_spec h.lists h.regions hlen hwrap h.space h.owned he with ⟨hr, -⟩ | ⟨hr, -⟩ | ⟨-, hok⟩
  · cases hr
  · cases hr
  have hrange : alignDown begin < Uvm.pageSize (begin + len) := by
    rw [alignDown_eq]
    unfold Uvm.pageSize
    omega
  exact h.cut hrange ⟨Uvm.dvd_alignDown begin, Nat.dvd_mul_left _ _⟩ hok

end

end VmInv

/-! ### Ranges that wrap -/

namespace Uvm

variable {P : Profile} {s s' : Vm} {table : Nat} {ids pre post free : List Nat}

lemma alignUp_wraps {σ : Type} {v : Nat} {t t' : σ} (hv : v < 2 ^ 64) (h : 2 ^ 64 ≤ v + 4095)
    (he : alignUp P v t = .ok (n, t')) : n = 0 := by
  unfold alignUp at he
  obtain ⟨x, t1, hadd, he⟩ := K.bind_ok he
  have hx : x = (v + 4095) % 2 ^ 64 := (addW_ok hadd).2
  cases he
  rw [alignDown_eq, hx]
  omega

lemma len_lt_of_mmap {len : Nat} (hlen : len < 2 ^ 64)
    (he : mmap P table begin len MMAP_BEGIN MMAP_END s = .ok (.ok lo, s')) : len + 4095 < 2 ^ 64 := by
  by_contra hwrap
  unfold mmap at he
  split_ifs at he
  · cases he
  · obtain ⟨n, s1, hup, he⟩ := K.bind_ok he
    rw [alignUp_wraps hlen (by omega) hup] at he
    cases he

lemma mapPages_wrap {a : Nat} {ph : Phys} (ha : PGSIZE ∣ a) (ha' : a < 2 ^ 64) (hn : n * PGSIZE < 2 ^ 64)
    (hwrap : 2 ^ 64 ≤ a + n * PGSIZE) : mapPages .release table a n ph = .ok (.ok (), ph) := by
  have hdown : alignDown a = a := by
    rw [alignDown_eq]
    exact Nat.div_mul_cancel ha
  unfold mapPages
  rw [hdown, mulW_of_lt _ hn, pure_bind, addW_release, pure_bind, mapPagesFrom, if_neg (by omega)]
  rfl

/-- A range whose end wraps meets only a region that it starts in. It is said to extend the region that ends where it
starts, or to be a region of its own. -/
lemma placeRegion_wrap (hr : Regions (s.wh.spans (pre ++ post))) (hfb : f < b)
    (hpre : ∀ i ∈ pre, (s.wh.span i).1 < b) (hpost : ∀ i, post.head? = some i → b ≤ (s.wh.span i).1) :
    (placeRegion P table b f npages pre.getLast? post.head? s = .ok (.error .outOfRange, s) ∧
      ∃ r ∈ s.wh.spans (pre ++ post), r.1 < b ∧ b < r.2) ∨
      (∀ r ∈ s.wh.spans (pre ++ post), r.1 < b → r.2 ≤ b) ∧
      ((∃ pre' p, pre = pre' ++ [p] ∧ (s.wh.span p).2 = b ∧
          placeRegion P table b f npages pre.getLast? post.head? s = extendPrev P table p none f f s) ∨
        (∀ r ∈ s.wh.spans pre, r.2 < b) ∧
          placeRegion P table b f npages pre.getLast? post.head? s =
            insertNew P table b npages pre.getLast? post.head? s) := by
  have hsep := hr.separated
  rw [MmapWarehouse.spans_append, Separated.append_iff] at hsep
  have hafter : ∀ r ∈ s.wh.spans post, b ≤ r.1 := by
    have hlt := lt_spans (f := b - 1) hsep.2.1 fun c hc => by have := hpost c hc; omega
    intro r hr'
    have := hlt r hr'
    omega
  rcases @placeRegion_cases f npages P s pre post table b hr hpre with ⟨hrun, ⟨p, hp, hlt⟩ | ⟨c, hc, hlt⟩⟩ | ⟨hle, -, hcases⟩
  · exact .inl ⟨hrun, _, MmapWarehouse.mem_spans (List.mem_append_left _ hp), hpre p hp, hlt⟩
  · have := hpost c hc
    omega
  · refine .inr ⟨fun r hr' hlt => ?_, ?_⟩
    · rw [MmapWarehouse.spans_append, List.mem_append] at hr'
      rcases hr' with hr' | hr'
      · exact hle r hr'
      · have := hafter r hr'
        omega
    -- the next region begins after `b`, so not at `f`
    · rcases hcases with ⟨pre', p, next, me, rfl, hp, ⟨rfl, rfl, -⟩ | ⟨c, post', rfl, rfl, hc, rfl⟩, hrun⟩ | ⟨c, post', rfl, hc, -⟩ |
        ⟨hbefore, -, hrun⟩
      · exact .inl ⟨pre', p, rfl, hp, hrun⟩
      · have := hpost c rfl
        omega
      · have := hpost c rfl
        omega
      · exact .inr ⟨hbefore, hrun⟩

lemma placeRegion_wraps (h : RegionLists s.wh s.head (pre ++ post) free)
    (hr : Regions (s.wh.spans (pre ++ post))) (hb : PGSIZE ∣ b) (hb' : b < 2 ^ 64) (hn : npages * PGSIZE < 2 ^ 64)
    (hwrap : 2 ^ 64 ≤ b + npages * PGSIZE) (hfb : f < b) (hpre : ∀ i ∈ pre, (s.wh.span i).1 < b)
    (hpost : ∀ i, post.head? = some i → b ≤ (s.wh.span i).1)
    (he : placeRegion .release table b f npages pre.getLast? post.head? s = .ok (.ok lo, s')) :
    s'.ph = s.ph ∧ PGSIZE ∣ lo := by
  rcases @placeRegion_wrap b f npages .release s table pre post hr hfb hpre hpost with ⟨hrun, -⟩ |
    ⟨-, ⟨pre', p, rfl, hp, hrun⟩ | ⟨-, hrun⟩⟩
  · rw [hrun] at he
    cases he
  · rw [hrun] at he
    have hmem : p ∈ pre' ++ [p] ++ post := by simp
    obtain ⟨pe, res, ph', hend, hgrow, hres⟩ := extendPrev_ok he
    rw [regionEnd_eq hr hmem, hp] at hend
    cases hend
    unfold growTo at hgrow
    rw [if_neg (by omega)] at hgrow
    cases hgrow
    rcases hres with ⟨e, hres, -⟩ | ⟨-, hlo, n, wh1, t, -, -, ⟨-, rfl⟩ | ⟨c, -, -, -, hc, -⟩⟩
    · cases hres
    · cases hlo
      exact ⟨rfl, (hr.dvd _ (MmapWarehouse.mem_spans hmem)).1⟩
    · cases hc
  · rw [hrun] at he
    obtain ⟨res, ph', hmap, ⟨e, -, hlo, -⟩ | ⟨-, ⟨hlo, -⟩ | ⟨x, rest, u, hlo, -, hlink⟩⟩⟩ := insertNew_ok h he
    · cases hlo
    · cases hlo
    · cases hlo
      rw [mapPages_wrap hb hb' hn hwrap] at hmap
      cases hmap
      cases hq : pre.getLast? with
      | none =>
        rw [hq] at hlink
        cases hlink
        exact ⟨rfl, hb⟩
      | some q =>
        rw [hq] at hlink
        cases hlink
        exact ⟨rfl, hb⟩

lemma mmap_eq_mmapAt {len : Nat} (hlen : 0 < len) (hup : len + 4095 < 2 ^ 64) (hbegin : begin ≠ 0) :
    mmap P table begin len MMAP_BEGIN MMAP_END s = mmapAt P table begin (pageSize len / PGSIZE) MMAP_BEGIN MMAP_END s := by
  have hnp : pageSize len / PGSIZE ≠ 0 := by
    unfold pageSize PGSIZE
    omega
  unfold mmap startAt
  rw [if_neg (by omega), alignUp_eq hup, pure_bind, if_neg hnp, if_neg hbegin, pure_bind]

/-- A range whose end wraps is accepted, but no page is mapped for it. -/
theorem mmap_wraps {len : Nat} (h : RegionLists s.wh s.head ids free) (hr : Regions (s.wh.spans ids))
    (hbegin : begin < 2 ^ 64) (hlen : len < 2 ^ 64) (hwrap : 2 ^ 64 ≤ begin + pageSize len)
    (he : mmap P table begin len MMAP_BEGIN MMAP_END s = .ok (.ok lo, s')) : s'.ph = s.ph ∧ PGSIZE ∣ lo := by
  have hlen' := len_lt_of_mmap hlen he
  have hsize : pageSize len / PGSIZE * PGSIZE = pageSize len ∧ pageSize len < 2 ^ 64 := by
    unfold pageSize PGSIZE
    omega
  have hzero : 0 < len := by
    by_contra hz
    rw [mmap, if_pos (by omega)] at he
    cases he
  rw [mmap_eq_mmapAt hzero hlen' (by omega)] at he
  cases P with
  | dev =>
    unfold mmapAt at he
    rw [mulW_of_lt _ (by omega), pure_bind, addW_dev (by omega)] at he
    split_ifs at he <;> cases he
  | release =>
    rcases mmapAt_eq table h (show pageSize len / PGSIZE * PGSIZE < 2 ^ 64 by omega) addW_release with ⟨hrun, -⟩ | ⟨hd, hlow, -, pre, post, rfl, hlt, hge, hrun⟩
    · rw [hrun] at he
      cases he
    · rw [hrun] at he
      exact placeRegion_wraps h hr hd hbegin (by omega) (by omega) (by omega) hlt hge he

end Uvm

/-! ### The set of pages -/

section Runs

variable {P : Profile} {s s' : Vm} {table : Nat} {ids free : List Nat} {node : List Nat → Option Nat} {m : PageMap}
  {used : Nat → Prop}

/-- The states that successful calls of a process reach, from one without regions on. -/
inductive VmRun (P : Profile) (table : Nat) : Vm → Prop
  | start {s : Vm} {free : List Nat} {node : List Nat → Option Nat} {m : PageMap} {used : Nat → Prop}
      (h : VmInv s table [] free node m (fun _ e => e.User) used) : VmRun P table s
  | mmap {s s' : Vm} {begin len va : Nat} (h : VmRun P table s) (hwrap : begin + Uvm.pageSize len < 2 ^ 64)
      (he : Uvm.mmap P table begin len MMAP_BEGIN MMAP_END s = .ok (.ok va, s')) : VmRun P table s'
  | munmap {s s' : Vm} {begin len : Nat} (h : VmRun P table s) (hwrap : begin + len + 4095 < 2 ^ 64)
      (he : Uvm.munmap P table begin len s = .ok (.ok (), s')) : VmRun P table s'

lemma Uvm.munmap_zero {r : Except UvmError Unit} (he : Uvm.munmap P table begin 0 s = .ok (r, s')) :
    s' = s := by
  cases he
  rfl

theorem VmRun.inv (h : VmRun P table s) :
    ∃ ids free node m used, VmInv s table ids free node m (fun _ e => e.User) used := by
  induction h with
  | start h => exact ⟨_, _, _, _, _, h⟩
  | mmap _ hwrap he ih =>
    obtain ⟨ids, free, node, m, used, h⟩ := ih
    obtain ⟨b, ids', free', node', m', used', h', -⟩ := h.mmap hwrap he
    exact ⟨ids', free', node', m', used', h'⟩
  | @munmap s s' begin len _ hwrap he ih =>
    obtain ⟨ids, free, node, m, used, h⟩ := ih
    rcases Nat.eq_zero_or_pos len with rfl | hlen
    · rw [Uvm.munmap_zero he]
      exact ⟨ids, free, node, m, used, h⟩
    · obtain ⟨ids', free', m', used', h', -⟩ := h.munmap hlen hwrap he
      exact ⟨ids', free', node, m', used', h'⟩

end Runs

/-- Two free pages in each region of memory, a zeroed table below them, and no memory region in use. -/
def fewPages : Vm where
  ph := {
    mem n i := if n = 0x80002 ∧ i = 0 then 0x80001000 else if n = 0x80004 ∧ i = 0 then 0x80003000 else 0
    pageRef _ := 0
    region k := if k then ⟨0x80001000, 0x80003000, some 0x80002000, 2⟩ else ⟨0x80003000, 0x80005000, some 0x80004000, 2⟩ }
  wh := ⟨none, fun _ => ⟨.zero, none⟩, false⟩
  head := none

lemma fewPages_inv : VmInv fewPages 0x80000 [] (List.range N_MMAP) (fun s => if s = [] then some 0x80000 else none)
    (fun _ => none) (fun _ e => e.User) (· = 0x80000) := by
  have hlists : RegionLists fewPages.wh fewPages.head [] (List.range N_MMAP) := by
    refine ⟨rfl, MmapWarehouse.chain_init rfl, ?_, fun i hi => ?_⟩
    · rw [List.nil_append]
      exact List.nodup_range
    · rw [List.nil_append] at hi
      exact List.mem_range.mp hi
  have hpmem : PmemInv fewPages.ph (fun k => if k then [0x80002000, 0x80001000] else [0x80004000, 0x80003000])
      (· = 0x80000) := by
    refine ⟨?_, ?_, ?_, ?_, fun _ _ _ => rfl, ?_, by decide, by decide⟩
    · intro k
      cases k <;> exact ⟨rfl, rfl, rfl⟩
    all_goals decide
  have hpt : PtInv fewPages.ph 0x80000 (fun s => if s = [] then some 0x80000 else none) (fun _ => none) (· = 0x80000) := by
    refine ⟨Tree.empty fun i _ => rfl, ⟨_, hpmem⟩, fun s n hs => ?_⟩
    split_ifs at hs
    exact (Option.some.inj hs).symm
  exact ⟨hlists, .nil, ⟨hpt, by simp, by simp, by simp⟩, fun q _ => by simp [pagesOf], by simp [Uvm.WindowOwned],
    fun q x _ _ _ => by simp [Entry.User, Entry.new]; decide⟩

section Calls

variable {P : Profile} {s s' : Vm} {table : Nat} {ids free : List Nat} {node : List Nat → Option Nat} {m : PageMap}
  {used : Nat → Prop}

/-- The pages of the window that are mapped are those of the regions, `mmap` adds a range of pages that
were not mapped, and `munmap` removes its range unless its length is 0. -/
theorem mmap_refines_pages (h : VmRun P table s) :
    (∃ ids, Chain s.wh.nextRegion s.head ids ∧ Regions (s.wh.spans ids) ∧
      ∀ q, InWindow q → (s.page table q ≠ none ↔ pagesOf (s.wh.spans ids) q)) ∧
    (∀ begin len va s', begin + Uvm.pageSize len < 2 ^ 64 →
      Uvm.mmap P table begin len MMAP_BEGIN MMAP_END s = .ok (.ok va, s') →
      ∃ b, ∀ q, if b ≤ q ∧ q < b + Uvm.pageSize len / PGSIZE
        then InWindow q ∧ s.page table q = none ∧ s'.page table q ≠ none else s'.page table q = s.page table q) ∧
    ∀ begin len s', begin + len + 4095 < 2 ^ 64 → Uvm.munmap P table begin len s = .ok (.ok (), s') →
      ∀ q, s'.page table q = if 0 < len ∧ InWindow q ∧ alignDown begin ≤ q * PGSIZE ∧
        q * PGSIZE < Uvm.pageSize (begin + len) then none else s.page table q := by
  obtain ⟨ids, free, node, m, used, hinv⟩ := h.inv
  have hlt : ∀ q, InWindow q → q < 2 ^ 26 := by
    intro q hq
    have hw := hq.2.trans mmap_window.2.2.2.2
    unfold PGSIZE VA_MAX at hw
    omega
  refine ⟨⟨ids, hinv.lists.regions, hinv.regions, fun q hq => ?_⟩, fun begin len va s' hwrap he => ?_,
    fun begin len s' hwrap he q => ?_⟩
  · rw [hinv.page_eq (hlt q hq)]
    exact hinv.agree q hq
  · obtain ⟨b, ids', free', node', m', used', hinv', -, ⟨p, rfl⟩, hlow, hhigh, -, -, -, hg⟩ := hinv.mmap hwrap he
    refine ⟨p, fun q => ?_⟩
    have hrange : (p ≤ q ∧ q < p + Uvm.pageSize len / PGSIZE) ↔
        (PGSIZE * p ≤ q * PGSIZE ∧ q * PGSIZE < PGSIZE * p + Uvm.pageSize len) := by
      unfold Uvm.pageSize PGSIZE
      omega
    split_ifs with hq
    · rw [hrange] at hq
      have hwin : InWindow q := ⟨by omega, by omega⟩
      obtain ⟨hnone, e, he, -⟩ := hg.new q hq
      rw [hinv.page_eq (hlt q hwin), hinv'.page_eq (hlt q hwin), he]
      exact ⟨hwin, hnone, by simp⟩
    · rw [hrange] at hq
      rcases lt_or_ge q (2 ^ 26) with hq' | hq'
      · rw [hinv.page_eq hq', hinv'.page_eq hq', hg.old q hq]
      · rw [Vm.page_of_le _ _ hq', Vm.page_of_le _ _ hq']
  · rcases Nat.eq_zero_or_pos len with rfl | hlen
    · rw [Uvm.munmap_zero he, if_neg (by simp)]
    · obtain ⟨ids', free', m', used', hinv', -, hs⟩ := hinv.munmap hlen hwrap he
      split_ifs with hq
      · obtain ⟨-, hwin, hq⟩ := hq
        rw [hinv'.page_eq (hlt q hwin)]
        by_cases hp : pagesOf (s.wh.spans ids) q
        · exact (hs.gone q ⟨hp, hq⟩).1
        · rw [hs.old q fun hS => hp hS.1]
          by_contra hne
          exact hp ((hinv.agree q hwin).mp hne)
      · rcases lt_or_ge q (2 ^ 26) with hq' | hq'
        · rw [hinv.page_eq hq', hinv'.page_eq hq', hs.old q]
          rintro ⟨⟨r, hr, hin⟩, hS⟩
          have hb := hinv.regions.bounds r hr
          exact hq ⟨hlen, ⟨by omega, by omega⟩, hS⟩
        · rw [Vm.page_of_le _ _ hq', Vm.page_of_le _ _ hq']

theorem mmap_refines_pages_fewPages :
    ∃ s₁, Uvm.mmap .dev 0x80000 0 4096 MMAP_BEGIN MMAP_END fewPages = .ok (.ok MMAP_BEGIN, s₁) ∧
      ∃ b, ∀ q, if b ≤ q ∧ q < b + Uvm.pageSize 4096 / PGSIZE
        then InWindow q ∧ fewPages.page 0x80000 q = none ∧ s₁.page 0x80000 q ≠ none
        else s₁.page 0x80000 q = fewPages.page 0x80000 q := by
  obtain ⟨s₁, he⟩ := K.exists_of_run' (a := .ok MMAP_BEGIN) (s := fewPages)
    (x := Uvm.mmap .dev 0x80000 0 4096 MMAP_BEGIN MMAP_END) (by decide +kernel)
  exact ⟨s₁, he, (mmap_refines_pages (.start fewPages_inv)).2.1 _ _ _ _ (by decide) he⟩

/-- A `munmap` of length 0 at an address that is not aligned succeeds, and the page of the address stays. -/
theorem munmap_zero_unaligned : ∃ s₁ s₂, VmRun .dev 0x80000 s₁ ∧
    Uvm.munmap .dev 0x80000 (MMAP_BEGIN + 1) 0 s₁ = .ok (.ok (), s₂) ∧
    alignDown (MMAP_BEGIN + 1) ≤ MMAP_BEGIN / PGSIZE * PGSIZE ∧
    MMAP_BEGIN / PGSIZE * PGSIZE < Uvm.pageSize (MMAP_BEGIN + 1 + 0) ∧
    s₂.page 0x80000 (MMAP_BEGIN / PGSIZE) ≠ none := by
  obtain ⟨s₁, he⟩ := K.exists_of_run' (a := (.ok MMAP_BEGIN, true)) (s := fewPages)
    (x := do
      let r ← Uvm.mmap .dev 0x80000 0 4096 MMAP_BEGIN MMAP_END
      return (r, ((← get).page 0x80000 (MMAP_BEGIN / PGSIZE)).isSome)) (by decide +kernel)
  obtain ⟨r, s₂, hmap, he⟩ := K.bind_eq_ok.mp he
  simp only [K.bind_apply, K.get_apply, Except.bind, K.pure_apply, Except.ok.injEq, Prod.mk.injEq] at he
  obtain ⟨⟨rfl, hpage⟩, rfl⟩ := he
  refine ⟨s₂, s₂, .mmap (.start fewPages_inv) (by decide) hmap, rfl, by decide, by decide, ?_⟩
  exact fun hnone => by rw [hnone] at hpage; cases hpage

def NewlyMapped (s s' : Vm) (table q : Nat) : Prop := s.page table q = none ∧ s'.page table q ≠ none

/-- The range of a call that leaves the start open is the first of the window and is free, or the range starts
where no region ends and does not wrap. -/
def StandsAlone (l : List (Nat × Nat)) (begin size : Nat) : Prop :=
  if begin = 0 then ∀ r ∈ l, MMAP_BEGIN + size ≤ r.1 else begin + size < 2 ^ 64 ∧ ∀ r ∈ l, r.2 ≠ begin

/-- Successful calls of `mmap` whose ranges stand alone, and the ranges they return. -/
inductive MmapCalls (P : Profile) (table : Nat) (s : Vm) : List (Nat × Nat) → Vm → Prop
  | start : MmapCalls P table s [] s
  | call {rs : List (Nat × Nat)} {s₁ s' : Vm} {begin len va : Nat} (h : MmapCalls P table s rs s₁)
      (hb : begin < 2 ^ 64) (hl : len < 2 ^ 64)
      (hc : ∀ ids, Chain s₁.wh.nextRegion s₁.head ids → StandsAlone (s₁.wh.spans ids) begin (Uvm.pageSize len))
      (he : Uvm.mmap P table begin len MMAP_BEGIN MMAP_END s₁ = .ok (.ok va, s')) :
      MmapCalls P table s ((va, va + Uvm.pageSize len) :: rs) s'

lemma VmInv.newlyMapped {len va : Nat} {own : Nat → Entry → Prop} (h : VmInv s table ids free node m own used)
    (hwrap : begin + Uvm.pageSize len < 2 ^ 64)
    (he : Uvm.mmap P table begin len MMAP_BEGIN MMAP_END s = .ok (.ok va, s')) :
    ∃ b ids' free' node' m' used', VmInv s' table ids' free' node' m' own used' ∧ 0 < Uvm.pageSize len ∧
      PGSIZE ∣ b ∧ PGSIZE ∣ va ∧ (va = b ↔ StandsAlone (s.wh.spans ids) begin (Uvm.pageSize len)) ∧ va ≤ b ∧
      (begin ≠ 0 → b = begin) ∧ (∀ q, s.page table q ≠ none → s'.page table q ≠ none) ∧
      ∀ q, NewlyMapped s s' table q ↔ b ≤ q * PGSIZE ∧ q * PGSIZE < b + Uvm.pageSize len := by
  obtain ⟨b, ids', free', node', m', used', h', hlen, hb, hlow, hhigh, hst, -, hj, hg⟩ := h.mmap hwrap he
  have hpos : 0 < Uvm.pageSize len := by
    unfold Uvm.pageSize
    omega
  have hpage : ∀ q, s'.page table q ≠ none → q < 2 ^ 26 := by
    intro q hq
    by_contra hge
    exact hq (Vm.page_of_le _ _ (by omega))
  have hstart := hj.start (by omega) h.regions.separated
  refine ⟨b, ids', free', node', m', used', h', hpos, hb, ?_, ?_, ?_, fun hz => ?_, fun q hq => ?_, fun q => ?_⟩
  · rcases hstart with ⟨rfl, -⟩ | ⟨-, hmem⟩
    · exact hb
    · exact (h.regions.dvd _ hmem).1
  · unfold StandsAlone
    unfold Uvm.Starts at hst
    split_ifs at hst ⊢ with hz
    · rcases hst with ⟨-, ⟨rfl, hfree⟩ | ⟨⟨r, hr, hlt⟩, r', hr', hend⟩⟩
      · refine iff_of_true ?_ hfree
        rcases hstart with ⟨heq, -⟩ | ⟨hlt, hmem⟩
        · exact heq
        · have := (h.regions.bounds _ hmem).1
          omega
      · refine iff_of_false ?_ fun hfree => ?_
        · rcases hstart with ⟨-, hne⟩ | ⟨hlt, -⟩
          · exact absurd hend (hne r' hr')
          · exact hlt.ne
        · have := hfree r hr
          omega
    · subst hst
      rcases hstart with ⟨heq, hne⟩ | ⟨hlt, hmem⟩
      · exact iff_of_true heq ⟨hwrap, hne⟩
      · exact iff_of_false hlt.ne fun hne => hne.2 _ hmem rfl
  · rcases hstart with ⟨rfl, -⟩ | ⟨hlt, -⟩
    · exact le_rfl
    · exact hlt.le
  · unfold Uvm.Starts at hst
    rwa [if_neg hz] at hst
  · have hq' : q < 2 ^ 26 := by
      by_contra hge
      exact hq (Vm.page_of_le _ _ (by omega))
    rw [h.page_eq hq'] at hq
    rw [h'.page_eq hq', hg.old q fun hS => hq (hg.new q hS).1]
    exact hq
  · unfold NewlyMapped
    constructor
    · rintro ⟨hnone, hsome⟩
      have hq := hpage q hsome
      rw [h.page_eq hq] at hnone
      rw [h'.page_eq hq] at hsome
      by_contra hS
      rw [hg.old q hS] at hsome
      exact hsome hnone
    · intro hS
      have hw := mmap_window.2.2.2.2
      have hq : q < 2 ^ 26 := by
        unfold PGSIZE VA_MAX at *
        omega
      obtain ⟨hnone, e, he, -⟩ := hg.new q hS
      rw [h.page_eq hq, h'.page_eq hq, he]
      exact ⟨hnone, by simp⟩

lemma VmInv.wrap_of_standsAlone {len va : Nat} (hl : len < 2 ^ 64)
    (he : Uvm.mmap P table begin len MMAP_BEGIN MMAP_END s = .ok (.ok va, s'))
    (hc : StandsAlone (s.wh.spans ids) begin (Uvm.pageSize len)) : begin + Uvm.pageSize len < 2 ^ 64 := by
  have hlen := Uvm.len_lt_of_mmap hl he
  unfold StandsAlone at hc
  split_ifs at hc with hz
  · unfold Uvm.pageSize
    omega
  · exact hc.1

lemma MmapCalls.apart {rs : List (Nat × Nat)} (hr : MmapCalls P table s rs s')
    (h : VmInv s table ids free node m (fun _ e => e.User) used) :
    (∃ ids free node m used, VmInv s' table ids free node m (fun _ e => e.User) used) ∧
    (∀ r ∈ rs, r.1 < r.2 ∧ PGSIZE ∣ r.1 ∧ ∀ q, r.1 ≤ q * PGSIZE → q * PGSIZE < r.2 → s'.page table q ≠ none) ∧
    rs.Pairwise fun r r' => r.2 ≤ r'.1 ∨ r'.2 ≤ r.1 := by
  induction hr with
  | start => exact ⟨⟨ids, free, node, m, used, h⟩, by simp, .nil⟩
  | @call rs s1 s' begin len va _ hb hl hc he ih =>
    obtain ⟨⟨ids1, free1, node1, m1, used1, h1⟩, hrs, hpair⟩ := ih
    have halone := hc ids1 h1.lists.regions
    obtain ⟨b, ids', free', node', m', used', h', hpos, hdvd, -, hva, -, -, hkeep, hnew⟩ :=
      h1.newlyMapped (VmInv.wrap_of_standsAlone hl he halone) he
    obtain rfl := hva.mpr halone
    refine ⟨⟨ids', free', node', m', used', h'⟩, fun r hr => ?_, List.pairwise_cons.mpr ⟨fun r hr => ?_, hpair⟩⟩
    · rcases List.mem_cons.mp hr with rfl | hr
      · exact ⟨Nat.lt_add_of_pos_right hpos, hdvd, fun q hq hq' => ((hnew q).mpr ⟨hq, hq'⟩).2⟩
      · obtain ⟨hlt, hd, hmapped⟩ := hrs r hr
        exact ⟨hlt, hd, fun q hq hq' => hkeep q (hmapped q hq hq')⟩
    · -- a page of both ranges was mapped before the call and is newly mapped by it
      by_contra hmeet
      rw [not_or, not_le, not_le] at hmeet
      obtain ⟨hlt, ⟨c, hc⟩, hmapped⟩ := hrs r hr
      obtain ⟨d, rfl⟩ := hdvd
      rcases le_total r.1 (PGSIZE * d) with hle | hle
      · refine hmapped d (by rw [Nat.mul_comm]; exact hle) (by rw [Nat.mul_comm]; exact hmeet.2) ?_
        exact ((hnew d).mpr ⟨by rw [Nat.mul_comm], by rw [Nat.mul_comm]; omega⟩).1
      · have hc' : c * PGSIZE = r.1 := by rw [hc, Nat.mul_comm]
        exact hmapped c hc'.ge (by omega) ((hnew c).mpr ⟨by omega, by omega⟩).1

/-- What `mmap` returns is the range it maps if and only if the range stands alone, and the ranges of
such calls are disjoint. -/
theorem mmap_returns_new (h : VmInv s table ids free node m (fun _ e => e.User) used) :
    (∀ begin len va s', begin < 2 ^ 64 → len < 2 ^ 64 →
      Uvm.mmap P table begin len MMAP_BEGIN MMAP_END s = .ok (.ok va, s') →
      (((∀ q, NewlyMapped s s' table q ↔ va ≤ q * PGSIZE ∧ q * PGSIZE < va + Uvm.pageSize len) ∧
        (begin ≠ 0 → va = begin)) ↔ StandsAlone (s.wh.spans ids) begin (Uvm.pageSize len))) ∧
    ∀ rs s', MmapCalls P table s rs s' → rs.Pairwise fun r r' => r.2 ≤ r'.1 ∨ r'.2 ≤ r.1 := by
  refine ⟨fun begin len va s' hb hl he => ?_, fun rs s' hr => (hr.apart h).2.2⟩
  by_cases hwrap : begin + Uvm.pageSize len < 2 ^ 64
  · obtain ⟨b, ids', free', node', m', used', h', hpos, hdvd, ⟨c, rfl⟩, hva, hle, hbegin, -, hnew⟩ :=
      h.newlyMapped hwrap he
    rw [← hva]
    constructor
    · rintro ⟨hret, -⟩
      -- the first page of the range that is returned is new
      have hc : b ≤ c * PGSIZE := ((hnew c).mp ((hret c).mpr ⟨by rw [Nat.mul_comm], by rw [Nat.mul_comm]; omega⟩)).1
      rw [Nat.mul_comm] at hc
      omega
    · rintro rfl
      exact ⟨hnew, hbegin⟩
  · refine iff_of_false ?_ fun hc => hwrap (VmInv.wrap_of_standsAlone hl he hc)
    rintro ⟨hret, -⟩
    have hpos : 0 < Uvm.pageSize len := by omega
    obtain ⟨hph, c, rfl⟩ := Uvm.mmap_wraps h.lists h.regions hb hl (by omega) he
    obtain ⟨hnone, hsome⟩ := (hret c).mpr ⟨by rw [Nat.mul_comm], by rw [Nat.mul_comm]; omega⟩
    unfold Vm.page at hnone hsome
    rw [hph] at hsome
    exact hsome hnone

theorem mmap_returns_new_fewPages :
    ∃ s₁, Uvm.mmap .dev 0x80000 0 4096 MMAP_BEGIN MMAP_END fewPages = .ok (.ok MMAP_BEGIN, s₁) ∧
      ∀ q, NewlyMapped fewPages s₁ 0x80000 q ↔
        MMAP_BEGIN ≤ q * PGSIZE ∧ q * PGSIZE < MMAP_BEGIN + Uvm.pageSize 4096 := by
  obtain ⟨s₁, he⟩ := K.exists_of_run' (a := .ok MMAP_BEGIN) (s := fewPages)
    (x := Uvm.mmap .dev 0x80000 0 4096 MMAP_BEGIN MMAP_END) (by decide +kernel)
  refine ⟨s₁, he, (((mmap_returns_new fewPages_inv).1 0 4096 MMAP_BEGIN s₁ (by decide) (by decide) he).mpr ?_).1⟩
  simp [StandsAlone]

/-- Two calls for one page each, with no `munmap` in between, both return the start of the window. -/
theorem mmap_returns_twice : ∃ s₁ s₂,
    VmInv fewPages 0x80000 [] (List.range N_MMAP) (fun s => if s = [] then some 0x80000 else none) (fun _ => none)
      (fun _ e => e.User) (· = 0x80000) ∧
    Uvm.mmap .dev 0x80000 MMAP_BEGIN 4096 MMAP_BEGIN MMAP_END fewPages = .ok (.ok MMAP_BEGIN, s₁) ∧
    Uvm.mmap .dev 0x80000 0 4096 MMAP_BEGIN MMAP_END s₁ = .ok (.ok MMAP_BEGIN, s₂) := by
  obtain ⟨s₂, he⟩ := K.exists_of_run' (a := (.ok MMAP_BEGIN, .ok MMAP_BEGIN)) (s := fewPages)
    (x := do
      let r ← Uvm.mmap .dev 0x80000 MMAP_BEGIN 4096 MMAP_BEGIN MMAP_END
      return (r, ← Uvm.mmap .dev 0x80000 0 4096 MMAP_BEGIN MMAP_END)) (by decide +kernel)
  obtain ⟨r, s₁, hfirst, he⟩ := K.bind_eq_ok.mp he
  obtain ⟨r', s₂, hsecond, he⟩ := K.bind_eq_ok.mp he
  cases he
  exact ⟨s₁, s₂, fewPages_inv, hfirst, hsecond⟩

end Calls

end Glenda.Mem
