import Glenda.Mem.MmapOutcomes

/-!
# Arguments of `mmap` and `munmap` that wrap

The system calls pass any two words on. A build with overflow checks panics on sums that wrap. Without the checks `munmap` may
miss its range but keeps the list sound, and `mmap` takes a range whose end wraps for one below the end of the window.
-/

namespace Glenda.Mem
open Glenda.Lib

/-- The list is well-formed, and its regions are the pages of the window that are mapped. -/
def Vm.Sound (s : Vm) (table : Nat) : Prop :=
  ∃ ids, Chain s.wh.nextRegion s.head ids ∧ Regions (s.wh.spans ids) ∧
    ∀ q, InWindow q → (s.page table q ≠ none ↔ pagesOf (s.wh.spans ids) q)

/-- The call neither overflows nor runs forever, and it fails or leaves a sound list. -/
def SafeCall {α : Type} (x : K Vm (Except UvmError α)) (s : Vm) (table : Nat) : Prop :=
  (∀ e, x s = .error e → e ≠ .overflow ∧ e ≠ .diverge) ∧ ∀ v s', x s = .ok (.ok v, s') → s'.Sound table

/-- The arguments on which `mmap` overflows, and those for which it takes a range that wraps. -/
def MmapWraps (P : Profile) (s : Vm) (ids : List Nat) (begin len : Nat) : Prop :=
  0 < len ∧ match P with
    | .dev => 2 ^ 64 ≤ len + 4095 ∨ MMAP_BEGIN ≤ begin ∧ 2 ^ 64 ≤ begin + Uvm.pageSize len
    | .release => len + 4095 < 2 ^ 64 ∧ MMAP_BEGIN ≤ begin ∧ PGSIZE ∣ begin ∧ 2 ^ 64 ≤ begin + Uvm.pageSize len ∧
        begin + Uvm.pageSize len ≤ 2 ^ 64 + MMAP_END ∧ (∀ r ∈ s.wh.spans ids, r.1 < begin → r.2 ≤ begin) ∧
        ((∃ r ∈ s.wh.spans ids, r.2 = begin) ∨ s.wh.init.head ≠ none)

def MunmapWraps (P : Profile) (begin len : Nat) : Prop := P = .dev ∧ 0 < len ∧ 2 ^ 64 ≤ begin + len + 4095

section Arguments

variable {P : Profile} {s s' : Vm} {table begin len : Nat} {ids pre post free : List Nat} {node : List Nat → Option Nat}
  {m : PageMap} {own : Nat → Entry → Prop} {used : Nat → Prop} {p b f v : Nat}

lemma VmInv.sound (h : VmInv s table ids free node m own used) : s.Sound table := by
  refine ⟨ids, h.lists.regions, h.regions, fun q hq => ?_⟩
  rw [h.page_eq hq.lt]
  exact h.agree q hq

/-! ### Regions that wrap -/

lemma Vm.Sound.of_chain (h : s.Sound table) (hc : Chain s.wh.nextRegion s.head ids) :
    Regions (s.wh.spans ids) ∧ ∀ q, InWindow q → (s.page table q ≠ none ↔ pagesOf (s.wh.spans ids) q) := by
  obtain ⟨ids', hc', hrest⟩ := h
  rwa [hc.unique hc']

/-- The region that ends at `b` is said to end at a wrapped address: too early, or far behind the window. -/
lemma extendPrev_wrap (hr : Regions (s.wh.spans ids)) (hp : p ∈ ids) (hb : (s.wh.span p).2 = b) (hfb : f < b) :
    ∃ n, Uvm.extendPrev .release table p none f f s =
        .ok (.ok (s.wh.region p).begin, { s with wh := s.wh.setRegion p ({ · with npages := n }) }) ∧
      ((s.wh.region p).begin + n * PGSIZE < b ∨ MMAP_END < (s.wh.region p).begin + n * PGSIZE) := by
  have hbounds := hr.bounds _ (MmapWarehouse.mem_spans hp)
  have hlt := hr.separated.lt _ (MmapWarehouse.mem_spans hp)
  have hbegin : (s.wh.span p).1 = (s.wh.region p).begin := rfl
  have hw := mmap_window.2.2.2.2
  have hrun : ∀ n, (Uvm.pagesBetween .release f (s.wh.region p).begin : K Vm Nat) = pure n →
      Uvm.extendPrev .release table p none f f s =
        .ok (.ok (s.wh.region p).begin, { s with wh := s.wh.setRegion p ({ · with npages := n }) }) := by
    intro n hn
    have hgrow : Uvm.onPhys (Uvm.growTo .release table b f) s = .ok (.ok (), s) := by
      unfold Uvm.growTo
      rw [if_neg (by omega)]
      rfl
    unfold Uvm.extendPrev
    rw [K.bind_of_ok (K.get_apply s), Uvm.regionEnd_eq hr hp, pure_bind, hb, K.bind_of_ok hgrow]
    dsimp only
    rw [hn, pure_bind]
    rfl
  unfold VA_MAX at hw
  rcases le_or_gt (s.wh.region p).begin f with hle | hgt
  · refine ⟨_, hrun _ (Uvm.pagesBetween_eq hle), .inl ?_⟩
    unfold PGSIZE
    omega
  · have hsub : (Uvm.pagesBetween .release f (s.wh.region p).begin : K Vm Nat) =
        pure ((f + 2 ^ 64 - (s.wh.region p).begin) % 2 ^ 64 / PGSIZE % 2 ^ 32) := by
      unfold Uvm.pagesBetween
      rw [subW_release hgt, pure_bind]
    refine ⟨_, hrun _ hsub, .inr ?_⟩
    unfold PGSIZE
    omega

lemma VmInv.extendPrev_unsound {n : Nat} (h : VmInv s table (pre ++ p :: post) free node m own used)
    (hn : (s.wh.region p).begin + n * PGSIZE < (s.wh.span p).2 ∨ MMAP_END < (s.wh.region p).begin + n * PGSIZE) :
    ¬Vm.Sound { s with wh := s.wh.setRegion p ({ · with npages := n }) } table := by
  have hp : p ∈ pre ++ p :: post := by simp
  have hspan : s.wh.span p ∈ s.wh.spans (pre ++ p :: post) := MmapWarehouse.mem_spans hp
  obtain ⟨wh', hwh⟩ : ∃ w, w = s.wh.setRegion p ({ · with npages := n }) := ⟨_, rfl⟩
  rw [← hwh]
  intro hsound
  obtain ⟨hr, hagree⟩ := hsound.of_chain (hwh ▸ h.lists.setRegion hp rfl).regions
  dsimp only at hr hagree
  have hnew : wh'.span p = ((s.wh.region p).begin, (s.wh.region p).begin + n * PGSIZE) := by
    rw [hwh, Uvm.span_setRegion]
  rcases hn with hn | hn
  · -- the last page of the region is mapped, but belongs to no region now
    have hb := h.regions.bounds _ hspan
    have hlt := h.regions.separated.lt _ hspan
    have hbegin : (s.wh.span p).1 = (s.wh.region p).begin := rfl
    obtain ⟨j, hj⟩ := (h.regions.dvd _ hspan).1
    obtain ⟨k, hk⟩ := (h.regions.dvd _ hspan).2
    obtain ⟨hlow, hhigh⟩ : (s.wh.span p).1 ≤ (k - 1) * PGSIZE ∧ (k - 1) * PGSIZE < (s.wh.span p).2 := by
      unfold PGSIZE at *
      omega
    have hq : InWindow (k - 1) := ⟨by omega, by omega⟩
    have hmapped : s.page table (k - 1) ≠ none := by
      rw [h.page_eq hq.lt]
      exact (h.agree _ hq).mpr ⟨_, hspan, hlow, hhigh⟩
    obtain ⟨r, hr', hin⟩ := (hagree _ hq).mp hmapped
    have hsame : ∀ i ∈ pre ++ post, wh'.span i = s.wh.span i := by
      intro i hi
      rw [hwh]
      refine MmapWarehouse.span_eq (MmapWarehouse.setRegion_of_ne ?_ _)
      rintro rfl
      exact (List.nodup_cons.mp (List.nodup_middle.mp (List.nodup_append.mp h.lists.nodup).1)).1 hi
    rw [MmapWarehouse.spans_append, MmapWarehouse.spans_cons, List.mem_append, List.mem_cons,
      MmapWarehouse.spans_congr fun i hi => hsame i (List.mem_append_left _ hi),
      MmapWarehouse.spans_congr fun i hi => hsame i (List.mem_append_right _ hi)] at hr'
    have hsep := h.regions.separated
    rw [MmapWarehouse.spans_append, MmapWarehouse.spans_cons] at hsep
    obtain ⟨-, hsep, hbefore⟩ := Separated.append_iff.mp hsep
    obtain ⟨-, hafter, -⟩ := Separated.cons_iff.mp hsep
    rcases hr' with hr' | rfl | hr'
    · have hgap := hbefore r hr' (s.wh.span p) (by simp)
      omega
    · rw [hnew] at hin
      dsimp only at hin
      unfold PGSIZE at *
      omega
    · have hgap := hafter r hr'
      omega
  · have hb := (hr.bounds _ (MmapWarehouse.mem_spans hp)).2
    rw [hnew] at hb
    dsimp only at hb
    omega

lemma VmInv.insert_unsound {x e : Nat} {free' : List Nat} (h : VmInv s table (pre ++ post) free node m own used)
    (hpre : ∀ r ∈ s.wh.spans pre, r.2 < b) (hl : RegionLists s'.wh s'.head (pre ++ x :: post) free') (hph : s'.ph = s.ph)
    (hsame : ∀ i ∈ pre ++ post, s'.wh.span i = s.wh.span i) (hx : s'.wh.span x = (b, e)) : ¬s'.Sound table := by
  intro hsound
  obtain ⟨hr, hagree⟩ := hsound.of_chain hl.regions
  rw [MmapWarehouse.spans_append, MmapWarehouse.spans_cons, hx,
    MmapWarehouse.spans_congr fun i hi => hsame i (List.mem_append_left _ hi),
    MmapWarehouse.spans_congr fun i hi => hsame i (List.mem_append_right _ hi)] at hr hagree
  have hmem : (b, e) ∈ s.wh.spans pre ++ (b, e) :: s.wh.spans post := by simp
  have hb := hr.bounds _ hmem
  have hlt := hr.separated.lt _ hmem
  dsimp only at hb hlt
  obtain ⟨k, hk⟩ := (hr.dvd _ hmem).1
  have hq : InWindow k := by
    unfold InWindow
    rw [Nat.mul_comm, ← hk]
    exact ⟨hb.1, by omega⟩
  have hmapped : s'.page table k ≠ none := by
    refine (hagree k hq).mpr ⟨_, hmem, ?_⟩
    rw [Nat.mul_comm, ← hk]
    exact ⟨le_rfl, hlt⟩
  have hpage : s.page table k ≠ none := by
    unfold Vm.page at hmapped ⊢
    rwa [hph] at hmapped
  rw [h.page_eq hq.lt] at hpage
  obtain ⟨r, hr', hin⟩ := (h.agree k hq).mp hpage
  rw [Nat.mul_comm, ← hk] at hin
  rw [MmapWarehouse.spans_append, List.mem_append] at hr'
  rcases hr' with hr' | hr'
  · have := hpre r hr'
    omega
  · have hsep := (Separated.append_iff.mp hr.separated).2.1
    have hgap := (Separated.cons_iff.mp hsep).2.1 r hr'
    dsimp only at hgap
    omega

/-- A range that wraps is taken where no region is in its way and the list can take it, and refused otherwise. -/
lemma VmInv.placeRegion_wrap {npages : Nat} (h : VmInv s table (pre ++ post) free node m own used) (hb : PGSIZE ∣ b)
    (hb' : b < 2 ^ 64) (hn : npages * PGSIZE < 2 ^ 64) (hwrap : 2 ^ 64 ≤ b + npages * PGSIZE) (hfb : f < b)
    (hpre : ∀ i ∈ pre, (s.wh.span i).1 < b) (hpost : ∀ i, post.head? = some i → b ≤ (s.wh.span i).1) :
    if (∀ r ∈ s.wh.spans (pre ++ post), r.1 < b → r.2 ≤ b) ∧
        ((∃ r ∈ s.wh.spans (pre ++ post), r.2 = b) ∨ s.wh.init.head ≠ none)
    then ∃ v s', Uvm.placeRegion .release table b f npages pre.getLast? post.head? s = .ok (.ok v, s') ∧ ¬s'.Sound table
    else ∃ e s', Uvm.placeRegion .release table b f npages pre.getLast? post.head? s = .ok (.error e, s') := by
  rcases @Uvm.placeRegion_wrap b f npages .release s table pre post h.regions hfb hpre hpost with ⟨hrun, r, hr, hlt, hgt⟩ |
    ⟨hclear, ⟨pre', p, rfl, hp, hrun⟩ | ⟨hbefore, hrun⟩⟩
  · rw [if_neg fun hin => absurd (hin.1 r hr hlt) (by omega)]
    exact ⟨_, _, hrun⟩
  · have hmem : p ∈ pre' ++ [p] ++ post := by simp
    rw [if_pos ⟨hclear, .inl ⟨_, MmapWarehouse.mem_spans hmem, hp⟩⟩, hrun]
    obtain ⟨n, hext, hbad⟩ := @extendPrev_wrap s table _ p b f h.regions hmem hp hfb
    rw [List.append_assoc, List.singleton_append] at h
    rw [← hp] at hbad
    exact ⟨_, _, hext, h.extendPrev_unsound hbad⟩
  · rw [hrun]
    have hmap : Uvm.mapPages .release table b npages s.ph = .ok (.ok (), s.ph) := Uvm.mapPages_wrap hb hb' hn hwrap
    have hends : ∀ r ∈ s.wh.spans (pre ++ post), r.2 ≠ b := by
      have hafter := Uvm.lt_spans (f := b - 1) (Separated.append_iff.mp
        (MmapWarehouse.spans_append s.wh ▸ h.regions.separated)).2.1 fun c hc => by have := hpost c hc; omega
      intro r hr
      have hlt := h.regions.separated.lt r hr
      rw [MmapWarehouse.spans_append, List.mem_append] at hr
      rcases hr with hr | hr
      · exact (hbefore r hr).ne
      · have := hafter r hr
        omega
    cases hins : Uvm.insertNew .release table b npages pre.getLast? post.head? s with
    | error e =>
      have herr := Uvm.insertNew_eq_error hins
      rw [hmap] at herr
      cases herr
    | ok out =>
      obtain ⟨r, s'⟩ := out
      obtain ⟨res, ph', hmap', hcases⟩ := Uvm.insertNew_ok h.lists hins
      rw [hmap] at hmap'
      cases hmap'
      rcases hcases with ⟨e, he, -⟩ | ⟨-, ⟨rfl, hfree, -⟩ | ⟨x, rest, u, rfl, rfl, hlink⟩⟩
      · cases he
      · rw [if_neg]
        · exact ⟨_, _, rfl⟩
        · rintro ⟨-, ⟨r, hr, heq⟩ | hhead⟩
          · exact hends r hr heq
          · exact hhead (h.lists.free_eq_nil.mp hfree)
      · rw [if_pos ⟨hclear, .inr fun hnone => by cases h.lists.free_eq_nil.mpr hnone⟩]
        obtain ⟨hl, -, hph, hsame, hx⟩ := h.lists.insert (s := s) rfl hlink
        exact ⟨_, _, rfl, h.insert_unsound hbefore hl hph hsame hx⟩

/-! ### The calls -/

lemma alignUp_dev {σ : Type} (h : 2 ^ 64 ≤ v + 4095) : (alignUp .dev v : K σ Nat) = throw .overflow := by
  have hadd : (addW .dev 64 v PGMASK : K σ Nat) = throw .overflow := addW_dev h
  unfold alignUp
  rw [hadd]
  rfl

lemma alignUp_release {σ : Type} :
    (alignUp .release v : K σ Nat) = pure (alignDown ((v + 4095) % 2 ^ 64)) := by
  have hadd : (addW .release 64 v PGMASK : K σ Nat) = pure ((v + 4095) % 2 ^ 64) := addW_release
  unfold alignUp
  rw [hadd, pure_bind]

lemma mmap_overflow (hlen : 0 < len)
    (hwrap : 2 ^ 64 ≤ len + 4095 ∨ MMAP_BEGIN ≤ begin ∧ 2 ^ 64 ≤ begin + Uvm.pageSize len) :
    Uvm.mmap .dev table begin len MMAP_BEGIN MMAP_END s = .error .overflow := by
  by_cases hup : 2 ^ 64 ≤ len + 4095
  · unfold Uvm.mmap
    rw [if_neg (by omega), alignUp_dev hup]
    rfl
  · obtain ⟨hlow, hend⟩ := hwrap.resolve_left hup
    have hw := mmap_window.2.2.1
    obtain ⟨hmul, hsize⟩ : Uvm.pageSize len / PGSIZE * PGSIZE = Uvm.pageSize len ∧ Uvm.pageSize len < 2 ^ 64 := by
      unfold Uvm.pageSize PGSIZE
      omega
    rw [Uvm.mmap_eq_mmapAt hlen (by omega) (by omega)]
    unfold Uvm.mmapAt
    rw [if_neg (by omega), mulW_of_lt _ (by omega), pure_bind, addW_dev (by omega)]
    rfl

lemma VmInv.mmap_wrap (h : VmInv s table ids free node m own used) (hbegin : begin < 2 ^ 64) (hlen : 0 < len)
    (hup : len + 4095 < 2 ^ 64) (hwrap : 2 ^ 64 ≤ begin + Uvm.pageSize len) :
    (MmapWraps .release s ids begin len →
      ∃ v s', Uvm.mmap .release table begin len MMAP_BEGIN MMAP_END s = .ok (.ok v, s') ∧ ¬s'.Sound table) ∧
    (¬MmapWraps .release s ids begin len →
      ∃ e s', Uvm.mmap .release table begin len MMAP_BEGIN MMAP_END s = .ok (.error e, s')) := by
  obtain ⟨hmul, hsize⟩ : Uvm.pageSize len / PGSIZE * PGSIZE = Uvm.pageSize len ∧ Uvm.pageSize len < 2 ^ 64 := by
    unfold Uvm.pageSize PGSIZE
    omega
  rw [Uvm.mmap_eq_mmapAt hlen hup (by omega)]
  rcases Uvm.mmapAt_eq table (b := begin) h.lists (show Uvm.pageSize len / PGSIZE * PGSIZE < 2 ^ 64 by omega) addW_release with
    ⟨hrun, hnot⟩ | ⟨hd, hlow, hmax, pre, post, rfl, hpre, hpost, hrun⟩
  · refine ⟨?_, fun _ => ⟨_, _, hrun⟩⟩
    rintro ⟨-, -, hlow, hd, -, hmax, -⟩
    exact absurd ⟨hd, hlow, by omega⟩ hnot
  · rw [hrun]
    have hplace := h.placeRegion_wrap (f := (begin + Uvm.pageSize len / PGSIZE * PGSIZE) % 2 ^ 64) hd hbegin
      (show Uvm.pageSize len / PGSIZE * PGSIZE < 2 ^ 64 by omega) (by omega) (by omega) hpre hpost
    split_ifs at hplace with hin
    · exact ⟨fun _ => hplace, fun hnot => absurd ⟨hlen, hup, hlow, hd, hwrap, by omega, hin⟩ hnot⟩
    · exact ⟨fun hwraps => absurd hwraps.2.2.2.2.2.2 hin, fun _ => hplace⟩

lemma VmInv.mmap_safe (h : VmInv s table ids free node m own used) (hwrap : begin + Uvm.pageSize len < 2 ^ 64) :
    SafeCall (Uvm.mmap P table begin len MMAP_BEGIN MMAP_END) s table := by
  refine ⟨fun e he => ?_, fun v s' he => ?_⟩
  · have hmem := Uvm.mmap_error h.lists h.regions hwrap he
    constructor
    · rintro rfl
      exact absurd hmem (by decide)
    · rintro rfl
      exact absurd hmem (by decide)
  · obtain ⟨b, ids', free', node', m', used', h', -⟩ := h.mmap hwrap he
    exact h'.sound

lemma SafeCall.of_error {α : Type} {x : K Vm (Except UvmError α)} {e : UvmError} (h : x s = .ok (.error e, s')) :
    SafeCall x s table := by
  refine ⟨fun e he => ?_, fun v s' he => ?_⟩
  · rw [h] at he
    cases he
  · rw [h] at he
    cases he

theorem VmInv.mmap_safe_iff (h : VmInv s table ids free node m own used) (hbegin : begin < 2 ^ 64) (hlen : len < 2 ^ 64) :
    SafeCall (Uvm.mmap P table begin len MMAP_BEGIN MMAP_END) s table ↔ ¬MmapWraps P s ids begin len := by
  constructor
  · rintro hsafe ⟨hpos, hwraps⟩
    cases P with
    | dev => exact (hsafe.1 _ (mmap_overflow hpos hwraps)).1 rfl
    | release =>
      have hup := hwraps.1
      have hend := hwraps.2.2.2.1
      obtain ⟨v, s', he, hbad⟩ := (h.mmap_wrap hbegin hpos hup hend).1 ⟨hpos, hwraps⟩
      exact hbad (hsafe.2 v s' he)
  · intro hnot
    by_cases hpos : 0 < len
    · by_cases hwrap : begin + Uvm.pageSize len < 2 ^ 64
      · exact h.mmap_safe hwrap
      by_cases hup : len + 4095 < 2 ^ 64
      · cases P with
        | dev =>
          have hlow : begin < MMAP_BEGIN := by
            by_contra hlow
            exact hnot ⟨hpos, .inr ⟨by omega, by omega⟩⟩
          have hzero : begin ≠ 0 := by
            unfold Uvm.pageSize at hwrap
            omega
          have hrun : Uvm.mmap .dev table begin len MMAP_BEGIN MMAP_END s = .ok (.error .outOfRange, s) := by
            rw [Uvm.mmap_eq_mmapAt hpos hup hzero, Uvm.mmapAt, if_pos hlow]
            rfl
          exact .of_error hrun
        | release =>
          obtain ⟨e, s', he⟩ := (h.mmap_wrap hbegin hpos hup (by omega)).2 hnot
          exact .of_error he
      · cases P with
        | dev => exact absurd ⟨hpos, .inl (by omega)⟩ hnot
        | release =>
          have hzero : alignDown ((len + 4095) % 2 ^ 64) / PGSIZE = 0 := by
            rw [alignDown_eq]
            unfold PGSIZE
            omega
          have hrun : Uvm.mmap .release table begin len MMAP_BEGIN MMAP_END s = .ok (.error .outOfRange, s) := by
            rw [Uvm.mmap, if_neg (by omega), alignUp_release, pure_bind, if_pos hzero]
            rfl
          exact .of_error hrun
    · have hrun : Uvm.mmap P table begin len MMAP_BEGIN MMAP_END s = .ok (.error .outOfRange, s) := by
        rw [Uvm.mmap, if_pos (by omega)]
        rfl
      exact .of_error hrun

theorem VmInv.munmap_safe_iff (h : VmInv s table ids free node m own used) :
    SafeCall (Uvm.munmap P table begin len) s table ↔ ¬MunmapWraps P begin len := by
  constructor
  · rintro hsafe ⟨rfl, hpos, hwrap⟩
    refine (hsafe.1 .overflow ?_).1 rfl
    unfold Uvm.munmap
    rw [if_neg (by omega)]
    by_cases hsum : 2 ^ 64 ≤ begin + len
    · rw [addW_dev hsum]
      rfl
    · rw [addW_of_lt _ (by omega), pure_bind, alignUp_dev hwrap]
      rfl
  · intro hnot
    refine ⟨fun e he => ?_, fun v s' he => ?_⟩
    · by_cases hpos : 0 < len
      · have hmem : e ∈ .unmapOutOfBounds :: Pmem.freeErrors := by
          cases P with
          | dev =>
            refine Uvm.munmap_error h.lists h.regions ?_ he
            by_contra hwrap
            exact hnot ⟨rfl, hpos, by omega⟩
          | release =>
            unfold Uvm.munmap at he
            rw [if_neg (by omega), addW_release, pure_bind, alignUp_release, pure_bind] at he
            split_ifs at he
            · cases he
            · exact Uvm.munmapRange_error h.lists h.regions ⟨Uvm.dvd_alignDown _, Uvm.dvd_alignDown _⟩ he
        constructor
        · rintro rfl
          exact absurd hmem (by decide)
        · rintro rfl
          exact absurd hmem (by decide)
      · rw [Uvm.munmap, if_pos (by omega)] at he
        cases he
    · rcases Uvm.munmap_cases h.lists h.regions h.space h.owned he with ⟨-, rfl⟩ | ⟨hr, -⟩ | ⟨fin, hlt, hd, -, hok⟩
      · exact h.sound
      · exact absurd rfl hr
      · obtain ⟨ids', free', m', used', h', -⟩ := h.cut hlt ⟨Uvm.dvd_alignDown _, hd⟩ hok
        exact h'.sound

/-- `mmap` and `munmap` are safe except for arguments that wrap, and `munmap` for all of them in a build without overflow
checks. -/
theorem mmap_munmap_safe_iff (h : VmInv s table ids free node m own used) (hbegin : begin < 2 ^ 64) (hlen : len < 2 ^ 64) :
    (SafeCall (Uvm.mmap P table begin len MMAP_BEGIN MMAP_END) s table ↔ ¬MmapWraps P s ids begin len) ∧
      (SafeCall (Uvm.munmap P table begin len) s table ↔ ¬MunmapWraps P begin len) :=
  ⟨h.mmap_safe_iff hbegin hlen, h.munmap_safe_iff⟩

theorem mmap_munmap_safe_fewPages :
    SafeCall (Uvm.mmap .release 0x80000 MMAP_BEGIN 4096 MMAP_BEGIN MMAP_END) fewPages 0x80000 ∧
      SafeCall (Uvm.munmap .release 0x80000 (2 ^ 64 - 1) (2 ^ 64 - 1)) fewPages 0x80000 := by
  refine ⟨(mmap_munmap_safe_iff fewPages_inv (by decide) (by decide)).1.mpr ?_,
    (mmap_munmap_safe_iff fewPages_inv (by decide) (by decide)).2.mpr nofun⟩
  rintro ⟨-, -, -, -, hwrap, -⟩
  exact absurd hwrap (by decide)

end Arguments

/-- From the start of the window to the end of the address space: a build with overflow checks panics, and one without them
records a region that ends behind the window. -/
theorem mmap_takes_wrapped_range :
    Uvm.mmap .dev 0x80000 MMAP_BEGIN (2 ^ 64 - MMAP_BEGIN) MMAP_BEGIN MMAP_END fewPages = .error .overflow ∧
      ∃ s', Uvm.mmap .release 0x80000 MMAP_BEGIN (2 ^ 64 - MMAP_BEGIN) MMAP_BEGIN MMAP_END fewPages =
          .ok (.ok MMAP_BEGIN, s') ∧ s'.head = some 0 ∧ MMAP_END < (s'.wh.span 0).2 ∧ ¬s'.Sound 0x80000 := by
  have hdev : 2 ^ 64 ≤ MMAP_BEGIN + Uvm.pageSize (2 ^ 64 - MMAP_BEGIN) := by decide
  refine ⟨mmap_overflow (by decide) (.inr ⟨le_rfl, hdev⟩), ?_⟩
  obtain ⟨v, s₁, hbad, hsound⟩ := (fewPages_inv.mmap_wrap (show MMAP_BEGIN < 2 ^ 64 by decide)
    (show 0 < 2 ^ 64 - MMAP_BEGIN by decide) (by decide) hdev).1 ⟨by decide, by decide, le_rfl, mmap_window.1, hdev, by decide, by simp,
      .inr (by decide)⟩
  obtain ⟨s₂, he⟩ := K.exists_of_run' (a := (.ok MMAP_BEGIN, true)) (s := fewPages)
    (x := do
      let r ← Uvm.mmap .release 0x80000 MMAP_BEGIN (2 ^ 64 - MMAP_BEGIN) MMAP_BEGIN MMAP_END
      let s ← get
      return (r, decide (s.head = some 0 ∧ MMAP_END < (s.wh.span 0).2))) (by decide +kernel)
  obtain ⟨r, s₃, hmap, he⟩ := K.bind_eq_ok.mp he
  simp only [K.bind_apply, K.get_apply, Except.bind, K.pure_apply, Except.ok.injEq, Prod.mk.injEq, decide_eq_true_eq] at he
  obtain ⟨⟨rfl, hhead, hend⟩, rfl⟩ := he
  rw [hbad] at hmap
  cases hmap
  exact ⟨_, hbad, hhead, hend, hsound⟩

end Glenda.Mem
