import Glenda.Mem.MmapPanics

/-!
# How `mmap` and `munmap` end

A call of `mmap` without an address takes the lowest gap that is large enough. A call that fails has changed nothing,
except that `mmap` and `munmap` map and unmap pages before they ask the warehouse for a node.
-/

namespace Glenda.Mem
open Glenda.Lib

/-- The `n` pages from `p` on lie in the window and belong to no region. -/
def FreeRun (l : List (Nat × Nat)) (p n : Nat) : Prop := ∀ q, p ≤ q → q < p + n → InWindow q ∧ ¬pagesOf l q

lemma freeRun_iff {l : List (Nat × Nat)} {p n : Nat} (hl : ∀ r ∈ l, PGSIZE ∣ r.1 ∧ PGSIZE ∣ r.2) (hn : 0 < n) :
    FreeRun l p n ↔ Uvm.Vacant l (p * PGSIZE) (n * PGSIZE) := by
  obtain ⟨a, ha⟩ := mmap_window.1
  obtain ⟨z, hz⟩ := mmap_window.2.1
  constructor
  · intro h
    have hfirst := (h p le_rfl (by omega)).1
    have hlast := (h (p + n - 1) (by omega) (by omega)).1
    unfold InWindow at hfirst hlast
    refine ⟨Nat.dvd_mul_left _ _, hfirst.1, ?_, ?_⟩
    · unfold PGSIZE at *
      omega
    · rintro x ⟨r, hr, hx⟩ hx'
      obtain ⟨⟨i, hi⟩, j, hj⟩ := hl r hr
      refine (h (x / PGSIZE) ?_ ?_).2 ⟨r, hr, ?_⟩
      all_goals
        unfold PGSIZE at *
        omega
  · rintro ⟨-, hlow, hhigh, hclear⟩ q hq hq'
    have hx : p * PGSIZE ≤ q * PGSIZE ∧ q * PGSIZE < p * PGSIZE + n * PGSIZE := by
      unfold PGSIZE
      omega
    exact ⟨⟨by omega, by omega⟩, fun hc => hclear _ hc hx⟩

section Outcomes

variable {P : Profile} {s s' : Vm} {table begin len : Nat} {ids free : List Nat} {node : List Nat → Option Nat} {m : PageMap}
  {own : Nat → Entry → Prop} {used : Nat → Prop} {r : Except UvmError Nat}

lemma RegionLists.free_eq_nil {wh : MmapWarehouse} {head : Option Nat} (h : RegionLists wh head ids free) :
    free = [] ↔ wh.init.head = none := by
  rw [h.unused.head_eq, List.head?_eq_none_iff]

/-- `mmap` refuses its range and changes nothing, or it finds one and maps its pages. Then it joins the range to the list, or
has no node for it. -/
lemma VmInv.mmap_outcomes (h : VmInv s table ids free node m own used)
    (hwrap : begin + Uvm.pageSize len < 2 ^ 64) (he : Uvm.mmap P table begin len MMAP_BEGIN MMAP_END s = .ok (r, s')) :
    (r = .error .outOfRange ∧ s' = s ∧
      (0 < len → ∀ b, (begin ≠ 0 → b = begin) → ¬Uvm.Vacant (s.wh.spans ids) b (Uvm.pageSize len))) ∨
    ∃ b node' m' used', 0 < len ∧ Uvm.Vacant (s.wh.spans ids) b (Uvm.pageSize len) ∧
      Uvm.Starts (s.wh.spans ids) begin (Uvm.pageSize len) b ∧
      (begin = 0 → ∀ c, Uvm.Vacant (s.wh.spans ids) c (Uvm.pageSize len) → b ≤ c) ∧
      Space s'.ph table node' m' own used' ∧ Grown s.ph s'.ph node node' m m' own used used'
        (fun q => b ≤ q * PGSIZE ∧ q * PGSIZE < b + Uvm.pageSize len) ∧
      ((r = .error .noMem ∧ free = [] ∧ ∀ x ∈ s.wh.spans ids, x.2 < b ∨ b + Uvm.pageSize len < x.1) ∨
        ∃ lo, r = .ok lo ∧ Uvm.Placed s s' ids free b (b + Uvm.pageSize len) lo) := by
  rcases Uvm.mmap_spec h.lists h.regions hwrap he with hout | ⟨b, hlen, hb, hlow, hhigh, ⟨hst, hleast⟩, hdisj, res, hmap, hfin⟩
  · exact .inl hout
  have hwindow : ∀ q, b ≤ q * PGSIZE ∧ q * PGSIZE < b + Uvm.pageSize len → InWindow q := fun q hq => ⟨by omega, by omega⟩
  have hown : Uvm.Ownable s.ph m own fun q => b ≤ q * PGSIZE ∧ q * PGSIZE < b + Uvm.pageSize len :=
    ⟨fun q x hq hx => h.new q x (hwindow q hq) hx, fun q e hq hm => h.owned q e (hwindow q hq).1 (hwindow q hq).2 hm⟩
  rcases Uvm.mapPages_ok h.space hb (Nat.dvd_mul_left _ _) (hhigh.trans mmap_window.2.2.2.2.le) hown hmap with
    ⟨rfl, node', m', used', hsp, hg⟩ | ⟨rfl, ⟨q, hq, hm⟩, -⟩
  · refine .inr ⟨b, node', m', used', hlen, ⟨hb, hlow, hhigh, hdisj⟩, hst, hleast, hsp, hg, ?_⟩
    rcases hfin with ⟨e, he, -⟩ | ⟨-, hnomem, hfree, hapart, -⟩ | ⟨-, hplaced⟩
    · cases he
    · exact .inl ⟨hnomem, hfree, hapart⟩
    · exact .inr hplaced
  · exact absurd hq (hdisj _ ((h.agree q (hwindow q hq)).mp hm))

lemma pageSize_pos (hlen : 0 < len) : 0 < Uvm.pageSize len := by
  unfold Uvm.pageSize
  omega

lemma InWindow.lt {q : Nat} (h : InWindow q) : q < 2 ^ 26 := by
  have hw := h.2.trans mmap_window.2.2.2.2
  unfold PGSIZE VA_MAX at hw
  omega

lemma VmInv.page_grown {node' : List Nat → Option Nat} {m' : PageMap} {used' : Nat → Prop} {S : Nat → Prop}
    (h : VmInv s table ids free node m own used) (hsp : Space s'.ph table node' m' own used')
    (hg : Grown s.ph s'.ph node node' m m' own used used' S) (hS : ∀ q, S q → InWindow q) (q : Nat) :
    (S q → s.page table q = none ∧ s'.page table q ≠ none) ∧ (¬S q → s'.page table q = s.page table q) := by
  have hpage : q < 2 ^ 26 → s'.page table q = m' q := by
    intro hq
    unfold Vm.page
    rw [hsp.tree.denote_eq (PageTable.page_lt hq), div_mul_PGSIZE]
  constructor
  · intro hq
    have hlt := (hS q hq).lt
    obtain ⟨hnone, e, hm, -⟩ := hg.new q hq
    rw [h.page_eq hlt, hpage hlt, hm]
    exact ⟨hnone, nofun⟩
  · intro hq
    by_cases hlt : q < 2 ^ 26
    · rw [h.page_eq hlt, hpage hlt, hg.old q hq]
    · rw [Vm.page_of_le _ _ (by omega), Vm.page_of_le _ _ (by omega)]

/-- Without an address `mmap` fails only if the window has no run of free pages that is long enough, and otherwise it maps
the lowest one. -/
theorem mmap_first_fit (h : VmInv s table ids free node m own used) (hlen : 0 < len) (hsize : Uvm.pageSize len < 2 ^ 64)
    (hnodes : s.wh.init.head ≠ none)
    (hpages : ∀ e ∈ Pmem.allocErrors, Uvm.mmap P table 0 len MMAP_BEGIN MMAP_END s ≠ .error e) :
    ∃ r s', Uvm.mmap P table 0 len MMAP_BEGIN MMAP_END s = .ok (r, s') ∧
      (r = .error .outOfRange ↔ ¬∃ p, FreeRun (s.wh.spans ids) p (Uvm.pageSize len / PGSIZE)) ∧
      ∀ p, FreeRun (s.wh.spans ids) p (Uvm.pageSize len / PGSIZE) →
        (∀ p', FreeRun (s.wh.spans ids) p' (Uvm.pageSize len / PGSIZE) → p ≤ p') →
        (∃ va, r = .ok va) ∧ ∀ q, if p ≤ q ∧ q < p + Uvm.pageSize len / PGSIZE
          then s.page table q = none ∧ s'.page table q ≠ none else s'.page table q = s.page table q := by
  obtain ⟨hmul, hn⟩ : Uvm.pageSize len / PGSIZE * PGSIZE = Uvm.pageSize len ∧ 0 < Uvm.pageSize len / PGSIZE := by
    unfold Uvm.pageSize PGSIZE
    omega
  have hiff : ∀ p, FreeRun (s.wh.spans ids) p (Uvm.pageSize len / PGSIZE) ↔
      Uvm.Vacant (s.wh.spans ids) (p * PGSIZE) (Uvm.pageSize len) := by
    intro p
    rw [freeRun_iff h.regions.dvd hn, hmul]
  cases hrun : Uvm.mmap P table 0 len MMAP_BEGIN MMAP_END s with
  | error e => exact absurd hrun (hpages e (Uvm.mmap_error h.lists h.regions (by omega) hrun))
  | ok res =>
    obtain ⟨r, s'⟩ := res
    refine ⟨r, s', rfl, ?_⟩
    rcases h.mmap_outcomes (by omega) hrun with ⟨rfl, rfl, hnone⟩ |
      ⟨b, node', m', used', -, hb, -, hleast, hsp, hg, hend⟩
    · have hno : ¬∃ p, FreeRun (s'.wh.spans ids) p (Uvm.pageSize len / PGSIZE) := by
        rintro ⟨p, hp⟩
        exact hnone hlen (p * PGSIZE) (fun hz => absurd rfl hz) ((hiff p).mp hp)
      exact ⟨iff_of_true rfl hno, fun p hp => absurd ⟨p, hp⟩ hno⟩
    · obtain ⟨lo, rfl⟩ : ∃ lo, r = .ok lo := by
        rcases hend with ⟨-, hfree, -⟩ | ⟨lo, hlo, -⟩
        · exact absurd (h.lists.free_eq_nil.mp hfree) hnodes
        · exact ⟨lo, hlo⟩
      obtain ⟨c, rfl⟩ := hb.1
      rw [Nat.mul_comm] at hb hleast hg
      refine ⟨iff_of_false nofun (not_not.mpr ⟨c, (hiff c).mpr hb⟩), fun p hp hmin => ⟨⟨lo, rfl⟩, fun q => ?_⟩⟩
      -- the lowest run is the one that the call has found
      have hpc : p = c := by
        have h₁ := hmin c ((hiff c).mpr hb)
        have h₂ := hleast rfl _ ((hiff p).mp hp)
        unfold PGSIZE at h₂
        omega
      have hS : (p ≤ q ∧ q < p + Uvm.pageSize len / PGSIZE) ↔
          c * PGSIZE ≤ q * PGSIZE ∧ q * PGSIZE < c * PGSIZE + Uvm.pageSize len := by
        rw [hpc, ← hmul]
        unfold PGSIZE
        omega
      have hpage := h.page_grown hsp hg (fun q hq => ⟨hb.2.1.trans hq.1, hq.2.trans_le hb.2.2.1⟩) q
      split_ifs with hq
      · exact hpage.1 (hS.mp hq)
      · exact hpage.2 fun hc => hq (hS.mpr hc)

theorem mmap_first_fit_fewPages : ∃ r s', Uvm.mmap .dev 0x80000 0 4096 MMAP_BEGIN MMAP_END fewPages = .ok (r, s') ∧
    (r = .error .outOfRange ↔ ¬∃ p, FreeRun [] p 1) := by
  obtain ⟨s₁, he⟩ := K.exists_of_run' (a := .ok MMAP_BEGIN) (s := fewPages)
    (x := Uvm.mmap .dev 0x80000 0 4096 MMAP_BEGIN MMAP_END) (by decide +kernel)
  obtain ⟨r, s', hrun, hiff, -⟩ := @mmap_first_fit .dev _ _ 4096 _ _ _ _ _ _ fewPages_inv (by decide) (by decide) (by decide)
    fun e _ hcon => by rw [he] at hcon; cases hcon
  exact ⟨r, s', hrun, hiff⟩

/-! ### Calls that fail -/

/-- The call asks for a region that touches no other. -/
def NeedsNode (l : List (Nat × Nat)) (begin len : Nat) : Prop :=
  0 < len ∧ ∃ b, b = (if begin = 0 then MMAP_BEGIN else begin) ∧ PGSIZE ∣ b ∧ MMAP_BEGIN ≤ b ∧ b + Uvm.pageSize len ≤ MMAP_END ∧
    ∀ r ∈ l, r.2 < b ∨ b + Uvm.pageSize len < r.1

/-- The call cuts a region in two. -/
def Splits (l : List (Nat × Nat)) (begin len : Nat) : Prop :=
  0 < len ∧ ∃ r ∈ l, r.1 < alignDown begin ∧ Uvm.pageSize (begin + len) < r.2

/-- The list, the pages that are mapped and the free pages are as before. -/
structure Unchanged (s s' : Vm) (table : Nat) : Prop where
  list : ∀ ids, Chain s.wh.nextRegion s.head ids → Chain s'.wh.nextRegion s'.head ids ∧ s'.wh.spans ids = s.wh.spans ids
  page : ∀ q, s'.page table q = s.page table q
  free : ∀ k p, s'.ph.OnFree k p ↔ s.ph.OnFree k p

lemma Unchanged.refl (s : Vm) (table : Nat) : Unchanged s s table :=
  ⟨fun _ h => ⟨h, rfl⟩, fun _ => rfl, fun _ _ => Iff.rfl⟩

lemma NeedsNode.vacant {l : List (Nat × Nat)} (h : NeedsNode l begin len) :
    Uvm.Vacant l (if begin = 0 then MMAP_BEGIN else begin) (Uvm.pageSize len) := by
  obtain ⟨-, b, rfl, hb, hlow, hhigh, hapart⟩ := h
  refine ⟨hb, hlow, hhigh, ?_⟩
  rintro x ⟨r, hr, hx⟩ hx'
  have := hapart r hr
  omega

lemma VmInv.mmap_atomic (h : VmInv s table ids free node m own used)
    (hwrap : begin + Uvm.pageSize len < 2 ^ 64) (he : Uvm.mmap P table begin len MMAP_BEGIN MMAP_END s = .ok (r, s')) :
    (∀ e, r = .error e → Unchanged s s' table) ↔ (NeedsNode (s.wh.spans ids) begin len → s.wh.init.head ≠ none) := by
  rw [ne_eq, ← h.lists.free_eq_nil]
  rcases h.mmap_outcomes hwrap he with ⟨rfl, rfl, hnone⟩ | ⟨b, node', m', used', hlen, hb, hst, hleast, hsp, hg, hend⟩
  · refine iff_of_true (fun _ _ => .refl s' table) fun hneed => ?_
    exact absurd hneed.vacant (hnone hneed.1 _ fun hz => if_neg hz)
  rcases hend with ⟨rfl, hfree, hapart⟩ | ⟨lo, rfl, ids', free', -, hmoves, hj⟩
  · -- the pages are mapped and no node is left for them
    refine iff_of_false (fun hun => ?_) fun hn => hn ⟨hlen, b, ?_, hb.1, hb.2.1, hb.2.2.1, hapart⟩ hfree
    · obtain ⟨c, rfl⟩ := hb.1
      have hpos := pageSize_pos hlen
      obtain ⟨hno, hyes⟩ := (h.page_grown hsp hg (fun q hq => ⟨hb.2.1.trans hq.1, hq.2.trans_le hb.2.2.1⟩) c).1
        ⟨by rw [Nat.mul_comm], by rw [Nat.mul_comm]; omega⟩
      exact hyes (((hun _ rfl).page c).trans hno)
    · unfold Uvm.Starts at hst
      split_ifs at hst ⊢ with hz
      · rcases hst.2 with ⟨hb', -⟩ | ⟨-, r, hr, hrb⟩
        · exact hb'
        · have h1 := hapart r hr
          have h2 := h.regions.separated.lt r hr
          omega
      · exact hst
  · refine iff_of_true nofun fun hneed hfree => ?_
    have hpos := pageSize_pos hlen
    have hbe : b = if begin = 0 then MMAP_BEGIN else begin := by
      unfold Uvm.Starts at hst
      split_ifs at hst ⊢ with hz
      · have hle := hleast hz _ hneed.vacant
        rw [if_pos hz] at hle
        exact le_antisymm hle hb.2.1
      · exact hst
    obtain ⟨-, b', hb', -, -, -, hapart⟩ := hneed
    rw [← hbe] at hb'
    subst hb'
    have hlonger := hj.length_eq (by omega) h.regions.separated.lt hapart
    have hperm := hmoves.perm.length_eq
    rw [hfree] at hperm
    simp only [MmapWarehouse.spans, List.length_map, List.length_append, List.length_nil] at hlonger hperm
    omega

lemma VmInv.munmap_atomic {r : Except UvmError Unit} (h : VmInv s table ids free node m own used)
    (hwrap : begin + len + 4095 < 2 ^ 64) (he : Uvm.munmap P table begin len s = .ok (r, s')) :
    (∀ e, r = .error e → Unchanged s s' table) ↔ (Splits (s.wh.spans ids) begin len → s.wh.init.head ≠ none) := by
  rw [ne_eq, ← h.lists.free_eq_nil]
  rcases Nat.eq_zero_or_pos len with rfl | hlen
  · cases he
    exact iff_of_true nofun fun hsplit => absurd hsplit.1 (lt_irrefl 0)
  have hrange : alignDown begin < Uvm.pageSize (begin + len) := by
    rw [alignDown_eq]
    unfold Uvm.pageSize
    omega
  rcases Uvm.munmap_spec h.lists h.regions hlen hwrap h.space h.owned he with ⟨-, ⟨q, ⟨x, hx, hq⟩, hm⟩, -⟩ |
    ⟨rfl, hfree, ⟨hin, m', used', hsp, hs⟩, -⟩ | ⟨rfl, ids', free', m', used', -, hmoves, hspans, -⟩
  · have hb := h.regions.bounds x hx
    exact absurd hm ((h.agree q ⟨by omega, by omega⟩).mpr ⟨x, hx, hq⟩)
  · -- the pages of the range are gone and the region is still whole
    refine iff_of_false (fun hun => ?_) fun hn => hn ⟨hlen, hin⟩ hfree
    obtain ⟨x, hx, hlow, hhigh⟩ := hin
    have hb := h.regions.bounds x hx
    obtain ⟨c, hc⟩ := Uvm.dvd_alignDown begin
    rw [hc, Nat.mul_comm] at hs hlow hrange
    have hwin : InWindow c := ⟨by omega, by omega⟩
    have hsame := (hun _ rfl).page c
    have hmapped := (h.agree c hwin).mpr ⟨x, hx, by omega, by omega⟩
    unfold Vm.page at hsame
    rw [hsp.tree.denote_eq (PageTable.page_lt hwin.lt), h.space.tree.denote_eq (PageTable.page_lt hwin.lt), div_mul_PGSIZE,
      (hs.gone c ⟨le_rfl, hrange⟩).1] at hsame
    exact hmapped hsame.symm
  · refine iff_of_true nofun fun hsplit hfree => ?_
    have hlonger := h.regions.separated.length_flatMap_cut hrange hsplit.2
    have hperm := hmoves.perm.length_eq
    rw [← hspans] at hlonger
    rw [hfree] at hperm
    simp only [MmapWarehouse.spans, List.length_map, List.length_append, List.length_nil] at hlonger hperm
    omega

/-- A call that returns an error has changed nothing, if and only if a node is left in case it needs one. -/
theorem mmap_munmap_atomic_iff (h : VmInv s table ids free node m own used) :
    (∀ begin len r s', begin + Uvm.pageSize len < 2 ^ 64 →
      Uvm.mmap P table begin len MMAP_BEGIN MMAP_END s = .ok (r, s') →
      ((∀ e, r = .error e → Unchanged s s' table) ↔ (NeedsNode (s.wh.spans ids) begin len → s.wh.init.head ≠ none))) ∧
    ∀ begin len r s', begin + len + 4095 < 2 ^ 64 → Uvm.munmap P table begin len s = .ok (r, s') →
      ((∀ e, r = .error e → Unchanged s s' table) ↔ (Splits (s.wh.spans ids) begin len → s.wh.init.head ≠ none)) :=
  ⟨fun _ _ _ _ hwrap he => h.mmap_atomic hwrap he, fun _ _ _ _ hwrap he => h.munmap_atomic hwrap he⟩

theorem mmap_munmap_atomic_fewPages : ∃ r s', Uvm.mmap .dev 0x80000 0 4096 MMAP_BEGIN MMAP_END fewPages = .ok (r, s') ∧
    ∀ e, r = .error e → Unchanged fewPages s' 0x80000 := by
  obtain ⟨s₁, he⟩ := K.exists_of_run' (a := .ok MMAP_BEGIN) (s := fewPages)
    (x := Uvm.mmap .dev 0x80000 0 4096 MMAP_BEGIN MMAP_END) (by decide +kernel)
  exact ⟨_, s₁, he, ((mmap_munmap_atomic_iff fewPages_inv).1 0 4096 _ s₁ (by decide) he).mpr fun _ => by decide⟩

/-- The same memory while other processes have all nodes of the warehouse. -/
def noNodes : Vm := { fewPages with wh := ⟨none, fun _ => ⟨.zero, none⟩, true⟩ }

/-- `mmap` fails for want of a node, and its page stays mapped. -/
theorem mmap_keeps_pages : ∃ s', (∃ free node m used, VmInv noNodes 0x80000 [] free node m (fun _ e => e.User) used) ∧
    Uvm.mmap .dev 0x80000 0 4096 MMAP_BEGIN MMAP_END noNodes = .ok (.error .noMem, s') ∧
    noNodes.page 0x80000 (MMAP_BEGIN / PGSIZE) = none ∧ s'.page 0x80000 (MMAP_BEGIN / PGSIZE) ≠ none := by
  have hinv : VmInv noNodes 0x80000 [] [] (fun s => if s = [] then some 0x80000 else none) (fun _ => none)
      (fun _ e => e.User) (· = 0x80000) :=
    ⟨⟨rfl, rfl, .nil, nofun⟩, .nil, fewPages_inv.space, fewPages_inv.agree, fewPages_inv.owned, fewPages_inv.new⟩
  obtain ⟨s₁, he⟩ := K.exists_of_run' (a := (.error .noMem, true)) (s := noNodes)
    (x := do
      let r ← Uvm.mmap .dev 0x80000 0 4096 MMAP_BEGIN MMAP_END
      return (r, ((← get).page 0x80000 (MMAP_BEGIN / PGSIZE)).isSome)) (by decide +kernel)
  obtain ⟨r, s₂, hmap, he⟩ := K.bind_eq_ok.mp he
  simp only [K.bind_apply, K.get_apply, Except.bind, K.pure_apply, Except.ok.injEq, Prod.mk.injEq] at he
  obtain ⟨⟨rfl, hpage⟩, rfl⟩ := he
  refine ⟨s₂, ⟨_, _, _, _, hinv⟩, hmap, by decide +kernel, fun hnone => ?_⟩
  rw [hnone] at hpage
  cases hpage

end Outcomes

end Glenda.Mem
