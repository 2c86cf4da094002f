import Glenda.Proc.Boot

/-!
# The heap of a process

`sys_brk` keeps the pages of the heap mapped as long as the heap stays below the stack. A call that fails may have mapped or
unmapped pages before it meets one that stops it.
-/

namespace Glenda.Proc
open Glenda.Lib Glenda.Mem
open Uvm (heapRange pageSize)

variable {q v low high top : Nat} {own : Nat → Entry → Prop} {e : Entry} {ring used' : Nat → Prop} {ph ph' : Phys} {m' : PageMap}
  {node' : List Nat → Option Nat}

/-- The entry of the table of the process `i` for the page number `q`. -/
def Kernel.page (k : Kernel) (i q : Nat) : Option Entry := PageTable.denote k.ph.mem (k.procs i).table (q * PGSIZE)

lemma Kernel.page_of_le (k : Kernel) (i : Nat) (h : 2 ^ 26 ≤ q) : k.page i q = none := by
  have hmax : VA_MAX ≤ q * PGSIZE := by
    unfold VA_MAX PGSIZE
    omega
  unfold Kernel.page PageTable.denote PageTable.lookup
  rw [if_pos hmax]

lemma Kernel.page_eq {k : Kernel} {i : Nat} {node : List Nat → Option Nat} {m : PageMap}
    {used : Nat → Prop} (h : Space k.ph (k.procs i).table node m own used) (hq : q < 2 ^ 26) : k.page i q = m q := by
  unfold Kernel.page
  rw [h.tree.denote_eq (PageTable.page_lt hq), div_mul_PGSIZE]

lemma Kernel.page_some {k : Kernel} {i : Nat} {node : List Nat → Option Nat} {m : PageMap} {used : Nat → Prop}
    (h : Space k.ph (k.procs i).table node m own used)
    (hq : k.page i q = some e) : m q = some e := by
  have hlt : q < 2 ^ 26 := by
    by_contra hge
    rw [k.page_of_le i (by omega)] at hq
    cases hq
  rwa [← Kernel.page_eq h hlt]

/-- The leaves of the table that own their pages. -/
def userLeaf (_ : Nat) (e : Entry) : Prop := e.User

lemma user_new (n : Nat) : (Entry.new n (Uvm.MMAP_FLAGS ||| PTE_V)).User := by
  have hflags : (Entry.new n (Uvm.MMAP_FLAGS ||| PTE_V)).flags = (Uvm.MMAP_FLAGS ||| PTE_V) % 1024 := rfl
  unfold Entry.User
  rw [hflags]
  decide

/-- What `sys_brk` relies on: the leaves of the user own their pages, and there are no others below the window of `mmap`. -/
structure HeapState (k : Kernel) (i : Nat) (node : List Nat → Option Nat) (m : PageMap) (used : Nat → Prop) : Prop where
  space : Space k.ph (k.procs i).table node m userLeaf used
  user : ∀ q e, q * PGSIZE < MMAP_BEGIN → m q = some e → e.User
  heap : (k.procs i).heapBase ≤ MMAP_BEGIN → (k.procs i).heapTop ≤ MMAP_BEGIN

lemma World.heapState {E : Env} {ph0 : Phys} {k : Kernel} {A : Holder → Asset} {used : Nat → Prop} {i : Nat}
    (h : World E ph0 ring k A used) (hi : (k.procs i).Live) : ∃ node m, HeapState k i node m used := by
  obtain ⟨-, hown⟩ := h.owns i hi
  obtain ⟨node, m, htable, humap⟩ := hown.table
  have htab := h.estate.userTable htable humap h.bounds
  refine ⟨node, m, htab.space.congr_own fun q e hm => ⟨fun hu => htab.owned hm hu, And.left⟩, fun q e hq hm => ?_, hown.heap⟩
  exact (htab.user q e hm (kernelLeaves_low (hq.trans mmap_window.2.2.2.1))).1

lemma Booted.heapState {P : Profile} {E : Env} {allowed : Kernel → Op → Bool → Prop} {k0 k : Kernel} {i : Nat}
    (h0 : Booted E ring k0) (hrun : Reaches P E allowed k0 k)
    (ha : ∀ k op b, allowed k op b → op.Typed ∧ (P = .release → op.NoWrap)) (hi : (k.procs i).Live) :
    ∃ node m used, HeapState k i node m used := by
  obtain ⟨A0, hA0, -⟩ := h0.shared
  obtain ⟨A, used, -, -, hworld, -⟩ := hA0.run hrun ha
  obtain ⟨node, m, h⟩ := hworld.heapState hi
  exact ⟨node, m, used, h⟩

variable {P : Profile} {k k' : Kernel} {i newTop r : Nat} {node : List Nat → Option Nat} {m : PageMap} {used : Nat → Prop}

/-! ### One call -/

/-- The state of the process after memory and the top of its heap have changed. -/
def Kernel.moved (k : Kernel) (i : Nat) (ph' : Phys) (top : Nat) : Kernel :=
  { k with ph := ph', procs := Function.update k.procs i { k.procs i with heapTop := top } }

@[simp] lemma Kernel.moved_ph (k : Kernel) (i : Nat) (ph' : Phys) (top : Nat) : (k.moved i ph' top).ph = ph' := rfl

@[simp] lemma Kernel.moved_top (k : Kernel) (i : Nat) (ph' : Phys) (top : Nat) :
    ((k.moved i ph' top).procs i).heapTop = top := by
  simp [Kernel.moved]

@[simp] lemma Kernel.moved_base (k : Kernel) (i : Nat) (ph' : Phys) (top : Nat) :
    ((k.moved i ph' top).procs i).heapBase = (k.procs i).heapBase := by
  simp [Kernel.moved]

@[simp] lemma Kernel.moved_table (k : Kernel) (i : Nat) (ph' : Phys) (top : Nat) :
    ((k.moved i ph' top).procs i).table = (k.procs i).table := by
  simp [Kernel.moved, Process.table]

open Kernel (moved_base moved_ph moved_table moved_top)

/-- A call of `sys_brk` is refused at once, or it moves the heap to the page that the new top is rounded up to. -/
lemma sysBrk_cases (he : sysBrk P i newTop k = .ok (r, k')) :
    (k' = k ∧ (newTop = 0 ∧ r = (k.procs i).heapTop ∨
      r = USIZE_MAX ∧ newTop ≠ 0 ∧ (MMAP_BEGIN < newTop ∨ newTop < (k.procs i).heapBase))) ∨
    (newTop ≠ 0 ∧ newTop ≤ MMAP_BEGIN ∧ (k.procs i).heapBase ≤ newTop ∧ ∃ res ph',
      moveHeap P (k.procs i).table (k.procs i).heapTop (pageSize newTop) k.ph = .ok (res, ph') ∧
      ((∃ e, res = .error e ∧ r = USIZE_MAX ∧ k' = { k with ph := ph' }) ∨
        (res = .ok () ∧ r = pageSize newTop ∧ k' = k.moved i ph' (pageSize newTop)))) := by
  rcases sysBrk_ok he with hrefused | ⟨hzero, hmax, hbase, top, res, ph', halign, hmove, hres⟩
  · exact .inl hrefused
  · have hw : MMAP_BEGIN + 4095 < 2 ^ 64 := by decide
    rw [Uvm.alignUp_eq (by omega)] at halign
    cases halign
    exact .inr ⟨hzero, hmax, hbase, res, ph', hmove, hres⟩

lemma pageSize_idem (v : Nat) : pageSize (pageSize v) = pageSize v := by
  unfold pageSize
  omega

lemma pageSize_le_window (h : v ≤ MMAP_BEGIN) : pageSize v ≤ MMAP_BEGIN := by
  obtain ⟨c, hc⟩ := mmap_window.1
  unfold pageSize
  unfold PGSIZE at hc
  omega

lemma heapRange_pageSize_left : heapRange (pageSize low) high q ↔ heapRange low high q := by
  unfold heapRange
  rw [pageSize_idem]

lemma heapRange_pageSize_right : heapRange low (pageSize high) q ↔ heapRange low high q := by
  unfold heapRange
  rw [pageSize_idem]

lemma lt_of_heapRange (h : heapRange low high q) : low < high := by
  have hlt := h.1.trans_lt h.2
  unfold pageSize at hlt
  omega

lemma heapRange_window (hhigh : high ≤ MMAP_BEGIN) (h : heapRange low high q) : q * PGSIZE < MMAP_BEGIN :=
  h.2.trans_le (pageSize_le_window hhigh)

lemma lt_of_window (h : q * PGSIZE < MMAP_BEGIN) : q < 2 ^ 26 := by
  have hw := mmap_window.2.2.2
  unfold PGSIZE at h
  unfold VA_MAX at hw
  omega

lemma HeapState.page_eq (h : HeapState k i node m used) (hq : q * PGSIZE < MMAP_BEGIN) : k.page i q = m q :=
  Kernel.page_eq h.space (lt_of_window hq)

/-- What `sys_brk` has done to memory when it succeeds. -/
def Moved (ph ph' : Phys) (table : Nat) (node : List Nat → Option Nat) (m : PageMap) (used : Nat → Prop) (oldTop newTop : Nat) :
    Prop :=
  (oldTop ≤ newTop ∧ ∃ node' m' used', Space ph' table node' m' userLeaf used' ∧
    Grown ph ph' node node' m m' userLeaf used used' (heapRange oldTop newTop) ∧
    Uvm.NewPages ph' m' (heapRange oldTop newTop)) ∨
  (newTop ≤ oldTop ∧ ∃ m' used', Space ph' table node m' userLeaf used' ∧
    Shrunk ph ph' node m m' userLeaf used used' (heapRange newTop oldTop))

lemma moveHeap_spec {table oldTop : Nat} {res : Except UvmError Unit} (h : Space ph table node m userLeaf used)
    (hold : oldTop ≤ MMAP_BEGIN) (hnew : newTop ≤ MMAP_BEGIN)
    (huser : ∀ q e, heapRange oldTop newTop q ∨ heapRange newTop oldTop q → m q = some e → e.User)
    (he : moveHeap P table oldTop newTop ph = .ok (res, ph')) :
    (res = .ok () ∧ Moved ph ph' table node m used oldTop newTop) ∨
    (res = .error .mapFailed ∧ oldTop < newTop ∧ (∃ q, heapRange oldTop newTop q ∧ m q ≠ none) ∧ Uvm.Loses ph ph') ∨
    (res = .error .mapFailed ∧ newTop < oldTop ∧ ∃ p, heapRange newTop oldTop p ∧ m p = none ∧
      (p * PGSIZE = pageSize newTop → ph' = ph) ∧ ∃ m' used', Space ph' table node m' userLeaf used' ∧
        Shrunk ph ph' node m m' userLeaf used used' fun q => pageSize newTop ≤ q * PGSIZE ∧ q < p) := by
  unfold moveHeap at he
  split_ifs at he with hup hdown
  · have hown : Uvm.Ownable ph m userLeaf (heapRange oldTop newTop) :=
      ⟨fun _ x _ _ _ => user_new x, fun q e hq => huser q e (.inl hq)⟩
    rcases Uvm.heapGrow_spec h hup hnew hown he with ⟨rfl, hgrown⟩ | ⟨rfl, hmeet, -, hlost⟩
    · exact .inl ⟨rfl, .inl ⟨hup.le, hgrown⟩⟩
    · exact .inr (.inl ⟨rfl, hup, hmeet, hlost⟩)
  · rcases Uvm.heapUngrow_spec h hdown.le hold (fun q e hq => huser q e (.inr hq)) he with ⟨rfl, hshrunk⟩ | ⟨rfl, hstop⟩
    · exact .inl ⟨rfl, .inr ⟨hdown.le, hshrunk⟩⟩
    · exact .inr (.inr ⟨rfl, hdown, hstop⟩)
  · cases he
    refine .inl ⟨rfl, .inr ⟨by omega, m, used, h, (Shrunk.refl _ node m userLeaf used).congr fun q => ⟨False.elim, ?_⟩⟩⟩
    rintro ⟨hq, hq'⟩
    rw [show oldTop = newTop by omega] at hq'
    omega

/-! ### Calls that fail -/

/-- The table, the heap, the contents of its pages and the free pages are the same. -/
structure BrkUnchanged (k k' : Kernel) (i : Nat) : Prop where
  page : ∀ q, k'.page i q = k.page i q
  top : (k'.procs i).heapTop = (k.procs i).heapTop
  mem : ∀ q e, k.page i q = some e → e.User → k'.ph.mem e.ppn = k.ph.mem e.ppn
  free : ∀ j p, k'.ph.OnFree j p ↔ k.ph.OnFree j p

lemma BrkUnchanged.refl (k : Kernel) (i : Nat) : BrkUnchanged k k i := ⟨fun _ => rfl, rfl, fun _ _ _ _ => rfl, fun _ _ => Iff.rfl⟩

/-- Nothing stops the heap on its way, or the first page does when it shrinks. -/
structure HeapFree (k : Kernel) (i newTop : Nat) : Prop where
  grow : ∀ q, heapRange (k.procs i).heapTop newTop q → k.page i q = none
  shrink : (∀ q, heapRange newTop (k.procs i).heapTop q → k.page i q ≠ none) ∨
    k.page i (pageSize newTop / PGSIZE) = none

lemma heapFree_of_moved (h : HeapState k i node m used) (hold : (k.procs i).heapTop ≤ MMAP_BEGIN)
    (hnew : newTop ≤ MMAP_BEGIN)
    (hm : Moved k.ph ph' (k.procs i).table node m used (k.procs i).heapTop (pageSize newTop)) : HeapFree k i newTop := by
  rcases hm with ⟨hle, node', m', used', h', hg, -⟩ | ⟨hle, m', used', h', hs⟩
  · refine ⟨fun q hq => ?_, .inl fun q hq => ?_⟩
    · rw [h.page_eq (heapRange_window hnew hq)]
      exact (hg.new q (heapRange_pageSize_right.mpr hq)).1
    · have hlt := lt_of_heapRange (heapRange_pageSize_left.mpr hq)
      omega
  · refine ⟨fun q hq => ?_, .inl fun q hq => ?_⟩
    · have hlt := lt_of_heapRange (heapRange_pageSize_right.mpr hq)
      omega
    · obtain ⟨-, e, hm, -⟩ := hs.gone q (heapRange_pageSize_left.mpr hq)
      rw [h.page_eq (heapRange_window hold hq), hm]
      exact nofun

/-- A heap that shrinks to the page `p` and finds it missing has lost the pages below it, if there are any. -/
lemma unchanged_iff_of_missing {p : Nat} (h : HeapState k i node m used)
    (hold : (k.procs i).heapTop ≤ MMAP_BEGIN) (hp : heapRange newTop (k.procs i).heapTop p) (hnone : m p = none)
    (hsame : p * PGSIZE = pageSize newTop → ph' = k.ph) (h' : Space ph' (k.procs i).table node m' userLeaf used')
    (hs : Shrunk k.ph ph' node m m' userLeaf used used' fun q => pageSize newTop ≤ q * PGSIZE ∧ q < p) :
    BrkUnchanged k { k with ph := ph' } i ↔ HeapFree k i newTop := by
  have hpage := h.page_eq (heapRange_window hold hp)
  have hgrow : ∀ q, heapRange (k.procs i).heapTop newTop q → k.page i q = none := by
    intro q hq
    have hlt := lt_of_heapRange hq
    have hlt' := lt_of_heapRange hp
    omega
  by_cases hfirst : p * PGSIZE = pageSize newTop
  · obtain rfl := hsame hfirst
    refine iff_of_true (.refl _ _) ⟨hgrow, .inr ?_⟩
    rw [← hfirst, div_mul_PGSIZE, hpage, hnone]
  · -- the first page is gone, and its entry with it
    obtain ⟨f, hf⟩ : ∃ f, pageSize newTop = f * PGSIZE := ⟨_, rfl⟩
    have hfp : f < p := by
      have hle := hp.1
      rw [hf] at hle hfirst
      unfold PGSIZE at hle hfirst
      omega
    have hlow : f * PGSIZE < MMAP_BEGIN := lt_trans (Nat.mul_lt_mul_of_pos_right hfp (by decide)) (heapRange_window hold hp)
    obtain ⟨hgone, e, hm, -⟩ := hs.gone f ⟨hf.le, hfp⟩
    have hmapped : k.page i f = some e := by rw [h.page_eq hlow, hm]
    refine iff_of_false (fun hsame' => ?_) fun hfree => ?_
    · have hpg := hsame'.page f
      rw [hmapped, Kernel.page_eq (k := { k with ph := ph' }) h' (lt_of_window hlow), hgone] at hpg
      cases hpg
    · rcases hfree.shrink with hall | hnone'
      · refine hall p hp ?_
        rw [hpage, hnone]
      · rw [hf, div_mul_PGSIZE, hmapped] at hnone'
        cases hnone'

/-- A call of `sys_brk` that fails has changed nothing if and only if it was refused at once, or pages were in the way of
no growth and missing from no shrinking of the heap. -/
theorem brk_atomic_iff (h : HeapState k i node m used) (he : sysBrk P i newTop k = .ok (r, k')) :
    (r = USIZE_MAX → BrkUnchanged k k' i) ↔
      newTop = 0 ∨ MMAP_BEGIN < newTop ∨ newTop < (k.procs i).heapBase ∨ HeapFree k i newTop := by
  rcases sysBrk_cases he with ⟨rfl, hrefused⟩ | ⟨hzero, hmax, hbase, res, ph', hmove, hres⟩
  · refine iff_of_true (fun _ => .refl _ _) ?_
    rcases hrefused with ⟨hzero, -⟩ | ⟨-, -, hhigh | hlow⟩
    · exact .inl hzero
    · exact .inr (.inl hhigh)
    · exact .inr (.inr (.inl hlow))
  have hold := h.heap (by omega)
  have hnew := pageSize_le_window hmax
  have huser : ∀ q e, Uvm.heapRange (k.procs i).heapTop (Uvm.pageSize newTop) q ∨
      Uvm.heapRange (Uvm.pageSize newTop) (k.procs i).heapTop q → m q = some e → e.User := by
    intro q e hq
    refine h.user q e ?_
    rcases hq with hq | hq
    · exact heapRange_window hnew hq
    · exact heapRange_window hold hq
  have hiff : (newTop = 0 ∨ MMAP_BEGIN < newTop ∨ newTop < (k.procs i).heapBase ∨ HeapFree k i newTop) ↔
      HeapFree k i newTop := by
    constructor
    · rintro (hc | hc | hc | hc)
      · exact absurd hc hzero
      · omega
      · omega
      · exact hc
    · exact fun hc => .inr (.inr (.inr hc))
  rw [hiff]
  rcases hres with ⟨e, rfl, rfl, rfl⟩ | ⟨rfl, rfl, rfl⟩
  · rw [imp_iff_right rfl]
    rcases moveHeap_spec h.space hold hnew huser hmove with ⟨hres, -⟩ | ⟨-, -, ⟨q, hq, hmq⟩, a, p, ha, ha'⟩ |
      ⟨-, -, p, hp, hnone, hsame, m', used', h', hs⟩
    · cases hres
    · -- the page that was allocated for `q` is lost
      refine iff_of_false (fun hsame => ha' ((hsame.free a p).mpr ha)) fun hfree => hmq ?_
      rw [← h.page_eq (heapRange_window hnew hq)]
      exact hfree.grow q (heapRange_pageSize_right.mp hq)
    · rw [heapRange_pageSize_left] at hp
      rw [pageSize_idem] at hsame hs
      exact unchanged_iff_of_missing h hold hp hnone hsame h' hs
  · have hne : Uvm.pageSize newTop ≠ USIZE_MAX := by
      have hw : MMAP_BEGIN < USIZE_MAX := by decide
      omega
    refine iff_of_true (fun hr => absurd hr hne) ?_
    rcases moveHeap_spec h.space hold hnew huser hmove with ⟨-, hmoved⟩ | ⟨hres, -⟩ | ⟨hres, -⟩
    · exact heapFree_of_moved h hold hmax hmoved
    · cases hres
    · cases hres

theorem brk_atomic_boot : ∃ k k' node m used, HeapState k 0 node m used ∧ sysBrk .dev 0 0x1000 k = .ok (USIZE_MAX, k') ∧
    BrkUnchanged k k' 0 := by
  obtain ⟨k₀, k, h₀, hrun, hend⟩ := exists_run .dev (fun _ op _ => op.Typed ∧ (Profile.dev = .release → op.NoWrap))
    (fun _ op _ => !op.isExec) [.create []]
    (fun k => ((k.procs 0).state, (k.procs 0).heapBase, StateT.run' (sysBrk .dev 0 0x1000) k))
    (.runnable, 0x2000, .ok USIZE_MAX) (fun k op _ b ht => ⟨Op.typed_of_not_exec (by simpa using ht), nofun⟩) (by decide +kernel)
  simp only [Prod.mk.injEq] at hend
  obtain ⟨hstate, hbase, hfail⟩ := hend
  obtain ⟨node, m, used, h⟩ := h₀.heapState (i := 0) hrun (fun _ _ _ ha => ha) (by unfold Process.Live; rw [hstate]; decide)
  obtain ⟨k', he⟩ := K.exists_of_run' hfail
  refine ⟨k, k', node, m, used, h, he, (brk_atomic_iff h he).mpr (.inr (.inr (.inl ?_))) rfl⟩
  rw [hbase]
  decide

/-- A program in the page below the stack grows its heap into the stack. The page below the stack stays mapped, and the
heap cannot grow by this page any more. -/
theorem brk_keeps_page : ∃ k₀ k k' k'' k₁, Booted bootEnv (fun _ => False) k₀ ∧
    Reaches .dev bootEnv (fun _ op b => b = true ∧ op.Typed) k₀ k ∧ (k.procs 0).heapTop = 0x1f000 ∧
    sysBrk .dev 0 0x20000 k = .ok (0x20000, k₁) ∧ sysBrk .dev 0 0x21000 k = .ok (USIZE_MAX, k') ∧
    k.page 0 0x1f = none ∧ k'.page 0 0x1f ≠ none ∧ sysBrk .dev 0 0x20000 k' = .ok (USIZE_MAX, k'') := by
  have htyped : ∀ op ∈ [Op.create [], .exec 0 (some (readBytes (zeroElf 0x1e000 4096))) [], .stack 0 0x20000], op.Typed := by
    simp only [List.forall_mem_cons]
    refine ⟨trivial, fun f hf => ?_, trivial, nofun⟩
    cases hf
    exact bytes_zeroElf _ _
  obtain ⟨k₀, k, h₀, hrun, hend⟩ := exists_run .dev (fun _ op b => b = true ∧ op.Typed) (fun _ _ b => b)
    [.create [], .exec 0 (some (readBytes (zeroElf 0x1e000 4096))) [], .stack 0 0x20000]
    (fun k => ((k.procs 0).heapTop, StateT.run' (sysBrk .dev 0 0x20000) k, (k.page 0 0x1f).isNone, decide (StateT.run' (do
        let r ← sysBrk .dev 0 0x21000
        let k' ← get
        let r' ← sysBrk .dev 0 0x20000
        return (r, (k'.page 0 0x1f).isSome, r')) k = .ok (USIZE_MAX, true, USIZE_MAX))))
    (0x1f000, .ok 0x20000, true, true)
    (fun k op hop b ht => ⟨ht, htyped op hop⟩) (by decide +kernel)
  simp only [Prod.mk.injEq, Option.isNone_iff_eq_none, decide_eq_true_eq] at hend
  obtain ⟨htop, hgood, hnone, hfail⟩ := hend
  obtain ⟨k₁, h₁⟩ := K.exists_of_run' hgood
  obtain ⟨k₂, he⟩ := K.exists_of_run' hfail
  obtain ⟨r, k', hbrk, he⟩ := K.bind_eq_ok.mp he
  obtain ⟨k₃, k₄, hget, he⟩ := K.bind_eq_ok.mp he
  cases hget
  obtain ⟨r', k'', hagain, he⟩ := K.bind_eq_ok.mp he
  simp only [K.pure_apply, Except.ok.injEq, Prod.mk.injEq] at he
  obtain ⟨⟨rfl, hsome, rfl⟩, -⟩ := he
  exact ⟨k₀, k, k', k'', k₁, h₀, hrun, htop, h₁, hbrk, hnone, Option.isSome_iff_ne_none.mp hsome, hagain⟩

/-! ### Calls that succeed -/

/-- The pages from the bottom of the heap to the stack. -/
def heapArea (p : Process) (q : Nat) : Prop := p.heapBase ≤ q * PGSIZE ∧ q * PGSIZE < Uvm.STACK_BASE

/-- A page of the user region that the user may read and write, with one reference. -/
def HeapEntry (ph : Phys) (e : Entry) : Prop :=
  ∃ n, e = .new n (Uvm.MMAP_FLAGS ||| PTE_V) ∧ n < 2 ^ 43 ∧ ph.InRegion false n ∧ ph.pageRef (pageIndex (n * PGSIZE)) = 1

structure HeapInv (k : Kernel) (i : Nat) (node : List Nat → Option Nat) (m : PageMap) : Prop where
  space : Space k.ph (k.procs i).table node m userLeaf fun n => ¬k.ph.Free n
  aligned : PGSIZE ∣ (k.procs i).heapTop
  base : (k.procs i).heapBase ≤ (k.procs i).heapTop
  top : (k.procs i).heapTop ≤ Uvm.STACK_BASE
  mapped : ∀ q, heapArea (k.procs i) q → (m q ≠ none ↔ q * PGSIZE < (k.procs i).heapTop)
  entry : ∀ q e, heapArea (k.procs i) q → m q = some e → HeapEntry k.ph e

lemma HeapEntry.ppn (h : HeapEntry ph e) :
    e.ppn < 2 ^ 43 ∧ ph.InRegion false e.ppn ∧ ph.pageRef (pageIndex (e.ppn * PGSIZE)) = 1 := by
  obtain ⟨n, rfl, hlt, hin, href⟩ := h
  rw [show (Entry.new n (Uvm.MMAP_FLAGS ||| PTE_V)).ppn = n from Nat.mod_eq_of_lt (by omega)]
  exact ⟨hlt, hin, href⟩

lemma HeapEntry.user (h : HeapEntry ph e) : e.User := by
  obtain ⟨n, rfl, -⟩ := h
  exact user_new n

lemma HeapEntry.congr (h : HeapEntry ph e) (hb : ph.SameBounds ph')
    (href : ph'.pageRef (pageIndex (e.ppn * PGSIZE)) = ph.pageRef (pageIndex (e.ppn * PGSIZE))) : HeapEntry ph' e := by
  obtain ⟨n, rfl, hlt, hin, hone⟩ := h
  rw [show (Entry.new n (Uvm.MMAP_FLAGS ||| PTE_V)).ppn = n from Nat.mod_eq_of_lt (by omega)] at href
  exact ⟨n, rfl, hlt, hb.inRegion.mpr hin, href.trans hone⟩

/-- What a successful call does to the pages of the process. -/
structure HeapMoved (k k' : Kernel) (i : Nat) : Prop where
  grown : ∀ q, (k.procs i).heapTop ≤ q * PGSIZE → q * PGSIZE < (k'.procs i).heapTop →
    k.page i q = none ∧ ∃ e, k'.page i q = some e ∧ k'.ph.mem e.ppn = fun _ => 0
  shrunk : ∀ q, (k'.procs i).heapTop ≤ q * PGSIZE → q * PGSIZE < (k.procs i).heapTop →
    k'.page i q = none ∧ ∃ e, k.page i q = some e ∧ ¬k.ph.Free e.ppn ∧ k'.ph.Free e.ppn
  freed : ∀ n, k'.ph.Free n → k.ph.Free n ∨ ∃ q e, (k'.procs i).heapTop ≤ q * PGSIZE ∧ q * PGSIZE < (k.procs i).heapTop ∧
    k.page i q = some e ∧ e.ppn = n
  kept : ∀ q, (q * PGSIZE < (k.procs i).heapTop ↔ q * PGSIZE < (k'.procs i).heapTop) → k'.page i q = k.page i q ∧
    ∀ e, k.page i q = some e → e.User → k'.ph.mem e.ppn = k.ph.mem e.ppn

lemma pageSize_of_dvd (h : PGSIZE ∣ v) : pageSize v = v := by
  obtain ⟨c, rfl⟩ := h
  unfold pageSize PGSIZE
  omega

lemma heapArea_moved : heapArea ((k.moved i ph' top).procs i) q ↔ heapArea (k.procs i) q := by
  unfold heapArea
  rw [moved_base]

lemma Kernel.page_congr (h : Space k.ph (k.procs i).table node m userLeaf used)
    (h' : Space ph' (k.procs i).table node' m' userLeaf used') (hm : m' q = m q) :
    (k.moved i ph' top).page i q = k.page i q := by
  rcases lt_or_ge q (2 ^ 26) with hq | hq
  · rw [Kernel.page_eq h hq, Kernel.page_eq (by simpa using h') hq, hm]
  · rw [Kernel.page_of_le _ _ hq, Kernel.page_of_le _ _ hq]

lemma HeapInv.grow (h : HeapInv k i node m) (htop : (k.procs i).heapTop ≤ top) (hd : PGSIZE ∣ top) (hmax : top ≤ Uvm.STACK_BASE)
    (h' : Space ph' (k.procs i).table node' m' userLeaf used')
    (hg : Grown k.ph ph' node node' m m' userLeaf (fun n => ¬k.ph.Free n) used'
      fun q => (k.procs i).heapTop ≤ q * PGSIZE ∧ q * PGSIZE < top)
    (hnew : Uvm.NewPages ph' m' fun q => (k.procs i).heapTop ≤ q * PGSIZE ∧ q * PGSIZE < top) :
    HeapInv (k.moved i ph' top) i node' m' ∧ HeapMoved k (k.moved i ph' top) i := by
  have hlow : ∀ q, q * PGSIZE < top → q < 2 ^ 26 := by
    intro q hq
    unfold Uvm.STACK_BASE at hmax
    unfold PGSIZE at hq
    omega
  have hbase := h.base
  constructor
  · refine ⟨?_, ?_, ?_, ?_, fun q hq => ?_, fun q e hq hm => ?_⟩
    · rw [moved_table, moved_ph]
      exact h'.maximal
    · rwa [moved_top]
    · rw [moved_top, moved_base]
      omega
    · rwa [moved_top]
    · rw [heapArea_moved] at hq
      rw [moved_top]
      by_cases hS : (k.procs i).heapTop ≤ q * PGSIZE ∧ q * PGSIZE < top
      · obtain ⟨n, hm, -⟩ := hnew q hS
        rw [hm]
        exact iff_of_true nofun hS.2
      · rw [hg.old q hS, h.mapped q hq]
        omega
    · rw [heapArea_moved] at hq
      rw [moved_ph]
      by_cases hS : (k.procs i).heapTop ≤ q * PGSIZE ∧ q * PGSIZE < top
      · obtain ⟨n, hm', hin, hlt, -⟩ := hnew q hS
        rw [hm'] at hm
        cases hm
        refine ⟨n, rfl, hlt, hin, ?_⟩
        have hppn : (Entry.new n (Uvm.MMAP_FLAGS ||| PTE_V)).ppn = n := Nat.mod_eq_of_lt (by omega)
        obtain ⟨-, e, he, ho, hu⟩ := hg.new q hS
        rw [hm'] at he
        cases he
        have hused := h'.leaf q _ hm' ho
        rw [hppn] at hused hu
        exact ((hg.takes.fresh n hused).resolve_left hu).2
      · rw [hg.old q hS] at hm
        have hent := h.entry q e hq hm
        refine hent.congr hg.takes.region (hg.takes.ref _ ?_)
        rw [hent.ppn.2.2]
        exact one_ne_zero
  · refine ⟨fun q hq hq' => ?_, fun q hq hq' => ?_, fun n hn => ?_, fun q hq => ?_⟩
    · rw [moved_top] at hq'
      obtain ⟨n, hm', -, hlt, hz⟩ := hnew q ⟨hq, hq'⟩
      rw [Kernel.page_eq h.space (hlow q hq'), Kernel.page_eq (k := k.moved i ph' top) (by simpa using h') (hlow q hq'), hm']
      refine ⟨(hg.new q ⟨hq, hq'⟩).1, _, rfl, ?_⟩
      rw [show (Entry.new n (Uvm.MMAP_FLAGS ||| PTE_V)).ppn = n from Nat.mod_eq_of_lt (by omega)]
      exact hz
    · rw [moved_top] at hq
      omega
    · obtain ⟨j, hj⟩ := hn
      exact .inl ⟨j, hg.takes.shrinks j _ hj⟩
    · rw [moved_top] at hq
      have hold : m' q = m q := hg.old q fun hS => by omega
      refine ⟨Kernel.page_congr h.space h' hold, fun e he hu => ?_⟩
      have hm := Kernel.page_some h.space he
      rw [moved_ph]
      exact hg.mem e.ppn (h.space.leaf q e hm hu) fun s hs => h'.apart q e s (by rw [hold, hm]) hu hs

lemma HeapInv.shrink (h : HeapInv k i node m) (hbase : (k.procs i).heapBase ≤ top) (htop : top ≤ (k.procs i).heapTop) (hd : PGSIZE ∣ top)
    (h' : Space ph' (k.procs i).table node m' userLeaf used')
    (hs : Shrunk k.ph ph' node m m' userLeaf (fun n => ¬k.ph.Free n) used'
      fun q => top ≤ q * PGSIZE ∧ q * PGSIZE < (k.procs i).heapTop) :
    HeapInv (k.moved i ph' top) i node m' ∧ HeapMoved k (k.moved i ph' top) i := by
  have hmax := h.top
  obtain ⟨free, hp⟩ := h.space.pmem
  have hlow : ∀ q, q * PGSIZE < (k.procs i).heapTop → q < 2 ^ 26 := by
    intro q hq
    unfold Uvm.STACK_BASE at hmax
    unfold PGSIZE at hq
    omega
  constructor
  · refine ⟨?_, ?_, ?_, ?_, fun q hq => ?_, fun q e hq hm => ?_⟩
    · rw [moved_table, moved_ph]
      exact h'.maximal
    · rwa [moved_top]
    · rwa [moved_top, moved_base]
    · rw [moved_top]
      omega
    · rw [heapArea_moved] at hq
      rw [moved_top]
      by_cases hS : top ≤ q * PGSIZE ∧ q * PGSIZE < (k.procs i).heapTop
      · rw [(hs.gone q hS).1]
        exact iff_of_false (fun hne => hne rfl) (by omega)
      · rw [hs.old q hS, h.mapped q hq]
        omega
    · rw [heapArea_moved] at hq
      rw [moved_ph]
      by_cases hS : top ≤ q * PGSIZE ∧ q * PGSIZE < (k.procs i).heapTop
      · rw [(hs.gone q hS).1] at hm
        cases hm
      · have hm' := hm
        rw [hs.old q hS] at hm
        have hent := h.entry q e hq hm
        exact hent.congr hs.gives.region
          (hs.gives.ref _ (hp.le_of_inRegion hent.ppn.2.1) (h'.leaf q e hm' hent.user))
  · refine ⟨fun q hq hq' => ?_, fun q hq hq' => ?_, fun n hn => ?_, fun q hq => ?_⟩
    · rw [moved_top] at hq'
      omega
    · rw [moved_top] at hq
      have harea : heapArea (k.procs i) q := ⟨by omega, by omega⟩
      obtain ⟨hnone, e, hm, ho⟩ := hs.gone q ⟨hq, hq'⟩
      rw [Kernel.page_eq h.space (hlow q hq'), Kernel.page_eq (k := k.moved i ph' top) (by simpa using h') (hlow q hq'), hm]
      have hent := h.entry q e harea hm
      have hused := h.space.leaf q e hm ho
      exact ⟨hnone, e, rfl, hused, hs.gives.freed _ (hp.le_of_inRegion hent.ppn.2.1) hused
        (hs.out q e ⟨hq, hq'⟩ hm) hent.ppn.2.2⟩
    · rw [moved_ph] at hn
      by_cases hfree : k.ph.Free n
      · exact .inl hfree
      · obtain ⟨j, hj⟩ := hn
        have hnot : ¬used' n := by
          rcases hs.gives.new j _ hj with hj | hu
          · exact absurd ⟨j, hj⟩ hfree
          · rwa [div_mul_PGSIZE] at hu
        obtain ⟨q, e, hq, hm, heq⟩ := (hs.freed n hfree).resolve_left hnot
        refine .inr ⟨q, e, ?_, hq.2, ?_, heq⟩
        · rw [moved_top]
          exact hq.1
        · rw [Kernel.page_eq h.space (hlow q hq.2), hm]
    · rw [moved_top] at hq
      have hold : m' q = m q := hs.old q fun hS => by omega
      refine ⟨Kernel.page_congr h.space h' hold, fun e he hu => ?_⟩
      have hm := Kernel.page_some h.space he
      rw [moved_ph]
      exact hs.mem e.ppn (h'.leaf q e (by rw [hold, hm]) hu) fun s hs' => h.space.apart q e s hm hu hs'

/-- A successful call keeps the invariant as long as the heap stays below the stack. -/
lemma HeapInv.brk (h : HeapInv k i node m) (he : sysBrk P i newTop k = .ok (r, k')) (hr : r ≠ USIZE_MAX)
    (hbelow : (k'.procs i).heapTop ≤ Uvm.STACK_BASE) :
    (∃ node' m', HeapInv k' i node' m') ∧ HeapMoved k k' i ∧ r = (k'.procs i).heapTop ∧
      (k'.procs i).heapTop = if newTop = 0 then (k.procs i).heapTop else pageSize newTop := by
  have htop := h.top
  have hw : Uvm.STACK_BASE < MMAP_BEGIN ∧ MMAP_BEGIN + 4095 < 2 ^ 64 := by decide
  rcases sysBrk_cases he with ⟨rfl, ⟨hzero, hr'⟩ | ⟨hr', -⟩⟩ | ⟨hzero, hmax, hbase, res, ph', hmove, hres⟩
  · rw [if_pos hzero]
    refine ⟨⟨node, m, h⟩, ⟨fun q hq hq' => by omega, fun q hq hq' => by omega, fun n hn => .inl hn, fun q hq => ?_⟩, hr', rfl⟩
    exact ⟨rfl, fun _ _ _ => rfl⟩
  · exact absurd hr' hr
  rcases hres with ⟨e, -, hr', -⟩ | ⟨rfl, rfl, rfl⟩
  · exact absurd hr' hr
  rw [moved_top] at hbelow
  rw [moved_top, if_neg hzero]
  have hd : PGSIZE ∣ pageSize newTop := Nat.dvd_mul_left _ _
  have hle := Uvm.le_pageSize newTop
  have hbase' := h.base
  have hup : ∀ q, heapRange (k.procs i).heapTop (pageSize newTop) q ↔
      (k.procs i).heapTop ≤ q * PGSIZE ∧ q * PGSIZE < pageSize newTop := by
    intro q
    unfold heapRange
    rw [pageSize_of_dvd h.aligned, pageSize_of_dvd hd]
  have hdown : ∀ q, heapRange (pageSize newTop) (k.procs i).heapTop q ↔
      pageSize newTop ≤ q * PGSIZE ∧ q * PGSIZE < (k.procs i).heapTop := by
    intro q
    unfold heapRange
    rw [pageSize_of_dvd h.aligned, pageSize_of_dvd hd]
  have huser : ∀ q e, heapRange (k.procs i).heapTop (pageSize newTop) q ∨
      heapRange (pageSize newTop) (k.procs i).heapTop q → m q = some e → e.User := by
    intro q e hq hm
    rw [hup, hdown] at hq
    exact (h.entry q e ⟨by omega, by omega⟩ hm).user
  have hmoved : Moved k.ph ph' (k.procs i).table node m (fun n => ¬k.ph.Free n) (k.procs i).heapTop (pageSize newTop) := by
    rcases moveHeap_spec h.space (by omega) (by omega) huser hmove with ⟨-, hmoved⟩ | ⟨hres, -⟩ | ⟨hres, -⟩
    · exact hmoved
    · cases hres
    · cases hres
  rcases hmoved with ⟨hle', node', m', used', h', hg, hnew⟩ | ⟨hle', m', used', h', hs⟩
  · obtain ⟨hinv, hm⟩ := h.grow hle' hd hbelow h' (hg.congr hup) fun q hq => hnew q ((hup q).mpr hq)
    exact ⟨⟨node', m', hinv⟩, hm, rfl, rfl⟩
  · obtain ⟨hinv, hm⟩ := h.shrink (by omega) hle' hd h' (hs.congr hdown)
    exact ⟨⟨node, m', hinv⟩, hm, rfl, rfl⟩

/-- The process writes to its pages. -/
structure UserWrites (k k' : Kernel) (i : Nat) : Prop where
  same : k' = { k with ph := k'.ph }
  region : k'.ph.region = k.ph.region
  pageRef : k'.ph.pageRef = k.ph.pageRef
  mem : ∀ n, (∀ q e, k.page i q = some e → e.User → e.ppn ≠ n) → k'.ph.mem n = k.ph.mem n

lemma HeapInv.writes (h : HeapInv k i node m) (hw : UserWrites k k' i) : HeapInv k' i node m := by
  obtain ⟨free, hp⟩ := h.space.pmem
  have hprocs : k'.procs = k.procs := by rw [hw.same]
  have hother : ∀ n, (∀ q e, m q = some e → e.User → e.ppn ≠ n) → k'.ph.mem n = k.ph.mem n := fun n hn =>
    hw.mem n fun q e he => hn q e (Kernel.page_some h.space he)
  obtain ⟨-, hp'⟩ := Takes.write hp (fun n hn => hother n fun q e hm hu heq => hn (heq ▸ h.space.leaf q e hm hu)) hw.region
    hw.pageRef
  have hspace : Space k'.ph (k.procs i).table node m userLeaf fun n => ¬k.ph.Free n :=
    ⟨⟨h.space.tree.congr fun s n hs => hother n fun q e hm hu heq => h.space.apart q e s hm hu (heq ▸ hs), ⟨free, hp'⟩,
      h.space.nodes⟩, h.space.leaf, h.space.unique, h.space.apart⟩
  refine ⟨?_, ?_, ?_, ?_, ?_, ?_⟩
  · rw [hprocs]
    exact hspace.maximal
  · rw [hprocs]
    exact h.aligned
  · rw [hprocs]
    exact h.base
  · rw [hprocs]
    exact h.top
  · rw [hprocs]
    exact h.mapped
  · rw [hprocs]
    intro q e hq hm
    exact (h.entry q e hq hm).congr (fun j => by rw [hw.region]; exact ⟨rfl, rfl⟩) (by rw [hw.pageRef])

/-- A process whose heap is empty, with nothing between its heap and the stack. -/
structure HeapStart (k : Kernel) (i : Nat) : Prop where
  space : ∃ node m used, Space k.ph (k.procs i).table node m userLeaf used
  top : (k.procs i).heapTop = (k.procs i).heapBase
  aligned : PGSIZE ∣ (k.procs i).heapBase
  below : (k.procs i).heapBase ≤ Uvm.STACK_BASE
  empty : ∀ q, heapArea (k.procs i) q → k.page i q = none

/-- The states that a process reaches by successful calls of `sys_brk` that keep its heap below the stack, and by writes to
its memory. -/
inductive BrkRun (P : Profile) (i : Nat) : Kernel → Prop
  | start {k : Kernel} (h : HeapStart k i) : BrkRun P i k
  | brk {k k' : Kernel} {newTop r : Nat} (h : BrkRun P i k) (he : sysBrk P i newTop k = .ok (r, k')) (hr : r ≠ USIZE_MAX)
      (hbelow : (k'.procs i).heapTop ≤ Uvm.STACK_BASE) : BrkRun P i k'
  | writes {k k' : Kernel} (h : BrkRun P i k) (hw : UserWrites k k' i) : BrkRun P i k'

lemma heapArea_lt {p : Process} (h : heapArea p q) : q < 2 ^ 26 := by
  have hlt := h.2
  unfold Uvm.STACK_BASE PGSIZE at hlt
  omega

lemma HeapStart.inv (h : HeapStart k i) : ∃ node m, HeapInv k i node m := by
  obtain ⟨node, m, used, hspace⟩ := h.space
  have hnone : ∀ q, heapArea (k.procs i) q → m q = none := by
    intro q hq
    rw [← Kernel.page_eq hspace (heapArea_lt hq)]
    exact h.empty q hq
  refine ⟨node, m, hspace.maximal, ?_, h.top.ge, ?_, fun q hq => ?_, fun q e hq hm => ?_⟩
  · rw [h.top]
    exact h.aligned
  · rw [h.top]
    exact h.below
  · rw [hnone q hq, h.top]
    exact iff_of_false (fun hne => hne rfl) (by have := hq.1; omega)
  · rw [hnone q hq] at hm
    cases hm

theorem BrkRun.inv (h : BrkRun P i k) : ∃ node m, HeapInv k i node m := by
  induction h with
  | start h => exact h.inv
  | brk _ he hr hbelow ih =>
    obtain ⟨node, m, hinv⟩ := ih
    exact (hinv.brk he hr hbelow).1
  | writes _ hw ih =>
    obtain ⟨node, m, hinv⟩ := ih
    exact ⟨node, m, hinv.writes hw⟩

/-- The pages of the heap are those that are mapped, for the user to read and write, each to a page of its own. -/
structure HeapExact (k : Kernel) (i : Nat) : Prop where
  aligned : PGSIZE ∣ (k.procs i).heapTop
  base : (k.procs i).heapBase ≤ (k.procs i).heapTop
  mapped : ∀ q, heapArea (k.procs i) q → (k.page i q ≠ none ↔ q * PGSIZE < (k.procs i).heapTop)
  entry : ∀ q e, heapArea (k.procs i) q → k.page i q = some e →
    e.User ∧ e.flags &&& PTE_R ≠ 0 ∧ e.flags &&& PTE_W ≠ 0 ∧ ¬k.ph.Free e.ppn
  own : ∀ q q' e e', heapArea (k.procs i) q → k.page i q = some e → k.page i q' = some e' → e'.User → e.ppn = e'.ppn → q = q'

lemma HeapInv.exact (h : HeapInv k i node m) : HeapExact k i := by
  refine ⟨h.aligned, h.base, fun q hq => ?_, fun q e hq he => ?_, fun q q' e e' hq he he' hu heq => ?_⟩
  · rw [Kernel.page_eq h.space (heapArea_lt hq)]
    exact h.mapped q hq
  · have hm := Kernel.page_some h.space he
    have hent := h.entry q e hq hm
    obtain ⟨n, rfl, -⟩ := hent
    have hflags : (Entry.new n (Uvm.MMAP_FLAGS ||| PTE_V)).flags = (Uvm.MMAP_FLAGS ||| PTE_V) % 1024 := rfl
    refine ⟨user_new n, ?_, ?_, h.space.leaf q _ hm (user_new n)⟩
    · rw [hflags]
      decide
    · rw [hflags]
      decide
  · have hm := Kernel.page_some h.space he
    have hm' := Kernel.page_some h.space he'
    exact h.space.unique q q' e e' hm hm' (h.entry q e hq hm).user hu heq

lemma HeapInv.still (h : HeapInv k i node m) : sysBrk P i 0 k = .ok ((k.procs i).heapTop, k) ∧
    sysBrk P i (k.procs i).heapTop k = .ok ((k.procs i).heapTop, k) := by
  have hzero : sysBrk P i 0 k = .ok ((k.procs i).heapTop, k) := rfl
  refine ⟨hzero, ?_⟩
  by_cases htop : (k.procs i).heapTop = 0
  · rw [htop] at hzero ⊢
    exact hzero
  have hw : Uvm.STACK_BASE < MMAP_BEGIN ∧ MMAP_BEGIN + 4095 < 2 ^ 64 := by decide
  have hbelow := h.top
  have hbase := h.base
  have hself : k.moved i k.ph (k.procs i).heapTop = k := by
    unfold Kernel.moved
    rw [Function.update_eq_self_iff.mpr rfl]
  have hmove : onPhys (moveHeap P (k.procs i).table (k.procs i).heapTop (k.procs i).heapTop) k = .ok (.ok (), k) := by
    unfold moveHeap
    rw [if_neg (lt_irrefl _), if_neg (lt_irrefl _)]
    rfl
  have hget : getProc i k = .ok (k.procs i, k) := rfl
  have hset : (do
      setProc i ({ · with heapTop := (k.procs i).heapTop })
      return (k.procs i).heapTop : K Kernel Nat) k = .ok ((k.procs i).heapTop, k.moved i k.ph (k.procs i).heapTop) := rfl
  unfold sysBrk
  rw [K.bind_of_ok hget, if_neg htop, if_neg (by omega), if_neg (by omega), Uvm.alignUp_eq (by omega), pure_bind,
    pageSize_of_dvd h.aligned, K.bind_of_ok hmove]
  dsimp only
  rw [hset, hself]

/-- As long as the heap stays below the stack, its pages are exactly those mapped. A call that succeeds adds pages of zeros or
unmaps and frees the pages that it gives up, and leaves the other pages alone. -/
theorem brk_keeps_heap (h : BrkRun P i k) : HeapExact k i ∧
    (∀ newTop r k', sysBrk P i newTop k = .ok (r, k') → r ≠ USIZE_MAX → (k'.procs i).heapTop ≤ Uvm.STACK_BASE →
      HeapMoved k k' i ∧ r = (k'.procs i).heapTop ∧
        (k'.procs i).heapTop = if newTop = 0 then (k.procs i).heapTop else Uvm.pageSize newTop) ∧
    sysBrk P i 0 k = .ok ((k.procs i).heapTop, k) ∧ sysBrk P i (k.procs i).heapTop k = .ok ((k.procs i).heapTop, k) := by
  obtain ⟨node, m, hinv⟩ := h.inv
  exact ⟨hinv.exact, fun newTop r k' he hr hbelow => (hinv.brk he hr hbelow).2, hinv.still⟩

theorem brk_keeps_heap_boot : ∃ k k', HeapStart k 0 ∧ sysBrk .dev 0 0x3800 k = .ok (0x4000, k') ∧ HeapMoved k k' 0 ∧
    HeapExact k' 0 := by
  obtain ⟨k₀, k, h₀, hrun, hend⟩ := exists_run .dev (fun _ op _ => op.Typed ∧ (Profile.dev = .release → op.NoWrap))
    (fun _ op _ => !op.isExec) [.create []]
    (fun k => ((k.procs 0).state, (k.procs 0).heapBase, (k.procs 0).heapTop, 
      decide (∀ q ∈ List.range 32, 2 ≤ q → (k.page 0 q).isNone),
      decide (StateT.run' (do
        let r ← sysBrk .dev 0 0x3800
        let k' ← get
        return (r, (k'.procs 0).heapTop)) k = .ok (0x4000, 0x4000))))
    (.runnable, 0x2000, 0x2000, true, true)
    (fun k op _ b ht => ⟨Op.typed_of_not_exec (by simpa using ht), nofun⟩) (by decide +kernel)
  simp only [Prod.mk.injEq, decide_eq_true_eq, Option.isNone_iff_eq_none] at hend
  obtain ⟨hstate, hbase, htop, hnone, hbrk⟩ := hend
  obtain ⟨node, m, used, h⟩ := h₀.heapState (i := 0) hrun (fun _ _ _ ha => ha) (by unfold Process.Live; rw [hstate]; decide)
  have hstart : HeapStart k 0 := by
    refine ⟨⟨node, m, used, h.space⟩, by rw [htop, hbase], by rw [hbase]; decide, by rw [hbase]; decide, fun q hq => ?_⟩
    obtain ⟨hlow, hhigh⟩ := hq
    rw [hbase] at hlow
    unfold PGSIZE at hlow hhigh
    unfold Uvm.STACK_BASE at hhigh
    exact hnone q (List.mem_range.mpr (by omega)) (by omega)
  obtain ⟨k₁, he⟩ := K.exists_of_run' hbrk
  obtain ⟨r, k', hbrk, he⟩ := K.bind_eq_ok.mp he
  obtain ⟨k₂, k₃, hget, he⟩ := K.bind_eq_ok.mp he
  cases hget
  simp only [K.pure_apply, Except.ok.injEq, Prod.mk.injEq] at he
  obtain ⟨⟨rfl, htop'⟩, -⟩ := he
  have hbelow : (k'.procs 0).heapTop ≤ Uvm.STACK_BASE := by
    rw [htop']
    decide
  refine ⟨k, k', hstart, hbrk, ((brk_keeps_heap (.start hstart)).2.1 _ _ k' hbrk (by decide) hbelow).1, ?_⟩
  exact (brk_keeps_heap (.brk (.start hstart) hbrk (by decide) hbelow)).1

end Glenda.Proc
