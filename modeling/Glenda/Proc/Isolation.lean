import Glenda.Proc.Boot

/-!
# Memory isolation

What `copyin` returns for a process depends on the pages of its table and on the pages that its user leaves own. The
memory operations of another process leave all of these alone.
-/

namespace Glenda.Mem
open Glenda.Lib

variable {P : Profile} {ph ph' : Phys} {table : Nat} {node : List Nat → Option Nat} {m : PageMap} {own : Nat → Entry → Prop}
  {used : Nat → Prop}

lemma addW_congr {σ : Type} (P : Profile) (w a b : Nat) (s s' : σ) : addW P w a b s' = (addW P w a b s).map fun r => (r.1, s') := by
  unfold addW
  split_ifs
  · rfl
  · cases P <;> rfl

lemma Phys.readBytes_congr {pa k : Nat} (h : ph'.mem (pa / PGSIZE) = ph.mem (pa / PGSIZE)) (hk : pa % PGSIZE + k ≤ PGSIZE) :
    ph'.readBytes pa k = ph.readBytes pa k := by
  unfold Phys.readBytes
  refine List.map_congr_left fun i hi => ?_
  have hi := List.mem_range.mp hi
  have hpage : (pa + i) / PGSIZE = pa / PGSIZE := by
    unfold PGSIZE at *
    omega
  unfold Phys.byte
  rw [hpage, h]

namespace Uvm

lemma pageOffset_lt (va : Nat) : pageOffset va < PGSIZE := by
  rw [pageOffset, show PGMASK = 2 ^ 12 - 1 from rfl, Nat.and_two_pow_sub_one_eq_mod]
  exact Nat.mod_lt _ (by decide)

lemma userPage_congr {va perm : Nat} (h : Tree ph.mem table node m) (hmem : ∀ s n, node s = some n → ph'.mem n = ph.mem n) :
    userPage ph'.mem table va perm = userPage ph.mem table va perm := by
  unfold userPage
  by_cases hva : alignDown va < VA_MAX
  · rw [h.lookup_eq hva, (h.congr hmem).lookup_eq hva]
    cases hn : node [vpn (alignDown va) 2, vpn (alignDown va) 1] with
    | none => rfl
    | some n =>
      dsimp only [Option.map_some]
      rw [hmem _ n hn]
  · unfold PageTable.lookup
    rw [if_pos (not_lt.mp hva), if_pos (not_lt.mp hva)]

section

variable (h : Tree ph.mem table node m) (hnode : ∀ s n, node s = some n → ph'.mem n = ph.mem n)
  (hleaf : ∀ q e, m q = some e → e.User → ph'.mem e.ppn = ph.mem e.ppn)
include h hnode hleaf

/-- What `copyin` depends on: the pages of the table, and those of the user leaves. -/
lemma copyinFrom_congr (fuel n va : Nat) :
    copyinFrom P table fuel n va ph' = (copyinFrom P table fuel n va ph).map fun r => (r.1, ph') := by
  induction fuel generalizing n va with
  | zero => cases n <;> rfl
  | succ fuel ih =>
    cases n with
    | zero => rfl
    | succ n =>
      rw [copyinFrom, K.bind_apply, K.bind_apply, K.get_apply, K.get_apply]
      simp only [Except.bind]
      rw [userPage_congr h hnode]
      cases hp : userPage ph.mem table va PTE_R with
      | error e => rfl
      | ok pa =>
        obtain ⟨e, hm, hu, rfl⟩ := userPage_ok h hp
        have hoff := pageOffset_lt va
        have hread : ph'.readBytes (e.ppn * PGSIZE + pageOffset va) (min (PGSIZE - pageOffset va) (n + 1)) =
            ph.readBytes (e.ppn * PGSIZE + pageOffset va) (min (PGSIZE - pageOffset va) (n + 1)) := by
          have hpage : (e.ppn * PGSIZE + pageOffset va) / PGSIZE = e.ppn := by
            unfold PGSIZE at *
            omega
          refine Phys.readBytes_congr ?_ ?_
          · rw [hpage]
            exact hleaf _ e hm hu
          · unfold PGSIZE at *
            omega
        dsimp only
        rw [K.bind_apply, K.bind_apply, addW_congr P 64 va _ ph ph']
        cases hadd : addW P 64 va (min (PGSIZE - pageOffset va) (n + 1)) ph with
        | error p => rfl
        | ok r =>
          obtain ⟨next, s⟩ := r
          obtain ⟨rfl, -⟩ := addW_ok hadd
          simp only [Except.map, Except.bind]
          rw [K.bind_apply, K.bind_apply, ih]
          cases copyinFrom P table fuel (n + 1 - min (PGSIZE - pageOffset va) (n + 1)) next ph with
          | error p => rfl
          | ok r =>
            obtain ⟨res, s⟩ := r
            cases res with
            | error e => rfl
            | ok bs =>
              simp only [Except.map, Except.bind, K.pure_apply]
              rw [hread]

lemma copyin_congr (len va : Nat) :
    (copyin P table len va).run' ph' = (copyin P table len va).run' ph := by
  show (copyinFrom P table len len va ph').map Prod.fst = (copyinFrom P table len len va ph).map Prod.fst
  rw [copyinFrom_congr h hnode hleaf]
  cases copyinFrom P table len len va ph <;> rfl

end

end Uvm

end Glenda.Mem

namespace Glenda.Proc
open Glenda.Lib Glenda.Mem Glenda.Mem.KernelVm

/-- What a process can do to its memory, or have done by the kernel. -/
inductive MemOp
  | copyout (va : Nat) (src : List Nat)
  | brk (newTop : Nat)
  | mmap (begin len : Nat)
  | munmap (begin len : Nat)
  | stack (faultVa : Nat)

/-- The operation of the process `i`, whatever it reports. -/
def MemOp.perform (P : Profile) (i : Nat) : MemOp → K Kernel Unit
  | .copyout va src => do
    let p ← getProc i
    let _ ← onPhys (Uvm.copyout P p.table va src)
  | .brk newTop => do
    let _ ← sysBrk P i newTop
  | .mmap begin len => do
    let _ ← sysMmap P i begin len
  | .munmap begin len => do
    let _ ← sysMunmap P i begin len
  | .stack faultVa => do
    let _ ← ustackGrow P i faultVa

def MemOp.NoWrap : MemOp → Prop
  | .mmap begin len => begin + Uvm.pageSize len < 2 ^ 64
  | _ => True

instance (op : MemOp) : Decidable op.NoWrap :=
  match op with
  | .mmap begin len => inferInstanceAs (Decidable (begin + Uvm.pageSize len < 2 ^ 64))
  | .copyout _ _ | .brk _ | .munmap _ _ | .stack _ => .isTrue trivial

variable {P : Profile} {E : Env} {ph₀ : Phys} {k k' k₀ : Kernel} {A A' : Holder → Asset} {ring used T : Nat → Prop} {ok : Prop} {i j : Nat}
  {u : Unit}

/-- `copyin` for the process `j`, whatever it returns. -/
def Kernel.copyin (P : Profile) (k : Kernel) (j len va : Nat) : Except Panic (Except CopyError (List Nat)) :=
  (Uvm.copyin P (k.procs j).table len va).run' k.ph

lemma World.Local.copyin_eq (h : World E ph₀ ring k A used) (hl : World.Local E ph₀ k k' A A' used i T ok) (hj : (k.procs j).Live)
    (hne : j ≠ i) (len va : Nat) : k'.copyin P j len va = k.copyin P j len va := by
  obtain ⟨-, hown⟩ := h.owns j hj
  obtain ⟨node, m, hA, hm⟩ := hown.table
  have hs := h.estate.space hA
  have hut := h.estate.userTable hA hm h.bounds
  have hfoot : ∀ n, Space.foot node m (userOwn ph₀) n → k'.ph.mem n = k.ph.mem n := by
    intro n hn
    refine hl.mem n (hs.foot_used n hn) fun hi => hne ?_
    have hj' : (A (.table j)).foot n := by rwa [hA]
    simpa using h.estate.holding.apart _ _ n hj' hi
  unfold Kernel.copyin
  rw [hl.procs j hne]
  exact Uvm.copyin_congr hs.tree (fun s n hn => hfoot n (.inl ⟨s, hn⟩))
    (fun q e hq hu => hfoot e.ppn (.inr ⟨q, e, hq, hut.owned hq hu, rfl⟩)) len va

lemma MemOp.step {op : MemOp} (h : Shared E ph₀ ring k A) (hi : (k.procs i).Live) (hj : (k.procs j).Live) (hne : j ≠ i)
    (hw : P = .release → op.NoWrap) (he : op.perform P i k = .ok (u, k')) :
    (∃ A', Shared E ph₀ ring k' A') ∧ (k'.procs i).Live ∧ (k'.procs j).Live ∧
      ∀ len va, k'.copyin P j len va = k.copyin P j len va := by
  obtain ⟨used, ids, free, h, hl⟩ := h
  have hend : ∀ {A' : Holder → Asset} {T : Nat → Prop} {ok : Prop}, World.Local E ph₀ k k' A A' used i T ok →
      (k'.procs i).Live ∧ (k'.procs j).Live ∧ ∀ len va, k'.copyin P j len va = k.copyin P j len va := by
    intro A' T ok hloc
    refine ⟨hloc.alike.live.mpr hi, ?_, hloc.copyin_eq h hj hne⟩
    rw [hloc.procs j hne]
    exact hj
  cases op with
  | copyout va src =>
    obtain ⟨p, k1, hp, he⟩ := K.bind_ok he
    cases hp
    obtain ⟨r, k1, hop, he⟩ := K.bind_ok he
    cases he
    obtain ⟨A', used', h', hloc⟩ := h.copyout hi hop
    exact ⟨⟨A', used', ids, free, h', hl.same (SameLists.onPhys _ _ _ _ hop)⟩, hend hloc⟩
  | brk newTop =>
    obtain ⟨r, k1, hop, he⟩ := K.bind_ok he
    cases he
    obtain ⟨A', used', h', hloc⟩ := h.sysBrk hi hop
    exact ⟨⟨A', used', ids, free, h', hl.same (SameLists.frame.sysBrk i newTop _ _ _ hop)⟩, hend hloc⟩
  | mmap begin len =>
    obtain ⟨r, k1, hop, he⟩ := K.bind_ok he
    cases he
    obtain ⟨A', used', ids', free', h', hl', hloc⟩ := h.sysMmap hl hi hw hop
    exact ⟨⟨A', used', ids', free', h', hl'⟩, hend hloc⟩
  | munmap begin len =>
    obtain ⟨r, k1, hop, he⟩ := K.bind_ok he
    cases he
    obtain ⟨A', used', ids', free', h', hl', hloc⟩ := h.sysMunmap hl hi hop
    exact ⟨⟨A', used', ids', free', h', hl'⟩, hend hloc⟩
  | stack faultVa =>
    obtain ⟨r, k1, hop, he⟩ := K.bind_ok he
    cases he
    obtain ⟨A', used', h', hloc⟩ := h.ustackGrow hi hop
    exact ⟨⟨A', used', ids, free, h', hl.same (SameLists.frame.ustackGrow i faultVa _ _ _ hop)⟩, hend hloc⟩

lemma MemOp.run {ops : List MemOp} (h : Shared E ph₀ ring k A) (hi : (k.procs i).Live) (hj : (k.procs j).Live) (hne : j ≠ i)
    (hw : ∀ op ∈ ops, P = .release → op.NoWrap) (he : ops.forM (MemOp.perform P i) k = .ok (u, k')) (len va : Nat) :
    k'.copyin P j len va = k.copyin P j len va := by
  induction ops generalizing k A with
  | nil =>
    cases he
    rfl
  | cons op ops ih =>
    obtain ⟨u1, k1, hop, he⟩ := K.bind_ok he
    obtain ⟨⟨A', h'⟩, hi', hj', hsame⟩ := MemOp.step h hi hj hne (hw op (List.mem_cons_self ..)) hop
    rw [ih h' hi' hj' (fun op hop => hw op (List.mem_cons_of_mem _ hop)) he, hsame]

/-- If no region of `mmap` wraps around, nothing that a process does to its memory changes what `copyin` returns for another. -/
theorem memory_isolated {ops : List MemOp} (h₀ : Booted E ring k₀)
    (h : Reaches P E (fun _ op b => b = true ∧ op.Typed ∧ (P = .release → op.NoWrap)) k₀ k) (hi : (k.procs i).Live)
    (hj : (k.procs j).Live) (hne : j ≠ i) (hw : ∀ op ∈ ops, P = .release → op.NoWrap)
    (he : ops.forM (MemOp.perform P i) k = .ok (u, k')) (len va : Nat) : k'.copyin P j len va = k.copyin P j len va := by
  obtain ⟨A₀, hA₀, -⟩ := h₀.shared
  obtain ⟨A, hA⟩ := hA₀.run h fun _ _ _ ha => ha.2
  exact MemOp.run hA hi hj hne hw he len va

lemma Process.Live.of_runnable {p : Process} (h : p.state = .runnable) : p.Live := by
  unfold Process.Live
  rw [h]
  nofun

/-- A page of the heap and a page of a region are mapped for the first of two processes. -/
theorem memory_isolated_boot : ∃ k₀ k k', Booted bootEnv (fun _ => False) k₀ ∧
    Reaches .release bootEnv (fun _ op b => b = true ∧ op.Typed ∧ (Profile.release = .release → op.NoWrap)) k₀ k ∧
    [MemOp.brk 8192, .mmap 0 4096, .copyout MMAP_BEGIN [7]].forM (MemOp.perform .release 0) k = .ok ((), k') ∧
    ∀ len va, k'.copyin .release 1 len va = k.copyin .release 1 len va := by
  obtain ⟨k₀, k, h₀, hrun, hend⟩ := exists_run .release
    (fun _ op b => b = true ∧ op.Typed ∧ (Profile.release = .release → op.NoWrap))
    (fun _ op b => b && decide op.NoWrap && !op.isExec) [.create [], .create []]
    (fun k => ((k.procs 0).state, (k.procs 1).state,
      ([MemOp.brk 8192, .mmap 0 4096, .copyout MMAP_BEGIN [7]].forM (MemOp.perform .release 0) k).isOk))
    (.runnable, .runnable, true)
    (fun k op _ b ht => by
      simp only [Bool.and_eq_true, decide_eq_true_eq, Bool.not_eq_true'] at ht
      exact ⟨ht.1.1, Op.typed_of_not_exec ht.2, fun _ => ht.1.2⟩)
    (by decide +kernel)
  simp only [Prod.mk.injEq] at hend
  obtain ⟨hzero, hone, hok⟩ := hend
  cases he : [MemOp.brk 8192, .mmap 0 4096, .copyout MMAP_BEGIN [7]].forM (MemOp.perform .release 0) k with
  | error e =>
    rw [he] at hok
    cases hok
  | ok r =>
    refine ⟨k₀, k, r.2, h₀, hrun, he, ?_⟩
    refine memory_isolated h₀ hrun (.of_runnable hzero) (.of_runnable hone) (by decide) ?_ he
    intro op hop _
    fin_cases hop <;> decide +kernel

/-- A page that was unmapped while it held a trap frame becomes the root table of the next process, and is freed again when the
process that had the trap frame is reaped: the next page that any process takes for a table is that root. -/
theorem root_table_reused : ∃ k₀ k k', Booted bootEnv (fun _ => False) k₀ ∧
    Reaches .release bootEnv (fun _ op b => b = true ∧ op.Typed) k₀ k ∧ (k.procs 0).Live ∧ (k.procs 2).Live ∧
    [MemOp.mmap MMAP_BEGIN 4096].forM (MemOp.perform .release 0) k = .ok ((), k') ∧
    k.copyin .release 2 1 MMAP_BEGIN = .ok (.ok [0]) ∧ k'.copyin .release 2 1 MMAP_BEGIN = .ok (.error .notMapped) := by
  obtain ⟨k₀, k, h₀, hrun, hend⟩ := exists_run .release (fun _ op b => b = true ∧ op.Typed) (fun _ op b => b && !op.isExec)
    [.create [], .fork 0, .mmap 1 MMAP_BEGIN (2 ^ 64 - 4096), .munmap 1 TRAPFRAME_VA 4096, .create [],
      .mmap 2 MMAP_BEGIN 4096, .exit 1 0, .switch 1, .wait 0]
    (fun k => ((k.procs 0).state, (k.procs 2).state, decide (k.copyin .release 2 1 MMAP_BEGIN = .ok (.ok [0])),
      decide (([MemOp.mmap MMAP_BEGIN 4096].forM (MemOp.perform .release 0) k).map (fun r => r.2.copyin .release 2 1 MMAP_BEGIN)
        = .ok (.ok (.error .notMapped)))))
    (.runnable, .runnable, true, true)
    (fun k op _ b ht => by
      simp only [Bool.and_eq_true, Bool.not_eq_true'] at ht
      exact ⟨ht.1, Op.typed_of_not_exec ht.2⟩)
    (by decide +kernel)
  simp only [Prod.mk.injEq, decide_eq_true_eq] at hend
  obtain ⟨hzero, htwo, hbefore, hafter⟩ := hend
  cases he : [MemOp.mmap MMAP_BEGIN 4096].forM (MemOp.perform .release 0) k with
  | error e =>
    rw [he] at hafter
    cases hafter
  | ok r =>
    rw [he] at hafter
    exact ⟨k₀, k, r.2, h₀, hrun, .of_runnable hzero, .of_runnable htwo, he, hbefore, Except.ok.inj hafter⟩

end Glenda.Proc
