import Glenda.Proc.Steps
import Glenda.Mem.MmapLists

/-!
# The region nodes of all processes

The 256 nodes of the warehouse are either free or on the list of one process. Reaping a process keeps this
only if its list has at most one node.
-/

namespace Glenda.Proc
open Glenda.Lib Glenda.Mem
open Function (update update_of_ne update_self)

/-- Each node is in exactly one place: on the free list, or on the list of one process. -/
structure NodesHeld (k : Kernel) (ids : Nat → List Nat) (free : List Nat) : Prop where
  lists : ∀ i < NPROC, RegionLists k.wh (k.procs i).mmapHead (ids i) free
  apart : ∀ i < NPROC, ∀ j < NPROC, i ≠ j → (ids i).Disjoint (ids j)
  all : ∀ n < N_MMAP, n ∈ free ∨ ∃ i < NPROC, n ∈ ids i
  unused : ∀ i < NPROC, (k.procs i).state = .unused → (k.procs i).mmapHead = none

/-! ### Operations that leave the lists alone -/

structure SameLists (k k' : Kernel) : Prop where
  wh : k'.wh = k.wh
  head : ∀ i, (k'.procs i).mmapHead = (k.procs i).mmapHead
  unused : ∀ i, (k'.procs i).state = .unused → (k.procs i).state = .unused

instance : IsPreorder Kernel SameLists where
  refl _ := ⟨rfl, fun _ => rfl, fun _ h => h⟩
  trans _ _ _ h h' := ⟨h'.wh.trans h.wh, fun i => (h'.head i).trans (h.head i), fun i hu => h.unused i (h'.unused i hu)⟩

namespace SameLists

variable {P : Profile} {E : Env} {α : Type} {f : Process → Process}

lemma onPhys (x : K Phys α) : K.Keeps SameLists (onPhys x) := by
  intro k a k' he
  obtain ⟨ph', -, rfl⟩ := onPhys_ok he
  exact ⟨rfl, fun _ => rfl, fun _ h => h⟩

lemma setProc {i : Nat}
    (hf : ∀ p, (f p).mmapHead = p.mmapHead ∧ ((f p).state = .unused → p.state = .unused)) :
    K.Keeps SameLists (setProc i f) := by
  refine .modify fun k => ⟨rfl, fun j => ?_, fun j hj => ?_⟩
  · by_cases h : j = i
    · subst h
      simp [(hf _).1]
    · simp [h]
  · by_cases h : j = i
    · subst h
      exact (hf _).2 (by simpa using hj)
    · simpa [h] using hj

lemma mapProcs (hf : ∀ p, (f p).mmapHead = p.mmapHead ∧ ((f p).state = .unused → p.state = .unused)) :
    K.Keeps SameLists (mapProcs f) := by
  refine .modify fun k => ⟨rfl, fun j => ?_, fun j hj => ?_⟩
  · dsimp only
    split_ifs
    · exact (hf _).1
    · rfl
  · dsimp only at hj
    split_ifs at hj
    · exact (hf _).2 hj
    · exact hj

lemma alloc : K.Keeps SameLists alloc := by
  intro k o k' he
  rcases alloc_ok he with ⟨-, rfl⟩ | ⟨i, -, -, hu, -, rfl⟩
  · exact refl_of SameLists k'
  · refine ⟨rfl, fun j => ?_, fun j hj => ?_⟩
    · by_cases h : j = i
      · subst h
        simp
      · simp [h]
    · by_cases h : j = i
      · subst h
        exact hu
      · simpa [h] using hj

lemma frame : MemoryFrame SameLists where
  phys := onPhys
  proc _ _ hf := setProc fun p => ⟨(hf p).2, fun h => (congrArg Slot.state (hf p).1).symm.trans h⟩

lemma of_runnable {k k' : Kernel} {i : Nat} {p : Process} (hk : k' = { k with ph := k'.ph, procs := update k.procs i p })
    (hhead : p.mmapHead = (k.procs i).mmapHead) (hp : p.state = .runnable) : SameLists k k' := by
  rw [hk]
  refine ⟨rfl, fun j => ?_, fun j hj => ?_⟩
  · by_cases h : j = i
    · simp [h, hhead]
    · simp [h]
  · by_cases h : j = i
    · simp [h, hp] at hj
    · simpa [h] using hj

lemma create (payload : List Nat) : K.Keeps SameLists (create P E payload) := by
  refine .bind alloc fun _ => .bind (MemoryFrame.expect _) fun i => .bind ?_ fun _ => .pure _
  intro k u k' he
  obtain ⟨root, tf, top, ph1, ph2, ph3, ph4, ph5, ph6, hC⟩ := createIn_ok he
  exact of_runnable hC.kernel rfl rfl

lemma fork (i : Nat) : K.Keeps SameLists (fork P E i) := by
  refine .bind alloc fun _ => .bind (MemoryFrame.expect _) fun c => .bind ?_ fun _ => .pure _
  intro k u k' he
  obtain ⟨root, tf, ph1, ph2, ph3, ph4, ph5, ph6, hF⟩ := forkInto_ok he
  exact of_runnable hF.kernel rfl rfl

lemma sysExit (i code : Nat) : K.Keeps SameLists (sysExit i code) := by
  have hwake : ∀ o, K.Keeps SameLists (wakeParent o) := by
    rintro (_ | parent)
    · exact .pure _
    · unfold wakeParent wakeup
      refine mapProcs fun p => ?_
      split_ifs
      · exact ⟨rfl, nofun⟩
      · exact ⟨rfl, id⟩
  refine .bind (setProc fun _ => ⟨rfl, id⟩) fun _ => .bind (MemoryFrame.getProc i) fun p => .bind (hwake _) fun _ => ?_
  refine .bind (mapProcs fun p => ?_) fun _ => setProc fun _ => ⟨rfl, nofun⟩
  split_ifs
  · exact ⟨rfl, id⟩
  · exact ⟨rfl, id⟩

lemma afterSwitch (i : Nat) : K.Keeps SameLists (afterSwitch i) := by
  refine setProc fun p => ?_
  split_ifs
  · exact ⟨rfl, nofun⟩
  · exact ⟨rfl, id⟩

end SameLists

/-! ### The lists -/

/-- The lists of the processes share no node with each other or with the free list. -/
structure ListsHeld (k : Kernel) (ids : Nat → List Nat) (free : List Nat) : Prop where
  lists : ∀ i < NPROC, RegionLists k.wh (k.procs i).mmapHead (ids i) free
  apart : ∀ i < NPROC, ∀ j < NPROC, i ≠ j → (ids i).Disjoint (ids j)
  unused : ∀ i < NPROC, (k.procs i).state = .unused → (k.procs i).mmapHead = none

namespace ListsHeld

variable {P : Profile} {E : Env} {k k' : Kernel} {ids : Nat → List Nat} {free ids' free' : List Nat} {i : Nat}

lemma same (h : ListsHeld k ids free) (hs : SameLists k k') : ListsHeld k' ids free := by
  refine ⟨fun i hi => ?_, h.apart, fun i hi hu => ?_⟩
  · rw [hs.wh, hs.head i]
    exact h.lists i hi
  · rw [hs.head i]
    exact h.unused i hi (hs.unused i hu)

lemma not_mem (h : ListsHeld k ids free) (hi : i < NPROC) {j n : Nat} (hj : j < NPROC) (hne : j ≠ i) (hn : n ∈ ids j) :
    n ∉ ids i ++ free := by
  intro hmem
  rcases List.mem_append.mp hmem with hmem | hmem
  · exact h.apart j hj i hi hne hn hmem
  · exact (h.lists j hj).not_mem_free hn hmem

lemma change (h : ListsHeld k ids free) (hi : i < NPROC) (hl : RegionLists k'.wh (k'.procs i).mmapHead ids' free')
    (hsub : ∀ n ∈ ids' ++ free', n ∈ ids i ++ free)
    (hother : ∀ n < N_MMAP, n ∉ ids i ++ free → k'.wh.nodeList n = k.wh.nodeList n)
    (ho : ∀ j, j ≠ i → k'.procs j = k.procs j)
    (hu : (k'.procs i).state = .unused → (k'.procs i).mmapHead = none) :
    ListsHeld k' (update ids i ids') free' := by
  have hkept : ∀ j < NPROC, j ≠ i → ∀ n ∈ ids j, k'.wh.nodeList n = k.wh.nodeList n := by
    intro j hj hne n hn
    exact hother n ((h.lists j hj).lt n (List.mem_append_left _ hn)) (h.not_mem hi hj hne hn)
  have hnew : ∀ j < NPROC, j ≠ i → ∀ n ∈ ids j, n ∉ ids' ++ free' := by
    intro j hj hne n hn hmem
    exact h.not_mem hi hj hne hn (hsub n hmem)
  refine ⟨fun j hj => ?_, fun j hj l hl' hne => ?_, fun j hj hs => ?_⟩
  · by_cases hji : j = i
    · subst hji
      rw [update_self]
      exact hl
    · rw [update_of_ne hji, ho j hji]
      have hchain : Chain k'.wh.nextRegion (k.procs j).mmapHead (ids j) := by
        refine (h.lists j hj).regions.congr fun n hn => ?_
        unfold MmapWarehouse.nextRegion MmapWarehouse.region
        rw [hkept j hj hji n hn]
      refine ⟨hchain, hl.unused, ?_, fun n hn => ?_⟩
      · refine List.nodup_append.mpr ⟨(List.nodup_append.mp (h.lists j hj).nodup).1, (List.nodup_append.mp hl.nodup).2.1, ?_⟩
        rintro n hn _ hmem rfl
        exact hnew j hj hji n hn (List.mem_append_right _ hmem)
      · rcases List.mem_append.mp hn with hn | hn
        · exact (h.lists j hj).lt n (List.mem_append_left _ hn)
        · exact hl.lt n (List.mem_append_right _ hn)
  · by_cases hji : j = i
    · subst hji
      rw [update_self, update_of_ne (Ne.symm hne)]
      exact fun n hn hn' => hnew l hl' (Ne.symm hne) n hn' (List.mem_append_left _ hn)
    · rw [update_of_ne hji]
      by_cases hli : l = i
      · subst hli
        rw [update_self]
        exact fun n hn hn' => hnew j hj hji n hn (List.mem_append_left _ hn')
      · rw [update_of_ne hli]
        exact h.apart j hj l hl' hne
  · by_cases hji : j = i
    · subst hji
      exact hu hs
    · rw [ho j hji] at hs ⊢
      exact h.unused j hj hs

lemma freed (h : ListsHeld k ids free) (hi : i < NPROC) :
    ∃ free', RegionLists (headFreed k.wh (k.procs i).mmapHead) none [] free' ∧ (∀ n ∈ free', n ∈ ids i ++ free) ∧
      (∀ n < N_MMAP, n ∉ ids i ++ free → (headFreed k.wh (k.procs i).mmapHead).nodeList n = k.wh.nodeList n) ∧
      ((∀ x, (k.procs i).mmapHead = some x → k.wh.nextRegion x = none) → free'.Perm (ids i ++ free)) := by
  have hl := h.lists i hi
  have hempty : RegionLists k.wh none [] free :=
    ⟨rfl, hl.unused, (List.nodup_append.mp hl.nodup).2.1, fun n hn => hl.lt n (List.mem_append_right _ hn)⟩
  cases hhead : (k.procs i).mmapHead with
  | none =>
    have hnil : ids i = [] := by
      have hc := hl.regions.head_eq
      rw [hhead] at hc
      exact List.head?_eq_none_iff.mp hc.symm
    rw [hnil]
    exact ⟨free, hempty, fun n hn => hn, fun _ _ _ => rfl, fun _ => .refl _⟩
  | some x =>
    obtain ⟨rest, hids, hrest⟩ : ∃ rest, ids i = x :: rest ∧ Chain k.wh.nextRegion (k.wh.nextRegion x) rest := by
      have hc := hl.regions
      rw [hhead] at hc
      cases hids : ids i with
      | nil =>
        rw [hids] at hc
        cases hc
      | cons y rest =>
        rw [hids] at hc
        obtain ⟨hxy, hrest⟩ := Chain.cons.mp hc
        cases hxy
        exact ⟨rest, rfl, hrest⟩
    have hx : x ∈ ids i := by simp [hids]
    have hnot : x ∉ [] ++ free := by
      rw [List.nil_append]
      exact hl.not_mem_free hx
    refine ⟨x :: free, hempty.give (hl.initialised hx) hnot (hl.lt x (List.mem_append_left _ hx)), fun n hn => ?_,
      fun n _ hn => MmapWarehouse.given_of_ne ?_, fun hone => ?_⟩
    · rcases List.mem_cons.mp hn with rfl | hn
      · exact List.mem_append_left _ hx
      · exact List.mem_append_right _ hn
    · rintro rfl
      exact hn (List.mem_append_left _ hx)
    · rw [hone x rfl] at hrest
      rw [hids, List.head?_eq_none_iff.mp hrest.head_eq.symm]
      exact .refl _

end ListsHeld

namespace NodesHeld

variable {P : Profile} {E : Env} {k k' : Kernel} {ids : Nat → List Nat} {free : List Nat}

section

variable (h : NodesHeld k ids free)
include h

lemma same (hs : SameLists k k') : NodesHeld k' ids free := by
  refine ⟨fun i hi => ?_, h.apart, h.all, fun i hi hu => ?_⟩
  · rw [hs.wh, hs.head i]
    exact h.lists i hi
  · rw [hs.head i]
    exact h.unused i hi (hs.unused i hu)

lemma listsHeld : ListsHeld k ids free := ⟨h.lists, h.apart, h.unused⟩

/-- The list of one process changes, and it shares its nodes with the free list only. -/
lemma change {i : Nat} {ids' free' : List Nat} (hi : i < NPROC)
    (hl : RegionLists k'.wh (k'.procs i).mmapHead ids' free') (hm : Moves k.wh k'.wh (ids i) free ids' free')
    (ho : ∀ j, j ≠ i → k'.procs j = k.procs j)
    (hu : (k'.procs i).state = .unused → (k'.procs i).mmapHead = none) :
    NodesHeld k' (update ids i ids') free' := by
  have hlists := h.listsHeld.change hi hl (fun n hn => hm.perm.mem_iff.mp hn) hm.other ho hu
  refine ⟨hlists.lists, hlists.apart, fun n hn => ?_, hlists.unused⟩
  have hback : n ∈ ids i ++ free → n ∈ free' ∨ ∃ j < NPROC, n ∈ update ids i ids' j := by
    intro hmem
    rcases List.mem_append.mp (hm.perm.mem_iff.mpr hmem) with hmem | hmem
    · exact .inr ⟨i, hi, by rwa [update_self]⟩
    · exact .inl hmem
  rcases h.all n hn with hmem | ⟨j, hj, hmem⟩
  · exact hback (List.mem_append_right _ hmem)
  · by_cases hji : j = i
    · subst hji
      exact hback (List.mem_append_left _ hmem)
    · exact .inr ⟨j, hj, by rwa [update_of_ne hji]⟩

lemma onVm {α : Type} {a : α} {i : Nat} {x : K Vm α} (ha : k.Active i)
    (hx : ∀ s s', RegionLists s.wh s.head (ids i) free → x s = .ok (a, s') → Uvm.Kept s s' (ids i) free)
    (he : onVm i x k = .ok (a, k')) : ∃ ids' free', NodesHeld k' ids' free' := by
  obtain ⟨s', hrun, rfl⟩ := onVm_ok he
  obtain ⟨ids', free', hl, hm⟩ := hx _ _ (h.lists i ha.1) hrun
  refine ⟨_, _, h.change ha.1 ?_ hm (fun j hj => update_of_ne hj _ _) fun hs => ?_⟩
  · dsimp only
    rw [update_self]
    exact hl
  · dsimp only at hs
    rw [update_self] at hs
    exact absurd hs ha.2.1

lemma reap {i : Nat} {r : WaitResult} (hone : ∀ j x, k.firstZombie i = some j →
    (k.procs j).mmapHead = some x → k.wh.nextRegion x = none) (ha : k.Active i) (he : wait P E i k = .ok (r, k')) :
    ∃ ids' free', NodesHeld k' ids' free' := by
  rcases wait_ok he with ⟨j, -, -, -, ph4, hz, -, -, -, -, -, rfl⟩ | ⟨-, ⟨-, rfl⟩ | ⟨-, rfl⟩⟩
  · obtain ⟨hj, -, -⟩ := Kernel.firstZombie_eq hz
    obtain ⟨free', hl', -, hother, hperm⟩ := h.listsHeld.freed hj
    have hm' : Moves k.wh (headFreed k.wh (k.procs j).mmapHead) (ids j) free [] free' :=
      ⟨hperm fun x hx => hone j x hz hx, hother⟩
    refine ⟨_, _, h.change hj ?_ hm' (fun n hn => update_of_ne hn _ _) fun _ => ?_⟩
    · dsimp only
      rw [update_self]
      exact hl'
    · simp [Process.new]
  · exact ⟨ids, free, h⟩
  · refine ⟨ids, free, h.same ⟨rfl, fun n => ?_, fun n hn => ?_⟩⟩
    · by_cases hni : n = i
      · subst hni
        simp
      · simp [hni]
    · by_cases hni : n = i
      · subst hni
        simp at hn
      · simpa [hni] using hn

end

end NodesHeld

/-- A process that is reaped has at most one node on its list. -/
def ReapsOne (k : Kernel) (op : Op) (_ : Bool) : Prop :=
  ∀ i j x, op = .wait i → k.firstZombie i = some j → (k.procs j).mmapHead = some x → k.wh.nextRegion x = none

section Runs

variable {P : Profile} {E : Env} {k₀ k k' : Kernel} {ids₀ : Nat → List Nat} {free₀ : List Nat}

lemma NodesHeld.step {op : Op} {b : Bool} (h : NodesHeld k ids₀ free₀) (hr : op.Ready k) (hone : ReapsOne k op b)
    (he : op.perform P E k = .ok (b, k')) : ∃ ids free, NodesHeld k' ids free := by
  cases op with
  | create payload =>
    obtain ⟨i, k1, hop, he⟩ := K.bind_ok he
    cases he
    exact ⟨_, _, h.same (SameLists.create payload _ _ _ hop)⟩
  | fork i =>
    obtain ⟨c, k1, hop, he⟩ := K.bind_ok he
    cases he
    exact ⟨_, _, h.same (SameLists.fork i _ _ _ hop)⟩
  | exec i file argv =>
    obtain ⟨r, k1, hop, he⟩ := K.bind_ok he
    cases he
    exact ⟨_, _, h.same (SameLists.frame.procExec i file argv _ _ _ hop)⟩
  | brk i newTop =>
    obtain ⟨r, k1, hop, he⟩ := K.bind_ok he
    cases he
    exact ⟨_, _, h.same (SameLists.frame.sysBrk i newTop _ _ _ hop)⟩
  | mmap i begin len =>
    obtain ⟨r, k1, hop, he⟩ := K.bind_ok he
    cases he
    obtain ⟨p, k2, hp, hop⟩ := K.bind_ok hop
    cases hp
    exact h.onVm hr (fun s s' hl hx => Uvm.mmap_lists hl hx) hop
  | munmap i begin len =>
    obtain ⟨r, k1, hop, he⟩ := K.bind_ok he
    cases he
    obtain ⟨p, k2, hp, hop⟩ := K.bind_ok hop
    cases hp
    exact h.onVm hr (fun s s' hl hx => Uvm.munmap_lists hl hx) hop
  | stack i faultVa =>
    obtain ⟨r, k1, hop, he⟩ := K.bind_ok he
    cases he
    exact ⟨_, _, h.same (SameLists.frame.ustackGrow i faultVa _ _ _ hop)⟩
  | exit i code =>
    obtain ⟨r, k1, hop, he⟩ := K.bind_ok he
    cases he
    exact ⟨_, _, h.same (SameLists.sysExit i code _ _ _ hop)⟩
  | switch i =>
    obtain ⟨r, k1, hop, he⟩ := K.bind_ok he
    cases he
    exact ⟨_, _, h.same (SameLists.afterSwitch i _ _ _ hop)⟩
  | wait i =>
    obtain ⟨r, k1, hop, he⟩ := K.bind_ok he
    cases he
    exact h.reap (fun j x => hone i j x rfl) hr hop

/-- If every process that is reaped has at most one node on its list, each node is in exactly one
place, and all nodes are free once no process has any. -/
theorem mmap_nodes_conserved (h₀ : NodesHeld k₀ ids₀ free₀) (h : Reaches P E ReapsOne k₀ k) :
    ∃ ids free, NodesHeld k ids free ∧
      ((∀ i < NPROC, (k.procs i).mmapHead = none) → ∀ n < N_MMAP, n ∈ free) := by
  obtain ⟨ids, free, hheld⟩ : ∃ ids free, NodesHeld k ids free := by
    refine h.invariant (I := fun k => ∃ ids free, NodesHeld k ids free) ⟨ids₀, free₀, h₀⟩ ?_
    rintro k k' op b ⟨ids, free, hk⟩ hr ha he
    exact hk.step hr ha he
  refine ⟨ids, free, hheld, fun hnone n hn => ?_⟩
  rcases hheld.all n hn with hmem | ⟨i, hi, hmem⟩
  · exact hmem
  · have hc := (hheld.lists i hi).regions.head_eq
    rw [hnone i hi] at hc
    rw [List.head?_eq_none_iff.mp hc.symm] at hmem
    cases hmem

end Runs

lemma bootKernel_nodes : NodesHeld bootKernel (fun _ => []) (List.range N_MMAP) := by
  refine ⟨fun i _ => ⟨rfl, MmapWarehouse.chain_init rfl, ?_, fun n hn => ?_⟩, fun i _ j _ _ => List.disjoint_nil_left _,
    fun n hn => .inl (List.mem_range.mpr hn), fun i _ _ => rfl⟩
  · rw [List.nil_append]
    exact List.nodup_range
  · rw [List.nil_append] at hn
    exact List.mem_range.mp hn

theorem mmap_nodes_conserved_boot : ∃ k ids free,
    (k.procs 0).mmapHead = some 0 ∧ Reaches .dev bootEnv ReapsOne bootKernel k ∧ NodesHeld k ids free := by
  obtain ⟨k, he⟩ := K.exists_of_run' (a := (true, some 0)) (s := bootKernel) (x := do
    let b ← performAll .dev bootEnv (fun _ op _ => op matches .create _ | .mmap _ _ _) [.create [], .mmap 0 0 4096]
    return (b, ((← get).procs 0).mmapHead)) (by decide +kernel)
  obtain ⟨b, k₁, hall, he⟩ := K.bind_eq_ok.mp he
  simp only [K.bind_apply, K.get_apply, Except.bind, K.pure_apply, Except.ok.injEq, Prod.mk.injEq] at he
  obtain ⟨⟨rfl, hhead⟩, rfl⟩ := he
  have hrun : Reaches .dev bootEnv ReapsOne bootKernel k₁ := by
    refine .of_performAll (fun k op _ b htest i j x hop => ?_) .start hall
    rw [hop] at htest
    cases htest
  obtain ⟨ids, free, hheld, -⟩ := mmap_nodes_conserved bootKernel_nodes hrun
  exact ⟨k₁, ids, free, hhead, hrun, hheld⟩

/-- A child maps two ranges that do not touch and exits. Once it is reaped no process has a node, but its second
node is not free. -/
theorem mmap_nodes_lost : NodesHeld bootKernel (fun _ => []) (List.range N_MMAP) ∧
    ∃ k, Reaches .dev bootEnv (fun _ _ b => b = true) bootKernel k ∧ (∀ i < NPROC, (k.procs i).mmapHead = none) ∧
      ∀ free, Chain k.wh.init.nextFree k.wh.init.head free → 1 ∉ free := by
  refine ⟨bootKernel_nodes, ?_⟩
  obtain ⟨k, he⟩ := K.exists_of_run' (a := (true, true, some none)) (s := bootKernel) (x := do
    let b ← performAll .dev bootEnv (fun _ _ b => b) [.create [], .fork 0, .mmap 1 MMAP_BEGIN 4096,
      .mmap 1 (MMAP_BEGIN + 8192) 4096, .exit 1 0, .switch 1, .wait 0]
    let k ← get
    return (b, (List.range NPROC).all fun i => (k.procs i).mmapHead.isNone,
      Lib.findFrom k.wh.init.nextFree (· == 1) N_MMAP k.wh.init.head)) (by decide +kernel)
  obtain ⟨b, k₁, hall, he⟩ := K.bind_eq_ok.mp he
  simp only [K.bind_apply, K.get_apply, Except.bind, K.pure_apply, Except.ok.injEq, Prod.mk.injEq] at he
  obtain ⟨⟨rfl, hnone, hfind⟩, rfl⟩ := he
  refine ⟨k₁, .of_performAll (fun _ _ _ _ h => h) .start hall, fun i hi => ?_, fun free hc hmem => ?_⟩
  · have h := List.all_eq_true.mp hnone i (List.mem_range.mpr hi)
    exact Option.isNone_iff_eq_none.mp h
  · have h := hc.not_of_findFrom hfind 1 hmem
    cases h

end Glenda.Proc
