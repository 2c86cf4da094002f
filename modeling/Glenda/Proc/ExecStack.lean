import Glenda.Proc.Boot
import Glenda.Proc.ExecImage

/-!
# The stack that `proc_exec` sets up

The stack is set up after the segments, and a page of it is mapped only if `lookup` finds no entry for it. There is an entry
as soon as there is a table, so the first page that is mapped anywhere in the first 2 MiB is the last one. The stack is
complete only where the program brings its pages along.
-/

namespace Glenda.Proc
open Glenda.Lib Glenda.Mem Glenda.Mem.KernelVm

variable {P : Profile} {E : Env} {ph₀ ph ph₁ ph₂ ph₃ ph₄ ph₅ ph₆ : Phys} {k k₀ : Kernel} {A : Holder → Asset}
  {ring used : Nat → Prop} {i root tf maxVa perm q : Nat} {v v' : Picture} {file : Nat → Nat → List Nat} {p : Phdr} {ps : List Phdr}

/-! ### What the segments grant -/

lemma Phdr.perm_write (p : Phdr) : (p.perm ||| PTE_V) &&& PTE_W ≠ 0 := by
  unfold Phdr.perm
  split_ifs <;> decide

lemma Phdr.perm_user (p : Phdr) : (p.perm ||| PTE_V) &&& PTE_U ≠ 0 := by
  unfold Phdr.perm
  split_ifs <;> decide

lemma Phdr.perm_read (p : Phdr) : (p.perm ||| PTE_V) &&& PTE_R ≠ 0 ↔ p.flags &&& 4 ≠ 0 := by
  unfold Phdr.perm
  by_cases hr : p.flags &&& 4 ≠ 0
  · rw [if_pos hr]
    refine iff_of_true ?_ hr
    split_ifs <;> decide
  · rw [if_neg hr]
    refine iff_of_false ?_ hr
    split_ifs <;> decide

lemma Phdr.load_flags (file : Nat → Nat → List Nat) (p : Phdr) (v : Picture) (q : Nat) :
    (p.load file v).flags q = if p.covers q then some (p.perm ||| PTE_V) else v.flags q := rfl

lemma Phdr.load_allows (hfit : p.Fits v) :
    (p.load file v).Allows perm q ↔ (p.covers q ∧ (p.perm ||| PTE_V) &&& perm ≠ 0) ∨ v.Allows perm q := by
  unfold Picture.Allows
  rw [Phdr.load_flags]
  by_cases hq : p.covers q
  · rw [if_pos hq, (hfit q hq).2]
    simp [hq, p.perm_user]
  · rw [if_neg hq]
    simp [hq]

/-- The loaded segments grant what their headers say, and leave the other pages alone. -/
lemma loadAll_allows (h : Loadable P file ps v) :
    (loadAll file ps v).Allows perm q ↔ (∃ p ∈ ps, p.covers q ∧ (p.perm ||| PTE_V) &&& perm ≠ 0) ∨ v.Allows perm q := by
  induction ps generalizing v with
  | nil => simp [loadAll]
  | cons p ps ih =>
    obtain ⟨-, hfit, -, hrest⟩ := h
    have hstep := ih hrest
    unfold loadAll at hstep ⊢
    rw [List.foldl_cons, hstep, Phdr.load_allows hfit]
    simp only [List.mem_cons, exists_eq_or_imp]
    rw [or_left_comm, or_assoc]

/-! ### The new table -/

/-- The picture before the first segment is loaded: the user has nothing yet. -/
def newPicture (E : Env) (tf : Nat) : Picture := ⟨fun q => (kernelLeaves E (tf / PGSIZE) q).map Entry.flags, fun _ => 0⟩

lemma newPicture_flags {q f : Nat} (h : (newPicture E tf).flags q = some f) : (q = trampPage ∨ q = trapPage) ∧ f &&& PTE_U = 0 := by
  unfold newPicture kernelLeaves trampLeaf at h
  dsimp only at h
  by_cases htrap : q = trapPage
  · rw [htrap, Function.update_self, Option.map_some, Option.some.injEq] at h
    refine ⟨.inr htrap, ?_⟩
    rw [← h]
    show (PTE_R ||| PTE_W ||| PTE_A ||| PTE_D ||| PTE_V) % 2 ^ 10 &&& PTE_U = 0
    decide
  · rw [Function.update_of_ne htrap] at h
    by_cases htramp : q = trampPage
    · rw [htramp, Function.update_self, Option.map_some, Option.some.injEq] at h
      refine ⟨.inl htramp, ?_⟩
      rw [← h]
      show (PTE_R ||| PTE_X ||| PTE_A ||| PTE_V) % 2 ^ 10 &&& PTE_U = 0
      decide
    · rw [Function.update_of_ne htramp] at h
      cases h

lemma not_newPicture_allows : ¬(newPicture E tf).Allows perm q := by
  rintro ⟨f, hf, hu, -⟩
  exact hu (newPicture_flags hf).2

/-- The segments among the program headers of a file. -/
def programSegments (file : Nat → Nat → List Nat) : List Phdr :=
  segments file (field (file 0 64) 32 40 % 2 ^ 32) (field (file 0 64) 54 56) (field (file 0 64) 56 58) 0

/-- What `proc_exec` has done when the stack is set up. -/
structure Stacked (P : Profile) (E : Env) (file : Nat → Nat → List Nat) (k : Kernel) (root tf maxVa : Nat)
    (ph₁ ph₂ ph₃ ph₄ ph₅ ph₆ : Phys) : Prop where
  allocRoot : frameAlloc k.ph = .ok (some root, ph₁)
  mapTramp : mapTrampoline P E (root / PGSIZE) (ph₁.zeroPage (root / PGSIZE)) = .ok ((), ph₂)
  allocFrame : frameAlloc ph₂ = .ok (some tf, ph₃)
  mapFrame : mapTrapframe P (root / PGSIZE) TRAPFRAME_VA tf ph₃ = .ok ((), ph₄)
  load : loadSegments P file (root / PGSIZE) (field (file 0 64) 32 40 % 2 ^ 32) (field (file 0 64) 54 56) (field (file 0 64) 56 58) 0 0 ph₄ =
    .ok (.ok maxVa, ph₅)
  stack : setupStack P (root / PGSIZE) ph₅ = .ok ((), ph₆)

lemma Loaded.stacked {argv : List Nat} {sp : Nat} {ph' : Phys} (h : Loaded P E i file argv k root tf (.ok (maxVa, sp)) ph₁ ph₂ ph₃ ph₄ ph') :
    ∃ ph₅ ph₆, Stacked P E file k root tf maxVa ph₁ ph₂ ph₃ ph₄ ph₅ ph₆ ∧
      setupArgs P (k.procs i).table (root / PGSIZE) argv ph₆ = .ok (.ok sp, ph') := by
  have hb := h.build
  unfold buildImage at hb
  obtain ⟨r, ph₅, hload, hb⟩ := K.bind_ok hb
  cases r with
  | error e => cases hb
  | ok x =>
    obtain ⟨u, ph₆, hstack, hb⟩ := K.bind_ok hb
    obtain ⟨r, ph7, hargs, hb⟩ := K.bind_ok hb
    cases r with
    | error e => cases hb
    | ok y =>
      cases hb
      exact ⟨ph₅, ph₆, ⟨h.allocRoot, h.mapTramp, h.allocFrame, h.mapFrame, hload, hstack⟩, hargs⟩

lemma World.newShows (h : World E ph₀ ring k A used) {l : Holder} (hl : l ≠ .newTable) (hl' : l ≠ .newFrame)
    (hroot : frameAlloc k.ph = .ok (some root, ph₁))
    (htramp : mapTrampoline P E (root / PGSIZE) (ph₁.zeroPage (root / PGSIZE)) = .ok ((), ph₂))
    (hframe : frameAlloc ph₂ = .ok (some tf, ph₃)) (hmap : mapTrapframe P (root / PGSIZE) TRAPFRAME_VA tf ph₃ = .ok ((), ph₄)) :
    Shows ph₀ (kernelLeaves E (tf / PGSIZE)) (root / PGSIZE) (A l).foot k.ph.mem ph₄ (newPicture E tf) := by
  obtain ⟨-, -, node, used4, h4, hm4, hb4, hkept⟩ := newImage (t := .newTable) (f := .newFrame) h.estate h.bounds h.fits
    h.spare.1 h.spare.2 nofun hroot htramp hframe hmap
  have htable := h4.userTable (Function.update_self ..) hm4 hb4
  refine ⟨node, kernelLeaves E (tf / PGSIZE), used4, htable, fun _ => rfl, fun q e off hq hu => ?_, fun _ _ _ _ => rfl, fun n hn => ?_⟩
  · exact absurd hu (htable.kernel q e hq).2.1
  · have hheld : (Function.update (Function.update A .newFrame (.frame (tf / PGSIZE))) .newTable
        (.table (root / PGSIZE) node (kernelLeaves E (tf / PGSIZE)) (userOwn ph₀)) l).foot n := by
      rw [Function.update_of_ne hl, Function.update_of_ne hl']
      exact hn
    refine ⟨(h4.holding.used_iff n).mpr ⟨l, hheld⟩, fun hc => hl ?_, hkept l n hl hl' hn⟩
    exact h4.holding.apart l .newTable n hheld (by rw [Function.update_self]; exact hc)

lemma World.stackShows (h : World E ph₀ ring k A used) {l : Holder} (hl : l ≠ .newTable) (hl' : l ≠ .newFrame) (hfile : Bytes file)
    (hs : Stacked P E file k root tf maxVa ph₁ ph₂ ph₃ ph₄ ph₅ ph₆) :
    maxVa = highest (programSegments file) 0 ∧ Loadable P file (programSegments file) (newPicture E tf) ∧
      ∃ v, StackSet (loadAll file (programSegments file) (newPicture E tf)) v ∧
        Shows ph₀ (kernelLeaves E (tf / PGSIZE)) (root / PGSIZE) (A l).foot k.ph.mem ph₆ v := by
  have h4 := h.newShows hl hl' hs.allocRoot hs.mapTramp hs.allocFrame hs.mapFrame
  obtain ⟨-, hload, -⟩ := (loadSegments_ends h4 hfile).ok _ _ hs.load
  obtain ⟨hmax, hl, h5⟩ := hload maxVa rfl
  obtain ⟨v, hv, h6⟩ := (setupStack_ends h5).ok _ _ hs.stack
  exact ⟨hmax, hl, v, hv, h6⟩

/-! ### Which pages of the stack there are -/

/-- The pages of the user stack. -/
def stackPage (q : Nat) : Prop := Uvm.STACK_BASE / PGSIZE ≤ q ∧ q < Uvm.STACK_TOP / PGSIZE

/-- The program brings the page along, to read and write. -/
def Brings (ps : List Phdr) (q : Nat) : Prop := ∃ p ∈ ps, p.covers q ∧ p.flags &&& 4 ≠ 0

lemma Loadable.brings (h : Loadable P file ps (newPicture E tf)) :
    (loadAll file ps (newPicture E tf)).Allows PTE_R q ↔ Brings ps q := by
  rw [loadAll_allows h, or_iff_left not_newPicture_allows]
  unfold Brings
  simp only [Phdr.perm_read]

lemma Loadable.covered (h : Loadable P file ps (newPicture E tf)) :
    (loadAll file ps (newPicture E tf)).Allows PTE_W q ↔ ∃ p ∈ ps, p.covers q := by
  rw [loadAll_allows h, or_iff_left not_newPicture_allows]
  simp [Phdr.perm_write]

lemma Brings.allows (h : Loadable P file ps (newPicture E tf)) (hb : Brings ps q) :
    (loadAll file ps (newPicture E tf)).Allows PTE_R q ∧ (loadAll file ps (newPicture E tf)).Allows PTE_W q := by
  obtain ⟨p, hp, hq, hr⟩ := hb
  exact ⟨h.brings.mpr ⟨p, hp, hq, hr⟩, h.covered.mpr ⟨p, hp, hq⟩⟩

lemma StackSet.allows_of_ne (h : StackSet v v') (hq : q ≠ 37) : v'.Allows perm q ↔ v.Allows perm q := by
  rcases h with rfl | ⟨rfl, -⟩
  · exact Iff.rfl
  · unfold Picture.Allows stackOn Picture.map
    dsimp only
    rw [Function.update_of_ne hq]

/-- The whole stack can be read and written exactly if the program brings all of its pages along. -/
lemma StackSet.whole_iff (hl : Loadable P file ps (newPicture E tf)) (h : StackSet (loadAll file ps (newPicture E tf)) v') :
    (∀ q, stackPage q → v'.Allows PTE_R q ∧ v'.Allows PTE_W q) ↔ ∀ q, stackPage q → Brings ps q := by
  constructor
  · intro hall q hq
    have h32 := (h.allows_of_ne (by decide)).mp (hall 32 ⟨by decide, by decide⟩).1
    rcases h with rfl | ⟨rfl, hnone⟩
    · exact hl.brings.mp (hall q hq).1
    · -- the last page has been mapped because there was none
      obtain ⟨f, hf, -⟩ := h32
      rw [hnone 32 (by decide)] at hf
      cases hf
  · intro hall q hq
    have hv := (hall 32 ⟨by decide, by decide⟩).allows hl
    rcases h with rfl | ⟨rfl, hnone⟩
    · exact (hall q hq).allows hl
    · obtain ⟨f, hf, -⟩ := hv.1
      rw [hnone 32 (by decide)] at hf
      cases hf

/-- After the set-up, the stack can be read and written as a whole exactly if each of its pages is covered by a segment of the
program that can be read. If no segment covers a page of the stack, all of its pages but the last are missing. -/
theorem stack_mapped_iff (h₀ : Booted E ring k₀)
    (hrun : Reaches P E (fun _ op _ => op.Typed ∧ (P = .release → op.NoWrap)) k₀ k) (hfile : Bytes file)
    (hs : Stacked P E file k root tf maxVa ph₁ ph₂ ph₃ ph₄ ph₅ ph₆) :
    ((∀ q, stackPage q → Uvm.Access ph₆.mem (root / PGSIZE) PTE_R q ∧ Uvm.Access ph₆.mem (root / PGSIZE) PTE_W q) ↔
      ∀ q, stackPage q → ∃ p ∈ programSegments file, p.covers q ∧ p.flags &&& 4 ≠ 0) ∧
    ((∀ p ∈ programSegments file, ∀ q, stackPage q → ¬p.covers q) → ∀ q, stackPage q → q + 1 < Uvm.STACK_TOP / PGSIZE →
      ¬Uvm.Access ph₆.mem (root / PGSIZE) PTE_R q ∧ ¬Uvm.Access ph₆.mem (root / PGSIZE) PTE_W q) := by
  obtain ⟨A₀, hA₀, -⟩ := h₀.shared
  obtain ⟨A, used, ids, free, hA, -⟩ := hA₀.run hrun fun _ _ _ ha => ha
  obtain ⟨-, hl, v, hv, hshows⟩ := hA.stackShows (l := .kernel) nofun nofun hfile hs
  have hread : ∀ q, Uvm.Access ph₆.mem (root / PGSIZE) PTE_R q ↔ v.Allows PTE_R q := fun q => hshows.access_iff (by decide)
  have hwrite : ∀ q, Uvm.Access ph₆.mem (root / PGSIZE) PTE_W q ↔ v.Allows PTE_W q := fun q => hshows.access_iff (by decide)
  simp only [hread, hwrite]
  refine ⟨hv.whole_iff hl, fun hnone q hq hlast => ?_⟩
  have hne : q ≠ 37 := by
    rintro rfl
    exact absurd hlast (by decide)
  rw [hv.allows_of_ne hne, hv.allows_of_ne hne, hl.brings, hl.covered]
  refine ⟨?_, ?_⟩
  · rintro ⟨p, hp, hc, -⟩
    exact hnone p hp q hq hc
  · rintro ⟨p, hp, hc⟩
    exact hnone p hp q hq hc

lemma exists_stacked {vaddr memsz : Nat} (hrun : StateT.run' (do
      let _ ← onPhys (mapKernel .dev bootEnv)
      let b ← performAll .dev bootEnv (fun _ op _ => !op.isExec) [.create []]
      let k ← get
      return (b, ((procExec .dev bootEnv 0 (some (readBytes (zeroElf vaddr memsz))) [] k).map fun r => decide (r.1 = .ok ())))) bootKernel =
        .ok (true, .ok true)) :
    ∃ k₀ k root tf maxVa ph₁ ph₂ ph₃ ph₄ ph₅ ph₆, Booted bootEnv (fun _ => False) k₀ ∧
      Reaches .dev bootEnv (fun _ op _ => op.Typed ∧ (Profile.dev = .release → op.NoWrap)) k₀ k ∧
      Stacked .dev bootEnv (readBytes (zeroElf vaddr memsz)) k root tf maxVa ph₁ ph₂ ph₃ ph₄ ph₅ ph₆ := by
  obtain ⟨k₀, k, h0, hrun, hend⟩ := exists_run .dev (fun _ op _ => op.Typed ∧ (Profile.dev = .release → op.NoWrap))
    (fun _ op _ => !op.isExec) [.create []]
    (fun k => (procExec .dev bootEnv 0 (some (readBytes (zeroElf vaddr memsz))) [] k).map fun r => decide (r.1 = .ok ())) (.ok true)
    (fun k op _ b ht => ⟨Op.typed_of_not_exec (by simpa using ht), nofun⟩) hrun
  cases he : procExec .dev bootEnv 0 (some (readBytes (zeroElf vaddr memsz))) [] k with
  | error e =>
    rw [he] at hend
    cases hend
  | ok r =>
    obtain ⟨r, k'⟩ := r
    rw [he] at hend
    simp only [Except.map, Except.ok.injEq, decide_eq_true_eq] at hend
    subst hend
    rcases procExec_ok he with ⟨hr, -⟩ | ⟨f, root, tf, res, ph₁, ph₂, ph₃, ph₄, ph₅, hf, hl, hx⟩
    · cases hr
    · cases hf
      cases hx with
      | ok hdrop hpid hset hframe hk =>
        obtain ⟨ph₅, ph₆, hs, -⟩ := hl.stacked
        exact ⟨k₀, k, root, tf, _, ph₁, ph₂, ph₃, ph₄, ph₅, ph₆, h0, hrun, hs⟩

/-- A program whose segment is the stack. -/
theorem stack_mapped_own : ∃ k₀ k root tf maxVa ph₁ ph₂ ph₃ ph₄ ph₅ ph₆, Booted bootEnv (fun _ => False) k₀ ∧
    Reaches .dev bootEnv (fun _ op _ => op.Typed ∧ (Profile.dev = .release → op.NoWrap)) k₀ k ∧
    Stacked .dev bootEnv (readBytes (zeroElf 0x20000 0x6000)) k root tf maxVa ph₁ ph₂ ph₃ ph₄ ph₅ ph₆ ∧
    ∀ q, stackPage q → Uvm.Access ph₆.mem (root / PGSIZE) PTE_R q ∧ Uvm.Access ph₆.mem (root / PGSIZE) PTE_W q := by
  obtain ⟨k₀, k, root, tf, maxVa, ph₁, ph₂, ph₃, ph₄, ph₅, ph₆, h₀, hrun, hs⟩ := @exists_stacked 0x20000 0x6000 (by decide +kernel)
  refine ⟨k₀, k, root, tf, maxVa, ph₁, ph₂, ph₃, ph₄, ph₅, ph₆, h₀, hrun, hs, (stack_mapped_iff h₀ hrun (bytes_zeroElf _ _) hs).1.mpr ?_⟩
  have hps : programSegments (readBytes (zeroElf 0x20000 0x6000)) = [⟨7, 0, 0x20000, 0, 0x6000⟩] := by decide +kernel
  intro q hq
  rw [hps]
  refine ⟨_, List.mem_singleton_self _, ?_, by decide⟩
  exact hq

/-- A program linked at 0x1000 gets no stack. -/
theorem stack_missing : ∃ k₀ k root tf maxVa ph₁ ph₂ ph₃ ph₄ ph₅ ph₆, Booted bootEnv (fun _ => False) k₀ ∧
    Reaches .dev bootEnv (fun _ op _ => op.Typed ∧ (Profile.dev = .release → op.NoWrap)) k₀ k ∧
    (∀ p ∈ programSegments (readBytes (zeroElf 0x1000 4096)), ∀ q, stackPage q → ¬p.covers q) ∧
    Stacked .dev bootEnv (readBytes (zeroElf 0x1000 4096)) k root tf maxVa ph₁ ph₂ ph₃ ph₄ ph₅ ph₆ ∧
    ∀ q, stackPage q → ¬Uvm.Access ph₆.mem (root / PGSIZE) PTE_R q ∧ ¬Uvm.Access ph₆.mem (root / PGSIZE) PTE_W q := by
  obtain ⟨k₀, k, root, tf, maxVa, ph₁, ph₂, ph₃, ph₄, ph₅, ph₆, h₀, hrun, hs⟩ := @exists_stacked 0x1000 4096 (by decide +kernel)
  have hps : programSegments (readBytes (zeroElf 0x1000 4096)) = [⟨7, 0, 0x1000, 0, 4096⟩] := by decide +kernel
  have hcovers : ∀ q, (Phdr.mk 7 0 0x1000 0 4096).covers q ↔ q = 1 := by
    intro q
    unfold Phdr.covers Phdr.first Phdr.last PGSIZE
    dsimp only
    omega
  have hout : ∀ q, stackPage q → q ≠ 1 ∧ q < 512 := by
    rintro q ⟨hlow, hhigh⟩
    unfold Uvm.STACK_BASE PGSIZE at hlow
    have htop : Uvm.STACK_TOP / PGSIZE = 38 := by decide
    omega
  refine ⟨k₀, k, root, tf, maxVa, ph₁, ph₂, ph₃, ph₄, ph₅, ph₆, h₀, hrun, fun p hp q hq hc => ?_, hs, fun q hq => ?_⟩
  · rw [hps, List.mem_singleton] at hp
    subst hp
    exact (hout q hq).1 ((hcovers q).mp hc)
  · obtain ⟨A₀, hA₀, -⟩ := h₀.shared
    obtain ⟨A, used, ids, free, hA, -⟩ := hA₀.run hrun fun _ _ _ ha => ha
    obtain ⟨-, hl, v, hv, hshows⟩ := hA.stackShows (l := .kernel) nofun nofun (bytes_zeroElf _ _) hs
    rw [hps] at hv hl
    -- the page of the program is there, so the stack is not
    have hone : (loadAll (readBytes (zeroElf 0x1000 4096)) [⟨7, 0, 0x1000, 0, 4096⟩] (newPicture bootEnv tf)).Allows PTE_R 1 :=
      hl.brings.mpr ⟨_, List.mem_singleton_self _, (hcovers 1).mpr rfl, by decide⟩
    rcases hv with rfl | ⟨-, hnone⟩
    · rw [hshows.access_iff (by decide), hshows.access_iff (by decide), hl.brings, hl.covered]
      refine ⟨?_, ?_⟩
      · rintro ⟨p, hp, hc, -⟩
        rw [List.mem_singleton] at hp
        subst hp
        exact (hout q hq).1 ((hcovers q).mp hc)
      · rintro ⟨p, hp, hc⟩
        rw [List.mem_singleton] at hp
        subst hp
        exact (hout q hq).1 ((hcovers q).mp hc)
    · obtain ⟨f, hf, -⟩ := hone
      rw [hnone 1 (by decide)] at hf
      cases hf

end Glenda.Proc
