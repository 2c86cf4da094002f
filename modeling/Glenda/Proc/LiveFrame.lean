import Glenda.Proc.Ownership

/-!
# The trap frame across a trap

`trap_user_handler` gets the address of the trap frame of the process when the trap is taken, and copies the registers
back to that address when the trap has been handled. In between the trap dispatches at most one call, and other
processes run whenever the process has given up the hart.
-/

namespace Glenda.Proc
open Glenda.Lib Glenda.Mem

/-- The process that asks for an operation. The scheduler asks for `switch`. -/
def Op.caller : Op → Option Nat
  | .create _ | .switch _ => none
  | .fork i | .exec i _ _ | .brk i _ | .mmap i _ _ | .munmap i _ _ | .stack i _ | .exit i _ | .wait i => some i

/-- A trap that the process `i` took in the state `k₀`: the call that it has dispatched, with the result, and the state by
now. A process that exits does not come back to the handler. -/
inductive Handling (P : Profile) (E : Env) (i : Nat) (k₀ : Kernel) : Option (Op × Bool) → Kernel → Prop
  | trap : Handling P E i k₀ none k₀
  | other {c : Option (Op × Bool)} {k k' : Kernel} {op : Op} {b : Bool} (h : Handling P E i k₀ c k) (hop : op.caller ≠ some i)
      (hr : op.Ready k) (ht : op.Typed) (hw : P = .release → op.NoWrap) (he : op.perform P E k = .ok (b, k')) :
      Handling P E i k₀ c k'
  | call {k k' : Kernel} {op : Op} {b : Bool} (h : Handling P E i k₀ none k) (hop : op.caller = some i)
      (hexit : ∀ code, op ≠ .exit i code) (hr : op.Ready k) (ht : op.Typed) (hw : P = .release → op.NoWrap)
      (he : op.perform P E k = .ok (b, k')) : Handling P E i k₀ (some (op, b)) k'
  -- `wait` looks for children again whenever it has slept
  | again {k k' : Kernel} {b b' : Bool} (h : Handling P E i k₀ (some (.wait i, b)) k)
      (he : (Op.wait i).perform P E k = .ok (b', k')) : Handling P E i k₀ (some (.wait i, b')) k'

/-- The frame at `ctx` belongs to the process, and is on no free list. -/
def Kernel.LiveFrame (k : Kernel) (i ctx : Nat) : Prop := (k.procs i).trapframeFrame = some ctx ∧ ∀ b, ¬k.ph.OnFree b ctx

variable {P : Profile} {E : Env} {ph₀ : Phys} {ring : Nat → Prop} {k₀ k₁ k k' : Kernel} {A : Holder → Asset} {i : Nat} {op : Op} {b : Bool} {j : Nat}
  {u : Unit}

/-! ### What an operation does to the frame of a process -/

/-- The process keeps its frame and goes on. -/
structure KeepsFrame (i : Nat) (k k' : Kernel) : Prop where
  active : k.Active i → k'.Active i
  frame : (k'.procs i).trapframe = (k.procs i).trapframe

lemma KeepsFrame.trans {k'' : Kernel} (h : KeepsFrame i k k') (h' : KeepsFrame i k' k'') : KeepsFrame i k k'' :=
  ⟨fun ha => h'.active (h.active ha), h'.frame.trans h.frame⟩

lemma KeepsFrame.of_eq (h : k'.procs i = k.procs i) : KeepsFrame i k k' := by
  refine ⟨fun ha => ?_, by rw [h]⟩
  unfold Kernel.Active
  rw [h]
  exact ha

lemma KeepsFrame.of_state (hs : (k'.procs i).state = (k.procs i).state) (hf : (k'.procs i).trapframe = (k.procs i).trapframe) :
    KeepsFrame i k k' := by
  refine ⟨fun ha => ?_, hf⟩
  unfold Kernel.Active
  rw [hs]
  exact ha

lemma KeepsFrame.update {p : Process} (hp : k'.procs = Function.update k.procs j p)
    (hs : p.state = (k.procs j).state) (hf : p.trapframe = (k.procs j).trapframe) : KeepsFrame i k k' := by
  by_cases hij : i = j
  · subst hij
    refine .of_state ?_ ?_
    · rw [hp, Function.update_self, hs]
    · rw [hp, Function.update_self, hf]
  · apply KeepsFrame.of_eq
    rw [hp, Function.update_of_ne hij]

lemma KeepsFrame.mapProcs {g : Process → Process} (hs : ∀ p : Process, (g p).state = p.state ∨ (g p).state = .runnable)
    (hf : ∀ p : Process, (g p).trapframe = p.trapframe) (he : mapProcs g k = .ok (u, k')) : KeepsFrame i k k' := by
  cases he
  refine ⟨fun ha => ?_, ?_⟩
  · unfold Kernel.Active at *
    dsimp only
    rw [if_pos ha.1]
    rcases hs (k.procs i) with h | h
    · rw [h]
      exact ha
    · rw [h]
      exact ⟨ha.1, nofun, nofun, nofun⟩
  · dsimp only
    split_ifs
    · exact hf _
    · rfl

lemma KeepsFrame.alloc {o : Option Nat} (ha : k.Active i) (he : alloc k = .ok (o, k')) :
    KeepsFrame i k k' ∧ ∀ c, o = some c → i ≠ c := by
  rcases alloc_ok he with ⟨rfl, rfl⟩ | ⟨c, rfl, -, hu, -, rfl⟩
  · exact ⟨.of_eq rfl, nofun⟩
  · have hne : i ≠ c := by
      rintro rfl
      exact ha.2.1 hu
    refine ⟨.of_eq (Function.update_of_ne hne _ _), fun c' hc => ?_⟩
    cases hc
    exact hne

lemma KeepsFrame.sysExit {code : Nat} (hne : i ≠ j) (he : sysExit j code k = .ok (u, k')) : KeepsFrame i k k' := by
  unfold Proc.sysExit exit at he
  obtain ⟨u1, k₁, h1, he⟩ := K.bind_ok he
  cases h1
  obtain ⟨p, k2, h2, he⟩ := K.bind_ok he
  cases h2
  obtain ⟨u2, k2, h2, he⟩ := K.bind_ok he
  obtain ⟨u3, k3, h3, he⟩ := K.bind_ok he
  cases he
  have hcode : KeepsFrame i k { k with procs := Function.update k.procs j { k.procs j with exitCode := code } } :=
    .of_eq (Function.update_of_ne hne _ _)
  have hwake : KeepsFrame i { k with procs := Function.update k.procs j { k.procs j with exitCode := code } } k2 := by
    cases hp : (Function.update k.procs j { k.procs j with exitCode := code } j).parent with
    | none =>
      dsimp only at h2
      rw [hp] at h2
      cases h2
      exact .of_eq rfl
    | some parent =>
      dsimp only at h2
      rw [hp] at h2
      unfold wakeParent wakeup at h2
      refine .mapProcs (fun p => ?_) (fun p => ?_) h2
      · split_ifs
        · exact .inr rfl
        · exact .inl rfl
      · split_ifs <;> rfl
  have hparent : KeepsFrame i k2 k3 := by
    refine .mapProcs (fun p => ?_) (fun p => ?_) h3
    · split_ifs <;> exact .inl rfl
    · split_ifs <;> rfl
  exact hcode.trans (hwake.trans (hparent.trans (.of_eq (Function.update_of_ne hne _ _))))

lemma KeepsFrame.afterSwitch (ha : k.Active i) (he : afterSwitch j k = .ok (u, k')) : KeepsFrame i k k' := by
  cases he
  by_cases hij : i = j
  · subst hij
    refine .of_eq ?_
    dsimp only
    rw [Function.update_self, if_neg ha.2.2.1]
  · exact .of_eq (Function.update_of_ne hij _ _)

lemma KeepsFrame.wait {r : WaitResult} (ha : k.Active i) (he : wait P E j k = .ok (r, k')) : KeepsFrame i k k' := by
  rcases wait_ok he with ⟨z, ph1, ph2, ph3, ph4, hz, -, -, -, -, -, rfl⟩ | ⟨-, ⟨-, rfl⟩ | ⟨-, rfl⟩⟩
  · refine .of_eq (Function.update_of_ne ?_ _ _)
    rintro rfl
    exact ha.2.2.2 (Kernel.firstZombie_eq hz).2.2
  · exact .of_eq rfl
  · by_cases hij : i = j
    · subst hij
      refine ⟨fun _ => ?_, by simp⟩
      simp [Kernel.Active, ha.1]
    · exact .of_eq (Function.update_of_ne hij _ _)

lemma KeepsFrame.sysBrk {newTop r : Nat} (he : sysBrk P j newTop k = .ok (r, k')) : KeepsFrame i k k' := by
  rcases sysBrk_ok he with ⟨rfl, -⟩ | ⟨-, -, -, top, res, ph', -, -, ⟨e, -, -, rfl⟩ | ⟨-, -, rfl⟩⟩
  · exact .of_eq rfl
  · exact .of_eq rfl
  · exact .update rfl rfl rfl

lemma KeepsFrame.onVm {α : Type} {a : α} {x : K Vm α} (he : onVm j x k = .ok (a, k')) : KeepsFrame i k k' := by
  obtain ⟨s', -, rfl⟩ := onVm_ok he
  exact .update rfl rfl rfl

/-- An operation that is neither the exit of the process nor an `exec` that succeeds. -/
lemma KeepsFrame.perform (ha : k.Active i) (hexit : ∀ code, op ≠ .exit i code)
    (hexec : ∀ file argv, op = .exec i file argv → b = false) (he : op.perform P E k = .ok (b, k')) : KeepsFrame i k k' := by
  cases op with
  | create payload =>
    obtain ⟨c, k₁, hop, he⟩ := K.bind_ok he
    cases he
    unfold Proc.create at hop
    obtain ⟨o, k₁, halloc, hop⟩ := K.bind_ok hop
    obtain ⟨c', k2, hsome, hop⟩ := K.bind_ok hop
    obtain ⟨u, k3, hin, hret⟩ := K.bind_ok hop
    cases hret
    obtain ⟨rfl, rfl⟩ := expect_ok hsome
    obtain ⟨hkeep, hne⟩ := KeepsFrame.alloc ha halloc
    obtain ⟨root, tf, top, ph1, ph2, ph3, ph4, ph5, ph6, hC⟩ := createIn_ok hin
    refine hkeep.trans (.of_eq ?_)
    rw [hC.kernel]
    exact Function.update_of_ne (hne _ rfl) _ _
  | fork j =>
    obtain ⟨c, k₁, hop, he⟩ := K.bind_ok he
    cases he
    unfold Proc.fork at hop
    obtain ⟨o, k₁, halloc, hop⟩ := K.bind_ok hop
    obtain ⟨c', k2, hsome, hop⟩ := K.bind_ok hop
    obtain ⟨u, k3, hin, hret⟩ := K.bind_ok hop
    cases hret
    obtain ⟨rfl, rfl⟩ := expect_ok hsome
    obtain ⟨hkeep, hne⟩ := KeepsFrame.alloc ha halloc
    obtain ⟨root, tf, ph1, ph2, ph3, ph4, ph5, ph6, hF⟩ := forkInto_ok hin
    refine hkeep.trans (.of_eq ?_)
    rw [hF.kernel]
    exact Function.update_of_ne (hne _ rfl) _ _
  | exec j file argv =>
    obtain ⟨r, k₁, hop, he⟩ := K.bind_ok he
    cases he
    rcases procExec_ok hop with ⟨-, rfl⟩ | ⟨f, root, tf, res, ph1, ph2, ph3, ph4, ph5, rfl, -, hx⟩
    · exact .of_eq rfl
    · cases hx with
      | error hframe hroot hk =>
        rw [hk]
        exact .of_eq rfl
      | ok hdrop hpid hset hframe hk =>
        have hne : i ≠ j := by
          rintro rfl
          exact absurd (hexec _ _ rfl) nofun
        rw [hk]
        exact .of_eq (Function.update_of_ne hne _ _)
  | brk j newTop =>
    obtain ⟨r, k₁, hop, he⟩ := K.bind_ok he
    cases he
    exact .sysBrk hop
  | mmap j begin len =>
    obtain ⟨r, k₁, hop, he⟩ := K.bind_ok he
    cases he
    obtain ⟨p, k₁, hp, hop⟩ := K.bind_ok hop
    cases hp
    exact .onVm hop
  | munmap j begin len =>
    obtain ⟨r, k₁, hop, he⟩ := K.bind_ok he
    cases he
    obtain ⟨p, k₁, hp, hop⟩ := K.bind_ok hop
    cases hp
    exact .onVm hop
  | stack j faultVa =>
    obtain ⟨r, k₁, hop, he⟩ := K.bind_ok he
    cases he
    obtain ⟨p, k₁, hp, hop⟩ := K.bind_ok hop
    cases hp
    obtain ⟨ph', -, rfl⟩ := onPhys_ok hop
    exact .of_eq rfl
  | exit j code =>
    obtain ⟨r, k₁, hop, he⟩ := K.bind_ok he
    cases he
    have hne : i ≠ j := by
      rintro rfl
      exact hexit code rfl
    exact .sysExit hne hop
  | switch j =>
    obtain ⟨r, k₁, hop, he⟩ := K.bind_ok he
    cases he
    exact .afterSwitch ha hop
  | wait j =>
    obtain ⟨r, k₁, hop, he⟩ := K.bind_ok he
    cases he
    exact .wait ha hop

lemma Shared.exec_frame {file : Option (Nat → Nat → List Nat)} {argv : List Nat} (h : Shared E ph₀ ring k A) (ha : k.Active i)
    (ht : (Op.exec i file argv).Typed) (he : (Op.exec i file argv).perform P E k = .ok (true, k')) :
    k'.Active i ∧ (k'.procs i).trapframe ≠ (k.procs i).trapframe := by
  obtain ⟨used, ids, free, h, -⟩ := h
  obtain ⟨r, k₁, hop, he⟩ := K.bind_ok he
  cases r with
  | error e => cases he
  | ok u =>
    cases he
    rcases procExec_ok hop with ⟨hr, -⟩ | ⟨f, root, tf, res, ph1, ph2, ph3, ph4, ph5, rfl, hl, hx⟩
    · cases hr
    · obtain ⟨B, used5, node, m, hp, -⟩ := h.loaded (ht f rfl) hl
      obtain ⟨-, hown⟩ := h.owns i ha.2.1
      cases hx with
      | ok hdrop hpid hset hframe hk =>
        have hself := congrFun (congrArg Kernel.procs hk) i
        dsimp only at hself
        rw [Function.update_self] at hself
        refine ⟨?_, fun heq => ?_⟩
        · unfold Kernel.Active
          rw [hself]
          exact ha
        · rw [hself] at heq
          dsimp only at heq
          have hold : (B (.frame i)).foot (tf / PGSIZE) := by
            rw [hp.other (.frame i) nofun nofun, hown.frame, heq]
            exact rfl
          have hnew : (B .newFrame).foot (tf / PGSIZE) := by
            rw [hp.frame]
            exact rfl
          exact absurd (hp.estate.holding.apart _ _ _ hold hnew) nofun

/-! ### The whole trap -/

/-- The call is an `exec` that has succeeded. -/
def Replaces (i : Nat) (c : Option (Op × Bool)) : Prop := ∃ file argv, c = some (.exec i file argv, true)

lemma Handling.keeps {c : Option (Op × Bool)} (h : Handling P E i k₁ c k) (hA : Shared E ph₀ ring k₁ A) (hi : k₁.Active i) :
    (∃ A', Shared E ph₀ ring k A') ∧ k.Active i ∧ ((k.procs i).trapframe = (k₁.procs i).trapframe ↔ ¬Replaces i c) := by
  induction h with
  | trap => exact ⟨⟨A, hA⟩, hi, iff_of_true rfl nofun⟩
  | @other c k k' op b h hop hr ht hw he ih =>
    obtain ⟨⟨A1, hA1⟩, ha, hframe⟩ := ih
    obtain ⟨A2, hA2, -⟩ := hA1.step hr ht hw he
    have hkeep : KeepsFrame i k k' := by
      refine .perform ha ?_ ?_ he
      · rintro code rfl
        exact hop rfl
      · rintro file argv rfl
        exact absurd rfl hop
    refine ⟨⟨A2, hA2⟩, hkeep.active ha, ?_⟩
    rw [hkeep.frame]
    exact hframe
  | @call k k' op b h hop hexit hr ht hw he ih =>
    obtain ⟨⟨A1, hA1⟩, ha, hframe⟩ := ih
    have hsame := hframe.mpr nofun
    obtain ⟨A2, hA2, -⟩ := hA1.step hr ht hw he
    by_cases hx : Replaces i (some (op, b))
    · obtain ⟨file, argv, hx⟩ := hx
      cases hx
      obtain ⟨ha', hne⟩ := hA1.exec_frame ha ht he
      rw [← hsame]
      exact ⟨⟨A2, hA2⟩, ha', iff_of_false hne (not_not.mpr ⟨file, argv, rfl⟩)⟩
    · have hkeep : KeepsFrame i k k' := by
        refine .perform ha hexit (fun file argv hop => ?_) he
        cases b with
        | false => rfl
        | true => exact absurd ⟨file, argv, by rw [hop]⟩ hx
      exact ⟨⟨A2, hA2⟩, hkeep.active ha, iff_of_true (hkeep.frame.trans hsame) hx⟩
  | @again k k' b b' h he ih =>
    obtain ⟨⟨A1, hA1⟩, ha, hframe⟩ := ih
    have hwait : ∀ b, ¬Replaces i (some (.wait i, b)) := by
      rintro b ⟨file, argv, hx⟩
      cases hx
    have hready : (Op.wait i).Ready k := ha
    obtain ⟨A2, hA2, -⟩ := hA1.step hready trivial (fun _ => trivial) he
    have hexit : ∀ code, Op.wait i ≠ .exit i code := nofun
    have hkeep : KeepsFrame i k k' := .perform ha hexit nofun he
    exact ⟨⟨A2, hA2⟩, hkeep.active ha, iff_of_true (hkeep.frame.trans (hframe.mpr (hwait b))) (hwait b')⟩

lemma Shared.frame_live (h : Shared E ph₀ ring k A) (ha : k.Active i) : k.LiveFrame i (k.procs i).trapframe := by
  obtain ⟨used, ids, free, h, -⟩ := h
  obtain ⟨-, hown⟩ := h.owns i ha.2.1
  refine ⟨hown.trapframe.1, fun b hfree => ?_⟩
  obtain ⟨fl, hp⟩ := h.estate.pmem
  refine hp.unused b _ (hp.onFree_iff.mp hfree) ((h.estate.holding.used_iff _).mpr ⟨.frame i, ?_⟩)
  rw [hown.frame]
  exact rfl

/-- When a trap has been handled, the frame that the registers are copied to is that of the process, and not free, exactly if
the trap has not dispatched an `exec` that has succeeded. -/
theorem trapframe_live_iff {c : Option (Op × Bool)} (h₀ : Booted E ring k₀)
    (hrun : Reaches P E (fun _ op _ => op.Typed ∧ (P = .release → op.NoWrap)) k₀ k₁) (hi : k₁.Active i)
    (h : Handling P E i k₁ c k) : k.LiveFrame i (k₁.procs i).trapframe ↔ ¬Replaces i c := by
  obtain ⟨A₀, hA₀, -⟩ := h₀.shared
  obtain ⟨A₁, hA₁⟩ := hA₀.run hrun fun _ _ _ ha => ha
  obtain ⟨⟨A, hA⟩, ha, hframe⟩ := h.keeps hA₁ hi
  have hlive := hA.frame_live ha
  rw [← hframe]
  constructor
  · intro hctx
    have hsame : some (k.procs i).trapframe = some (k₁.procs i).trapframe := hlive.1.symm.trans hctx.1
    exact Option.some.inj hsame
  · intro hsame
    rw [← hsame]
    exact hlive

/-- The first process grows its heap. -/
theorem trapframe_live_brk : ∃ k₀ k₁ k, Booted bootEnv (fun _ => False) k₀ ∧
    Reaches .dev bootEnv (fun _ op _ => op.Typed ∧ (Profile.dev = .release → op.NoWrap)) k₀ k₁ ∧ k₁.Active 0 ∧
    Handling .dev bootEnv 0 k₁ (some (.brk 0 0x5000, true)) k ∧ k.LiveFrame 0 (k₁.procs 0).trapframe := by
  obtain ⟨k₀, k₁, h₀, hrun, hend⟩ := exists_run .dev (fun _ op _ => op.Typed ∧ (Profile.dev = .release → op.NoWrap))
    (fun _ op _ => !op.isExec) [.create []]
    (fun k => (decide (k.Active 0), ((Op.brk 0 0x5000).perform .dev bootEnv k).map Prod.fst)) (true, .ok true)
    (fun k op _ b ht => ⟨Op.typed_of_not_exec (by simpa using ht), nofun⟩) (by decide +kernel)
  simp only [Prod.mk.injEq, decide_eq_true_eq] at hend
  cases he : (Op.brk 0 0x5000).perform .dev bootEnv k₁ with
  | error e =>
    rw [he] at hend
    cases hend.2
  | ok r =>
    obtain ⟨b, k⟩ := r
    rw [he] at hend
    cases hend.2
    have hcall : Handling .dev bootEnv 0 k₁ (some (.brk 0 0x5000, true)) k :=
      .call .trap rfl nofun hend.1 trivial nofun he
    exact ⟨k₀, k₁, k, h₀, hrun, hend.1, hcall, (trapframe_live_iff h₀ hrun hend.1 hcall).mpr nofun⟩

/-- The first process executes a program. The registers go to a frame on the free list. -/
theorem exec_frame_freed : ∃ k₀ k₁ k file, Booted bootEnv (fun _ => False) k₀ ∧
    Reaches .dev bootEnv (fun _ op _ => op.Typed ∧ (Profile.dev = .release → op.NoWrap)) k₀ k₁ ∧ k₁.Active 0 ∧
    Handling .dev bootEnv 0 k₁ (some (.exec 0 (some file) [], true)) k ∧
    (k.procs 0).trapframeFrame ≠ some (k₁.procs 0).trapframe ∧ k.ph.OnFree true (k₁.procs 0).trapframe := by
  obtain ⟨k₀, k₁, h₀, hrun, hend⟩ := exists_run .dev (fun _ op _ => op.Typed ∧ (Profile.dev = .release → op.NoWrap))
    (fun _ op _ => !op.isExec) [.create []]
    (fun k => (decide (k.Active 0), ((Op.exec 0 (some (readBytes (zeroElf 0x1000 4096))) []).perform .dev bootEnv k).map fun r =>
      r.1 && decide ((r.2.procs 0).trapframeFrame ≠ some (k.procs 0).trapframe) &&
        decide ((r.2.ph.region true).head = some (k.procs 0).trapframe) &&
        (Lib.lastFrom (freeNext r.2.ph.mem) 64 (r.2.ph.region true).head).isSome))
    (true, .ok true)
    (fun k op _ b ht => ⟨Op.typed_of_not_exec (by simpa using ht), nofun⟩) (by decide +kernel)
  simp only [Prod.mk.injEq, decide_eq_true_eq] at hend
  obtain ⟨hactive, hend⟩ := hend
  cases he : (Op.exec 0 (some (readBytes (zeroElf 0x1000 4096))) []).perform .dev bootEnv k₁ with
  | error e =>
    rw [he] at hend
    cases hend
  | ok r =>
    obtain ⟨b, k⟩ := r
    rw [he] at hend
    simp only [Except.map, Except.ok.injEq, Bool.and_eq_true, decide_eq_true_eq] at hend
    obtain ⟨⟨⟨rfl, hne⟩, hhead⟩, hlast⟩ := hend
    have htyped : (Op.exec 0 (some (readBytes (zeroElf 0x1000 4096))) []).Typed := by
      intro f hf
      cases hf
      exact bytes_zeroElf _ _
    refine ⟨k₀, k₁, k, _, h₀, hrun, hactive, .call .trap rfl nofun hactive htyped nofun he, hne, ?_⟩
    obtain ⟨o, ho⟩ := Option.isSome_iff_exists.mp hlast
    obtain ⟨l, hl⟩ := Chain.of_lastFrom ho
    refine ⟨l, hl, ?_⟩
    rw [hhead] at hl
    cases l with
    | nil => cases hl
    | cons x l =>
      cases hl.1
      exact List.mem_cons_self ..

end Glenda.Proc
