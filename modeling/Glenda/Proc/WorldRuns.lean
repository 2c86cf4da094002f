import Glenda.Proc.WorldImages

/-!
# Runs of the kernel keep the holders apart

Every series of operations keeps `World`, if no call of `mmap` asks for a region that ends beyond the 64 bits of an
address, which only a build without overflow checks accepts. Pages are lost by operations that report a failure only.
-/

namespace Glenda.Proc
open Glenda.Lib Glenda.Mem Glenda.Mem.KernelVm

/-- A program consists of bytes. -/
def Op.Typed : Op → Prop
  | .exec _ file _ => ∀ f, file = some f → Bytes f
  | _ => True

/-- The end of the region that `mmap` is asked for is an address. -/
def Op.NoWrap : Op → Prop
  | .mmap _ begin len => begin + Uvm.pageSize len < 2 ^ 64
  | _ => True

instance (op : Op) : Decidable op.NoWrap :=
  match op with
  | .mmap _ begin len => inferInstanceAs (Decidable (begin + Uvm.pageSize len < 2 ^ 64))
  | .create _ | .fork _ | .exec _ _ _ | .brk _ _ | .munmap _ _ _ | .stack _ _ | .exit _ _ | .switch _ | .wait _ => .isTrue trivial

def Op.isExec : Op → Bool
  | .exec _ _ _ => true
  | _ => false

lemma Op.typed_of_not_exec {op : Op} (h : op.isExec = false) : op.Typed := by
  cases op with
  | exec i file argv => cases h
  | _ => trivial

/-- The memory of the machine is shared as it should be. The holders have the assets `A`. -/
def Shared (E : Env) (ph₀ : Phys) (ring : Nat → Prop) (k : Kernel) (A : Holder → Asset) : Prop :=
  ∃ used ids free, World E ph₀ ring k A used ∧ RegionsHeld k ids free

variable {P : Profile} {E : Env} {ph₀ : Phys} {ring : Nat → Prop} {k₀ k k' : Kernel} {A A₀ : Holder → Asset} {op : Op} {b : Bool}
  {allowed : Kernel → Op → Bool → Prop}

lemma Shared.step (h : Shared E ph₀ ring k A) (hr : op.Ready k) (ht : op.Typed) (hw : P = .release → op.NoWrap)
    (he : op.perform P E k = .ok (b, k')) : ∃ A', Shared E ph₀ ring k' A' ∧ (b = true → A' .lost = A .lost) := by
  obtain ⟨used, ids, free, h, hl⟩ := h
  cases op with
  | create payload =>
    obtain ⟨i, k1, hop, he⟩ := K.bind_ok he
    cases he
    obtain ⟨A', used', h', hlost⟩ := h.create hop
    exact ⟨A', ⟨used', ids, free, h', hl.same (SameLists.create payload _ _ _ hop)⟩, fun _ => hlost⟩
  | fork i =>
    obtain ⟨c, k1, hop, he⟩ := K.bind_ok he
    cases he
    obtain ⟨A', used', h', hlost, -⟩ := h.fork hr.2.1 hop
    exact ⟨A', ⟨used', ids, free, h', hl.same (SameLists.fork i _ _ _ hop)⟩, fun _ => hlost⟩
  | exec i file argv =>
    obtain ⟨r, k1, hop, he⟩ := K.bind_ok he
    cases he
    obtain ⟨A', used', h', hlost⟩ := h.exec hr.2.1 ht hop
    refine ⟨A', ⟨used', ids, free, h', hl.same (SameLists.frame.procExec i file argv _ _ _ hop)⟩, fun hok => ?_⟩
    cases r with
    | error e => cases hok
    | ok u => exact (hlost rfl).1
  | brk i newTop =>
    obtain ⟨r, k1, hop, he⟩ := K.bind_ok he
    cases he
    obtain ⟨A', used', h', hloc⟩ := h.sysBrk hr.2.1 hop
    exact ⟨A', ⟨used', ids, free, h', hl.same (SameLists.frame.sysBrk i newTop _ _ _ hop)⟩, fun hok => hloc.lost (by simpa using hok)⟩
  | mmap i begin len =>
    obtain ⟨r, k1, hop, he⟩ := K.bind_ok he
    cases he
    obtain ⟨A', used', ids', free', h', hl', hloc⟩ := h.sysMmap hl hr.2.1 hw hop
    refine ⟨A', ⟨used', ids', free', h', hl'⟩, fun hok => hloc.lost ?_⟩
    cases r with
    | error e => cases hok
    | ok lo => exact ⟨lo, rfl⟩
  | munmap i begin len =>
    obtain ⟨r, k1, hop, he⟩ := K.bind_ok he
    cases he
    obtain ⟨A', used', ids', free', h', hl', hloc⟩ := h.sysMunmap hl hr.2.1 hop
    exact ⟨A', ⟨used', ids', free', h', hl'⟩, fun _ => hloc.lost trivial⟩
  | stack i faultVa =>
    obtain ⟨r, k1, hop, he⟩ := K.bind_ok he
    cases he
    obtain ⟨A', used', h', hloc⟩ := h.ustackGrow hr.2.1 hop
    refine ⟨A', ⟨used', ids, free, h', hl.same (SameLists.frame.ustackGrow i faultVa _ _ _ hop)⟩, fun hok => hloc.lost ?_⟩
    cases r with
    | error e => cases hok
    | ok u => rfl
  | exit i code =>
    obtain ⟨r, k1, hop, he⟩ := K.bind_ok he
    cases he
    exact ⟨A, ⟨used, ids, free, h.same (SameMemory.sysExit hr.2.1 hop), hl.same (SameLists.sysExit i code _ _ _ hop)⟩, fun _ => rfl⟩
  | switch i =>
    obtain ⟨r, k1, hop, he⟩ := K.bind_ok he
    cases he
    exact ⟨A, ⟨used, ids, free, h.same (SameMemory.afterSwitch hop), hl.same (SameLists.afterSwitch i _ _ _ hop)⟩, fun _ => rfl⟩
  | wait i =>
    obtain ⟨r, k1, hop, he⟩ := K.bind_ok he
    cases he
    obtain ⟨A', used', ids', free', h', hl', hlost⟩ := h.wait hl hr.2.1 hop
    exact ⟨A', ⟨used', ids', free', h', hl'⟩, fun _ => hlost⟩

/-- Whatever operations a run consists of, the memory stays shared as it should be. -/
lemma Shared.run (h0 : Shared E ph₀ ring k₀ A₀) (h : Reaches P E allowed k₀ k)
    (ha : ∀ k op b, allowed k op b → op.Typed ∧ (P = .release → op.NoWrap)) : ∃ A, Shared E ph₀ ring k A := by
  refine h.invariant (I := fun k => ∃ A, Shared E ph₀ ring k A) ⟨A₀, h0⟩ ?_
  rintro k k' op b ⟨A, hA⟩ hr hop he
  obtain ⟨A', hA', -⟩ := hA.step hr (ha k op b hop).1 (ha k op b hop).2 he
  exact ⟨A', hA'⟩

lemma Shared.run_ok (h0 : Shared E ph₀ ring k₀ A₀) (h : Reaches P E allowed k₀ k)
    (ha : ∀ k op b, allowed k op b → b = true ∧ op.Typed ∧ (P = .release → op.NoWrap)) :
    ∃ A, Shared E ph₀ ring k A ∧ A .lost = A₀ .lost := by
  refine h.invariant (I := fun k => ∃ A, Shared E ph₀ ring k A ∧ A .lost = A₀ .lost) ⟨A₀, h0, rfl⟩ ?_
  rintro k k' op b ⟨A, hA, hlost⟩ hr hop he
  obtain ⟨hb, ht, hw⟩ := ha k op b hop
  obtain ⟨A', hA', hlost'⟩ := hA.step hr ht hw he
  exact ⟨A', hA', (hlost' hb).trans hlost⟩

end Glenda.Proc
