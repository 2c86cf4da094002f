import Glenda.Mem.KernelSpace
import Glenda.Mem.PageTableDestroy
import Glenda.Mem.UserSpace

/-!
# Who holds what

Each holder has at most one thing: a frame, a page table with the pages that its leaves own, or pages that are of
no further use. An `Estate` says that the holders share the pages in use and that the tables are well formed.
The steps below change the thing of one holder, and leave the tables of all others as they are.
-/

namespace Glenda.Mem
open Glenda.Lib
open Function (update update_eq_self update_idem update_of_ne update_self)

inductive Asset
  | none
  | frame (n : Nat)
  | table (root : Nat) (node : List Nat → Option Nat) (m : PageMap) (own : Nat → Entry → Prop)
  | pages (S : Nat → Prop)

def Asset.foot : Asset → Nat → Prop
  | none => fun _ => False
  | frame n => (· = n)
  | table _ node m own => Space.foot node m own
  | pages S => S

lemma Asset.foot_pages (S : Nat → Prop) : (Asset.pages S).foot = S := rfl

/-- The table is well formed, if it is one. -/
def Asset.Valid (ph : Phys) (used : Nat → Prop) : Asset → Prop
  | table root node m own => Space ph root node m own used
  | _ => True

structure Estate {ι : Type} (ph : Phys) (A : ι → Asset) (used : Nat → Prop) : Prop where
  holding : Holding ph (fun i => (A i).foot) used
  valid : ∀ i, (A i).Valid ph used

lemma Asset.Valid.frame {ph ph' : Phys} {a : Asset} {used used' F F' : Nat → Prop} (h : a.Valid ph used)
    (he : Effect ph ph' F F' used used') (hd : ∀ n, a.foot n → ¬F n) (hp : ∃ free, PmemInv ph' free used') :
    a.Valid ph' used' := by
  cases a with
  | table root node m own => exact Space.frame h he hd hp
  | none => trivial
  | frame n => trivial
  | pages S => trivial

/-- The leaves of the table of a process: those of the kernel, which `fixed` lists, and those that own their pages. -/
structure UserMap (ph₀ : Phys) (fixed m : PageMap) : Prop where
  kernel : ∀ q e, fixed q = some e → m q = some e ∧ ¬e.User ∧ ¬ph₀.InRegion false e.ppn
  user : ∀ q e, m q = some e → fixed q = none → userOwn ph₀ q e
  low : ∀ q e, m q = some e → q < 2 ^ 26

/-- The leaves of the table of the kernel: the trampoline, and the pages `mapped` in the area of the kernel stacks. -/
structure KernelMap (ph₀ : Phys) (m : PageMap) (mapped : Nat → Prop) : Prop where
  tramp : ∃ e, m KernelVm.trampPage = some e ∧ ∀ k, ¬ph₀.InRegion k e.ppn
  stack : ∀ q, KernelVm.stackArea q → (m q ≠ none ↔ mapped q)

lemma KernelMap.congr {ph₀ : Phys} {m : PageMap} {mapped mapped' : Nat → Prop} (h : KernelMap ph₀ m mapped)
    (hm : ∀ q, mapped' q ↔ mapped q) : KernelMap ph₀ m mapped' :=
  ⟨h.tramp, fun q hq => (h.stack q hq).trans (hm q).symm⟩

lemma Holding.transfer {ι : Type} [DecidableEq ι] {ph : Phys} {foot : ι → Nat → Prop} {used G : Nat → Prop} {i j : ι}
    (h : Holding ph foot used) (hne : i ≠ j) (hG : ∀ n, G n → foot i n) :
    Holding ph (update (update foot i fun n => foot i n ∧ ¬G n) j fun n => foot j n ∨ G n) used := by
  have hnew : ∀ l n, update (update foot i fun n => foot i n ∧ ¬G n) j (fun n => foot j n ∨ G n) l n ↔
      if l = j then foot j n ∨ G n else foot l n ∧ (l = i → ¬G n) := by
    intro l n
    by_cases hlj : l = j
    · subst hlj
      simp
    · by_cases hli : l = i
      · subst hli
        simp [hlj]
      · simp [hlj, hli]
  refine ⟨h.pmem, fun n => ?_, fun a b n ha hb => ?_, h.accounted⟩
  · rw [h.used_iff n]
    constructor
    · rintro ⟨l, hl⟩
      by_cases hn : G n
      · exact ⟨j, (hnew j n).mpr (by simp [hn])⟩
      · by_cases hlj : l = j
        · subst hlj
          exact ⟨l, (hnew l n).mpr (by simp [hl])⟩
        · exact ⟨l, (hnew l n).mpr (by simp [hlj, hl, hn])⟩
    · rintro ⟨l, hl⟩
      rw [hnew] at hl
      split_ifs at hl with hlj
      · rcases hl with hl | hl
        · exact ⟨j, hl⟩
        · exact ⟨i, hG n hl⟩
      · exact ⟨l, hl.1⟩
  · rw [hnew] at ha hb
    have hback : ∀ l, (if l = j then foot j n ∨ G n else foot l n ∧ (l = i → ¬G n)) → foot l n ∧ ¬G n ∨ l = j ∧ G n := by
      intro l hl
      split_ifs at hl with hlj
      · by_cases hn : G n
        · exact .inr ⟨hlj, hn⟩
        · subst hlj
          exact .inl ⟨hl.resolve_right hn, hn⟩
      · refine .inl ⟨hl.1, fun hn => ?_⟩
        exact hl.2 (h.apart l i n hl.1 (hG n hn)) hn
    rcases hback a ha with ⟨ha, hn⟩ | ⟨rfl, hn⟩
    · rcases hback b hb with ⟨hb, -⟩ | ⟨-, hn'⟩
      · exact h.apart a b n ha hb
      · exact absurd hn' hn
    · rcases hback b hb with ⟨-, hn'⟩ | ⟨rfl, -⟩
      · exact absurd hn hn'
      · rfl

namespace Estate

variable {ι : Type} [DecidableEq ι] {ph ph' ph₀ : Phys} {A : ι → Asset} {used used' : Nat → Prop} {i j : ι} {a : Asset}
  {k : Bool} {n root pa : Nat} {u : Unit} {node : List Nat → Option Nat} {m : PageMap} {own : Nat → Entry → Prop}

lemma foot_update (A : ι → Asset) (i : ι) (a : Asset) :
    (fun j => (update A i a j).foot) = update (fun j => (A j).foot) i a.foot := by
  funext j
  by_cases hj : j = i
  · subst hj
    simp
  · simp [hj]

omit [DecidableEq ι] in
lemma pmem (h : Estate ph A used) : ∃ free, PmemInv ph free used := h.holding.pmem

omit [DecidableEq ι] in
lemma space (h : Estate ph A used) (hi : A i = .table root node m own) : Space ph root node m own used := by
  have hv := h.valid i
  rwa [hi] at hv

omit [DecidableEq ι] in
lemma region_apart (h : Estate ph A used) (hn : ph.InRegion true n) : ¬ph.InRegion false n := by
  obtain ⟨free, hp⟩ := h.pmem
  have hsplit := hp.split
  unfold Phys.InRegion at hn ⊢
  omega

lemma step (h : Estate ph A used) (he : Effect ph ph' (A i).foot a.foot used used')
    (hp : ∃ free, PmemInv ph' free used') (ha : a.Valid ph' used') : Estate ph' (update A i a) used' := by
  constructor
  · rw [foot_update]
    exact h.holding.step he hp
  · intro j
    by_cases hj : j = i
    · subst hj
      rwa [update_self]
    · rw [update_of_ne hj]
      refine (h.valid j).frame he (fun n hn hn' => hj ?_) hp
      exact h.holding.apart j i n hn hn'

omit [DecidableEq ι] in
lemma kept {F' : Nat → Prop} (h : Estate ph A used) (he : Effect ph ph' (A i).foot F' used used') (j : ι) (x : Nat) (hj : j ≠ i)
    (hx : (A j).foot x) : ph'.mem x = ph.mem x :=
  he.mem x ((h.holding.used_iff x).mpr ⟨j, hx⟩) fun hi => hj (h.holding.apart j i x hx hi)

section

variable (h : Estate ph A used)
include h

lemma allocFrame (hi : A i = .none) (he : Pmem.alloc k ph = .ok (pa, ph')) :
    ∃ n used', pa = n * PGSIZE ∧ 0 < n ∧ n < 2 ^ 43 ∧ ph.InRegion k n ∧ Estate ph' (update A i (.frame n)) used' ∧
      ph.SameBounds ph' ∧ ∀ j x, j ≠ i → (A j).foot x → ph'.mem x = ph.mem x := by
  obtain ⟨free, hp⟩ := h.pmem
  obtain ⟨n, rfl, hn, hp'⟩ := Pmem.alloc_fresh hp he
  have heff : Effect ph ph' (A i).foot (Asset.frame n).foot used (fun x => used x ∨ x = n) := by
    rw [hi]
    exact Effect.alloc hn
  exact ⟨n, _, rfl, hn.pos, hn.lt, hn.region, h.step heff hp' trivial, heff.region, h.kept heff⟩

lemma allocTable (own : Nat → Entry → Prop) (hi : A i = .none) {ph1 : Phys}
    (he : Pmem.alloc k ph = .ok (pa, ph1)) :
    ∃ n used', pa = n * PGSIZE ∧ 0 < n ∧ n < 2 ^ 43 ∧ ph.InRegion k n ∧
      Estate (ph1.zeroPage n) (update A i (.table n (Space.rootNode n) (fun _ => none) own)) used' ∧
      ph.SameBounds (ph1.zeroPage n) ∧ ∀ j x, j ≠ i → (A j).foot x → (ph1.zeroPage n).mem x = ph.mem x := by
  obtain ⟨free, hp⟩ := h.pmem
  obtain ⟨n, used', rfl, hin, hlt, hpos, hspace, hroot⟩ := Space.allocRoot own hp he
  have heff : Effect ph (ph1.zeroPage n) (A i).foot (Asset.table n (Space.rootNode n) (fun _ => none) own).foot used used' := by
    rw [hi]
    exact hroot
  exact ⟨n, used', rfl, hpos, hlt, hin, h.step heff hspace.pmem hspace, heff.region, h.kept heff⟩

lemma writeFrame (hi : A i = .frame n) (hm : ∀ x, x ≠ n → ph'.mem x = ph.mem x)
    (hr : ph'.region = ph.region) (hc : ph'.pageRef = ph.pageRef) : Estate ph' A used := by
  obtain ⟨free, hp⟩ := h.pmem
  have hn : used n := (h.holding.used_iff n).mpr ⟨i, by rw [hi]; exact rfl⟩
  obtain ⟨heff, hp'⟩ := Effect.write hp (F := (· = n)) (fun x hx => hx ▸ hn) hm hr hc
  have hstep := h.step (i := i) (a := .frame n) (by rw [hi]; exact heff) ⟨free, hp'⟩ trivial
  rwa [← hi, update_eq_self] at hstep

lemma freeFrame (hi : A i = .frame n) (he : Pmem.free (n * PGSIZE) ph = .ok (u, ph')) :
    ∃ used', Estate ph' (update A i .none) used' ∧ ph.SameBounds ph' ∧
      ∀ j x, j ≠ i → (A j).foot x → ph'.mem x = ph.mem x := by
  obtain ⟨free, hp⟩ := h.pmem
  obtain ⟨used', free', hfree, hp'⟩ := Pmem.free_effect hp he
  have heff : Effect ph ph' (A i).foot Asset.none.foot used used' := by
    rw [hi]
    exact hfree
  exact ⟨used', h.step heff ⟨free', hp'⟩ trivial, heff.region, h.kept heff⟩

lemma destroy (hi : A i = .table root node m own)
    (hown : ∀ q e, m q = some e → (own q e ↔ ph.InRegion false e.ppn)) (he : PageTable.destroy root ph = .ok (u, ph')) :
    ∃ used', Estate ph' (update A i (.frame root)) used' ∧ ph.SameBounds ph' ∧
      ∀ j x, j ≠ i → (A j).foot x → ph'.mem x = ph.mem x := by
  obtain ⟨used', free, hp, hdestroy⟩ := PageTable.destroy_ok (h.space hi) hown he
  have heff : Effect ph ph' (A i).foot (Asset.frame root).foot used used' := by
    rw [hi]
    exact hdestroy
  exact ⟨used', h.step heff ⟨free, hp⟩ trivial, heff.region, h.kept heff⟩

lemma move (hj : A j = .none) (hne : i ≠ j) :
    Estate ph (update (update A j (A i)) i .none) used := by
  have hswap : update (update A j (A i)) i .none = A ∘ Equiv.swap i j := by
    funext l
    by_cases hli : l = i
    · subst hli
      simp [hj]
    · by_cases hlj : l = j
      · subst hlj
        simp [hli]
      · simp [hli, hlj, Equiv.swap_apply_of_ne_of_ne hli hlj]
  rw [hswap]
  exact ⟨h.holding.swap i j, fun l => h.valid _⟩

lemma lose {S L : Nat → Prop} (hj : A j = .pages S) (hne : i ≠ j)
    (he : Effect ph ph' (A i).foot (fun n => a.foot n ∨ L n) used used') (hp : ∃ free, PmemInv ph' free used')
    (ha : a.Valid ph' used') :
    Estate ph' (update (update A i a) j (.pages fun n => S n ∨ L n ∧ ¬a.foot n)) used' := by
  have hstep := h.step (i := i) (a := .pages fun n => a.foot n ∨ L n) he hp trivial
  have hmove := hstep.holding.transfer (G := fun n => L n ∧ ¬a.foot n) hne fun n hn => by
    rw [update_self]
    exact .inr hn.1
  constructor
  · rw [foot_update, foot_update]
    rw [foot_update] at hmove
    have hkeep : (fun n => (a.foot n ∨ L n) ∧ ¬(L n ∧ ¬a.foot n)) = a.foot := by
      funext n
      refine propext ⟨fun hn => ?_, fun hn => ⟨.inl hn, fun hc => hc.2 hn⟩⟩
      by_contra hcon
      exact hn.2 ⟨hn.1.resolve_left hcon, hcon⟩
    simp only [update_self, update_of_ne hne.symm, hj, Asset.foot_pages, update_idem, hkeep] at hmove
    exact hmove
  · intro l
    by_cases hlj : l = j
    · subst hlj
      rw [update_self]
      trivial
    · rw [update_of_ne hlj]
      by_cases hli : l = i
      · subst hli
        rwa [update_self]
      · have hv := hstep.valid l
        rw [update_of_ne hli] at hv
        rwa [update_of_ne hli]

lemma abandon {S : Nat → Prop} (hi : A i = .table root node m own) (hj : A j = .pages S) (hne : i ≠ j)
    (he : Pmem.free (root * PGSIZE) ph = .ok (u, ph')) :
    ∃ S' used', Estate ph' (update (update A i .none) j (.pages S')) used' ∧ ph.SameBounds ph' := by
  obtain ⟨free, hp⟩ := h.pmem
  obtain ⟨used', free', heff, hp'⟩ := Pmem.free_effect hp he
  have hs := h.space hi
  have hroot : Space.foot node m own root := .inl ⟨[], hs.tree.root⟩
  have hrest := heff.union (L := fun n => Space.foot node m own n ∧ n ≠ root) fun n hn => ⟨hs.foot_used n hn.1, hn.2⟩
  have hlose := h.lose (a := .none) (L := fun n => Space.foot node m own n ∧ n ≠ root) hj hne ?_ ⟨free', hp'⟩ trivial
  · exact ⟨_, used', hlose, heff.region⟩
  · refine hrest.congr (fun n => ?_) fun n => Iff.rfl
    rw [hi]
    constructor
    · rintro (rfl | hn)
      · exact hroot
      · exact hn.1
    · intro hn
      by_cases hr : n = root
      · exact .inl hr
      · exact .inr ⟨hn, hr⟩

lemma reown {own' : Nat → Entry → Prop} (hi : A i = .table root node m own)
    (ho : ∀ q e, m q = some e → (own' q e ↔ own q e)) : Estate ph (update A i (.table root node m own')) used := by
  refine h.step (a := .table root node m own') ?_ h.pmem ((h.space hi).congr_own ho)
  rw [hi]
  exact (Effect.refl (h.space hi).foot_used).congr (fun _ => Iff.rfl) fun n => (Space.foot_congr ho n).symm

end

/-! ### The table of a process -/

variable {P : Profile} {fixed : PageMap} {T : Nat → Prop} {ok : Prop}

omit [DecidableEq ι] in
lemma userTable (h : Estate ph A used) (hi : A i = .table root node m (userOwn ph₀)) (hm : UserMap ph₀ fixed m)
    (hb : ph₀.SameBounds ph) : UserTable ph₀ ph fixed root node m used :=
  ⟨hb, h.space hi, hm.kernel, hm.user, hm.low⟩

section

variable (h : Estate ph A used) (hi : A i = .table root node m (userOwn ph₀))
include h hi

lemma evolve {S : Nat → Prop}
    (hev : Evolved ph₀ ph ph' fixed root T ok node m used) (hj : A j = .pages S) (hne : i ≠ j) :
    ∃ node' m' used' S', Estate ph'
        (update (update A i (.table root node' m' (userOwn ph₀))) j (.pages S')) used' ∧
      UserMap ph₀ fixed m' ∧ (∀ q, ¬T q → m' q = m q) ∧ (ok → S' = S) ∧ ph₀.SameBounds ph' ∧
      ∀ n, used n → ¬(A i).foot n → ph'.mem n = ph.mem n := by
  obtain ⟨node', m', used', L, h', hm', hL, heff⟩ := hev
  have hlose := h.lose (a := .table root node' m' (userOwn ph₀)) (L := L) hj hne (by rw [hi]; exact heff) h'.space.pmem h'.space
  refine ⟨node', m', used', _, hlose, ⟨h'.kernel, h'.user, h'.low⟩, hm', fun ho => ?_, h'.bounds, fun n hn hF => ?_⟩
  · funext n
    exact propext ⟨fun hn => hn.resolve_right fun hl => hL ho n hl.1, .inl⟩
  · rw [hi] at hF
    exact heff.mem n hn hF

lemma evolves (hm : UserMap ph₀ fixed m)
    (hb : ph₀.SameBounds ph) (hev : Evolves ph₀ fixed root T True ph ph') :
    ∃ node' m' used', Estate ph' (update A i (.table root node' m' (userOwn ph₀))) used' ∧
      UserMap ph₀ fixed m' ∧ (∀ q, ¬T q → m' q = m q) ∧ ph₀.SameBounds ph' := by
  obtain ⟨node', m', used', L, h', hm', hL, heff⟩ := hev node m used (h.userTable hi hm hb)
  refine ⟨node', m', used', h.step (a := .table root node' m' (userOwn ph₀)) ?_ h'.space.pmem h'.space,
    ⟨h'.kernel, h'.user, h'.low⟩, hm', h'.bounds⟩
  rw [hi]
  exact heff.congr (fun _ => Iff.rfl) fun n => or_iff_left (hL trivial n)

lemma mapFixed {q flags : Nat}
    (hm : UserMap ph₀ fixed m) (hb : ph₀.SameBounds ph) (hf : isLeaf flags = true) (hu : flags.testBit 4 = false)
    (hq : q < 2 ^ 26) (hn : n < 2 ^ 43) (hreg : ¬ph₀.InRegion false n) (hnone : m q = none)
    (he : KernelVm.mappages P root (q * PGSIZE) (n * PGSIZE) PGSIZE flags ph = .ok (u, ph')) :
    ∃ node' used', Estate ph' (update A i (.table root node'
        (update m q (some (.new n (flags ||| PTE_V)))) (userOwn ph₀))) used' ∧
      UserMap ph₀ (update fixed q (some (.new n (flags ||| PTE_V))))
        (update m q (some (.new n (flags ||| PTE_V)))) ∧ ph₀.SameBounds ph' ∧
      ∀ j x, j ≠ i → (A j).foot x → ph'.mem x = ph.mem x := by
  obtain ⟨node', used', h', hmap⟩ := (h.userTable hi hm hb).mapFixed hf hu hq hn hreg hnone he
  have heff : Effect ph ph' (A i).foot (Asset.table root node' (update m q (some (.new n (flags ||| PTE_V))))
      (userOwn ph₀)).foot used used' := by
    rw [hi]
    exact hmap
  exact ⟨node', used', h.step heff h'.space.pmem h'.space, ⟨h'.kernel, h'.user, h'.low⟩, h'.bounds, h.kept heff⟩

lemma destroyUser (hm : UserMap ph₀ fixed m)
    (hb : ph₀.SameBounds ph) (he : PageTable.destroy root ph = .ok (u, ph')) :
    ∃ used', Estate ph' (update A i (.frame root)) used' ∧ ph.SameBounds ph' ∧
      ∀ j x, j ≠ i → (A j).foot x → ph'.mem x = ph.mem x := by
  refine h.destroy hi (fun q e hq => ?_) he
  rw [hb.inRegion]
  cases hf : fixed q with
  | none => exact iff_of_true (hm.user q e hq hf) (hm.user q e hq hf).2
  | some e' =>
    obtain ⟨hq', hnot, hreg⟩ := hm.kernel q e' hf
    rw [hq] at hq'
    cases hq'
    exact iff_of_false (fun ho => hnot ho.1) hreg

end

/-! ### The table of the kernel -/

open KernelVm

variable {kpt pid top : Nat} {mapped : Nat → Prop}

omit [DecidableEq ι] in
lemma kernelTable (h : Estate ph A used) (hi : A i = .table kpt node m kernelOwn) (hm : KernelMap ph₀ m mapped)
    (hb : ph₀.SameBounds ph) : KernelTable ph kpt node m used := by
  obtain ⟨e, he, hk⟩ := hm.tramp
  exact ⟨h.space hi, e, he, fun k => by rw [hb.inRegion]; exact hk k⟩

section

variable (h : Estate ph A used) (hi : A i = .table kpt node m kernelOwn) (hm : KernelMap ph₀ m mapped) (hb : ph₀.SameBounds ph)
include h hi hm hb

lemma allocKstack (hpid : pid < 2 ^ 40) (he : allocKstack P kpt pid ph = .ok (top, ph')) :
    pid + 1 < 2 ^ 14 ∧ ∃ node' m' used', Estate ph' (update A i (.table kpt node' m' kernelOwn)) used' ∧
      KernelMap ph₀ m' (fun q => mapped q ∨ stackOf pid q) ∧ ph₀.SameBounds ph' := by
  obtain ⟨hlt, -, node', m', used', h', hg⟩ := allocKstack_ok (h.kernelTable hi hm hb) hpid he
  refine ⟨hlt, node', m', used', h.step (a := .table kpt node' m' kernelOwn) ?_ h'.space.pmem h'.space, ⟨?_, fun q hq => ?_⟩,
    hb.trans hg.takes.region⟩
  · rw [hi]
    exact h'.space.grown hg
  · obtain ⟨e, he, hk⟩ := hm.tramp
    refine ⟨e, ?_, hk⟩
    rw [hg.old trampPage fun hc => ?_, he]
    exact absurd (stackOf_area hlt hc).2 (lt_irrefl _)
  · by_cases hpq : stackOf pid q
    · obtain ⟨-, e, he, -⟩ := hg.new q hpq
      simp [he, hpq]
    · rw [hg.old q hpq, hm.stack q hq]
      simp [hpq]

lemma freeKstack (hpid : pid + 1 < 2 ^ 14) (he : freeKstack P kpt pid ph = .ok (u, ph')) :
    ∃ m' used', Estate ph' (update A i (.table kpt node m' kernelOwn)) used' ∧
      KernelMap ph₀ m' (fun q => mapped q ∧ ¬stackOf pid q) ∧ ph₀.SameBounds ph' := by
  obtain ⟨m', used', h', hs⟩ := freeKstack_ok (h.kernelTable hi hm hb) hpid he
  refine ⟨m', used', h.step (a := .table kpt node m' kernelOwn) ?_ h'.space.pmem h'.space, ⟨?_, fun q hq => ?_⟩,
    hb.trans hs.gives.region⟩
  · rw [hi]
    exact h'.space.shrunk hs
  · obtain ⟨e, he, hk⟩ := hm.tramp
    refine ⟨e, ?_, hk⟩
    rw [hs.old trampPage fun hc => ?_, he]
    exact absurd (stackOf_area hpid hc).2 (lt_irrefl _)
  · by_cases hpq : stackOf pid q
    · simp [(hs.gone q hpq).1, hpq]
    · rw [hs.old q hpq, hm.stack q hq]
      simp [hpq]

end

end Estate

end Glenda.Mem
