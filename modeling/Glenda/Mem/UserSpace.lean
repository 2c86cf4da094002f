import Glenda.Mem.MmapSpec
import Glenda.Mem.KernelStack
import Glenda.Mem.PageTableClone
import Glenda.Mem.Uvm

/-!
# The page table of a process

A process has a few leaves of the kernel, the trampoline and its trap frame, which `fixed` lists, and owns
the page of every other leaf. `Evolves` says that code keeps this, changes no leaves but those at the page
numbers `T`, and loses a page only when it fails. Memory is changed in the pages of the table and the pages that it
owns.
-/

namespace Glenda.Mem
open Glenda.Lib
open Function (update update_of_ne update_self)

variable {q n flags pa p low high oldTop newTop fuel : Nat} {e : Entry} {r : Except UvmError Unit} {src : List Nat}

/-- The leaves of a process that own their pages. The bounds of the regions are those of `ph₀`. -/
def userOwn (ph₀ : Phys) (_ : Nat) (e : Entry) : Prop := e.User ∧ ph₀.InRegion false e.ppn

def userFoot (ph₀ : Phys) (node : List Nat → Option Nat) (m : PageMap) : Nat → Prop := Space.foot node m (userOwn ph₀)

structure UserTable (ph₀ ph : Phys) (fixed : PageMap) (table : Nat) (node : List Nat → Option Nat) (m : PageMap)
    (used : Nat → Prop) : Prop where
  bounds : ph₀.SameBounds ph
  space : Space ph table node m (userOwn ph₀) used
  kernel : ∀ q e, fixed q = some e → m q = some e ∧ ¬e.User ∧ ¬ph₀.InRegion false e.ppn
  user : ∀ q e, m q = some e → fixed q = none → userOwn ph₀ q e
  low : ∀ q e, m q = some e → q < 2 ^ 26

/-- What a table that was `node` and `m` can be after a step. The pages `L` are lost. -/
def Evolved (ph₀ ph ph' : Phys) (fixed : PageMap) (table : Nat) (T : Nat → Prop) (ok : Prop)
    (node : List Nat → Option Nat) (m : PageMap) (used : Nat → Prop) : Prop :=
  ∃ node' m' used', ∃ L : Nat → Prop, UserTable ph₀ ph' fixed table node' m' used' ∧ (∀ q, ¬T q → m' q = m q) ∧ (ok → ∀ n, ¬L n) ∧
    Effect ph ph' (userFoot ph₀ node m) (fun n => userFoot ph₀ node' m' n ∨ L n) used used'

def Evolves (ph₀ : Phys) (fixed : PageMap) (table : Nat) (T : Nat → Prop) (ok : Prop) (ph ph' : Phys) : Prop :=
  ∀ node m used, UserTable ph₀ ph fixed table node m used → Evolved ph₀ ph ph' fixed table T ok node m used

variable {P : Profile} {ph₀ ph ph' ph'' : Phys} {fixed : PageMap} {table : Nat} {node node' : List Nat → Option Nat}
  {m m' : PageMap} {used used' S T : Nat → Prop} {ok ok' : Prop}

namespace UserTable

section

variable (h : UserTable ph₀ ph fixed table node m used)
include h

lemma owned (hm : m q = some e) (hu : e.User) :
    userOwn ph₀ q e := by
  cases hf : fixed q with
  | none => exact h.user q e hm hf
  | some e' =>
    obtain ⟨hm', hu', -⟩ := h.kernel q e' hf
    rw [hm] at hm'
    cases hm'
    exact absurd hu hu'

lemma used_or (hm : m q = some e) :
    used e.ppn ∨ ¬ph.InRegion false e.ppn := by
  cases hf : fixed q with
  | none => exact .inl (h.space.leaf q e hm (h.user q e hm hf))
  | some e' =>
    obtain ⟨hm', -, hreg⟩ := h.kernel q e' hf
    rw [hm] at hm'
    cases hm'
    rw [h.bounds.inRegion]
    exact .inr hreg

section

variable (h' : Space ph' table node' m' (userOwn ph₀) used') (hg : Grown ph ph' node node' m m' (userOwn ph₀) used used' S)
  (hS : ∀ q, S q → q < 2 ^ 26)
include h' hg hS

lemma grown :
    UserTable ph₀ ph' fixed table node' m' used' := by
  have hnew : ∀ q e, S q → m' q = some e → userOwn ph₀ q e := by
    intro q e hq hm
    obtain ⟨-, e', hm', ho, -⟩ := hg.new q hq
    rw [hm] at hm'
    cases hm'
    exact ho
  refine ⟨h.bounds.trans hg.takes.region, h', fun q e hf => ?_, fun q e hm hf => ?_, fun q e hm => ?_⟩
  · obtain ⟨hm, hk⟩ := h.kernel q e hf
    refine ⟨?_, hk⟩
    rw [hg.old q fun hq => ?_, hm]
    rw [(hg.new q hq).1] at hm
    cases hm
  · by_cases hq : S q
    · exact hnew q e hq hm
    · rw [hg.old q hq] at hm
      exact h.user q e hm hf
  · by_cases hq : S q
    · exact hS q hq
    · rw [hg.old q hq] at hm
      exact h.low q e hm

lemma evolved_grown (hT : ∀ q, S q → T q) :
    Evolved ph₀ ph ph' fixed table T ok node m used :=
  ⟨node', m', used', fun _ => False, h.grown h' hg hS, fun q hq => hg.old q fun hS' => hq (hT q hS'), fun _ _ h => h,
    (h'.grown hg).congr (fun _ => Iff.rfl) fun n => by rw [or_false]; rfl⟩

end

lemma evolved_shrunk (h' : Space ph' table node m' (userOwn ph₀) used')
    (hg : Shrunk ph ph' node m m' (userOwn ph₀) used used' S) (hT : ∀ q, S q → T q) :
    Evolved ph₀ ph ph' fixed table T ok node m used := by
  have hsub : ∀ q e, m' q = some e → m q = some e := by
    intro q e hm
    by_cases hq : S q
    · rw [(hg.gone q hq).1] at hm
      cases hm
    · rwa [← hg.old q hq]
  refine ⟨node, m', used', fun _ => False, ⟨h.bounds.trans hg.gives.region, h', fun q e hf => ?_,
    fun q e hm => h.user q e (hsub q e hm), fun q e hm => h.low q e (hsub q e hm)⟩,
    fun q hq => hg.old q fun hS' => hq (hT q hS'), fun _ _ h => h,
    (h'.shrunk hg).congr (fun _ => Iff.rfl) fun n => by rw [or_false]; rfl⟩
  obtain ⟨hm, hk⟩ := h.kernel q e hf
  refine ⟨?_, hk⟩
  rw [hg.old q fun hq => ?_, hm]
  obtain ⟨-, e', hm', ho⟩ := hg.gone q hq
  rw [hm] at hm'
  cases hm'
  exact hk.1 ho.1

end

end UserTable

namespace Evolves

lemma refl (ph : Phys) : Evolves ph₀ fixed table T ok ph ph := fun node m used h =>
  ⟨node, m, used, fun _ => False, h, fun _ _ => rfl, fun _ _ h => h,
    (Effect.refl h.space.foot_used).congr (fun _ => Iff.rfl) fun n => by rw [or_false]; rfl⟩

lemma mono {T' : Nat → Prop} (h : Evolves ph₀ fixed table T ok ph ph') (hT : ∀ q, T q → T' q) (hok : ok' → ok) :
    Evolves ph₀ fixed table T' ok' ph ph' := by
  intro node m used hu
  obtain ⟨node', m', used', L, h', hm, hL, heff⟩ := h node m used hu
  exact ⟨node', m', used', L, h', fun q hq => hm q fun hT' => hq (hT q hT'), fun ho => hL (hok ho), heff⟩

lemma trans (h : Evolves ph₀ fixed table T ok ph ph') (h' : Evolves ph₀ fixed table T ok' ph' ph'') :
    Evolves ph₀ fixed table T (ok ∧ ok') ph ph'' := by
  intro node m used hu
  obtain ⟨node1, m1, used1, L1, h1, hm1, hL1, heff1⟩ := h node m used hu
  obtain ⟨node2, m2, used2, L2, h2, hm2, hL2, heff2⟩ := h' node1 m1 used1 h1
  have hlost : ∀ n, L1 n ∧ ¬userFoot ph₀ node1 m1 n → used1 n ∧ ¬userFoot ph₀ node1 m1 n :=
    fun n hn => ⟨(heff1.used_iff n).mpr (.inl (.inr hn.1)), hn.2⟩
  refine ⟨node2, m2, used2, fun n => L2 n ∨ L1 n ∧ ¬userFoot ph₀ node1 m1 n, h2, fun q hq => (hm2 q hq).trans (hm1 q hq),
    fun ho n hn => ?_, ?_⟩
  · rcases hn with hn | hn
    · exact hL2 ho.2 n hn
    · exact hL1 ho.1 n hn.1
  · refine Effect.trans (heff1.congr (fun _ => Iff.rfl) fun n => ?_)
      ((heff2.union hlost).congr (fun _ => Iff.rfl) fun n => or_assoc)
    by_cases hn : userFoot ph₀ node1 m1 n
    · simp [hn]
    · simp [hn]

end Evolves

/-! ### Mapping and unmapping -/

lemma Uvm.Refused.evolved (hu : UserTable ph₀ ph fixed table node m used)
    (h : Uvm.Refused ph ph' table node m (userOwn ph₀) used S) (hS : ∀ q, S q → q < 2 ^ 26) (hT : ∀ q, S q → T q)
    (hok : ¬ok) : Evolved ph₀ ph ph' fixed table T ok node m used := by
  obtain ⟨ph1, node1, m1, used1, node', used', x, ⟨S', hS', hg⟩, h1, h', heff⟩ := h
  have hu1 := hu.grown h1 hg fun q hq => hS q (hS' q hq)
  refine ⟨node', m1, used', (· = x), ⟨hu1.bounds.trans heff.region, h', hu1.kernel, hu1.user, hu1.low⟩,
    fun q hq => hg.old q fun hq' => hq (hT q (hS' q hq')), fun ho => absurd ho hok, (h1.grown hg).trans heff⟩

lemma UserTable.own_new (h : UserTable ph₀ ph fixed table node m used) (hu : flags.testBit 4 = true)
    (hn : ph.InRegion false n) (hlt : n < 2 ^ 43) : userOwn ph₀ q (.new n (flags ||| PTE_V)) := by
  constructor
  · show ((flags ||| PTE_V) % 2 ^ 10).testBit 4 = true
    rw [Nat.testBit_mod_two_pow, Nat.testBit_or, hu]
    rfl
  · rw [← h.bounds.inRegion, show (Entry.new n (flags ||| PTE_V)).ppn = n from Nat.mod_eq_of_lt (by omega)]
    exact hn

lemma UserTable.ownable (h : UserTable ph₀ ph fixed table node m used) (hfix : ∀ q, S q → fixed q = none) :
    Uvm.Ownable ph m (userOwn ph₀) S :=
  ⟨fun _ _ _ hx hlt => h.own_new (by decide) hx hlt, fun q e hq hm => h.user q e hm (hfix q hq)⟩

lemma Evolves.grow {b : Bool} {ph1 ph2 : Phys} (hf : isLeaf flags = true)
    (hu : flags.testBit 4 = true) (hq : q < 2 ^ 26) (hT : T q) (ha : Pmem.alloc false ph = .ok (pa, ph1))
    (hmem : ∀ x, x ≠ pa / PGSIZE → ph2.mem x = ph1.mem x) (hr : ph2.region = ph1.region) (hc : ph2.pageRef = ph1.pageRef)
    (he : PageTable.map P table (q * PGSIZE) pa PGSIZE flags ph2 = .ok (b, ph')) :
    Evolves ph₀ fixed table T (b = true) ph ph' := by
  intro node m used h
  obtain ⟨-, hb, hgrow⟩ := h.space.growFilled hf hq (fun n hn hlt => h.own_new hu hn hlt) (fun e hm => h.used_or hm) ha hmem hr hc he
  by_cases hnone : m q = none
  · obtain ⟨node', used', n, -, -, -, h', hg⟩ := hgrow hnone
    exact h.evolved_grown h' hg (fun q' hq' => by rw [hq']; exact hq) fun q' hq' => by rw [hq']; exact hT
  · obtain ⟨node', used', n, h', heff, -⟩ := h.space.growRefused hf hq hnone (fun e hm => h.used_or hm) ha hmem hr hc he
    rw [decide_eq_false hnone] at hb
    exact ⟨node', m, used', (· = n), ⟨h.bounds.trans heff.region, h', h.kernel, h.user, h.low⟩, fun _ _ => rfl,
      fun ho => (by rw [hb] at ho; cases ho), heff⟩

lemma UserTable.mapFixed {u : Unit} (h : UserTable ph₀ ph fixed table node m used) (hf : isLeaf flags = true) (hu : flags.testBit 4 = false)
    (hq : q < 2 ^ 26) (hn : n < 2 ^ 43) (hreg : ¬ph₀.InRegion false n) (hnone : m q = none)
    (he : KernelVm.mappages P table (q * PGSIZE) (n * PGSIZE) PGSIZE flags ph = .ok (u, ph')) :
    ∃ node' used', UserTable ph₀ ph' (update fixed q (some (.new n (flags ||| PTE_V)))) table node'
        (update m q (some (.new n (flags ||| PTE_V)))) used' ∧
      Effect ph ph' (userFoot ph₀ node m)
        (userFoot ph₀ node' (update m q (some (.new n (flags ||| PTE_V))))) used used' := by
  rw [KernelVm.mappages_eq_ok] at he
  have hbit : ((flags ||| PTE_V) % 2 ^ 10).testBit 4 = false := by
    rw [Nat.testBit_mod_two_pow, Nat.testBit_or, hu]
    rfl
  have hnot : ¬(Entry.new n (flags ||| PTE_V)).User := by
    intro hc
    have hset : ((flags ||| PTE_V) % 2 ^ 10).testBit 4 = true := hc
    rw [hset] at hbit
    cases hbit
  have hppn : (Entry.new n (flags ||| PTE_V)).ppn = n := Nat.mod_eq_of_lt (by omega)
  obtain ⟨-, node', used', hext, hspace, -⟩ := h.space.mapPage hf hq (hn.trans (by decide))
    (fun e hm => by rw [hnone] at hm; cases hm) (fun ho => absurd ho.1 hnot) he
  have hspace := hspace hnone
  refine ⟨node', used', ⟨h.bounds.trans hext.takes.region, hspace, fun q' e hf' => ?_, fun q' e hm hf' => ?_, fun q' e hm => ?_⟩,
    hspace.shared hext fun q' e ho => ?_⟩
  · by_cases hqq : q' = q
    · subst hqq
      rw [update_self] at hf'
      cases hf'
      refine ⟨update_self .., hnot, ?_⟩
      rw [hppn]
      exact hreg
    · rw [update_of_ne hqq] at hf'
      rw [update_of_ne hqq]
      exact h.kernel q' e hf'
  · by_cases hqq : q' = q
    · subst hqq
      rw [update_self] at hf'
      cases hf'
    · rw [update_of_ne hqq] at hf' hm
      exact h.user q' e hm hf'
  · by_cases hqq : q' = q
    · subst hqq
      exact hq
    · rw [update_of_ne hqq] at hm
      exact h.low q' e hm
  · by_cases hqq : q' = q
    · subst hqq
      rw [update_self, hnone]
      refine ⟨fun hm => ?_, nofun⟩
      cases hm
      exact absurd ho.1 hnot
    · rw [update_of_ne hqq]

namespace Uvm

lemma pageSize_split {a b : Nat} (h : a ≤ b) : ∃ p n, pageSize a = p * PGSIZE ∧ pageSize b = (p + n) * PGSIZE := by
  refine ⟨(a + 4095) / 4096, (b + 4095) / 4096 - (a + 4095) / 4096, rfl, ?_⟩
  unfold pageSize PGSIZE
  omega

lemma le_pageSize (a : Nat) : a ≤ pageSize a := by
  unfold pageSize
  omega

/-- The pages between two tops of the heap. -/
def heapRange (low high q : Nat) : Prop := pageSize low ≤ q * PGSIZE ∧ q * PGSIZE < pageSize high

lemma heapRange_split (h : low ≤ high) (hmax : high ≤ MMAP_BEGIN) :
    ∃ p n, pageSize low = p * PGSIZE ∧ pageSize high = (p + n) * PGSIZE ∧ p + n ≤ 2 ^ 26 ∧
      (∀ q, (p ≤ q ∧ q < p + n) ↔ heapRange low high q) ∧ (p + n) * PGSIZE ≤ MMAP_BEGIN := by
  obtain ⟨p, n, hp, hn⟩ := pageSize_split h
  have hend : (p + n) * PGSIZE ≤ MMAP_BEGIN := by
    obtain ⟨c, hc⟩ := mmap_window.1
    rw [← hn]
    unfold pageSize
    unfold PGSIZE at hc
    omega
  have hw := mmap_window.2.2.2
  refine ⟨p, n, hp, hn, ?_, fun q => ?_, hend⟩
  · have hv : VA_MAX = 2 ^ 26 * PGSIZE := rfl
    unfold PGSIZE at hend hv
    omega
  · unfold heapRange
    rw [hp, hn]
    unfold PGSIZE
    omega

lemma heapRange_lt (h : low ≤ high) (hmax : high ≤ MMAP_BEGIN) (hq : heapRange low high q) :
    q * PGSIZE < MMAP_BEGIN ∧ q < 2 ^ 26 := by
  obtain ⟨p, n, -, -, hva, hrange, hend⟩ := heapRange_split h hmax
  have hlt := (hrange q).mpr hq
  unfold PGSIZE at hend ⊢
  omega

section Heap

variable {own : Nat → Entry → Prop}

lemma heapGrow_spec (h : Space ph table node m own used)
    (hlt : oldTop < newTop) (hmax : newTop ≤ MMAP_BEGIN) (hown : Ownable ph m own (heapRange oldTop newTop))
    (he : heapGrow P table oldTop newTop ph = .ok (r, ph')) :
    (r = .ok () ∧ ∃ node' m' used', Space ph' table node' m' own used' ∧
      Grown ph ph' node node' m m' own used used' (heapRange oldTop newTop) ∧ NewPages ph' m' (heapRange oldTop newTop)) ∨
    (r = .error .mapFailed ∧ (∃ q, heapRange oldTop newTop q ∧ m q ≠ none) ∧
      Refused ph ph' table node m own used (heapRange oldTop newTop) ∧ Loses ph ph') := by
  obtain ⟨p, n, hp, hn, hva, hrange, -⟩ := heapRange_split hlt.le hmax
  have hS : (fun q => p ≤ q ∧ q < p + n) = heapRange oldTop newTop := funext fun q => propext (hrange q)
  have hfuel : ((p + n) * PGSIZE - p * PGSIZE) / PGSIZE = n := by
    unfold PGSIZE
    omega
  have hw := mmap_window
  have hv : VA_MAX < 2 ^ 63 := by decide
  unfold heapGrow at he
  rw [if_neg (by omega), alignUp_eq (by omega), pure_bind, alignUp_eq (by omega), pure_bind, hp, hn, hfuel] at he
  rw [← hS] at hown ⊢
  rcases mapPagesFrom_ok h hva (by omega) hown he with hok | ⟨rfl, ⟨q, hq, hq', hm⟩, hrest⟩
  · exact .inl hok
  · exact .inr ⟨rfl, ⟨q, ⟨hq, hq'⟩, hm⟩, hrest⟩

lemma unmap_refused (h : Space ph table node m own used) (hn : 0 < n) (hva : p + n ≤ 2 ^ 26)
    (hnone : m p = none) : PageTable.unmap P table (p * PGSIZE) (n * PGSIZE) true ph = .ok (false, ph) := by
  obtain ⟨hlen, hmax, hup, hpg, hlast⟩ : n * PGSIZE ≠ 0 ∧ p * PGSIZE + n * PGSIZE + 4095 < 2 ^ 64 ∧
      pageSize (p * PGSIZE + n * PGSIZE) = (p + n) * PGSIZE ∧ PGSIZE ≤ (p + n) * PGSIZE ∧
      ¬(p + n) * PGSIZE - PGSIZE < p * PGSIZE := by
    unfold pageSize PGSIZE
    omega
  have hdown : alignDown (p * PGSIZE) = p * PGSIZE := by
    rw [alignDown_eq]
    unfold PGSIZE
    omega
  have hden : PageTable.denote ph.mem table (p * PGSIZE) = none := by
    rw [h.tree.denote_eq (PageTable.page_lt (by omega)), div_mul_PGSIZE, hnone]
  unfold PageTable.unmap
  rw [if_neg hlen, addW_of_lt P (by omega), pure_bind, alignUp_eq hmax, pure_bind, hup, subW_of_le P hpg, pure_bind, hdown,
    PageTable.unmapFrom, if_neg hlast, K.bind_of_ok (K.get_apply ph)]
  unfold PageTable.denote at hden
  cases hl : PageTable.lookup ph.mem table (p * PGSIZE) with
  | none => rfl
  | some ni =>
    rw [hl] at hden
    dsimp only at hden ⊢
    have hinvalid : isValid (ph.mem ni.1 ni.2) = false := by
      by_contra hv
      rw [if_pos (by simpa using hv)] at hden
      cases hden
    rw [hinvalid, Bool.not_false, Bool.true_or, if_pos rfl]
    rfl

/-- `heap_ungrow` unmaps and frees the pages of its range, up to the first one that is not mapped. -/
lemma heapUngrow_spec (h : Space ph table node m own used)
    (hle : newTop ≤ oldTop) (hmax : oldTop ≤ MMAP_BEGIN)
    (hown : ∀ q e, heapRange newTop oldTop q → m q = some e → own q e)
    (he : heapUngrow P table oldTop newTop ph = .ok (r, ph')) :
    (r = .ok () ∧ ∃ m' used', Space ph' table node m' own used' ∧
      Shrunk ph ph' node m m' own used used' (heapRange newTop oldTop)) ∨
    (r = .error .mapFailed ∧ ∃ p, heapRange newTop oldTop p ∧ m p = none ∧ (p * PGSIZE = pageSize newTop → ph' = ph) ∧
      ∃ m' used', Space ph' table node m' own used' ∧
        Shrunk ph ph' node m m' own used used' fun q => pageSize newTop ≤ q * PGSIZE ∧ q < p) := by
  obtain ⟨p, n, hp, hn, hva, hrange, -⟩ := heapRange_split hle hmax
  have hsize : (p + n) * PGSIZE - p * PGSIZE = n * PGSIZE := by
    rw [Nat.add_mul, Nat.add_sub_cancel_left]
  have hw := mmap_window
  have hv : VA_MAX < 2 ^ 63 := by decide
  unfold heapUngrow at he
  rw [if_neg (by omega), alignUp_eq (by omega), pure_bind, alignUp_eq (by omega), pure_bind, hp, hn, hsize] at he
  by_cases hzero : n = 0
  · rw [if_pos (by rw [hzero, Nat.zero_mul])] at he
    cases he
    refine .inl ⟨rfl, m, used, h, (Shrunk.refl _ node m own used).congr fun q => ⟨False.elim, fun hq => ?_⟩⟩
    have := (hrange q).mpr hq
    omega
  rw [if_neg (Nat.mul_ne_zero hzero (by decide))] at he
  obtain ⟨b, ph1, hunmap, he⟩ := K.bind_ok he
  have hph : ph' = ph1 := by
    cases b <;> cases he <;> rfl
  subst hph
  obtain ⟨k, hk, hb, hstop, m', used', h', hs⟩ := h.unmap (Nat.pos_of_ne_zero hzero) hva
    (fun q e hq hq' => hown q e ((hrange q).mp ⟨hq, hq'⟩)) hunmap
  by_cases hkn : k = n
  · rw [hb, decide_eq_true hkn, if_pos rfl] at he
    cases he
    rw [hkn] at hs
    exact .inl ⟨rfl, m', used', h', hs.congr hrange⟩
  · rw [hb, decide_eq_false hkn] at he
    cases he
    refine .inr ⟨rfl, p + k, (hrange _).mp ⟨by omega, by omega⟩, hstop (by omega), fun heq => ?_, m', used', h',
      hs.congr fun q => ?_⟩
    · have hk0 : k = 0 := by
        rw [hp] at heq
        unfold PGSIZE at heq
        omega
      subst hk0
      rw [unmap_refused h (Nat.pos_of_ne_zero hzero) hva (hstop (by omega))] at hunmap
      cases hunmap
      rfl
    · rw [hp]
      unfold PGSIZE
      omega

end Heap

lemma heapGrow_evolves (hfix : ∀ q, q * PGSIZE < MMAP_END → fixed q = none)
    (hT : ∀ q, oldTop ≤ q * PGSIZE → q * PGSIZE < pageSize newTop → T q) (hlt : oldTop < newTop)
    (he : heapGrow P table oldTop newTop ph = .ok (r, ph')) :
    Evolves ph₀ fixed table T (r = .ok ()) ph ph' := by
  rcases lt_or_ge MMAP_BEGIN newTop with hbig | hmax
  · rw [heapGrow, if_pos hbig] at he
    cases he
    exact .refl _
  · intro node m used h
    have hold := le_pageSize oldTop
    have hT' : ∀ q, heapRange oldTop newTop q → T q := fun q hq => hT q (hold.trans hq.1) hq.2
    have hwin := fun q => heapRange_lt hlt.le hmax (q := q)
    have hlow : ∀ q, heapRange oldTop newTop q → q < 2 ^ 26 := fun q hq => (hwin q hq).2
    have hown : Ownable ph m (userOwn ph₀) (heapRange oldTop newTop) :=
      h.ownable fun q hq => hfix q ((hwin q hq).1.trans mmap_window.2.2.2.1)
    rcases heapGrow_spec h.space hlt hmax hown he with ⟨rfl, node', m', used', h', hg, -⟩ | ⟨rfl, -, href, -⟩
    · exact h.evolved_grown h' hg hlow hT'
    · exact href.evolved h hlow hT' nofun

lemma heapUngrow_evolves (hfix : ∀ q, q * PGSIZE < MMAP_END → fixed q = none)
    (hT : ∀ q, newTop ≤ q * PGSIZE → q * PGSIZE < pageSize oldTop → T q)
    (hold : oldTop ≤ MMAP_BEGIN) (he : heapUngrow P table oldTop newTop ph = .ok (r, ph')) :
    Evolves ph₀ fixed table T ok ph ph' := by
  rcases lt_or_ge oldTop newTop with hlt | hle
  · rw [heapUngrow, if_pos hlt] at he
    cases he
    exact .refl _
  · intro node m used h
    have hnew := le_pageSize newTop
    have hown : ∀ q e, heapRange newTop oldTop q → m q = some e → userOwn ph₀ q e := fun q e hq hm =>
      h.user q e hm (hfix q ((heapRange_lt hle hold hq).1.trans mmap_window.2.2.2.1))
    rcases heapUngrow_spec h.space hle hold hown he with ⟨-, m', used', h', hs⟩ | ⟨-, p, hp, -, -, m', used', h', hs⟩
    · exact h.evolved_shrunk h' hs fun q hq => hT q (hnew.trans hq.1) hq.2
    · refine h.evolved_shrunk h' hs fun q hq => hT q (hnew.trans hq.1) (lt_trans ?_ hp.2)
      unfold PGSIZE
      omega

/-- The pages of the stack. -/
def stackPage (q : Nat) : Prop := STACK_BASE ≤ q * PGSIZE ∧ q * PGSIZE < STACK_TOP

lemma ustackGrowFrom_evolves {base : Nat} (hT : ∀ q, stackPage q → T q)
    (hp : p * PGSIZE ≤ STACK_TOP) (hbase : STACK_BASE ≤ base) (hdvd : PGSIZE ∣ base)
    (he : ustackGrowFrom P table base fuel (p * PGSIZE) ph = .ok (r, ph')) :
    Evolves ph₀ fixed table T (r = .ok ()) ph ph' := by
  induction fuel generalizing p ph with
  | zero => cases he
  | succ fuel ih =>
    rw [ustackGrowFrom] at he
    by_cases hlt : base < p * PGSIZE
    · obtain ⟨c, rfl⟩ := hdvd
      have hpos : PGSIZE * c + PGSIZE ≤ p * PGSIZE := by
        unfold PGSIZE at *
        omega
      have hsub : p * PGSIZE - PGSIZE = (p - 1) * PGSIZE := by rw [Nat.sub_mul, Nat.one_mul]
      have hpage : stackPage (p - 1) := by
        unfold stackPage
        unfold PGSIZE at *
        omega
      have hlow : p - 1 < 2 ^ 26 := by
        have htop : STACK_TOP < 2 ^ 26 := by decide
        have := hpage.2
        unfold PGSIZE at this
        omega
      rw [if_pos hlt, subW_of_le P (by omega), pure_bind, hsub, K.bind_apply, K.get_apply] at he
      dsimp only [Except.bind] at he
      split_ifs at he with hmap
      · exact ih (by omega) he
      · obtain ⟨pa, ph1, halloc, he⟩ := K.bind_ok he
        split_ifs at he with hpa
        · intro node m used h
          obtain ⟨x, rfl, hx, -⟩ := h.space.alloc halloc
          exact absurd hpa (Nat.mul_ne_zero (by have := hx.pos; omega) (by decide))
        · obtain ⟨b, ph2, hmapped, he⟩ := K.bind_ok he
          have hgrow : Evolves ph₀ fixed table T (b = true) ph ph2 :=
            .grow isLeaf_MMAP_FLAGS (by decide) hlow (hT _ hpage) halloc (fun _ _ => rfl) rfl rfl hmapped
          cases b with
          | true => exact (hgrow.trans (ih (by omega) he)).mono (fun _ h => h) fun h => ⟨rfl, h⟩
          | false =>
            cases he
            exact hgrow.mono (fun _ h => h) nofun
    · rw [if_neg hlt] at he
      cases he
      exact .refl _

lemma ustackGrow_evolves {faultVa : Nat} (hT : ∀ q, stackPage q → T q)
    (he : ustackGrow P table faultVa ph = .ok (r, ph')) : Evolves ph₀ fixed table T (r = .ok ()) ph ph' := by
  unfold ustackGrow at he
  split_ifs at he with hin
  · have htop : STACK_TOP = STACK_TOP / PGSIZE * PGSIZE := rfl
    rw [htop] at he
    refine ustackGrowFrom_evolves hT htop.ge ?_ (dvd_alignDown faultVa) he
    have hbase : STACK_BASE = 32 * 4096 := rfl
    rw [alignDown_eq]
    omega
  · cases he
    exact .refl _

/-! ### The window -/

/-- The pages of the window of `mmap`. -/
def windowPage (q : Nat) : Prop := MMAP_BEGIN ≤ q * PGSIZE ∧ q * PGSIZE < MMAP_END

/-- What `mmap` and `munmap` leave of the list of regions and of the table, whether they fail or not. -/
def Remapped (ph₀ : Phys) (s s' : Vm) (fixed : PageMap) (table : Nat) (ok : Prop) (node : List Nat → Option Nat) (m : PageMap)
    (used : Nat → Prop) (ids free : List Nat) : Prop :=
  (∃ ids' free', RegionLists s'.wh s'.head ids' free' ∧ Moves s.wh s'.wh ids free ids' free' ∧ Regions (s'.wh.spans ids')) ∧
    Evolved ph₀ s.ph s'.ph fixed table windowPage ok node m used

lemma windowPage_lt (h : windowPage q) : q < 2 ^ 26 := by
  have hw := mmap_window.2.2.2.2
  have hv : VA_MAX = 2 ^ 26 * PGSIZE := rfl
  have hq := h.2
  unfold PGSIZE at *
  omega

variable {s s' : Vm} {ids free : List Nat} {begin len : Nat}

lemma mmap_dev {r : Except UvmError Nat} (he : mmap .dev table begin len MMAP_BEGIN MMAP_END s = .ok (r, s')) :
    begin + pageSize len < 2 ^ 64 ∨ r = .error .outOfRange ∧ s' = s := by
  unfold mmap at he
  split_ifs at he with hlen
  · cases he
    exact .inr ⟨rfl, rfl⟩
  · obtain ⟨size, s1, hsize, he⟩ := K.bind_eq_ok.mp he
    have hsmall : len + 4095 < 2 ^ 64 := by
      by_contra hbig
      have hover : addW .dev 64 len PGMASK s = .error .overflow := congrFun (if_neg hbig) s
      unfold alignUp at hsize
      rw [K.bind_of_error hover] at hsize
      cases hsize
    rw [alignUp_eq hsmall] at hsize
    cases hsize
    have hpages : pageSize len / PGSIZE * PGSIZE = pageSize len := Nat.div_mul_cancel (Nat.dvd_mul_left _ _)
    have hle : pageSize len < 2 ^ 64 := by
      unfold pageSize
      omega
    by_cases hz : begin = 0
    · exact .inl (by omega)
    · split_ifs at he with hzero
      · cases he
        exact .inr ⟨rfl, rfl⟩
      · unfold startAt at he
        rw [if_neg hz, pure_bind] at he
        dsimp only at he
        unfold mmapAt at he
        split_ifs at he with hlow
        · cases he
          exact .inr ⟨rfl, rfl⟩
        · rw [mulW_of_lt _ (by rw [hpages]; exact hle), pure_bind, hpages] at he
          obtain ⟨fin, s1, hfin, -⟩ := K.bind_ok he
          by_contra hcon
          rw [not_or] at hcon
          have hover : addW .dev 64 begin (pageSize len) s = .error .overflow := congrFun (if_neg hcon.1) s
          rw [hover] at hfin
          cases hfin

section

variable (h : UserTable ph₀ s.ph fixed table node m used) (hfix : ∀ q, q * PGSIZE < MMAP_END → fixed q = none)
  (hl : RegionLists s.wh s.head ids free) (hr : Regions (s.wh.spans ids))
include h hfix hl hr

lemma mmap_remapped {r : Except UvmError Nat} (hwrap : P = .release → begin + pageSize len < 2 ^ 64)
    (he : mmap P table begin len MMAP_BEGIN MMAP_END s = .ok (r, s')) :
    Remapped ph₀ s s' fixed table (∃ lo, r = .ok lo) node m used ids free := by
  have hsame : ∀ ok, Remapped ph₀ s s fixed table ok node m used ids free := fun ok =>
    ⟨⟨ids, free, hl, .refl _ _ _, hr⟩, Evolves.refl _ _ _ _ h⟩
  have hwrap' : begin + pageSize len < 2 ^ 64 ∨ r = .error .outOfRange ∧ s' = s := by
    cases P with
    | dev => exact mmap_dev he
    | release => exact .inl (hwrap rfl)
  rcases hwrap' with hwrap | ⟨rfl, rfl⟩
  · have hlow : ∀ q, windowPage q → q < 2 ^ 26 := fun q hq => windowPage_lt hq
    rcases mmap_ok hl hr hwrap h.space (h.ownable fun q hq => hfix q hq.2) he with ⟨rfl, rfl⟩ |
      ⟨rfl, -, hwh, hhead, node', m', used', S, hS, h', hg⟩ | ⟨rfl, -, hwh, hhead, href⟩ |
      ⟨lo, rfl, hlen, b, ids', free', node', m', used', hb, hmin, hmax, -, -, hl', hm', hj, h', hg⟩
    · exact hsame _
    · refine ⟨⟨ids, free, ?_, ?_, ?_⟩, h.evolved_grown h' hg (fun q hq => hlow q (hS q hq)) hS⟩
      · rw [hwh, hhead]
        exact hl.init
      · rw [hwh]
        exact hl.moves_init
      · rw [hwh, MmapWarehouse.spans_congr fun i hi => MmapWarehouse.span_eq (hl.init_mem hi)]
        exact hr
    · refine ⟨⟨ids, free, ?_, ?_, ?_⟩, href.evolved h hlow (fun q hq => hq) nofun⟩
      · rw [hwh, hhead]
        exact hl
      · rw [hwh]
        exact .refl _ _ _
      · rw [hwh]
        exact hr
    · have hsize : 0 < pageSize len := by
        unfold pageSize
        omega
      have hwindow : ∀ q, b ≤ q * PGSIZE ∧ q * PGSIZE < b + pageSize len → windowPage q := fun q hq => ⟨by omega, by omega⟩
      exact ⟨⟨ids', free', hl', hm', hr.join hj (by omega) hb (Nat.dvd_add hb (Nat.dvd_mul_left _ _)) hmin hmax⟩,
        h.evolved_grown h' hg (fun q hq => hlow q (hwindow q hq)) hwindow⟩
  · exact hsame _

lemma munmap_remapped (he : munmap P table begin len s = .ok (r, s')) :
    Remapped ph₀ s s' fixed table ok node m used ids free := by
  rcases munmap_cases hl hr h.space (fun q e _ hq hm => h.user q e hm (hfix q hq)) he with ⟨-, rfl⟩ | ⟨-, ids', free', m', used', S, hl', hm', hr', hS, h', hs⟩ |
    ⟨fin, hlt, hdvd, -, ids', free', m', used', hl', hm', hspans, h', hs⟩
  · exact ⟨⟨ids, free, hl, .refl _ _ _, hr⟩, Evolves.refl _ _ _ _ h⟩
  · exact ⟨⟨ids', free', hl', hm', hr' hr⟩, h.evolved_shrunk h' hs hS⟩
  · refine ⟨⟨ids', free', hl', hm', ?_⟩, h.evolved_shrunk h' hs fun q hq => ?_⟩
    · rw [hspans]
      exact hr.cut hlt (dvd_alignDown begin) hdvd
    · obtain ⟨⟨c, hc, hq1, hq2⟩, -⟩ := hq
      have hb := hr.bounds c hc
      exact ⟨by omega, by omega⟩

end

/-! ### Copying to a process -/

lemma userPage_ok {mem : Nat → Nat → Nat} {va perm : Nat} (h : Tree mem table node m)
    (he : userPage mem table va perm = .ok pa) :
    ∃ e, m (va / PGSIZE) = some e ∧ e.User ∧ pa = e.ppn * PGSIZE := by
  unfold userPage at he
  by_cases hva : alignDown va < VA_MAX
  · have hpage : alignDown va / PGSIZE = va / PGSIZE := by
      rw [alignDown_eq]
      unfold PGSIZE
      omega
    rw [h.lookup_eq hva] at he
    cases hn : node [vpn (alignDown va) 2, vpn (alignDown va) 1] with
    | none =>
      rw [hn] at he
      cases he
    | some n =>
      have hword := h.leaf _ n hn rfl _ (vpn_lt (alignDown va) 0)
      rw [pageNo_va hva, hpage] at hword
      rw [hn, Option.map_some] at he
      dsimp only at he
      rw [hword] at he
      cases hm : m (va / PGSIZE) with
      | none =>
        rw [hm] at he
        cases he
      | some e =>
        have hwf := (h.present _ e hm).1
        rw [hm, hwf.isValid, hwf.isLeaf, pteToPa_encLeaf hwf] at he
        simp only [Bool.not_true, Bool.or_self, Bool.false_eq_true, if_false] at he
        split_ifs at he with h1 h2
        cases he
        refine ⟨e, rfl, ?_, rfl⟩
        rw [not_or] at h2
        have hflags : encLeaf (some e) &&& 0x3FF = e.flags := (Nat.and_two_pow_sub_one_eq_mod _ 10).trans hwf.mod
        rw [hflags] at h2
        have hu : e.flags &&& 2 ^ 4 ≠ 0 := h2.1
        rw [ne_eq, Nat.and_two_pow] at hu
        unfold Entry.User
        cases hb : e.flags.testBit 4 with
        | true => rfl
        | false => simp [hb] at hu
  · unfold PageTable.lookup at he
    rw [if_pos (not_lt.mp hva)] at he
    cases he

end Uvm

lemma Phys.writeBytes_other {bs : List Nat} (ph : Phys) (h : ∀ i < bs.length, (pa + i) / PGSIZE ≠ n) :
    (ph.writeBytes pa bs).mem n = ph.mem n := by
  induction bs generalizing pa ph with
  | nil => rfl
  | cons b bs ih =>
    have hfirst : n ≠ pa / PGSIZE := fun he => h 0 (by simp) he.symm
    have hrest : ∀ i < bs.length, (pa + 1 + i) / PGSIZE ≠ n := by
      intro i hi
      rw [Nat.add_assoc, Nat.add_comm 1]
      exact h (i + 1) (by simpa using hi)
    rw [Phys.writeBytes, ih _ hrest]
    exact update_of_ne hfirst _ _

@[simp] lemma Phys.writeBytes_region (ph : Phys) (pa : Nat) (bs : List Nat) : (ph.writeBytes pa bs).region = ph.region := by
  induction bs generalizing pa ph with
  | nil => rfl
  | cons b bs ih => exact ih _ _

@[simp] lemma Phys.writeBytes_pageRef (ph : Phys) (pa : Nat) (bs : List Nat) : (ph.writeBytes pa bs).pageRef = ph.pageRef := by
  induction bs generalizing pa ph with
  | nil => rfl
  | cons b bs ih => exact ih _ _

lemma UserTable.write (h : UserTable ph₀ ph fixed table node m used) (hm : m q = some e)
    (hu : e.User) (hmem : ∀ x, x ≠ e.ppn → ph'.mem x = ph.mem x) (hr : ph'.region = ph.region)
    (hc : ph'.pageRef = ph.pageRef) : Evolved ph₀ ph ph' fixed table T ok node m used := by
  have hown := h.owned hm hu
  have hfoot : userFoot ph₀ node m e.ppn := .inr ⟨q, e, hm, hown, rfl⟩
  obtain ⟨hspace, htakes⟩ := h.space.write (h.space.leaf q e hm hown) (h.space.apart q e · hm hown) hmem hr hc
  obtain ⟨free, hp⟩ := h.space.pmem
  obtain ⟨heff, -⟩ := Effect.write hp h.space.foot_used (fun x hx => hmem x fun he => hx (he ▸ hfoot)) hr hc
  refine ⟨node, m, used, fun _ => False, ⟨h.bounds.trans htakes.region, hspace, h.kernel, h.user, h.low⟩,
    fun _ _ => rfl, fun _ _ h => h, heff.congr (fun _ => Iff.rfl) fun n => ?_⟩
  rw [or_false]
  rfl

namespace Uvm

lemma copyoutFrom_evolves {va : Nat} {r : Except CopyError Unit}
    (he : copyoutFrom P table fuel src va ph = .ok (r, ph')) : Evolves ph₀ fixed table T ok ph ph' := by
  induction fuel generalizing src va ph with
  | zero =>
    cases src with
    | nil =>
      cases he
      exact .refl _
    | cons b bs => cases he
  | succ fuel ih =>
    cases src with
    | nil =>
      cases he
      exact .refl _
    | cons b bs =>
      rw [copyoutFrom, K.bind_apply, K.get_apply] at he
      dsimp only [Except.bind] at he
      cases hpage : userPage ph.mem table va PTE_W with
      | error e =>
        rw [hpage] at he
        cases he
        exact .refl _
      | ok pa =>
        rw [hpage] at he
        obtain ⟨u, ph1, hwrite, he⟩ := K.bind_ok he
        cases hwrite
        obtain ⟨next, ph1, hnext, he⟩ := K.bind_ok he
        obtain ⟨rfl, -⟩ := addW_ok hnext
        have hstep : Evolves ph₀ fixed table T ok ph (ph.writeBytes (pa + pageOffset va)
            ((b :: bs).take (min (PGSIZE - pageOffset va) (bs.length + 1)))) := by
          intro node m used h
          obtain ⟨e, hm, hu, rfl⟩ := userPage_ok h.space.tree hpage
          refine h.write hm hu (fun x hx => Phys.writeBytes_other ph fun i hi hcontra => hx ?_) (by simp) (by simp)
          -- the bytes stay in the page of `va`
          rw [List.length_take] at hi
          rw [← hcontra]
          unfold PGSIZE at *
          omega
        exact (hstep.trans (ih he)).mono (fun _ h => h) fun h => ⟨h, h⟩

lemma copyout_evolves {va : Nat} {r : Except CopyError Unit}
    (he : copyout P table va src ph = .ok (r, ph')) : Evolves ph₀ fixed table T ok ph ph' :=
  copyoutFrom_evolves he

end Uvm

end Glenda.Mem
