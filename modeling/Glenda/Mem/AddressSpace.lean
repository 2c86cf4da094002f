import Glenda.Mem.PageTableSpec

/-!
# Address spaces

A page table whose leaves own pages. Which leaves do is a parameter `own`: the user leaves in the table of
a process, the stack pages in the table of the kernel. A page in use is the table of one path or
belongs to one leaf. `Grown` says what code does that maps new pages at the page numbers `S`, and `Shrunk`
what code does that unmaps and frees those pages.
-/

namespace Glenda.Mem
open Glenda.Lib
open Function (update update_of_ne update_self)

variable {k b : Bool} {n pa q flags : Nat}

def Entry.User (e : Entry) : Prop := e.flags.testBit 4 = true

def Phys.InRegion (ph : Phys) (k : Bool) (n : Nat) : Prop :=
  (ph.region k).lower ≤ n * PGSIZE ∧ n * PGSIZE < (ph.region k).upper

lemma Phys.SameBounds.inRegion {ph ph' : Phys} (h : ph.SameBounds ph') :
    ph'.InRegion k n ↔ ph.InRegion k n := by
  unfold Phys.InRegion
  rw [(h k).1, (h k).2]

structure Space (ph : Phys) (table : Nat) (node : List Nat → Option Nat) (m : PageMap) (own : Nat → Entry → Prop)
    (used : Nat → Prop) : Prop extends PtInv ph table node m used where
  leaf : ∀ q e, m q = some e → own q e → used e.ppn
  unique : ∀ q q' e e', m q = some e → m q' = some e' → own q e → own q' e' → e.ppn = e'.ppn → q = q'
  apart : ∀ q e s, m q = some e → own q e → node s ≠ some e.ppn

structure Grown (ph ph' : Phys) (node node' : List Nat → Option Nat) (m m' : PageMap) (own : Nat → Entry → Prop)
    (used used' : Nat → Prop) (S : Nat → Prop) : Prop where
  keeps : ∀ s n, node s = some n → node' s = some n
  fresh : ∀ s n, node' s = some n → node s = some n ∨ ¬used n
  old : ∀ q, ¬S q → m' q = m q
  new : ∀ q, S q → m q = none ∧ ∃ e, m' q = some e ∧ own q e ∧ ¬used e.ppn
  cause : ∀ n, used' n → used n ∨ (∃ s, node' s = some n) ∨ ∃ q e, S q ∧ m' q = some e ∧ e.ppn = n
  takes : Takes ph ph' used used'
  mem : ∀ n, used n → (∀ s, node' s ≠ some n) → ph'.mem n = ph.mem n

namespace Grown

variable {ph ph' ph'' : Phys} {node node' node'' : List Nat → Option Nat} {m m' m'' : PageMap}
  {own : Nat → Entry → Prop} {used used' used'' : Nat → Prop} {S S' : Nat → Prop}

lemma refl (ph : Phys) (node : List Nat → Option Nat) (m : PageMap) (own : Nat → Entry → Prop) (used : Nat → Prop) :
    Grown ph ph node node m m own used used (fun _ => False) :=
  ⟨fun _ _ h => h, fun _ _ h => .inl h, fun _ _ => rfl, fun _ h => h.elim, fun _ h => .inl h, .refl ph used,
    fun _ _ _ => rfl⟩

lemma trans (h : Grown ph ph' node node' m m' own used used' S)
    (h' : Grown ph' ph'' node' node'' m' m'' own used' used'' S') :
    Grown ph ph'' node node'' m m'' own used used'' (fun q => S q ∨ S' q) := by
  have hold : ∀ q, S q → ¬S' q := by
    intro q hq hq'
    obtain ⟨-, e, he, -⟩ := h.new q hq
    rw [(h'.new q hq').1] at he
    cases he
  refine ⟨fun s n hn => h'.keeps s n (h.keeps s n hn), fun s n hn => ?_, fun q hq => ?_, fun q hq => ?_, fun n hn => ?_,
    h.takes.trans h'.takes, fun n hn hs => ?_⟩
  · rcases h'.fresh s n hn with hs | hu
    · exact h.fresh s n hs
    · exact .inr fun hn => hu (h.takes.uses n hn)
  · rw [not_or] at hq
    rw [h'.old q hq.2, h.old q hq.1]
  · by_cases hS : S q
    · obtain ⟨hnone, e, he, ho, hu⟩ := h.new q hS
      exact ⟨hnone, e, by rw [h'.old q (hold q hS), he], ho, hu⟩
    · obtain ⟨hnone, e, he, ho, hu⟩ := h'.new q (hq.resolve_left hS)
      rw [h.old q hS] at hnone
      exact ⟨hnone, e, he, ho, fun hn => hu (h.takes.uses _ hn)⟩
  · rcases h'.cause n hn with hn | hs | ⟨q, e, hq, he, rfl⟩
    · rcases h.cause n hn with hn | ⟨s, hs⟩ | ⟨q, e, hq, he, rfl⟩
      · exact .inl hn
      · exact .inr (.inl ⟨s, h'.keeps s n hs⟩)
      · exact .inr (.inr ⟨q, e, .inl hq, by rw [h'.old q (hold q hq), he], rfl⟩)
    · exact .inr (.inl hs)
    · exact .inr (.inr ⟨q, e, .inr hq, he, rfl⟩)
  · rw [h'.mem n (h.takes.uses n hn) hs]
    exact h.mem n hn fun s hs' => hs s (h'.keeps s n hs')

lemma congr (h : Grown ph ph' node node' m m' own used used' S) (hS : ∀ q, S q ↔ S' q) :
    Grown ph ph' node node' m m' own used used' S' := by
  obtain rfl : S = S' := funext fun q => propext (hS q)
  exact h

end Grown

structure Shrunk (ph ph' : Phys) (node : List Nat → Option Nat) (m m' : PageMap) (own : Nat → Entry → Prop)
    (used used' : Nat → Prop) (S : Nat → Prop) : Prop where
  old : ∀ q, ¬S q → m' q = m q
  gone : ∀ q, S q → m' q = none ∧ ∃ e, m q = some e ∧ own q e
  freed : ∀ n, used n → used' n ∨ ∃ q e, S q ∧ m q = some e ∧ e.ppn = n
  out : ∀ q e, S q → m q = some e → ¬used' e.ppn
  gives : Gives ph ph' used used'
  mem : ∀ n, used' n → (∀ s, node s ≠ some n) → ph'.mem n = ph.mem n

namespace Shrunk

variable {ph ph' ph'' : Phys} {node : List Nat → Option Nat} {m m' m'' : PageMap} {own : Nat → Entry → Prop}
  {used used' used'' : Nat → Prop} {S S' : Nat → Prop}

lemma refl (ph : Phys) (node : List Nat → Option Nat) (m : PageMap) (own : Nat → Entry → Prop) (used : Nat → Prop) :
    Shrunk ph ph node m m own used used (fun _ => False) :=
  ⟨fun _ _ => rfl, fun _ h => h.elim, fun _ h => .inl h, fun _ _ h => h.elim, .refl ph used, fun _ _ _ => rfl⟩

lemma trans (h : Shrunk ph ph' node m m' own used used' S) (h' : Shrunk ph' ph'' node m' m'' own used' used'' S') :
    Shrunk ph ph'' node m m'' own used used'' (fun q => S q ∨ S' q) := by
  have hold : ∀ q, S q → ¬S' q := by
    intro q hq hq'
    obtain ⟨-, e, he, -⟩ := h'.gone q hq'
    rw [(h.gone q hq).1] at he
    cases he
  refine ⟨fun q hq => ?_, fun q hq => ?_, fun n hn => ?_, fun q e hq he => ?_, h.gives.trans h'.gives,
    fun n hn hs => ?_⟩
  · rw [not_or] at hq
    rw [h'.old q hq.2, h.old q hq.1]
  · by_cases hS : S q
    · obtain ⟨hnone, he⟩ := h.gone q hS
      exact ⟨by rw [h'.old q (hold q hS), hnone], he⟩
    · rw [← h.old q hS]
      exact h'.gone q (hq.resolve_left hS)
  · rcases h.freed n hn with hn | ⟨q, e, hq, he, rfl⟩
    · rcases h'.freed n hn with hn | ⟨q, e, hq, he, rfl⟩
      · exact .inl hn
      · refine .inr ⟨q, e, .inr hq, ?_, rfl⟩
        rw [← h.old q fun hS => hold q hS hq, he]
    · exact .inr ⟨q, e, .inl hq, he, rfl⟩
  · by_cases hS : S q
    · exact fun hn => h.out q e hS he (h'.gives.uses _ hn)
    · rw [← h.old q hS] at he
      exact h'.out q e (hq.resolve_left hS) he
  · rw [h'.mem n hn hs]
    exact h.mem n (h'.gives.uses n hn) hs

lemma congr (h : Shrunk ph ph' node m m' own used used' S) (hS : ∀ q, S q ↔ S' q) :
    Shrunk ph ph' node m m' own used used' S' := by
  obtain rfl : S = S' := funext fun q => propext (hS q)
  exact h

end Shrunk

/-! ### Fresh pages -/

/-- The page `n` that `alloc` has just returned. -/
structure FreshPage (ph ph' : Phys) (k : Bool) (n : Nat) (used : Nat → Prop) : Prop where
  pos : 0 < n
  lt : n < 2 ^ 43
  unused : ¬used n
  region : ph.InRegion k n
  zero : ph'.mem n = fun _ => 0
  other : ∀ x, x ≠ n → ph'.mem x = ph.mem x
  takes : Takes ph ph' used (fun x => used x ∨ x = n)

lemma Pmem.alloc_fresh {ph ph' : Phys} {used : Nat → Prop} {free : Bool → List Nat}
    (hp : PmemInv ph free used) (ha : Pmem.alloc k ph = .ok (pa, ph')) :
    ∃ n, pa = n * PGSIZE ∧ FreshPage ph ph' k n used ∧ ∃ free', PmemInv ph' free' fun x => used x ∨ x = n := by
  obtain ⟨rest, hl, hal⟩ := Pmem.alloc_ok hp ha
  have hin : pa ∈ free k := by simp [hl]
  have hother : ∀ x, x ≠ pa / PGSIZE → ph'.mem x = ph.mem x := by
    intro x hx
    rw [hal.mem, update_of_ne hx]
  have hbound : 0 < pa / PGSIZE ∧ pa / PGSIZE < 2 ^ 43 := by
    have hlow := hal.lower
    have hidx := hal.index
    unfold pageIndex TOTAL_PAGES at hidx
    unfold PHY_MEM_START at hlow hidx
    unfold PGSIZE at hidx ⊢
    omega
  refine ⟨pa / PGSIZE, hal.div_mul.symm, ⟨hbound.1, hbound.2, hp.unused k pa hin, ?_, ?_, hother, hal.takes hp hl⟩, _,
    hal.inv hp hl⟩
  · unfold Phys.InRegion
    rw [hal.div_mul]
    exact hp.bounds k pa hin
  · rw [hal.mem, update_self]

namespace Space

variable {P : Profile} {ph ph' : Phys} {table : Nat} {node : List Nat → Option Nat} {m : PageMap}
  {own : Nat → Entry → Prop} {used : Nat → Prop}

section

variable (h : Space ph table node m own used)
include h

lemma alloc (ha : Pmem.alloc k ph = .ok (pa, ph')) :
    ∃ n, pa = n * PGSIZE ∧ FreshPage ph ph' k n used ∧ Space ph' table node m own (fun x => used x ∨ x = n) := by
  obtain ⟨free, hp⟩ := h.pmem
  obtain ⟨n, hpa, hn, hp'⟩ := Pmem.alloc_fresh hp ha
  refine ⟨n, hpa, hn, ⟨h.tree.congr fun s x hs => hn.other x ?_, hp', fun s x hs => .inl (h.nodes s x hs)⟩,
    fun q e hm ho => .inl (h.leaf q e hm ho), h.unique, h.apart⟩
  rintro rfl
  exact hn.unused (h.nodes s _ hs)

lemma write (hn : used n) (hs : ∀ s, node s ≠ some n)
    (hm : ∀ x, x ≠ n → ph'.mem x = ph.mem x) (hr : ph'.region = ph.region) (hc : ph'.pageRef = ph.pageRef) :
    Space ph' table node m own used ∧ Takes ph ph' used used := by
  obtain ⟨free, hp⟩ := h.pmem
  obtain ⟨htakes, hinv⟩ := Takes.write hp (fun x hx => hm x fun he => hx (he ▸ hn)) hr hc
  refine ⟨⟨⟨h.tree.congr fun s x hx => hm x ?_, ⟨free, hinv⟩, h.nodes⟩, h.leaf, h.unique, h.apart⟩, htakes⟩
  rintro rfl
  exact hs s hx

lemma mapPage (hf : isLeaf flags = true)
    (hq : q < 2 ^ 26) (hn : n < 2 ^ 44) (hne : ∀ e, m q = some e → e.ppn ≠ n)
    (hown : own q (.new n (flags ||| PTE_V)) → used n ∧ (∀ s, node s ≠ some n) ∧
      ∀ q' e, m q' = some e → own q' e → e.ppn ≠ n)
    (he : PageTable.map P table (q * PGSIZE) (n * PGSIZE) PGSIZE flags ph = .ok (b, ph')) :
    b = decide (m q = none) ∧ ∃ node' used', Extends ph ph' node node' used used' ∧
      (m q = none → Space ph' table node' (update m q (some (.new n (flags ||| PTE_V)))) own used') ∧
      (m q ≠ none → Space ph' table node' m own used') := by
  have hva : q * PGSIZE + PGSIZE ≤ VA_MAX := by
    unfold PGSIZE VA_MAX
    omega
  have hpages : PageMap.pages (q * PGSIZE) PGSIZE = 1 := by
    unfold PageMap.pages PGSIZE
    omega
  have hpa : n * PGSIZE / PGSIZE + (PageMap.pages (q * PGSIZE) PGSIZE - 1) ≤ 2 ^ 44 := by
    rw [hpages, div_mul_PGSIZE]
    omega
  obtain ⟨node', used', m', hinv, hext, hmap⟩ := PageTable.map_ok hf hva hpa h.toPtInv he
  have hdiv : ∀ x, x * PGSIZE / PGSIZE = x := fun x => Nat.mul_div_cancel x (by decide)
  have hone : PageMap.mapPages (flags ||| PTE_V) 1 q n m = (m', b) := by
    unfold PageMap.map at hmap
    rwa [if_neg (by decide), hpages, hdiv, hdiv] at hmap
  rw [PageMap.mapPages] at hone
  cases hm : m q with
  | some e =>
    rw [if_neg (fun hacc => hne e hm (hacc e hm))] at hone
    cases hone
    refine ⟨by simp, node', used', hext, fun hnone => (by cases hnone), fun _ => ⟨hinv, fun q' e hm' ho => ?_, h.unique,
      fun q' e s hm' ho hs => ?_⟩⟩
    · exact hext.takes.uses _ (h.leaf q' e hm' ho)
    · rcases hext.fresh s _ hs with hs | hnu
      · exact h.apart q' e s hm' ho hs
      · exact hnu (h.leaf q' e hm' ho)
  | none =>
    have hacc : m.Accepts q n := fun e he' => by rw [hm] at he'; cases he'
    rw [if_pos hacc, PageMap.mapPages] at hone
    cases hone
    have hppn : (Entry.new n (flags ||| PTE_V)).ppn = n := Nat.mod_eq_of_lt (by omega)
    refine ⟨by simp, node', used', hext, fun _ => ⟨hinv, fun q' e hm' ho => ?_, fun q1 q2 e1 e2 h1 h2 ho1 ho2 heq => ?_,
      fun q' e s hm' ho hs => ?_⟩, fun hne => absurd rfl hne⟩
    · by_cases hqq : q' = q
      · subst hqq
        rw [update_self, Option.some.injEq] at hm'
        subst hm'
        rw [hppn]
        exact hext.takes.uses n (hown ho).1
      · rw [update_of_ne hqq] at hm'
        exact hext.takes.uses _ (h.leaf q' e hm' ho)
    · by_cases hq1 : q1 = q
      · by_cases hq2 : q2 = q
        · rw [hq1, hq2]
        · subst hq1
          rw [update_self, Option.some.injEq] at h1
          subst h1
          rw [update_of_ne hq2] at h2
          exact absurd (heq.symm.trans hppn) ((hown ho1).2.2 q2 e2 h2 ho2)
      · rw [update_of_ne hq1] at h1
        by_cases hq2 : q2 = q
        · subst hq2
          rw [update_self, Option.some.injEq] at h2
          subst h2
          exact absurd (heq.trans hppn) ((hown ho2).2.2 q1 e1 h1 ho1)
        · rw [update_of_ne hq2] at h2
          exact h.unique q1 q2 e1 e2 h1 h2 ho1 ho2 heq
    · by_cases hqq : q' = q
      · subst hqq
        rw [update_self, Option.some.injEq] at hm'
        subst hm'
        rw [hppn] at hs
        obtain ⟨hu, hnode, -⟩ := hown ho
        rcases hext.fresh s n hs with hs | hnu
        · exact hnode s hs
        · exact hnu hu
      · rw [update_of_ne hqq] at hm'
        rcases hext.fresh s _ hs with hs | hnu
        · exact h.apart q' e s hm' ho hs
        · exact hnu (h.leaf q' e hm' ho)

section

variable (hf : isLeaf flags = true) (hq : q < 2 ^ 26) (hown : ∀ n, ph.InRegion k n → n < 2 ^ 43 → own q (.new n (flags ||| PTE_V)))
  (hleaf : ∀ e, m q = some e → used e.ppn ∨ ¬ph.InRegion k e.ppn)
include hf hq hown hleaf

lemma growFilled {ph1 ph2 : Phys} (ha : Pmem.alloc k ph = .ok (pa, ph1))
    (hmem : ∀ x, x ≠ pa / PGSIZE → ph2.mem x = ph1.mem x) (hr : ph2.region = ph1.region) (hc : ph2.pageRef = ph1.pageRef)
    (he : PageTable.map P table (q * PGSIZE) pa PGSIZE flags ph2 = .ok (b, ph')) :
    pa ≠ 0 ∧ b = decide (m q = none) ∧ (m q = none → ∃ node' used' n, ph.InRegion k n ∧ n < 2 ^ 43 ∧
      ph'.mem n = ph2.mem (pa / PGSIZE) ∧
      Space ph' table node' (update m q (some (.new n (flags ||| PTE_V)))) own used' ∧
      Grown ph ph' node node' m (update m q (some (.new n (flags ||| PTE_V)))) own used used' (· = q)) := by
  obtain ⟨n, rfl, hn, h1⟩ := h.alloc ha
  have hunused := hn.unused
  have hnode : ∀ s, node s ≠ some n := fun s hs => hunused (h.nodes s n hs)
  rw [Nat.mul_div_cancel _ (show 0 < PGSIZE by decide)] at hmem ⊢
  obtain ⟨h2, hwrite⟩ := h1.write (.inr rfl) hnode hmem hr hc
  obtain ⟨hb, node', used', hext, hspace, -⟩ := h2.mapPage hf hq (hn.lt.trans (by decide))
    (fun e hm heq => by
      rcases hleaf e hm with hu | hreg
      · exact hunused (heq ▸ hu)
      · exact hreg (heq ▸ hn.region))
    (fun _ => ⟨.inr rfl, hnode, fun q' e hm ho heq => hunused (heq ▸ h.leaf q' e hm ho)⟩) he
  have hppn : (Entry.new n (flags ||| PTE_V)).ppn = n := Nat.mod_eq_of_lt (by have := hn.lt; omega)
  have hnode' : ∀ s, node' s ≠ some n := by
    intro s hs
    rcases hext.fresh s n hs with hs | hu
    · exact hnode s hs
    · exact hu (.inr rfl)
  refine ⟨Nat.mul_ne_zero (by have := hn.pos; omega) (by decide), hb, fun hnone => ⟨node', used', n, hn.region, hn.lt,
    hext.mem n hnode', hspace hnone, hext.keeps, fun s x hs => ?_, fun q' hq' => update_of_ne hq' _ _,
    fun q' hq' => ?_, fun x hx => ?_, (hn.takes.trans hwrite).trans hext.takes, fun x hx hs => ?_⟩⟩
  · rcases hext.fresh s x hs with hs | hu
    · exact .inl hs
    · exact .inr fun hx => hu (.inl hx)
  · subst hq'
    exact ⟨hnone, _, update_self .., hown n hn.region hn.lt, by rw [hppn]; exact hunused⟩
  · rcases hext.new x hx with (hx | rfl) | hs
    · exact .inl hx
    · exact .inr (.inr ⟨q, _, rfl, update_self .., hppn⟩)
    · exact .inr (.inl hs)
  · have hne : x ≠ n := fun he => hunused (he ▸ hx)
    rw [hext.mem x hs, hmem x hne, hn.other x hne]

lemma growPage {ph1 : Phys}
    (ha : Pmem.alloc k ph = .ok (pa, ph1)) (he : PageTable.map P table (q * PGSIZE) pa PGSIZE flags ph1 = .ok (b, ph')) :
    pa ≠ 0 ∧ b = decide (m q = none) ∧ (m q = none → ∃ node' used' n, ph.InRegion k n ∧ n < 2 ^ 43 ∧
      (ph'.mem n = fun _ => 0) ∧ Space ph' table node' (update m q (some (.new n (flags ||| PTE_V)))) own used' ∧
      Grown ph ph' node node' m (update m q (some (.new n (flags ||| PTE_V)))) own used used' (· = q)) := by
  obtain ⟨hpa, hb, hgrow⟩ := h.growFilled hf hq hown hleaf ha (fun _ _ => rfl) rfl rfl he
  obtain ⟨x, rfl, hx, -⟩ := h.alloc ha
  refine ⟨hpa, hb, fun hnone => ?_⟩
  obtain ⟨node', used', n, hreg, hlt, hmem, hspace, hgrown⟩ := hgrow hnone
  rw [Nat.mul_div_cancel _ (by decide), hx.zero] at hmem
  exact ⟨node', used', n, hreg, hlt, hmem, hspace, hgrown⟩

end

/-- The pages of a range are unmapped and freed, up to the first one that is not mapped. -/
lemma unmap {p : Nat} (hn : 0 < n) (hva : p + n ≤ 2 ^ 26)
    (hleaf : ∀ q e, p ≤ q → q < p + n → m q = some e → own q e)
    (he : PageTable.unmap P table (p * PGSIZE) (n * PGSIZE) true ph = .ok (b, ph')) :
    ∃ k ≤ n, b = decide (k = n) ∧ (k < n → m (p + k) = none) ∧ ∃ m' used', Space ph' table node m' own used' ∧
      Shrunk ph ph' node m m' own used used' (fun q => p ≤ q ∧ q < p + k) := by
  have hrange : p * PGSIZE + n * PGSIZE ≤ VA_MAX := by
    unfold PGSIZE VA_MAX
    omega
  have hdiv : p * PGSIZE / PGSIZE = p := Nat.mul_div_cancel p (by decide)
  have hpages : PageMap.pages (p * PGSIZE) (n * PGSIZE) = n := by
    unfold PageMap.pages PGSIZE
    omega
  obtain ⟨used', m', hinv, hrel, hmap⟩ := PageTable.unmap_ok hrange h.toPtInv
    (by rw [hdiv, hpages]; exact fun _ q e hq hq' hm s => h.apart q e s hm (hleaf q e hq hq' hm)) he
  have hlen : n * PGSIZE ≠ 0 := Nat.mul_ne_zero (by omega) (by decide)
  unfold PageMap.unmap at hmap
  rw [if_neg hlen, hpages, hdiv] at hmap
  obtain ⟨k, hk, heq, hstop, hmapped⟩ := PageMap.unmapPages_eq n p m
  rw [hmap] at heq
  obtain ⟨hm', hb⟩ := Prod.mk.inj heq
  have hm' : ∀ q, m' q = if p ≤ q ∧ q < p + k then none else m q := fun q => by rw [hm']; rfl
  have hgone : ∀ q, p ≤ q ∧ q < p + k → m' q = none := fun q hq => by rw [hm' q, if_pos hq]
  have hold : ∀ q, ¬(p ≤ q ∧ q < p + k) → m' q = m q := fun q hq => by rw [hm' q, if_neg hq]
  have hfreed : ∀ x, used x → used' x ∨ ∃ q e, (p ≤ q ∧ q < p + k) ∧ m q = some e ∧ e.ppn = x := by
    intro x hx
    rcases hrel.freed x hx with hx | ⟨-, q, e, hq, hq', rfl⟩
    · exact .inl hx
    · refine .inr ⟨q, e, ?_, hq, rfl⟩
      by_contra hr
      rw [hold q hr, hq] at hq'
      cases hq'
  refine ⟨k, hk, hb, hstop, m', used', ⟨hinv, fun q e hq ho => ?_, fun q q' e e' hq hq' => h.unique q q' e e'
    (hrel.sub q e hq) (hrel.sub q' e' hq'), fun q e s hq => h.apart q e s (hrel.sub q e hq)⟩, hold,
    fun q hq => ⟨hgone q hq, ?_⟩, hfreed, fun q e hq hm => hrel.out rfl q e hm (hgone q hq), hrel.gives,
    fun x hx hs => hrel.mem x hs hx⟩
  · have hmq := hrel.sub q e hq
    rcases hfreed _ (h.leaf q e hmq ho) with hu | ⟨q', e', hr, hmq', heq⟩
    · exact hu
    · have hsame := h.unique q q' e e' hmq hmq' ho (hleaf q' e' hr.1 (by omega) hmq') heq.symm
      rw [hsame, hgone q' hr] at hq
      cases hq
  · obtain ⟨e, he⟩ := Option.ne_none_iff_exists'.mp (hmapped q hq.1 hq.2)
    exact ⟨e, he, hleaf q e hq.1 (by omega) he⟩

end

end Space

end Glenda.Mem
