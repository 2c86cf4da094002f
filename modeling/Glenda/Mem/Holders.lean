import Glenda.Mem.AddressSpace

/-!
# Who holds a page

Every page in use is held by one holder: a page table with the pages that its leaves own, or a frame.
`Effect` describes a step that works on the pages `F` of one holder and leaves it with the pages `F'`. It
composes along a series of steps, and `Holding` says that the holders share all pages of both regions with
the free lists.
-/

namespace Glenda.Mem
open Glenda.Lib
open Function (update update_of_ne update_self)

variable {k : Bool} {n pa x : Nat} {own' : Nat → Entry → Prop}

def Phys.Free (ph : Phys) (n : Nat) : Prop := ∃ k, ph.OnFree k (n * PGSIZE)

/-- The page is free or in use, and referenced once if it is in use. -/
def Accounted (ph : Phys) (used : Nat → Prop) (n : Nat) : Prop :=
  (ph.Free n ∨ used n) ∧ (used n → ph.pageRef (pageIndex (n * PGSIZE)) = 1)

structure Effect (ph ph' : Phys) (F F' used used' : Nat → Prop) : Prop where
  used_iff : ∀ n, used' n ↔ F' n ∨ (used n ∧ ¬F n)
  fresh : ∀ n, F' n → F n ∨ ¬used n
  mem : ∀ n, used n → ¬F n → ph'.mem n = ph.mem n
  region : ph.SameBounds ph'
  accounts : ∀ k n, PHY_MEM_START ≤ n * PGSIZE → ph.InRegion k n → Accounted ph used n → Accounted ph' used' n

namespace Effect

variable {ph ph' ph'' : Phys} {F F' F'' L used used' used'' : Nat → Prop}

lemma refl (h : ∀ n, F n → used n) : Effect ph ph F F used used := by
  refine ⟨fun n => ⟨fun hn => ?_, fun hn => ?_⟩, fun _ h => .inl h, fun _ _ _ => rfl, .refl ph, fun _ _ _ _ h => h⟩
  · by_cases hF : F n
    · exact .inl hF
    · exact .inr ⟨hn, hF⟩
  · rcases hn with hn | hn
    · exact h n hn
    · exact hn.1

lemma trans (h : Effect ph ph' F F' used used') (h' : Effect ph' ph'' F' F'' used' used'') :
    Effect ph ph'' F F'' used used'' := by
  have hout : ∀ n, used n → ¬F n → used' n ∧ ¬F' n := by
    intro n hn hF
    refine ⟨(h.used_iff n).mpr (.inr ⟨hn, hF⟩), fun hF' => ?_⟩
    rcases h.fresh n hF' with hF' | hu
    · exact hF hF'
    · exact hu hn
  refine ⟨fun n => ?_, fun n hn => ?_, fun n hn hF => ?_, h.region.trans h'.region, fun k n hlow hk ha => ?_⟩
  · rw [h'.used_iff n]
    constructor
    · rintro (hF | ⟨hu, hF⟩)
      · exact .inl hF
      · exact .inr (((h.used_iff n).mp hu).resolve_left hF)
    · rintro (hF | ⟨hu, hF⟩)
      · exact .inl hF
      · exact .inr (hout n hu hF)
  · rcases h'.fresh n hn with hF | hu
    · exact h.fresh n hF
    · by_contra hcon
      rw [not_or, not_not] at hcon
      exact hu ((h.used_iff n).mpr (.inr ⟨hcon.2, hcon.1⟩))
  · obtain ⟨hu, hF'⟩ := hout n hn hF
    rw [h'.mem n hu hF', h.mem n hn hF]
  · exact h'.accounts k n hlow (h.region.inRegion.mpr hk) (h.accounts k n hlow hk ha)

lemma union (h : Effect ph ph' F F' used used') (hL : ∀ n, L n → used n ∧ ¬F n) :
    Effect ph ph' (fun n => F n ∨ L n) (fun n => F' n ∨ L n) used used' := by
  refine ⟨fun n => ?_, fun n hn => ?_, fun n hn hF => h.mem n hn fun hF' => hF (.inl hF'), h.region, h.accounts⟩
  · rw [h.used_iff n]
    constructor
    · rintro (hF | ⟨hu, hF⟩)
      · exact .inl (.inl hF)
      · by_cases hl : L n
        · exact .inl (.inr hl)
        · exact .inr ⟨hu, fun hc => hc.elim hF hl⟩
    · rintro ((hF | hl) | ⟨hu, hF⟩)
      · exact .inl hF
      · exact .inr (hL n hl)
      · exact .inr ⟨hu, fun hc => hF (.inl hc)⟩
  · rcases hn with hn | hn
    · exact (h.fresh n hn).imp .inl id
    · exact .inl (.inr hn)

lemma congr {G G' : Nat → Prop} (h : Effect ph ph' F F' used used') (hF : ∀ n, F n ↔ G n) (hF' : ∀ n, F' n ↔ G' n) :
    Effect ph ph' G G' used used' := by
  obtain rfl : F = G := funext fun n => propext (hF n)
  obtain rfl : F' = G' := funext fun n => propext (hF' n)
  exact h

lemma of_takes (h : Takes ph ph' used used') (hkeep : ∀ n, F n → F' n)
    (hfresh : ∀ n, F' n → F n ∨ ¬used n) (hnew : ∀ n, used' n → used n ∨ F' n) (hsub : ∀ n, F' n → used' n)
    (hmem : ∀ n, used n → ¬F n → ph'.mem n = ph.mem n) : Effect ph ph' F F' used used' := by
  refine ⟨fun n => ⟨fun hn => ?_, fun hn => ?_⟩, hfresh, hmem, h.region, fun k n _ _ ha => ⟨?_, fun hn => ?_⟩⟩
  · rcases hnew n hn with hu | hF
    · by_cases hF : F n
      · exact .inl (hkeep n hF)
      · exact .inr ⟨hu, hF⟩
    · exact .inl hF
  · rcases hn with hF | ⟨hu, -⟩
    · exact hsub n hF
    · exact h.uses n hu
  · rcases ha.1 with ⟨j, hj⟩ | hu
    · rcases h.conserve j _ hj with hj | hu
      · exact .inl ⟨j, hj⟩
      · rw [Nat.mul_div_cancel _ (by decide)] at hu
        exact .inr hu
    · exact .inr (h.uses n hu)
  · rcases h.fresh n hn with hu | ⟨-, hr⟩
    · have hone := ha.2 hu
      rw [h.ref _ (by omega), hone]
    · exact hr

lemma of_gives (h : Gives ph ph' used used') (hsub : ∀ n, F' n → F n) (hused : ∀ n, F' n → used' n)
    (hkeep : ∀ n, used n → ¬F n → used' n) (hleft : ∀ n, used' n → F n → F' n)
    (hmem : ∀ n, used n → ¬F n → ph'.mem n = ph.mem n) : Effect ph ph' F F' used used' := by
  refine ⟨fun n => ⟨fun hn => ?_, fun hn => ?_⟩, fun n hn => .inl (hsub n hn), hmem, h.region,
    fun k n hlow _ ha => ⟨?_, fun hn => ?_⟩⟩
  · by_cases hF : F n
    · exact .inl (hleft n hn hF)
    · exact .inr ⟨h.uses n hn, hF⟩
  · rcases hn with hF | ⟨hu, hF⟩
    · exact hused n hF
    · exact hkeep n hu hF
  · rcases ha.1 with ⟨j, hj⟩ | hu
    · exact .inl ⟨j, h.grows j _ hj⟩
    · by_cases hu' : used' n
      · exact .inr hu'
      · exact .inl (h.freed n hlow hu hu' (ha.2 hu))
  · rw [h.ref n hlow hn]
    exact ha.2 (h.uses n hn)

lemma write {free : Bool → List Nat} (hp : PmemInv ph free used) (hF : ∀ n, F n → used n)
    (hm : ∀ n, ¬F n → ph'.mem n = ph.mem n) (hr : ph'.region = ph.region) (hc : ph'.pageRef = ph.pageRef) :
    Effect ph ph' F F used used ∧ PmemInv ph' free used := by
  obtain ⟨htakes, hinv⟩ := Takes.write hp (fun n hn => hm n fun hF' => hn (hF n hF')) hr hc
  exact ⟨.of_takes htakes (fun _ h => h) (fun _ h => .inl h) (fun _ h => .inl h) hF fun n _ hn => hm n hn, hinv⟩

lemma alloc (h : FreshPage ph ph' k n used) :
    Effect ph ph' (fun _ => False) (· = n) used (fun x => used x ∨ x = n) := by
  refine .of_takes h.takes (fun _ hF => hF.elim) ?_ (fun _ hu => hu) (fun _ hx => .inr hx) ?_
  · rintro x rfl
    exact .inr h.unused
  · rintro x hx -
    refine h.other x ?_
    rintro rfl
    exact h.unused hx

end Effect

lemma Pmem.free_effect {ph ph' : Phys} {u : Unit} {used : Nat → Prop} {free : Bool → List Nat}
    (hp : PmemInv ph free used) (he : Pmem.free (n * PGSIZE) ph = .ok (u, ph')) :
    ∃ used' free', Effect ph ph' (· = n) (fun _ => False) used used' ∧ PmemInv ph' free' used' := by
  obtain ⟨k, hf⟩ := Pmem.free_ok he
  obtain ⟨hgives, free', hinv⟩ := hf.gives hp
  have hdiv : n * PGSIZE / PGSIZE = n := Nat.mul_div_cancel _ (by decide)
  rw [hdiv] at hgives hinv
  refine ⟨_, free', .of_gives hgives (fun _ h => h.elim) (fun _ h => h.elim) (fun x hx hne => ⟨hx, hne⟩)
    (fun x hx he => hx.2 he) fun x _ hx => hf.mem_other ?_, hinv⟩
  rw [hdiv]
  exact hx

lemma PmemInv.le_of_inRegion {ph : Phys} {free : Bool → List Nat} {used : Nat → Prop}
    (h : PmemInv ph free used) (hn : ph.InRegion k n) : PHY_MEM_START ≤ n * PGSIZE := by
  have hlow := h.lower
  have hsplit := h.split
  have hin := hn.1
  cases k
  · omega
  · omega

/-! ### Tables as holders -/

namespace Space

variable {ph ph' : Phys} {table : Nat} {node node' : List Nat → Option Nat} {m m' : PageMap}
  {own : Nat → Entry → Prop} {used used' F F' S : Nat → Prop}

/-- The pages of the tables and those that leaves own. -/
def foot (node : List Nat → Option Nat) (m : PageMap) (own : Nat → Entry → Prop) (n : Nat) : Prop :=
  (∃ s, node s = some n) ∨ ∃ q e, m q = some e ∧ own q e ∧ e.ppn = n

lemma foot_used (h : Space ph table node m own used) (n : Nat) (hn : foot node m own n) : used n := by
  rcases hn with ⟨s, hs⟩ | ⟨q, e, hm, ho, rfl⟩
  · exact h.nodes s n hs
  · exact h.leaf q e hm ho

lemma grown (h' : Space ph' table node' m' own used')
    (hg : Grown ph ph' node node' m m' own used used' S) :
    Effect ph ph' (foot node m own) (foot node' m' own) used used' := by
  refine .of_takes hg.takes (fun n hn => ?_) (fun n hn => ?_) (fun n hn => ?_) h'.foot_used
    fun n hn hF => hg.mem n hn fun s hs => ?_
  · rcases hn with ⟨s, hs⟩ | ⟨q, e, hm, ho, rfl⟩
    · exact .inl ⟨s, hg.keeps s n hs⟩
    · refine .inr ⟨q, e, ?_, ho, rfl⟩
      rw [hg.old q fun hq => ?_, hm]
      rw [(hg.new q hq).1] at hm
      cases hm
  · rcases hn with ⟨s, hs⟩ | ⟨q, e, hm, ho, rfl⟩
    · exact (hg.fresh s n hs).imp (fun hs => .inl ⟨s, hs⟩) id
    · by_cases hq : S q
      · obtain ⟨-, e', hm', -, hu⟩ := hg.new q hq
        rw [hm] at hm'
        cases hm'
        exact .inr hu
      · rw [hg.old q hq] at hm
        exact .inl (.inr ⟨q, e, hm, ho, rfl⟩)
  · rcases hg.cause n hn with hu | hs | ⟨q, e, hq, hm, rfl⟩
    · exact .inl hu
    · exact .inr (.inl hs)
    · obtain ⟨-, e', hm', ho, -⟩ := hg.new q hq
      rw [hm] at hm'
      cases hm'
      exact .inr (.inr ⟨q, e, hm, ho, rfl⟩)
  · rcases hg.fresh s n hs with hs | hu
    · exact hF (.inl ⟨s, hs⟩)
    · exact hu hn

lemma shared (h' : Space ph' table node' m' own used')
    (he : Extends ph ph' node node' used used') (hm : ∀ q e, own q e → (m' q = some e ↔ m q = some e)) :
    Effect ph ph' (foot node m own) (foot node' m' own) used used' := by
  refine .of_takes he.takes (fun n hn => ?_) (fun n hn => ?_) (fun n hn => (he.new n hn).imp id .inl) h'.foot_used
    fun n hn hF => he.mem n fun s hs => ?_
  · rcases hn with ⟨s, hs⟩ | ⟨q, e, hq, ho, rfl⟩
    · exact .inl ⟨s, he.keeps s n hs⟩
    · exact .inr ⟨q, e, (hm q e ho).mpr hq, ho, rfl⟩
  · rcases hn with ⟨s, hs⟩ | ⟨q, e, hq, ho, rfl⟩
    · exact (he.fresh s n hs).imp (fun hs => .inl ⟨s, hs⟩) id
    · exact .inl (.inr ⟨q, e, (hm q e ho).mp hq, ho, rfl⟩)
  · rcases he.fresh s n hs with hs | hu
    · exact hF (.inl ⟨s, hs⟩)
    · exact hu hn

lemma shrunk (h' : Space ph' table node m' own used')
    (hg : Shrunk ph ph' node m m' own used used' S) :
    Effect ph ph' (foot node m own) (foot node m' own) used used' := by
  have hkeep : ∀ n, used n → ¬foot node m own n → used' n := by
    intro n hn hF
    rcases hg.freed n hn with hu | ⟨q, e, hq, hm, rfl⟩
    · exact hu
    · obtain ⟨-, e', hm', ho⟩ := hg.gone q hq
      rw [hm] at hm'
      cases hm'
      exact absurd (.inr ⟨q, e, hm, ho, rfl⟩) hF
  refine .of_gives hg.gives (fun n hn => ?_) h'.foot_used hkeep (fun n hn hF => ?_)
    fun n hn hF => hg.mem n (hkeep n hn hF) fun s hs => hF (.inl ⟨s, hs⟩)
  · rcases hn with hs | ⟨q, e, hm, ho, rfl⟩
    · exact .inl hs
    · by_cases hq : S q
      · rw [(hg.gone q hq).1] at hm
        cases hm
      · rw [hg.old q hq] at hm
        exact .inr ⟨q, e, hm, ho, rfl⟩
  · rcases hF with hs | ⟨q, e, hm, ho, rfl⟩
    · exact .inl hs
    · refine .inr ⟨q, e, ?_, ho, rfl⟩
      rw [hg.old q fun hq => ?_, hm]
      exact hg.out q e hq hm hn

lemma growRefused {P : Profile} {b : Bool} {q flags : Nat} {ph1 ph2 : Phys} (h : Space ph table node m own used)
    (hf : isLeaf flags = true) (hq : q < 2 ^ 26) (hm : m q ≠ none)
    (hleaf : ∀ e, m q = some e → used e.ppn ∨ ¬ph.InRegion k e.ppn) (ha : Pmem.alloc k ph = .ok (pa, ph1))
    (hmem : ∀ x, x ≠ pa / PGSIZE → ph2.mem x = ph1.mem x) (hr : ph2.region = ph1.region) (hc : ph2.pageRef = ph1.pageRef)
    (he : PageTable.map P table (q * PGSIZE) pa PGSIZE flags ph2 = .ok (b, ph')) :
    ∃ node' used' n, Space ph' table node' m own used' ∧
      Effect ph ph' (foot node m own) (fun x => foot node' m own x ∨ x = n) used used' ∧
      ∃ j, ph.OnFree j (n * PGSIZE) ∧ ¬ph'.OnFree j (n * PGSIZE) := by
  obtain ⟨n, rfl, hn, h1⟩ := h.alloc ha
  have hunused := hn.unused
  have hnode : ∀ s, node s ≠ some n := fun s hs => hunused (h.nodes s n hs)
  have hfoot : ∀ x, foot node m own x → x ≠ n := fun x hx he => hunused (he ▸ h.foot_used x hx)
  rw [Nat.mul_div_cancel _ (show 0 < PGSIZE by decide)] at hmem
  obtain ⟨h2, -⟩ := h1.write (.inr rfl) hnode hmem hr hc
  obtain ⟨free, hp⟩ := h1.pmem
  obtain ⟨hwrite, -⟩ := Effect.write hp (F := (· = n)) (fun x hx => .inr hx) hmem hr hc
  obtain ⟨-, node', used', hext, -, hspace⟩ := h2.mapPage hf hq (hn.lt.trans (by decide))
    (fun e hm' heq => by
      rcases hleaf e hm' with hu | hreg
      · exact hunused (heq ▸ hu)
      · exact hreg (heq ▸ hn.region))
    (fun _ => ⟨.inr rfl, hnode, fun q' e hm' ho heq => hunused (heq ▸ h.leaf q' e hm' ho)⟩) he
  have hmap := (hspace hm).shared hext fun _ _ _ => Iff.rfl
  have hnew := (((Effect.alloc hn).trans hwrite).union (L := foot node m own)
    fun x hx => ⟨h.foot_used x hx, id⟩).congr (fun x => by rw [false_or]) fun x => or_comm
  refine ⟨node', used', n, hspace hm, hnew.trans (hmap.union fun x hx => ⟨.inr hx, fun hF => hfoot x hF hx⟩), ?_⟩
  obtain ⟨⟨j, hj⟩, -⟩ := (hn.takes.fresh n (.inr rfl)).resolve_left hunused
  refine ⟨j, hj, fun hj' => ?_⟩
  obtain ⟨free', hp'⟩ := (hspace hm).pmem
  have hnot := hp'.unused j _ (hp'.onFree_iff.mp hj')
  rw [Nat.mul_div_cancel _ (by decide)] at hnot
  exact hnot (hext.takes.uses n (.inr rfl))

/-- The paths of a table without other tables. -/
def rootNode (n : Nat) : List Nat → Option Nat := Function.update (fun _ => none) [] (some n)

lemma rootNode_eq_some {s : List Nat} : rootNode n s = some x ↔ s = [] ∧ x = n := by
  unfold rootNode
  by_cases hs : s = []
  · subst hs
    simp [eq_comm]
  · simp [hs]

lemma foot_rootNode : foot (rootNode n) (fun _ => none) own x ↔ x = n := by
  unfold foot
  simp [rootNode_eq_some]

lemma root {free : Bool → List Nat} (hp : PmemInv ph free used) (hn : used n) (hz : ph.mem n = fun _ => 0) :
    Space ph n (rootNode n) (fun _ => none) own used := by
  have htree : Tree ph.mem n (rootNode n) fun _ => none := by
    refine ⟨by simp [rootNode], fun s i x hs => ?_, fun s s' x hs hs' => ?_, fun s x hs hlen i hi => ?_,
      fun s x hs hlen i hi => ?_, fun _ _ h => by cases h⟩
    · simp [rootNode_eq_some] at hs
    · rw [(rootNode_eq_some.mp hs).1, (rootNode_eq_some.mp hs').1]
    · rw [(rootNode_eq_some.mp hs).2, hz, rootNode, update_of_ne (by simp)]
      rfl
    · rw [(rootNode_eq_some.mp hs).1] at hlen
      cases hlen
  refine ⟨⟨htree, ⟨free, hp⟩, fun s x hs => ?_⟩, fun _ _ h => (by cases h), fun _ _ _ _ h => (by cases h),
    fun _ _ _ h => (by cases h)⟩
  rwa [(rootNode_eq_some.mp hs).2]

lemma allocRoot (own : Nat → Entry → Prop) {ph1 : Phys} {free : Bool → List Nat} (hp : PmemInv ph free used)
    (ha : Pmem.alloc k ph = .ok (pa, ph1)) :
    ∃ n used', pa = n * PGSIZE ∧ ph.InRegion k n ∧ n < 2 ^ 43 ∧ 0 < n ∧
      Space (ph1.zeroPage n) n (rootNode n) (fun _ => none) own used' ∧
      Effect ph (ph1.zeroPage n) (fun _ => False) (foot (rootNode n) (fun _ => none) own) used used' := by
  obtain ⟨n, rfl, hn, free', hp'⟩ := Pmem.alloc_fresh hp ha
  have hmem : ∀ x, x ≠ n → (ph1.zeroPage n).mem x = ph1.mem x := fun x hx => update_of_ne hx _ _
  obtain ⟨heff, hp''⟩ := Effect.write hp' (F := (· = n)) (fun x hx => .inr hx) hmem rfl rfl
  refine ⟨n, _, rfl, hn.region, hn.lt, hn.pos, root hp'' (.inr rfl) (update_self ..), ?_⟩
  exact ((Effect.alloc hn).trans heff).congr (fun _ => Iff.rfl) fun x => foot_rootNode.symm

lemma frame (h : Space ph table node m own used) (he : Effect ph ph' F F' used used')
    (hd : ∀ n, foot node m own n → ¬F n) (hp : ∃ free, PmemInv ph' free used') : Space ph' table node m own used' := by
  have hused : ∀ n, foot node m own n → used' n := by
    intro n hn
    exact (he.used_iff n).mpr (.inr ⟨h.foot_used n hn, hd n hn⟩)
  refine ⟨⟨h.tree.congr fun s n hs => he.mem n (h.nodes s n hs) (hd n (.inl ⟨s, hs⟩)), hp,
    fun s n hs => hused n (.inl ⟨s, hs⟩)⟩, fun q e hm ho => hused _ (.inr ⟨q, e, hm, ho, rfl⟩), h.unique, h.apart⟩

/-- The predicate that says which leaves own their pages may change where there is no leaf. -/
lemma congr_own (h : Space ph table node m own used)
    (ho : ∀ q e, m q = some e → (own' q e ↔ own q e)) : Space ph table node m own' used := by
  refine ⟨h.toPtInv, fun q e hm hq => h.leaf q e hm ((ho q e hm).mp hq), fun q q' e e' hm hm' hq hq' =>
    h.unique q q' e e' hm hm' ((ho q e hm).mp hq) ((ho q' e' hm').mp hq'), fun q e s hm hq =>
    h.apart q e s hm ((ho q e hm).mp hq)⟩

lemma foot_congr (ho : ∀ q e, m q = some e → (own' q e ↔ own q e)) (n : Nat) :
    foot node m own' n ↔ foot node m own n := by
  unfold foot
  refine or_congr_right (exists_congr fun q => exists_congr fun e => ?_)
  constructor
  · rintro ⟨hm, hq, he⟩
    exact ⟨hm, (ho q e hm).mp hq, he⟩
  · rintro ⟨hm, hq, he⟩
    exact ⟨hm, (ho q e hm).mpr hq, he⟩

lemma maximal (h : Space ph table node m own used) : Space ph table node m own fun n => ¬ph.Free n := by
  obtain ⟨free, hp⟩ := h.pmem
  have hnot : ∀ n, used n → ¬ph.Free n := by
    rintro n hn ⟨j, hj⟩
    have hunused := hp.unused j _ (hp.onFree_iff.mp hj)
    rw [div_mul_PGSIZE] at hunused
    exact hunused hn
  have hp' : PmemInv ph free fun n => ¬ph.Free n := by
    refine ⟨hp.chain, hp.nodup, hp.aligned, hp.bounds, hp.ref, fun j a ha hn => hn ⟨j, ?_⟩, hp.lower, hp.split⟩
    rw [Nat.div_mul_cancel (Nat.dvd_of_mod_eq_zero (hp.aligned j a ha))]
    exact hp.onFree_iff.mpr ha
  exact ⟨⟨h.tree, ⟨free, hp'⟩, fun s n hs => hnot n (h.nodes s n hs)⟩, fun q e hm ho => hnot _ (h.leaf q e hm ho), h.unique,
    h.apart⟩

end Space

/-! ### All holders -/

structure Holding {ι : Type} (ph : Phys) (foot : ι → Nat → Prop) (used : Nat → Prop) : Prop where
  pmem : ∃ free, PmemInv ph free used
  used_iff : ∀ n, used n ↔ ∃ i, foot i n
  apart : ∀ i j n, foot i n → foot j n → i = j
  accounted : ∀ k n, ph.InRegion k n → Accounted ph used n

namespace Holding

variable {ι : Type} {ph ph' : Phys} {foot : ι → Nat → Prop} {used used' F' : Nat → Prop} {i : ι}

lemma lower (h : Holding ph foot used) (hk : ph.InRegion k n) : PHY_MEM_START ≤ n * PGSIZE := by
  obtain ⟨free, hp⟩ := h.pmem
  exact hp.le_of_inRegion hk

variable [DecidableEq ι]

lemma step (h : Holding ph foot used) (he : Effect ph ph' (foot i) F' used used')
    (hp : ∃ free, PmemInv ph' free used') : Holding ph' (update foot i F') used' := by
  have hother : ∀ j n, j ≠ i → foot j n → ¬F' n := by
    intro j n hj hn hF
    rcases he.fresh n hF with hi | hu
    · exact hj (h.apart j i n hn hi)
    · exact hu ((h.used_iff n).mpr ⟨j, hn⟩)
  refine ⟨hp, fun n => ?_, fun j l n hj hl => ?_, fun k n hk => ?_⟩
  · rw [he.used_iff n]
    constructor
    · rintro (hF | ⟨hu, hF⟩)
      · exact ⟨i, by rwa [update_self]⟩
      · obtain ⟨j, hj⟩ := (h.used_iff n).mp hu
        refine ⟨j, ?_⟩
        rwa [update_of_ne]
        rintro rfl
        exact hF hj
    · rintro ⟨j, hj⟩
      by_cases hji : j = i
      · subst hji
        rw [update_self] at hj
        exact .inl hj
      · rw [update_of_ne hji] at hj
        exact .inr ⟨(h.used_iff n).mpr ⟨j, hj⟩, fun hi => hji (h.apart j i n hj hi)⟩
  · by_cases hji : j = i
    · subst hji
      rw [update_self] at hj
      by_cases hlj : l = j
      · exact hlj.symm
      · rw [update_of_ne hlj] at hl
        exact absurd hj (hother l n hlj hl)
    · rw [update_of_ne hji] at hj
      by_cases hli : l = i
      · subst hli
        rw [update_self] at hl
        exact absurd hl (hother j n hji hj)
      · rw [update_of_ne hli] at hl
        exact h.apart j l n hj hl
  · have hk' := he.region.inRegion.mp hk
    exact he.accounts k n (h.lower hk') hk' (h.accounted k n hk')

lemma swap (h : Holding ph foot used) (i j : ι) : Holding ph (foot ∘ Equiv.swap i j) used := by
  refine ⟨h.pmem, fun n => ?_, fun a b n ha hb => ?_, h.accounted⟩
  · rw [h.used_iff n]
    constructor
    · rintro ⟨a, ha⟩
      exact ⟨Equiv.swap i j a, by simpa using ha⟩
    · rintro ⟨a, ha⟩
      exact ⟨_, ha⟩
  · exact (Equiv.swap i j).injective (h.apart _ _ n ha hb)

end Holding

end Glenda.Mem
