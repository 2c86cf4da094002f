import Glenda.Lib.Ends
import Glenda.Mem.Holders
import Glenda.Mem.PageTableCopy
import Glenda.Mem.PageTableDestroy
import Glenda.Mem.PageTableRuns

/-!
# Copying a page table

`copy` builds a second table. A user page is copied to a new page of the user region and a data page of the
kernel to a new page of the kernel region, while a code page of the kernel is shared. The copy takes fresh pages
only, so the first table is read unchanged to the end.
-/

namespace Glenda.Mem
open Glenda.Lib
open Function (update update_of_ne update_self)

variable {e : Entry} {n q i j : Nat}

def Entry.Exec (e : Entry) : Prop := e.flags.testBit 3 = true

/-- What stands in the copy for an entry of the first table. -/
inductive CopyOf (ph ph' : Phys) : Option Entry → Option Entry → Prop
  | none : CopyOf ph ph' none none
  | page {e : Entry} {n : Nat} (k : Bool) (hk : e.User ∧ k = false ∨ ¬e.User ∧ ¬e.Exec ∧ k = true)
      (hin : ph.InRegion k e.ppn) (hnew : ph.InRegion k n) (hlt : n < 2 ^ 43) (hmem : ph'.mem n = ph.mem e.ppn) :
      CopyOf ph ph' (some e) (some ⟨n, e.flags⟩)
  | shared {e : Entry} (hu : ¬e.User) (hx : e.Exec) : CopyOf ph ph' (some e) (some e)
  | skipped {e : Entry} (h : e.User ∧ ¬ph.InRegion false e.ppn ∨ ¬e.User ∧ ¬e.Exec ∧ ¬ph.InRegion true e.ppn) :
      CopyOf ph ph' (some e) none

/-- What the entries of the first table have to satisfy, for a copy that owns the pages of the leaves `own`. -/
structure Copyable (ph : Phys) (m : PageMap) (used : Nat → Prop) (own : Nat → Entry → Prop) : Prop where
  low : ∀ q e, m q = some e → q < 2 ^ 26
  inUse : ∀ q e k, m q = some e → ph.InRegion k e.ppn → used e.ppn
  page : ∀ q e k n, m q = some e → e.User ∧ k = false ∨ ¬e.User ∧ ¬e.Exec ∧ k = true → ph.InRegion k n → own q ⟨n, e.flags⟩
  code : ∀ q e, m q = some e → ¬e.User → e.Exec → ¬own q e

lemma and_two_pow_ne_zero (x i : Nat) : x &&& 2 ^ i ≠ 0 ↔ x.testBit i = true := by
  rw [ne_eq, Nat.and_two_pow]
  cases x.testBit i <;> simp

lemma Entry.user_iff (e : Entry) : e.flags &&& PTE_U ≠ 0 ↔ e.User := and_two_pow_ne_zero _ 4

lemma Entry.exec_iff (e : Entry) : e.flags &&& PTE_X ≠ 0 ↔ e.Exec := and_two_pow_ne_zero _ 3

lemma getFlags_encLeaf (h : e.WF) : getFlags (encLeaf (some e)) = e.flags :=
  (Nat.and_two_pow_sub_one_eq_mod _ 10).trans h.mod

lemma Entry.WF.new_eq (h : e.WF) (hn : n < 2 ^ 44) :
    Entry.new n (e.flags ||| PTE_V) = ⟨n, e.flags⟩ := by
  have hv := h.valid
  rw [isValid_eq] at hv
  have hor : e.flags ||| PTE_V = e.flags := by
    apply Nat.eq_of_testBit_eq
    intro i
    rw [Nat.testBit_or, show PTE_V = 2 ^ 0 from rfl, Nat.testBit_two_pow]
    by_cases hi : i = 0
    · simp [hi, hv]
    · have hne : ¬0 = i := fun h => hi h.symm
      simp [hne]
  unfold Entry.new
  rw [hor, Nat.mod_eq_of_lt h.flags, Nat.mod_eq_of_lt hn]

namespace PageTable

lemma forOk_range {σ ε : Type} {f : Nat → K σ (Except ε Unit)} {I : Nat → σ → Prop} {E : Panic → Prop} {s : σ}
    (hstep : ∀ i s, i < n → I i s → (f i).Ends s E fun r s' => r = .ok () ∧ I (i + 1) s') (h0 : I 0 s) :
    (forOk f (List.range n)).Ends s E fun r s' => r = .ok () ∧ I n s' := by
  have hgen : ∀ (k a : Nat) (s : σ), a + k = n → I a s →
      (forOk f (List.range' a k)).Ends s E fun r s' => r = .ok () ∧ I n s' := by
    intro k
    induction k with
    | zero =>
      intro a s hak hI
      exact .pure ⟨rfl, by rwa [show n = a by omega]⟩
    | succ k ih =>
      intro a s hak hI
      rw [List.range'_succ, forOk]
      refine .bind (hstep a s (by omega) hI) fun r s1 _ hr => ?_
      obtain ⟨rfl, hI1⟩ := hr
      exact ih (a + 1) s1 (by omega) hI1
  rw [List.range_eq_range']
  exact hgen n 0 s (by omega) h0

/-- The copy owns its pages in both regions. -/
def inRegions (ph : Phys) (_ : Nat) (e : Entry) : Prop := ∃ k, ph.InRegion k e.ppn

/-- The copy after the pages `S` have been treated. -/
structure Copying (ph ph' : Phys) (m : PageMap) (used : Nat → Prop) (own : Nat → Entry → Prop) (dst : Nat) (S : Nat → Prop)
    (node' : List Nat → Option Nat) (m' : PageMap) (used' : Nat → Prop) : Prop where
  space : Space ph' dst node' m' own used'
  effect : Effect ph ph' (fun _ => False) (Space.foot node' m' own) used used'
  done : ∀ q, S q → CopyOf ph ph' (m q) (m' q)
  todo : ∀ q, ¬S q → m' q = none

/-- A part of `copy` has treated the pages `S` and meets no error. -/
def Treated (ph : Phys) (m : PageMap) (used : Nat → Prop) (own : Nat → Entry → Prop) (dst : Nat) (S : Nat → Prop)
    (r : Except UvmError Unit) (ph' : Phys) : Prop :=
  r = .ok () ∧ ∃ node' m' used', Copying ph ph' m used own dst S node' m' used'

variable {P : Profile} {ph ph₁ ph₂ : Phys} {table dst : Nat} {node node' : List Nat → Option Nat} {m m' : PageMap}
  {own own' : Nat → Entry → Prop} {used used' : Nat → Prop} {S S' : Nat → Prop}

section

variable (h : Copying ph ph₁ m used own dst S node' m' used')
include h

lemma Copying.skip (hS : ∀ q, S' q → S q ∨ ¬S q ∧ CopyOf ph ph₁ (m q) none)
    (hsub : ∀ q, S q → S' q) : Copying ph ph₁ m used own dst S' node' m' used' := by
  refine ⟨h.space, h.effect, fun q hq => ?_, fun q hq => h.todo q fun hS' => hq (hsub q hS')⟩
  rcases hS q hq with hq | ⟨hq, hcopy⟩
  · exact h.done q hq
  · rwa [h.todo q hq]

lemma Copying.mem (hn : used n) : ph₁.mem n = ph.mem n :=
  h.effect.mem n hn id

lemma Copying.stays (hn : used n) : used' n :=
  (h.effect.used_iff n).mpr (.inr ⟨hn, id⟩)

end

lemma Copying.extend {e' : Entry} {node'' : List Nat → Option Nat} {used'' : Nat → Prop} (hm : Copyable ph m used own)
    (h : Copying ph ph₁ m used own dst S node' m' used')
    (hspace : Space ph₂ dst node'' (update m' q (some e')) own used'')
    (heff : Effect ph₁ ph₂ (Space.foot node' m' own) (Space.foot node'' (update m' q (some e')) own) used' used'')
    (hmem : ∀ n, used' n → (∀ s, node'' s ≠ some n) → ph₂.mem n = ph₁.mem n)
    (hcopy : CopyOf ph ph₂ (m q) (some e')) :
    Treated ph m used own dst (fun x => S x ∨ x = q) (.ok ()) ph₂ := by
  refine ⟨rfl, node'', _, used'', hspace, h.effect.trans heff, fun x hx => ?_, fun x hx => ?_⟩
  · by_cases hxq : x = q
    · rw [hxq, update_self]
      exact hcopy
    · have hold : update m' q (some e') x = m' x := update_of_ne hxq _ _
      rw [hold]
      have hdone := h.done x (hx.resolve_right hxq)
      generalize hmx : m x = a at hdone
      generalize hmx' : m' x = b at hdone
      cases hdone with
      | none => exact .none
      | page k hk hin hnew hlt hcont =>
        refine .page k hk hin hnew hlt ?_
        have hown := hm.page x _ k _ hmx hk hnew
        rw [hmem _ (h.space.leaf x _ hmx' hown) fun s => hspace.apart x _ s (hold.trans hmx') hown, hcont]
      | shared hu hx => exact .shared hu hx
      | skipped hs => exact .skipped hs
  · rw [not_or] at hx
    rw [update_of_ne hx.2, h.todo x hx.1]

lemma Copying.skipPage (h : Copying ph ph₁ m used own dst S node' m' used') (hq : ¬S q) (hc : CopyOf ph ph₁ (m q) none) :
    Treated ph m used own dst (fun x => S x ∨ x = q) (.ok ()) ph₁ := by
  refine ⟨rfl, node', m', used', h.skip (fun x hx => ?_) fun x hx => .inl hx⟩
  rcases hx with hx | rfl
  · exact .inl hx
  · exact .inr ⟨hq, hc⟩

section Parent

variable (hm : Copyable ph m used own)
include hm

section

variable (h : Copying ph ph₁ m used own dst S node' m' used') (hq : ¬S q) (hqe : m q = some e) (hwf : e.WF)
include h hq hqe hwf

lemma copyPage_ends {k : Bool} (hk : e.User ∧ k = false ∨ ¬e.User ∧ ¬e.Exec ∧ k = true)
    (hin : ph.InRegion k e.ppn) :
    (copyPage P k dst (e.ppn * PGSIZE) (q * PGSIZE) e.flags).Ends ph₁ (· ∈ Pmem.allocErrors)
      (Treated ph m used own dst fun x => S x ∨ x = q) := by
  have hnone := h.todo q hq
  have hlow := hm.low q e hqe
  unfold copyPage
  refine .bind (Q := fun _ _ => True) ⟨fun e he => Pmem.alloc_error he, fun _ _ _ => trivial⟩ fun pa ph3 ha _ => ?_
  obtain ⟨free, hp⟩ := h.space.pmem
  obtain ⟨n, hpa, hfresh, -⟩ := Pmem.alloc_fresh hp ha
  have hlt := hfresh.lt
  have hsrc : ph3.mem e.ppn = ph.mem e.ppn := by
    have hu := hm.inUse q e k hqe hin
    rw [hfresh.other _ fun heq => hfresh.unused (heq ▸ h.stays hu), h.mem hu]
  have hdiv : e.ppn * PGSIZE / PGSIZE = e.ppn := div_mul_PGSIZE _
  rw [if_neg (by rw [hpa]; exact Nat.mul_ne_zero (by have := hfresh.pos; omega) (by decide))]
  refine .modify_bind ?_
  obtain ⟨ph4, hph4⟩ : ∃ ph4 : Phys, ph4 = { ph3 with mem := update ph3.mem (pa / PGSIZE) (ph3.mem e.ppn) } := ⟨_, rfl⟩
  rw [hdiv, ← hph4]
  refine .bind (Q := fun _ _ => True) ⟨fun e' he => PageTable.mapPage_error hlow ?_ he, fun _ _ _ => trivial⟩ fun b ph₂ hmap _ => ?_
  · rw [hpa, div_mul_PGSIZE]
    omega
  obtain ⟨-, hb, hgrow⟩ := h.space.growFilled (k := k) hwf.leaf hlow
    (fun x hx hlt => by
      rw [hwf.new_eq (by omega)]
      exact hm.page q e k x hqe hk (h.effect.region.inRegion.mp hx))
    (fun e' he' => by rw [hnone] at he'; cases he') ha (fun x hx => by rw [hph4]; exact update_of_ne hx _ _)
    (by rw [hph4]) (by rw [hph4]) hmap
  rw [hb, decide_eq_true hnone]
  obtain ⟨node'', used'', x, hreg, hlt', hcont, hspace, hg⟩ := hgrow hnone
  refine .pure (h.extend hm hspace (hspace.grown hg) hg.mem ?_)
  rw [hqe, hwf.new_eq (by omega)]
  refine .page k hk hin (h.effect.region.inRegion.mp hreg) hlt' ?_
  rw [hcont, hph4]
  dsimp only
  rw [update_self, hsrc]

lemma copyCode_ends (hu : ¬e.User) (hx : e.Exec) :
    (do if ← map P dst (q * PGSIZE) (e.ppn * PGSIZE) PGSIZE e.flags then return .ok () else return .error .mapFailed :
      K Phys (Except UvmError Unit)).Ends ph₁ (· ∈ Pmem.allocErrors) (Treated ph m used own dst fun x => S x ∨ x = q) := by
  have hnone := h.todo q hq
  have hlow := hm.low q e hqe
  have hppn := hwf.ppn
  have hnew := hwf.new_eq hppn
  have hown := hm.code q e hqe hu hx
  refine .bind (Q := fun _ _ => True) ⟨fun e' he => PageTable.mapPage_error hlow ?_ he, fun _ _ _ => trivial⟩ fun b ph₂ hmap _ => ?_
  · rw [div_mul_PGSIZE]
    omega
  obtain ⟨hb, node'', used'', hext, hspace, -⟩ := h.space.mapPage hwf.leaf hlow hppn
    (fun e' he' => by rw [hnone] at he'; cases he') (fun ho => absurd (by rwa [hnew] at ho) hown) hmap
  rw [hnew] at hspace
  have hspace := hspace hnone
  rw [hb, decide_eq_true hnone]
  have hshared : Effect ph₁ ph₂ (Space.foot node' m' own) (Space.foot node'' (update m' q (some e)) own) used' used'' := by
    refine hspace.shared hext fun q' e' ho => ?_
    by_cases hqq : q' = q
    · subst hqq
      rw [update_self, hnone]
      constructor
      · rintro ⟨rfl⟩
        exact absurd ho hown
      · intro hcon
        cases hcon
    · rw [update_of_ne hqq]
  refine .pure (h.extend hm hspace hshared (fun n _ hn => hext.mem n hn) ?_)
  rw [hqe]
  exact .shared hu hx

lemma copyLeaf_ends :
    (copyLeaf P dst (encLeaf (some e)) (q * PGSIZE)).Ends ph₁ (· ∈ Pmem.allocErrors)
      (Treated ph m used own dst fun x => S x ∨ x = q) := by
  obtain ⟨free, hp⟩ := h.space.pmem
  have hregion : ∀ k, Pmem.getRegion (e.ppn * PGSIZE) ph₁ = some k ↔ ph.InRegion k e.ppn := by
    intro k
    rw [← h.effect.region.inRegion]
    exact Pmem.getRegion_eq hp
  have hskip : (e.User ∧ ¬ph.InRegion false e.ppn ∨ ¬e.User ∧ ¬e.Exec ∧ ¬ph.InRegion true e.ppn) →
      CopyOf ph ph₁ (m q) none := by
    rw [hqe]
    exact .skipped
  unfold copyLeaf
  rw [pteToPa_encLeaf hwf, getFlags_encLeaf hwf]
  by_cases hu : e.User
  · rw [if_pos (e.user_iff.mpr hu)]
    refine .get_bind ?_
    by_cases hin : ph.InRegion false e.ppn
    · rw [if_pos ((hregion false).mpr hin)]
      exact copyPage_ends hm h hq hqe hwf (.inl ⟨hu, rfl⟩) hin
    · rw [if_neg fun hr => hin ((hregion false).mp hr)]
      exact .pure (h.skipPage hq (hskip (.inl ⟨hu, hin⟩)))
  · rw [if_neg fun hr => hu (e.user_iff.mp hr)]
    by_cases hx : e.Exec
    · rw [if_pos (e.exec_iff.mpr hx)]
      exact copyCode_ends hm h hq hqe hwf hu hx
    · rw [if_neg fun hr => hx (e.exec_iff.mp hr)]
      refine .get_bind ?_
      by_cases hin : ph.InRegion true e.ppn
      · rw [if_pos ((hregion true).mpr hin)]
        exact copyPage_ends hm h hq hqe hwf (.inr ⟨hu, hx, rfl⟩) hin
      · rw [if_neg fun hr => hin ((hregion true).mp hr)]
        exact .pure (h.skipPage hq (hskip (.inr ⟨hu, hx, hin⟩)))

end

end Parent

lemma signExtend_eq {k : Nat} (hi : i < 256) (hj : j < 512) (hk : k < 512) :
    signExtend (i <<< 30 ||| j <<< 21 ||| k <<< 12) = pageNo [i, j] k * PGSIZE := by
  have hj' : j <<< 21 < 2 ^ 30 := by
    rw [Nat.shiftLeft_eq]
    omega
  have hij : i <<< 30 ||| j <<< 21 = (i * 512 + j) <<< 21 := by
    rw [← Nat.shiftLeft_add_eq_or_of_lt hj', Nat.shiftLeft_eq, Nat.shiftLeft_eq, Nat.shiftLeft_eq]
    omega
  have hk' : k <<< 12 < 2 ^ 21 := by
    rw [Nat.shiftLeft_eq]
    omega
  have hraw : i <<< 30 ||| j <<< 21 ||| k <<< 12 = pageNo [i, j] k * PGSIZE := by
    rw [hij, ← Nat.shiftLeft_add_eq_or_of_lt hk', Nat.shiftLeft_eq, Nat.shiftLeft_eq]
    simp only [pageNo, List.foldl_cons, List.foldl_nil, PGSIZE]
    omega
  have hlt : pageNo [i, j] k * PGSIZE < 2 ^ 38 := by
    simp only [pageNo, List.foldl_cons, List.foldl_nil, PGSIZE]
    omega
  unfold signExtend
  rw [hraw, Nat.shiftRight_eq_div_pow, Nat.div_eq_of_lt hlt, if_neg (by decide), Nat.and_two_pow_sub_one_eq_mod,
    Nat.mod_eq_of_lt (by omega)]

lemma pageNo_two (i j k : Nat) : pageNo [i, j] k = (i * 512 + j) * 512 + k := by simp [pageNo]

section Parent

variable (hm : Copyable ph m used own) (hsrc : Space ph table node m own' used)
include hm hsrc

lemma copyLevel0_ends {l0 : Nat} (h : Copying ph ph₁ m used own dst S node' m' used')
    (hl : node [i, j] = some l0) (hS : ∀ q, q / 512 = i * 512 + j → ¬S q) :
    (copyLevel0 P dst l0 i j).Ends ph₁ (· ∈ Pmem.allocErrors)
      (Treated ph m used own dst fun q => S q ∨ q / 512 = i * 512 + j) := by
  obtain ⟨-, -, hj, -, -⟩ := hsrc.tree.parent [i] j l0 hl
  have hloop : (copyLevel0 P dst l0 i j).Ends ph₁ (· ∈ Pmem.allocErrors) fun r ph₂ => r = .ok () ∧ ∃ node'' m'' used'',
      Copying ph ph₂ m used own dst (fun q => S q ∨ q / 512 = i * 512 + j ∧ q % 512 < 512) node'' m'' used'' := by
    refine forOk_range (I := fun k ph' => ∃ node'' m'' used'',
      Copying ph ph' m used own dst (fun q => S q ∨ q / 512 = i * 512 + j ∧ q % 512 < k) node'' m'' used'')
      (fun k ph3 hk hI => ?_) ⟨node', m', used', by simpa using h⟩
    obtain ⟨node'', m'', used'', h'⟩ := hI
    have hk' : k < 512 := hk
    have hq := pageNo_two i j k
    have hnot : ¬(S (pageNo [i, j] k) ∨ pageNo [i, j] k / 512 = i * 512 + j ∧ pageNo [i, j] k % 512 < k) := by
      rintro (hcon | hcon)
      · exact hS _ (by omega) hcon
      · omega
    have hiff : ∀ q, (S q ∨ q / 512 = i * 512 + j ∧ q % 512 < k + 1) ↔
        (S q ∨ q / 512 = i * 512 + j ∧ q % 512 < k) ∨ q = pageNo [i, j] k := by
      intro q
      rw [or_assoc]
      refine or_congr_right ?_
      omega
    simp only [hiff]
    refine .get_bind ?_
    rw [h'.mem (hsrc.nodes _ l0 hl), hsrc.tree.leaf [i, j] l0 hl rfl k hk']
    cases hmq : m (pageNo [i, j] k) with
    | none =>
      rw [if_pos (by decide)]
      exact .pure (h'.skipPage hnot (by rw [hmq]; exact .none))
    | some e =>
      have hwf := (hsrc.tree.present _ e hmq).1
      have hlow := hm.low _ e hmq
      rw [hwf.isValid, hwf.isLeaf, signExtend_eq (by omega) hj hk', if_neg (by decide)]
      exact copyLeaf_ends hm h' hnot hmq hwf
  refine hloop.mono fun r ph₂ hr => ?_
  obtain ⟨rfl, node'', m'', used'', h'⟩ := hr
  refine ⟨rfl, node'', m'', used'', h'.skip (fun q hq => .inl ?_) fun q hq => hq.imp_right And.left⟩
  exact hq.imp_right fun hq => ⟨hq, Nat.mod_lt _ (by decide)⟩

omit hm in
lemma tableEntry_cases {s : List Nat} {l : Nat} (h : Copying ph ph₁ m used own dst S node' m' used')
    (hl : node s = some l) (hlen : s.length < 2) (hi : i < 512) :
    (node (s ++ [i]) = none ∧ isValid (ph₁.mem l i) = false) ∨
      ∃ c, node (s ++ [i]) = some c ∧ isValid (ph₁.mem l i) = true ∧ isTable (ph₁.mem l i) = true ∧
        pteToPa (ph₁.mem l i) ≠ 0 ∧ pteToPa (ph₁.mem l i) / PGSIZE = c := by
  rw [h.mem (hsrc.nodes s l hl), hsrc.tree.table s l hl hlen i hi]
  cases hc : node (s ++ [i]) with
  | none => exact .inl ⟨rfl, rfl⟩
  | some c =>
    obtain ⟨-, -, -, hpos, hlt⟩ := hsrc.tree.parent s i c hc
    have hvalid : isValid (encTable (some c)) = true := isValid_encTable (some c) fun k hk => by cases hk; exact hlt
    refine .inr ⟨c, rfl, hvalid, ?_, ?_, ?_⟩
    · rw [isTable, hvalid, isLeaf_encTable hlt]
      rfl
    · rw [pteToPa_encTable hlt]
      exact Nat.mul_ne_zero (by omega) (by decide)
    · rw [pteToPa_encTable hlt, Nat.mul_div_cancel _ (by decide)]

lemma copyLevel1_ends {l1 : Nat} (h : Copying ph ph₁ m used own dst S node' m' used')
    (hl : node [i] = some l1) (hS : ∀ q, q / 512 / 512 = i → ¬S q) :
    (copyLevel1 P dst l1 i).Ends ph₁ (· ∈ Pmem.allocErrors) (Treated ph m used own dst fun q => S q ∨ q / 512 / 512 = i) := by
  have hloop : (copyLevel1 P dst l1 i).Ends ph₁ (· ∈ Pmem.allocErrors) fun r ph₂ => r = .ok () ∧ ∃ node'' m'' used'',
      Copying ph ph₂ m used own dst (fun q => S q ∨ q / 512 / 512 = i ∧ q / 512 % 512 < 512) node'' m'' used'' := by
    refine forOk_range (I := fun j ph' => ∃ node'' m'' used'',
      Copying ph ph' m used own dst (fun q => S q ∨ q / 512 / 512 = i ∧ q / 512 % 512 < j) node'' m'' used'')
      (fun j ph3 hj hI => ?_) ⟨node', m', used', by simpa using h⟩
    obtain ⟨node'', m'', used'', h'⟩ := hI
    have hj' : j < 512 := hj
    have hnot : ∀ q, q / 512 = i * 512 + j → ¬(S q ∨ q / 512 / 512 = i ∧ q / 512 % 512 < j) := by
      rintro q hq (hcon | hcon)
      · exact hS q (by omega) hcon
      · omega
    have hiff : ∀ q, (S q ∨ q / 512 / 512 = i ∧ q / 512 % 512 < j + 1) ↔
        (S q ∨ q / 512 / 512 = i ∧ q / 512 % 512 < j) ∨ q / 512 = i * 512 + j := by
      intro q
      rw [or_assoc]
      refine or_congr_right ?_
      omega
    simp only [hiff]
    refine .get_bind ?_
    rcases tableEntry_cases hsrc h' hl (by simp) hj' with ⟨hnone, hinv⟩ | ⟨c, hc, hvalid, htable, hpa, hdiv⟩
    · rw [hinv, if_pos (by simp)]
      refine .pure ⟨rfl, node'', m'', used'', h'.skip (fun q hq => ?_) fun q hq => .inl hq⟩
      rcases hq with hq | hq
      · exact .inl hq
      · have habs := hsrc.tree.absent (i := q % 512) (show node [i, j] = none from hnone) hj' (Nat.mod_lt _ (by decide))
        rw [pageNo_two, show (i * 512 + j) * 512 + q % 512 = q by omega] at habs
        exact .inr ⟨hnot q hq, by rw [habs]; exact .none⟩
    · rw [hvalid, htable, if_neg (by simpa using hpa), hdiv]
      exact copyLevel0_ends hm hsrc h' hc hnot
  refine hloop.mono fun r ph₂ hr => ?_
  obtain ⟨rfl, node'', m'', used'', h'⟩ := hr
  refine ⟨rfl, node'', m'', used'', h'.skip (fun q hq => .inl ?_) fun q hq => hq.imp_right And.left⟩
  exact hq.imp_right fun hq => ⟨hq, Nat.mod_lt _ (by decide)⟩

lemma copyLevel2_ends (h : Copying ph ph₁ m used own dst (fun _ => False) node' m' used') :
    (copyLevel2 P dst table).Ends ph₁ (· ∈ Pmem.allocErrors) (Treated ph m used own dst fun _ => True) := by
  have hloop : (copyLevel2 P dst table).Ends ph₁ (· ∈ Pmem.allocErrors) fun r ph₂ => r = .ok () ∧ ∃ node'' m'' used'',
      Copying ph ph₂ m used own dst (fun q => q / 512 / 512 < 512) node'' m'' used'' := by
    refine forOk_range (I := fun i ph' => ∃ node'' m'' used'',
      Copying ph ph' m used own dst (fun q => q / 512 / 512 < i) node'' m'' used'')
      (fun i ph3 hi hI => ?_) ⟨node', m', used', by simpa using h⟩
    obtain ⟨node'', m'', used'', h'⟩ := hI
    have hi' : i < 512 := hi
    have hiff : ∀ q, q / 512 / 512 < i + 1 ↔ q / 512 / 512 < i ∨ q / 512 / 512 = i := by
      intro q
      omega
    simp only [hiff]
    refine .get_bind ?_
    rcases tableEntry_cases hsrc h' hsrc.tree.root (by simp) hi' with ⟨hnone, hinv⟩ | ⟨c, hc, hvalid, htable, hpa, hdiv⟩
    · rw [hinv, if_pos (by simp)]
      refine .pure ⟨rfl, node'', m'', used'', h'.skip (fun q hq => ?_) fun q hq => .inl hq⟩
      rcases hq with hq | hq
      · exact .inl hq
      · have hprune := hsrc.tree.nothing_below (s := []) (by simp) hnone
        have habs := hprune.leaf_of q ⟨[q / 512 % 512, q % 512], by simp [entryPath, hq]⟩
        exact .inr ⟨by omega, by rw [habs]; exact .none⟩
    · rw [hvalid, htable, if_neg (by simpa using hpa), hdiv]
      exact copyLevel1_ends hm hsrc h' hc fun q hq => by omega
  refine hloop.mono fun r ph₂ hr => ?_
  obtain ⟨rfl, node'', m'', used'', h'⟩ := hr
  refine ⟨rfl, node'', m'', used'', h'.skip (fun q _ => ?_) fun q _ => trivial⟩
  by_cases hq : q / 512 / 512 < 512
  · exact .inl hq
  · refine .inr ⟨hq, ?_⟩
    cases hmq : m q with
    | none => exact .none
    | some e =>
      have := hm.low q e hmq
      omega

/-- `copy` builds a table of fresh pages with a copy of every entry. -/
theorem copy_ends : (copy P table).Ends ph (· ∈ Pmem.allocErrors) fun r ph₂ => ∃ dst node' m' used', r = .ok (dst * PGSIZE) ∧
    dst < 2 ^ 43 ∧ Copying ph ph₂ m used own dst (fun _ => True) node' m' used' := by
  unfold copy
  refine .bind (Q := fun _ _ => True) ⟨fun e he => Pmem.alloc_error he, fun _ _ _ => trivial⟩ fun pa ph₁ ha _ => ?_
  obtain ⟨free, hp⟩ := hsrc.pmem
  obtain ⟨n, used1, rfl, -, hlt, hpos, hspace, heff⟩ := Space.allocRoot own hp ha
  rw [if_neg (Nat.mul_ne_zero (by omega) (by decide)), div_mul_PGSIZE]
  refine .modify_bind (.bind (copyLevel2_ends hm hsrc ⟨hspace, heff, fun _ h => h.elim, fun _ _ => rfl⟩) fun r ph₂ _ hr => ?_)
  obtain ⟨rfl, node', m', used', h⟩ := hr
  exact .pure ⟨n, node', m', used', rfl, hlt, h⟩

end Parent

end PageTable

end Glenda.Mem
