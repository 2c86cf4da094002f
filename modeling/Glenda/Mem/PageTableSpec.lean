import Glenda.Mem.PageTable
import Glenda.Mem.PmemFlow

/-!
# What the page table operations do

`PtInv` joins the tree of a table with the invariant of the allocator: the tables are among
the pages in use. `walk` extends the tree without changing what it maps, `map` and `unmap`
follow the operations on page maps.
-/

namespace Glenda.Mem
open Glenda.Lib
open Function (update update_of_ne update_self)

variable {pa n p fuel : Nat} {r : Option (Nat × Nat)} {b : Bool}

structure PtInv (ph : Phys) (table : Nat) (node : List Nat → Option Nat) (m : PageMap) (used : Nat → Prop) :
    Prop where
  tree : Tree ph.mem table node m
  pmem : ∃ free, PmemInv ph free used
  nodes : ∀ s n, node s = some n → used n

/-- What an operation on the table may do besides changing the map: it takes pages for new
tables and writes to the pages of the tables only. -/
structure Extends (ph ph' : Phys) (node node' : List Nat → Option Nat) (used used' : Nat → Prop) : Prop where
  keeps : ∀ s n, node s = some n → node' s = some n
  new : ∀ n, used' n → used n ∨ ∃ s, node' s = some n
  fresh : ∀ s n, node' s = some n → node s = some n ∨ ¬used n
  kernel : ∀ s n, node' s = some n → node s = some n ∨
    (ph.region true).lower ≤ n * PGSIZE ∧ n * PGSIZE < (ph.region true).upper
  takes : Takes ph ph' used used'
  mem : ∀ n, (∀ s, node' s ≠ some n) → ph'.mem n = ph.mem n

namespace Extends

variable {ph ph' ph'' : Phys} {node node' node'' : List Nat → Option Nat} {used used' used'' : Nat → Prop}

lemma refl (ph : Phys) (node : List Nat → Option Nat) (used : Nat → Prop) :
    Extends ph ph node node used used :=
  ⟨fun _ _ h => h, fun _ h => .inl h, fun _ _ h => .inl h, fun _ _ h => .inl h, .refl ph used, fun _ _ => rfl⟩

lemma trans (h : Extends ph ph' node node' used used') (h' : Extends ph' ph'' node' node'' used' used'') :
    Extends ph ph'' node node'' used used'' := by
  refine ⟨fun s n hn => h'.keeps s n (h.keeps s n hn), fun n hn => ?_, fun s n hn => ?_, fun s n hn => ?_,
    h.takes.trans h'.takes, fun n hn => ?_⟩
  · rcases h'.new n hn with hu | hs
    · rcases h.new n hu with hu | ⟨s, hs⟩
      · exact .inl hu
      · exact .inr ⟨s, h'.keeps s n hs⟩
    · exact .inr hs
  · rcases h'.fresh s n hn with hs | hu
    · exact h.fresh s n hs
    · exact .inr fun hn => hu (h.takes.uses n hn)
  · rcases h'.kernel s n hn with hs | hb
    · exact h.kernel s n hs
    · rw [(h.takes.region true).1, (h.takes.region true).2] at hb
      exact .inr hb
  · rw [h'.mem n hn]
    exact h.mem n fun s hs => hn s (h'.keeps s n hs)

end Extends

namespace PtInv

variable {ph ph' : Phys} {table q va : Nat} {node : List Nat → Option Nat} {m : PageMap} {used : Nat → Prop}
  {s : List Nat}

/-- The indices below a table of the given level. -/
def below (va : Nat) : Nat → List Nat
  | 0 => []
  | level + 1 => vpn va (level + 1) :: below va level

section

variable (h : PtInv ph table node m used)
include h

lemma grow {i : Nat} {ph1 : Phys} (hs : node s = some q)
    (hlen : s.length < 2) (hi : i < 512) (hnone : node (s ++ [i]) = none)
    (ha : Pmem.alloc true ph = .ok (pa, ph1)) :
    let n := pa / PGSIZE
    let ph2 := (ph1.zeroPage n).setWord q i (paToPte pa PTE_V)
    pa ≠ 0 ∧ PtInv ph2 table (update node (s ++ [i]) (some n)) m (fun k => used k ∨ k = n) ∧
      Extends ph ph2 node (update node (s ++ [i]) (some n)) used (fun k => used k ∨ k = n) := by
  intro n ph2
  obtain ⟨free, hp⟩ := h.pmem
  obtain ⟨rest, hl, hal⟩ := Pmem.alloc_ok hp ha
  have hin : pa ∈ free true := by simp [hl]
  have hunused : ¬used n := hp.unused true pa hin
  have hqn : q ≠ n := fun he => hunused (he ▸ h.nodes s q hs)
  have hinv := hal.inv hp hl
  have hlow := hal.lower
  have hidx := hal.index
  have hdiv : n * PGSIZE = pa := Nat.div_mul_cancel (Nat.dvd_of_mod_eq_zero hal.aligned)
  have hbound : 0 < n ∧ n < 2 ^ 44 := by
    unfold pageIndex TOTAL_PAGES at hidx
    unfold PHY_MEM_START at hlow hidx
    unfold PGSIZE at hidx hdiv
    omega
  have hword : paToPte pa PTE_V = encTable (some n) := by
    rw [encTable_eq hbound.2, hdiv]
  have hnew : ph2.mem n = fun _ => 0 := by
    simp [ph2, Phys.setWord, Phys.zeroPage, hqn.symm]
  have hq : ph2.mem q = update (ph.mem q) i (encTable (some n)) := by
    simp [ph2, Phys.setWord, Phys.zeroPage, hqn, hal.mem, hword, n]
  have hother : ∀ k, k ≠ n → k ≠ q → ph2.mem k = ph.mem k := by
    intro k hk hkq
    simp [ph2, Phys.setWord, Phys.zeroPage, hal.mem, hk, hkq, n]
  have hfresh : ∀ s', node s' ≠ some n := fun s' hs' => hunused (h.nodes s' n hs')
  have hself : ∀ s' k, update node (s ++ [i]) (some n) s' = some k →
      node s' = some k ∨ k = n := by
    intro s' k hk
    by_cases he : s' = s ++ [i]
    · rw [he, update_self] at hk
      exact .inr (Option.some.inj hk).symm
    · rw [update_of_ne he] at hk
      exact .inl hk
  have hkeep : ∀ s' k, node s' = some k → update node (s ++ [i]) (some n) s' = some k := by
    intro s' k hk
    rw [update_of_ne]
    · exact hk
    · rintro rfl
      rw [hnone] at hk
      cases hk
  have hwrite : Takes ph1 ph2 (fun k => used k ∨ k = n) (fun k => used k ∨ k = n) ∧
      PmemInv ph2 (update free true rest) (fun k => used k ∨ k = n) := by
    refine Takes.write hinv (fun k hk => ?_) rfl rfl
    have hkn : k ≠ n := fun he => hk (.inr he)
    have hkq : k ≠ q := fun he => hk (.inl (he ▸ h.nodes s q hs))
    simp [ph2, Phys.setWord, Phys.zeroPage, hkn, hkq]
  refine ⟨by unfold PHY_MEM_START at hlow; omega, ⟨?_, ⟨update free true rest, ?_⟩,
    fun s' k hk => ?_⟩, hkeep, fun k hk => ?_, fun s' k hk => ?_, fun s' k hk => ?_, ?_, fun k hk => ?_⟩
  · exact h.tree.addChild hs hlen hi hnone hfresh hbound.1 hbound.2 hnew hq hother
  · exact hwrite.2
  · rcases hself s' k hk with hk | hk
    · exact .inl (h.nodes s' k hk)
    · exact .inr hk
  · rcases hk with hk | rfl
    · exact .inl hk
    · exact .inr ⟨s ++ [i], update_self ..⟩
  · rcases hself s' k hk with hk | rfl
    · exact .inl hk
    · exact .inr hunused
  · rcases hself s' k hk with hk | rfl
    · exact .inl hk
    · rw [hdiv]
      exact .inr (hp.bounds true pa hin)
  · exact (hal.takes hp hl).trans hwrite.1
  · have hkn : k ≠ n := fun he => hk (s ++ [i]) (by rw [update_self, he])
    have hkq : k ≠ q := fun he => hk s (hkeep s k (he ▸ hs))
    exact hother k hkn hkq

theorem walkFrom_ok {level : Nat}
    (hs : node s = some q) (hlen : s.length + level = 2)
    (he : PageTable.walkFrom va true level q ph = .ok (r, ph')) :
    ∃ node' used' n, PtInv ph' table node' m used' ∧ Extends ph ph' node node' used used' ∧
      node' (s ++ below va level) = some n ∧ r = some (n, vpn va 0) := by
  induction level generalizing ph node used s q with
  | zero =>
    cases he
    exact ⟨node, used, q, h, .refl _ _ _, by simpa [below] using hs, rfl⟩
  | succ level ih =>
    obtain ⟨ph0, ph1, hget, he⟩ := K.bind_ok he
    cases hget
    obtain ⟨hvalid, htable⟩ := h.tree.pte_eq hs (by omega) (vpn_lt va (level + 1))
    cases hn : node (s ++ [vpn va (level + 1)]) with
    | some n =>
      obtain ⟨hleaf, hppn, hne⟩ := htable n hn
      simp only [hvalid, hn, hleaf, hppn, hne, Option.isSome_some, if_true, if_false, Bool.false_eq_true] at he
      obtain ⟨node', used', k, hinv, hext, hk, hr⟩ := ih h hn (by simp; omega) he
      exact ⟨node', used', k, hinv, hext, by simpa [below] using hk, hr⟩
    | none =>
      simp only [hvalid, hn, Option.isSome_none, if_true, if_false, Bool.false_eq_true] at he
      obtain ⟨pa, ph1, ha, he⟩ := K.bind_ok he
      obtain ⟨hpa, hinv1, hext1⟩ := h.grow hs (by omega) (vpn_lt va (level + 1)) hn ha
      rw [if_neg hpa] at he
      obtain ⟨u, ph2, hz, he⟩ := K.bind_ok he
      cases hz
      obtain ⟨u', ph3, hw, he⟩ := K.bind_ok he
      cases hw
      obtain ⟨node', used', k, hinv, hext, hk, hr⟩ :=
        ih hinv1 (update_self (s ++ [vpn va (level + 1)]) _ node) (by simp; omega) he
      exact ⟨node', used', k, hinv, hext1.trans hext, by simpa [below] using hk, hr⟩

lemma walk_ok (hva : va < VA_MAX)
    (he : PageTable.walk table va true ph = .ok (r, ph')) :
    ∃ node' used' n, PtInv ph' table node' m used' ∧ Extends ph ph' node node' used used' ∧
      node' [vpn va 2, vpn va 1] = some n ∧ r = some (n, vpn va 0) := by
  unfold PageTable.walk at he
  rw [if_neg (by omega)] at he
  exact h.walkFrom_ok h.tree.root rfl he

lemma setEntry {o : Option Entry} (hva : va < VA_MAX)
    (hn : node [vpn va 2, vpn va 1] = some n) (hwf : ∀ e, o = some e → e.WF) :
    PtInv (ph.setWord n (vpn va 0) (encLeaf o)) table node (update m (va / PGSIZE) o) used ∧
      Extends ph (ph.setWord n (vpn va 0) (encLeaf o)) node node used used := by
  have hother : ∀ k, k ≠ n → (ph.setWord n (vpn va 0) (encLeaf o)).mem k = ph.mem k :=
    fun k hk => update_of_ne hk _ _
  obtain ⟨free, hp⟩ := h.pmem
  obtain ⟨htakes, hinv⟩ : Takes ph (ph.setWord n (vpn va 0) (encLeaf o)) used used ∧
      PmemInv (ph.setWord n (vpn va 0) (encLeaf o)) free used :=
    Takes.write hp (fun k hk => hother k fun he => hk (he ▸ h.nodes _ n hn)) rfl rfl
  refine ⟨⟨?_, ⟨free, hinv⟩, h.nodes⟩, ⟨fun _ _ hs => hs, fun _ hu => .inl hu, fun _ _ hs => .inl hs, fun _ _ hs => .inl hs, htakes,
    fun k hk => hother k fun he => hk _ (he ▸ hn)⟩⟩
  rw [← pageNo_va hva]
  exact h.tree.setLeaf hn rfl (vpn_lt va 0) hwf (update_self ..) hother

end

end PtInv

/-! ### Mapping -/

lemma Entry.wf_new {ppn flags : Nat} (hf : isLeaf flags = true) : (Entry.new ppn (flags ||| PTE_V)).WF := by
  have hbit : ∀ x i, i < 10 → (x % 1024).testBit i = x.testBit i := by
    intro x i hi
    rw [show 1024 = 2 ^ 10 from rfl, Nat.testBit_mod_two_pow]
    simp [hi]
  refine ⟨Nat.mod_lt _ (by decide), Nat.mod_lt _ (by decide), ?_, ?_⟩
  · dsimp only [Entry.new]
    rw [isValid_eq, hbit _ _ (by decide), Nat.testBit_or]
    simp [PTE_V]
  · rw [isLeaf_eq] at hf
    dsimp only [Entry.new]
    rw [isLeaf_eq, hbit _ _ (by decide), hbit _ _ (by decide), hbit _ _ (by decide), Nat.testBit_or,
      Nat.testBit_or, Nat.testBit_or]
    revert hf
    cases flags.testBit 1 <;> cases flags.testBit 2 <;> cases flags.testBit 3 <;> simp

lemma encLeaf_new (ppn flags : Nat) : encLeaf (some (Entry.new ppn flags)) = paToPte (ppn * PGSIZE) flags := by
  rw [paToPte_eq]
  dsimp only [encLeaf, Entry.new, PGSIZE]
  omega

lemma refuses_iff (m : PageMap) (p ppn : Nat) (hwf : ∀ e, m p = some e → e.WF) :
    (isValid (encLeaf (m p)) && (!isLeaf (encLeaf (m p)) || pteToPa (encLeaf (m p)) ≠ ppn * PGSIZE)) = true ↔
      ¬m.Accepts p ppn := by
  unfold PageMap.Accepts
  cases hm : m p with
  | none => simp [encLeaf, isValid]
  | some e =>
    have he := hwf e hm
    rw [he.isValid, he.isLeaf, pteToPa_eq, he.getPpn]
    simp [PGSIZE]

namespace PageTable

variable {P : Profile} {table flags : Nat} {ph ph' : Phys} {node : List Nat → Option Nat} {m : PageMap}
  {used : Nat → Prop}

lemma page_add_lt (h : p ≤ 2 ^ 44) : p * PGSIZE + PGSIZE < 2 ^ 64 := by
  unfold PGSIZE
  omega

lemma page_lt (h : p < 2 ^ 26) : p * PGSIZE < VA_MAX := by
  unfold PGSIZE VA_MAX
  omega

/-- The loop of `map` follows `mapPages` on the `n + 1` pages that are left. -/
theorem mapFrom_ok (hf : isLeaf flags = true) {ppn : Nat} (hva : p + n < 2 ^ 26)
    (hpa : ppn + n ≤ 2 ^ 44) (hfuel : n < fuel) (h : PtInv ph table node m used)
    (he : mapFrom P table ((p + n) * PGSIZE) flags fuel (p * PGSIZE) (ppn * PGSIZE) ph = .ok (b, ph')) :
    ∃ node' used' m', PtInv ph' table node' m' used' ∧ Extends ph ph' node node' used used' ∧
      PageMap.mapPages (flags ||| PTE_V) (n + 1) p ppn m = (m', b) := by
  induction fuel generalizing n p ppn ph node m used with
  | zero => omega
  | succ fuel ih =>
    have hlast : ¬(p + n) * PGSIZE < p * PGSIZE := by
      unfold PGSIZE
      omega
    have hpage : p * PGSIZE < VA_MAX := page_lt (by omega)
    rw [mapFrom, if_neg hlast] at he
    obtain ⟨r, ph1, hwalk, he⟩ := K.bind_ok he
    obtain ⟨node1, used1, k, h1, hext1, hk, rfl⟩ := h.walk_ok hpage hwalk
    obtain ⟨ph2, ph3, hget, he⟩ := K.bind_ok he
    cases hget
    have hdiv : p * PGSIZE / PGSIZE = p := Nat.mul_div_cancel p (by decide)
    have hword : ph1.mem k (vpn (p * PGSIZE) 0) = encLeaf (m p) := by
      rw [h1.tree.leaf _ k hk rfl _ (vpn_lt _ 0), pageNo_va hpage, hdiv]
    have htest := refuses_iff m p ppn fun e he => (h1.tree.present p e he).1
    rw [PageMap.mapPages]
    rw [hword] at he
    by_cases hacc : m.Accepts p ppn
    · rw [if_neg (by rw [htest]; exact not_not.mpr hacc)] at he
      obtain ⟨u, ph4, hset, he⟩ := K.bind_ok he
      cases hset
      obtain ⟨h2, hext2⟩ := h1.setEntry hpage hk (o := some (.new ppn (flags ||| PTE_V)))
        fun e he => Option.some.inj he ▸ Entry.wf_new hf
      rw [hdiv] at h2
      rw [encLeaf_new] at h2 hext2
      rw [if_pos hacc]
      cases n with
      | zero =>
        rw [Nat.add_zero, if_pos rfl] at he
        cases he
        exact ⟨node1, used1, _, h2, hext1.trans hext2, rfl⟩
      | succ n =>
        have hne : p * PGSIZE ≠ (p + (n + 1)) * PGSIZE := by
          unfold PGSIZE
          omega
        rw [if_neg hne, addW_of_lt P (page_add_lt (by omega)), pure_bind,
          addW_of_lt P (page_add_lt (by omega)), pure_bind, ← Nat.succ_mul,
          ← Nat.succ_mul, show p + (n + 1) = p + 1 + n by omega] at he
        obtain ⟨node', used', m', hinv, hext, hm⟩ := ih (by omega) (by omega) (by omega) h2 he
        exact ⟨node', used', m', hinv, (hext1.trans hext2).trans hext, hm⟩
    · rw [if_pos (htest.mpr hacc)] at he
      cases he
      rw [if_neg hacc]
      exact ⟨node1, used1, m, h1, hext1, rfl⟩

end PageTable

/-! ### Unmapping -/

/-- What `unmap` may do besides changing the map: pages whose mappings it removed leave the pages
in use if `free` is set, and it writes to these and to the pages of the tables only. -/
structure Releases (ph ph' : Phys) (node : List Nat → Option Nat) (free : Bool) (m m' : PageMap)
    (used used' : Nat → Prop) : Prop where
  sub : ∀ q e, m' q = some e → m q = some e
  freed : ∀ n, used n → used' n ∨ free = true ∧ ∃ q e, m q = some e ∧ m' q = none ∧ e.ppn = n
  out : free = true → ∀ q e, m q = some e → m' q = none → ¬used' e.ppn
  gives : Gives ph ph' used used'
  mem : ∀ n, (∀ s, node s ≠ some n) → used' n → ph'.mem n = ph.mem n

namespace Releases

variable {ph ph' ph'' : Phys} {node : List Nat → Option Nat} {free : Bool} {m m' m'' : PageMap}
  {used used' used'' : Nat → Prop}

lemma refl (ph : Phys) (node : List Nat → Option Nat) (free : Bool) (m : PageMap) (used : Nat → Prop) :
    Releases ph ph node free m m used used :=
  ⟨fun _ _ h => h, fun _ h => .inl h, fun _ _ _ h h' => (by rw [h] at h'; cases h'), Gives.refl ph used,
    fun _ _ _ => rfl⟩

lemma trans (h : Releases ph ph' node free m m' used used') (h' : Releases ph' ph'' node free m' m'' used' used'') :
    Releases ph ph'' node free m m'' used used'' := by
  refine ⟨fun q e he => h.sub q e (h'.sub q e he), fun n hn => ?_, fun hf q e he he'' => ?_, h.gives.trans h'.gives,
    fun n hs hn => ?_⟩
  · rcases h.freed n hn with hn | ⟨hf, q, e, hq, hq', rfl⟩
    · rcases h'.freed n hn with hn | ⟨hf, q, e, hq, hq', rfl⟩
      · exact .inl hn
      · exact .inr ⟨hf, q, e, h.sub q e hq, hq', rfl⟩
    · refine .inr ⟨hf, q, e, hq, ?_, rfl⟩
      by_contra hne
      obtain ⟨e', he'⟩ := Option.ne_none_iff_exists'.mp hne
      rw [h'.sub q e' he'] at hq'
      cases hq'
  · cases hq : m' q with
    | none => exact fun hn => h.out hf q e he hq (h'.gives.uses _ hn)
    | some e' =>
      have heq := h.sub q e' hq
      rw [he] at heq
      cases heq
      exact h'.out hf q e hq he''
  · rw [h'.mem n hs hn]
    exact h.mem n hs (h'.gives.uses n hn)

end Releases

lemma PtInv.free {ph ph' : Phys} {table addr : Nat} {node : List Nat → Option Nat} {m : PageMap}
    {used : Nat → Prop} {k : Bool} (h : PtInv ph table node m used) (hf : Pmem.Freed ph ph' k addr)
    (hnode : ∀ s, node s ≠ some (addr / PGSIZE)) :
    PtInv ph' table node m (fun n => used n ∧ n ≠ addr / PGSIZE) := by
  have hne : ∀ s n, node s = some n → n ≠ addr / PGSIZE := fun s n hs he => hnode s (he ▸ hs)
  refine ⟨h.tree.congr fun s n hs => hf.mem_other (hne s n hs), ?_, fun s n hs => ⟨h.nodes s n hs, hne s n hs⟩⟩
  obtain ⟨free, hp⟩ := h.pmem
  exact (hf.gives hp).2

namespace PageTable

variable {P : Profile} {table : Nat} {free : Bool} {ph ph' : Phys} {node : List Nat → Option Nat} {m : PageMap}
  {used : Nat → Prop}

lemma freePage_ok {e : Entry} {u : Unit} (h : PtInv ph table node m used) (hm : m p = some e)
    (hspare : free = true → ∀ s, node s ≠ some e.ppn)
    (he : freePage free (e.ppn * 4096) ph = .ok (u, ph')) :
    ∃ used', PtInv ph' table node m used' ∧ Releases ph ph' node free m (update m p none) used used' := by
  have hsub : ∀ q e', update m p none q = some e' → m q = some e' := by
    intro q e' hq
    by_cases hqp : q = p
    · rw [hqp, update_self] at hq
      cases hq
    · rwa [update_of_ne hqp] at hq
  cases free with
  | false =>
    cases he
    exact ⟨used, h, hsub, fun _ hn => .inl hn, fun hf => (by cases hf), Gives.refl ph used, fun _ _ _ => rfl⟩
  | true =>
    obtain ⟨ph0, ph1, hget, he⟩ := K.bind_ok he
    cases hget
    have hdiv : e.ppn * 4096 / PGSIZE = e.ppn := Nat.mul_div_cancel _ (by decide)
    cases hr : Pmem.getRegion (e.ppn * 4096) ph with
    | none =>
      rw [hr] at he
      cases he
    | some r =>
      rw [hr] at he
      obtain ⟨k, hf⟩ := Pmem.free_ok he
      have hinv := h.free hf fun s => by rw [hdiv]; exact hspare rfl s
      obtain ⟨fl, hp⟩ := h.pmem
      refine ⟨_, hinv, hsub, fun n hn => ?_, fun _ q e' hq hq' hn => ?_, (hf.gives hp).1, fun n _ hn =>
        hf.mem_other hn.2⟩
      · by_cases hne : n = e.ppn
        · exact .inr ⟨rfl, p, e, hm, update_self .., hne.symm⟩
        · exact .inl ⟨hn, by rw [hdiv]; exact hne⟩
      · by_cases hqp : q = p
        · rw [hqp, hm] at hq
          cases hq
          exact hn.2 hdiv.symm
        · rw [update_of_ne hqp, hq] at hq'
          cases hq'

theorem unmapFrom_ok (hva : p + n < 2 ^ 26) (hfuel : n < fuel)
    (h : PtInv ph table node m used)
    (hspare : free = true → ∀ q e, p ≤ q → q ≤ p + n → m q = some e → ∀ s, node s ≠ some e.ppn)
    (he : unmapFrom P table ((p + n) * PGSIZE) free fuel (p * PGSIZE) ph = .ok (b, ph')) :
    ∃ used' m', PtInv ph' table node m' used' ∧ Releases ph ph' node free m m' used used' ∧
      PageMap.unmapPages (n + 1) p m = (m', b) := by
  induction fuel generalizing n p ph m used with
  | zero => omega
  | succ fuel ih =>
    have hlast : ¬(p + n) * PGSIZE < p * PGSIZE := by
      unfold PGSIZE
      omega
    have hpage : p * PGSIZE < VA_MAX := page_lt (by omega)
    have hdiv : p * PGSIZE / PGSIZE = p := Nat.mul_div_cancel p (by decide)
    rw [unmapFrom, if_neg hlast] at he
    obtain ⟨ph0, ph1, hget, he⟩ := K.bind_ok he
    cases hget
    rw [h.tree.lookup_eq hpage] at he
    rw [PageMap.unmapPages]
    cases hk : node [vpn (p * PGSIZE) 2, vpn (p * PGSIZE) 1] with
    | none =>
      have hnone := h.tree.absent hk (vpn_lt _ 1) (vpn_lt (p * PGSIZE) 0)
      rw [pageNo_va hpage, hdiv] at hnone
      rw [hk] at he
      cases he
      exact ⟨used, m, h, .refl .., by rw [if_pos hnone]⟩
    | some k =>
      have hword : ph.mem k (vpn (p * PGSIZE) 0) = encLeaf (m p) := by
        rw [h.tree.leaf _ k hk rfl _ (vpn_lt _ 0), pageNo_va hpage, hdiv]
      rw [hk, Option.map_some] at he
      dsimp only at he
      rw [hword] at he
      cases hm : m p with
      | none =>
        rw [hm] at he
        cases he
        exact ⟨used, m, h, .refl .., by rw [if_pos rfl]⟩
      | some e =>
        have hwf := (h.tree.present p e hm).1
        rw [hm, hwf.isValid, hwf.isLeaf, if_neg (by decide), pteToPa_eq, hwf.getPpn] at he
        obtain ⟨u, ph1, hfree, he⟩ := K.bind_ok he
        obtain ⟨used1, h1, hrel1⟩ := freePage_ok h hm (fun hf => hspare hf p e (by omega) (by omega) hm) hfree
        obtain ⟨v, ph2, hset, he⟩ := K.bind_ok he
        cases hset
        obtain ⟨h2, hext2⟩ := h1.setEntry (o := none) hpage hk (fun e he => by cases he)
        rw [hdiv] at h2
        have hrel2 : Releases ph (ph1.setWord k (vpn (p * PGSIZE) 0) 0) node free m (update m p none) used
            used1 := by
          obtain ⟨fl, hp⟩ := h1.pmem
          have hother : ∀ x, x ≠ k → (ph1.setWord k (vpn (p * PGSIZE) 0) 0).mem x = ph1.mem x :=
            fun x hx => update_of_ne hx _ _
          refine ⟨hrel1.sub, hrel1.freed, hrel1.out, hrel1.gives.trans (Gives.write hp (fun x hx => ?_) rfl rfl),
            fun x hs hx => ?_⟩
          · exact hother x fun he => hx (he ▸ h1.nodes _ k hk)
          · rw [hother x fun he => hs _ (he ▸ hk)]
            exact hrel1.mem x hs hx
        rw [if_neg (by simp)]
        cases n with
        | zero =>
          rw [Nat.add_zero, if_pos rfl] at he
          cases he
          exact ⟨used1, _, h2, hrel2, rfl⟩
        | succ n =>
          have hne : p * PGSIZE ≠ (p + (n + 1)) * PGSIZE := by
            unfold PGSIZE
            omega
          rw [if_neg hne, addW_of_lt P (page_add_lt (by omega)), pure_bind, ← Nat.succ_mul,
            show p + (n + 1) = p + 1 + n by omega] at he
          have hspare2 : free = true → ∀ q e', p + 1 ≤ q → q ≤ p + 1 + n →
              update m p none q = some e' → ∀ s, node s ≠ some e'.ppn := by
            intro hf q e' hq hq' hm'
            rw [update_of_ne (by omega)] at hm'
            exact hspare hf q e' (by omega) (by omega) hm'
          obtain ⟨used', m', hinv, hrel, hm'⟩ := ih (by omega) (by omega) h2 hspare2 he
          exact ⟨used', m', hinv, hrel2.trans hrel, hm'⟩

/-! ### Whole calls -/

lemma last_eq {α : Type} {va len : Nat} (hlen : len ≠ 0) (hva : va + len ≤ VA_MAX) (f : Nat → K Phys α) :
    (do
      let sum ← addW P 64 va len
      let upper ← alignUp P sum
      let last ← subW P 64 upper PGSIZE
      f last) = f ((va / PGSIZE + (PageMap.pages va len - 1)) * PGSIZE) := by
  unfold VA_MAX at hva
  have hlast : (va + len + 4095) / 4096 * 4096 - 4096 = (va / 4096 + (PageMap.pages va len - 1)) * 4096 := by
    unfold PageMap.pages
    omega
  unfold alignUp PGMASK PGSIZE
  rw [addW_of_lt P (by omega), pure_bind, addW_of_lt P (by omega), pure_bind, pure_bind, alignDown_eq,
    subW_of_le P (by omega), pure_bind, ← hlast]

lemma pages_pos (va : Nat) {len : Nat} (hlen : len ≠ 0) : 0 < PageMap.pages va len := by
  unfold PageMap.pages
  omega

lemma pages_le {va len : Nat} (hva : va + len ≤ VA_MAX) : va / PGSIZE + PageMap.pages va len ≤ 2 ^ 26 := by
  unfold VA_MAX at hva
  unfold PageMap.pages PGSIZE
  omega

lemma ppn_le {va len : Nat} (hpa : pa + len < 2 ^ 56) : pa / PGSIZE + (PageMap.pages va len - 1) ≤ 2 ^ 44 := by
  unfold PageMap.pages PGSIZE
  omega

lemma fuel_lt (p n : Nat) : n < (p + n) * PGSIZE / PGSIZE + 1 := by
  rw [Nat.mul_div_cancel _ (by decide)]
  omega

theorem map_ok {va len flags : Nat} (hf : isLeaf flags = true) (hva : va + len ≤ VA_MAX)
    (hpa : pa / PGSIZE + (PageMap.pages va len - 1) ≤ 2 ^ 44) (h : PtInv ph table node m used)
    (he : map P table va pa len flags ph = .ok (b, ph')) :
    ∃ node' used' m', PtInv ph' table node' m' used' ∧ Extends ph ph' node node' used used' ∧
      m.map va pa len (flags ||| PTE_V) = (m', b) := by
  unfold map at he
  unfold PageMap.map
  split_ifs at he ⊢ with hlen
  · cases he
    exact ⟨node, used, m, h, .refl .., rfl⟩
  · rw [last_eq hlen hva, alignDown_eq, alignDown_eq] at he
    have hpos := pages_pos va hlen
    have hle := pages_le hva
    have hok := mapFrom_ok hf (by omega) hpa (fuel_lt _ _) h he
    rwa [Nat.sub_add_cancel hpos] at hok

theorem unmap_ok {va len : Nat} (hva : va + len ≤ VA_MAX) (h : PtInv ph table node m used)
    (hspare : free = true → ∀ q e, va / PGSIZE ≤ q → q < va / PGSIZE + PageMap.pages va len → m q = some e →
      ∀ s, node s ≠ some e.ppn)
    (he : unmap P table va len free ph = .ok (b, ph')) :
    ∃ used' m', PtInv ph' table node m' used' ∧ Releases ph ph' node free m m' used used' ∧
      m.unmap va len = (m', b) := by
  unfold unmap at he
  unfold PageMap.unmap
  split_ifs at he ⊢ with hlen
  · cases he
    exact ⟨used, m, h, .refl .., rfl⟩
  · rw [last_eq hlen hva, alignDown_eq] at he
    have hpos := pages_pos va hlen
    have hle := pages_le hva
    have hok := unmapFrom_ok (by omega) (fuel_lt _ _) h
      (fun hf q e hq hq' => hspare hf q e hq (by omega)) he
    rwa [Nat.sub_add_cancel hpos] at hok

end PageTable

end Glenda.Mem
