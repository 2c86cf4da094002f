import Glenda.Mem.PageTableSpec

/-!
# Runs of the page table

`map` and `unmap` in any order on a table that starts zeroed. Between the calls the rest of the
kernel may change memory, except for the pages of the tables, and use the allocator. Every run
refines the page map obtained from the same calls, and the tables form a tree.
-/

namespace Glenda.Mem
open Glenda.Lib

/-- The tables that are reached from `table`, with their levels. -/
inductive IsTable (mem : Nat → Nat → Nat) (table : Nat) : Nat → Nat → Prop
  | root : IsTable mem table 2 table
  | child {level q i : Nat} (hq : IsTable mem table (level + 1) q) (hi : i < 512) (he : isTable (mem q i) = true) :
      IsTable mem table level (getPpn (mem q i))

namespace Tree

variable {mem : Nat → Nat → Nat} {table : Nat} {node : List Nat → Option Nat} {m : PageMap} {level n q i : Nat}
  {s : List Nat}

lemma isTable_eq (h : Tree mem table node m) (hs : node s = some q) (hlen : s.length < 2) (hi : i < 512) :
    isTable (mem q i) = true ↔ node (s ++ [i]) = some (getPpn (mem q i)) := by
  obtain ⟨hvalid, htable⟩ := h.pte_eq hs hlen hi
  unfold isTable
  cases hn : node (s ++ [i]) with
  | none => simp [hvalid, hn]
  | some n =>
    obtain ⟨hleaf, hppn, -⟩ := htable n hn
    simp [hvalid, hn, hleaf, hppn]

lemma isTable_iff (h : Tree mem table node m) :
    IsTable mem table level n ↔ ∃ s, node s = some n ∧ s.length + level = 2 := by
  constructor
  · intro ht
    induction ht with
    | root => exact ⟨[], h.root, rfl⟩
    | child hq hi he ih =>
      obtain ⟨s, hs, hlen⟩ := ih
      exact ⟨s ++ [_], (h.isTable_eq hs (by omega) hi).mp he, by simp; omega⟩
  · rintro ⟨s, hs, hlen⟩
    induction s using List.reverseRecOn generalizing n level with
    | nil =>
      rw [h.root] at hs
      cases hs
      obtain rfl : level = 2 := by simpa using hlen
      exact .root
    | append_singleton s i ih =>
      obtain ⟨⟨q, hq⟩, hs2, hi, -, -⟩ := h.parent s i n hs
      rw [List.length_append, List.length_singleton] at hlen
      have ht : IsTable mem table (level + 1) q := ih hq (by omega)
      obtain ⟨-, hppn, -⟩ := (h.pte_eq hq hs2 hi).2 n hs
      have hentry := (h.isTable_eq hq hs2 hi).mpr (by rw [hppn, hs])
      exact hppn ▸ .child ht hi hentry

lemma parent_unique (h : Tree mem table node m) (hlevel : level < 2) (ht : IsTable mem table level n) :
    ∃! x : Nat × Nat, (∃ l, IsTable mem table (l + 1) x.1) ∧ x.2 < 512 ∧ isTable (mem x.1 x.2) = true ∧
      getPpn (mem x.1 x.2) = n := by
  obtain ⟨s, hs, hlen⟩ := h.isTable_iff.mp ht
  rcases List.eq_nil_or_concat s with rfl | ⟨s, i, rfl⟩
  · simp at hlen
    omega
  · rw [List.concat_eq_append] at hs hlen
    obtain ⟨⟨q, hq⟩, hs2, hi, -, -⟩ := h.parent s i n hs
    obtain ⟨-, hppn, -⟩ := (h.pte_eq hq hs2 hi).2 n hs
    refine ⟨(q, i), ⟨⟨1 - s.length, ?_⟩, hi, ?_, hppn⟩, ?_⟩
    · exact h.isTable_iff.mpr ⟨s, hq, by omega⟩
    · exact (h.isTable_eq hq hs2 hi).mpr (by rw [hppn, hs])
    · rintro ⟨q', i'⟩ ⟨⟨l, hl⟩, hi', he, hn⟩
      obtain ⟨s', hs', hlen'⟩ := h.isTable_iff.mp hl
      have hn' := (h.isTable_eq hs' (by omega) hi').mp he
      rw [hn] at hn'
      obtain ⟨rfl, hii⟩ := List.append_inj' (h.inj _ _ n hn' hs) rfl
      obtain rfl : i' = i := by simpa using hii
      rw [hq] at hs'
      cases hs'
      rfl

end Tree

/-! ### Paths -/

/-- The table at the end of a path of indices. -/
def PageTable.tableAt (mem : Nat → Nat → Nat) : Nat → List Nat → Option Nat
  | table, [] => some table
  | table, i :: s => if i < 512 ∧ isTable (mem table i) = true then tableAt mem (getPpn (mem table i)) s else none

namespace Tree

variable {mem : Nat → Nat → Nat} {table t : Nat} {node : List Nat → Option Nat} {m : PageMap} {p s : List Nat}

lemma exists_of_append (h : Tree mem table node m) {n : Nat} (hn : node (p ++ s) = some n) : ∃ t, node p = some t := by
  induction s using List.reverseRecOn generalizing n with
  | nil =>
    rw [List.append_nil] at hn
    exact ⟨n, hn⟩
  | append_singleton s i ih =>
    rw [← List.append_assoc] at hn
    obtain ⟨⟨q, hq⟩, -⟩ := h.parent (p ++ s) i n hn
    exact ih hq

lemma tableAt_append (h : Tree mem table node m) (hp : node p = some t) (hlen : p.length + s.length ≤ 2) :
    PageTable.tableAt mem t s = node (p ++ s) := by
  induction s generalizing p t with
  | nil =>
    rw [List.append_nil, hp]
    rfl
  | cons i s ih =>
    rw [List.length_cons] at hlen
    have hnone : node (p ++ [i]) = none → node (p ++ i :: s) = none := by
      intro hnone
      by_contra hne
      obtain ⟨n, hn⟩ := Option.ne_none_iff_exists'.mp hne
      rw [List.append_cons] at hn
      obtain ⟨t', ht'⟩ := h.exists_of_append hn
      rw [hnone] at ht'
      cases ht'
    rw [PageTable.tableAt]
    by_cases hi : i < 512
    · obtain ⟨hvalid, hchild⟩ := h.pte_eq hp (by omega) hi
      cases hc : node (p ++ [i]) with
      | none =>
        rw [hc] at hvalid
        rw [hnone hc, if_neg]
        rintro ⟨-, ht⟩
        unfold isTable at ht
        rw [hvalid] at ht
        cases ht
      | some c =>
        obtain ⟨hleaf, hppn, -⟩ := hchild c hc
        rw [hc] at hvalid
        rw [if_pos ⟨hi, by simp [isTable, hvalid, hleaf]⟩, hppn, ih hc (by simp; omega), List.append_cons p i s]
    · rw [if_neg fun hc => hi hc.1]
      refine (hnone ?_).symm
      by_contra hne
      obtain ⟨n, hn⟩ := Option.ne_none_iff_exists'.mp hne
      exact hi (h.parent p i n hn).2.2.1

lemma node_iff (h : Tree mem table node m) {n : Nat} :
    node s = some n ↔ s.length ≤ 2 ∧ PageTable.tableAt mem table s = some n := by
  constructor
  · intro hs
    have hlen := h.length_le hs
    refine ⟨hlen, ?_⟩
    rw [h.tableAt_append h.root (by simpa using hlen)]
    exact hs
  · rintro ⟨hlen, hs⟩
    rwa [h.tableAt_append h.root (by simpa using hlen)] at hs

end Tree

/-! ### Panics -/

namespace PageTable

variable {P : Profile} {table va last flags : Nat} {free alloc : Bool} {ph : Phys} {e : Panic}

lemma walkFrom_error {level q : Nat} (h : walkFrom va alloc level q ph = .error e) : e ∈ Pmem.allocErrors := by
  induction level generalizing q ph with
  | zero => cases h
  | succ level ih =>
    rcases K.bind_eq_error.mp h with h | ⟨ph0, ph1, -, h⟩
    · cases h
    split_ifs at h
    · cases h
    · cases h
    · exact ih h
    · rcases K.bind_eq_error.mp h with h | ⟨pa, ph2, -, h⟩
      · exact Pmem.alloc_error h
      split_ifs at h
      · cases h
      rcases K.bind_eq_error.mp h with h | ⟨u, ph3, -, h⟩
      · cases h
      rcases K.bind_eq_error.mp h with h | ⟨v, ph4, -, h⟩
      · cases h
      exact ih h
    · cases h

lemma walk_error (h : walk table va alloc ph = .error e) : e ∈ Pmem.allocErrors := by
  unfold walk at h
  split_ifs at h
  · cases h
  · exact walkFrom_error h

lemma mapFrom_error {n fuel p ppn : Nat} (hva : p + n < 2 ^ 26) (hpa : ppn + n ≤ 2 ^ 44) (hfuel : n < fuel)
    (h : mapFrom P table ((p + n) * PGSIZE) flags fuel (p * PGSIZE) (ppn * PGSIZE) ph = .error e) :
    e ∈ Pmem.allocErrors := by
  induction fuel generalizing n p ppn ph with
  | zero => omega
  | succ fuel ih =>
    have hlast : ¬(p + n) * PGSIZE < p * PGSIZE := by
      unfold PGSIZE
      omega
    rw [mapFrom, if_neg hlast] at h
    rcases K.bind_eq_error.mp h with h | ⟨r, ph1, -, h⟩
    · exact walk_error h
    cases r with
    | none => cases h
    | some x =>
      rcases K.bind_eq_error.mp h with h | ⟨ph2, ph3, -, h⟩
      · cases h
      split_ifs at h with hv hend
      · cases h
      · rcases K.bind_eq_error.mp h with h | ⟨u, ph4, -, h⟩ <;> cases h
      · rcases K.bind_eq_error.mp h with h | ⟨u, ph4, -, h⟩
        · cases h
        obtain ⟨n, rfl⟩ : ∃ k, n = k + 1 := Nat.exists_eq_succ_of_ne_zero fun hn => hend (by rw [hn, Nat.add_zero])
        rw [addW_of_lt P (page_add_lt (by omega)), pure_bind, addW_of_lt P (page_add_lt (by omega)),
          pure_bind, ← Nat.succ_mul, ← Nat.succ_mul, show p + (n + 1) = p + 1 + n by omega] at h
        exact ih (by omega) (by omega) (by omega) h

lemma map_error {pa len : Nat} (hva : va + len ≤ VA_MAX) (hpa : pa / PGSIZE + (PageMap.pages va len - 1) ≤ 2 ^ 44)
    (h : map P table va pa len flags ph = .error e) : e ∈ Pmem.allocErrors := by
  unfold map at h
  split_ifs at h with hlen
  · cases h
  · rw [last_eq hlen hva, alignDown_eq, alignDown_eq] at h
    have hpos := pages_pos va hlen
    have hle := pages_le hva
    exact mapFrom_error (by omega) hpa (fuel_lt _ _) h

lemma mapPage_error {q pa : Nat} (hq : q < 2 ^ 26) (hpa : pa / PGSIZE ≤ 2 ^ 44)
    (h : map P table (q * PGSIZE) pa PGSIZE flags ph = .error e) : e ∈ Pmem.allocErrors := by
  have hva : q * PGSIZE + PGSIZE ≤ VA_MAX := by
    unfold PGSIZE VA_MAX
    omega
  have hpages : PageMap.pages (q * PGSIZE) PGSIZE = 1 := by
    unfold PageMap.pages PGSIZE
    omega
  exact map_error hva (by rw [hpages]; exact hpa) h

lemma freePage_error {pa : Nat} (h : freePage free pa ph = .error e) :
    free = true ∧ e ∈ .unmapOutOfBounds :: Pmem.freeErrors := by
  cases free with
  | false => cases h
  | true =>
    refine ⟨rfl, ?_⟩
    rcases K.bind_eq_error.mp h with h | ⟨ph0, ph1, hget, h⟩
    · cases h
    cases hget
    cases hr : Pmem.getRegion pa ph with
    | none =>
      rw [hr] at h
      cases h
      simp
    | some k =>
      rw [hr] at h
      exact List.mem_cons_of_mem _ (Pmem.free_error h)

lemma unmapFrom_error {n fuel p : Nat} (hva : p + n < 2 ^ 26) (hfuel : n < fuel)
    (h : unmapFrom P table ((p + n) * PGSIZE) free fuel (p * PGSIZE) ph = .error e) :
    free = true ∧ e ∈ .unmapOutOfBounds :: Pmem.freeErrors := by
  induction fuel generalizing n p ph with
  | zero => omega
  | succ fuel ih =>
    have hlast : ¬(p + n) * PGSIZE < p * PGSIZE := by
      unfold PGSIZE
      omega
    rw [unmapFrom, if_neg hlast] at h
    rcases K.bind_eq_error.mp h with h | ⟨ph0, ph1, hget, h⟩
    · cases h
    cases hget
    cases hl : lookup ph.mem table (p * PGSIZE) with
    | none =>
      rw [hl] at h
      cases h
    | some x =>
      rw [hl] at h
      dsimp only at h
      split_ifs at h with hv hend
      · cases h
      · rcases K.bind_eq_error.mp h with h | ⟨u, ph2, -, h⟩
        · exact freePage_error h
        · rcases K.bind_eq_error.mp h with h | ⟨v, ph3, -, h⟩ <;> cases h
      · rcases K.bind_eq_error.mp h with h | ⟨u, ph2, -, h⟩
        · exact freePage_error h
        rcases K.bind_eq_error.mp h with h | ⟨v, ph3, -, h⟩
        · cases h
        obtain ⟨n, rfl⟩ : ∃ k, n = k + 1 := Nat.exists_eq_succ_of_ne_zero fun hn => hend (by rw [hn, Nat.add_zero])
        rw [addW_of_lt P (page_add_lt (by omega)), pure_bind, ← Nat.succ_mul,
          show p + (n + 1) = p + 1 + n by omega] at h
        exact ih (by omega) (by omega) h

end PageTable

/-! ### Calls and runs -/

inductive PtCall
  | map (va pa len flags : Nat)
  | unmap (va len : Nat) (free : Bool)

namespace PtCall

def exec (P : Profile) (table : Nat) : PtCall → K Phys Bool
  | map va pa len flags => PageTable.map P table va pa len flags
  | unmap va len free => PageTable.unmap P table va len free

/-- The call on the page map. -/
def apply (m : PageMap) : PtCall → PageMap × Bool
  | map va pa len flags => m.map va pa len (flags ||| PTE_V)
  | unmap va len _ => m.unmap va len

def va : PtCall → Nat
  | map va _ _ _ => va
  | unmap va _ _ => va

def len : PtCall → Nat
  | map _ _ len _ => len
  | unmap _ len _ => len

def first (c : PtCall) : Nat := c.va / PGSIZE

def pages (c : PtCall) : Nat := PageMap.pages c.va c.len

/-- The entry that the call leaves at the page `q` of its range. -/
def sets : PtCall → Nat → Option Entry
  | map va pa _ flags, q => some (.new (pa / PGSIZE + (q - va / PGSIZE)) (flags ||| PTE_V))
  | unmap _ _ _, _ => none

def Refuses (m : PageMap) : PtCall → Nat → Prop
  | map va pa _ _, q => ¬m.Accepts q (pa / PGSIZE + (q - va / PGSIZE))
  | unmap _ _ _, q => m q = none

def InRange : PtCall → Prop
  | map va pa len flags => va + len ≤ VA_MAX ∧ pa + len < 2 ^ 56 ∧ isLeaf flags = true
  | unmap va len _ => va + len ≤ VA_MAX

instance (c : PtCall) : Decidable c.InRange :=
  match c with
  | map va pa len flags =>
    inferInstanceAs (Decidable (va + len ≤ VA_MAX ∧ pa + len < 2 ^ 56 ∧ isLeaf flags = true))
  | unmap va len _ => inferInstanceAs (Decidable (va + len ≤ VA_MAX))

/-- The call gives back no page that is one of the tables. -/
def Spares (ph : Phys) (table : Nat) : PtCall → Prop
  | map _ _ _ _ => True
  | unmap va len free => free = true → ∀ q e, va / PGSIZE ≤ q → q < va / PGSIZE + PageMap.pages va len →
      PageTable.denote ph.mem table (q * PGSIZE) = some e → ∀ level, ¬IsTable ph.mem table level e.ppn

/-- The panics of the allocator that the call can end in. -/
def errors : PtCall → List Panic
  | map _ _ _ _ => Pmem.allocErrors
  | unmap _ _ free => if free then .unmapOutOfBounds :: Pmem.freeErrors else []

lemma exec_error {P : Profile} {table : Nat} {c : PtCall} {ph : Phys} {e : Panic} (hr : c.InRange)
    (h : c.exec P table ph = .error e) : e ∈ c.errors := by
  cases c with
  | map va pa len flags => exact PageTable.map_error hr.1 (PageTable.ppn_le hr.2.1) h
  | unmap va len free =>
    dsimp only [exec, PageTable.unmap] at h
    split_ifs at h with hlen
    · cases h
    · rw [PageTable.last_eq hlen hr, alignDown_eq] at h
      have hpos := PageTable.pages_pos va hlen
      have hle := PageTable.pages_le hr
      obtain ⟨rfl, he⟩ := PageTable.unmapFrom_error (by omega) (PageTable.fuel_lt _ _) h
      exact he

/-- What the call does to a page map: the pages of its range up to the first that refuses. -/
lemma apply_eq (c : PtCall) (m : PageMap) : ∃ k ≤ c.pages, (c.apply m).1 = m.replace c.first k c.sets ∧
    ((c.apply m).2 = true ↔ c.len ≠ 0 ∧ k = c.pages) ∧
    (c.len ≠ 0 → k < c.pages → c.Refuses m (c.first + k)) := by
  cases c with
  | map va pa len flags =>
    dsimp only [apply, PageMap.map, pages, first, PtCall.len, PtCall.va, sets, Refuses]
    split_ifs with hlen
    · exact ⟨0, Nat.zero_le _, (PageMap.replace_zero ..).symm, by simp [hlen], fun h => absurd hlen h⟩
    · obtain ⟨k, hk, heq, hnext⟩ := PageMap.mapPages_eq (flags ||| PTE_V) (PageMap.pages va len) (va / PGSIZE)
        (pa / PGSIZE) m
      refine ⟨k, hk, by rw [heq]; rfl, by simp [heq, hlen], fun _ hlt => ?_⟩
      rw [Nat.add_sub_cancel_left]
      exact hnext hlt
  | unmap va len free =>
    dsimp only [apply, PageMap.unmap, pages, first, PtCall.len, PtCall.va, sets, Refuses]
    split_ifs with hlen
    · exact ⟨0, Nat.zero_le _, (PageMap.replace_zero ..).symm, by simp [hlen], fun h => absurd hlen h⟩
    · obtain ⟨k, hk, heq, hnext, -⟩ := PageMap.unmapPages_eq (PageMap.pages va len) (va / PGSIZE) m
      exact ⟨k, hk, by rw [heq]; rfl, by simp [heq, hlen], fun _ hlt => hnext hlt⟩

end PtCall

/-- The states that calls on `table` reach, with the page map that the same calls give. -/
inductive PtRun (P : Profile) (table : Nat) : Phys → PageMap → Prop
  | start {ph : Phys} (hz : ∀ i < 512, ph.mem table i = 0) (hp : ∃ free, PmemInv ph free (· = table)) :
      PtRun P table ph fun _ => none
  | call {ph ph' : Phys} {m : PageMap} {c : PtCall} {b : Bool} (h : PtRun P table ph m) (hr : c.InRange)
      (hs : c.Spares ph table) (he : c.exec P table ph = .ok (b, ph')) : PtRun P table ph' (c.apply m).1
  | other {ph ph' : Phys} {m : PageMap} (h : PtRun P table ph m)
      (hm : ∀ level n, IsTable ph.mem table level n → ph'.mem n = ph.mem n)
      (hp : ∃ free, PmemInv ph' free fun n => ∃ level, IsTable ph.mem table level n) : PtRun P table ph' m

variable {P : Profile} {table : Nat} {ph ph' : Phys} {m : PageMap}

lemma Tree.empty {mem : Nat → Nat → Nat} (hz : ∀ i < 512, mem table i = 0) :
    Tree mem table (fun s => if s = [] then some table else none) fun _ => none := by
  refine ⟨rfl, fun s i n hn => ?_, fun s s' n hs hs' => ?_, fun s n hs hlen i hi => ?_, fun s n hs hlen i hi => ?_,
    fun p e he => by cases he⟩
  · rw [if_neg (by simp)] at hn
    cases hn
  · split_ifs at hs hs'
    simp [*]
  · split_ifs at hs
    cases hs
    rw [hz i hi, if_neg (by simp)]
    rfl
  · split_ifs at hs with hnil
    simp [hnil] at hlen

lemma PtInv.exec {node : List Nat → Option Nat} {used : Nat → Prop} {c : PtCall} {b : Bool}
    (h : PtInv ph table node m used) (hr : c.InRange) (hs : c.Spares ph table)
    (he : c.exec P table ph = .ok (b, ph')) :
    (∃ node' used', PtInv ph' table node' (c.apply m).1 used') ∧ b = (c.apply m).2 := by
  cases c with
  | map va pa len flags =>
    obtain ⟨node', used', m', hinv, -, hm⟩ := PageTable.map_ok hr.2.2 hr.1 (PageTable.ppn_le hr.2.1) h he
    rw [PtCall.apply, hm]
    exact ⟨⟨node', used', hinv⟩, rfl⟩
  | unmap va len free =>
    have hspare : free = true → ∀ q e, va / PGSIZE ≤ q → q < va / PGSIZE + PageMap.pages va len → m q = some e →
        ∀ s, node s ≠ some e.ppn := by
      intro hf q e hq hq' hm s hn
      have hle := h.tree.length_le hn
      have hpages := PageTable.pages_le hr
      have hpage : q * PGSIZE < VA_MAX := PageTable.page_lt (by omega)
      refine hs hf q e hq hq' ?_ (2 - s.length) (h.tree.isTable_iff.mpr ⟨s, hn, by omega⟩)
      rw [h.tree.denote_eq hpage, Nat.mul_div_cancel _ (by decide), hm]
    obtain ⟨used', m', hinv, -, hm⟩ := PageTable.unmap_ok hr h hspare he
    rw [PtCall.apply, hm]
    exact ⟨⟨node, used', hinv⟩, rfl⟩

theorem PtRun.inv (h : PtRun P table ph m) : ∃ node used, PtInv ph table node m used := by
  induction h with
  | start hz hp =>
    refine ⟨_, _, Tree.empty hz, hp, fun s n hs => ?_⟩
    split_ifs at hs
    exact (Option.some.inj hs).symm
  | call _ hr hs he ih =>
    obtain ⟨node, used, h⟩ := ih
    exact (h.exec hr hs he).1
  | @other ph0 ph1 _ _ hm hp ih =>
    obtain ⟨node, used, h⟩ := ih
    have htable : ∀ s n, node s = some n → ∃ level, IsTable ph0.mem table level n := by
      intro s n hs
      have hle := h.tree.length_le hs
      exact ⟨2 - s.length, h.tree.isTable_iff.mpr ⟨s, hs, by omega⟩⟩
    refine ⟨node, _, h.tree.congr fun s n hs => ?_, hp, htable⟩
    obtain ⟨level, ht⟩ := htable s n hs
    exact hm level n ht

/-- Page tables refine page maps: `lookup` denotes the entry of the map, a call changes the pages
of its range up to the first one that refuses, and the tables form a tree. -/
theorem page_table_refines (h : PtRun P table ph m) :
    (∀ va < VA_MAX, PageTable.denote ph.mem table va = m (va / PGSIZE)) ∧
    (∀ level n, level < 2 → IsTable ph.mem table level n →
      ∃! x : Nat × Nat, (∃ l, IsTable ph.mem table (l + 1) x.1) ∧ x.2 < 512 ∧
        isTable (ph.mem x.1 x.2) = true ∧ getPpn (ph.mem x.1 x.2) = n) ∧
    ∀ c : PtCall, c.InRange → c.Spares ph table →
      (∀ e, c.exec P table ph = .error e → e ∈ c.errors) ∧
      ∀ b ph', c.exec P table ph = .ok (b, ph') → ∃ k ≤ c.pages,
        (b = true ↔ c.len ≠ 0 ∧ k = c.pages) ∧
        (c.len ≠ 0 → k < c.pages → c.Refuses m (c.first + k)) ∧
        ∀ va < VA_MAX, PageTable.denote ph'.mem table va = m.replace c.first k c.sets (va / PGSIZE) := by
  obtain ⟨node, used, hinv⟩ := h.inv
  refine ⟨fun va hva => hinv.tree.denote_eq hva, fun level n hlevel ht => hinv.tree.parent_unique hlevel ht,
    fun c hr hs => ⟨fun e he => PtCall.exec_error hr he, fun b ph' he => ?_⟩⟩
  obtain ⟨⟨node', used', hinv'⟩, rfl⟩ := hinv.exec hr hs he
  obtain ⟨k, hk, heq, hret, href⟩ := c.apply_eq m
  refine ⟨k, hk, hret, href, fun va hva => ?_⟩
  rw [← heq]
  exact hinv'.tree.denote_eq hva

/-- Two free pages in the kernel region, and a zeroed table below them. -/
def twoPages : Phys where
  mem n i := if n = 0x80002 ∧ i = 0 then 0x80001000 else 0
  pageRef _ := 0
  region k := if k then ⟨0x80001000, 0x80003000, some 0x80002000, 2⟩ else ⟨0x80003000, 0x80003000, none, 0⟩

lemma twoPages_run : PtRun P 0x80000 twoPages fun _ => none := by
  refine .start (fun i _ => rfl) ⟨fun k => if k then [0x80002000, 0x80001000] else [], ?_⟩
  refine ⟨?_, ?_, ?_, ?_, fun _ _ _ => rfl, ?_, by decide, by decide⟩
  · intro k
    cases k with
    | false => rfl
    | true => exact ⟨rfl, rfl, rfl⟩
  all_goals decide

theorem page_table_refines_twoPages :
    ∃ ph, (PtCall.map 0 0x1000 1 PTE_R).exec .dev 0x80000 twoPages = .ok (true, ph) ∧
      PageTable.denote ph.mem 0x80000 0 = some ⟨1, PTE_R ||| PTE_V⟩ := by
  have hex : ∃ ph, (PtCall.map 0 0x1000 1 PTE_R).exec .dev 0x80000 twoPages = .ok (true, ph) := ⟨_, rfl⟩
  obtain ⟨ph, he⟩ := hex
  have hs : (PtCall.map 0 0x1000 1 PTE_R).Spares twoPages 0x80000 := trivial
  exact ⟨ph, he, (page_table_refines (.call twoPages_run (by decide) hs he)).1 0 (by decide)⟩

/-- The results of a series of calls, and what `lookup` then denotes at an address. -/
def observe (cs : List PtCall) (va : Nat) : K Phys (List Bool × Option Entry) := do
  let bs ← cs.mapM (PtCall.exec .dev 0x80000)
  return (bs, PageTable.denote (← get).mem 0x80000 va)

/-- Flags above bit 9 are dropped, a physical address of `2 ^ 56` is stored as 0, and freeing the page
of a table takes pages outside the range away. -/
theorem page_table_edges :
    (PtRun .dev 0x80000 twoPages fun _ => none) ∧
    (∀ c ∈ [PtCall.map 0 0x1000 1 (PTE_R ||| 1024), .map 4095 (2 ^ 56 - 4096) 2 PTE_R, .map 0 0x1000 1 PTE_R,
      .map 4096 0x80002000 1 PTE_R, .unmap 4096 1 true], c.InRange) ∧
    (observe [.map 0 0x1000 1 (PTE_R ||| 1024)] 0).run' twoPages = .ok ([true], some ⟨1, PTE_R ||| PTE_V⟩) ∧
    (observe [.map 4095 (2 ^ 56 - 4096) 2 PTE_R] 4096).run' twoPages = .ok ([true], some ⟨0, PTE_R ||| PTE_V⟩) ∧
    (observe [.map 0 0x1000 1 PTE_R, .map 4096 0x80002000 1 PTE_R, .unmap 4096 1 true] 0).run' twoPages =
      .ok ([true, true, true], none) := by
  exact ⟨twoPages_run, by decide, rfl, rfl, rfl⟩

end Glenda.Mem
