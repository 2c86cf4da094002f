import Glenda.Mem.Pmem
import Glenda.Mem.PageMap

/-!
# Page tables

Model of `PageTable::walk`, `lookup`, `map` and `unmap`. A table is named by the number of
its page and an entry by its table and its index. `Tree` relates memory to the page map that
it represents: the tables of the levels 2, 1 and 0 stand at the paths `[]`, `[i]` and
`[i, j]`, and no page is the table of two paths.
-/

namespace Glenda.Mem
open Glenda.Lib
open Function (update update_of_ne update_self)

namespace PageTable

/-- The loop of `walk` from a table of the given level. -/
def walkFrom (va : Nat) (alloc : Bool) : Nat → Nat → K Phys (Option (Nat × Nat))
  | 0, table => return some (table, vpn va 0)
  | level + 1, table => do
    let pte := (← get).mem table (vpn va (level + 1))
    if isValid pte then
      if isLeaf pte then return none
      else if getPpn pte = 0 then return none
      else walkFrom va alloc level (getPpn pte)
    else if alloc then
      let pa ← Pmem.alloc true
      if pa = 0 then return none
      else
        modify (·.zeroPage (pa / PGSIZE))
        modify (·.setWord table (vpn va (level + 1)) (paToPte pa PTE_V))
        walkFrom va alloc level (pa / PGSIZE)
    else return none

def walk (table va : Nat) (alloc : Bool) : K Phys (Option (Nat × Nat)) :=
  if VA_MAX ≤ va then return none else walkFrom va alloc 2 table

def lookupFrom (mem : Nat → Nat → Nat) (va : Nat) : Nat → Nat → Option (Nat × Nat)
  | 0, table => some (table, vpn va 0)
  | level + 1, table =>
    let pte := mem table (vpn va (level + 1))
    if isValid pte then
      if isLeaf pte then none
      else if getPpn pte = 0 then none
      else lookupFrom mem va level (getPpn pte)
    else none

def lookup (mem : Nat → Nat → Nat) (table va : Nat) : Option (Nat × Nat) :=
  if VA_MAX ≤ va then none else lookupFrom mem va 2 table

variable (P : Profile)

/-- The loop of `map`, for at most `fuel` pages. -/
def mapFrom (table last flags : Nat) : Nat → Nat → Nat → K Phys Bool
  | 0, _, _ => throw .diverge
  | fuel + 1, a, paCur => do
    if last < a then return true
    else
      match ← walk table a true with
      | none => return false
      | some (n, i) =>
        let cur := (← get).mem n i
        if isValid cur && (!isLeaf cur || pteToPa cur ≠ paCur) then return false
        else
          modify (·.setWord n i (paToPte paCur (flags ||| PTE_V)))
          if a = last then return true
          else
            let a ← addW P 64 a PGSIZE
            let paCur ← addW P 64 paCur PGSIZE
            mapFrom table last flags fuel a paCur

def map (table va pa len flags : Nat) : K Phys Bool := do
  if len = 0 then return false
  else
    let sum ← addW P 64 va len
    let upper ← alignUp P sum
    let last ← subW P 64 upper PGSIZE
    mapFrom P table last flags (last / PGSIZE + 1) (alignDown va) (alignDown pa)

/-- The part of `unmap` that gives a page back. -/
def freePage (free : Bool) (pa : Nat) : K Phys Unit := do
  if free then
    match Pmem.getRegion pa (← get) with
    | some _ => Pmem.free pa
    | none => throw .unmapOutOfBounds

def unmapFrom (table last : Nat) (free : Bool) : Nat → Nat → K Phys Bool
  | 0, _ => throw .diverge
  | fuel + 1, a => do
    if last < a then return true
    else
      let ph ← get
      match lookup ph.mem table a with
      | none => return false
      | some (n, i) =>
        let old := ph.mem n i
        if !isValid old || !isLeaf old then return false
        else
          freePage free (pteToPa old)
          modify (·.setWord n i 0)
          if a = last then return true
          else
            let a ← addW P 64 a PGSIZE
            unmapFrom table last free fuel a

def unmap (table va len : Nat) (free : Bool) : K Phys Bool := do
  if len = 0 then return false
  else
    let sum ← addW P 64 va len
    let upper ← alignUp P sum
    let last ← subW P 64 upper PGSIZE
    unmapFrom P table last free (last / PGSIZE + 1) (alignDown va)

/-- The entry that `lookup` denotes. -/
def denote (mem : Nat → Nat → Nat) (table va : Nat) : Option Entry :=
  match lookup mem table va with
  | none => none
  | some (n, i) => if isValid (mem n i) then some ⟨getPpn (mem n i), mem n i % 1024⟩ else none

end PageTable

/-! ### The tree in memory -/

/-- The number of the page at index `i` of the level 0 table at the path `s`. -/
def pageNo (s : List Nat) (i : Nat) : Nat := s.foldl (fun x j => x * 512 + j) 0 * 512 + i

def encTable : Option Nat → Nat
  | none => 0
  | some n => n * 1024 + 1

def encLeaf : Option Entry → Nat
  | none => 0
  | some e => e.ppn * 1024 + e.flags

/-- An entry that `map` can have written. -/
structure Entry.WF (e : Entry) : Prop where
  ppn : e.ppn < 2 ^ 44
  flags : e.flags < 1024
  valid : isValid e.flags = true
  leaf : isLeaf e.flags = true

structure Tree (mem : Nat → Nat → Nat) (table : Nat) (node : List Nat → Option Nat) (m : PageMap) : Prop where
  root : node [] = some table
  parent : ∀ s i n, node (s ++ [i]) = some n →
    (∃ q, node s = some q) ∧ s.length < 2 ∧ i < 512 ∧ 0 < n ∧ n < 2 ^ 44
  inj : ∀ s s' n, node s = some n → node s' = some n → s = s'
  table : ∀ s n, node s = some n → s.length < 2 → ∀ i < 512, mem n i = encTable (node (s ++ [i]))
  leaf : ∀ s n, node s = some n → s.length = 2 → ∀ i < 512, mem n i = encLeaf (m (pageNo s i))
  present : ∀ p e, m p = some e → e.WF ∧ ∃ s n i, node s = some n ∧ s.length = 2 ∧ i < 512 ∧ pageNo s i = p

lemma encTable_eq {n : Nat} (hn : n < 2 ^ 44) : encTable (some n) = paToPte (n * PGSIZE) PTE_V := by
  rw [paToPte_eq]
  dsimp only [encTable, PGSIZE, PTE_V]
  omega

lemma isValid_encTable (o : Option Nat) : (∀ n, o = some n → n < 2 ^ 44) →
    isValid (encTable o) = o.isSome := by
  intro hn
  cases o with
  | none => rfl
  | some n =>
    rw [encTable_eq (hn n rfl), isValid_paToPte]
    rfl

lemma isLeaf_encTable {n : Nat} (hn : n < 2 ^ 44) : isLeaf (encTable (some n)) = false := by
  rw [encTable_eq hn, isLeaf_paToPte]
  rfl

lemma getPpn_encTable {n : Nat} (hn : n < 2 ^ 44) : getPpn (encTable (some n)) = n := by
  rw [encTable_eq hn, getPpn_paToPte]
  unfold PGSIZE
  omega

namespace Entry.WF

variable {e : Entry}

lemma enc_eq (h : e.WF) : encLeaf (some e) = paToPte (e.ppn * PGSIZE) e.flags := by
  have hp := h.ppn
  have hf := h.flags
  rw [paToPte_eq]
  dsimp only [encLeaf, PGSIZE]
  omega

lemma isValid (h : e.WF) : Mem.isValid (encLeaf (some e)) = true := by
  rw [h.enc_eq, isValid_paToPte, h.valid]

lemma isLeaf (h : e.WF) : Mem.isLeaf (encLeaf (some e)) = true := by
  rw [h.enc_eq, isLeaf_paToPte, h.leaf]

lemma getPpn (h : e.WF) : Mem.getPpn (encLeaf (some e)) = e.ppn := by
  have hp := h.ppn
  rw [h.enc_eq, getPpn_paToPte]
  unfold PGSIZE
  omega

lemma mod (h : e.WF) : encLeaf (some e) % 1024 = e.flags := by
  have hf := h.flags
  dsimp only [encLeaf]
  omega

end Entry.WF

namespace Tree

variable {mem mem' : Nat → Nat → Nat} {table : Nat} {node : List Nat → Option Nat} {m : PageMap}
  {s : List Nat} {i n q : Nat}

lemma congr (h : Tree mem table node m) (hm : ∀ s n, node s = some n → mem' n = mem n) :
    Tree mem' table node m := by
  refine ⟨h.root, h.parent, h.inj, fun s n hs hlen i hi => ?_, fun s n hs hlen i hi => ?_, h.present⟩
  · rw [hm s n hs]
    exact h.table s n hs hlen i hi
  · rw [hm s n hs]
    exact h.leaf s n hs hlen i hi

lemma path_eq (h : Tree mem table node m) (hs : node s = some n) (hlen : s.length = 2) :
    ∃ a b, s = [a, b] ∧ a < 512 ∧ b < 512 := by
  obtain ⟨a, b, rfl⟩ := List.length_eq_two.mp hlen
  obtain ⟨⟨q, hq⟩, -, hb, -, -⟩ := h.parent [a] b n hs
  obtain ⟨-, -, ha, -, -⟩ := h.parent [] a q hq
  exact ⟨a, b, rfl, ha, hb⟩

lemma pageNo_injective {a b i a' b' i' : Nat} (hb : b < 512) (hi : i < 512) (hb' : b' < 512) (hi' : i' < 512)
    (h : pageNo [a, b] i = pageNo [a', b'] i') : [a, b] = [a', b'] ∧ i = i' := by
  simp only [pageNo, List.foldl_cons, List.foldl_nil] at h
  have h1 : a = a' := by omega
  have h2 : b = b' := by omega
  exact ⟨by rw [h1, h2], by omega⟩

section

variable (h : Tree mem table node m)
include h

lemma length_le (hs : node s = some n) : s.length ≤ 2 := by
  rcases List.eq_nil_or_concat s with rfl | ⟨s, i, rfl⟩
  · simp
  · rw [List.concat_eq_append] at hs ⊢
    have hlen := (h.parent s i n hs).2.1
    simp
    omega

lemma absent {a b : Nat} (hn : node [a, b] = none) (hb : b < 512)
    (hi : i < 512) : m (pageNo [a, b] i) = none := by
  by_contra hne
  obtain ⟨e, he⟩ := Option.ne_none_iff_exists'.mp hne
  obtain ⟨-, s, n, j, hs, hlen, hj, heq⟩ := h.present _ e he
  obtain ⟨a', b', rfl, -, hb'⟩ := h.path_eq hs hlen
  obtain ⟨hab, -⟩ := pageNo_injective hb' hj hb hi heq
  rw [hab, hn] at hs
  cases hs

lemma child_lt (hs : node (s ++ [i]) = some n) : n < 2 ^ 44 :=
  (h.parent s i n hs).2.2.2.2

lemma addChild (hs : node s = some q) (hlen : s.length < 2) (hi : i < 512)
    (hnone : node (s ++ [i]) = none) (hfresh : ∀ s', node s' ≠ some n) (hpos : 0 < n) (hlt : n < 2 ^ 44)
    (hnew : mem' n = fun _ => 0) (hq : mem' q = update (mem q) i (encTable (some n)))
    (hother : ∀ k, k ≠ n → k ≠ q → mem' k = mem k) :
    Tree mem' table (update node (s ++ [i]) (some n)) m := by
  have hold : ∀ s' n', update node (s ++ [i]) (some n) s' = some n' →
      s' = s ++ [i] ∧ n' = n ∨ s' ≠ s ++ [i] ∧ node s' = some n' ∧ n' ≠ n := by
    intro s' n' hs'
    by_cases he : s' = s ++ [i]
    · subst he
      rw [update_self] at hs'
      exact .inl ⟨rfl, (Option.some.inj hs').symm⟩
    · rw [update_of_ne he] at hs'
      exact .inr ⟨he, hs', fun hn => hfresh s' (hn ▸ hs')⟩
  have hchild : ∀ j, node (s ++ [i] ++ [j]) = none := by
    intro j
    by_contra hne
    obtain ⟨k, hk⟩ := Option.ne_none_iff_exists'.mp hne
    obtain ⟨⟨q', hq'⟩, -⟩ := h.parent _ j k hk
    rw [hnone] at hq'
    cases hq'
  refine ⟨?_, fun s' j k hk => ?_, fun s' s'' k hk hk' => ?_, fun s' k hk hl j hj => ?_,
    fun s' k hk hl j hj => ?_, fun p e he => ?_⟩
  · rw [update_of_ne (by simp)]
    exact h.root
  · have hpar : ∀ q', node s' = some q' → ∃ q', update node (s ++ [i]) (some n) s' = some q' := by
      intro q' hq'
      by_cases he : s' = s ++ [i]
      · exact ⟨n, by rw [he, update_self]⟩
      · exact ⟨q', by rw [update_of_ne he, hq']⟩
    rcases hold _ _ hk with ⟨he, rfl⟩ | ⟨-, hk, -⟩
    · obtain ⟨rfl, hji⟩ := List.append_inj' he rfl
      obtain rfl : j = i := by simpa using hji
      exact ⟨hpar q hs, hlen, hi, hpos, hlt⟩
    · obtain ⟨⟨q', hq'⟩, hrest⟩ := h.parent s' j k hk
      exact ⟨hpar q' hq', hrest⟩
  · rcases hold _ _ hk with ⟨rfl, rfl⟩ | ⟨-, hk, hne⟩
    · rcases hold _ _ hk' with ⟨rfl, -⟩ | ⟨-, -, hne⟩
      · rfl
      · exact absurd rfl hne
    · rcases hold _ _ hk' with ⟨-, he⟩ | ⟨-, hk', -⟩
      · exact absurd he hne
      · exact h.inj s' s'' k hk hk'
  · rcases hold _ _ hk with ⟨rfl, rfl⟩ | ⟨-, hk0, hne⟩
    · rw [hnew, update_of_ne (by simp), hchild]
      rfl
    · by_cases hss : s' = s
      · subst hss
        obtain rfl : k = q := Option.some.inj (hk0.symm.trans hs)
        rw [hq]
        by_cases hji : j = i
        · subst hji
          rw [update_self, update_self]
        · rw [update_of_ne hji, update_of_ne (by simpa using hji)]
          exact h.table s' k hs hl j hj
      · have hkq : k ≠ q := fun he => hss (h.inj s' s k hk0 (he ▸ hs))
        have hpath : s' ++ [j] ≠ s ++ [i] := fun he => hss (List.append_inj' he rfl).1
        rw [hother k hne hkq, update_of_ne hpath]
        exact h.table s' k hk0 hl j hj
  · rcases hold _ _ hk with ⟨rfl, rfl⟩ | ⟨-, hk, hne⟩
    · obtain ⟨a, rfl⟩ : ∃ a, s = [a] := List.length_eq_one_iff.mp (by simpa using hl)
      rw [hnew]
      dsimp only
      rw [show ([a] ++ [i] : List Nat) = [a, i] from rfl, h.absent hnone hi hj]
      rfl
    · have hkq : k ≠ q := by
        intro he
        have hss := h.inj s' s k hk (he ▸ hs)
        rw [hss] at hl
        omega
      rw [hother k hne hkq]
      exact h.leaf s' k hk hl j hj
  · obtain ⟨hwf, s', k, j, hk, hrest⟩ := h.present p e he
    refine ⟨hwf, s', k, j, ?_, hrest⟩
    rw [update_of_ne]
    · exact hk
    · rintro rfl
      rw [hnone] at hk
      cases hk

lemma setLeaf (hs : node s = some n) (hlen : s.length = 2) (hi : i < 512)
    {o : Option Entry} (hwf : ∀ e, o = some e → e.WF) (hn : mem' n = update (mem n) i (encLeaf o))
    (hother : ∀ k, k ≠ n → mem' k = mem k) : Tree mem' table node (update m (pageNo s i) o) := by
  obtain ⟨a, b, rfl, -, hb⟩ := h.path_eq hs hlen
  refine ⟨h.root, h.parent, h.inj, fun s' k hk hl j hj => ?_, fun s' k hk hl j hj => ?_, fun p e he => ?_⟩
  · have hkn : k ≠ n := by
      intro he
      rw [h.inj s' [a, b] k hk (he ▸ hs)] at hl
      simp at hl
    rw [hother k hkn]
    exact h.table s' k hk hl j hj
  · obtain ⟨a', b', rfl, -, hb'⟩ := h.path_eq hk hl
    by_cases hkn : k = n
    · subst hkn
      have hss := h.inj _ _ k hk hs
      rw [hn, hss]
      by_cases hji : j = i
      · rw [hji, update_self, update_self]
      · have hne : pageNo [a, b] j ≠ pageNo [a, b] i :=
          fun he => hji (pageNo_injective hb hj hb hi he).2
        rw [update_of_ne hji, update_of_ne hne]
        exact h.leaf _ k hs hlen j hj
    · have hne : pageNo [a', b'] j ≠ pageNo [a, b] i := by
        intro he
        rw [(pageNo_injective hb' hj hb hi he).1] at hk
        exact hkn (Option.some.inj (hk.symm.trans hs))
      rw [hother k hkn, update_of_ne hne]
      exact h.leaf _ k hk hl j hj
  · by_cases hp : p = pageNo [a, b] i
    · subst hp
      rw [update_self] at he
      exact ⟨hwf e he, [a, b], n, i, hs, hlen, hi, rfl⟩
    · rw [update_of_ne hp] at he
      exact h.present p e he

end

end Tree

/-! ### Looking up a page -/

lemma vpn_lt (va level : Nat) : vpn va level < 512 := by
  rw [vpn_eq]
  exact Nat.mod_lt _ (by decide)

lemma pageNo_va {va : Nat} (hva : va < VA_MAX) : pageNo [vpn va 2, vpn va 1] (vpn va 0) = va / PGSIZE := by
  unfold VA_MAX at hva
  simp only [pageNo, List.foldl_cons, List.foldl_nil, vpn_eq, PGSIZE]
  norm_num
  omega

namespace Tree

variable {mem mem' : Nat → Nat → Nat} {table : Nat} {node : List Nat → Option Nat} {m : PageMap}
  {s : List Nat} {i n q va : Nat}

lemma pte_eq (h : Tree mem table node m) (hs : node s = some q) (hlen : s.length < 2) (hi : i < 512) :
    isValid (mem q i) = (node (s ++ [i])).isSome ∧
      ∀ n, node (s ++ [i]) = some n → isLeaf (mem q i) = false ∧ getPpn (mem q i) = n ∧ n ≠ 0 := by
  rw [h.table s q hs hlen i hi]
  refine ⟨isValid_encTable _ fun n hn => h.child_lt hn, fun n hn => ?_⟩
  have hlt := h.child_lt hn
  have hpos := (h.parent s i n hn).2.2.2.1
  rw [hn]
  exact ⟨isLeaf_encTable hlt, getPpn_encTable hlt, by omega⟩

lemma lookupFrom_succ (h : Tree mem table node m) (hs : node s = some q) (hlen : s.length < 2) (va level : Nat) :
    PageTable.lookupFrom mem va (level + 1) q =
      (node (s ++ [vpn va (level + 1)])).bind (PageTable.lookupFrom mem va level) := by
  obtain ⟨hvalid, htable⟩ := h.pte_eq hs hlen (vpn_lt va (level + 1))
  rw [PageTable.lookupFrom]
  cases hn : node (s ++ [vpn va (level + 1)]) with
  | none => simp [hvalid, hn]
  | some n =>
    obtain ⟨hleaf, hppn, hne⟩ := htable n hn
    simp [hvalid, hn, hleaf, hppn, hne]

lemma lookup_eq (h : Tree mem table node m) (hva : va < VA_MAX) :
    PageTable.lookup mem table va = (node [vpn va 2, vpn va 1]).map fun n => (n, vpn va 0) := by
  unfold PageTable.lookup
  rw [if_neg (by omega), h.lookupFrom_succ h.root (by simp)]
  cases hn : node ([] ++ [vpn va 2]) with
  | none =>
    cases hn' : node [vpn va 2, vpn va 1] with
    | none => rfl
    | some n =>
      obtain ⟨⟨q, hq⟩, -⟩ := h.parent [vpn va 2] (vpn va 1) n hn'
      rw [List.nil_append] at hn
      rw [hn] at hq
      cases hq
  | some n =>
    rw [Option.bind_some, h.lookupFrom_succ hn (by simp)]
    cases hn' : node ([] ++ [vpn va 2] ++ [vpn va 1]) with
    | none =>
      rw [show node [vpn va 2, vpn va 1] = none from hn']
      rfl
    | some k =>
      rw [show node [vpn va 2, vpn va 1] = some k from hn']
      rfl

/-- `lookup` denotes the entry of the page map. -/
theorem denote_eq (h : Tree mem table node m) (hva : va < VA_MAX) :
    PageTable.denote mem table va = m (va / PGSIZE) := by
  unfold PageTable.denote
  rw [h.lookup_eq hva, ← pageNo_va hva]
  cases hn : node [vpn va 2, vpn va 1] with
  | none => exact (h.absent hn (vpn_lt va 1) (vpn_lt va 0)).symm
  | some n =>
    rw [Option.map_some]
    dsimp only
    rw [h.leaf _ n hn rfl _ (vpn_lt va 0)]
    cases he : m (pageNo [vpn va 2, vpn va 1] (vpn va 0)) with
    | none => rfl
    | some e =>
      have hwf := (h.present _ e he).1
      rw [hwf.isValid, hwf.getPpn, hwf.mod]
      rfl

end Tree

end Glenda.Mem
