import Glenda.Mem.Holders
import Glenda.Mem.PageTableCopy

/-!
# Destroying a page table

`destroy` frees the tables below the root and the pages of the user region that the table maps. The
proof follows the recursion: what lies below one entry goes at a time. `Pruned` says which entries are gone.
-/

namespace Glenda.Mem
open Glenda.Lib
open Function (update update_of_ne update_self)

variable {q : Nat} {e : Entry} {G : List Nat → Prop}

/-- The indices on the way to the entry of a page. -/
def entryPath (q : Nat) : List Nat := [q / 512 / 512, q / 512 % 512, q % 512]

lemma entryPath_pageNo {a b i : Nat} (hb : b < 512) (hi : i < 512) : entryPath (pageNo [a, b] i) = [a, b, i] := by
  have hq : pageNo [a, b] i = (a * 512 + b) * 512 + i := by simp [pageNo]
  unfold entryPath
  rw [hq]
  simp only [List.cons.injEq, and_true]
  omega

structure Pruned (node node' : List Nat → Option Nat) (m m' : PageMap) (D : List Nat → Prop) : Prop where
  node_of : ∀ t, D t → node' t = none
  node_eq : ∀ t, ¬D t → node' t = node t
  leaf_of : ∀ q, D (entryPath q) → m' q = none
  leaf_eq : ∀ q, ¬D (entryPath q) → m' q = m q

namespace Pruned

variable {node node' node'' : List Nat → Option Nat} {m m' m'' : PageMap} {D D' : List Nat → Prop}

lemma refl (node : List Nat → Option Nat) (m : PageMap) : Pruned node node m m fun _ => False :=
  ⟨fun _ h => h.elim, fun _ _ => rfl, fun _ h => h.elim, fun _ _ => rfl⟩

lemma trans (h : Pruned node node' m m' D) (h' : Pruned node' node'' m' m'' D') :
    Pruned node node'' m m'' fun t => D t ∨ D' t := by
  refine ⟨fun t ht => ?_, fun t ht => ?_, fun q hq => ?_, fun q hq => ?_⟩
  · by_cases hD' : D' t
    · exact h'.node_of t hD'
    · rw [h'.node_eq t hD', h.node_of t (ht.resolve_right hD')]
  · rw [not_or] at ht
    rw [h'.node_eq t ht.2, h.node_eq t ht.1]
  · by_cases hD' : D' (entryPath q)
    · exact h'.leaf_of q hD'
    · rw [h'.leaf_eq q hD', h.leaf_of q (hq.resolve_right hD')]
  · rw [not_or] at hq
    rw [h'.leaf_eq q hq.2, h.leaf_eq q hq.1]

lemma congr (h : Pruned node node' m m' D) (hD : ∀ t, D t ↔ D' t) : Pruned node node' m m' D' := by
  obtain rfl : D = D' := funext fun t => propext (hD t)
  exact h

lemma node_sub (h : Pruned node node' m m' D) {t : List Nat} {n : Nat} (ht : node' t = some n) : node t = some n := by
  by_cases hD : D t
  · rw [h.node_of t hD] at ht
    cases ht
  · rwa [← h.node_eq t hD]

lemma leaf_sub (h : Pruned node node' m m' D) (hq : m' q = some e) : m q = some e := by
  by_cases hD : D (entryPath q)
  · rw [h.leaf_of q hD] at hq
    cases hq
  · rwa [← h.leaf_eq q hD]

end Pruned

lemma Tree.dropNode {mem mem' : Nat → Nat → Nat} {table n c i : Nat} {node : List Nat → Option Nat} {m : PageMap}
    {s : List Nat} (h : Tree mem table node m) (hs : node s = some n) (hc : node (s ++ [i]) = some c)
    (hbelow : ∀ j, node (s ++ [i] ++ [j]) = none) (hleaf : ∀ q e, m q = some e → ¬s ++ [i] <+: entryPath q)
    (hn : mem' n = update (mem n) i 0) (hother : ∀ k, k ≠ n → k ≠ c → mem' k = mem k) :
    Tree mem' table (update node (s ++ [i]) none) m := by
  have hsub : ∀ t x, update node (s ++ [i]) none t = some x → node t = some x ∧ t ≠ s ++ [i] := by
    intro t x ht
    by_cases hts : t = s ++ [i]
    · rw [hts, update_self] at ht
      cases ht
    · rw [update_of_ne hts] at ht
      exact ⟨ht, hts⟩
  have hkeep : ∀ t x, node t = some x → t ≠ s ++ [i] → update node (s ++ [i]) none t = some x := by
    intro t x ht hts
    rwa [update_of_ne hts]
  obtain ⟨-, hlen, hi, -, -⟩ := h.parent s i c hc
  refine ⟨hkeep [] table h.root (by simp), fun t j x ht => ?_, fun t t' x ht ht' => ?_, fun t x ht hl j hj => ?_,
    fun t x ht hl j hj => ?_, fun p e he => ?_⟩
  · obtain ⟨⟨q, hq⟩, hrest⟩ := h.parent t j x (hsub _ x ht).1
    refine ⟨⟨q, hkeep t q hq ?_⟩, hrest⟩
    rintro rfl
    have hnone := hbelow j
    rw [(hsub _ x ht).1] at hnone
    cases hnone
  · exact h.inj t t' x (hsub t x ht).1 (hsub t' x ht').1
  · obtain ⟨htn, hts⟩ := hsub t x ht
    have hxc : x ≠ c := fun he => hts (h.inj t _ x htn (he ▸ hc))
    by_cases hxn : x = n
    · subst hxn
      have hst := h.inj t s x htn hs
      rw [hst] at htn hl ⊢
      rw [hn]
      by_cases hji : j = i
      · rw [hji, update_self, update_self]
        rfl
      · rw [update_of_ne hji, update_of_ne (by simpa using hji)]
        exact h.table s x htn hl j hj
    · have hne : t ++ [j] ≠ s ++ [i] := by
        intro he
        obtain ⟨hst, -⟩ := List.append_inj' he rfl
        rw [hst] at htn
        exact hxn (Option.some.inj (htn.symm.trans hs))
      rw [hother x hxn hxc, update_of_ne hne]
      exact h.table t x htn hl j hj
  · obtain ⟨htn, hts⟩ := hsub t x ht
    have hxc : x ≠ c := fun he => hts (h.inj t _ x htn (he ▸ hc))
    have hxn : x ≠ n := by
      rintro rfl
      rw [h.inj t s x htn hs] at hl
      omega
    rw [hother x hxn hxc]
    exact h.leaf t x htn hl j hj
  · obtain ⟨hwf, t, x, j, ht, hl, hj, rfl⟩ := h.present p e he
    refine ⟨hwf, t, x, j, hkeep t x ht ?_, hl, hj, rfl⟩
    intro hts
    obtain ⟨a, b, rfl, -, hb⟩ := h.path_eq ht hl
    refine hleaf _ e he ?_
    rw [entryPath_pageNo hb hj, ← hts]
    exact ⟨[j], rfl⟩

namespace Space

variable {ph ph' ph₁ : Phys} {table n c i : Nat} {node : List Nat → Option Nat} {m : PageMap}
  {own : Nat → Entry → Prop} {used : Nat → Prop} {s : List Nat} {u : Unit}

lemma clearLeaf {b : Bool} (h : Space ph table node m own used) (hs : node s = some n) (hlen : s.length = 2)
    (hi : i < 512) (hm : m (pageNo s i) = some e) (hb : b = true ↔ own (pageNo s i) e)
    (he : PageTable.freePage b (e.ppn * 4096) ph = .ok (u, ph₁)) :
    ∃ used', Space (ph₁.setWord n i 0) table node (update m (pageNo s i) none) own used' ∧
      Effect ph (ph₁.setWord n i 0) (foot node m own) (foot node (update m (pageNo s i) none) own) used used' := by
  obtain ⟨used', hpt, hrel⟩ := PageTable.freePage_ok h.toPtInv hm (fun hb' t => h.apart _ e t hm (hb.mp hb')) he
  obtain ⟨free, hp⟩ := hpt.pmem
  have hother : ∀ k, k ≠ n → (ph₁.setWord n i 0).mem k = ph₁.mem k := fun k hk => update_of_ne hk _ _
  have hwrite : ∀ k, ¬used' k → (ph₁.setWord n i 0).mem k = ph₁.mem k :=
    fun k hk => hother k fun he => hk (he ▸ hpt.nodes s n hs)
  obtain ⟨-, hinv⟩ := Takes.write hp hwrite rfl rfl
  have hgives : Gives ph (ph₁.setWord n i 0) used used' := hrel.gives.trans (Gives.write hp hwrite rfl rfl)
  have hgone : ∀ q, update m (pageNo s i) none q = none → m q ≠ none → q = pageNo s i := by
    intro q hq hne
    by_contra hqp
    rw [update_of_ne hqp] at hq
    exact hne hq
  have htree : Tree (ph₁.setWord n i 0).mem table node (update m (pageNo s i) none) :=
    hpt.tree.setLeaf hs hlen hi (fun _ h => by cases h) (update_self ..) hother
  have hleaf : ∀ q e', update m (pageNo s i) none q = some e' → own q e' → used' e'.ppn := by
    intro q e' hq ho
    have hmq := hrel.sub q e' hq
    rcases hrel.freed _ (h.leaf q e' hmq ho) with hu | ⟨hb', q', e1, hq', hnone, heq⟩
    · exact hu
    · have hqp := hgone q' hnone (by simp [hq'])
      subst hqp
      rw [hm] at hq'
      cases hq'
      rw [h.unique q _ e' e hmq hm ho (hb.mp hb') heq.symm, update_self] at hq
      cases hq
  have hspace : Space (ph₁.setWord n i 0) table node (update m (pageNo s i) none) own used' :=
    ⟨⟨htree, ⟨free, hinv⟩, hpt.nodes⟩, hleaf, fun q q' e e' hq hq' => h.unique q q' e e' (hrel.sub q e hq)
      (hrel.sub q' e' hq'), fun q e' t hq => h.apart q e' t (hrel.sub q e' hq)⟩
  have hkeep : ∀ k, used k → ¬foot node m own k → used' k := by
    intro k hk hF
    rcases hrel.freed k hk with hu | ⟨hb', q, e', hq, hnone, rfl⟩
    · exact hu
    · have hqp := hgone q hnone (by simp [hq])
      subst hqp
      rw [hm] at hq
      cases hq
      exact absurd (.inr ⟨_, e, hm, hb.mp hb', rfl⟩) hF
  refine ⟨used', hspace, .of_gives hgives (fun k hk => ?_) hspace.foot_used hkeep (fun k hk hF => ?_) fun k hk hF => ?_⟩
  · rcases hk with hk | ⟨q, e', hq, ho, rfl⟩
    · exact .inl hk
    · exact .inr ⟨q, e', hrel.sub q e' hq, ho, rfl⟩
  · rcases hF with hF | ⟨q, e', hq, ho, rfl⟩
    · exact .inl hF
    · by_cases hqp : q = pageNo s i
      · subst hqp
        rw [hm] at hq
        cases hq
        exact absurd hk (hrel.out (hb.mpr ho) _ e hm (update_self ..))
      · exact .inr ⟨q, e', by rwa [update_of_ne hqp], ho, rfl⟩
  · have hnode : ∀ t, node t ≠ some k := fun t ht => hF (.inl ⟨t, ht⟩)
    rw [hother k fun he => hnode s (he ▸ hs)]
    exact hrel.mem k hnode (hkeep k hk hF)

lemma dropNode (h : Space ph table node m own used) (hs : node s = some n) (hc : node (s ++ [i]) = some c)
    (hbelow : ∀ j, node (s ++ [i] ++ [j]) = none) (hleaf : ∀ q e, m q = some e → ¬s ++ [i] <+: entryPath q)
    (he : Pmem.free (c * PGSIZE) ph = .ok (u, ph₁)) :
    ∃ used', Space (ph₁.setWord n i 0) table (update node (s ++ [i]) none) m own used' ∧
      Effect ph (ph₁.setWord n i 0) (foot node m own) (foot (update node (s ++ [i]) none) m own) used used' := by
  obtain ⟨k, hf⟩ := Pmem.free_ok he
  have hdiv : c * PGSIZE / PGSIZE = c := Nat.mul_div_cancel _ (by decide)
  obtain ⟨free, hp⟩ := h.pmem
  obtain ⟨hgives, free', hinv⟩ := hf.gives hp
  rw [hdiv] at hgives hinv
  have hnc : n ≠ c := by
    rintro rfl
    have hss := h.tree.inj s _ n hs hc
    simp at hss
  have hword : ∀ x, x ≠ n → (ph₁.setWord n i 0).mem x = ph₁.mem x := fun x hx => update_of_ne hx _ _
  have hfreed : ∀ x, x ≠ c → ph₁.mem x = ph.mem x := fun x hx => hf.mem_other (by rw [hdiv]; exact hx)
  have hother : ∀ x, x ≠ n → x ≠ c → (ph₁.setWord n i 0).mem x = ph.mem x :=
    fun x hx hxc => by rw [hword x hx, hfreed x hxc]
  have hn : (ph₁.setWord n i 0).mem n = update (ph.mem n) i 0 := by
    simp [Phys.setWord, hfreed n hnc]
  have htree := h.tree.dropNode hs hc hbelow hleaf hn hother
  have hwrite : ∀ x, ¬(used x ∧ x ≠ c) → (ph₁.setWord n i 0).mem x = ph₁.mem x :=
    fun x hx => hword x fun he => hx ⟨he ▸ h.nodes s n hs, he ▸ hnc⟩
  obtain ⟨-, hinv'⟩ := Takes.write hinv hwrite rfl rfl
  have hsub : ∀ t x, update node (s ++ [i]) none t = some x → node t = some x ∧ x ≠ c := by
    intro t x ht
    by_cases hts : t = s ++ [i]
    · rw [hts, update_self] at ht
      cases ht
    · rw [update_of_ne hts] at ht
      exact ⟨ht, fun he => hts (h.tree.inj t _ x ht (he ▸ hc))⟩
  have hne : ∀ q e, m q = some e → own q e → e.ppn ≠ c := fun q e hq ho he => h.apart q e _ hq ho (he ▸ hc)
  have hspace : Space (ph₁.setWord n i 0) table (update node (s ++ [i]) none) m own
      (fun x => used x ∧ x ≠ c) :=
    ⟨⟨htree, ⟨free', hinv'⟩, fun t x ht => ⟨h.nodes t x (hsub t x ht).1, (hsub t x ht).2⟩⟩,
      fun q e hq ho => ⟨h.leaf q e hq ho, hne q e hq ho⟩, h.unique, fun q e t hq ho ht => h.apart q e t hq ho (hsub t _ ht).1⟩
  refine ⟨_, hspace, .of_gives (hgives.trans (Gives.write hinv hwrite rfl rfl)) (fun x hx => ?_) hspace.foot_used
    (fun x hx hF => ⟨hx, fun he => hF (.inl ⟨_, he ▸ hc⟩)⟩) (fun x hx hF => ?_) fun x hx hF => ?_⟩
  · rcases hx with ⟨t, ht⟩ | hx
    · exact .inl ⟨t, (hsub t x ht).1⟩
    · exact .inr hx
  · rcases hF with ⟨t, ht⟩ | hF
    · refine .inl ⟨t, ?_⟩
      rwa [update_of_ne]
      rintro rfl
      rw [hc] at ht
      cases ht
      exact hx.2 rfl
    · exact .inr hF
  · exact hother x (fun he => hF (.inl ⟨s, he ▸ hs⟩)) fun he => hF (.inl ⟨_, he ▸ hc⟩)

end Space

/-! ### The recursion -/

namespace Tree

variable {mem : Nat → Nat → Nat} {table n : Nat} {node : List Nat → Option Nat} {m : PageMap}

section

variable (h : Tree mem table node m)
include h

lemma node_of_prefix (s t : List Nat) (ht : node (s ++ t) = some n) :
    ∃ n', node s = some n' := by
  induction t using List.reverseRecOn generalizing n with
  | nil => exact ⟨n, by rwa [List.append_nil] at ht⟩
  | append_singleton t i ih =>
    rw [← List.append_assoc] at ht
    obtain ⟨⟨n', hn'⟩, -⟩ := h.parent _ i n ht
    exact ih hn'

lemma leaf_path (hq : m q = some e) :
    ∃ s n i, node s = some n ∧ s.length = 2 ∧ i < 512 ∧ pageNo s i = q ∧ entryPath q = s ++ [i] := by
  obtain ⟨-, s, n, i, hs, hlen, hi, rfl⟩ := h.present q e hq
  obtain ⟨a, b, rfl, -, hb⟩ := h.path_eq hs hlen
  exact ⟨[a, b], n, i, hs, hlen, hi, rfl, entryPath_pageNo hb hi⟩

lemma index_lt {s : List Nat} (hs : node s = some n) : ∀ i ∈ s, i < 512 := by
  intro i hi
  obtain ⟨l, r, rfl⟩ := List.append_of_mem hi
  obtain ⟨n', hn'⟩ := h.node_of_prefix (l ++ [i]) r (by rwa [List.append_assoc, List.singleton_append])
  exact (h.parent l i n' hn').2.2.1

lemma leaf_index_lt (hq : m q = some e) :
    ∀ i ∈ entryPath q, i < 512 := by
  intro i hi
  obtain ⟨s, n, j, hs, -, hj, -, hpath⟩ := h.leaf_path hq
  rw [hpath, List.mem_append, List.mem_singleton] at hi
  rcases hi with hi | rfl
  · exact h.index_lt hs i hi
  · exact hj

lemma nothing_below {s : List Nat} {i : Nat} (hlen : s.length < 2)
    (hn : node (s ++ [i]) = none) : Pruned node node m m fun t => s ++ [i] <+: t := by
  have hnode : ∀ t, s ++ [i] <+: t → node t = none := by
    rintro t ⟨r, rfl⟩
    by_contra hne
    obtain ⟨n, hn'⟩ := Option.ne_none_iff_exists'.mp hne
    obtain ⟨n', hn''⟩ := h.node_of_prefix _ r hn'
    rw [hn] at hn''
    cases hn''
  refine ⟨hnode, fun _ _ => rfl, fun q hq => ?_, fun _ _ => rfl⟩
  by_contra hne
  obtain ⟨e, he⟩ := Option.ne_none_iff_exists'.mp hne
  obtain ⟨s', n', j, hs', hlen', -, -, hpath⟩ := h.leaf_path he
  rw [hpath] at hq
  have hpre : s ++ [i] <+: s' := by
    rcases List.prefix_concat_iff.mp hq with heq | hpre
    · have := congrArg List.length heq
      simp at this
      omega
    · exact hpre
  rw [hnode s' hpre] at hs'
  cases hs'

lemma prune_leaf {s : List Nat} {i : Nat} (hs : node s = some n) (hlen : s.length = 2)
    (hi : i < 512) : Pruned node node m (update m (pageNo s i) none) fun t => s ++ [i] <+: t := by
  obtain ⟨a, b, rfl, -, hb⟩ := h.path_eq hs hlen
  refine ⟨?_, fun _ _ => rfl, fun q hq => ?_, fun q hq => ?_⟩
  · rintro t ⟨r, rfl⟩
    by_contra hne
    obtain ⟨n', hn'⟩ := Option.ne_none_iff_exists'.mp hne
    have := h.length_le hn'
    simp at this
  · have heq : [a, b] ++ [i] = entryPath q := hq.eq_of_length rfl
    obtain rfl : q = pageNo [a, b] i := by
      simp only [entryPath, List.cons_append, List.nil_append, List.cons.injEq, and_true] at heq
      simp only [pageNo, List.foldl_cons, List.foldl_nil]
      omega
    rw [update_self]
  · refine update_of_ne ?_ _ _
    rintro rfl
    exact hq (by rw [entryPath_pageNo hb hi]; exact List.prefix_refl _)

end

end Tree

lemma Pruned.extend {mem : Nat → Nat → Nat} {table : Nat} {node node' : List Nat → Option Nat} {m m' : PageMap}
    {D D' : List Nat → Prop} (hp : Pruned node node' m m' D) (h : Tree mem table node m) (hD : ∀ t, D t → D' t)
    (hD' : ∀ t, D' t → (∀ i ∈ t, i < 512) → D t) : Pruned node node' m m' D' := by
  refine ⟨fun t ht => ?_, fun t ht => hp.node_eq t fun h => ht (hD t h), fun q hq => ?_,
    fun q hq => hp.leaf_eq q fun h => hq (hD _ h)⟩
  · by_contra hne
    obtain ⟨n, hn⟩ := Option.ne_none_iff_exists'.mp hne
    exact hne (hp.node_of t (hD' t ht (h.index_lt (hp.node_sub hn))))
  · by_contra hne
    obtain ⟨e, he⟩ := Option.ne_none_iff_exists'.mp hne
    exact hne (hp.leaf_of q (hD' _ hq (h.leaf_index_lt (hp.leaf_sub he))))

lemma Pmem.getRegion_eq {ph : Phys} {n : Nat} {k : Bool} {free : Bool → List Nat} {used : Nat → Prop}
    (hp : PmemInv ph free used) : Pmem.getRegion (n * PGSIZE) ph = some k ↔ ph.InRegion k n := by
  have hsplit := hp.split
  unfold Pmem.getRegion AllocRegion.contains Phys.InRegion
  constructor
  · intro h
    split_ifs at h with hk hu
    · cases h
      simpa using hk
    · cases h
      simpa using hu
  · intro h
    cases k with
    | true => rw [if_pos (by simpa using h)]
    | false => rw [if_neg (by simp; omega), if_pos (by simpa using h)]

lemma pteToPa_encLeaf (h : e.WF) : pteToPa (encLeaf (some e)) = e.ppn * PGSIZE := by
  rw [pteToPa_eq, h.getPpn]
  rfl

lemma pteToPa_encTable {n : Nat} (hn : n < 2 ^ 44) : pteToPa (encTable (some n)) = n * PGSIZE := by
  rw [pteToPa_eq, getPpn_encTable hn]
  rfl

namespace PageTable

/-- The state after some entries of the table have been destroyed. -/
def Destroyed (ph ph' : Phys) (table : Nat) (node : List Nat → Option Nat) (m : PageMap) (own : Nat → Entry → Prop)
    (used : Nat → Prop) (D : List Nat → Prop) : Prop :=
  ∃ node' m' used', Space ph' table node' m' own used' ∧ Pruned node node' m m' D ∧
    Effect ph ph' (Space.foot node m own) (Space.foot node' m' own) used used'

variable {ph ph' : Phys} {table n : Nat} {node : List Nat → Option Nat} {m : PageMap}
  {own : Nat → Entry → Prop} {used : Nat → Prop} {D : List Nat → Prop} {s : List Nat} {u : Unit}

lemma Destroyed.none (h : Space ph table node m own used) (hD : Pruned node node m m D) :
    Destroyed ph ph table node m own used D :=
  ⟨node, m, used, h, hD, .refl h.foot_used⟩

open Classical in
lemma freeUser_eq {free : Bool → List Nat} (hp : PmemInv ph free used) :
    freeUser (n * PGSIZE) ph = freePage (decide (ph.InRegion false n)) (n * 4096) ph := by
  unfold freeUser freePage
  rw [K.bind_apply, K.get_apply, show n * 4096 = n * PGSIZE from rfl]
  dsimp only [Except.bind]
  by_cases hreg : ph.InRegion false n
  · rw [if_pos ((Pmem.getRegion_eq hp).mpr hreg), decide_eq_true hreg, if_pos rfl, K.bind_apply, K.get_apply]
    dsimp only [Except.bind]
    rw [(Pmem.getRegion_eq hp).mpr hreg]
  · rw [if_neg fun hr => hreg ((Pmem.getRegion_eq hp).mp hr), decide_eq_false hreg]
    rfl

open Classical in
lemma destroyEntry_leaf {i : Nat} {below : Nat → K Phys Unit} (h : Space ph table node m own used)
    (hown : ∀ q e, m q = some e → (own q e ↔ ph.InRegion false e.ppn)) (hs : node s = some n) (hlen : s.length = 2)
    (hi : i < 512) (he : destroyEntry below n i ph = .ok (u, ph')) :
    Destroyed ph ph' table node m own used fun t => s ++ [i] <+: t := by
  have hword := h.tree.leaf s n hs hlen i hi
  have hprune := h.tree.prune_leaf hs hlen hi
  unfold destroyEntry at he
  rw [K.bind_apply, K.get_apply] at he
  simp only [Except.bind, hword] at he
  cases hm : m (pageNo s i) with
  | none =>
    rw [hm] at he
    cases he
    refine .none h ?_
    rwa [show update m (pageNo s i) Option.none = m from Function.update_eq_self_iff.mpr hm.symm] at hprune
  | some e =>
    have hwf := (h.tree.present _ e hm).1
    obtain ⟨free, hp⟩ := h.pmem
    rw [hm, if_pos hwf.isValid, if_pos hwf.isLeaf, pteToPa_encLeaf hwf] at he
    obtain ⟨u1, ph₁, hfr, he⟩ := K.bind_ok he
    cases he
    rw [freeUser_eq hp] at hfr
    obtain ⟨used', hspace, heff⟩ := h.clearLeaf hs hlen hi hm (by rw [decide_eq_true_iff]; exact (hown _ e hm).symm) hfr
    exact ⟨node, _, used', hspace, hprune, heff⟩

lemma Destroyed.trans {ph'' : Phys} (h : Destroyed ph ph' table node m own used D)
    (h' : ∀ node' m' used', Space ph' table node' m' own used' → Pruned node node' m m' D → ph.SameBounds ph' →
      Destroyed ph' ph'' table node' m' own used' G) :
    Destroyed ph ph'' table node m own used fun t => D t ∨ G t := by
  obtain ⟨node', m', used', hspace, hprune, heff⟩ := h
  obtain ⟨node'', m'', used'', hspace', hprune', heff'⟩ := h' node' m' used' hspace hprune heff.region
  exact ⟨node'', m'', used'', hspace', hprune.trans hprune', heff.trans heff'⟩

lemma Destroyed.congr (h : Destroyed ph ph' table node m own used D) (hD : ∀ t, D t ↔ G t) :
    Destroyed ph ph' table node m own used G := by
  obtain rfl : D = G := funext fun t => propext (hD t)
  exact h

/-- What the recursive call has to do with a table below. -/
def Destroys (below : Nat → K Phys Unit) (table : Nat) (own : Nat → Entry → Prop) (s : List Nat) : Prop :=
  ∀ ph ph' node m used n u, Space ph table node m own used →
    (∀ q e, m q = some e → (own q e ↔ ph.InRegion false e.ppn)) → node s = some n → below n ph = .ok (u, ph') →
    Destroyed ph ph' table node m own used fun t => s <+: t ∧ t ≠ s

lemma destroyEntry_table {i : Nat} {below : Nat → K Phys Unit} (h : Space ph table node m own used)
    (hown : ∀ q e, m q = some e → (own q e ↔ ph.InRegion false e.ppn)) (hs : node s = some n) (hlen : s.length < 2)
    (hi : i < 512) (hbelow : Destroys below table own (s ++ [i])) (he : destroyEntry below n i ph = .ok (u, ph')) :
    Destroyed ph ph' table node m own used fun t => s ++ [i] <+: t := by
  have hword := h.tree.table s n hs hlen i hi
  unfold destroyEntry at he
  rw [K.bind_apply, K.get_apply] at he
  simp only [Except.bind, hword] at he
  cases hc : node (s ++ [i]) with
  | none =>
    rw [hc] at he
    cases he
    exact .none h (h.tree.nothing_below hlen hc)
  | some c =>
    obtain ⟨-, -, -, hpos, hlt⟩ := h.tree.parent s i c hc
    have hvalid : isValid (encTable (some c)) = true := isValid_encTable (some c) fun k hk => by cases hk; exact hlt
    have hne : c * PGSIZE ≠ 0 := Nat.mul_ne_zero (by omega) (by decide)
    rw [hc, if_pos hvalid, isLeaf_encTable hlt, pteToPa_encTable hlt, isTable, hvalid, isLeaf_encTable hlt] at he
    simp only [Bool.false_eq_true, if_false, Bool.not_false, Bool.and_true, if_true, ne_eq, hne, not_false_eq_true,
      Nat.mul_div_cancel c (show 0 < PGSIZE by decide)] at he
    obtain ⟨u1, ph₁, h1, he⟩ := K.bind_ok he
    obtain ⟨u2, ph2, h2, he⟩ := K.bind_ok he
    cases he
    refine ((hbelow ph ph₁ node m used c u1 h hown hc h1).trans fun node' m' used' hspace hprune _ => ?_).congr
      (G := fun t => s ++ [i] <+: t) (D := fun t => (s ++ [i] <+: t ∧ t ≠ s ++ [i]) ∨ t = s ++ [i]) fun t => ?_
    · have hs' : node' s = some n := by
        rw [hprune.node_eq s fun hcon => ?_, hs]
        have := hcon.1.length_le
        simp at this
      have hc' : node' (s ++ [i]) = some c := by rw [hprune.node_eq _ fun hcon => hcon.2 rfl, hc]
      have hempty : ∀ j, node' (s ++ [i] ++ [j]) = none := fun j => hprune.node_of _ ⟨⟨[j], rfl⟩, by simp⟩
      have hleaf : ∀ q e, m' q = some e → ¬s ++ [i] <+: entryPath q := by
        intro q e hq hpre
        rw [hprune.leaf_of q ⟨hpre, fun heq => ?_⟩] at hq
        · cases hq
        · have := congrArg List.length heq
          simp [entryPath] at this
          omega
      obtain ⟨used'', hspace', heff'⟩ := hspace.dropNode hs' hc' hempty hleaf h2
      refine ⟨_, m', used'', hspace', ⟨?_, fun t ht => update_of_ne ht _ _, fun q hq => ?_, fun _ _ => rfl⟩, heff'⟩
      · rintro t rfl
        rw [update_self]
      · by_contra hne
        obtain ⟨e, he⟩ := Option.ne_none_iff_exists'.mp hne
        exact hleaf q e he (by rw [hq])
    · constructor
      · rintro (ht | rfl)
        · exact ht.1
        · exact List.prefix_refl _
      · intro ht
        by_cases heq : t = s ++ [i]
        · exact .inr heq
        · exact .inl ⟨ht, heq⟩

theorem destroyLevel_ok {fuel : Nat} (hlen : s.length + fuel = 3) :
    Destroys (destroyLevel fuel) table own s := by
  induction fuel generalizing s with
  | zero =>
    intro ph ph' node m used n u h _ hs _
    have := h.tree.length_le hs
    omega
  | succ fuel ih =>
    intro ph ph' node m used n u h hown hs he
    have hloop := K.forM_induct (I := fun done ph' => Destroyed ph ph' table node m own used
      fun t => ∃ i ∈ done, s ++ [i] <+: t) (fun done i ph₁ ph2 hi hI he => ?_) he
      (.none h (Pruned.refl node m |>.congr fun t => by simp))
    · obtain ⟨node', m', used', hspace, hprune, heff⟩ := hloop
      refine ⟨node', m', used', hspace, hprune.extend h.tree (fun t ht => ?_) fun t ht hi => ?_, heff⟩
      · obtain ⟨i, -, r, rfl⟩ := ht
        exact ⟨⟨[i] ++ r, by rw [List.append_assoc]⟩, by simp⟩
      · obtain ⟨⟨r, rfl⟩, hne⟩ := ht
        cases r with
        | nil => exact absurd (List.append_nil s) hne
        | cons i r => exact ⟨i, List.mem_range.mpr (hi i (by simp)), r, by simp⟩
    · refine (hI.trans (G := fun t => s ++ [i] <+: t) fun node' m' used' hspace hprune hbounds => ?_).congr
        fun t => by simp [or_and_right, exists_or]
      have hi' : i < 512 := List.mem_range.mp hi
      have hs' : node' s = some n := by
        rw [hprune.node_eq s ?_, hs]
        rintro ⟨j, -, hpre⟩
        have := hpre.length_le
        simp at this
      have hown' : ∀ q e, m' q = some e → (own q e ↔ ph₁.InRegion false e.ppn) := fun q e hq => by
        rw [hbounds.inRegion]
        exact hown q e (hprune.leaf_sub hq)
      by_cases hlast : s.length = 2
      · exact destroyEntry_leaf hspace hown' hs' hlast hi' he
      · exact destroyEntry_table hspace hown' hs' (by have := h.tree.length_le hs; omega) hi'
          (ih (by simp; omega)) he

/-- After `destroy` only the root is left, and it is empty. -/
theorem destroy_ok (h : Space ph table node m own used)
    (hown : ∀ q e, m q = some e → (own q e ↔ ph.InRegion false e.ppn)) (he : destroy table ph = .ok (u, ph')) :
    ∃ used' free, PmemInv ph' free used' ∧ Effect ph ph' (Space.foot node m own) (· = table) used used' := by
  obtain ⟨node', m', used', hspace, hprune, heff⟩ :=
    destroyLevel_ok (s := []) rfl ph ph' node m used table u h hown h.tree.root he
  obtain ⟨free, hp⟩ := hspace.pmem
  refine ⟨used', free, hp, heff.congr (fun _ => Iff.rfl) fun n => ⟨?_, ?_⟩⟩
  · rintro (⟨t, ht⟩ | ⟨q, e, hq, -⟩)
    · by_cases htn : t = []
      · rw [htn, hspace.tree.root] at ht
        exact (Option.some.inj ht).symm
      · rw [hprune.node_of t ⟨List.nil_prefix, htn⟩] at ht
        cases ht
    · rw [hprune.leaf_of q ⟨List.nil_prefix, by simp [entryPath]⟩] at hq
      cases hq
  · rintro rfl
    exact .inl ⟨[], hspace.tree.root⟩

end PageTable

end Glenda.Mem
