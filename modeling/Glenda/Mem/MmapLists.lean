import Glenda.Mem.Mmap

/-!
# The lists of the warehouse

`RegionLists wh head ids free` says that `ids` are the nodes on the list of a process and `free` those on
the free list. Whatever `mmap` and `munmap` return, they move nodes between these two lists
only: `Moves` says that no node is lost and that no other node of the warehouse is written.
-/

namespace Glenda.Mem
open Glenda.Lib

variable {σ : Type} {j w a b n e fuel fin begin npages mmapBegin mmapEnd unmapStart : Nat} {f : MmapRegion → MmapRegion} {post' : List Nat} {t t' : σ}
  {r : Except UvmError Nat} {u : Unit} {g : MmapRegion} {cur prev o : Option Nat}

namespace MmapWarehouse

variable {wh : MmapWarehouse}

def nextRegion (wh : MmapWarehouse) (i : Nat) : Option Nat := (wh.region i).next

def nextFree (wh : MmapWarehouse) (i : Nat) : Option Nat := (wh.nodeList i).next

/-- The addresses of a region. -/
def span (wh : MmapWarehouse) (i : Nat) : Nat × Nat :=
  ((wh.region i).begin, (wh.region i).begin + (wh.region i).npages * PGSIZE)

lemma span_eq {wh' : MmapWarehouse} {i : Nat} (h : wh'.nodeList i = wh.nodeList i) : wh'.span i = wh.span i := by
  unfold span region
  rw [h]

lemma init_of_initialised (h : wh.initialised = true) : wh.init = wh := by
  unfold init
  rw [if_pos h]

lemma init_initialised (wh : MmapWarehouse) : wh.init.initialised = true := by
  unfold init
  split_ifs with h
  · exact h
  · rfl

@[simp] lemma setNode_self (wh : MmapWarehouse) (i : Nat) (n : MmapRegionNode) : (wh.setNode i n).nodeList i = n :=
  Function.update_self ..

lemma setNode_of_ne {i : Nat} (h : j ≠ i) (n : MmapRegionNode) : (wh.setNode i n).nodeList j = wh.nodeList j :=
  Function.update_of_ne h _ _

@[simp] lemma region_setRegion_self (wh : MmapWarehouse) (i : Nat) (f : MmapRegion → MmapRegion) :
    (wh.setRegion i f).region i = f (wh.region i) := by
  unfold region setRegion
  rw [setNode_self]

lemma setRegion_of_ne {i : Nat} (h : j ≠ i) (f : MmapRegion → MmapRegion) :
    (wh.setRegion i f).nodeList j = wh.nodeList j :=
  setNode_of_ne h _

/-- The warehouse after `region_alloc` has returned `x`. -/
def taken (wh : MmapWarehouse) (x : Nat) : MmapWarehouse :=
  { wh.init with head := (wh.init.nodeList x).next }.setNode x ⟨.zero, none⟩

/-- The warehouse after `region_free`. -/
def given (wh : MmapWarehouse) (x : Nat) : MmapWarehouse := { wh.setNode x ⟨.zero, wh.head⟩ with head := some x }

lemma taken_initialised (wh : MmapWarehouse) (x : Nat) : (wh.taken x).initialised = true := wh.init_initialised

lemma taken_of_ne {x i : Nat} (h : i ≠ x) : (wh.taken x).nodeList i = wh.init.nodeList i := setNode_of_ne h _

lemma given_self (wh : MmapWarehouse) (x : Nat) : (wh.given x).nodeList x = ⟨.zero, wh.head⟩ := Function.update_self ..

lemma given_of_ne {x i : Nat} (h : i ≠ x) : (wh.given x).nodeList i = wh.nodeList i := setNode_of_ne h _

lemma chain_init (h : wh.initialised = false) : Chain wh.init.nextFree wh.init.head (List.range N_MMAP) := by
  have hinit : wh.init = ⟨some 0, fun i => ⟨.zero, if i + 1 < N_MMAP then some (i + 1) else none⟩, true⟩ := by
    unfold init
    rw [if_neg (by simp [h])]
  have hstep : ∀ n k, k + n + 1 = N_MMAP → Chain wh.init.nextFree (some k) (List.range' k (n + 1)) := by
    intro n
    induction n with
    | zero =>
      intro k hk
      refine Chain.cons.mpr ⟨rfl, ?_⟩
      simp [hinit, nextFree, show ¬k + 1 < N_MMAP by omega]
    | succ n ih =>
      intro k hk
      rw [List.range'_succ]
      refine Chain.cons.mpr ⟨rfl, ?_⟩
      have hnext : wh.init.nextFree k = some (k + 1) := by
        simp [hinit, nextFree, show k + 1 < N_MMAP by omega]
      rw [hnext]
      exact ih (k + 1) (by omega)
  rw [List.range_eq_range', show wh.init.head = some 0 by rw [hinit]]
  exact hstep 255 0 rfl

/-- Writes to regions leave the free list alone. -/
structure SameFree (wh wh' : MmapWarehouse) : Prop where
  initialised : wh'.initialised = wh.initialised
  head : wh'.head = wh.head
  next : ∀ i, wh'.nextFree i = wh.nextFree i

lemma SameFree.refl (wh : MmapWarehouse) : SameFree wh wh := ⟨rfl, rfl, fun _ => rfl⟩

lemma sameFree_setRegion (wh : MmapWarehouse) (i : Nat) (f : MmapRegion → MmapRegion) :
    SameFree wh (wh.setRegion i f) := by
  refine ⟨rfl, rfl, fun j => ?_⟩
  unfold nextFree
  by_cases hj : j = i
  · subst hj
    unfold setRegion
    rw [setNode_self]
  · rw [setRegion_of_ne hj]

end MmapWarehouse

open MmapWarehouse (chain_init given_of_ne init_of_initialised nextFree nextRegion region region_setRegion_self sameFree_setRegion
  setRegion_of_ne span span_eq taken_of_ne)

structure RegionLists (wh : MmapWarehouse) (head : Option Nat) (ids free : List Nat) : Prop where
  regions : Chain wh.nextRegion head ids
  unused : Chain wh.init.nextFree wh.init.head free
  nodup : (ids ++ free).Nodup
  lt : ∀ i ∈ ids ++ free, i < N_MMAP

structure Moves (wh wh' : MmapWarehouse) (ids free ids' free' : List Nat) : Prop where
  perm : (ids' ++ free').Perm (ids ++ free)
  other : ∀ i < N_MMAP, i ∉ ids ++ free → wh'.nodeList i = wh.nodeList i

namespace Moves

variable {wh wh' wh'' : MmapWarehouse} {ids free ids' free' ids'' free'' : List Nat}

lemma refl (wh : MmapWarehouse) (ids free : List Nat) : Moves wh wh ids free ids free := ⟨.refl _, fun _ _ _ => rfl⟩

lemma trans (h : Moves wh wh' ids free ids' free') (h' : Moves wh' wh'' ids' free' ids'' free'') :
    Moves wh wh'' ids free ids'' free'' := by
  refine ⟨h'.perm.trans h.perm, fun i hi hn => ?_⟩
  rw [h'.other i hi fun hm => hn (h.perm.mem_iff.mp hm), h.other i hi hn]

end Moves

namespace RegionLists

variable {wh wh' : MmapWarehouse} {head head' : Option Nat} {ids ids' pre post free : List Nat} {i x : Nat}

section

variable (h : RegionLists wh head ids free)
include h

lemma nodeList_init (hi : i < N_MMAP) (hf : i ∉ free) :
    wh.init.nodeList i = wh.nodeList i := by
  cases hw : wh.initialised with
  | true => rw [init_of_initialised hw]
  | false =>
    rw [h.unused.unique (chain_init hw)] at hf
    exact absurd (List.mem_range.mpr hi) hf

lemma not_mem_free (hi : i ∈ ids) : i ∉ free :=
  fun hf => (List.nodup_append.mp h.nodup).2.2 i hi i hf rfl

lemma init_mem (hi : i ∈ ids) : wh.init.nodeList i = wh.nodeList i :=
  h.nodeList_init (h.lt i (List.mem_append_left _ hi)) (h.not_mem_free hi)

lemma initialised (hi : i ∈ ids) : wh.initialised = true := by
  cases hw : wh.initialised with
  | true => rfl
  | false =>
    have hf := h.not_mem_free hi
    rw [h.unused.unique (chain_init hw)] at hf
    exact absurd (List.mem_range.mpr (h.lt i (List.mem_append_left _ hi))) hf

lemma init : RegionLists wh.init head ids free := by
  refine ⟨h.regions.congr fun i hi => ?_, ?_, h.nodup, h.lt⟩
  · unfold nextRegion region
    rw [h.init_mem hi]
  · rw [init_of_initialised wh.init_initialised]
    exact h.unused

lemma moves_init : Moves wh wh.init ids free ids free :=
  ⟨.refl _, fun _ hi hn => h.nodeList_init hi fun hf => hn (List.mem_append_right _ hf)⟩

lemma of_regions (hi : wh.initialised = true) (hs : wh.SameFree wh')
    (hc : Chain wh'.nextRegion head' ids') (hnd : (ids' ++ free).Nodup) (hlt : ∀ i ∈ ids', i < N_MMAP) :
    RegionLists wh' head' ids' free := by
  refine ⟨hc, ?_, hnd, fun i hi => ?_⟩
  · have hfree := h.unused
    rw [init_of_initialised hi] at hfree
    rw [init_of_initialised (hs.initialised.trans hi), hs.head]
    exact hfree.congr fun i _ => hs.next i
  · rcases List.mem_append.mp hi with hi | hi
    · exact hlt i hi
    · exact h.lt i (List.mem_append_right _ hi)

lemma setRegion (hi : i ∈ ids)
    (hf : (f (wh.region i)).next = (wh.region i).next) : RegionLists (wh.setRegion i f) head ids free := by
  refine h.of_regions (h.initialised hi) (wh.sameFree_setRegion i f) (h.regions.congr fun j _ => ?_) h.nodup
    fun j hj => h.lt j (List.mem_append_left _ hj)
  unfold nextRegion
  by_cases hj : j = i
  · subst hj
    rw [region_setRegion_self, hf]
  · unfold region
    rw [setRegion_of_ne hj]

end

lemma moves_setRegion (hi : i ∈ ids) (f : MmapRegion → MmapRegion) :
    Moves wh (wh.setRegion i f) ids free ids free := by
  refine ⟨.refl _, fun j _ hn => setRegion_of_ne ?_ f⟩
  rintro rfl
  exact hn (List.mem_append_left _ hi)

lemma setNext {p : Nat} (h : RegionLists wh head (pre ++ p :: post) free)
    (hpost : Chain wh.nextRegion (f (wh.region p)).next post') (hnd : ((pre ++ p :: post') ++ free).Nodup)
    (hlt : ∀ i ∈ post', i < N_MMAP) : RegionLists (wh.setRegion p f) head (pre ++ p :: post') free := by
  have hp : p ∈ pre ++ p :: post := by simp
  have hnode : ∀ i, i ≠ p → (wh.setRegion p f).nextRegion i = wh.nextRegion i := by
    intro i hi
    unfold nextRegion region
    rw [setRegion_of_ne hi]
  have hnotin : p ∉ pre ∧ p ∉ post' := by
    have hnd' := (List.nodup_append.mp hnd).1
    rw [List.nodup_middle, List.nodup_cons, List.mem_append, not_or] at hnd'
    exact hnd'.1
  refine h.of_regions (h.initialised hp) (wh.sameFree_setRegion p f) ?_ hnd fun i hi => ?_
  · obtain ⟨b, hseg, hb⟩ := Chain.append.mp h.regions
    obtain ⟨rfl, -⟩ := Chain.cons.mp hb
    refine Chain.append.mpr ⟨some p, hseg.congr fun i hi => hnode i fun he => hnotin.1 (he ▸ hi), ?_⟩
    refine Chain.cons.mpr ⟨rfl, ?_⟩
    rw [show (wh.setRegion p f).nextRegion p = (f (wh.region p)).next by
      unfold nextRegion; rw [region_setRegion_self]]
    exact hpost.congr fun i hi => hnode i fun he => hnotin.2 (he ▸ hi)
  · rw [List.mem_append, List.mem_cons] at hi
    rcases hi with hi | rfl | hi
    · exact h.lt i (by simp [hi])
    · exact h.lt i (by simp)
    · exact hlt i hi

lemma alloc (h : RegionLists wh head ids (x :: free)) : RegionLists (wh.taken x) head ids free := by
  obtain ⟨hhead, hrest⟩ := Chain.cons.mp h.unused
  have hx : x ∉ ids ++ free := (List.nodup_middle.mp h.nodup).notMem
  have hne : ∀ i ∈ ids ++ free, i ≠ x := by
    rintro i hi rfl
    exact hx hi
  refine ⟨h.regions.congr fun i hi => ?_, ?_, (List.nodup_middle.mp h.nodup).of_cons, fun i hi => ?_⟩
  · unfold nextRegion region
    rw [taken_of_ne (hne i (List.mem_append_left _ hi)), h.init_mem hi]
  · rw [init_of_initialised (wh.taken_initialised x)]
    refine hrest.congr fun i hi => ?_
    unfold nextFree
    rw [taken_of_ne (hne i (List.mem_append_right _ hi))]
  · refine h.lt i ?_
    rw [List.mem_append] at hi ⊢
    exact hi.imp_right (List.mem_cons_of_mem x)

lemma taken_eq (h : RegionLists wh head ids (x :: free)) (hi : i < N_MMAP) (hx : i ≠ x) (hf : i ∉ free) :
    (wh.taken x).nodeList i = wh.nodeList i := by
  rw [taken_of_ne hx]
  refine h.nodeList_init hi fun hm => ?_
  rcases List.mem_cons.mp hm with he | hm
  · exact hx he
  · exact hf hm

lemma give (h : RegionLists wh head ids free) (hi : wh.initialised = true) (hx : x ∉ ids ++ free)
    (hlt : x < N_MMAP) : RegionLists (wh.given x) head ids (x :: free) := by
  have hne : ∀ i ∈ ids ++ free, i ≠ x := by
    rintro i hi rfl
    exact hx hi
  refine ⟨h.regions.congr fun i hi => ?_, ?_, List.nodup_middle.mpr (List.nodup_cons.mpr ⟨hx, h.nodup⟩),
    fun i hi => ?_⟩
  · unfold nextRegion region
    rw [given_of_ne (hne i (List.mem_append_left _ hi))]
  · have hfree := h.unused
    rw [init_of_initialised hi] at hfree
    rw [init_of_initialised (show (wh.given x).initialised = true from hi)]
    refine Chain.cons.mpr ⟨rfl, ?_⟩
    have hnext : (wh.given x).nextFree x = wh.head := by
      unfold nextFree
      rw [MmapWarehouse.given_self]
    rw [hnext]
    refine hfree.congr fun i hi => ?_
    unfold nextFree
    rw [given_of_ne (hne i (List.mem_append_right _ hi))]
  · rcases List.mem_append.mp hi with hi | hi
    · exact h.lt i (List.mem_append_left _ hi)
    · rcases List.mem_cons.mp hi with rfl | hi
      · exact hlt
      · exact h.lt i (List.mem_append_right _ hi)

end RegionLists

/-! ### The functions on lists -/

namespace Uvm

variable {P : Profile} {s s' : Vm} {ids pre post free : List Nat} {table : Nat}

lemma onPhys_ok {α : Type} {x : K Phys α} {a : α} (h : onPhys x s = .ok (a, s')) : ∃ ph', x s.ph = .ok (a, ph') ∧ s' = { s with ph := ph' } :=
  K.focus_ok (show K.focus Vm.ph (fun ph s => { s with ph := ph }) x s = _ from h)

lemma addW_state (h : addW P w a b t = .ok (n, t')) : t = t' := (addW_ok h).1

lemma mulW_state (h : mulW P w a b t = .ok (n, t')) : t = t' := (mulW_ok h).1

lemma regionEnd_state {r : MmapRegion} (h : regionEnd P r t = .ok (n, t')) : t = t' := by
  obtain ⟨m, t1, h1, h⟩ := K.bind_ok h
  rw [mulW_state h1, addW_state h]

lemma pagesBetween_state (h : pagesBetween P e b t = .ok (n, t')) : t = t' := by
  obtain ⟨m, t1, h1, h⟩ := K.bind_ok h
  cases h
  exact subW_state h1

lemma regionAlloc_ok {r : Option Nat} (h : RegionLists s.wh s.head ids free) (he : regionAlloc s = .ok (r, s')) :
    (r = none ∧ free = [] ∧ s' = { s with wh := s.wh.init }) ∨
      ∃ x rest, r = some x ∧ free = x :: rest ∧ s' = { s with wh := s.wh.taken x } := by
  obtain ⟨u, s1, hset, he⟩ := K.bind_ok he
  cases hset
  obtain ⟨s1, s2, hget, he⟩ := K.bind_ok he
  cases hget
  have hhead := h.unused.head_eq
  cases free with
  | nil =>
    simp only [hhead, List.head?_nil] at he
    cases he
    exact .inl ⟨rfl, rfl, rfl⟩
  | cons x rest =>
    simp only [hhead, List.head?_cons] at he
    cases he
    exact .inr ⟨x, rest, rfl, rfl, rfl⟩

lemma link_ok {x : Option Nat} (h : RegionLists s.wh s.head (pre ++ post) free)
    (hi : s.wh.initialised = true) (hpost : Chain s.wh.nextRegion x post') (hnd : ((pre ++ post') ++ free).Nodup)
    (hlt : ∀ i ∈ post', i < N_MMAP) (he : link pre.getLast? x s = .ok (u, s')) :
    RegionLists s'.wh s'.head (pre ++ post') free ∧ s'.ph = s.ph ∧ s'.wh.initialised = true ∧
      s'.wh.head = s.wh.head ∧ (∀ i, s'.wh.span i = s.wh.span i) ∧
      ∀ i, i ∉ pre → s'.wh.nodeList i = s.wh.nodeList i := by
  rcases List.eq_nil_or_concat pre with rfl | ⟨pre, p, rfl⟩
  · cases he
    refine ⟨?_, rfl, hi, rfl, fun _ => rfl, fun _ _ => rfl⟩
    exact h.of_regions hi (.refl _) hpost hnd hlt
  · rw [List.concat_eq_append] at h hnd ⊢
    rw [List.concat_eq_append, List.getLast?_concat] at he
    cases he
    have happ : ∀ l, pre ++ [p] ++ l = pre ++ p :: l := fun l => by simp
    rw [happ] at h hnd ⊢
    dsimp only
    refine ⟨h.setNext hpost hnd hlt, rfl, hi, rfl, fun i => ?_, fun i hp => setRegion_of_ne ?_ _⟩
    · by_cases hip : i = p
      · subst hip
        unfold span
        rw [region_setRegion_self]
      · rw [span_eq (setRegion_of_ne hip _)]
    · rintro rfl
      exact hp (by simp)

end Uvm

/-! ### Changes of one list -/

namespace RegionLists

variable {wh : MmapWarehouse} {head : Option Nat} {pre post free rest : List Nat} {p c x : Nat}

lemma resize (f : MmapRegion → MmapRegion) (h : RegionLists wh head (pre ++ c :: post) free)
    (hf : (f (wh.region c)).next = (wh.region c).next) :
    RegionLists (wh.setRegion c f) head (pre ++ [c] ++ post) free ∧
      Moves wh (wh.setRegion c f) (pre ++ c :: post) free (pre ++ [c] ++ post) free ∧
      ∀ i ∈ pre ++ post, (wh.setRegion c f).span i = wh.span i := by
  have hc : c ∈ pre ++ c :: post := by simp
  rw [show pre ++ [c] ++ post = pre ++ c :: post by simp]
  refine ⟨h.setRegion hc hf, moves_setRegion hc f, fun i hi => span_eq (setRegion_of_ne ?_ f)⟩
  rintro rfl
  exact (List.nodup_cons.mp (List.nodup_middle.mp (List.nodup_append.mp h.nodup).1)).1 hi

lemma dropNext (f : MmapRegion → MmapRegion) (h : RegionLists wh head (pre ++ p :: c :: post) free)
    (hf : (f (wh.region p)).next = wh.nextRegion c) :
    RegionLists ((wh.setRegion p f).given c) head (pre ++ p :: post) (c :: free) ∧
      Moves wh ((wh.setRegion p f).given c) (pre ++ p :: c :: post) free (pre ++ p :: post) (c :: free) := by
  have hperm : ((pre ++ p :: post) ++ c :: free).Perm ((pre ++ p :: c :: post) ++ free) := by
    have hmid : (pre ++ p :: post ++ c :: free).Perm (c :: (pre ++ p :: post ++ free)) := List.perm_middle
    have hmid' : (pre ++ p :: c :: post ++ free).Perm (c :: (pre ++ p :: post ++ free)) := by
      have happ : pre ++ p :: c :: post ++ free = (pre ++ [p]) ++ c :: (post ++ free) := by simp
      rw [happ]
      refine List.perm_middle.trans ?_
      simp
    exact hmid.trans hmid'.symm
  have hnd := hperm.nodup_iff.mpr h.nodup
  have hnd' := List.nodup_cons.mp (List.nodup_middle.mp hnd)
  obtain ⟨b, -, hb⟩ := Chain.append.mp h.regions
  obtain ⟨-, hp⟩ := Chain.cons.mp hb
  obtain ⟨-, hc⟩ := Chain.cons.mp hp
  have hset : RegionLists (wh.setRegion p f) head (pre ++ p :: post) free :=
    h.setNext (by rw [hf]; exact hc) hnd'.2 fun i hi => h.lt i (by simp [hi])
  refine ⟨hset.give (hset.initialised (i := p) (by simp)) hnd'.1 (h.lt c (by simp)), hperm, fun i _ hi => ?_⟩
  have hne : i ≠ p ∧ i ≠ c := by
    constructor <;> rintro rfl <;> exact hi (by simp)
  rw [given_of_ne hne.2, setRegion_of_ne hne.1]

lemma splitNext (h : RegionLists wh head (pre ++ c :: post) (x :: rest))
    (hg : g.next = wh.nextRegion c) (hf : (f (wh.region c)).next = some x) :
    RegionLists (((wh.taken x).setRegion x fun _ => g).setRegion c f) head (pre ++ c :: x :: post) rest ∧
      Moves wh (((wh.taken x).setRegion x fun _ => g).setRegion c f) (pre ++ c :: post) (x :: rest)
        (pre ++ c :: x :: post) rest := by
  have hperm : ((pre ++ c :: x :: post) ++ rest).Perm ((pre ++ c :: post) ++ x :: rest) := by
    have happ : pre ++ c :: x :: post ++ rest = (pre ++ [c]) ++ x :: (post ++ rest) := by simp
    have happ' : pre ++ c :: post ++ x :: rest = ((pre ++ [c]) ++ post) ++ x :: rest := by simp
    rw [happ, happ']
    refine List.perm_middle.trans ((List.perm_middle.trans ?_).symm)
    simp
  have hnd := hperm.nodup_iff.mpr h.nodup
  have hx := List.nodup_cons.mp (List.nodup_middle.mp h.nodup)
  have hcx : c ≠ x := by
    rintro rfl
    exact hx.1 (by simp)
  obtain ⟨b, -, hb⟩ := Chain.append.mp h.regions
  obtain ⟨-, hc⟩ := Chain.cons.mp hb
  have hcmem : c ∈ pre ++ c :: post := by simp
  have htaken : ∀ i ∈ pre ++ c :: post, ((wh.taken x).setRegion x fun _ => g).nodeList i = wh.nodeList i := by
    intro i hi
    have hix : i ≠ x := by
      rintro rfl
      exact hx.1 (List.mem_append_left _ hi)
    have hir : i ∉ rest := fun hr => (List.nodup_append.mp hx.2).2.2 i hi i hr rfl
    rw [setRegion_of_ne hix]
    exact h.taken_eq (h.lt i (List.mem_append_left _ hi)) hix hir
  have hset : RegionLists ((wh.taken x).setRegion x fun _ => g) head (pre ++ c :: post) rest := by
    refine h.alloc.of_regions (wh.taken_initialised x) (sameFree_setRegion _ _ _)
      (h.regions.congr fun i hi => ?_) hx.2 fun i hi => h.lt i (List.mem_append_left _ hi)
    unfold nextRegion region
    rw [htaken i hi]
  have hregion : ((wh.taken x).setRegion x fun _ => g).region c = wh.region c := by
    unfold region
    rw [htaken c hcmem]
  refine ⟨hset.setNext ?_ hnd fun i hi => ?_, hperm, fun i hi hn => ?_⟩
  · rw [hregion, hf]
    refine Chain.cons.mpr ⟨rfl, ?_⟩
    have hnext : ((wh.taken x).setRegion x fun _ => g).nextRegion x = wh.nextRegion c := by
      unfold nextRegion
      rw [region_setRegion_self, hg]
      rfl
    rw [hnext]
    refine hc.congr fun i hi => ?_
    unfold nextRegion region
    rw [htaken i (by simp [hi])]
  · rcases List.mem_cons.mp hi with rfl | hi
    · exact h.lt i (by simp)
    · exact h.lt i (by simp [hi])
  · have hne : i ≠ c ∧ i ≠ x ∧ i ∉ rest := by
      refine ⟨?_, ?_, fun hr => hn (by simp [hr])⟩ <;> rintro rfl <;> exact hn (by simp)
    rw [setRegion_of_ne hne.1, setRegion_of_ne hne.2.1]
    exact h.taken_eq hi hne.2.1 hne.2.2

lemma remove {s s' : Vm} (h : RegionLists s.wh s.head (pre ++ c :: post) free)
    (he : Uvm.link pre.getLast? (s.wh.nextRegion c) s = .ok (u, s')) :
    RegionLists (s'.wh.given c) s'.head (pre ++ post) (c :: free) ∧
      Moves s.wh (s'.wh.given c) (pre ++ c :: post) free (pre ++ post) (c :: free) ∧ s'.ph = s.ph ∧
      ∀ i ∈ pre ++ post, (s'.wh.given c).span i = s.wh.span i := by
  have hperm : ((pre ++ post) ++ c :: free).Perm ((pre ++ c :: post) ++ free) := by
    have happ : pre ++ c :: post ++ free = pre ++ c :: (post ++ free) := by simp
    rw [happ]
    refine List.perm_middle.trans ((List.perm_middle.trans ?_).symm)
    simp
  have hnd := List.nodup_cons.mp (List.nodup_middle.mp (hperm.nodup_iff.mpr h.nodup))
  have hc : c ∈ pre ++ c :: post := by simp
  obtain ⟨b, -, hb⟩ := Chain.append.mp h.regions
  obtain ⟨hlist, hph, hinit, -, hspan, hother⟩ := Uvm.link_ok h (h.initialised hc) (Chain.cons.mp hb).2 hnd.2
    (fun i hi => h.lt i (by simp [hi])) he
  refine ⟨hlist.give hinit hnd.1 (h.lt c (by simp)), ⟨hperm, fun i _ hi => ?_⟩, hph, fun i hi => ?_⟩
  · rw [given_of_ne (by rintro rfl; exact hi (by simp)), hother i fun hm => hi (by simp [hm])]
  · have hne : i ≠ c := by
      rintro rfl
      exact hnd.1 (List.mem_append_left _ hi)
    rw [span_eq (given_of_ne hne), hspan]

lemma insert {s s' : Vm} (h : RegionLists s.wh s.head (pre ++ post) (x :: rest))
    (hg : g.next = post.head?)
    (he : Uvm.link pre.getLast? (some x) { s with wh := (s.wh.taken x).setRegion x fun _ => g } = .ok (u, s')) :
    RegionLists s'.wh s'.head (pre ++ x :: post) rest ∧
      Moves s.wh s'.wh (pre ++ post) (x :: rest) (pre ++ x :: post) rest ∧ s'.ph = s.ph ∧
      (∀ i ∈ pre ++ post, s'.wh.span i = s.wh.span i) ∧ s'.wh.span x = (g.begin, g.begin + g.npages * PGSIZE) := by
  have hperm : ((pre ++ x :: post) ++ rest).Perm ((pre ++ post) ++ x :: rest) := by
    have happ : pre ++ x :: post ++ rest = pre ++ x :: (post ++ rest) := by simp
    rw [happ]
    refine List.perm_middle.trans ((List.perm_middle.trans ?_).symm)
    simp
  have hx := List.nodup_cons.mp (List.nodup_middle.mp h.nodup)
  have htaken : ∀ i < N_MMAP, i ≠ x → i ∉ rest → ((s.wh.taken x).setRegion x fun _ => g).nodeList i = s.wh.nodeList i := by
    intro i hi hix hir
    rw [setRegion_of_ne hix]
    exact h.taken_eq hi hix hir
  have hmem : ∀ i ∈ pre ++ post, i < N_MMAP ∧ i ≠ x ∧ i ∉ rest := by
    refine fun i hi => ⟨h.lt i (List.mem_append_left _ hi), ?_, fun hr => (List.nodup_append.mp hx.2).2.2 i hi i hr rfl⟩
    rintro rfl
    exact hx.1 (List.mem_append_left _ hi)
  have hnext : ∀ i ∈ pre ++ post, ((s.wh.taken x).setRegion x fun _ => g).nextRegion i = s.wh.nextRegion i := by
    intro i hi
    obtain ⟨h1, h2, h3⟩ := hmem i hi
    unfold nextRegion region
    rw [htaken i h1 h2 h3]
  have hset : RegionLists ((s.wh.taken x).setRegion x fun _ => g) s.head (pre ++ post) rest :=
    h.alloc.of_regions (s.wh.taken_initialised x) (sameFree_setRegion _ _ _)
      (h.regions.congr hnext) hx.2 fun i hi => (hmem i hi).1
  have hself : ((s.wh.taken x).setRegion x fun _ => g).region x = g := region_setRegion_self _ _ _
  obtain ⟨b, -, hb⟩ := Chain.append.mp h.regions
  have hpost : Chain ((s.wh.taken x).setRegion x fun _ => g).nextRegion (some x) (x :: post) := by
    refine Chain.cons.mpr ⟨rfl, ?_⟩
    have hnx : ((s.wh.taken x).setRegion x fun _ => g).nextRegion x = b := by
      rw [hb.head_eq, ← hg]
      exact congrArg MmapRegion.next hself
    rw [hnx]
    exact hb.congr fun i hi => hnext i (List.mem_append_right _ hi)
  obtain ⟨hlist, hph, -, -, hspan, hother⟩ := Uvm.link_ok hset (s.wh.taken_initialised x) hpost
    (hperm.nodup_iff.mpr h.nodup) (fun i hi => h.lt i (by rcases List.mem_cons.mp hi with rfl | hi <;> simp [*])) he
  refine ⟨hlist, ⟨hperm, fun i hi hn => ?_⟩, hph, fun i hi => ?_, ?_⟩
  · rw [hother i fun hm => hn (by simp [hm])]
    exact htaken i hi (by rintro rfl; exact hn (by simp)) fun hr => hn (by simp [hr])
  · obtain ⟨h1, h2, h3⟩ := hmem i hi
    rw [hspan, span_eq (htaken i h1 h2 h3)]
  · rw [hspan]
    unfold span
    rw [hself]

end RegionLists

lemma RegionLists.length_le {wh : MmapWarehouse} {head : Option Nat} {ids free : List Nat}
    (h : RegionLists wh head ids free) : ids.length ≤ N_MMAP := by
  have hsub : ids ⊆ List.range N_MMAP := fun i hi => List.mem_range.mpr (h.lt i (List.mem_append_left _ hi))
  have hlen := (List.subperm_of_subset (List.nodup_append.mp h.nodup).1 hsub).length_le
  rwa [List.length_range] at hlen

/-! ### Whole calls -/

namespace Uvm

variable {P : Profile} {s s' : Vm} {ids pre post free : List Nat} {table : Nat}

lemma findPos_ok (pre : List Nat) {wh : MmapWarehouse} {stop : MmapRegion → K σ Bool}
    {p c : Option Nat} (hstop : ∀ r b t1 t2, stop r t1 = .ok (b, t2) → t1 = t2) (hc : Chain wh.nextRegion cur post)
    (he : findPos wh stop fuel pre.getLast? cur t = .ok ((p, c), t')) :
    t' = t ∧ ∃ mid post', post = mid ++ post' ∧ p = (pre ++ mid).getLast? ∧ c = post'.head? ∧
      (∀ i ∈ mid, stop (wh.region i) t = .ok (false, t)) ∧
      ∀ i, post'.head? = some i → stop (wh.region i) t = .ok (true, t) := by
  induction post generalizing fuel pre cur with
  | nil =>
    rw [Chain.nil.mp hc] at he
    cases fuel <;> cases he <;> exact ⟨rfl, [], [], rfl, by simp, rfl, by simp, by simp⟩
  | cons x post ih =>
    obtain ⟨rfl, hrest⟩ := Chain.cons.mp hc
    cases fuel with
    | zero => cases he
    | succ fuel =>
      rw [findPos] at he
      obtain ⟨b, t1, hb, he⟩ := K.bind_ok he
      obtain rfl := hstop _ _ _ _ hb
      cases b with
      | true =>
        cases he
        exact ⟨rfl, [], x :: post, rfl, by simp, rfl, by simp, by rintro i ⟨⟩; exact hb⟩
      | false =>
        simp only [Bool.false_eq_true, if_false] at he
        have hlast : some x = (pre ++ [x]).getLast? := by simp
        rw [hlast] at he
        obtain ⟨ht, mid, post', rfl, hp, hcur, hmid, hpost⟩ := ih (pre ++ [x]) hrest he
        refine ⟨ht, x :: mid, post', rfl, by rw [hp]; simp, hcur, fun i hi => ?_, hpost⟩
        rcases List.mem_cons.mp hi with rfl | hi
        · exact hb
        · exact hmid i hi

/-- A test that only reads the region lets the walk end, at the first region that passes it. -/
lemma findPos_eq (pre : List Nat) (stop : MmapRegion → K σ Bool) (f : Nat → Bool) {wh : MmapWarehouse}
    (hstop : ∀ i ∈ post, stop (wh.region i) = pure (f i))
    (hc : Chain wh.nextRegion cur post) (hfuel : post.length ≤ fuel) :
    ∃ mid post', post = mid ++ post' ∧ findPos wh stop fuel pre.getLast? cur t = .ok (((pre ++ mid).getLast?, post'.head?), t) ∧
      (∀ i ∈ mid, f i = false) ∧ ∀ i, post'.head? = some i → f i = true := by
  induction post generalizing fuel pre cur with
  | nil =>
    rw [Chain.nil.mp hc]
    refine ⟨[], [], rfl, ?_, by simp, by simp⟩
    rw [List.append_nil]
    cases fuel <;> rfl
  | cons x post ih =>
    obtain ⟨rfl, hrest⟩ := Chain.cons.mp hc
    rw [List.length_cons] at hfuel
    cases fuel with
    | zero => omega
    | succ fuel =>
      rw [findPos, hstop x List.mem_cons_self, pure_bind]
      cases hx : f x with
      | true =>
        refine ⟨[], x :: post, rfl, ?_, by simp, by rintro i ⟨⟩; exact hx⟩
        rw [List.append_nil]
        rfl
      | false =>
        obtain ⟨mid, post', rfl, hrun, hmid, hpost⟩ := ih (pre ++ [x]) (fun i hi => hstop i (List.mem_cons_of_mem _ hi)) hrest
          (Nat.le_of_succ_le_succ hfuel)
        refine ⟨x :: mid, post', rfl, ?_, fun i hi => ?_, hpost⟩
        · rw [List.getLast?_concat, List.append_assoc] at hrun
          exact hrun
        · rcases List.mem_cons.mp hi with rfl | hi
          · exact hx
          · exact hmid i hi

lemma extendPrev_ok {p mergedEnd : Nat} {next : Option Nat}
    (he : extendPrev P table p next fin mergedEnd s = .ok (r, s')) :
    ∃ prevEnd res ph', regionEnd P (s.wh.region p) s = .ok (prevEnd, s) ∧
      growTo P table prevEnd fin s.ph = .ok (res, ph') ∧
      ((∃ e, res = .error e ∧ r = .error e ∧ s' = { s with ph := ph' }) ∨
        res = .ok () ∧ r = .ok (s.wh.region p).begin ∧
          ∃ n wh1, ∃ t : Vm, pagesBetween P mergedEnd (s.wh.region p).begin t = .ok (n, t) ∧
            wh1 = s.wh.setRegion p ({ · with npages := n }) ∧
            ((next = none ∧ s' = ⟨ph', wh1, s.head⟩) ∨
              ∃ c e n', ∃ t : Vm, next = some c ∧ regionEnd P (wh1.region c) t = .ok (e, t) ∧
                pagesBetween P e (s.wh.region p).begin t = .ok (n', t) ∧
                s' = ⟨ph', (wh1.setRegion p ({ · with npages := n', next := wh1.nextRegion c })).given c, s.head⟩)) := by
  unfold extendPrev at he
  obtain ⟨s0, s1, hget, he⟩ := K.bind_ok he
  cases hget
  obtain ⟨prevEnd, s1, hend, he⟩ := K.bind_ok he
  obtain rfl := regionEnd_state hend
  obtain ⟨res, s2, hmap, he⟩ := K.bind_ok he
  obtain ⟨ph', hgrow, rfl⟩ := onPhys_ok hmap
  refine ⟨prevEnd, res, ph', hend, hgrow, ?_⟩
  cases res with
  | error e =>
    cases he
    exact .inl ⟨e, rfl, rfl, rfl⟩
  | ok v =>
    obtain ⟨n, s3, hn, he⟩ := K.bind_ok he
    obtain rfl := pagesBetween_state hn
    obtain ⟨u, s4, hset, he⟩ := K.bind_ok he
    cases hset
    refine .inr ⟨rfl, ?_⟩
    cases next with
    | none =>
      cases he
      exact ⟨rfl, n, _, _, hn, rfl, .inl ⟨rfl, rfl⟩⟩
    | some c =>
      obtain ⟨s4, s5, hget, he⟩ := K.bind_ok he
      cases hget
      obtain ⟨e, s5, hend', he⟩ := K.bind_ok he
      obtain rfl := regionEnd_state hend'
      obtain ⟨n', s6, hn', he⟩ := K.bind_ok he
      obtain rfl := pagesBetween_state hn'
      cases he
      exact ⟨rfl, n, _, _, hn, rfl, .inr ⟨c, e, n', _, rfl, hend', hn', rfl⟩⟩

lemma extendNext_ok {c mergedEnd : Nat}
    (he : extendNext P table c prev begin fin mergedEnd s = .ok (r, s')) :
    ∃ size res ph', subW P 64 fin begin s = .ok (size, s) ∧
      mapPages P table begin (size / PGSIZE) s.ph = .ok (res, ph') ∧
      ((∃ e, res = .error e ∧ r = .error e ∧ s' = { s with ph := ph' }) ∨
        res = .ok () ∧ r = .ok begin ∧ ∃ n u, ∃ t : Vm, pagesBetween P mergedEnd begin t = .ok (n, t) ∧
          link prev (some c) ⟨ph', s.wh.setRegion c ({ · with begin := begin, npages := n }), s.head⟩ = .ok (u, s')) := by
  unfold extendNext at he
  obtain ⟨size, s1, hsize, he⟩ := K.bind_ok he
  obtain rfl := subW_state hsize
  obtain ⟨res, s2, hmap, he⟩ := K.bind_ok he
  obtain ⟨ph', hrun, rfl⟩ := onPhys_ok hmap
  refine ⟨size, res, ph', hsize, hrun, ?_⟩
  cases res with
  | error e =>
    cases he
    exact .inl ⟨e, rfl, rfl, rfl⟩
  | ok v =>
    obtain ⟨n, s3, hn, he⟩ := K.bind_ok he
    obtain rfl := pagesBetween_state hn
    obtain ⟨u, s4, hset, he⟩ := K.bind_ok he
    cases hset
    obtain ⟨u, s5, hlink, he⟩ := K.bind_ok he
    cases he
    exact .inr ⟨rfl, rfl, n, u, _, hn, hlink⟩

lemma insertNew_ok (h : RegionLists s.wh s.head ids free) (he : insertNew P table begin npages prev cur s = .ok (r, s')) :
    ∃ res ph', mapPages P table begin npages s.ph = .ok (res, ph') ∧
      ((∃ e, res = .error e ∧ r = .error e ∧ s' = { s with ph := ph' }) ∨
        res = .ok () ∧ ((r = .error .noMem ∧ free = [] ∧ s' = ⟨ph', s.wh.init, s.head⟩) ∨
          ∃ x rest u, r = .ok begin ∧ free = x :: rest ∧
            link prev (some x) ⟨ph', (s.wh.taken x).setRegion x fun _ => ⟨begin, npages % 2 ^ 32, cur⟩, s.head⟩ =
              .ok (u, s'))) := by
  unfold insertNew at he
  obtain ⟨res, s2, hmap, he⟩ := K.bind_ok he
  obtain ⟨ph', hrun, rfl⟩ := onPhys_ok hmap
  refine ⟨res, ph', hrun, ?_⟩
  cases res with
  | error e =>
    cases he
    exact .inl ⟨e, rfl, rfl, rfl⟩
  | ok v =>
    refine .inr ⟨rfl, ?_⟩
    obtain ⟨o, s3, halloc, he⟩ := K.bind_ok he
    have hlists : RegionLists ({ s with ph := ph' } : Vm).wh ({ s with ph := ph' } : Vm).head ids free := h
    rcases regionAlloc_ok hlists halloc with ⟨rfl, hfree, rfl⟩ | ⟨x, rest, rfl, hfree, rfl⟩
    · cases he
      exact .inl ⟨rfl, hfree, rfl⟩
    · obtain ⟨u, s4, hset, he⟩ := K.bind_ok he
      cases hset
      obtain ⟨u, s5, hlink, he⟩ := K.bind_ok he
      cases he
      exact .inr ⟨x, rest, u, rfl, hfree, hlink⟩

/-- The nodes of the process and of the free list after a call. -/
def Kept (s s' : Vm) (ids free : List Nat) : Prop :=
  ∃ ids' free', RegionLists s'.wh s'.head ids' free' ∧ Moves s.wh s'.wh ids free ids' free'

lemma Kept.of_eq {ph' : Phys} (h : RegionLists s.wh s.head ids free) : Kept s { s with ph := ph' } ids free :=
  ⟨ids, free, h, .refl _ _ _⟩

lemma extendPrev_lists {p mergedEnd : Nat} {next : Option Nat}
    (h : RegionLists s.wh s.head (pre ++ p :: post) free) (hn : ∀ c, next = some c → post.head? = some c)
    (he : extendPrev P table p next fin mergedEnd s = .ok (r, s')) : Kept s s' (pre ++ p :: post) free := by
  have hp : p ∈ pre ++ p :: post := by simp
  obtain ⟨-, -, ph', -, -, ⟨e, -, -, rfl⟩ | ⟨-, -, n, wh1, -, -, hwh, hrest⟩⟩ := extendPrev_ok he
  · exact .of_eq h
  · have h1 : RegionLists wh1 s.head (pre ++ p :: post) free := hwh ▸ h.setRegion hp rfl
    have hm1 : Moves s.wh wh1 (pre ++ p :: post) free (pre ++ p :: post) free :=
      hwh ▸ RegionLists.moves_setRegion hp _
    rcases hrest with ⟨-, rfl⟩ | ⟨c, -, n', -, hc, -, -, rfl⟩
    · exact ⟨_, _, h1, hm1⟩
    · obtain ⟨post, rfl⟩ := List.head?_eq_some_iff.mp (hn c hc)
      obtain ⟨h2, hm2⟩ := RegionLists.dropNext ({ · with npages := n', next := wh1.nextRegion c }) h1 rfl
      exact ⟨_, _, h2, hm1.trans hm2⟩

lemma link_self {c : Nat} (h : RegionLists s.wh s.head (pre ++ c :: post) free)
    (he : link pre.getLast? (some c) s = .ok (u, s')) :
    RegionLists s'.wh s'.head (pre ++ c :: post) free ∧
      Moves s.wh s'.wh (pre ++ c :: post) free (pre ++ c :: post) free ∧ s'.ph = s.ph ∧
      ∀ i, s'.wh.span i = s.wh.span i := by
  obtain ⟨b, -, hb⟩ := Chain.append.mp h.regions
  obtain ⟨rfl, -⟩ := Chain.cons.mp hb
  obtain ⟨hlist, hph, -, -, hspan, hother⟩ := link_ok h (h.initialised (i := c) (by simp)) hb h.nodup
    (fun i hi => h.lt i (List.mem_append_left _ (List.mem_append_right _ hi))) he
  exact ⟨hlist, ⟨.refl _, fun i _ hi => hother i fun hm => hi (by simp [hm])⟩, hph, hspan⟩

lemma extendNext_lists {c mergedEnd : Nat}
    (h : RegionLists s.wh s.head (pre ++ c :: post) free)
    (he : extendNext P table c pre.getLast? begin fin mergedEnd s = .ok (r, s')) :
    Kept s s' (pre ++ c :: post) free := by
  have hc : c ∈ pre ++ c :: post := by simp
  obtain ⟨-, -, ph', -, -, ⟨e, -, -, rfl⟩ | ⟨-, -, n, u, -, -, hlink⟩⟩ := extendNext_ok he
  · exact .of_eq h
  · have h1 : RegionLists (s.wh.setRegion c ({ · with begin := begin, npages := n })) s.head (pre ++ c :: post) free :=
      h.setRegion hc rfl
    have hm1 : Moves s.wh (s.wh.setRegion c ({ · with begin := begin, npages := n })) (pre ++ c :: post) free
        (pre ++ c :: post) free := RegionLists.moves_setRegion hc _
    obtain ⟨h2, hm2, -, -⟩ := link_self (s := ⟨ph', _, s.head⟩) h1 hlink
    exact ⟨_, _, h2, hm1.trans hm2⟩

lemma insertNew_lists (h : RegionLists s.wh s.head (pre ++ post) free)
    (he : insertNew P table begin npages pre.getLast? post.head? s = .ok (r, s')) : Kept s s' (pre ++ post) free := by
  obtain ⟨-, ph', -, ⟨e, -, -, rfl⟩ | ⟨-, ⟨-, -, rfl⟩ | ⟨x, rest, u, -, rfl, hlink⟩⟩⟩ := insertNew_ok h he
  · exact .of_eq h
  · exact ⟨_, _, h.init, h.moves_init⟩
  · have h1 : RegionLists ({ s with ph := ph' } : Vm).wh ({ s with ph := ph' } : Vm).head (pre ++ post) (x :: rest) := h
    obtain ⟨h2, hm, -⟩ := h1.insert rfl hlink
    exact ⟨_, _, h2, hm⟩

lemma prevEnd_state {wh : MmapWarehouse} {e : Option Nat} (h : prevEnd P wh o t = .ok (e, t')) :
    t = t' := by
  cases o with
  | none => cases h; rfl
  | some p =>
    dsimp only [prevEnd] at h
    rw [K.map_apply] at h
    cases hr : regionEnd P (wh.region p) t with
    | error e => rw [hr] at h; cases h
    | ok v =>
      obtain ⟨n, t1⟩ := v
      rw [hr] at h
      cases h
      exact regionEnd_state hr

lemma mergedEnd_state {wh : MmapWarehouse}
    (h : mergedEnd P wh fin o t = .ok (e, t')) : t = t' := by
  cases o with
  | none => cases h; rfl
  | some p => exact regionEnd_state h

lemma placeRegion_lists (h : RegionLists s.wh s.head (pre ++ post) free)
    (he : placeRegion P table begin fin npages pre.getLast? post.head? s = .ok (r, s')) :
    Kept s s' (pre ++ post) free := by
  have hself : Kept s s (pre ++ post) free := .of_eq h
  unfold placeRegion at he
  obtain ⟨s0, s1, hget, he⟩ := K.bind_ok he
  cases hget
  obtain ⟨pe, s1, hpe, he⟩ := K.bind_ok he
  obtain rfl := prevEnd_state hpe
  split_ifs at he
  · cases he
    exact hself
  · cases he
    exact hself
  · obtain ⟨me, s1, hme, he⟩ := K.bind_ok he
    obtain rfl := mergedEnd_state hme
    have hnext : ∀ c, post.head?.filter (fun c => (s.wh.region c).begin = fin) = some c → post.head? = some c :=
      fun c hc => (Option.filter_eq_some_iff.mp hc).1
    cases hp : pre.getLast?.filter (fun _ => pe = some begin) with
    | some p =>
      rw [hp] at he
      obtain ⟨pre, rfl⟩ := List.getLast?_eq_some_iff.mp (Option.filter_eq_some_iff.mp hp).1
      rw [List.append_assoc, List.singleton_append] at h ⊢
      exact extendPrev_lists h hnext he
    | none =>
      rw [hp] at he
      cases hn : post.head?.filter (fun c => (s.wh.region c).begin = fin) with
      | some c =>
        rw [hn] at he
        obtain ⟨post, rfl⟩ := List.head?_eq_some_iff.mp (hnext c hn)
        exact extendNext_lists h he
      | none =>
        rw [hn] at he
        exact insertNew_lists h he

lemma mmapAt_lists (h : RegionLists s.wh s.head ids free) (he : mmapAt P table begin npages mmapBegin mmapEnd s = .ok (r, s')) :
    Kept s s' ids free := by
  have hself : Kept s s ids free := .of_eq h
  unfold mmapAt at he
  split_ifs at he
  · cases he
    exact hself
  · obtain ⟨len, s1, hlen, he⟩ := K.bind_ok he
    obtain rfl := mulW_state hlen
    obtain ⟨fin, s1, hfin, he⟩ := K.bind_ok he
    obtain rfl := addW_state hfin
    split_ifs at he
    · cases he
      exact hself
    · obtain ⟨s0, s1, hget, he⟩ := K.bind_ok he
      cases hget
      obtain ⟨⟨p, c⟩, s1, hpos, he⟩ := K.bind_ok he
      obtain ⟨rfl, pre, post, rfl, rfl, rfl, -⟩ := findPos_ok []
        (by rintro r b t1 t2 ⟨⟩; rfl) h.regions hpos
      exact placeRegion_lists h he

lemma findGap_state {wh : MmapWarehouse} {cursor : Nat} {r : Bool × Nat} (he : findGap P wh npages fuel cur cursor t = .ok (r, t')) : t = t' := by
  induction fuel generalizing cur cursor with
  | zero =>
    cases cur with
    | none => cases he; rfl
    | some c => cases he
  | succ fuel ih =>
    cases cur with
    | none => cases he; rfl
    | some c =>
      rw [findGap] at he
      split_ifs at he
      · obtain ⟨len, t1, hlen, he⟩ := K.bind_ok he
        obtain rfl := mulW_state hlen
        split_ifs at he
        · cases he
          rfl
        · obtain ⟨e, t1, hend, he⟩ := K.bind_ok he
          obtain rfl := regionEnd_state hend
          exact ih he
      · exact ih he

lemma startAt_state {r : Option Nat}
    (he : startAt P begin npages mmapBegin mmapEnd s = .ok (r, s')) : s = s' := by
  unfold startAt at he
  split_ifs at he
  · obtain ⟨s0, s1, hget, he⟩ := K.bind_ok he
    cases hget
    obtain ⟨⟨found, cursor⟩, s1, hgap, he⟩ := K.bind_ok he
    obtain rfl := findGap_state hgap
    dsimp only at he
    split_ifs at he
    · cases he
      rfl
    · obtain ⟨len, s1, hlen, he⟩ := K.bind_ok he
      obtain rfl := mulW_state hlen
      split_ifs at he
      · cases he
        rfl
      · cases he
        rfl
  · cases he
    rfl

lemma alignUp_state {v : Nat} (he : alignUp P v t = .ok (n, t')) : t = t' := by
  obtain ⟨m, t1, hm, he⟩ := K.bind_ok he
  obtain rfl := addW_state hm
  cases he
  rfl

/-- Whatever `mmap` returns, no node is lost. -/
theorem mmap_lists {len : Nat}
    (h : RegionLists s.wh s.head ids free) (he : mmap P table begin len mmapBegin mmapEnd s = .ok (r, s')) :
    Kept s s' ids free := by
  have hself : Kept s s ids free := .of_eq h
  unfold mmap at he
  split_ifs at he
  · cases he
    exact hself
  · obtain ⟨up, s1, hup, he⟩ := K.bind_eq_ok.mp he
    obtain rfl := alignUp_state hup
    split_ifs at he
    · cases he
      exact hself
    · obtain ⟨o, s1, hstart, he⟩ := K.bind_ok he
      obtain rfl := startAt_state hstart
      cases o with
      | none =>
        cases he
        exact hself
      | some b => exact mmapAt_lists h he

/-- Ranges for which page counts are exact. -/
structure Fits (b f x e : Nat) : Prop where
  lower : b ≤ x
  lt : x < e
  upper : e ≤ f
  max : f ≤ VA_MAX
  dvd : PGSIZE ∣ b ∧ PGSIZE ∣ f ∧ PGSIZE ∣ x ∧ PGSIZE ∣ e

lemma pagesBetween_ok (hbe : b ≤ e) (he : e ≤ VA_MAX) (hb : PGSIZE ∣ b)
    (hd : PGSIZE ∣ e) (h : pagesBetween P e b t = .ok (n, t')) : n * PGSIZE = e - b := by
  unfold pagesBetween at h
  rw [subW_of_le P hbe, pure_bind] at h
  cases h
  obtain ⟨k, hk⟩ := Nat.dvd_sub hd hb
  unfold VA_MAX at he
  unfold PGSIZE at hk ⊢
  omega

lemma cut_fits {f x : Nat} (h : Fits b f x e) :
    cut x e (b, f) = (if b < x then [(b, x)] else []) ++ if e < f then [(e, f)] else [] := by
  have h1 := h.lower
  have h2 := h.lt
  have h3 := h.upper
  unfold cut
  rw [min_eq_right (by omega), max_eq_right (by omega)]

/-- What is left of a region is what `cut` leaves of its range. After a split the previous region is the
left part, and not the right part that precedes `post`. -/
lemma trimRegion_ok {c f x : Nat} {r : Option (Option Nat × Option Nat)}
    (h : RegionLists s.wh s.head (pre ++ c :: post) free)
    (he : trimRegion P pre.getLast? c b f x e s = .ok (r, s')) :
    ∃ mid free', RegionLists s'.wh s'.head (pre ++ mid ++ post) free' ∧
      Moves s.wh s'.wh (pre ++ c :: post) free (pre ++ mid ++ post) free' ∧ s'.ph = s.ph ∧
      (∀ i ∈ pre ++ post, s'.wh.span i = s.wh.span i) ∧
      (r = none ∧ free = [] ∧ (x ≠ b ∧ e ≠ f) ∧ mid.map s'.wh.span = [s.wh.span c] ∨
        ∃ p, r = some (p, post.head?) ∧ (e = f ∨ x = b → p = (pre ++ mid).getLast?) ∧
        ((s.wh.region c).begin = b → Fits b f x e → mid.map s'.wh.span = cut x e (b, f))) := by
  have hc : c ∈ pre ++ c :: post := by simp
  obtain ⟨a, -, hb⟩ := Chain.append.mp h.regions
  have hnext : s.wh.nextRegion c = post.head? := (Chain.cons.mp hb).2.head_eq
  have hne : ∀ i ∈ pre ++ post, i ≠ c := by
    rintro i hi rfl
    exact (List.nodup_cons.mp (List.nodup_middle.mp (List.nodup_append.mp h.nodup).1)).1 hi
  have hlast : some c = (pre ++ [c]).getLast? := by simp
  have happ : pre ++ [c] ++ post = pre ++ c :: post := by simp
  unfold trimRegion at he
  obtain ⟨s0, s1, hget, he⟩ := K.bind_ok he
  cases hget
  have hreg : (s.wh.region c).next = post.head? := hnext
  rw [hreg] at he
  split_ifs at he with h1 h2 h3
  · -- the whole region goes
    obtain ⟨u, s1, hlink, he⟩ := K.bind_ok he
    cases he
    rw [← hnext] at hlink
    obtain ⟨hl, hm, hph, hspan⟩ := h.remove hlink
    refine ⟨[], c :: free, by rw [List.append_nil]; exact hl, by rw [List.append_nil]; exact hm, hph, hspan,
      .inr ⟨_, rfl, by simp, fun _ hf => ?_⟩⟩
    rw [cut_fits hf, if_neg (by omega), if_neg (by omega)]
    rfl
  · obtain ⟨n, s1, hn, he⟩ := K.bind_ok he
    obtain rfl := pagesBetween_state hn
    cases he
    obtain ⟨hl, hm, hspan⟩ := h.resize ({ · with begin := e, npages := n }) rfl
    refine ⟨[c], free, hl, hm, rfl, hspan, .inr ⟨_, rfl, fun _ => hlast, fun _ hf => ?_⟩⟩
    have hlt := hf.upper
    have hsize := pagesBetween_ok hlt hf.max hf.dvd.2.2.2 hf.dvd.2.1 hn
    have hspan : (s.wh.setRegion c ({ · with begin := e, npages := n })).span c = (e, f) := by
      unfold span
      rw [region_setRegion_self]
      dsimp only
      rw [hsize, Nat.add_sub_cancel' hlt]
    rw [cut_fits hf, if_neg (by omega), if_pos (by omega)]
    exact congrArg (fun y => [y]) hspan
  · obtain ⟨n, s1, hn, he⟩ := K.bind_ok he
    obtain rfl := pagesBetween_state hn
    cases he
    obtain ⟨hl, hm, hspan⟩ := h.resize ({ · with npages := n }) rfl
    refine ⟨[c], free, hl, hm, rfl, hspan, .inr ⟨_, rfl, fun _ => hlast, fun hbeg hf => ?_⟩⟩
    have hlow := hf.lower
    have hx : x ≤ VA_MAX := (hf.lt.le.trans hf.upper).trans hf.max
    have hsize := pagesBetween_ok hlow hx hf.dvd.1 hf.dvd.2.2.1 hn
    have hspan : (s.wh.setRegion c ({ · with npages := n })).span c = (b, x) := by
      unfold span
      rw [region_setRegion_self]
      dsimp only
      rw [hsize, hbeg, Nat.add_sub_cancel' hlow]
    rw [cut_fits hf, if_pos (by omega), if_neg (by omega)]
    exact congrArg (fun y => [y]) hspan
  · obtain ⟨o, s1, halloc, he⟩ := K.bind_ok he
    rcases regionAlloc_ok h halloc with ⟨rfl, rfl, rfl⟩ | ⟨right, rest, rfl, rfl, rfl⟩
    · cases he
      refine ⟨[c], [], by rw [happ]; exact h.init, by rw [happ]; exact h.moves_init, rfl, fun i hi => ?_,
        .inl ⟨rfl, rfl, ⟨h2, h3⟩, congrArg (fun y => [y]) (span_eq (h.init_mem hc))⟩⟩
      refine span_eq (h.init_mem ?_)
      rw [List.mem_append] at hi
      rw [List.mem_append, List.mem_cons]
      exact hi.imp_right .inr
    · obtain ⟨rp, s1, hrp, he⟩ := K.bind_ok he
      obtain rfl := pagesBetween_state hrp
      obtain ⟨lp, s1, hlp, he⟩ := K.bind_ok he
      obtain rfl := pagesBetween_state hlp
      cases he
      obtain ⟨hl, hm⟩ := h.splitNext (g := ⟨e, rp, post.head?⟩) (f := ({ · with npages := lp, next := some right }))
        hnext.symm rfl
      have happ' : pre ++ [c, right] ++ post = pre ++ c :: right :: post := by simp
      have hfresh := List.nodup_cons.mp (List.nodup_middle.mp h.nodup)
      have htaken : ∀ i ∈ pre ++ c :: post, ((s.wh.taken right).setRegion right
          fun _ => ⟨e, rp, post.head?⟩).nodeList i = s.wh.nodeList i := by
        intro i hi
        have hir : i ≠ right := by
          rintro rfl
          exact hfresh.1 (List.mem_append_left _ hi)
        rw [setRegion_of_ne hir]
        exact h.taken_eq (h.lt i (List.mem_append_left _ hi)) hir
          fun hr => (List.nodup_append.mp hfresh.2).2.2 i hi i hr rfl
      refine ⟨[c, right], rest, by rw [happ']; exact hl, by rw [happ']; exact hm, rfl, fun i hi => ?_,
        .inr ⟨_, rfl, fun ho => absurd ho (by omega), fun hbeg hf => ?_⟩⟩
      · refine span_eq ((setRegion_of_ne (hne i hi)
          ({ · with npages := lp, next := some right })).trans (htaken i ?_))
        rw [List.mem_append] at hi
        rw [List.mem_append, List.mem_cons]
        exact hi.imp_right .inr
      · have hlow := hf.lower
        have hup := hf.upper
        have hx : x ≤ VA_MAX := (hf.lt.le.trans hf.upper).trans hf.max
        have hsize := pagesBetween_ok hlow hx hf.dvd.1 hf.dvd.2.2.1 hlp
        have hsize' := pagesBetween_ok hup hf.max hf.dvd.2.2.2 hf.dvd.2.1 hrp
        have hcr : right ≠ c := by
          rintro rfl
          exact hfresh.1 (by simp)
        have hleft : (((s.wh.taken right).setRegion right fun _ => ⟨e, rp, post.head?⟩).setRegion c
            ({ · with npages := lp, next := some right })).span c = (b, x) := by
          unfold span
          rw [region_setRegion_self]
          dsimp only
          rw [hsize, show (((s.wh.taken right).setRegion right fun _ => ⟨e, rp, post.head?⟩).region c).begin = b by
            unfold region; rw [htaken c hc]; exact hbeg, Nat.add_sub_cancel' hlow]
        have hright : (((s.wh.taken right).setRegion right fun _ => ⟨e, rp, post.head?⟩).setRegion c
            ({ · with npages := lp, next := some right })).span right = (e, f) := by
          rw [span_eq (setRegion_of_ne hcr _)]
          unfold span
          rw [region_setRegion_self]
          dsimp only
          rw [hsize', Nat.add_sub_cancel' hup]
        rw [cut_fits hf, if_pos (by omega), if_pos (by omega)]
        exact congrArg₂ (fun y z => [y, z]) hleft hright

lemma munmapFrom_done {r : Except UvmError Unit}
    (hge : ¬unmapStart < fin) (he : munmapFrom P table fin fuel prev cur unmapStart s = .ok (r, s')) :
    r = .ok () ∧ s = s' := by
  cases cur with
  | none =>
    cases fuel <;> cases he <;> exact ⟨rfl, rfl⟩
  | some c =>
    cases fuel with
    | zero => cases he
    | succ fuel =>
      rw [munmapFrom, if_neg hge] at he
      cases he
      exact ⟨rfl, rfl⟩

lemma munmapFrom_lists {r : Except UvmError Unit}
    (h : RegionLists s.wh s.head (pre ++ post) free)
    (he : munmapFrom P table fin fuel pre.getLast? post.head? unmapStart s = .ok (r, s')) :
    Kept s s' (pre ++ post) free := by
  induction fuel generalizing s pre post free unmapStart with
  | zero =>
    cases post with
    | nil =>
      cases he
      exact .of_eq h
    | cons c post => cases he
  | succ fuel ih =>
    cases post with
    | nil =>
      cases he
      exact .of_eq h
    | cons c post =>
      obtain ⟨a, -, hb⟩ := Chain.append.mp h.regions
      have hnext : (s.wh.region c).next = post.head? := (Chain.cons.mp hb).2.head_eq
      rw [List.head?_cons, munmapFrom] at he
      split_ifs at he with hlt
      · obtain ⟨s0, s1, hget, he⟩ := K.bind_ok he
        cases hget
        obtain ⟨curEnd, s1, hend, he⟩ := K.bind_ok he
        obtain rfl := regionEnd_state hend
        dsimp only at he
        split_ifs at he
        · cases he
          exact .of_eq h
        · obtain ⟨ok, s1, hunmap, he⟩ := K.bind_ok he
          obtain ⟨ph', -, rfl⟩ := onPhys_ok hunmap
          split_ifs at he
          · obtain ⟨o, s2, htrim, he⟩ := K.bind_ok he
            have h1 : RegionLists ({ s with ph := ph' } : Vm).wh ({ s with ph := ph' } : Vm).head (pre ++ c :: post) free := h
            obtain ⟨mid, free', h2, hm, -, -, ⟨rfl, -⟩ | ⟨p, rfl, hp, -⟩⟩ := trimRegion_ok h1 htrim
            · cases he
              exact ⟨_, _, h2, hm⟩
            · dsimp only at he
              by_cases hends : min fin curEnd = curEnd
              · rw [hp (.inl hends)] at he
                obtain ⟨ids', free'', h3, hm'⟩ := ih h2 he
                exact ⟨ids', free'', h3, hm.trans hm'⟩
              · obtain ⟨-, rfl⟩ := munmapFrom_done (by omega) he
                exact ⟨_, _, h2, hm⟩
          · cases he
            exact .of_eq h
        · obtain ⟨step, s1, hstep, he⟩ := K.bind_ok he
          obtain rfl := subW_state hstep
          obtain ⟨next, s1, hadd, he⟩ := K.bind_ok he
          obtain rfl := addW_state hadd
          rw [hnext, show some c = (pre ++ [c]).getLast? by simp] at he
          have happ : pre ++ c :: post = pre ++ [c] ++ post := by simp
          rw [happ] at h ⊢
          exact ih h he
      · cases he
        exact .of_eq h

/-- Whatever `munmap` returns, no node is lost. -/
theorem munmap_lists {len : Nat} {r : Except UvmError Unit} (h : RegionLists s.wh s.head ids free)
    (he : munmap P table begin len s = .ok (r, s')) : Kept s s' ids free := by
  have hself : Kept s s ids free := .of_eq h
  unfold munmap at he
  split_ifs at he
  · cases he
    exact hself
  · obtain ⟨sum, s1, hsum, he⟩ := K.bind_ok he
    obtain rfl := addW_state hsum
    obtain ⟨fin, s1, hfin, he⟩ := K.bind_ok he
    obtain rfl := alignUp_state hfin
    split_ifs at he
    · cases he
      exact hself
    · obtain ⟨s0, s1, hget, he⟩ := K.bind_ok he
      cases hget
      obtain ⟨⟨p, c⟩, s1, hpos, he⟩ := K.bind_ok he
      have hstop : ∀ (r : MmapRegion) (b : Bool) (t1 t2 : Vm),
          (do return decide (alignDown begin < (← regionEnd P r)) : K Vm Bool) t1 = .ok (b, t2) → t1 = t2 := by
        intro r b t1 t2 hr
        obtain ⟨e, t3, hend, hr⟩ := K.bind_ok hr
        cases hr
        exact regionEnd_state hend
      obtain ⟨rfl, pre, post, rfl, rfl, rfl, -⟩ := findPos_ok [] hstop h.regions hpos
      exact munmapFrom_lists h he

end Uvm

end Glenda.Mem
