import Glenda.Mem.Pmem

/-!
# The page allocator on several harts

`allocate` pops the free list under the lock of its region and only then counts the page in
`PAGE_REF`; `free` first counts the page out and then pushes it under the lock. Here each of these
is one atomic step, and the steps of any number of harts interleave. A hart may write to the
pages it holds at any time. `place` says where a page is: on its free list, in an operation that
has not ended, or with a holder.
-/

namespace Glenda.Mem
open Glenda.Lib
open Function (update update_eq_self update_of_ne update_self)

namespace Pmem

/-! ### Atomic steps -/

/-- `allocate` under the lock. -/
def pop (k : Bool) : K Phys (Option Nat) := do
  let ph ← get
  match (ph.region k).head with
  | none => return none
  | some p =>
    set (ph.setRegion k { ph.region k with
      head := freeNext ph.mem p, allocable := (ph.region k).allocable - 1 })
    return some p

/-- The `fetch_add` of `allocate`. -/
def countIn (p : Nat) : K Phys Unit := do
  let idx ← paToIndex p
  let old := (← get).pageRef idx
  modify (·.setRef idx ((old + 1) % 256))
  K.panicIf (old ≠ 0) .refCountCorrupted

/-- `free` up to its `fetch_sub`: the region that the page goes back to, if this was the last
reference. -/
def countOut (addr : Nat) : K Phys (Option Bool) := do
  let ph ← get
  match getRegion addr ph with
  | none => throw .freeOutOfRegions
  | some k =>
    K.panicIf (addr < (ph.region k).lower ∨ (ph.region k).upper ≤ addr ∨ addr % PGSIZE ≠ 0) .freeOutOfBounds
    let idx ← paToIndex addr
    let old := (← get).pageRef idx
    modify (·.setRef idx ((old + 255) % 256))
    K.panicIf (old = 0) .doubleFree
    return if old ≤ 1 then some k else none

/-- `free` under the lock. -/
def push (k : Bool) (addr : Nat) : K Phys Unit :=
  modify fun ph => (ph.setWord (addr / PGSIZE) 0 ((ph.region k).head.getD 0)).setRegion k
    { ph.region k with head := some addr, allocable := (ph.region k).allocable + 1 }

lemma paToIndex_apply (pa : Nat) (ph : Phys) : paToIndex pa ph =
    if pa < PHY_MEM_START then .error .paTooLow
    else if TOTAL_PAGES ≤ pageIndex pa then .error .paTooHigh
    else .ok (pageIndex pa, ph) := by
  unfold paToIndex K.panicIf pageIndex
  split_ifs with h1 h2
  · rfl
  · simp [K.bind_apply, Except.bind, Except.map, h2]
  · simp [K.bind_apply, Except.bind, h2]

lemma allocate_eq_steps (k : Bool) : allocate k = (do
    match ← pop k with
    | none => return none
    | some p =>
      countIn p
      modify (·.zeroPage (p / PGSIZE))
      return some p) := by
  funext ph
  unfold allocate pop countIn K.panicIf
  simp only [K.bind_apply, K.get_apply, Except.bind]
  cases (ph.region k).head with
  | none => rfl
  | some p =>
    simp only [K.bind_apply, K.set_apply, K.pure_apply, K.modify_apply, K.get_apply, Except.bind, paToIndex_apply]
    by_cases h1 : p < PHY_MEM_START
    · simp [h1]
    by_cases h2 : TOTAL_PAGES ≤ pageIndex p
    · simp [h1, h2]
    by_cases h3 : ph.pageRef (pageIndex p) = 0
    · simp [h1, h2, h3, Phys.setRegion]
    · simp [h1, h2, h3, Phys.setRegion]

lemma free_eq_steps (addr : Nat) : Pmem.free addr = (do
    match ← countOut addr with
    | none => return ()
    | some k => push k addr) := by
  funext ph
  have hregion : ∀ k, getRegion addr ph = some k → freeIn k addr ph = (do
      match ← countOut addr with
      | none => return ()
      | some k => push k addr : K Phys Unit) ph := by
    intro k hk
    unfold freeIn countOut push K.panicIf
    simp only [K.bind_apply, K.get_apply, Except.bind, paToIndex_apply, hk]
    by_cases h1 : addr < (ph.region k).lower ∨ (ph.region k).upper ≤ addr ∨ addr % PGSIZE ≠ 0
    · simp [h1]
    by_cases h2 : addr < PHY_MEM_START
    · simp [h1, h2]
    by_cases h3 : TOTAL_PAGES ≤ pageIndex addr
    · simp [h1, h2, h3]
    by_cases h4 : ph.pageRef (pageIndex addr) = 0
    · simp [h1, h2, h3, h4]
    by_cases h5 : ph.pageRef (pageIndex addr) ≤ 1
    · simp [h1, h2, h3, h4, h5]
    · simp [h1, h2, h3, h4, h5]
  unfold Pmem.free
  simp only [K.bind_apply, K.get_apply, Except.bind]
  split_ifs with hk hu
  · exact hregion true (by simp [getRegion, hk])
  · exact hregion false (by simp [getRegion, hk, hu])
  · simp [countOut, getRegion, hk, hu, K.bind_apply, Except.bind]

/-! ### Initialisation -/

/-- The loop of `AllocRegion::init`: the list built so far and its length. -/
def initFrom (P : Profile) (upper : Nat) : Nat → Nat → Option Nat → Nat → K Phys (Option Nat × Nat)
  | 0, _, _, _ => throw .diverge
  | fuel + 1, current, head, count => do
    let next ← addW P 64 current PGSIZE
    if next ≤ upper then
      modify (·.setWord (current / PGSIZE) 0 (head.getD 0))
      initFrom P upper fuel next (ptr current) (count + 1)
    else return (head, count)

def init (P : Profile) (k : Bool) (lower upper : Nat) : K Phys Unit := do
  let lower ← alignUp P lower
  let upper := alignDown upper
  let (head, count) ← initFrom P upper (upper / PGSIZE + 1) lower none 0
  modify (·.setRegion k ⟨lower, upper, head, count⟩)

end Pmem

/-- `n` pages from an address on. -/
def pagesFrom (a n : Nat) : List Nat := (List.range n).map fun i => a + i * PGSIZE

/-- The pages of a region. -/
def Phys.pages (ph : Phys) (k : Bool) : List Nat :=
  pagesFrom (ph.region k).lower (((ph.region k).upper - (ph.region k).lower) / PGSIZE)

/-! ### Harts -/

/-- What a hart is doing in the allocator. -/
inductive HartOp
  | idle
  | popped (p : Nat)
  | counted (p : Nat)
  | freeing (k : Bool) (p : Nat)

namespace HartOp

def page : HartOp → Option Nat
  | idle => none
  | popped p => some p
  | counted p => some p
  | freeing _ p => some p

def count : HartOp → Nat
  | counted _ => 1
  | _ => 0

end HartOp

structure Harts (Hart : Type) where
  ph : Phys
  op : Hart → HartOp
  held : Hart → List Nat

variable {Hart : Type} [DecidableEq Hart]

/-- One atomic step of a hart. It frees only what it holds. -/
inductive HartStep (s : Harts Hart) : Except Panic (Harts Hart) → Prop
  | pop {h : Hart} {k : Bool} (hop : s.op h = .idle) :
      HartStep s ((Pmem.pop k s.ph).map fun r => { s with
        ph := r.2, op := Function.update s.op h (r.1.elim .idle .popped) })
  | countIn {h : Hart} {p : Nat} (hop : s.op h = .popped p) :
      HartStep s ((Pmem.countIn p s.ph).map fun r => { s with
        ph := r.2, op := Function.update s.op h (.counted p) })
  | zero {h : Hart} {p : Nat} (hop : s.op h = .counted p) :
      HartStep s (.ok ⟨s.ph.zeroPage (p / PGSIZE), Function.update s.op h .idle,
        Function.update s.held h (p :: s.held h)⟩)
  | countOut {h : Hart} {p : Nat} (hop : s.op h = .idle) (hp : p ∈ s.held h) :
      HartStep s ((Pmem.countOut p s.ph).map fun r => ⟨r.2,
        Function.update s.op h (r.1.elim .idle fun k => .freeing k p),
        Function.update s.held h ((s.held h).erase p)⟩)
  | push {h : Hart} {k : Bool} {p : Nat} (hop : s.op h = .freeing k p) :
      HartStep s ((Pmem.push k p s.ph).map fun r => { s with
        ph := r.2, op := Function.update s.op h .idle })
  | write {h : Hart} {p i w : Nat} (hp : p ∈ s.held h) :
      HartStep s (.ok { s with ph := s.ph.setWord (p / PGSIZE) i w })

/-- The states that harts reach after the two regions `[lower, split)` and `[split, upper)` have
been initialised. Every page has a slot in `PAGE_REF`. -/
inductive HartsReach (P : Profile) : Harts Hart → Prop
  | start {ph ph' : Phys} {lower split upper : Nat} (hl : PHY_MEM_START ≤ lower) (hs : lower ≤ split)
      (hu : split ≤ upper) (ht : upper ≤ PHY_MEM_START + TOTAL_PAGES * PGSIZE) (hr : ∀ i, ph.pageRef i = 0)
      (he : (do Pmem.init P true lower split; Pmem.init P false split upper : K Phys Unit) ph = .ok ((), ph')) :
      HartsReach P ⟨ph', fun _ => .idle, fun _ => []⟩
  | step {s s' : Harts Hart} (h : HartsReach P s) (hs : HartStep s (.ok s')) : HartsReach P s'

/-! ### The invariant -/

inductive Place (Hart : Type)
  | free
  | op (h : Hart)
  | held (h : Hart)

/-- The reference count of a page. -/
def Place.count (op : Hart → HartOp) : Place Hart → Nat
  | free => 0
  | .op h => (op h).count
  | held _ => 1

structure Phys.Bounded (ph : Phys) : Prop where
  lower : PHY_MEM_START ≤ (ph.region true).lower
  order : (ph.region true).lower ≤ (ph.region false).lower
  split : (ph.region true).upper ≤ (ph.region false).lower
  slots : ∀ k, (ph.region k).upper ≤ PHY_MEM_START + TOTAL_PAGES * PGSIZE
  aligned : ∀ k, (ph.region k).lower % PGSIZE = 0

structure HartsInv (s : Harts Hart) (place : Nat → Place Hart) (free : Bool → List Nat) : Prop where
  bounded : s.ph.Bounded
  chain : ∀ k, Chain (freeNext s.ph.mem) (s.ph.region k).head (free k)
  nodup : ∀ k, (free k).Nodup
  allocable : ∀ k, (s.ph.region k).allocable = (free k).length
  free_iff : ∀ k p, p ∈ free k ↔ p ∈ s.ph.pages k ∧ place p = .free
  op_iff : ∀ h p, (s.op h).page = some p ↔ (∃ k, p ∈ s.ph.pages k) ∧ place p = .op h
  held_iff : ∀ h p, p ∈ s.held h ↔ (∃ k, p ∈ s.ph.pages k) ∧ place p = .held h
  held_nodup : ∀ h, (s.held h).Nodup
  ref : ∀ k, ∀ p ∈ s.ph.pages k, s.ph.pageRef (pageIndex p) = (place p).count s.op
  target : ∀ h k p, s.op h = .freeing k p → p ∈ s.ph.pages k

lemma mem_pagesFrom {a n p : Nat} : p ∈ pagesFrom a n ↔ a ≤ p ∧ p < a + n * PGSIZE ∧ (p - a) % PGSIZE = 0 := by
  unfold pagesFrom PGSIZE
  rw [List.mem_map]
  constructor
  · rintro ⟨i, hi, rfl⟩
    rw [List.mem_range] at hi
    omega
  · rintro ⟨ha, hlt, hmod⟩
    exact ⟨(p - a) / 4096, List.mem_range.mpr (by omega), by omega⟩

namespace Phys.Bounded

variable {ph ph' : Phys} {k : Bool} {p : Nat}

lemma congr (h : ph.Bounded)
    (hr : ∀ k, (ph'.region k).lower = (ph.region k).lower ∧ (ph'.region k).upper = (ph.region k).upper) :
    ph'.Bounded := by
  constructor
  · rw [(hr true).1]
    exact h.lower
  · rw [(hr true).1, (hr false).1]
    exact h.order
  · rw [(hr true).2, (hr false).1]
    exact h.split
  · intro k
    rw [(hr k).2]
    exact h.slots k
  · intro k
    rw [(hr k).1]
    exact h.aligned k

lemma mem_pages (h : ph.Bounded) (hp : p ∈ ph.pages k) : p % PGSIZE = 0 ∧ PHY_MEM_START ≤ p ∧
    pageIndex p < TOTAL_PAGES ∧ (ph.region k).lower ≤ p ∧ p < (ph.region k).upper := by
  have hlow := h.lower
  have hord := h.order
  have hs := h.slots k
  have ha := h.aligned k
  have hmem := mem_pagesFrom.mp hp
  have hle : PHY_MEM_START ≤ (ph.region k).lower := by
    cases k
    · omega
    · exact hlow
  unfold pageIndex TOTAL_PAGES PHY_MEM_START PGSIZE at *
  omega

lemma pages_disjoint (h : ph.Bounded) {k' : Bool} (hp : p ∈ ph.pages k) (hp' : p ∈ ph.pages k') : k = k' := by
  have h1 := h.mem_pages hp
  have h2 := h.mem_pages hp'
  have hsplit := h.split
  cases k <;> cases k' <;> first | rfl | omega

end Phys.Bounded

lemma Phys.pages_congr {ph ph' : Phys}
    (hr : ∀ k, (ph'.region k).lower = (ph.region k).lower ∧ (ph'.region k).upper = (ph.region k).upper) :
    ph'.pages = ph.pages := by
  funext k
  unfold Phys.pages
  rw [(hr k).1, (hr k).2]

namespace HartsInv

variable {s s' : Harts Hart} {place : Nat → Place Hart} {free free' : Bool → List Nat} {x : Hart} {p : Nat}
  {k : Bool} {o : HartOp} {l : List Nat} {B : Place Hart}

lemma move (h : HartsInv s place free) (hp : p ∈ s.ph.pages k)
    (hr : ∀ j, (s'.ph.region j).lower = (s.ph.region j).lower ∧ (s'.ph.region j).upper = (s.ph.region j).upper)
    (hop : s'.op = update s.op x o) (hheld : s'.held = update s.held x l)
    (hold : ∀ q, (s.op x).page = some q → q = p)
    (hfrom : place p = .free ∨ place p = .op x ∨ place p = .held x)
    (hB : B = .free ∨ B = .op x ∨ B = .held x) (ho : ∀ q, o.page = some q ↔ q = p ∧ B = .op x)
    (hl : ∀ q, q ∈ l ↔ if q = p then B = .held x else q ∈ s.held x) (hnd : l.Nodup)
    (hf : ∀ j q, q ∈ free' j ↔ if q = p then j = k ∧ B = .free else q ∈ free j)
    (hchain : ∀ j, Chain (freeNext s'.ph.mem) (s'.ph.region j).head (free' j)) (hnodup : ∀ j, (free' j).Nodup)
    (halloc : ∀ j, (s'.ph.region j).allocable = (free' j).length)
    (href : s'.ph.pageRef = update s.ph.pageRef (pageIndex p) (B.count s'.op))
    (htarget : ∀ j q, o = .freeing j q → q ∈ s.ph.pages j) :
    HartsInv s' (update place p B) free' := by
  have hpages := Phys.pages_congr hr
  have hexists : ∃ j, p ∈ s.ph.pages j := ⟨k, hp⟩
  refine ⟨h.bounded.congr hr, hchain, hnodup, halloc, fun j q => ?_, fun y q => ?_, fun y q => ?_, fun y => ?_,
    fun j q hq => ?_, fun y j q hy => ?_⟩
  · rw [hf, hpages]
    by_cases hqp : q = p
    · subst hqp
      rw [if_pos rfl, update_self]
      refine and_congr_left fun _ => ⟨fun hj => hj ▸ hp, fun hj => h.bounded.pages_disjoint hj hp⟩
    · rw [if_neg hqp, update_of_ne hqp]
      exact h.free_iff j q
  · rw [hop, hpages]
    by_cases hyx : y = x
    · subst hyx
      rw [update_self, ho]
      by_cases hqp : q = p
      · subst hqp
        rw [update_self]
        exact and_congr_left fun _ => ⟨fun _ => hexists, fun _ => rfl⟩
      · rw [update_of_ne hqp, ← h.op_iff]
        exact ⟨fun he => absurd he.1 hqp, fun he => absurd (hold q he) hqp⟩
    · rw [update_of_ne hyx, h.op_iff]
      by_cases hqp : q = p
      · subst hqp
        rw [update_self]
        refine and_congr_right fun _ => ⟨fun he => ?_, fun he => ?_⟩
        · rw [he] at hfrom
          simp [hyx] at hfrom
        · rw [he] at hB
          simp [hyx] at hB
      · rw [update_of_ne hqp]
  · rw [hheld, hpages]
    by_cases hyx : y = x
    · subst hyx
      rw [update_self, hl]
      by_cases hqp : q = p
      · subst hqp
        rw [if_pos rfl, update_self]
        exact ⟨fun he => ⟨hexists, he⟩, fun he => he.2⟩
      · rw [if_neg hqp, update_of_ne hqp]
        exact h.held_iff y q
    · rw [update_of_ne hyx, h.held_iff]
      by_cases hqp : q = p
      · subst hqp
        rw [update_self]
        refine and_congr_right fun _ => ⟨fun he => ?_, fun he => ?_⟩
        · rw [he] at hfrom
          simp [hyx] at hfrom
        · rw [he] at hB
          simp [hyx] at hB
      · rw [update_of_ne hqp]
  · rw [hheld]
    by_cases hyx : y = x
    · rw [hyx, update_self]
      exact hnd
    · rw [update_of_ne hyx]
      exact h.held_nodup y
  · rw [hpages] at hq
    rw [href]
    by_cases hqp : q = p
    · subst hqp
      rw [update_self, update_self]
    · have h1 := h.bounded.mem_pages hq
      have h2 := h.bounded.mem_pages hp
      rw [update_of_ne fun he => hqp (pageIndex_injective h1.1 h2.1 h1.2.1 h2.2.1 he),
        update_of_ne hqp, h.ref j q hq]
      cases hpl : place q with
      | free => rfl
      | held y => rfl
      | op y =>
        have hyx : y ≠ x := by
          rintro rfl
          exact hqp (hold q ((h.op_iff y q).mpr ⟨⟨j, hq⟩, hpl⟩))
        dsimp only [Place.count]
        rw [hop, update_of_ne hyx]
  · rw [hpages]
    rw [hop] at hy
    by_cases hyx : y = x
    · rw [hyx, update_self] at hy
      exact htarget j q hy
    · rw [update_of_ne hyx] at hy
      exact h.target y j q hy

omit [DecidableEq Hart] in
lemma chain_congr (h : HartsInv s place free) (hp : p ∈ s.ph.pages k) (hplace : place p ≠ .free)
    (mem : Nat → Nat → Nat) (hm : ∀ n, n ≠ p / PGSIZE → mem n = s.ph.mem n) (j : Bool) :
    Chain (freeNext mem) (s.ph.region j).head (free j) := by
  refine Seg.congr (h.chain j) fun a ha => ?_
  obtain ⟨hmem, hfree⟩ := (h.free_iff j a).mp ha
  have hne : a / PGSIZE ≠ p / PGSIZE := by
    intro he
    have heq := div_injective (h.bounded.mem_pages hmem).1 (h.bounded.mem_pages hp).1 he
    exact hplace (heq ▸ hfree)
  unfold freeNext
  rw [hm _ hne]

omit [DecidableEq Hart] in
lemma erase_free (h : HartsInv s place free) {rest : List Nat} (hl : free k = p :: rest) (j : Bool) (q : Nat) :
    q ∈ update free k rest j ↔ q ≠ p ∧ q ∈ free j := by
  have hnd := h.nodup k
  rw [hl, List.nodup_cons] at hnd
  by_cases hj : j = k
  · subst hj
    rw [update_self, hl, List.mem_cons]
    refine ⟨fun hq => ⟨fun he => hnd.1 (he ▸ hq), .inr hq⟩, fun hq => hq.2.resolve_left hq.1⟩
  · rw [update_of_ne hj]
    refine ⟨fun hq => ⟨fun he => ?_, hq⟩, fun hq => hq.2⟩
    have hk : p ∈ free k := by simp [hl]
    rw [he] at hq
    exact hj (h.bounded.pages_disjoint ((h.free_iff j p).mp hq).1 ((h.free_iff k p).mp hk).1)

section

variable (h : HartsInv s place free)
include h

lemma pop (hop : s.op x = .idle) :
    ∃ r, Pmem.pop k s.ph = .ok r ∧ ∃ place' free',
      HartsInv { s with ph := r.2, op := update s.op x (r.1.elim .idle .popped) } place' free' := by
  unfold Pmem.pop
  simp only [K.bind_apply, K.get_apply, Except.bind]
  cases hh : (s.ph.region k).head with
  | none =>
    refine ⟨(none, s.ph), rfl, place, free, ?_⟩
    dsimp only [Option.elim_none]
    rw [← hop, update_eq_self]
    exact h
  | some p =>
    refine ⟨(some p, _), rfl, ?_⟩
    have hchain := h.chain k
    cases hl : free k with
    | nil =>
      rw [hl, hh] at hchain
      cases hchain
    | cons a rest =>
      rw [hl, hh, Chain.cons] at hchain
      obtain ⟨hp, hrest⟩ := hchain
      obtain rfl := Option.some.inj hp
      have hmem : p ∈ free k := by simp [hl]
      obtain ⟨hpage, hfree⟩ := (h.free_iff k p).mp hmem
      have hnot : ∀ y, p ∉ s.held y := by
        intro y hy
        have := ((h.held_iff y p).mp hy).2
        rw [hfree] at this
        cases this
      refine ⟨update place p (.op x), update free k rest, h.move hpage (fun j => ?_) rfl
        (update_eq_self x s.held).symm (fun q hq => ?_) (.inl hfree) (.inr (.inl rfl)) (fun q => ?_)
        (fun q => ?_) (h.held_nodup x) (fun j q => ?_) (fun j => ?_) (fun j => ?_) (fun j => ?_) ?_
        (fun j q he => ?_)⟩
      · by_cases hj : j = k
        · subst hj
          simp [Phys.setRegion]
        · simp [Phys.setRegion, hj]
      · rw [hop] at hq
        cases hq
      · simp [HartOp.page, eq_comm]
      · by_cases hq : q = p
        · simp [hq, hnot]
        · simp [hq]
      · rw [h.erase_free hl]
        by_cases hq : q = p
        · simp [hq]
        · simp [hq]
      · dsimp only [Phys.setRegion]
        by_cases hj : j = k
        · subst hj
          rw [update_self, update_self]
          exact hrest
        · rw [update_of_ne hj, update_of_ne hj]
          exact h.chain j
      · by_cases hj : j = k
        · subst hj
          rw [update_self]
          exact (hl ▸ h.nodup j).of_cons
        · rw [update_of_ne hj]
          exact h.nodup j
      · dsimp only [Phys.setRegion]
        have hlen := h.allocable j
        by_cases hj : j = k
        · subst hj
          rw [hl] at hlen
          rw [update_self, update_self]
          simp [hlen]
        · rw [update_of_ne hj, update_of_ne hj]
          exact hlen
      · have href := h.ref k p hpage
        rw [hfree] at href
        dsimp only [Phys.setRegion, Place.count]
        rw [update_self]
        exact (Function.update_eq_self_iff.mpr href.symm).symm
      · cases he

lemma countIn (hop : s.op x = .popped p) :
    ∃ r, Pmem.countIn p s.ph = .ok r ∧ ∃ place' free',
      HartsInv { s with ph := r.2, op := update s.op x (.counted p) } place' free' := by
  obtain ⟨⟨k, hpage⟩, hplace⟩ := (h.op_iff x p).mp (by rw [hop]; rfl)
  obtain ⟨-, hlow, hslot, -, -⟩ := h.bounded.mem_pages hpage
  have href : s.ph.pageRef (pageIndex p) = 0 := by
    rw [h.ref k p hpage, hplace]
    dsimp only [Place.count]
    rw [hop]
    rfl
  refine ⟨((), s.ph.setRef (pageIndex p) 1), ?_, update place p (.op x), free,
    h.move hpage (fun j => ⟨rfl, rfl⟩) rfl (update_eq_self x s.held).symm (fun q hq => ?_)
      (.inr (.inl hplace)) (.inr (.inl rfl)) (fun q => ?_) (fun q => ?_) (h.held_nodup x) (fun j q => ?_) h.chain
      h.nodup h.allocable ?_ (fun j q he => ?_)⟩
  · simp [Pmem.countIn, K.bind_apply, Pmem.paToIndex_apply, Except.bind, K.panicIf, href, Nat.not_lt.mpr hlow,
      Nat.not_le.mpr hslot]
  · rw [hop] at hq
    exact (Option.some.inj hq).symm
  · simp [HartOp.page, eq_comm]
  · by_cases hq : q = p
    · simp [hq, h.held_iff, hplace]
    · simp [hq]
  · by_cases hq : q = p
    · simp [hq, h.free_iff, hplace]
    · simp [hq]
  · dsimp only [Place.count]
    rw [update_self]
    rfl
  · cases he

lemma zero (hop : s.op x = .counted p) : ∃ place' free',
    HartsInv ⟨s.ph.zeroPage (p / PGSIZE), update s.op x .idle,
      update s.held x (p :: s.held x)⟩ place' free' := by
  obtain ⟨⟨k, hpage⟩, hplace⟩ := (h.op_iff x p).mp (by rw [hop]; rfl)
  have href : s.ph.pageRef (pageIndex p) = 1 := by
    rw [h.ref k p hpage, hplace]
    dsimp only [Place.count]
    rw [hop]
    rfl
  have hnot : p ∉ s.held x := by
    intro hp
    rw [h.held_iff, hplace] at hp
    cases hp.2
  refine ⟨update place p (.held x), free, h.move hpage (fun j => ⟨rfl, rfl⟩) rfl rfl (fun q hq => ?_)
    (.inr (.inl hplace)) (.inr (.inr rfl)) (fun q => ?_) (fun q => ?_)
    (List.nodup_cons.mpr ⟨hnot, h.held_nodup x⟩) (fun j q => ?_) (fun j => ?_) h.nodup h.allocable ?_
    (fun j q he => ?_)⟩
  · rw [hop] at hq
    exact (Option.some.inj hq).symm
  · simp [HartOp.page]
  · by_cases hq : q = p
    · simp [hq]
    · simp [hq]
  · by_cases hq : q = p
    · simp [hq, h.free_iff, hplace]
    · simp [hq]
  · exact h.chain_congr hpage (by simp [hplace]) _ (fun n hn => update_of_ne hn _ _) j
  · exact (Function.update_eq_self_iff.mpr href.symm).symm
  · cases he

lemma countOut (hop : s.op x = .idle) (hp : p ∈ s.held x) :
    ∃ r, Pmem.countOut p s.ph = .ok r ∧ ∃ place' free',
      HartsInv ⟨r.2, update s.op x (r.1.elim .idle fun k => .freeing k p),
        update s.held x ((s.held x).erase p)⟩ place' free' := by
  obtain ⟨⟨k, hpage⟩, hplace⟩ := (h.held_iff x p).mp hp
  obtain ⟨haligned, hlow, hslot, hge, hlt⟩ := h.bounded.mem_pages hpage
  have href : s.ph.pageRef (pageIndex p) = 1 := by
    rw [h.ref k p hpage, hplace]
    rfl
  have hregion : Pmem.getRegion p s.ph = some k := by
    unfold Pmem.getRegion AllocRegion.contains
    have hsplit := h.bounded.split
    cases k with
    | true => simp [hge, hlt]
    | false => simp [hge, hlt, show ¬p < (s.ph.region true).upper by omega]
  refine ⟨(some k, s.ph.setRef (pageIndex p) 0), ?_, update place p (.op x), free,
    h.move hpage (fun j => ⟨rfl, rfl⟩) rfl rfl (fun q hq => ?_) (.inr (.inr hplace)) (.inr (.inl rfl)) (fun q => ?_)
      (fun q => ?_) ((h.held_nodup x).erase p) (fun j q => ?_) h.chain h.nodup h.allocable ?_ (fun j q he => ?_)⟩
  · simp [Pmem.countOut, K.bind_apply, Pmem.paToIndex_apply, Except.bind, K.panicIf, href, hregion,
      Nat.not_lt.mpr hlow, Nat.not_le.mpr hslot, Nat.not_lt.mpr hge, Nat.not_le.mpr hlt, haligned]
  · rw [hop] at hq
    cases hq
  · simp [HartOp.page, eq_comm]
  · rw [(h.held_nodup x).mem_erase_iff]
    by_cases hq : q = p
    · simp [hq]
    · simp [hq]
  · by_cases hq : q = p
    · simp [hq, h.free_iff, hplace]
    · simp [hq]
  · dsimp only [Place.count]
    rw [update_self]
    rfl
  · cases he
    exact hpage

lemma push (hop : s.op x = .freeing k p) :
    ∃ r, Pmem.push k p s.ph = .ok r ∧ ∃ place' free',
      HartsInv { s with ph := r.2, op := update s.op x .idle } place' free' := by
  have hpage := h.target x k p hop
  obtain ⟨-, hplace⟩ := (h.op_iff x p).mp (by rw [hop]; rfl)
  obtain ⟨-, hlow, -⟩ := h.bounded.mem_pages hpage
  have hnot : ∀ j, p ∉ free j := by
    intro j hp
    rw [h.free_iff, hplace] at hp
    cases hp.2
  have href : s.ph.pageRef (pageIndex p) = 0 := by
    rw [h.ref k p hpage, hplace]
    dsimp only [Place.count]
    rw [hop]
    rfl
  have hlink := h.chain_congr hpage (by simp [hplace])
    (s.ph.setWord (p / PGSIZE) 0 ((s.ph.region k).head.getD 0)).mem fun n hn => update_of_ne hn _ _
  refine ⟨((), _), rfl, update place p .free, update free k (p :: free k),
    h.move hpage (fun j => ?_) rfl (update_eq_self x s.held).symm (fun q hq => ?_) (.inr (.inl hplace))
      (.inl rfl) (fun q => ?_) (fun q => ?_) (h.held_nodup x) (fun j q => ?_) (fun j => ?_) (fun j => ?_)
      (fun j => ?_) ?_ (fun j q he => ?_)⟩
  · by_cases hj : j = k
    · subst hj
      simp [Phys.setRegion]
    · simp [Phys.setRegion, hj]
  · rw [hop] at hq
    exact (Option.some.inj hq).symm
  · simp [HartOp.page]
  · by_cases hq : q = p
    · simp [hq, h.held_iff, hplace]
    · simp [hq]
  · by_cases hj : j = k
    · subst hj
      by_cases hq : q = p
      · simp [hq]
      · simp [hq]
    · by_cases hq : q = p
      · simp [hq, hj, hnot]
      · simp [hq, hj]
  · dsimp only [Phys.setRegion]
    by_cases hj : j = k
    · subst hj
      rw [update_self, update_self, Chain.cons]
      refine ⟨rfl, ?_⟩
      have hnext : freeNext (s.ph.setWord (p / PGSIZE) 0 ((s.ph.region j).head.getD 0)).mem p =
          (s.ph.region j).head := by
        refine freeNext_setWord s.ph p fun q hq => ?_
        have hhead := (h.chain j).head_eq
        rw [hq] at hhead
        obtain ⟨hmem, -⟩ := (h.free_iff j q).mp (List.mem_of_mem_head? hhead.symm)
        have hpos := (h.bounded.mem_pages hmem).2.1
        unfold PHY_MEM_START at hpos
        omega
      rw [hnext]
      exact hlink j
    · rw [update_of_ne hj, update_of_ne hj]
      exact hlink j
  · by_cases hj : j = k
    · subst hj
      rw [update_self]
      exact List.nodup_cons.mpr ⟨hnot j, h.nodup j⟩
    · rw [update_of_ne hj]
      exact h.nodup j
  · dsimp only [Phys.setRegion]
    by_cases hj : j = k
    · subst hj
      simp [h.allocable]
    · rw [update_of_ne hj, update_of_ne hj]
      exact h.allocable j
  · exact (Function.update_eq_self_iff.mpr href.symm).symm
  · cases he

end

omit [DecidableEq Hart] in
lemma write (h : HartsInv s place free) (hp : p ∈ s.held x) (i w : Nat) :
    HartsInv { s with ph := s.ph.setWord (p / PGSIZE) i w } place free := by
  obtain ⟨⟨k, hpage⟩, hplace⟩ := (h.held_iff x p).mp hp
  exact { h with
    bounded := h.bounded.congr fun _ => ⟨rfl, rfl⟩
    chain := h.chain_congr hpage (by simp [hplace]) _ fun n hn => update_of_ne hn _ _ }

lemma step {r : Except Panic (Harts Hart)} (h : HartsInv s place free) (hs : HartStep s r) :
    ∃ s', r = .ok s' ∧ ∃ place' free', HartsInv s' place' free' := by
  cases hs with
  | @pop y k hop =>
    obtain ⟨r, he, hinv⟩ := h.pop hop
    exact ⟨_, by rw [he]; rfl, hinv⟩
  | countIn hop =>
    obtain ⟨r, he, hinv⟩ := h.countIn hop
    exact ⟨_, by rw [he]; rfl, hinv⟩
  | zero hop => exact ⟨_, rfl, h.zero hop⟩
  | countOut hop hp =>
    obtain ⟨r, he, hinv⟩ := h.countOut hop hp
    exact ⟨_, by rw [he]; rfl, hinv⟩
  | push hop =>
    obtain ⟨r, he, hinv⟩ := h.push hop
    exact ⟨_, by rw [he]; rfl, hinv⟩
  | write hp => exact ⟨_, rfl, place, free, h.write hp _ _⟩

end HartsInv

end Glenda.Mem
