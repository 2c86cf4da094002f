import Glenda.Mem.PmemSteps

/-!
# Safety of the page allocator under interleaving

`AllocRegion::init` establishes the invariant of the steps, so it holds in every state that any
interleaving of them reaches.
-/

namespace Glenda.Mem
open Glenda.Lib

lemma pagesFrom_succ (a n : Nat) : pagesFrom a (n + 1) = a :: pagesFrom (a + PGSIZE) n := by
  unfold pagesFrom
  rw [List.range_succ_eq_map, List.map_cons, List.map_map]
  congr 1
  apply List.map_congr_left
  intro i _
  simp only [Function.comp_apply, Nat.succ_mul]
  omega

lemma pagesFrom_nodup (a n : Nat) : (pagesFrom a n).Nodup := by
  refine List.Nodup.map (fun i j he => ?_) List.nodup_range
  unfold PGSIZE at he
  omega

namespace Pmem

variable {P : Profile} {ph : Phys}

lemma initFrom_ok {upper n fuel current : Nat} {head : Option Nat} {l : List Nat} (count : Nat)
    (hn : n = (upper - current) / PGSIZE) (ha : current % PGSIZE = 0) (hpos : 0 < current)
    (hc : current + PGSIZE < 2 ^ 64) (hu : upper + PGSIZE < 2 ^ 64) (hfuel : n < fuel)
    (hchain : Chain (freeNext ph.mem) head l) (hl : ∀ a ∈ l, a % PGSIZE = 0 ∧ 0 < a ∧ a < current) :
    ∃ head' ph', initFrom P upper fuel current head count ph = .ok ((head', count + n), ph') ∧
      Chain (freeNext ph'.mem) head' ((pagesFrom current n).reverse ++ l) ∧ ph'.region = ph.region ∧
      ph'.pageRef = ph.pageRef ∧ ∀ q, (∀ a ∈ pagesFrom current n, q ≠ a / PGSIZE) → ph'.mem q = ph.mem q := by
  induction fuel generalizing n current count head l ph with
  | zero => omega
  | succ fuel ih =>
    rw [initFrom, addW_of_lt P hc, pure_bind]
    cases n with
    | zero =>
      rw [if_neg]
      · exact ⟨head, ph, rfl, by simpa [pagesFrom] using hchain, rfl, rfl, fun _ _ => rfl⟩
      · unfold PGSIZE at *
        omega
    | succ n =>
      have hnext : current + PGSIZE ≤ upper := by
        unfold PGSIZE at *
        omega
      have hother : ∀ q, q ≠ current / PGSIZE →
          (ph.setWord (current / PGSIZE) 0 (head.getD 0)).mem q = ph.mem q :=
        fun q hq => Function.update_of_ne hq _ _
      have hlink : Chain (freeNext (ph.setWord (current / PGSIZE) 0 (head.getD 0)).mem) (ptr current)
          (current :: l) := by
        refine ⟨if_neg (by omega), ?_⟩
        rw [freeNext_setWord]
        · refine Seg.congr hchain fun a hmem => ?_
          obtain ⟨ha', -, hlt⟩ := hl a hmem
          unfold freeNext
          rw [hother]
          unfold PGSIZE at *
          omega
        · intro q hq
          rw [hchain.head_eq] at hq
          exact Nat.ne_of_gt (hl q (List.mem_of_mem_head? hq)).2.1
      have hn' : n = (upper - (current + PGSIZE)) / PGSIZE := by
        unfold PGSIZE at *
        omega
      have ha' : (current + PGSIZE) % PGSIZE = 0 := by
        rw [Nat.add_mod_right]
        exact ha
      have hl' : ∀ a ∈ current :: l, a % PGSIZE = 0 ∧ 0 < a ∧ a < current + PGSIZE := by
        intro a hmem
        rcases List.mem_cons.mp hmem with rfl | hmem
        · exact ⟨ha, hpos, by unfold PGSIZE; omega⟩
        · obtain ⟨h1, h2, h3⟩ := hl a hmem
          exact ⟨h1, h2, by omega⟩
      obtain ⟨head', ph', he, hchain', hreg, href, hmem⟩ :=
        ih (count + 1) hn' ha' (by omega) (by omega) (by omega) hlink hl'
      refine ⟨head', ph', ?_, ?_, hreg, href, fun q hq => ?_⟩
      · rw [if_pos hnext]
        simp only [K.bind_apply, K.modify_apply, Except.bind]
        rw [he, show count + 1 + n = count + (n + 1) by omega]
      · rw [pagesFrom_succ, List.reverse_cons, List.append_assoc]
        exact hchain'
      · rw [pagesFrom_succ] at hq
        rw [hmem q fun a ha' => hq a (List.mem_cons_of_mem _ ha')]
        exact hother q (hq current List.mem_cons_self)

/-- What `init` leaves: the pages of the region in a list, in descending order. -/
structure Initialised (ph ph' : Phys) (k : Bool) (lower upper : Nat) : Prop where
  lower : (ph'.region k).lower = (lower + 4095) / 4096 * 4096
  upper : (ph'.region k).upper = upper / 4096 * 4096
  chain : Chain (freeNext ph'.mem) (ph'.region k).head (ph'.pages k).reverse
  allocable : (ph'.region k).allocable = (ph'.pages k).length
  region : ∀ j, j ≠ k → ph'.region j = ph.region j
  ref : ph'.pageRef = ph.pageRef
  mem : ∀ q, (∀ a ∈ ph'.pages k, q ≠ a / PGSIZE) → ph'.mem q = ph.mem q

lemma init_ok {k : Bool} {lower upper : Nat} {u : Unit} {ph' : Phys} (hl : 0 < lower)
    (hlu : lower + 2 * PGSIZE < 2 ^ 64) (hu : upper + PGSIZE < 2 ^ 64)
    (he : init P k lower upper ph = .ok (u, ph')) : Initialised ph ph' k lower upper := by
  have hup : alignUp P lower = (pure ((lower + 4095) / 4096 * 4096) : K Phys Nat) := by
    unfold alignUp PGMASK
    unfold PGSIZE at *
    rw [addW_of_lt P (by omega), pure_bind, alignDown_eq]
  unfold init at he
  rw [hup, pure_bind, alignDown_eq] at he
  have hn : (upper / 4096 * 4096 - (lower + 4095) / 4096 * 4096) / PGSIZE < upper / 4096 * 4096 / PGSIZE + 1 := by
    unfold PGSIZE
    omega
  obtain ⟨head, ph1, hfrom, hchain, hreg, href, hmem⟩ := initFrom_ok (P := P) 0 rfl
    (show (lower + 4095) / 4096 * 4096 % PGSIZE = 0 by unfold PGSIZE; omega) (by omega)
    (by unfold PGSIZE at *; omega) (by unfold PGSIZE at *; omega) hn
    (show Chain (freeNext ph.mem) none [] from rfl) (by simp)
  obtain ⟨r, ph2, hr, he⟩ := K.bind_ok he
  rw [hfrom] at hr
  cases hr
  cases he
  rw [List.append_nil] at hchain
  constructor
  · simp [Phys.setRegion]
  · simp [Phys.setRegion]
  · simpa [Phys.setRegion, Phys.pages] using hchain
  · simp [Phys.setRegion, Phys.pages, pagesFrom]
  · intro j hj
    simp [Phys.setRegion, hj, hreg]
  · exact href
  · intro q hq
    exact hmem q (by simpa [Phys.setRegion, Phys.pages] using hq)

end Pmem

variable {Hart : Type} [DecidableEq Hart] {P : Profile}

theorem HartsReach.inv {s : Harts Hart} (h : HartsReach P s) : ∃ place free, HartsInv s place free := by
  induction h with
  | @start ph ph' lower split upper hl hs hu ht hr he =>
    obtain ⟨u, ph1, h1, h2⟩ := K.bind_ok he
    have hsmall : PHY_MEM_START + TOTAL_PAGES * PGSIZE < 2 ^ 32 := by decide
    have hstart : PHY_MEM_START = 0x80000000 := rfl
    have hpg : PGSIZE = 4096 := rfl
    have hk := Pmem.init_ok (by omega) (by omega) (by omega) h1
    have hf := Pmem.init_ok (by omega) (by omega) (by omega) h2
    have hktrue : ph'.region true = ph1.region true := hf.region true (by simp)
    have hpages : ph'.pages true = ph1.pages true := by
      unfold Phys.pages
      rw [hktrue]
    have hbounded : ph'.Bounded := by
      have e1 := hk.lower
      have e2 := hk.upper
      have e3 := hf.lower
      have e4 := hf.upper
      constructor
      · rw [hktrue]
        omega
      · rw [hktrue]
        omega
      · rw [hktrue]
        omega
      · intro k
        cases k with
        | false => omega
        | true =>
          rw [hktrue]
          omega
      · intro k
        cases k with
        | false =>
          rw [e3]
          exact Nat.mul_mod_left _ _
        | true =>
          rw [hktrue, e1]
          exact Nat.mul_mod_left _ _
    refine ⟨fun _ => .free, fun k => (ph'.pages k).reverse, hbounded, fun k => ?_,
      fun k => List.nodup_reverse.mpr (pagesFrom_nodup _ _), fun k => ?_, fun k p => by simp, fun x p => ?_,
      fun x p => by simp, fun x => List.nodup_nil, fun k p _ => ?_, fun x k p hx => by cases hx⟩
    · cases k with
      | false => exact hf.chain
      | true =>
        rw [hktrue, hpages]
        refine Seg.congr hk.chain fun a ha => ?_
        unfold freeNext
        rw [hf.mem]
        intro a' ha' hdiv
        rw [List.mem_reverse, ← hpages] at ha
        have heq := div_injective (hbounded.mem_pages ha).1 (hbounded.mem_pages ha').1 hdiv
        cases hbounded.pages_disjoint ha (heq ▸ ha')
    · rw [List.length_reverse]
      cases k with
      | false => exact hf.allocable
      | true =>
        dsimp only
        rw [hktrue, hpages]
        exact hk.allocable
    · simp [HartOp.page]
    · dsimp only [Place.count]
      rw [hf.ref, hk.ref]
      exact hr _
  | step _ hs ih =>
    obtain ⟨place, free, hinv⟩ := ih
    obtain ⟨s', he, hinv'⟩ := hinv.step hs
    cases he
    exact hinv'

omit [DecidableEq Hart] in
lemma HartsInv.allocable_idle {s : Harts Hart} {place : Nat → Place Hart} {free : Bool → List Nat}
    (h : HartsInv s place free) (hidle : ∀ x, s.op x = .idle) (k : Bool) : (s.ph.region k).allocable =
      (s.ph.pages k).length - {p | p ∈ s.ph.pages k ∧ ∃ x, p ∈ s.held x}.ncard := by
  have hset : {p | p ∈ s.ph.pages k ∧ ∃ x, p ∈ s.held x} =
      ((s.ph.pages k).toFinset \ (free k).toFinset : Finset Nat) := by
    ext p
    simp only [Set.mem_ofPred_eq, Finset.coe_sdiff, List.coe_toFinset, Set.mem_sdiff, h.free_iff, h.held_iff]
    refine and_congr_right fun hp => ⟨?_, fun hne => ?_⟩
    · rintro ⟨x, -, hx⟩ ⟨-, hf⟩
      rw [hx] at hf
      cases hf
    · cases hpl : place p with
      | free => exact absurd ⟨hp, hpl⟩ hne
      | held x => exact ⟨x, ⟨k, hp⟩, rfl⟩
      | op x =>
        have hx := (h.op_iff x p).mpr ⟨⟨k, hp⟩, hpl⟩
        rw [hidle x] at hx
        cases hx
  have hsub : (free k).toFinset ⊆ (s.ph.pages k).toFinset := by
    intro p hp
    rw [List.mem_toFinset] at hp ⊢
    exact ((h.free_iff k p).mp hp).1
  have hpages : (s.ph.pages k).toFinset.card = (s.ph.pages k).length :=
    List.toFinset_card_of_nodup (pagesFrom_nodup _ _)
  have hle := Finset.card_le_card hsub
  rw [List.toFinset_card_of_nodup (h.nodup k), hpages] at hle
  rw [hset, Set.ncard_coe_finset, Finset.card_sdiff_of_subset hsub, List.toFinset_card_of_nodup (h.nodup k),
    hpages, h.allocable]
  omega

/-- The allocator is safe under every interleaving: no page has two holders, the free lists hold no
page twice and none that is held, no step panics, and pages are conserved. -/
theorem allocator_safe {s : Harts Hart} (h : HartsReach P s) :
    (∀ x y p, p ∈ s.held x → p ∈ s.held y → x = y) ∧ (∀ x, (s.held x).Nodup) ∧
    (∀ x y p, (s.op x).page = some p → p ∉ s.held y ∧ ((s.op y).page = some p → x = y)) ∧
    (∃ free : Bool → List Nat, ∀ k, Chain (freeNext s.ph.mem) (s.ph.region k).head (free k) ∧ (free k).Nodup ∧
      (∀ p ∈ free k, ∀ x, p ∉ s.held x) ∧ (s.ph.region k).allocable = (free k).length) ∧
    (∀ e, ¬HartStep s (.error e)) ∧
    ((∀ x, s.op x = .idle) → ∀ k, (s.ph.region k).allocable =
      (s.ph.pages k).length - {p | p ∈ s.ph.pages k ∧ ∃ x, p ∈ s.held x}.ncard) := by
  obtain ⟨place, free, hinv⟩ := h.inv
  have hheld : ∀ x p, p ∈ s.held x → place p = .held x := fun x p hp => ((hinv.held_iff x p).mp hp).2
  have hop : ∀ x p, (s.op x).page = some p → place p = .op x := fun x p hp => ((hinv.op_iff x p).mp hp).2
  have hfree : ∀ k p, p ∈ free k → place p = .free := fun k p hp => ((hinv.free_iff k p).mp hp).2
  refine ⟨fun x y p hx hy => ?_, hinv.held_nodup, fun x y p hx => ⟨fun hy => ?_, fun hy => ?_⟩,
    ⟨free, fun k => ⟨hinv.chain k, hinv.nodup k, fun p hp x hx => ?_, hinv.allocable k⟩⟩, fun e he => ?_,
    fun hidle k => ?_⟩
  · have he := (hheld x p hx).symm.trans (hheld y p hy)
    cases he
    rfl
  · have he := (hop x p hx).symm.trans (hheld y p hy)
    cases he
  · have he := (hop x p hx).symm.trans (hop y p hy)
    cases he
    rfl
  · have he := (hfree k p hp).symm.trans (hheld x p hx)
    cases he
  · obtain ⟨s', hs', -⟩ := hinv.step he
    cases hs'
  · exact hinv.allocable_idle hidle k

/-- Two harts, and three pages of which the first hart has popped one. -/
theorem allocator_safe_popped : ∃ s : Harts (Fin 2), HartsReach .dev s ∧ s.op 0 = .popped 0x80002000 ∧
    ∀ e, ¬HartStep s (.error e) := by
  have hstart : ∃ ph, (do Pmem.init .dev true 0x80001000 0x80003000; Pmem.init .dev false 0x80003000 0x80004000 :
      K Phys Unit) ⟨fun _ _ => 0, fun _ => 0, fun _ => ⟨0, 0, none, 0⟩⟩ = .ok ((), ph) ∧
      (ph.region true).head = some 0x80002000 := ⟨_, rfl, rfl⟩
  obtain ⟨ph, he, hh⟩ := hstart
  have h₀ : HartsReach .dev (⟨ph, fun _ => .idle, fun _ => []⟩ : Harts (Fin 2)) :=
    .start (by decide) (by decide) (by decide) (by decide) (fun _ => rfl) he
  have hpop : ∃ ph', Pmem.pop true ph = .ok (some 0x80002000, ph') := by
    unfold Pmem.pop
    simp only [K.bind_apply, K.get_apply, Except.bind, hh]
    exact ⟨_, rfl⟩
  obtain ⟨ph', hp⟩ := hpop
  have hs := HartStep.pop (s := ⟨ph, fun _ => .idle, fun _ => []⟩) (h := (0 : Fin 2)) (k := true) rfl
  dsimp only at hs
  rw [hp] at hs
  have h₁ := HartsReach.step h₀ hs
  exact ⟨_, h₁, by simp, (allocator_safe h₁).2.2.2.2.1⟩

end Glenda.Mem
