import Glenda.Mem.Pmem

/-!
# Pages taken and given back

What a series of allocator calls and writes does to the free lists, apart from the order of
their pages. `Takes` describes code that only allocates and `Gives` code that only frees; pages in
`used` are in use before, those in `used'` after.
-/

namespace Glenda.Mem
open Glenda.Lib

def Phys.OnFree (ph : Phys) (k : Bool) (p : Nat) : Prop :=
  ∃ l, Chain (freeNext ph.mem) (ph.region k).head l ∧ p ∈ l

def Phys.SameBounds (ph ph' : Phys) : Prop :=
  ∀ k, (ph'.region k).lower = (ph.region k).lower ∧ (ph'.region k).upper = (ph.region k).upper

lemma Phys.SameBounds.refl (ph : Phys) : ph.SameBounds ph := fun _ => ⟨rfl, rfl⟩

lemma Phys.SameBounds.trans {ph ph' ph'' : Phys} (h : ph.SameBounds ph') (h' : ph'.SameBounds ph'') :
    ph.SameBounds ph'' :=
  fun k => ⟨(h' k).1.trans (h k).1, (h' k).2.trans (h k).2⟩

structure Takes (ph ph' : Phys) (used used' : Nat → Prop) : Prop where
  uses : ∀ n, used n → used' n
  shrinks : ∀ k p, ph'.OnFree k p → ph.OnFree k p
  conserve : ∀ k p, ph.OnFree k p → ph'.OnFree k p ∨ used' (p / PGSIZE)
  fresh : ∀ n, used' n → used n ∨ (∃ k, ph.OnFree k (n * PGSIZE)) ∧ ph'.pageRef (pageIndex (n * PGSIZE)) = 1
  ref : ∀ i, ph.pageRef i ≠ 0 → ph'.pageRef i = ph.pageRef i
  region : ph.SameBounds ph'

structure Gives (ph ph' : Phys) (used used' : Nat → Prop) : Prop where
  uses : ∀ n, used' n → used n
  grows : ∀ k p, ph.OnFree k p → ph'.OnFree k p
  freed : ∀ n, PHY_MEM_START ≤ n * PGSIZE → used n → ¬used' n → ph.pageRef (pageIndex (n * PGSIZE)) = 1 →
    ∃ k, ph'.OnFree k (n * PGSIZE)
  new : ∀ k p, ph'.OnFree k p → ph.OnFree k p ∨ ¬used' (p / PGSIZE)
  ref : ∀ n, PHY_MEM_START ≤ n * PGSIZE → used' n →
    ph'.pageRef (pageIndex (n * PGSIZE)) = ph.pageRef (pageIndex (n * PGSIZE))
  region : ph.SameBounds ph'

lemma PmemInv.onFree_iff {ph : Phys} {free : Bool → List Nat} {used : Nat → Prop} (h : PmemInv ph free used)
    {k : Bool} {p : Nat} : ph.OnFree k p ↔ p ∈ free k := by
  constructor
  · rintro ⟨l, hl, hp⟩
    rwa [hl.unique (h.chain k)] at hp
  · exact fun hp => ⟨free k, h.chain k, hp⟩

namespace Takes

variable {ph ph' ph'' : Phys} {used used' used'' : Nat → Prop} {free : Bool → List Nat}

lemma refl (ph : Phys) (used : Nat → Prop) : Takes ph ph used used :=
  ⟨fun _ h => h, fun _ _ h => h, fun _ _ h => .inl h, fun _ h => .inl h, fun _ _ => rfl, .refl ph⟩

lemma trans (h : Takes ph ph' used used') (h' : Takes ph' ph'' used' used'') : Takes ph ph'' used used'' := by
  refine ⟨fun n hn => h'.uses n (h.uses n hn), fun k p hp => h.shrinks k p (h'.shrinks k p hp), fun k p hp => ?_,
    fun n hn => ?_, fun i hi => ?_, h.region.trans h'.region⟩
  · rcases h.conserve k p hp with hp | hu
    · exact h'.conserve k p hp
    · exact .inr (h'.uses _ hu)
  · rcases h'.fresh n hn with hn | ⟨⟨k, hk⟩, hr⟩
    · rcases h.fresh n hn with hn | ⟨hk, hr⟩
      · exact .inl hn
      · refine .inr ⟨hk, ?_⟩
        rw [h'.ref _ (by omega), hr]
    · exact .inr ⟨⟨k, h.shrinks k _ hk⟩, hr⟩
  · rw [h'.ref i (by rw [h.ref i hi]; exact hi), h.ref i hi]

lemma write (hp : PmemInv ph free used) (hm : ∀ n, ¬used n → ph'.mem n = ph.mem n) (hr : ph'.region = ph.region)
    (hc : ph'.pageRef = ph.pageRef) : Takes ph ph' used used ∧ PmemInv ph' free used := by
  have hinv : PmemInv ph' free used :=
    hp.congr (fun k a ha => by rw [hm _ (hp.unused k a ha)]) hr hc hp.unused
  have hiff : ∀ k p, ph'.OnFree k p ↔ ph.OnFree k p := fun k p => by rw [hinv.onFree_iff, hp.onFree_iff]
  exact ⟨⟨fun _ h => h, fun k p h => (hiff k p).mp h, fun k p h => .inl ((hiff k p).mpr h), fun _ h => .inl h,
    fun i _ => by rw [hc], fun k => by rw [hr]; exact ⟨rfl, rfl⟩⟩, hinv⟩

end Takes

namespace Pmem

variable {ph ph' : Phys} {used : Nat → Prop} {free : Bool → List Nat} {k : Bool} {p : Nat} {rest : List Nat}

lemma Allocated.sameBounds (ha : Allocated ph ph' k p rest) : ph.SameBounds ph' := by
  intro j
  rw [ha.region]
  by_cases hj : j = k
  · subst hj
    simp
  · simp [hj]

lemma Allocated.div_mul (ha : Allocated ph ph' k p rest) : p / PGSIZE * PGSIZE = p :=
  Nat.div_mul_cancel (Nat.dvd_of_mod_eq_zero ha.aligned)

lemma Allocated.takes (h : PmemInv ph free used) (hl : free k = p :: rest) (ha : Allocated ph ph' k p rest) :
    Takes ph ph' used (fun n => used n ∨ n = p / PGSIZE) := by
  have hinv := ha.inv h hl
  have hp : p ∈ free k := by simp [hl]
  have hmem : ∀ j a, a ∈ Function.update free k rest j → a ∈ free j := by
    intro j a hj
    by_cases he : j = k
    · subst he
      rw [Function.update_self] at hj
      simp [hl, hj]
    · rwa [Function.update_of_ne he] at hj
  refine ⟨fun n hn => .inl hn, fun j a hj => ?_, fun j a hj => ?_, fun n hn => ?_, fun i hi => ?_, ha.sameBounds⟩
  · rw [hinv.onFree_iff] at hj
    exact h.onFree_iff.mpr (hmem j a hj)
  · rw [h.onFree_iff] at hj
    rw [hinv.onFree_iff]
    by_cases he : j = k
    · subst he
      rw [hl, List.mem_cons] at hj
      rw [Function.update_self]
      rcases hj with rfl | hj
      · exact .inr (.inr rfl)
      · exact .inl hj
    · rw [Function.update_of_ne he]
      exact .inl hj
  · rcases hn with hn | rfl
    · exact .inl hn
    · rw [ha.div_mul, ha.ref, Function.update_self]
      exact .inr ⟨⟨k, h.onFree_iff.mpr hp⟩, rfl⟩
  · have hne : i ≠ pageIndex p := by
      rintro rfl
      exact hi (h.ref k p hp)
    rw [ha.ref, Function.update_of_ne hne]

lemma Freed.gives {addr : Nat} (h : PmemInv ph free used) (hf : Freed ph ph' k addr) :
    Gives ph ph' used (fun n => used n ∧ n ≠ addr / PGSIZE) ∧
      ∃ free', PmemInv ph' free' (fun n => used n ∧ n ≠ addr / PGSIZE) := by
  have hmono : PmemInv ph free (fun n => used n ∧ n ≠ addr / PGSIZE) := h.mono fun n hn => hn.1
  obtain ⟨free', hinv, hgrow, hnew, hone⟩ := hf.inv hmono fun hn => hn.2 rfl
  have hdiv : addr / PGSIZE * PGSIZE = addr := Nat.div_mul_cancel (Nat.dvd_of_mod_eq_zero hf.aligned)
  refine ⟨⟨fun n hn => hn.1, fun j a ha => ?_, fun n _ hn hn' hr => ?_, fun j a ha => ?_, fun n hlow hn => ?_,
    hf.region⟩,
    free', hinv⟩
  · rw [h.onFree_iff] at ha
    exact hinv.onFree_iff.mpr (hgrow j a ha)
  · obtain rfl : n = addr / PGSIZE := by
      by_contra hne
      exact hn' ⟨hn, hne⟩
    rw [hdiv] at hr ⊢
    exact ⟨k, hinv.onFree_iff.mpr (hone hr)⟩
  · rw [hinv.onFree_iff] at ha
    rcases hnew j a ha with ha | rfl
    · exact .inl (h.onFree_iff.mpr ha)
    · exact .inr fun hn => hn.2 rfl
  · have hne : pageIndex (n * PGSIZE) ≠ pageIndex addr := by
      intro he
      have heq := pageIndex_injective (Nat.mul_mod_left n PGSIZE) hf.aligned hlow hf.lower he
      exact hn.2 (by rw [← heq, Nat.mul_div_cancel n (by decide)])
    rw [hf.ref, Function.update_of_ne hne]

end Pmem

namespace Gives

variable {ph ph' ph'' : Phys} {used used' used'' : Nat → Prop} {free : Bool → List Nat}

lemma refl (ph : Phys) (used : Nat → Prop) : Gives ph ph used used :=
  ⟨fun _ h => h, fun _ _ h => h, fun _ _ h h' => absurd h h', fun _ _ h => .inl h, fun _ _ _ => rfl, .refl ph⟩

lemma trans (h : Gives ph ph' used used') (h' : Gives ph' ph'' used' used'') : Gives ph ph'' used used'' := by
  refine ⟨fun n hn => h.uses n (h'.uses n hn), fun k p hp => h'.grows k p (h.grows k p hp),
    fun n hlow hn hn'' hr => ?_, fun k p hp => ?_, fun n hn hn'' => ?_, h.region.trans h'.region⟩
  · by_cases hn' : used' n
    · exact h'.freed n hlow hn' hn'' (by rw [h.ref n hlow hn']; exact hr)
    · obtain ⟨k, hk⟩ := h.freed n hlow hn hn' hr
      exact ⟨k, h'.grows k _ hk⟩
  · rcases h'.new k p hp with hp | hp
    · exact (h.new k p hp).imp_right fun hn hn'' => hn (h'.uses _ hn'')
    · exact .inr hp
  · rw [h'.ref n hn hn'', h.ref n hn (h'.uses n hn'')]

lemma write (hp : PmemInv ph free used) (hm : ∀ n, ¬used n → ph'.mem n = ph.mem n) (hr : ph'.region = ph.region)
    (hc : ph'.pageRef = ph.pageRef) : Gives ph ph' used used := by
  have hinv : PmemInv ph' free used :=
    hp.congr (fun k a ha => by rw [hm _ (hp.unused k a ha)]) hr hc hp.unused
  have hiff : ∀ k p, ph'.OnFree k p ↔ ph.OnFree k p := fun k p => by rw [hinv.onFree_iff, hp.onFree_iff]
  exact ⟨fun _ h => h, fun k p h => (hiff k p).mpr h, fun _ _ h h' => absurd h h',
    fun k p h => .inl ((hiff k p).mp h), fun n _ _ => by rw [hc], fun k => by rw [hr]; exact ⟨rfl, rfl⟩⟩

end Gives

end Glenda.Mem
