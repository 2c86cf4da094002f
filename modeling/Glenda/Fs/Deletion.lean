import Glenda.Fs.Locate

/-!
# Giving blocks back

`free_data_blocks` walks through the places of an inode and frees every block number that it finds. Since each block has one
place, every block is freed once, and they are exactly the blocks of the inode.
-/

namespace Glenda.Fs
open Glenda.Lib

variable {sb : SuperBlock} {d d' d₁ : Nat → Block} {i j b c e n : Nat} {p q : List Nat} {F G : Nat → Prop} {L : Nat → Prop} {x y : InodeDisk}

/-! ### What is below a path -/

/-- The block numbers at a path and below it. -/
def From (sb : SuperBlock) (d : Nat → Block) (i : Nat) (p : List Nat) (c : Nat) : Prop :=
  ∃ q, IsPath (q ++ p) ∧ ptr sb d i (q ++ p) = c ∧ c ≠ 0

/-- The block numbers of an inode. -/
def Owns (sb : SuperBlock) (d : Nat → Block) (i c : Nat) : Prop := ∃ p, IsPath p ∧ ptr sb d i p = c ∧ c ≠ 0

lemma IsPath.length_le (h : IsPath p) : p.length ≤ 3 := by
  cases h <;> simp

lemma IsPath.of_append (h : IsPath (q ++ e :: p)) (hp : p ≠ []) : IsInner p ∧ e < NINDIRECT := by
  obtain ⟨a, p, rfl⟩ := List.exists_cons_of_ne_nil hp
  match q, h with
  | [], h => exact h.inner
  | [_], h => exact ⟨(h.inner.1.isPath).inner.1, (h.inner.1.isPath).inner.2⟩
  | _ :: _ :: q, h =>
    -- no path is that long
    have hlen := h.length_le
    simp at hlen
    omega

lemma from_iff (hp : IsInner p) :
    From sb d i p c ↔ (ptr sb d i p = c ∧ c ≠ 0) ∨ ∃ e < NINDIRECT, From sb d i (e :: p) c := by
  have hne : p ≠ [] := by
    rintro rfl
    cases hp
  constructor
  · rintro ⟨q, hq, hc, hz⟩
    rcases List.eq_nil_or_concat q with rfl | ⟨q, e, rfl⟩
    · exact .inl ⟨hc, hz⟩
    · rw [List.concat_eq_append, List.append_assoc, List.singleton_append] at hq hc
      exact .inr ⟨e, (hq.of_append hne).2, q, hq, hc, hz⟩
  · rintro (⟨hc, hz⟩ | ⟨e, _, q, hq, hc, hz⟩)
    · exact ⟨[], hp.isPath, hc, hz⟩
    · refine ⟨q ++ [e], ?_, ?_, hz⟩
      · rwa [List.append_assoc, List.singleton_append]
      · rwa [List.append_assoc, List.singleton_append]

lemma from_leaf_iff (hp : IsPath p) (hleaf : ¬IsInner p) : From sb d i p c ↔ ptr sb d i p = c ∧ c ≠ 0 := by
  have hne : p ≠ [] := by
    rintro rfl
    cases hp
  constructor
  · rintro ⟨q, hq, hc, hz⟩
    rcases List.eq_nil_or_concat q with rfl | ⟨q, e, rfl⟩
    · exact ⟨hc, hz⟩
    · rw [List.concat_eq_append, List.append_assoc, List.singleton_append] at hq
      exact (hleaf (hq.of_append hne).1).elim
  · rintro ⟨hc, hz⟩
    exact ⟨[], hp, hc, hz⟩

lemma ptr_append_eq_zero (hne : p ≠ []) (hz : ptr sb d i p = 0) (hq : IsPath (q ++ p)) : ptr sb d i (q ++ p) = 0 := by
  induction q with
  | nil => exact hz
  | cons e q ih =>
    obtain ⟨a, l, hal⟩ := List.exists_cons_of_ne_nil (List.append_ne_nil_of_right_ne_nil q hne)
    rw [List.cons_append, hal] at hq
    have hin := hq.inner.1
    rw [← hal] at hin
    rw [List.cons_append, ptr_cons hin, ih hin.isPath, child_zero]

lemma not_from_of_zero (hne : p ≠ []) (hz : ptr sb d i p = 0) : ¬From sb d i p c := by
  rintro ⟨q, hq, hc, hnz⟩
  exact hnz (hc.symm.trans (ptr_append_eq_zero hne hz hq))

lemma Owned.from_entry_inj (ow : Owned sb d L) (hi : Used sb d i) (h : From sb d i (e :: p) c)
    (h' : From sb d i (n :: p) c) : e = n := by
  obtain ⟨q, hq, hc, hz⟩ := h
  obtain ⟨q', hq', hc', -⟩ := h'
  have hpath := (ow.inj hi hi hq hq' (by rwa [hc]) (hc.trans hc'.symm)).2
  have hcons := List.append_inj_right' hpath (by simp)
  cases hcons
  rfl

lemma Owned.not_from_entry (ow : Owned sb d L) (hi : Used sb d i) (hp : IsInner p) (hz : ptr sb d i p ≠ 0) :
    ¬From sb d i (e :: p) (ptr sb d i p) := by
  rintro ⟨q, hq, hc, -⟩
  have hpath := (ow.inj hi hi hp.isPath hq hz hc.symm).2
  have hlen := congrArg List.length hpath
  simp at hlen
  omega

lemma owns_iff : Owns sb d i c ↔ ∃ a < INODE_INDEX_3, a ≠ 11 ∧ From sb d i [a] c := by
  constructor
  · rintro ⟨p, hp, hc, hz⟩
    cases hp with
    | top ha hne => exact ⟨_, ha, hne, [], .top ha hne, hc, hz⟩
    | single hj => exact ⟨_, by decide, by decide, [_], .single hj, hc, hz⟩
    | middle hi => exact ⟨_, by decide, by decide, [_], .middle hi, hc, hz⟩
    | double hi hj => exact ⟨_, by decide, by decide, [_, _], .double hi hj, hc, hz⟩
  · rintro ⟨a, -, -, q, hq, hc, hz⟩
    exact ⟨_, hq, hc, hz⟩

/-! ### Blocks given back -/

/-- `d'` is `d` with the blocks `F` no longer marked. -/
structure Cleared (sb : SuperBlock) (d d' : Nat → Block) (F : Nat → Prop) : Prop where
  other : ∀ n, n ≠ sb.bmapStart → d' n = d n
  marked : ∀ c, Marked sb d' c ↔ Marked sb d c ∧ ¬F c

lemma Cleared.refl (sb : SuperBlock) (d : Nat → Block) : Cleared sb d d fun _ => False :=
  ⟨fun _ _ => rfl, fun _ => by simp⟩

lemma Cleared.congr (h : Cleared sb d d' F) (hFG : ∀ c, F c ↔ G c) : Cleared sb d d' G :=
  ⟨h.other, fun c => by rw [h.marked, hFG]⟩

section Spec

variable {σ : Type} {P : Profile} {B : BlockStore σ Block} {cap : Nat} {Rep : σ → (Nat → Block) → List (Nat × Nat) → Prop}
  {m : FsMem} {t : FsState σ} {H : List (Nat × Nat)} {E : Panic → Prop} {k : Slot} {f : Nat → K (FsState σ) PUnit}

lemma free_cleared (L : B.Lawful cap Rep) (lay : sb.Layout) (hr : At Rep m t d₁ H) (hH : ∀ x ∈ H, x.2 ≠ sb.bmapStart)
    (hc : H.length < cap) (hd : Cleared sb d d₁ F) (hb : Marked sb d b) (hF : ¬F b) :
    (Bitmap.free P (fsStore B) sb b).Ends t E fun _ t' => ∃ d2, At Rep m t' d2 H ∧ Cleared sb d d2 fun c => F c ∨ c = b := by
  have hmax := lay.nblocks
  obtain ⟨a, ha, rfl, hbit⟩ := (hd.marked b).mpr ⟨hb, hF⟩
  refine (Bitmap.free_ends (fsStore_lawful L m) lay.fit hr hH hc ha (by omega) hbit).mono fun _ t' hr' => ⟨_, hr', ?_, ?_⟩
  · intro x hx
    rw [Function.update_of_ne hx]
    exact hd.other x hx
  · intro x
    have hstep : Marked sb (Function.update d₁ sb.bmapStart (clearBit a (d₁ sb.bmapStart))) x ↔
        Marked sb d₁ x ∧ x ≠ sb.bmapStart + 1 + a := by
      unfold Marked
      rw [Function.update_self]
      constructor
      · rintro ⟨y, hy, rfl, hset⟩
        rw [bit_clearBit, Bool.and_eq_true, decide_eq_true_eq] at hset
        exact ⟨⟨y, hy, rfl, hset.2⟩, by omega⟩
      · rintro ⟨⟨y, hy, rfl, hset⟩, hne⟩
        refine ⟨y, hy, rfl, ?_⟩
        rw [bit_clearBit, hset, Bool.and_true, decide_eq_true_eq]
        omega
    rw [hstep, hd.marked]
    tauto

/-- `f` gives back the blocks at the path `p` and below it, with at most `n` buffers more than one. The buffers that are in
use are those of the index blocks above. -/
def FreesFrom (Rep : σ → (Nat → Block) → List (Nat × Nat) → Prop) (cap : Nat) (sb : SuperBlock) (d : Nat → Block) (m : FsMem)
    (E : Panic → Prop) (i : Nat) (p : List Nat) (n : Nat) (f : Nat → K (FsState σ) PUnit) : Prop :=
  ∀ t d₁ F H, At Rep m t d₁ H → (∀ x ∈ H, ∃ q, IsInner q ∧ q.length < p.length ∧ ptr sb d i q ≠ 0 ∧ x.2 = ptr sb d i q) →
    H.length + n < cap → Cleared sb d d₁ F → ptr sb d i p ≠ 0 → (∀ c, From sb d i p c → ¬F c) →
    (f (ptr sb d i p)).Ends t E fun _ t' => ∃ d₂, At Rep m t' d₂ H ∧ Cleared sb d d₂ fun c => F c ∨ From sb d i p c

lemma FreesFrom.leaf (L : B.Lawful cap Rep) (lay : sb.Layout) (ow : Owned sb d fun _ => False) (hi : Used sb d i)
    (hp : IsPath p) (hleaf : ¬IsInner p) :
    FreesFrom Rep cap sb d m E i p 0 (Bitmap.free P (fsStore B) sb) := by
  intro t d₁ F H hr hH hc hd hz hF
  have hself : From sb d i p (ptr sb d i p) := (from_leaf_iff hp hleaf).mpr ⟨rfl, hz⟩
  have hmap : ∀ x ∈ H, x.2 ≠ sb.bmapStart := by
    intro x hx he
    obtain ⟨q, hq, -, hqz, hxq⟩ := hH x hx
    have hlt := ow.ptr_lt hi hq.isPath hqz
    omega
  refine (free_cleared L lay hr hmap hc hd (ow.marked hi hp hz) (hF _ hself)).mono fun _ t' ⟨d2, hr2, hd2⟩ => ⟨d2, hr2, ?_⟩
  refine hd2.congr fun c => or_congr_right ?_
  rw [from_leaf_iff hp hleaf]
  constructor
  · rintro rfl
    exact ⟨rfl, hz⟩
  · rintro ⟨rfl, -⟩
    rfl

lemma FreesFrom.index (L : B.Lawful cap Rep) (lay : sb.Layout) (ow : Owned sb d fun _ => False) (hi : Used sb d i)
    (hp : IsInner p) (hf : ∀ e < NINDIRECT, FreesFrom Rep cap sb d m E i (e :: p) n f) :
    FreesFrom Rep cap sb d m E i p (n + 1) (freeIndexBlock P B sb f) := by
  intro t d₁ F H hr hH hc hd hz hF
  have L' := fsStore_lawful L m
  have hlt := ow.ptr_lt hi hp.isPath hz
  have hfrom : ∀ e < NINDIRECT, ∀ c, From sb d i (e :: p) c → From sb d i p c := fun e he c h =>
    (from_iff hp).mpr (.inr ⟨e, he, h⟩)
  have hmap : ∀ x ∈ H, x.2 ≠ sb.bmapStart := by
    intro x hx he
    obtain ⟨q, hq, -, hqz, hxq⟩ := hH x hx
    have hqlt := ow.ptr_lt hi hq.isPath hqz
    omega
  have hnew : ∀ x ∈ H, x.2 ≠ ptr sb d i p := by
    intro x hx he
    obtain ⟨q, hq, hlen, hqz, hxq⟩ := hH x hx
    have hpq := (ow.inj hi hi hq.isPath hp.isPath hqz (hxq.symm.trans he)).2
    rw [hpq] at hlen
    exact lt_irrefl _ hlen
  refine L'.read_bind hr hnew (by omega) fun b t1 hr1 => ?_
  have hH1 : ∀ e, ∀ x ∈ (b, ptr sb d i p) :: H, ∃ q, IsInner q ∧ q.length < (e :: p).length ∧ ptr sb d i q ≠ 0 ∧
      x.2 = ptr sb d i q := by
    intro e x hx
    rcases List.mem_cons.mp hx with rfl | hx
    · exact ⟨p, hp, by simp, hz, rfl⟩
    · obtain ⟨q, hq, hlen, hqz, hxq⟩ := hH x hx
      exact ⟨q, hq, by simp; omega, hqz, hxq⟩
  -- after `e` rounds everything below the first `e` entries is given back
  have hloop : (forEntries B b f).Ends t1 E fun _ t' => ∃ d2, At Rep m t' d2 ((b, ptr sb d i p) :: H) ∧
      Cleared sb d d2 fun c => F c ∨ ∃ e < NINDIRECT, From sb d i (e :: p) c := by
    refine K.Ends.forM_range (I := fun a t' => ∃ d2, At Rep m t' d2 ((b, ptr sb d i p) :: H) ∧
      Cleared sb d d2 fun c => F c ∨ ∃ e < a, From sb d i (e :: p) c) ⟨d₁, hr1, hd.congr fun c => by simp⟩ ?_
    rintro a t2 ha ⟨d2, hr2, hd2⟩
    have hdata : entry (d2 (ptr sb d i p)) a = ptr sb d i (a :: p) := by
      rw [hd2.other _ (by omega), ptr_cons hp, child_of_ne hz]
    have hstep : ∀ c, (∃ e < a + 1, From sb d i (e :: p) c) ↔ (∃ e < a, From sb d i (e :: p) c) ∨ From sb d i (a :: p) c := by
      intro c
      constructor
      · rintro ⟨e, he, hc⟩
        by_cases hea : e = a
        · exact .inr (hea ▸ hc)
        · exact .inl ⟨e, by omega, hc⟩
      · rintro (⟨e, he, hc⟩ | hc)
        · exact ⟨e, by omega, hc⟩
        · exact ⟨a, by omega, hc⟩
    refine L'.load_bind hr2 List.mem_cons_self ?_
    rw [hdata]
    by_cases hza : ptr sb d i (a :: p) = 0
    · rw [if_neg (by simpa using hza)]
      refine .pure ⟨d2, hr2, hd2.congr fun c => or_congr_right ?_⟩
      rw [hstep, or_iff_left (not_from_of_zero (by simp) hza)]
    · rw [if_pos hza]
      refine (hf a ha _ _ _ _ hr2 (hH1 a) (by simp; omega) hd2 hza ?_).mono fun _ t3 ⟨d3, hr3, hd3⟩ => ⟨d3, hr3, hd3.congr fun c => ?_⟩
      · rintro c hc (hFc | ⟨e, he, hec⟩)
        · exact hF c (hfrom a ha c hc) hFc
        · have hea := ow.from_entry_inj hi hec hc
          omega
      · rw [hstep, or_assoc]
  refine .bind hloop ?_
  rintro - t2 - ⟨d2, hr2, hd2⟩
  refine L'.release_bind hr2 fun t3 hr3 => ?_
  refine (free_cleared L lay hr3 hmap (by omega) hd2 (ow.marked hi hp.isPath hz) ?_).mono
    fun _ t4 ⟨d4, hr4, hd4⟩ => ⟨d4, hr4, hd4.congr fun c => ?_⟩
  · rintro (hFc | ⟨e, -, hec⟩)
    · exact hF _ ((from_iff hp).mpr (.inl ⟨rfl, hz⟩)) hFc
    · exact ow.not_from_entry hi hp hz hec
  · rw [from_iff hp, or_assoc]
    refine or_congr_right ?_
    constructor
    · rintro (h | rfl)
      · exact .inr h
      · exact .inl ⟨rfl, hz⟩
    · rintro (⟨rfl, -⟩ | h)
      · exact .inr rfl
      · exact .inl h

/-! ### Deleting an inode -/

/-- A slot of `index` is given back with everything below it, and emptied in memory. -/
lemma clearIndex_ends (hr : At Rep (m.setDisk k x) t d₁ []) (hx : x.index n = (dinode sb d i).index n)
    (hcap : e < cap) (hd : Cleared sb d d₁ F) (hF : ∀ c, From sb d i [n] c → ¬F c)
    (hf : FreesFrom Rep cap sb d (m.setDisk k x) E i [n] e f) :
    (clearIndex k n f).Ends t E fun _ t' => ∃ d2, At Rep (m.setDisk k (x.setIndex n 0)) t' d2 [] ∧
      Cleared sb d d2 fun c => F c ∨ From sb d i [n] c := by
  refine getInode_bind hr ?_
  rw [FsMem.setDisk_self]
  dsimp only
  rw [hx]
  by_cases hz : (dinode sb d i).index n = 0
  · have hptr : ptr sb d i [n] = 0 := hz
    have hsame : x.setIndex n 0 = x := by
      unfold InodeDisk.setIndex
      rw [← hz, ← hx, Function.update_eq_self]
    rw [if_neg (by simpa using hz), hsame]
    refine .pure ⟨d₁, hr, hd.congr fun c => ?_⟩
    rw [or_iff_left (not_from_of_zero (by simp) hptr)]
  · rw [if_pos hz]
    refine .bind (hf _ _ _ _ hr (by simp) (by simpa using hcap) hd hz hF) ?_
    rintro - t1 - ⟨d2, hr2, hd2⟩
    refine (modifyMem_ends hr2).mono fun _ t' hr' => ⟨d2, ?_, hd2⟩
    rwa [FsMem.setDisk_self, FsMem.setDisk_setDisk] at hr'

/-- The inode in memory while its blocks are given back: only its block numbers change. -/
structure Emptied (x y : InodeDisk) (done : Nat → Prop) : Prop where
  fits : y.Fits
  fields : y = { x with index := y.index }
  index : ∀ n, ¬done n → y.index n = x.index n

lemma Emptied.step {done : Nat → Prop} (h : Emptied x y done) (hn : n < INODE_INDEX_3) :
    Emptied x (y.setIndex n 0) fun a => done a ∨ a = n := by
  refine ⟨h.fits.setIndex hn (by decide), ?_, fun a ha => ?_⟩
  · unfold InodeDisk.setIndex
    rw [h.fields]
  · rw [InodeDisk.setIndex_of_ne fun he => ha (.inr he)]
    exact h.index a fun hdone => ha (.inl hdone)

lemma Owned.from_top_inj (ow : Owned sb d L) (hi : Used sb d i) (h : From sb d i [e] c) (h' : From sb d i [n] c) : e = n :=
  ow.from_entry_inj hi h h'

lemma freeDataBlocks_ends (L : B.Lawful cap Rep) (lay : sb.Layout) (hc : 2 < cap) (ow : Owned sb d fun _ => False)
    (hi : Used sb d i) (hr : At Rep m t d []) (hk : Holds sb d m k i) :
    (freeDataBlocks P B sb k).Ends t E fun _ t' => ∃ y d', At Rep (m.setDisk k y) t' d' [] ∧
      y.Fits ∧ y = { dinode sb d i with index := y.index } ∧ Cleared sb d d' (Owns sb d i) := by
  have hleaf : ∀ {m p}, IsPath p → ¬IsInner p → FreesFrom Rep cap sb d m E i p 0 (Bitmap.free P (fsStore B) sb) :=
    fun hp hin => .leaf L lay ow hi hp hin
  have hinner : ∀ {e : Nat} {p : List Nat}, IsPath (e :: p) → p.length = 2 → ¬IsInner (e :: p) := by
    intro e p _ hlen hin
    have hlen' : (e :: p).length ≤ 2 := by cases hin <;> simp
    simp at hlen'
    omega
  have hone : ∀ e < NINDIRECT, ¬IsInner [e, INODE_INDEX_1] := by
    intro e _ hin
    generalize hl : [e, INODE_INDEX_1] = l at hin
    cases hin <;> simp [INODE_INDEX_1, INODE_INDEX_2] at hl
  have hdirect : ∀ a < INODE_INDEX_1, ¬IsInner [a] := by
    intro a ha hin
    generalize hl : [a] = l at hin
    unfold INODE_INDEX_1 at ha
    cases hin <;> simp [INODE_INDEX_1, INODE_INDEX_2] at hl <;> omega
  have hsingle : ∀ {m}, FreesFrom Rep cap sb d m E i [INODE_INDEX_1] 1
      (freeIndexBlock P B sb (Bitmap.free P (fsStore B) sb)) := fun {m} =>
    .index L lay ow hi .single fun e he => hleaf (.single he) (hone e he)
  have hdouble : ∀ {m}, FreesFrom Rep cap sb d m E i [INODE_INDEX_2] 2
      (freeIndexBlock P B sb (freeIndexBlock P B sb (Bitmap.free P (fsStore B) sb))) := fun {m} =>
    .index L lay ow hi .double fun e he => .index L lay ow hi (.middle he) fun j hj =>
      hleaf (.double he hj) (hinner (.double he hj) rfl)
  -- the direct blocks
  have hloop : ((List.range INODE_INDEX_1).forM fun a => clearIndex k a (Bitmap.free P (fsStore B) sb)).Ends t E fun _ t' =>
      ∃ y d₁, At Rep (m.setDisk k y) t' d₁ [] ∧ Emptied (dinode sb d i) y (· < INODE_INDEX_1) ∧
        Cleared sb d d₁ fun c => ∃ a < INODE_INDEX_1, From sb d i [a] c := by
    refine K.Ends.forM_range (I := fun n t' => ∃ y d₁, At Rep (m.setDisk k y) t' d₁ [] ∧ Emptied (dinode sb d i) y (· < n) ∧
      Cleared sb d d₁ fun c => ∃ a < n, From sb d i [a] c) ?_ ?_
    · refine ⟨dinode sb d i, d, by rwa [hk.setDisk_eq], ⟨dinode_fits sb d i, rfl, fun _ _ => rfl⟩, ?_⟩
      exact (Cleared.refl sb d).congr fun c => by simp
    · rintro a t1 ha ⟨y, d₁, hr1, hy, hd1⟩
      have ha3 : a < INODE_INDEX_3 := ha.trans (by decide)
      have hane : a ≠ 11 := by
        unfold INODE_INDEX_1 at ha
        omega
      refine (clearIndex_ends hr1 (hy.index a (lt_irrefl a)) (Nat.zero_lt_of_lt hc) hd1 ?_
        (hleaf (.top ha3 hane) (hdirect a ha))).mono ?_
      · rintro c hca ⟨e, he, hce⟩
        have hea := ow.from_top_inj hi hce hca
        omega
      · rintro - t2 ⟨d2, hr2, hd2⟩
        refine ⟨_, d2, hr2, ?_, hd2.congr fun c => ?_⟩
        · have hnext := hy.step ha3
          exact ⟨hnext.fits, hnext.fields, fun n hn => hnext.index n fun hor => hn (by omega)⟩
        · constructor
          · rintro (⟨e, he, hec⟩ | hac)
            · exact ⟨e, by omega, hec⟩
            · exact ⟨a, by omega, hac⟩
          · rintro ⟨e, he, hec⟩
            by_cases hea : e = a
            · exact .inr (hea ▸ hec)
            · exact .inl ⟨e, by omega, hec⟩
  refine .bind hloop ?_
  rintro - t1 - ⟨y, d₁, hr1, hy, hd1⟩
  refine .bind (clearIndex_ends hr1 (hy.index _ (lt_irrefl _)) (by omega) hd1 ?_ hsingle) ?_
  · rintro c hc1 ⟨a, ha, hca⟩
    have hea := ow.from_top_inj hi hca hc1
    omega
  rintro - t2 - ⟨d2, hr2, hd2⟩
  have hy2 := hy.step (n := INODE_INDEX_1) (by decide)
  refine (clearIndex_ends hr2 (hy2.index _ (by decide)) hc hd2 ?_ hdouble).mono ?_
  · rintro c hc2 (⟨a, ha, hca⟩ | hc1)
    · have hea := ow.from_top_inj hi hca hc2
      unfold INODE_INDEX_1 at ha
      unfold INODE_INDEX_2 at hea
      omega
    · have hea := ow.from_top_inj hi hc1 hc2
      revert hea
      decide
  · rintro - t3 ⟨d3, hr3, hd3⟩
    have hy3 := hy2.step (n := INODE_INDEX_2) (by decide)
    refine ⟨_, d3, hr3, hy3.fits, hy3.fields, hd3.congr fun c => ?_⟩
    rw [owns_iff]
    constructor
    · rintro ((⟨a, ha, hca⟩ | hc1) | hc2)
      · refine ⟨a, ha.trans (by decide), ?_, hca⟩
        unfold INODE_INDEX_1 at ha
        omega
      · exact ⟨_, by decide, by decide, hc1⟩
      · exact ⟨_, by decide, by decide, hc2⟩
    · rintro ⟨a, ha, hne, hca⟩
      unfold INODE_INDEX_3 at ha
      by_cases h10 : a < INODE_INDEX_1
      · exact .inl (.inl ⟨a, h10, hca⟩)
      · unfold INODE_INDEX_1 at h10
        rcases (show a = INODE_INDEX_1 ∨ a = INODE_INDEX_2 by unfold INODE_INDEX_1 INODE_INDEX_2; omega) with rfl | rfl
        · exact .inl (.inr hca)
        · exact .inr hca

/-- The inode `i` is gone with exactly its blocks, and the other files are as before. -/
structure Deleted (sb : SuperBlock) (d d' : Nat → Block) (i : Nat) : Prop where
  owned : Owned sb d' fun _ => False
  used : ∀ j, Used sb d' j ↔ Used sb d j ∧ j ≠ i
  marked : ∀ c, Marked sb d' c ↔ Marked sb d c ∧ ¬Owns sb d i c
  other : ∀ j, Used sb d j → j ≠ i → dinode sb d' j = dinode sb d j
  bytes : ∀ j o, Used sb d j → j ≠ i → o / BLOCK_SIZE < MAXBLOCKS → fileByte sb d' j o = fileByte sb d j o

lemma deleted_of_cleared (lay : sb.Layout) (ow : Owned sb d fun _ => False) (hi : Used sb d i)
    (hd : Cleared sb d d₁ (Owns sb d i)) (hy : y.Fits) :
    Deleted sb d (putInode sb (Function.update d₁ (sb.inodeStart - 1) (clearBit i (d₁ (sb.inodeStart - 1)))) i y) i := by
  have hib := lay.ibmap
  have hin := lay.inodes
  have hlt := lay.inode_lt hi.1
  generalize hd2 : Function.update d₁ (sb.inodeStart - 1) (clearBit i (d₁ (sb.inodeStart - 1))) = d2
  have hkeep : ∀ n, n ≠ sb.inodeStart - 1 → n ≠ sb.bmapStart → d2 n = d n := by
    intro n hn hb
    rw [← hd2, Function.update_of_ne hn]
    exact hd.other n hb
  have hblock : ∀ n, sb.bmapStart < n → putInode sb d2 i y n = d n := by
    intro n hn
    rw [putInode_of_ne (by omega)]
    exact hkeep n (by omega) (by omega)
  have hused : ∀ j, Used sb (putInode sb d2 i y) j ↔ Used sb d j ∧ j ≠ i := by
    intro j
    rw [used_putInode lay]
    unfold Used
    rw [← hd2, Function.update_self, hd.other _ (by omega), bit_clearBit, Bool.and_eq_true, decide_eq_true_eq]
    tauto
  have hmarked : ∀ c, Marked sb (putInode sb d2 i y) c ↔ Marked sb d c ∧ ¬Owns sb d i c := by
    intro c
    have hmap : d2 sb.bmapStart = d₁ sb.bmapStart := by
      rw [← hd2, Function.update_of_ne (by omega)]
    rw [marked_putInode lay hi.1, marked_congr hmap, hd.marked]
  have hother : ∀ j, Used sb d j → j ≠ i → dinode sb (putInode sb d2 i y) j = dinode sb d j := by
    intro j hj hne
    have hjlt := lay.inode_lt hj.1
    have hjne : sb.inodeStart + j / IPB ≠ sb.inodeStart - 1 := by
      unfold IPB
      omega
    rw [dinode_putInode hy, if_neg hne]
    exact dinode_congr (hkeep _ hjne (by omega))
  have hptr : ∀ {j p}, Used sb d j → j ≠ i → IsPath p → ptr sb (putInode sb d2 i y) j p = ptr sb d j p := by
    intro j p hj hne hp
    unfold ptr
    rw [hother j hj hne]
    exact pointer_congr (fun _ => rfl) (fun q hq hz => hblock _ (ow.ptr_lt hj hq.isPath hz)) hp
  refine ⟨⟨?_, ?_, ?_, False.elim⟩, hused, hmarked, hother, ?_⟩
  · intro j p hj hp hz
    obtain ⟨hj', hne⟩ := (hused j).mp hj
    rw [hptr hj' hne hp] at hz ⊢
    refine (hmarked _).mpr ⟨ow.marked hj' hp hz, ?_⟩
    rintro ⟨q, hq, he, -⟩
    exact hne (ow.inj hj' hi hp hq hz he.symm).1
  · intro j j' p p' hj hj' hp hp' hz he
    obtain ⟨hu, hne⟩ := (hused j).mp hj
    obtain ⟨hu', hne'⟩ := (hused j').mp hj'
    rw [hptr hu hne hp] at hz he
    rw [hptr hu' hne' hp'] at he
    exact ow.inj hu hu' hp hp' hz he
  · intro c hc
    obtain ⟨hm, hnot⟩ := (hmarked c).mp hc
    rcases ow.owner hm with hf | ⟨j, p, hj, hp, he⟩
    · exact hf.elim
    · have hne : j ≠ i := by
        rintro rfl
        exact hnot ⟨p, hp, he, hm.ne_zero⟩
      exact .inr ⟨j, p, (hused j).mpr ⟨hj, hne⟩, hp, (hptr hj hne hp).trans he⟩
  · intro j o hj hne ho
    have hpath := leafPath_isPath ho
    unfold fileByte
    rw [hptr hj hne hpath]
    split_ifs with hz
    · rfl
    · rw [hblock _ (ow.ptr_lt hj hpath hz)]

lemma inodeDelete_ends (L : B.Lawful cap Rep) (lay : sb.Layout) (hc : 2 < cap) (ow : Owned sb d fun _ => False)
    (hi : Used sb d i) (hr : At Rep m t d []) (hk : Holds sb d m k i) :
    (inodeDelete P B sb k).Ends t E fun _ t' => ∃ y d', At Rep (m.setInode k ⟨y, false, 0, (m.inodes k).refcnt⟩) t' d' [] ∧
      Deleted sb d d' i := by
  have hmax := lay.ninodes
  have hib := lay.ibmap
  have hin := lay.inodes
  refine getInode_bind hr ?_
  rw [hk.num]
  refine .bind (freeDataBlocks_ends L lay hc ow hi hr hk) ?_
  rintro - t1 - ⟨y, d₁, hr1, hfits, hfields, hd1⟩
  have hset : bit (d₁ (sb.inodeStart - 1)) i = true := by
    rw [hd1.other _ (by omega)]
    exact hi.2
  have hlt := hi.1
  refine .bind (Inode.free_ends (fsStore_lawful L _) hib hr1 (by simp) (Nat.zero_lt_of_lt hc) (by omega) hset) ?_
  intro _ t2 _ hr2
  refine modifyMem_bind hr2 fun t3 hr3 => ?_
  rw [FsMem.setDisk_self, FsMem.setDisk_setDisk] at hr3
  refine .bind (inodeRw_write_ends L lay (Nat.zero_lt_of_lt hc) hr3 (by rw [FsMem.setDisk_self, hk.num]; exact hi.1)) ?_
  intro _ t4 _ hr4
  rw [FsMem.setDisk_self, hk.num] at hr4
  refine (modifyMem_ends hr4).mono fun _ t5 hr5 => ?_
  rw [FsMem.setDisk_self] at hr5
  unfold FsMem.setDisk at hr5
  rw [FsMem.setInode_setInode] at hr5
  refine ⟨_, _, hr5, deleted_of_cleared lay ow hi hd1 ?_⟩
  exact ⟨Nat.two_pow_pos 16, hfits.major, hfits.minor, hfits.nlink, Nat.two_pow_pos 32, hfits.index, hfits.rest⟩

end Spec

end Glenda.Fs
