import Glenda.Fs.Locate

/-!
# The bytes of a file

`inode_read_data` and `inode_write_data` go through a range block by block. Below the last block of the offsets they copy
exactly the range between the buffer and the bytes of the file.
-/

namespace Glenda.Fs
open Glenda.Lib

variable {sb : SuperBlock} {d d' : Nat → Block} {i j off stop n n' so q : Nat} {src : Block} {N : Finset (List Nat)} {d1 d2 d3 : Nat → Block}
  {p : List Nat} {x : InodeDisk}

/-! ### One round -/

/-- How many bytes a round copies. -/
def chunkLen (off stop : Nat) : Nat := min (BLOCK_SIZE - off % BLOCK_SIZE) (stop - off)

/-- The offsets before the last block. -/
abbrev MAXOFFSET : Nat := 2 ^ 32 - 4096

/-- How many blocks a range meets. -/
def blocksOf (off stop : Nat) : Nat := if off < stop then (stop - 1) / BLOCK_SIZE - off / BLOCK_SIZE + 1 else 0

lemma chunkLen_pos (h : off < stop) : 0 < chunkLen off stop := by
  unfold chunkLen BLOCK_SIZE
  omega

lemma chunkLen_le (off stop : Nat) : chunkLen off stop ≤ stop - off := Nat.min_le_right _ _

lemma chunk_eq {σ : Type} {P : Profile} (h : off < stop) (hstop : stop ≤ MAXOFFSET) :
    (chunk P off stop : K (FsState σ) Nat) = pure (chunkLen off stop) := by
  unfold chunk chunkLen BLOCK_SIZE
  unfold MAXOFFSET at hstop
  dsimp only
  rw [addW_of_lt P (by omega), pure_bind]
  split_ifs with hlt
  · rw [Nat.min_eq_right (by omega)]
  · rw [Nat.min_eq_left (by omega)]

lemma fileByte_block (h : q < BLOCK_SIZE - off % BLOCK_SIZE) :
    fileByte sb d i (off + q) = if ptr sb d i (leafPath (off / BLOCK_SIZE)) = 0 then 0
      else d (ptr sb d i (leafPath (off / BLOCK_SIZE))) (off % BLOCK_SIZE + q) := by
  have hdiv : (off + q) / BLOCK_SIZE = off / BLOCK_SIZE := by
    unfold BLOCK_SIZE at h ⊢
    omega
  have hmod : (off + q) % BLOCK_SIZE = off % BLOCK_SIZE + q := by
    unfold BLOCK_SIZE at h ⊢
    omega
  unfold fileByte
  rw [hdiv, hmod]

/-! ### Writing -/

/-- `n` bytes of `src` from `so` on are written at `off` of the file `i`. Apart from them, and from blocks that the inode may
have got, all files are the same. -/
structure Writes (sb : SuperBlock) (d d' : Nat → Block) (i off n : Nat) (src : Block) (so : Nat) : Prop where
  owned : Owned sb d' fun _ => False
  used : ∀ j, Used sb d' j ↔ Used sb d j
  other : ∀ j, Used sb d j → j ≠ i → dinode sb d' j = dinode sb d j
  self : dinode sb d' i = { dinode sb d i with index := (dinode sb d' i).index }
  rest : ∀ j o, Used sb d j → j ≠ i → o / BLOCK_SIZE < MAXBLOCKS → fileByte sb d' j o = fileByte sb d j o
  bytes : ∀ o, o / BLOCK_SIZE < MAXBLOCKS → fileByte sb d' i o = blit src so n off (fileByte sb d i) o
  kept : Kept sb d d'

lemma Writes.nothing (ow : Owned sb d fun _ => False) (off : Nat) (src : Block) (so : Nat) : Writes sb d d i off 0 src so := by
  refine ⟨ow, fun _ => Iff.rfl, fun _ _ _ => rfl, rfl, fun _ _ _ _ _ => rfl, fun o _ => ?_, fun _ _ _ _ _ => rfl⟩
  rw [blit_zero]

lemma Writes.trans (h : Writes sb d1 d2 i off n src so)
    (h' : Writes sb d2 d3 i (off + n) n' src (so + n)) : Writes sb d1 d3 i off (n + n') src so := by
  constructor
  · exact h'.owned
  · exact fun j => (h'.used j).trans (h.used j)
  · exact fun j hj hne => (h'.other j ((h.used j).mpr hj) hne).trans (h.other j hj hne)
  · rw [h'.self, h.self]
  · exact fun j o hj hne ho => (h'.rest j o ((h.used j).mpr hj) hne ho).trans (h.rest j o hj hne ho)
  · intro o ho
    rw [h'.bytes o ho, ← blit_blit]
    unfold blit
    rw [h.bytes o ho]
    rfl
  · exact h.kept.trans h.used h'.kept

lemma Grows.writes (hg : Grows sb d d1 i) (hi : Used sb d i) (h : Writes sb d1 d' i off n src so) :
    Writes sb d d' i off n src so := by
  constructor
  · exact h.owned
  · exact fun j => (h.used j).trans (hg.used j)
  · exact fun j hj hne => (h.other j ((hg.used j).mpr hj) hne).trans (hg.other j hj hne)
  · rw [h.self, hg.self]
  · exact fun j o hj hne ho => (h.rest j o ((hg.used j).mpr hj) hne ho).trans (hg.bytes j o hj ho)
  · intro o ho
    rw [h.bytes o ho]
    unfold blit
    rw [hg.bytes i o hi ho]
  · exact hg.kept.trans hg.used h.kept

/-- The disk with bytes of a block of the file `i` stored. -/
def putData (sb : SuperBlock) (d : Nat → Block) (i off n : Nat) (src : Block) (so : Nat) : Nat → Block :=
  Function.update d (ptr sb d i (leafPath (off / BLOCK_SIZE)))
    (blit src so n (off % BLOCK_SIZE) (d (ptr sb d i (leafPath (off / BLOCK_SIZE)))))

lemma putData_ptr_block {src : Block} {so : Nat} (ow : Owned sb d fun _ => False) (hi : Used sb d i) (hoff : off / BLOCK_SIZE < MAXBLOCKS)
    {j : Nat} (hj : Used sb d j) (hp : IsPath p) (hz : ptr sb d j p ≠ 0)
    (hother : ¬(j = i ∧ p = leafPath (off / BLOCK_SIZE))) : putData sb d i off n src so (ptr sb d j p) = d (ptr sb d j p) :=
  Function.update_of_ne (fun he => hother (ow.inj hj hi hp (leafPath_isPath hoff) hz he)) _ _

lemma ptr_putData {src : Block} {so : Nat} (lay : sb.Layout) (ow : Owned sb d fun _ => False) (hi : Used sb d i)
    (hoff : off / BLOCK_SIZE < MAXBLOCKS) (hne : ptr sb d i (leafPath (off / BLOCK_SIZE)) ≠ 0) {j : Nat}
    (hj : Used sb d j) (hp : IsPath p) : ptr sb (putData sb d i off n src so) j p = ptr sb d j p := by
  have hlt := ow.ptr_lt hi (leafPath_isPath hoff) hne
  have hjlt := lay.inode_lt hj.1
  have hdinode : dinode sb (putData sb d i off n src so) j = dinode sb d j :=
    dinode_congr (Function.update_of_ne (by omega) _ _)
  unfold ptr
  rw [hdinode]
  refine pointer_congr (fun _ => rfl) (fun q hq hz => putData_ptr_block ow hi hoff hj hq.isPath hz ?_) hp
  rintro ⟨-, rfl⟩
  exact leafPath_not_inner _ hq

lemma writes_putData (src : Block) (so : Nat) (lay : sb.Layout) (ow : Owned sb d fun _ => False) (hi : Used sb d i)
    (hoff : off / BLOCK_SIZE < MAXBLOCKS) (hn : n ≤ BLOCK_SIZE - off % BLOCK_SIZE)
    (hne : ptr sb d i (leafPath (off / BLOCK_SIZE)) ≠ 0) : Writes sb d (putData sb d i off n src so) i off n src so := by
  have hpath := leafPath_isPath hoff
  have hib := lay.ibmap
  have hin := lay.inodes
  have hlt := ow.ptr_lt hi hpath hne
  have hmeta : ∀ x ≤ sb.bmapStart, putData sb d i off n src so x = d x := fun x hx => Function.update_of_ne (by omega) _ _
  have hused : ∀ j, Used sb (putData sb d i off n src so) j ↔ Used sb d j := fun j => used_congr (hmeta _ (by omega))
  have hmarked : ∀ c, Marked sb (putData sb d i off n src so) c ↔ Marked sb d c := fun c => marked_congr (hmeta _ le_rfl)
  have hdinode : ∀ j < sb.ninodes, dinode sb (putData sb d i off n src so) j = dinode sb d j := by
    intro j hj
    have hjlt := lay.inode_lt hj
    exact dinode_congr (hmeta _ (by omega))
  have hblock : ∀ {j p}, Used sb d j → IsPath p → ptr sb d j p ≠ 0 → ¬(j = i ∧ p = leafPath (off / BLOCK_SIZE)) →
      putData sb d i off n src so (ptr sb d j p) = d (ptr sb d j p) := putData_ptr_block ow hi hoff
  have hptr : ∀ {j p}, Used sb d j → IsPath p → ptr sb (putData sb d i off n src so) j p = ptr sb d j p :=
    ptr_putData lay ow hi hoff hne
  constructor
  · exact ow.congr hused hmarked hptr
  · exact hused
  · exact fun j hj _ => hdinode j hj.1
  · rw [hdinode i hi.1]
  · intro j o hj hji ho
    unfold fileByte
    rw [hptr hj (leafPath_isPath ho)]
    split_ifs with hz
    · rfl
    · rw [hblock hj (leafPath_isPath ho) hz fun h => hji h.1]
  · intro o ho
    by_cases hsame : o / BLOCK_SIZE = off / BLOCK_SIZE
    · unfold fileByte
      rw [hptr hi (leafPath_isPath ho), hsame, if_neg hne]
      unfold putData
      rw [Function.update_self]
      unfold blit BLOCK_SIZE at *
      by_cases hrange : off ≤ o ∧ o < off + n
      · rw [if_pos (by omega), if_pos hrange]
        congr 1
        omega
      · rw [if_neg (by omega), if_neg hrange]
        dsimp only
        rw [hsame, if_neg hne]
    · have hout : ¬(off ≤ o ∧ o < off + n) := by
        unfold BLOCK_SIZE at hsame hn
        omega
      have hother : ¬(i = i ∧ leafPath (o / BLOCK_SIZE) = leafPath (off / BLOCK_SIZE)) := fun h => hsame (leafPath_inj h.2)
      unfold blit
      rw [if_neg hout]
      unfold fileByte
      rw [hptr hi (leafPath_isPath ho)]
      split_ifs with hz
      · rfl
      · rw [hblock hi (leafPath_isPath ho) hz hother]
  · exact fun j q hj hq _ => hptr hj hq

/-! ### The loops -/

section Spec

variable {σ : Type} {P : Profile} {B : BlockStore σ Block} {cap : Nat} {Rep : σ → (Nat → Block) → List (Nat × Nat) → Prop}
  {m : FsMem} {t : FsState σ} {E : Panic → Prop} {k : Slot} {dst : Block} {dstLen srcLen len fuel dstOff srcOff : Nat}

lemma div_lt_maxBlocks (h : off < 2 ^ 32) : off / BLOCK_SIZE < MAXBLOCKS := by
  unfold BLOCK_SIZE MAXBLOCKS INODE_INDEX_1 NINDIRECT
  omega

section

variable (L : B.Lawful cap Rep) (lay : sb.Layout) (hc : 1 < cap) (ow : Owned sb d fun _ => False) (hi : Used sb d i) (hk : Holds sb d m k i)
include L lay hc ow hi hk

lemma locate_ends {lbn : Nat} (hr : At Rep m t d []) (hlbn : lbn < MAXBLOCKS) :
    (locateOrAddBlock P B sb k lbn false).Ends t E fun o t' => At Rep m t' d [] ∧
      o = if ptr sb d i (leafPath lbn) = 0 then none else some (ptr sb d i (leafPath lbn)) := by
  have hpaths : ∀ q ∈ nodes (leafPath lbn), IsPath q := fun q hq => (leafPath_isPath hlbn).of_mem_nodes hq
  refine (locateOrAddBlock_ends L lay hc ow hi hr hk hlbn hpaths Finset.Subset.rfl fun h => by cases h).mono ?_
  rintro o t' ⟨d1, hr1, hloc⟩
  obtain rfl := hloc.same rfl
  rw [hk.setDisk_eq] at hr1
  exact ⟨hr1, hloc.result⟩

lemma readFrom_succ_ends {R : Block → FsState σ → Prop} (hr : At Rep m t d []) (hlt : off < stop)
    (hchunk : (chunk P off stop : K (FsState σ) Nat) = pure n) (hn : n ≤ BLOCK_SIZE - off % BLOCK_SIZE)
    (hmax : off + n < 2 ^ 32) (hdst : dstOff + n ≤ dstLen)
    (hnext : ∀ t1, At Rep m t1 d [] →
      (readFrom P B sb k stop dstLen fuel (off + n) (dstOff + n) (blit (fileByte sb d i) off n dstOff dst)).Ends t1 E R) :
    (readFrom P B sb k stop dstLen (fuel + 1) off dstOff dst).Ends t E R := by
  have L' := fsStore_lawful L m
  unfold readFrom
  rw [if_pos hlt, hchunk, pure_bind]
  refine .bind (locate_ends L lay hc ow hi hk hr (div_lt_maxBlocks (by omega))) ?_
  rintro o t1 - ⟨hr1, rfl⟩
  by_cases hz : ptr sb d i (leafPath (off / BLOCK_SIZE)) = 0
  · have hbytes : blit (fun _ => 0) 0 n dstOff dst = blit (fileByte sb d i) off n dstOff dst := by
      refine blit_congr fun q hq => ?_
      rw [fileByte_block (by omega), if_pos hz]
    rw [if_pos hz]
    refine .bind_of_ok (K.panicIf_of_not (by omega)) ?_
    rw [addW_of_lt P hmax, pure_bind, hbytes]
    exact hnext t1 hr1
  · have hbytes : blit (d (ptr sb d i (leafPath (off / BLOCK_SIZE)))) (off % BLOCK_SIZE) n dstOff dst =
        blit (fileByte sb d i) off n dstOff dst := by
      refine blit_congr fun q hq => ?_
      rw [fileByte_block (by omega), if_neg hz]
    rw [if_neg hz]
    refine L'.read_bind hr1 (by simp) (Nat.zero_lt_of_lt hc) fun b t2 hr2 => L'.load_bind hr2 List.mem_cons_self ?_
    refine .bind_of_ok (K.panicIf_of_not (by omega)) (L'.release_bind hr2 fun t3 hr3 => ?_)
    rw [addW_of_lt P hmax, pure_bind, hbytes]
    exact hnext t3 hr3

lemma readFrom_ends (hstop : stop ≤ MAXOFFSET) (hfuel : stop - off < fuel) (hdst : dstOff + (stop - off) ≤ dstLen)
    (hr : At Rep m t d []) : (readFrom P B sb k stop dstLen fuel off dstOff dst).Ends t E fun dst' t' =>
      At Rep m t' d [] ∧ dst' = blit (fileByte sb d i) off (stop - off) dstOff dst := by
  induction fuel generalizing off dstOff dst t with
  | zero => omega
  | succ fuel ih =>
    by_cases hlt : off < stop
    · have hpos := chunkLen_pos hlt
      have hle := chunkLen_le off stop
      have hmax : off + chunkLen off stop < 2 ^ 32 := by
        unfold MAXOFFSET at hstop
        omega
      refine readFrom_succ_ends L lay hc ow hi hk hr hlt (chunk_eq hlt hstop) (Nat.min_le_left _ _) hmax (by omega) fun t1 hr1 => ?_
      refine (ih (by omega) (by omega) hr1).mono ?_
      rintro dst' t' ⟨hr', rfl⟩
      refine ⟨hr', ?_⟩
      rw [blit_blit, show chunkLen off stop + (stop - (off + chunkLen off stop)) = stop - off by omega]
    · unfold readFrom
      rw [if_neg hlt]
      refine .pure ⟨hr, ?_⟩
      rw [show stop - off = 0 by omega, blit_zero]

end

/-- All places for the blocks of a range. -/
def fileNodes (off stop : Nat) : Finset (List Nat) :=
  (Finset.range (blocksOf off stop)).biUnion fun n => nodes (leafPath (off / BLOCK_SIZE + n))

lemma mem_fileNodes : p ∈ fileNodes off stop ↔ ∃ o, off ≤ o ∧ o < stop ∧ p ∈ nodes (leafPath (o / BLOCK_SIZE)) := by
  unfold fileNodes
  rw [Finset.mem_biUnion]
  constructor
  · rintro ⟨n, hn, hp⟩
    rw [Finset.mem_range] at hn
    unfold blocksOf at hn
    split_ifs at hn with hlt
    · refine ⟨max off ((off / BLOCK_SIZE + n) * BLOCK_SIZE), le_max_left _ _, ?_, ?_⟩
      · unfold BLOCK_SIZE at *
        omega
      · rwa [show max off ((off / BLOCK_SIZE + n) * BLOCK_SIZE) / BLOCK_SIZE = off / BLOCK_SIZE + n by unfold BLOCK_SIZE; omega]
    · exact (Nat.not_lt_zero _ hn).elim
  · rintro ⟨o, hge, hlt, hp⟩
    refine ⟨o / BLOCK_SIZE - off / BLOCK_SIZE, ?_, ?_⟩
    · rw [Finset.mem_range]
      unfold blocksOf BLOCK_SIZE
      rw [if_pos (by omega)]
      omega
    · rwa [show off / BLOCK_SIZE + (o / BLOCK_SIZE - off / BLOCK_SIZE) = o / BLOCK_SIZE by unfold BLOCK_SIZE; omega]

lemma nodes_subset_fileNodes {o : Nat} (hge : off ≤ o) (hlt : o < stop) : nodes (leafPath (o / BLOCK_SIZE)) ⊆ fileNodes off stop :=
  fun _ hp => mem_fileNodes.mpr ⟨o, hge, hlt, hp⟩

lemma fileNodes_isPath (hstop : stop ≤ 2 ^ 32) : ∀ q ∈ fileNodes off stop, IsPath q := by
  intro q hq
  obtain ⟨o, -, hlt, hp⟩ := mem_fileNodes.mp hq
  exact (leafPath_isPath (div_lt_maxBlocks (by omega))).of_mem_nodes hp

lemma fileNodes_mono {off' stop' : Nat} (hoff : off ≤ off') (hstop : stop' ≤ stop) : fileNodes off' stop' ⊆ fileNodes off stop := by
  intro p hp
  obtain ⟨o, hge, hlt, ho⟩ := mem_fileNodes.mp hp
  exact mem_fileNodes.mpr ⟨o, by omega, by omega, ho⟩

lemma card_fileNodes_le (off stop : Nat) : (fileNodes off stop).card ≤ 3 * blocksOf off stop := by
  have hlen : ∀ lbn, (leafPath lbn).length ≤ 3 := by
    intro lbn
    unfold leafPath
    split_ifs
    · exact (by decide : 1 ≤ 3)
    · exact (by decide : 2 ≤ 3)
    · exact le_rfl
  have hle := Finset.card_biUnion_le_card_mul (Finset.range (blocksOf off stop)) (fun n => nodes (leafPath (off / BLOCK_SIZE + n))) 3
    fun n _ => (card_nodes_le _).trans (hlen _)
  rw [Finset.card_range] at hle
  unfold fileNodes
  omega

lemma card_lacking_le (sb : SuperBlock) (d : Nat → Block) (i off stop : Nat) :
    (lacking sb d i (fileNodes off stop)).card ≤ 3 * blocksOf off stop :=
  (Finset.card_filter_le _ _).trans (card_fileNodes_le off stop)

section

variable (L : B.Lawful cap Rep) (lay : sb.Layout) (hc : 1 < cap) (ow : Owned sb d fun _ => False) (hi : Used sb d i) (hk : Holds sb d m k i)
include L lay hc ow hi hk

/-- One round of writing: a block is found or added, and bytes of the buffer go to the file. -/
lemma writeFrom_succ_ends {R : Unit → FsState σ → Prop} (hr : At Rep m t d []) (hlt : off < stop)
    (hchunk : (chunk P off stop : K (FsState σ) Nat) = pure n) (hn : n ≤ BLOCK_SIZE - off % BLOCK_SIZE)
    (hoff : off < 2 ^ 32) (hwild : srcLen < srcOff + n → E .wildAccess)
    (hN : ∀ q ∈ N, IsPath q) (hsub : nodes (leafPath (off / BLOCK_SIZE)) ⊆ N)
    (hfull : freeBlocks sb d < (lacking sb d i N).card → E .outOfBlocks)
    (hnext : ∀ t1 d1, At Rep (m.setDisk k (dinode sb d1 i)) t1 d1 [] → Writes sb d d1 i off n src srcOff → Budget sb d d1 i N →
      (addW P 32 off n >>= fun next => writeFrom P B sb k stop srcLen src fuel next (srcOff + n)).Ends t1 E R) :
    (writeFrom P B sb k stop srcLen src (fuel + 1) off srcOff).Ends t E R := by
  have hlbn : off / BLOCK_SIZE < MAXBLOCKS := div_lt_maxBlocks hoff
  unfold writeFrom
  rw [if_pos hlt, hchunk, pure_bind]
  refine .bind (locateOrAddBlock_ends L lay hc ow hi hr hk hlbn hN hsub fun _ => hfull) ?_
  rintro o t1 - ⟨d1, hr1, hloc⟩
  have L1 := fsStore_lawful L (m.setDisk k (dinode sb d1 i))
  have hi1 := (hloc.grows.used i).mpr hi
  have hz := hloc.grown rfl
  have hptr := hloc.owned.ptr_lt hi1 (leafPath_isPath hlbn) hz
  have hinode := lay.inode_lt hi.1
  have hput := writes_putData src srcOff lay hloc.owned hi1 hlbn hn hz
  rw [hloc.result, if_neg hz]
  refine L1.read_bind hr1 (by simp) (Nat.zero_lt_of_lt hc) fun b t2 hr2 => ?_
  refine .panicIf_bind hwild fun _ => ?_
  refine L1.store_bind hr2 List.mem_cons_self fun t3 hr3 => L1.release_bind hr3 fun t4 hr4 => ?_
  have hdisk : dinode sb (putData sb d1 i off n src srcOff) i = dinode sb d1 i :=
    dinode_congr (Function.update_of_ne (by omega) _ _)
  have hfree : freeBlocks sb (putData sb d1 i off n src srcOff) = freeBlocks sb d1 :=
    freeBlocks_congr (Function.update_of_ne (by omega) _ _)
  refine hnext t4 (putData sb d1 i off n src srcOff) ?_ (hloc.grows.writes hi hput) (hloc.budget.trans (.of_ptr ?_ hfree))
  · rw [hdisk]
    exact hr4
  · exact fun q hq => ptr_putData lay hloc.owned hi1 hlbn hz hi1 (hN q hq)

lemma writeFrom_ends (hstop : stop ≤ MAXOFFSET) (hfuel : stop - off < fuel) (hsrc : srcOff + (stop - off) ≤ srcLen)
    (hr : At Rep m t d []) (hN : ∀ q ∈ N, IsPath q) (hsub : fileNodes off stop ⊆ N)
    (hfull : freeBlocks sb d < (lacking sb d i N).card → E .outOfBlocks) :
    (writeFrom P B sb k stop srcLen src fuel off srcOff).Ends t E fun _ t' =>
      ∃ d', At Rep (m.setDisk k (dinode sb d' i)) t' d' [] ∧ Writes sb d d' i off (stop - off) src srcOff ∧ Budget sb d d' i N := by
  induction fuel generalizing off srcOff d m t with
  | zero => omega
  | succ fuel ih =>
    by_cases hlt : off < stop
    · have hpos := chunkLen_pos hlt
      have hle := chunkLen_le off stop
      have hmax : off + chunkLen off stop < 2 ^ 32 := by
        unfold MAXOFFSET at hstop
        omega
      refine writeFrom_succ_ends L lay hc ow hi hk hr hlt (chunk_eq hlt hstop) (Nat.min_le_left _ _) (by omega)
        (fun _ => by omega) hN ((nodes_subset_fileNodes le_rfl hlt).trans hsub) hfull fun t1 d1 hr1 hw hbud => ?_
      rw [addW_of_lt P hmax, pure_bind]
      refine (ih hw.owned ((hw.used i).mpr hi) (Holds.setDisk hk.num d1) (by omega) (by omega) hr1
        ((fileNodes_mono (by omega) le_rfl).trans hsub) fun hfew => hfull (hbud.room hfew)).mono ?_
      rintro - t' ⟨d', hr', hw', hbud'⟩
      rw [FsMem.setDisk_setDisk] at hr'
      refine ⟨d', hr', ?_, hbud.trans hbud'⟩
      rw [show stop - off = chunkLen off stop + (stop - (off + chunkLen off stop)) by omega]
      exact hw.trans hw'
    · unfold writeFrom
      rw [if_neg hlt, show stop - off = 0 by omega]
      exact .pure ⟨d, by rwa [hk.setDisk_eq], .nothing ow off src srcOff, .refl sb d i N⟩

end

/-! ### The two operations -/

/-- `inode_read_data` gets as many bytes as the file has in the range. -/
theorem inodeReadData_ends (dst : Block) (L : B.Lawful cap Rep) (lay : sb.Layout) (hc : 1 < cap) (ow : Owned sb d fun _ => False)
    (hi : Used sb d i) (hk : Holds sb d m k i) (hr : At Rep m t d []) (hdst : len ≤ dstLen)
    (hoff : off + len < 2 ^ 32) (hmax : len = 0 ∨ min (off + len) (dinode sb d i).size ≤ MAXOFFSET) :
    (inodeReadData P B sb k off len dstLen dst).Ends t E fun r t' => At Rep m t' d [] ∧
      r.1 = min len ((dinode sb d i).size - off) ∧ r.2 = blit (fileByte sb d i) off r.1 0 dst := by
  have hsize := (dinode_fits sb d i).size
  refine getInode_bind hr ?_
  rw [hk.disk]
  dsimp only
  split_ifs with hend
  · refine .pure ⟨hr, ?_, ?_⟩
    · omega
    · rw [blit_zero]
  · have hlen : (if (dinode sb d i).size < off + len then (dinode sb d i).size - off else len) =
        min len ((dinode sb d i).size - off) := by
      split_ifs with h
      · omega
      · omega
    rw [addW_of_lt P hoff, pure_bind, hlen, addW_of_lt P (by omega), pure_bind]
    by_cases hz : min len ((dinode sb d i).size - off) = 0
    · rw [hz, Nat.add_zero]
      unfold readFrom
      rw [if_neg (by omega), pure_bind]
      exact .pure ⟨hr, rfl, by rw [blit_zero]⟩
    · have hstop : off + min len ((dinode sb d i).size - off) ≤ MAXOFFSET := by omega
      refine .bind (readFrom_ends L lay hc ow hi hk hstop (by omega) (by omega) hr) ?_
      rintro dst' t' - ⟨hr', rfl⟩
      refine .pure ⟨hr', rfl, ?_⟩
      rw [Nat.add_sub_cancel_left]

/-- The inode `i` is stored with the fields `x` and the same block numbers. All files have the same bytes. -/
structure Restored (sb : SuperBlock) (d d' : Nat → Block) (i : Nat) (x : InodeDisk) : Prop where
  owned : Owned sb d' fun _ => False
  used : ∀ j, Used sb d' j ↔ Used sb d j
  marked : ∀ c, Marked sb d' c ↔ Marked sb d c
  self : dinode sb d' i = x
  other : ∀ j, j ≠ i → dinode sb d' j = dinode sb d j
  bytes : ∀ j o, Used sb d j → o / BLOCK_SIZE < MAXBLOCKS → fileByte sb d' j o = fileByte sb d j o
  kept : Kept sb d d'

section

variable (lay : sb.Layout) (ow : Owned sb d fun _ => False) (hi : Used sb d i) (hx : x.Fits) (hindex : x.index = (dinode sb d i).index)
include lay ow hi hx hindex

lemma restored_putInode : Restored sb d (putInode sb d i x) i x := by
  constructor
  · exact ow.putInode lay hi hx hindex
  · exact fun _ => used_putInode lay
  · exact fun _ => marked_putInode lay hi.1
  · rw [dinode_putInode hx, if_pos rfl]
  · intro j hne
    rw [dinode_putInode hx, if_neg hne]
  · exact fun j o hj ho => fileByte_putInode lay ow hi hx hindex hj ho
  · exact fun j q hj hq _ => ptr_putInode lay ow hi hx hindex hj hq

lemma budget_putInode (hN : ∀ q ∈ N, IsPath q) : Budget sb d (putInode sb d i x) i N := by
  have hlt := lay.inode_lt hi.1
  exact .of_ptr (fun q hq => ptr_putInode lay ow hi hx hindex hi (hN q hq)) (freeBlocks_congr (putInode_of_ne (by omega)))

end

lemma resized_fits (sb : SuperBlock) (d : Nat → Block) (i : Nat) (hn : n < 2 ^ 32) :
    InodeDisk.Fits { dinode sb d i with size := n } := by
  have hold := dinode_fits sb d i
  exact ⟨hold.type_, hold.major, hold.minor, hold.nlink, hn, hold.index, hold.rest⟩

/-- What `inode_write_data` leaves: the bytes, and the new size. -/
structure WroteData (sb : SuperBlock) (d d' : Nat → Block) (i off len : Nat) (src : Block) : Prop where
  owned : Owned sb d' fun _ => False
  used : ∀ j, Used sb d' j ↔ Used sb d j
  other : ∀ j, Used sb d j → j ≠ i → dinode sb d' j = dinode sb d j
  self : dinode sb d' i = { dinode sb d i with size := max (dinode sb d i).size (off + len), index := (dinode sb d' i).index }
  rest : ∀ j o, Used sb d j → j ≠ i → o / BLOCK_SIZE < MAXBLOCKS → fileByte sb d' j o = fileByte sb d j o
  bytes : ∀ o, o / BLOCK_SIZE < MAXBLOCKS → fileByte sb d' i o = blit src 0 len off (fileByte sb d i) o
  kept : Kept sb d d'

theorem inodeWriteData_ends (src : Block) (L : B.Lawful cap Rep) (lay : sb.Layout) (hc : 1 < cap) (ow : Owned sb d fun _ => False)
    (hi : Used sb d i) (hk : Holds sb d m k i) (hr : At Rep m t d []) (hsrc : len ≤ srcLen) (hoff : off < 2 ^ 32)
    (hmax : len = 0 ∨ off + len ≤ MAXOFFSET) (hN : ∀ q ∈ N, IsPath q) (hsub : fileNodes off (off + len) ⊆ N)
    (hfull : freeBlocks sb d < (lacking sb d i N).card → E .outOfBlocks) :
    (inodeWriteData P B sb k off len srcLen src).Ends t E fun n t' => n = len ∧
      ∃ d', At Rep (m.setDisk k (dinode sb d' i)) t' d' [] ∧ WroteData sb d d' i off len src ∧ Budget sb d d' i N := by
  have hstop : off + len < 2 ^ 32 := by
    unfold MAXOFFSET at hmax
    omega
  have hloop : (writeFrom P B sb k (off + len) srcLen src (srcLen + 1) off 0).Ends t E fun _ t' =>
      ∃ d', At Rep (m.setDisk k (dinode sb d' i)) t' d' [] ∧ Writes sb d d' i off len src 0 ∧ Budget sb d d' i N := by
    by_cases hz : len = 0
    · unfold writeFrom
      rw [if_neg (by omega), hz]
      exact .pure ⟨d, by rwa [hk.setDisk_eq], .nothing ow off src 0, .refl sb d i N⟩
    · have hends : (writeFrom P B sb k (off + len) srcLen src (srcLen + 1) off 0).Ends t E _ :=
        writeFrom_ends L lay hc ow hi hk (hmax.resolve_left hz) (by omega) (by omega) hr hN hsub hfull
      rwa [Nat.add_sub_cancel_left] at hends
  unfold inodeWriteData
  rw [addW_of_lt P hstop, pure_bind]
  refine .bind hloop ?_
  rintro - t1 - ⟨d1, hr1, hw, hbud⟩
  have hi1 := (hw.used i).mpr hi
  have hsize : (dinode sb d1 i).size = (dinode sb d i).size := by rw [hw.self]
  refine getInode_bind hr1 ?_
  rw [FsMem.setDisk_self]
  dsimp only
  rw [hsize]
  split_ifs with hlt
  · have hre := restored_putInode lay hw.owned hi1 (resized_fits sb d1 i hstop) rfl
    refine modifyMem_bind hr1 fun t2 hr2 => ?_
    rw [FsMem.setDisk_self, FsMem.setDisk_setDisk] at hr2
    refine .bind (inodeRw_write_ends L lay (Nat.zero_lt_of_lt hc) hr2 ?_) fun _ t3 _ hr3 => .pure ⟨rfl, ?_⟩
    · rw [FsMem.setDisk_self, hk.num]
      exact hi.1
    · rw [FsMem.setDisk_self, hk.num] at hr3
      refine ⟨_, by rwa [hre.self], ⟨hre.owned, fun j => (hre.used j).trans (hw.used j), ?_, ?_, ?_, ?_, hw.kept.trans hw.used hre.kept⟩,
        hbud.trans (budget_putInode lay hw.owned hi1 (resized_fits sb d1 i hstop) rfl hN)⟩
      · exact fun j hj hne => (hre.other j hne).trans (hw.other j hj hne)
      · rw [hre.self, Nat.max_eq_right (by omega), hw.self]
      · exact fun j o hj hne ho => (hre.bytes j o ((hw.used j).mpr hj) ho).trans (hw.rest j o hj hne ho)
      · exact fun o ho => (hre.bytes i o hi1 ho).trans (hw.bytes o ho)
  · refine .pure ⟨rfl, d1, hr1, ⟨hw.owned, hw.used, hw.other, ?_, hw.rest, hw.bytes, hw.kept⟩, hbud⟩
    rw [Nat.max_eq_left (by omega), hw.self]

/-! ### Any range

Also where sums wrap, the operations only go through the blocks of the file.
-/

/-- The inode `i` may have got blocks and another size. The other files and the other fields are the same. -/
structure Edits (sb : SuperBlock) (d d' : Nat → Block) (i : Nat) : Prop where
  owned : Owned sb d' fun _ => False
  used : ∀ j, Used sb d' j ↔ Used sb d j
  other : ∀ j, Used sb d j → j ≠ i → dinode sb d' j = dinode sb d j
  self : dinode sb d' i = { dinode sb d i with size := (dinode sb d' i).size, index := (dinode sb d' i).index }
  rest : ∀ j o, Used sb d j → j ≠ i → o / BLOCK_SIZE < MAXBLOCKS → fileByte sb d' j o = fileByte sb d j o
  kept : Kept sb d d'

lemma Edits.refl (ow : Owned sb d fun _ => False) (i : Nat) : Edits sb d d i :=
  ⟨ow, fun _ => Iff.rfl, fun _ _ _ => rfl, rfl, fun _ _ _ _ _ => rfl, fun _ _ _ _ _ => rfl⟩

lemma Edits.trans (h : Edits sb d1 d2 i) (h' : Edits sb d2 d3 i) : Edits sb d1 d3 i := by
  constructor
  · exact h'.owned
  · exact fun j => (h'.used j).trans (h.used j)
  · exact fun j hj hne => (h'.other j ((h.used j).mpr hj) hne).trans (h.other j hj hne)
  · rw [h'.self, h.self]
  · exact fun j o hj hne ho => (h'.rest j o ((h.used j).mpr hj) hne ho).trans (h.rest j o hj hne ho)
  · exact h.kept.trans h.used h'.kept

lemma Writes.edits (h : Writes sb d d' i off n src so) : Edits sb d d' i := by
  refine ⟨h.owned, h.used, h.other, ?_, h.rest, h.kept⟩
  rw [h.self]

/-- How the data loops may stop. -/
inductive DataPanic : Panic → Prop
  | overflow : DataPanic .overflow
  | wildAccess : DataPanic .wildAccess
  | outOfBlocks : DataPanic .outOfBlocks
  | diverge : DataPanic .diverge

lemma chunk_cases (P : Profile) (stop : Nat) (hoff : off < 2 ^ 32) : (chunk P off stop : K (FsState σ) Nat) = throw .overflow ∨
    ∃ n ≤ BLOCK_SIZE - off % BLOCK_SIZE, (chunk P off stop : K (FsState σ) Nat) = pure n := by
  unfold chunk
  dsimp only
  by_cases h : off + (BLOCK_SIZE - off % BLOCK_SIZE) < 2 ^ 32
  · rw [addW_of_lt P h, pure_bind]
    right
    split_ifs with hlt
    · exact ⟨stop - off, by omega, rfl⟩
    · exact ⟨_, le_rfl, rfl⟩
  · cases P with
    | dev =>
      rw [addW_dev (by omega)]
      exact .inl rfl
    | release =>
      have hwrap : (off + (BLOCK_SIZE - off % BLOCK_SIZE)) % 2 ^ 32 = 0 := by
        unfold BLOCK_SIZE at h ⊢
        omega
      rw [addW_release, pure_bind, hwrap, if_neg (by omega)]
      exact .inr ⟨_, le_rfl, rfl⟩

section

variable (L : B.Lawful cap Rep) (lay : sb.Layout) (hc : 1 < cap) (ow : Owned sb d fun _ => False) (hi : Used sb d i)
  (hk : Holds sb d m k i) (hr : At Rep m t d []) (hoff : off < 2 ^ 32)
include L lay hc ow hi hk hr hoff

lemma readFrom_keeps :
    (readFrom P B sb k stop dstLen fuel off dstOff dst).Ends t DataPanic fun _ t' => At Rep m t' d [] := by
  have L' := fsStore_lawful L m
  induction fuel generalizing off dstOff dst t with
  | zero => exact .throw .diverge
  | succ fuel ih =>
    unfold readFrom
    by_cases hlt : off < stop
    · rw [if_pos hlt]
      rcases chunk_cases (σ := σ) P stop hoff with hch | ⟨n, -, hch⟩
      · rw [hch]
        exact .throw .overflow
      · rw [hch, pure_bind]
        refine .bind (locate_ends L lay hc ow hi hk hr (div_lt_maxBlocks hoff)) ?_
        rintro o t1 - ⟨hr1, -⟩
        cases o with
        | some blk =>
          refine L'.read_bind hr1 (by simp) (Nat.zero_lt_of_lt hc) fun b t2 hr2 => L'.load_bind hr2 List.mem_cons_self ?_
          refine .panicIf_bind (fun _ => .wildAccess) fun _ => L'.release_bind hr2 fun t3 hr3 => ?_
          exact addW_bind P off n .overflow fun v hv => ih hr3 hv
        | none =>
          refine .panicIf_bind (fun _ => .wildAccess) fun _ => ?_
          exact addW_bind P off n .overflow fun v hv => ih hr1 hv
    · rw [if_neg hlt]
      exact .pure hr

lemma writeFrom_keeps :
    (writeFrom P B sb k stop srcLen src fuel off srcOff).Ends t DataPanic fun _ t' =>
      ∃ d', At Rep (m.setDisk k (dinode sb d' i)) t' d' [] ∧ Edits sb d d' i := by
  induction fuel generalizing off srcOff d m t with
  | zero => exact .throw .diverge
  | succ fuel ih =>
    by_cases hlt : off < stop
    · rcases chunk_cases (σ := σ) P stop hoff with hch | ⟨n, hn, hch⟩
      · unfold writeFrom
        rw [if_pos hlt, hch]
        exact .throw .overflow
      · have hpath := leafPath_isPath (div_lt_maxBlocks hoff)
        refine writeFrom_succ_ends L lay hc ow hi hk hr hlt hch hn hoff (fun _ => .wildAccess) (fun q hq => hpath.of_mem_nodes hq)
          Finset.Subset.rfl (fun _ => .outOfBlocks) fun t1 d1 hr1 hw _ => addW_bind P off n .overflow fun v hv => ?_
        refine (ih hw.owned ((hw.used i).mpr hi) (Holds.setDisk hk.num d1) hr1 hv).mono fun _ t' ⟨d', hr', he⟩ => ?_
        rw [FsMem.setDisk_setDisk] at hr'
        exact ⟨d', hr', hw.edits.trans he⟩
    · unfold writeFrom
      rw [if_neg hlt]
      exact .pure ⟨d, by rwa [hk.setDisk_eq], .refl ow i⟩

theorem inodeReadData_keeps :
    (inodeReadData P B sb k off len dstLen dst).Ends t DataPanic fun _ t' => At Rep m t' d [] := by
  refine getInode_bind hr ?_
  dsimp only
  split_ifs with hend
  · exact .pure hr
  · refine addW_bind P _ _ .overflow fun v _ => addW_bind P _ _ .overflow fun stop _ => ?_
    exact .bind (readFrom_keeps L lay hc ow hi hk hr hoff) fun _ t1 _ hr1 => .pure hr1

end

lemma Restored.edits (h : Restored sb d d' i { dinode sb d i with size := n }) : Edits sb d d' i := by
  refine ⟨h.owned, h.used, fun j _ hne => h.other j hne, ?_, fun j o hj _ ho => h.bytes j o hj ho, h.kept⟩
  rw [h.self]

theorem inodeWriteData_keeps (L : B.Lawful cap Rep) (lay : sb.Layout) (hc : 1 < cap) (ow : Owned sb d fun _ => False)
    (hi : Used sb d i) (hk : Holds sb d m k i) (hr : At Rep m t d []) (hoff : off < 2 ^ 32) :
    (inodeWriteData P B sb k off len srcLen src).Ends t DataPanic fun _ t' =>
      ∃ d', At Rep (m.setDisk k (dinode sb d' i)) t' d' [] ∧ Edits sb d d' i := by
  unfold inodeWriteData
  refine addW_bind P _ _ .overflow fun stop hstop => ?_
  refine .bind (writeFrom_keeps L lay hc ow hi hk hr hoff) ?_
  rintro - t1 - ⟨d1, hr1, he⟩
  have hi1 := (he.used i).mpr hi
  refine getInode_bind hr1 ?_
  split_ifs with hlt
  · have hre := restored_putInode lay he.owned hi1 (resized_fits sb d1 i hstop) rfl
    refine modifyMem_bind hr1 fun t2 hr2 => ?_
    rw [FsMem.setDisk_self, FsMem.setDisk_setDisk] at hr2
    refine .bind (inodeRw_write_ends L lay (Nat.zero_lt_of_lt hc) hr2 ?_) fun _ t3 _ hr3 => .pure ?_
    · rw [FsMem.setDisk_self, hk.num]
      exact hi.1
    · rw [FsMem.setDisk_self, hk.num] at hr3
      exact ⟨_, by rwa [hre.self], he.trans hre.edits⟩
  · exact .pure ⟨d1, hr1, he⟩

end Spec

end Glenda.Fs
