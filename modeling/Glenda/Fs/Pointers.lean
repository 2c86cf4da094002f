import Glenda.Fs.Inode

/-!
# Who owns a block

The blocks of a disk as the inodes describe them. A path names a place where an inode can have a block number: a place in
the inode itself, or a place in an index block that a shorter path leads to. Every marked block is at exactly one place of
one inode. Between its allocation and its link a block is loose.
-/

namespace Glenda.Fs
open Glenda.Lib
open Function (update_of_ne update_self)

/-! ### Inodes in their blocks -/

namespace InodeDisk

variable {x : InodeDisk} {b : Block} {o o' k w v c : Nat}

/-- The numbers fit their fields. -/
structure Fits (x : InodeDisk) : Prop where
  type_ : x.type_ < 2 ^ 16
  major : x.major < 2 ^ 16
  minor : x.minor < 2 ^ 16
  nlink : x.nlink < 2 ^ 16
  size : x.size < 2 ^ 32
  index : ∀ i, x.index i < 2 ^ 32
  rest : ∀ i, INODE_INDEX_3 ≤ i → x.index i = 0

lemma decode_fits (b : Block) (o : Nat) : (decode b o).Fits := by
  constructor
  · exact leNat_lt 2 b _
  · exact leNat_lt 2 b _
  · exact leNat_lt 2 b _
  · exact leNat_lt 2 b _
  · exact leNat_lt 4 b _
  · intro i
    dsimp only [decode]
    split_ifs
    · exact leNat_lt 4 b _
    · decide
  · intro i hi
    exact if_neg (by omega)

@[simp] lemma setIndex_self (x : InodeDisk) (i v : Nat) : (x.setIndex i v).index i = v := update_self _ _ _

lemma setIndex_of_ne {i j : Nat} (h : j ≠ i) : (x.setIndex i v).index j = x.index j := update_of_ne h _ _

lemma Fits.setIndex {i : Nat} (hx : x.Fits) (hi : i < INODE_INDEX_3) (hv : v < 2 ^ 32) : (x.setIndex i v).Fits := by
  refine ⟨hx.type_, hx.major, hx.minor, hx.nlink, hx.size, fun j => ?_, fun j hj => ?_⟩
  · by_cases h : j = i
    · rw [h, setIndex_self]
      exact hv
    · rw [setIndex_of_ne h]
      exact hx.index j
  · rw [setIndex_of_ne (by omega)]
    exact hx.rest j hj

lemma encode_at (x : InodeDisk) (b : Block) (hk : k < 64) : x.encode o b (o + k) = x.byte k := by
  unfold encode blit
  rw [if_pos (by omega), Nat.zero_add, Nat.add_sub_cancel_left]

lemma encode_of_not (h : ¬(o ≤ k ∧ k < o + 64)) : x.encode o b k = b k := if_neg h

lemma leNat_encode (hc : c + w ≤ 64) (hv : v < 256 ^ w) (hbyte : ∀ p < w, x.byte (c + p) = byteOf v p) :
    leNat w (x.encode o b) (o + c) = v := by
  have hread : leNat w (x.encode o b) (o + c) = v % 256 ^ w := by
    apply leNat_eq
    intro p hp
    rw [Nat.add_assoc, encode_at x b (by omega), hbyte p hp]
    rfl
  rw [hread, Nat.mod_eq_of_lt hv]

lemma byte_index (x : InodeDisk) (i : Nat) {p : Nat} (hp : p < 4) : x.byte (12 + 4 * i + p) = byteOf (x.index i) p := by
  unfold byte
  rw [if_neg (by omega), if_neg (by omega), if_neg (by omega), if_neg (by omega), if_neg (by omega),
    show (12 + 4 * i + p - 12) / 4 = i by omega, show (12 + 4 * i + p - 12) % 4 = p by omega]

lemma decode_encode (hx : x.Fits) : decode (x.encode o b) o = x := by
  have htype : leNat 2 (x.encode o b) o = x.type_ := by
    apply leNat_encode (c := 0) (by omega) hx.type_
    intro p hp
    unfold byte
    rw [if_pos (by omega), Nat.zero_add]
  have hmajor : leNat 2 (x.encode o b) (o + 2) = x.major := by
    apply leNat_encode (by omega) hx.major
    intro p hp
    unfold byte
    rw [if_neg (by omega), if_pos (by omega), Nat.add_sub_cancel_left]
  have hminor : leNat 2 (x.encode o b) (o + 4) = x.minor := by
    apply leNat_encode (by omega) hx.minor
    intro p hp
    unfold byte
    rw [if_neg (by omega), if_neg (by omega), if_pos (by omega), Nat.add_sub_cancel_left]
  have hnlink : leNat 2 (x.encode o b) (o + 6) = x.nlink := by
    apply leNat_encode (by omega) hx.nlink
    intro p hp
    unfold byte
    rw [if_neg (by omega), if_neg (by omega), if_neg (by omega), if_pos (by omega), Nat.add_sub_cancel_left]
  have hsize : leNat 4 (x.encode o b) (o + 8) = x.size := by
    apply leNat_encode (by omega) hx.size
    intro p hp
    unfold byte
    rw [if_neg (by omega), if_neg (by omega), if_neg (by omega), if_neg (by omega), if_pos (by omega), Nat.add_sub_cancel_left]
  have hindex : (fun i => if i < INODE_INDEX_3 then leNat 4 (x.encode o b) (o + 12 + 4 * i) else 0) = x.index := by
    funext i
    split_ifs with hi
    · rw [Nat.add_assoc]
      exact leNat_encode (by unfold INODE_INDEX_3 at hi; omega) (hx.index i) fun p hp => byte_index x i hp
    · exact (hx.rest i (by omega)).symm
  unfold decode
  rw [htype, hmajor, hminor, hnlink, hsize, hindex]

lemma decode_congr {b' : Block} (h : ∀ p, o ≤ p → p < o + 64 → b p = b' p) : decode b o = decode b' o := by
  unfold decode
  rw [leNat_congr fun p hp hlt => h p (by omega) (by omega), leNat_congr fun p hp hlt => h p (by omega) (by omega),
    leNat_congr fun p hp hlt => h p (by omega) (by omega), leNat_congr fun p hp hlt => h p (by omega) (by omega),
    leNat_congr fun p hp hlt => h p (by omega) (by omega)]
  congr 1
  funext i
  split_ifs with hi
  · exact leNat_congr fun p hp hlt => h p (by omega) (by unfold INODE_INDEX_3 at hi; omega)
  · rfl

lemma decode_encode_of_disjoint (h : o + 64 ≤ o' ∨ o' + 64 ≤ o) : decode (x.encode o b) o' = decode b o' :=
  decode_congr fun p hp hlt => encode_of_not (by omega)

end InodeDisk

/-! ### Paths -/

inductive IsPath : List Nat → Prop
  | top {i} (hi : i < INODE_INDEX_3) (hne : i ≠ 11) : IsPath [i]
  | single {j} (hj : j < NINDIRECT) : IsPath [j, INODE_INDEX_1]
  | middle {i} (hi : i < NINDIRECT) : IsPath [i, INODE_INDEX_2]
  | double {i j} (hi : i < NINDIRECT) (hj : j < NINDIRECT) : IsPath [j, i, INODE_INDEX_2]

/-- The paths to index blocks. -/
inductive IsInner : List Nat → Prop
  | single : IsInner [INODE_INDEX_1]
  | double : IsInner [INODE_INDEX_2]
  | middle {i} (hi : i < NINDIRECT) : IsInner [i, INODE_INDEX_2]

/-- The path to a block of the file. -/
def leafPath (lbn : Nat) : List Nat :=
  if lbn < INODE_INDEX_1 then [lbn]
  else if lbn - INODE_INDEX_1 < NINDIRECT then [lbn - INODE_INDEX_1, INODE_INDEX_1]
  else
    [(lbn - INODE_INDEX_1 - NINDIRECT) % NINDIRECT, (lbn - INODE_INDEX_1 - NINDIRECT) / NINDIRECT, INODE_INDEX_2]

/-- The number of blocks of a file that have a path. -/
abbrev MAXBLOCKS : Nat := INODE_INDEX_1 + NINDIRECT + NINDIRECT * NINDIRECT

variable {p q : List Nat} {i j n lbn lbn' : Nat} {d1 d2 d3 : Nat → Block}

lemma IsInner.isPath (h : IsInner p) : IsPath p := by
  cases h with
  | single => exact .top (by decide) (by decide)
  | double => exact .top (by decide) (by decide)
  | middle hi => exact .middle hi

lemma IsInner.cons (h : IsInner p) (hj : j < NINDIRECT) : IsPath (j :: p) := by
  cases h with
  | single => exact .single hj
  | double => exact .middle hj
  | middle hi => exact .double hi hj

lemma IsPath.inner (h : IsPath (j :: i :: p)) : IsInner (i :: p) ∧ j < NINDIRECT := by
  cases h with
  | single hj => exact ⟨.single, hj⟩
  | middle hi => exact ⟨.double, hi⟩
  | double hi hj => exact ⟨.middle hi, hj⟩

lemma leafPath_isPath (h : lbn < MAXBLOCKS) : IsPath (leafPath lbn) := by
  unfold MAXBLOCKS INODE_INDEX_1 NINDIRECT at h
  unfold leafPath
  split_ifs with hdir hind
  · unfold INODE_INDEX_1 at hdir
    exact .top (by unfold INODE_INDEX_3; omega) (by omega)
  · exact .single hind
  · refine .double (Nat.div_lt_of_lt_mul ?_) (Nat.mod_lt _ (by decide))
    unfold INODE_INDEX_1 NINDIRECT
    omega

lemma leafPath_not_inner (lbn : Nat) : ¬IsInner (leafPath lbn) := by
  intro h
  unfold leafPath INODE_INDEX_1 at h
  split_ifs at h with hdir hind
  · generalize hl : [lbn] = l at h
    cases h <;> simp [INODE_INDEX_1, INODE_INDEX_2] at hl <;> omega
  · generalize hl : [lbn - 10, 10] = l at h
    cases h <;> simp [INODE_INDEX_2] at hl
  · generalize hl : [(lbn - 10 - NINDIRECT) % NINDIRECT, (lbn - 10 - NINDIRECT) / NINDIRECT, INODE_INDEX_2] = l at h
    cases h <;> simp at hl

lemma leafPath_inj (h : leafPath lbn = leafPath lbn') : lbn = lbn' := by
  unfold leafPath INODE_INDEX_1 NINDIRECT at h
  split_ifs at h <;> simp only [List.cons.injEq, and_true, reduceCtorEq, and_false] at h <;> omega

/-! ### Block numbers -/

variable {d d' : Nat → Block} {x x' : InodeDisk}

/-- The entry of an index block, if there is the block. -/
def child (d : Nat → Block) (r j : Nat) : Nat := if r = 0 then 0 else entry (d r) j

/-- The block number at a path. -/
def pointer (d : Nat → Block) (x : InodeDisk) : List Nat → Nat
  | [] => 0
  | [i] => x.index i
  | j :: i :: p => child d (pointer d x (i :: p)) j

@[simp] lemma child_zero (d : Nat → Block) (j : Nat) : child d 0 j = 0 := rfl

lemma child_of_ne {r : Nat} (h : r ≠ 0) : child d r j = entry (d r) j := if_neg h

@[simp] lemma pointer_top (d : Nat → Block) (x : InodeDisk) (i : Nat) : pointer d x [i] = x.index i := rfl

lemma pointer_cons (h : IsInner p) : pointer d x (j :: p) = child d (pointer d x p) j := by
  cases h <;> rfl

/-- Induction along paths: a place in the inode, or a place in the index block of a shorter path. -/
lemma IsPath.induct {motive : List Nat → Prop} (htop : ∀ i, i < INODE_INDEX_3 → i ≠ 11 → motive [i])
    (hcons : ∀ j p, IsInner p → j < NINDIRECT → motive p → motive (j :: p)) (h : IsPath p) : motive p := by
  have hmid : ∀ i, i < NINDIRECT → motive [i, INODE_INDEX_2] := fun i hi =>
    hcons i _ .double hi (htop _ (by decide) (by decide))
  cases h with
  | top hi hne => exact htop _ hi hne
  | single hj => exact hcons _ _ .single hj (htop _ (by decide) (by decide))
  | middle hi => exact hmid _ hi
  | double hi hj => exact hcons _ _ (.middle hi) hj (hmid _ hi)

lemma pointer_congr (hx : ∀ i, x'.index i = x.index i)
    (hd : ∀ q, IsInner q → pointer d x q ≠ 0 → d' (pointer d x q) = d (pointer d x q)) (hp : IsPath p) :
    pointer d' x' p = pointer d x p := by
  refine IsPath.induct (motive := fun p => pointer d' x' p = pointer d x p) (fun i _ _ => hx i) ?_ hp
  intro j p hin hj ih
  rw [pointer_cons hin, pointer_cons hin, ih]
  by_cases hz : pointer d x p = 0
  · rw [hz, child_zero, child_zero]
  · rw [child_of_ne hz, child_of_ne hz, hd p hin hz]

/-! ### The disk -/

/-- The parts of the disk follow each other, and each bitmap is one block. -/
structure SuperBlock.Layout (sb : SuperBlock) : Prop where
  ibmap : 1 ≤ sb.inodeStart
  inodes : sb.inodeStart + (sb.ninodes + 63) / 64 ≤ sb.bmapStart
  fit : sb.BlocksFit
  nblocks : sb.nblocks ≤ 32768
  ninodes : sb.ninodes ≤ 32768

variable {sb : SuperBlock} {b c k off : Nat} {L : Nat → Prop}

/-- The inode as it is stored. -/
def dinode (sb : SuperBlock) (d : Nat → Block) (i : Nat) : InodeDisk :=
  .decode (d (sb.inodeStart + i / IPB)) (i % IPB * 64)

def Used (sb : SuperBlock) (d : Nat → Block) (i : Nat) : Prop := i < sb.ninodes ∧ bit (d (sb.inodeStart - 1)) i = true

def Marked (sb : SuperBlock) (d : Nat → Block) (b : Nat) : Prop :=
  ∃ k < sb.nblocks, b = sb.bmapStart + 1 + k ∧ bit (d sb.bmapStart) k = true

/-- The block number of an inode at a path. -/
def ptr (sb : SuperBlock) (d : Nat → Block) (i : Nat) (p : List Nat) : Nat := pointer d (dinode sb d i) p

/-- A byte of a file, without regard to its size. Places without a block are zero. -/
def fileByte (sb : SuperBlock) (d : Nat → Block) (i off : Nat) : UInt8 :=
  if ptr sb d i (leafPath (off / BLOCK_SIZE)) = 0 then 0
  else d (ptr sb d i (leafPath (off / BLOCK_SIZE))) (off % BLOCK_SIZE)

/-- The marked blocks are the block numbers of the inodes in use, each of which is at one place, and the loose blocks `L`. -/
structure Owned (sb : SuperBlock) (d : Nat → Block) (L : Nat → Prop) : Prop where
  marked : ∀ {i p}, Used sb d i → IsPath p → ptr sb d i p ≠ 0 → Marked sb d (ptr sb d i p)
  inj : ∀ {i i' p p'}, Used sb d i → Used sb d i' → IsPath p → IsPath p' → ptr sb d i p ≠ 0 →
    ptr sb d i p = ptr sb d i' p' → i = i' ∧ p = p'
  owner : ∀ {b}, Marked sb d b → L b ∨ ∃ i p, Used sb d i ∧ IsPath p ∧ ptr sb d i p = b
  loose : ∀ {b}, L b → Marked sb d b ∧ ∀ i p, Used sb d i → IsPath p → ptr sb d i p ≠ b

lemma Marked.lt (h : Marked sb d b) : sb.bmapStart < b := by
  obtain ⟨k, _, rfl, _⟩ := h
  omega

lemma Marked.ne_zero (h : Marked sb d b) : b ≠ 0 := by
  have hlt := h.lt
  omega

lemma Marked.lt_max (lay : sb.Layout) (h : Marked sb d b) : b < 2 ^ 32 := by
  obtain ⟨k, hk, rfl, _⟩ := h
  have hfit := lay.fit
  unfold SuperBlock.BlocksFit at hfit
  omega

lemma SuperBlock.Layout.inode_lt (lay : sb.Layout) (hi : i < sb.ninodes) : sb.inodeStart + i / IPB < sb.bmapStart := by
  have hin := lay.inodes
  unfold IPB
  omega

lemma Owned.ptr_lt (ow : Owned sb d L) (hi : Used sb d i) (hp : IsPath p) (h : ptr sb d i p ≠ 0) : sb.bmapStart < ptr sb d i p :=
  (ow.marked hi hp h).lt

lemma ptr_cons (h : IsInner p) : ptr sb d i (j :: p) = child d (ptr sb d i p) j := pointer_cons h

lemma ptr_eq_zero (h : ∀ n, (dinode sb d i).index n = 0) (hp : IsPath p) : ptr sb d i p = 0 := by
  refine IsPath.induct (motive := fun p => ptr sb d i p = 0) (fun n _ _ => h n) ?_ hp
  intro j p hin _ ih
  rw [ptr_cons hin, ih, child_zero]

lemma owned_of_index (h : ∀ i, Used sb d i → ∀ n, (dinode sb d i).index n = 0) (hclear : ∀ b, ¬Marked sb d b) :
    Owned sb d fun _ => False := by
  constructor
  · intro i p hi hp hne
    exact (hne (ptr_eq_zero (h i hi) hp)).elim
  · intro i i' p p' hi _ hp _ hne
    exact (hne (ptr_eq_zero (h i hi) hp)).elim
  · exact fun hb => (hclear _ hb).elim
  · exact False.elim

lemma entry_setEntry (data : Block) (hb : b < 2 ^ 32) : entry (setEntry j b data) i = if i = j then b else entry data i := by
  unfold entry setEntry
  split_ifs with h
  · rw [h, leNat_putNat, Nat.mod_eq_of_lt (by simpa using hb)]
  · exact leNat_putNat_of_disjoint (by omega)

lemma Owned.congr (ow : Owned sb d fun _ => False) (hused : ∀ j, Used sb d' j ↔ Used sb d j)
    (hmarked : ∀ c, Marked sb d' c ↔ Marked sb d c) (hptr : ∀ {j p}, Used sb d j → IsPath p → ptr sb d' j p = ptr sb d j p) :
    Owned sb d' fun _ => False := by
  constructor
  · intro j p hj hp hz
    rw [hptr ((hused j).mp hj) hp] at hz ⊢
    exact (hmarked _).mpr (ow.marked ((hused j).mp hj) hp hz)
  · intro j j' p p' hj hj' hp hp' hz he
    rw [hptr ((hused j).mp hj) hp] at hz he
    rw [hptr ((hused j').mp hj') hp'] at he
    exact ow.inj ((hused j).mp hj) ((hused j').mp hj') hp hp' hz he
  · intro c hc
    rcases ow.owner ((hmarked c).mp hc) with hf | ⟨j, p, hj, hp, he⟩
    · exact hf.elim
    · exact .inr ⟨j, p, (hused j).mpr hj, hp, (hptr hj hp).trans he⟩
  · exact False.elim

/-! ### Blocks that get a place -/

/-- The block `b` is put at the empty place `p` of the inode `i`, and nothing else changes its place. -/
structure Relink (sb : SuperBlock) (d d' : Nat → Block) (i : Nat) (p : List Nat) (b : Nat) : Prop where
  used : ∀ j, Used sb d' j ↔ Used sb d j
  marked : ∀ c, Marked sb d' c ↔ Marked sb d c
  ptr : ∀ {j q}, Used sb d j → IsPath q → ptr sb d' j q = if j = i ∧ q = p then b else ptr sb d j q

lemma Relink.owned (h : Relink sb d d' i p b) (ow : Owned sb d (· = b)) (hi : Used sb d i) (hp : IsPath p)
    (hzero : Fs.ptr sb d i p = 0) : Owned sb d' fun _ => False := by
  obtain ⟨hbm, hbfree⟩ := ow.loose rfl
  constructor
  · intro j q hj hq hne
    have hj' := (h.used j).mp hj
    rw [h.marked, h.ptr hj' hq]
    rw [h.ptr hj' hq] at hne
    split_ifs at hne ⊢ with he
    · exact hbm
    · exact ow.marked hj' hq hne
  · intro j j' q q' hj hj' hq hq' hne he
    have hu := (h.used j).mp hj
    have hu' := (h.used j').mp hj'
    rw [h.ptr hu hq] at hne
    rw [h.ptr hu hq, h.ptr hu' hq'] at he
    split_ifs at hne he with h1 h2
    · exact ⟨h1.1.trans h2.1.symm, h1.2.trans h2.2.symm⟩
    · exact (hbfree j' q' hu' hq' he.symm).elim
    · exact (hbfree j q hu hq he).elim
    · exact ow.inj hu hu' hq hq' hne he
  · intro c hc
    right
    rcases ow.owner ((h.marked c).mp hc) with rfl | ⟨j, q, hj, hq, he⟩
    · refine ⟨i, p, (h.used i).mpr hi, hp, ?_⟩
      rw [h.ptr hi hp, if_pos ⟨rfl, rfl⟩]
    · refine ⟨j, q, (h.used j).mpr hj, hq, ?_⟩
      have hother : ¬(j = i ∧ q = p) := by
        rintro ⟨rfl, rfl⟩
        exact hc.ne_zero (he.symm.trans hzero)
      rw [h.ptr hj hq, if_neg hother, he]
  · exact False.elim

/-- The bytes of the files are as before, when the new block is zero and the blocks of data are not changed. -/
lemma Relink.bytes (h : Relink sb d d' i p b) (hzero : Fs.ptr sb d i p = 0) (hb : d' b = fun _ => 0)
    (hdata : ∀ j q, Used sb d j → IsPath q → ¬IsInner q → Fs.ptr sb d j q ≠ 0 → d' (Fs.ptr sb d j q) = d (Fs.ptr sb d j q))
    (hj : Used sb d j) (hoff : off / BLOCK_SIZE < MAXBLOCKS) : fileByte sb d' j off = fileByte sb d j off := by
  have hpath := leafPath_isPath hoff
  unfold fileByte
  rw [h.ptr hj hpath]
  by_cases he : j = i ∧ leafPath (off / BLOCK_SIZE) = p
  · rw [if_pos he, he.1, he.2, hzero, hb]
    simp
  · rw [if_neg he]
    by_cases hz : Fs.ptr sb d j (leafPath (off / BLOCK_SIZE)) = 0
    · rw [if_pos hz, if_pos hz]
    · rw [if_neg hz, if_neg hz, hdata j _ hj hpath (leafPath_not_inner _) hz]

/-- A link is determined by what happens to the numbers in the inodes and to the entries of the index blocks. -/
lemma ptr_relink (hzero : ptr sb d i p = 0) (hne : b ≠ 0) (hb : ∀ e, entry (d' b) e = 0)
    (hparent : ∀ e q, e :: q = p → IsInner q → ptr sb d i q ≠ 0)
    (htop : ∀ j n, Used sb d j → (dinode sb d' j).index n = if j = i ∧ [n] = p then b else (dinode sb d j).index n)
    (hentry : ∀ j q e, Used sb d j → IsInner q → ptr sb d j q ≠ 0 →
      entry (d' (ptr sb d j q)) e = if j = i ∧ e :: q = p then b else entry (d (ptr sb d j q)) e)
    (hj : Used sb d j) (hq : IsPath q) : ptr sb d' j q = if j = i ∧ q = p then b else ptr sb d j q := by
  refine IsPath.induct (motive := fun q => ptr sb d' j q = if j = i ∧ q = p then b else ptr sb d j q) ?_ ?_ hq
  · intro n _ _
    exact htop j n hj
  · intro e q hin he ih
    rw [ptr_cons hin, ptr_cons hin, ih]
    by_cases hlink : j = i ∧ q = p
    · -- below the new block, which is zero, and below an empty place before
      have hlong : ¬(j = i ∧ e :: q = p) := by
        rintro ⟨-, hcons⟩
        have hlen := congrArg List.length (hcons.trans hlink.2.symm)
        simp at hlen
      rw [if_pos hlink, if_neg hlong, child_of_ne hne, hb, hlink.1, hlink.2, hzero, child_zero]
    · rw [if_neg hlink]
      by_cases hz : ptr sb d j q = 0
      · have hother : ¬(j = i ∧ e :: q = p) := by
          rintro ⟨rfl, hcons⟩
          exact hparent e q hcons hin hz
        rw [hz, child_zero, if_neg hother, child_zero]
      · rw [child_of_ne hz, child_of_ne hz, hentry j q e hj hin hz]

/-! ### Steps on the disk -/

/-- The disk with an inode stored. -/
def putInode (sb : SuperBlock) (d : Nat → Block) (i : Nat) (x : InodeDisk) : Nat → Block :=
  Function.update d (sb.inodeStart + i / IPB) (x.encode (i % IPB * 64) (d (sb.inodeStart + i / IPB)))

/-- The disk with a block marked and cleared. -/
def putBlock (sb : SuperBlock) (d : Nat → Block) (k : Nat) : Nat → Block :=
  Function.update (Function.update d sb.bmapStart (setBit k (d sb.bmapStart))) (sb.bmapStart + 1 + k) fun _ => 0

/-- The disk with an entry of an index block stored. -/
def putEntry (d : Nat → Block) (r j b : Nat) : Nat → Block := Function.update d r (setEntry j b (d r))

lemma dinode_congr (h : d' (sb.inodeStart + i / IPB) = d (sb.inodeStart + i / IPB)) : dinode sb d' i = dinode sb d i := by
  unfold dinode
  rw [h]

lemma used_congr (h : d' (sb.inodeStart - 1) = d (sb.inodeStart - 1)) : Used sb d' i ↔ Used sb d i := by
  unfold Used
  rw [h]

lemma marked_congr (h : d' sb.bmapStart = d sb.bmapStart) : Marked sb d' b ↔ Marked sb d b := by
  unfold Marked
  rw [h]

lemma dinode_fits (sb : SuperBlock) (d : Nat → Block) (i : Nat) : (dinode sb d i).Fits := InodeDisk.decode_fits _ _

section Inode

variable {y : InodeDisk}

lemma putInode_of_ne (h : n ≠ sb.inodeStart + i / IPB) : putInode sb d i y n = d n := update_of_ne h _ _

lemma dinode_putInode (hy : y.Fits) : dinode sb (putInode sb d i y) j = if j = i then y else dinode sb d j := by
  by_cases hblock : j / IPB = i / IPB
  · unfold dinode putInode
    rw [hblock, update_self]
    split_ifs with h
    · rw [h, InodeDisk.decode_encode hy]
    · unfold IPB at hblock ⊢
      exact InodeDisk.decode_encode_of_disjoint (by omega)
  · have hne : j ≠ i := fun h => hblock (by rw [h])
    rw [if_neg hne]
    exact dinode_congr (putInode_of_ne (by omega))

lemma used_putInode (lay : sb.Layout) : Used sb (putInode sb d i y) j ↔ Used sb d j := by
  have hib := lay.ibmap
  have hne : sb.inodeStart - 1 ≠ sb.inodeStart + i / IPB := by
    unfold IPB
    omega
  exact used_congr (putInode_of_ne hne)

lemma marked_putInode (lay : sb.Layout) (hi : i < sb.ninodes) : Marked sb (putInode sb d i y) b ↔ Marked sb d b := by
  have hlt := lay.inode_lt hi
  exact marked_congr (putInode_of_ne (by omega))

lemma ptr_putInode (lay : sb.Layout) (ow : Owned sb d L) (hi : Used sb d i) (hy : y.Fits)
    (hindex : y.index = (dinode sb d i).index) (hj : Used sb d j) (hp : IsPath p) :
    ptr sb (putInode sb d i y) j p = ptr sb d j p := by
  have hlt := lay.inode_lt hi.1
  unfold ptr
  apply pointer_congr
  · intro n
    rw [dinode_putInode hy]
    split_ifs with h
    · rw [hindex, h]
    · rfl
  · intro q hq hne
    have hlt' : sb.bmapStart < pointer d (dinode sb d j) q := ow.ptr_lt hj hq.isPath hne
    exact putInode_of_ne (by omega)
  · exact hp

lemma Owned.putInode (lay : sb.Layout) (ow : Owned sb d fun _ => False) (hi : Used sb d i) (hy : y.Fits)
    (hindex : y.index = (dinode sb d i).index) : Owned sb (putInode sb d i y) fun _ => False :=
  ow.congr (fun _ => used_putInode lay) (fun _ => marked_putInode lay hi.1) fun hj hp => ptr_putInode lay ow hi hy hindex hj hp

lemma fileByte_putInode (lay : sb.Layout) (ow : Owned sb d L) (hi : Used sb d i) (hy : y.Fits)
    (hindex : y.index = (dinode sb d i).index) (hj : Used sb d j) (hoff : off / BLOCK_SIZE < MAXBLOCKS) :
    fileByte sb (putInode sb d i y) j off = fileByte sb d j off := by
  have hpath := leafPath_isPath hoff
  have hlt := lay.inode_lt hi.1
  unfold fileByte
  rw [ptr_putInode lay ow hi hy hindex hj hpath]
  split_ifs with hz
  · rfl
  · have hlt' := ow.ptr_lt hj hpath hz
    rw [putInode_of_ne (by omega)]

lemma relink_inode (lay : sb.Layout) (ow : Owned sb d (· = b)) (hi : Used sb d i) (hn : n < INODE_INDEX_3)
    (hb : d b = fun _ => 0) (hzero : (dinode sb d i).index n = 0) :
    Relink sb d (putInode sb d i ((dinode sb d i).setIndex n b)) i [n] b := by
  have hbm := (ow.loose rfl).1
  have hlt := lay.inode_lt hi.1
  have hfits := (dinode_fits sb d i).setIndex hn (hbm.lt_max lay)
  refine ⟨fun j => used_putInode lay, fun c => marked_putInode lay hi.1, fun hj hq => ?_⟩
  refine ptr_relink hzero hbm.ne_zero ?_ ?_ ?_ ?_ hj hq
  · intro e
    have hlt' := hbm.lt
    rw [putInode_of_ne (by omega), hb]
    rfl
  · intro e q he hin
    cases hin <;> simp at he
  · intro j m _
    rw [dinode_putInode hfits]
    by_cases hji : j = i
    · rw [if_pos hji]
      by_cases hm : m = n
      · rw [hm, InodeDisk.setIndex_self, if_pos ⟨hji, rfl⟩]
      · rw [InodeDisk.setIndex_of_ne hm, if_neg (by simp [hm]), hji]
    · rw [if_neg hji, if_neg fun h => hji h.1]
  · intro j q e hj hin hne
    have hlt' := ow.ptr_lt hj hin.isPath hne
    have hlong : ¬(j = i ∧ e :: q = [n]) := by
      rintro ⟨-, he⟩
      cases hin <;> simp at he
    rw [putInode_of_ne (by omega), if_neg hlong]

end Inode

lemma relink_entry (lay : sb.Layout) (ow : Owned sb d (· = b)) (hi : Used sb d i) (hp : IsInner p)
    (hb : d b = fun _ => 0) (hr : ptr sb d i p ≠ 0) (hzero : entry (d (ptr sb d i p)) j = 0) :
    Relink sb d (putEntry d (ptr sb d i p) j b) i (j :: p) b := by
  have hbm := (ow.loose rfl).1
  have hrlt := ow.ptr_lt hi hp.isPath hr
  have hib := lay.ibmap
  have hin := lay.inodes
  have hmeta : ∀ n ≤ sb.bmapStart, putEntry d (ptr sb d i p) j b n = d n := fun n hn => update_of_ne (by omega) _ _
  have hptr : ptr sb d i (j :: p) = 0 := by rw [ptr_cons hp, child_of_ne hr, hzero]
  have hbr : b ≠ ptr sb d i p := fun h => (ow.loose rfl).2 i p hi hp.isPath h.symm
  refine ⟨fun n => used_congr (hmeta _ (by omega)), fun c => marked_congr (hmeta _ le_rfl), fun hn hq => ?_⟩
  refine ptr_relink hptr hbm.ne_zero ?_ ?_ ?_ ?_ hn hq
  · intro e
    unfold putEntry
    rw [update_of_ne hbr, hb]
    rfl
  · intro e q he _
    cases he
    exact hr
  · intro n m hn
    have hlt := lay.inode_lt hn.1
    have htop : ¬(n = i ∧ [m] = j :: p) := by
      rintro ⟨-, he⟩
      cases hp <;> simp at he
    rw [dinode_congr (hmeta _ (by omega)), if_neg htop]
  · intro n q e hn hq hne
    unfold putEntry
    by_cases hsame : ptr sb d n q = ptr sb d i p
    · obtain ⟨rfl, rfl⟩ := ow.inj hn hi hq.isPath hp.isPath hne hsame
      rw [update_self, entry_setEntry _ (hbm.lt_max lay)]
      by_cases he : e = j
      · rw [if_pos he, if_pos ⟨rfl, by rw [he]⟩]
      · rw [if_neg he, if_neg (by simp [he])]
    · have hother : ¬(n = i ∧ e :: q = j :: p) := by
        rintro ⟨rfl, he⟩
        cases he
        exact hsame rfl
      rw [update_of_ne hsame, if_neg hother]

/-! ### Allocation -/

section Alloc

lemma putBlock_of_lt (h : n < sb.bmapStart) : putBlock sb d k n = d n := by
  unfold putBlock
  rw [update_of_ne (by omega), update_of_ne (by omega)]

lemma putBlock_of_gt (h : sb.bmapStart < n) (hne : n ≠ sb.bmapStart + 1 + k) : putBlock sb d k n = d n := by
  unfold putBlock
  rw [update_of_ne hne, update_of_ne (by omega)]

lemma putBlock_self (sb : SuperBlock) (d : Nat → Block) (k : Nat) : putBlock sb d k (sb.bmapStart + 1 + k) = fun _ => 0 :=
  update_self _ _ _

lemma used_putBlock (lay : sb.Layout) : Used sb (putBlock sb d k) i ↔ Used sb d i := by
  have hib := lay.ibmap
  have hin := lay.inodes
  exact used_congr (putBlock_of_lt (by omega))

lemma dinode_putBlock (lay : sb.Layout) (hi : i < sb.ninodes) : dinode sb (putBlock sb d k) i = dinode sb d i :=
  dinode_congr (putBlock_of_lt (lay.inode_lt hi))

lemma putBlock_bitmap (sb : SuperBlock) (d : Nat → Block) (k : Nat) :
    putBlock sb d k sb.bmapStart = setBit k (d sb.bmapStart) := by
  unfold putBlock
  rw [update_of_ne (by omega), update_self]

lemma marked_putBlock (hk : k < sb.nblocks) : Marked sb (putBlock sb d k) c ↔ Marked sb d c ∨ c = sb.bmapStart + 1 + k := by
  unfold Marked
  rw [putBlock_bitmap]
  constructor
  · rintro ⟨m, hm, rfl, hbit⟩
    rw [bit_setBit, Bool.or_eq_true, decide_eq_true_eq] at hbit
    rcases hbit with rfl | hbit
    · exact .inr rfl
    · exact .inl ⟨m, hm, rfl, hbit⟩
  · rintro (⟨m, hm, rfl, hbit⟩ | rfl)
    · exact ⟨m, hm, rfl, by rw [bit_setBit, hbit, Bool.or_true]⟩
    · exact ⟨k, hk, rfl, by rw [bit_setBit, decide_eq_true rfl, Bool.true_or]⟩

lemma not_marked_of_clear (h : bit (d sb.bmapStart) k = false) : ¬Marked sb d (sb.bmapStart + 1 + k) := by
  rintro ⟨m, _, he, hbit⟩
  rw [show m = k by omega, h] at hbit
  cases hbit

section

variable (ow : Owned sb d L) (hclear : bit (d sb.bmapStart) k = false) (hi : Used sb d i) (hp : IsPath p) (h : ptr sb d i p ≠ 0)
include ow hclear hi hp h

lemma Owned.ptr_ne : ptr sb d i p ≠ sb.bmapStart + 1 + k := by
  intro he
  have hm := ow.marked hi hp h
  rw [he] at hm
  exact not_marked_of_clear hclear hm

lemma putBlock_ptr_block : putBlock sb d k (ptr sb d i p) = d (ptr sb d i p) :=
  putBlock_of_gt (ow.ptr_lt hi hp h) (ow.ptr_ne hclear hi hp h)

end

lemma ptr_putBlock (lay : sb.Layout) (ow : Owned sb d L) (hclear : bit (d sb.bmapStart) k = false) (hi : Used sb d i)
    (hp : IsPath p) : ptr sb (putBlock sb d k) i p = ptr sb d i p := by
  unfold ptr
  rw [dinode_putBlock lay hi.1]
  exact pointer_congr (fun _ => rfl) (fun q hq hne => putBlock_ptr_block ow hclear hi hq.isPath hne) hp

lemma Owned.putBlock (lay : sb.Layout) (ow : Owned sb d fun _ => False) (hk : k < sb.nblocks)
    (hclear : bit (d sb.bmapStart) k = false) : Owned sb (putBlock sb d k) (· = sb.bmapStart + 1 + k) := by
  constructor
  · intro j q hj hq hne
    have hj' := (used_putBlock lay).mp hj
    rw [ptr_putBlock lay ow hclear hj' hq] at hne ⊢
    exact (marked_putBlock hk).mpr (.inl (ow.marked hj' hq hne))
  · intro j j' q q' hj hj' hq hq' hne he
    have hu := (used_putBlock lay).mp hj
    have hu' := (used_putBlock lay).mp hj'
    rw [ptr_putBlock lay ow hclear hu hq] at hne he
    rw [ptr_putBlock lay ow hclear hu' hq'] at he
    exact ow.inj hu hu' hq hq' hne he
  · intro c hc
    rcases (marked_putBlock hk).mp hc with hc | rfl
    · right
      rcases ow.owner hc with hf | ⟨j, q, hj, hq, he⟩
      · exact hf.elim
      · exact ⟨j, q, (used_putBlock lay).mpr hj, hq, (ptr_putBlock lay ow hclear hj hq).trans he⟩
    · exact .inl rfl
  · rintro c rfl
    refine ⟨(marked_putBlock hk).mpr (.inr rfl), fun j q hj hq he => ?_⟩
    have hj' := (used_putBlock lay).mp hj
    rw [ptr_putBlock lay ow hclear hj' hq] at he
    by_cases hz : ptr sb d j q = 0
    · omega
    · exact ow.ptr_ne hclear hj' hq hz he

lemma fileByte_putBlock (lay : sb.Layout) (ow : Owned sb d L) (hclear : bit (d sb.bmapStart) k = false) (hi : Used sb d i)
    (hoff : off / BLOCK_SIZE < MAXBLOCKS) : fileByte sb (putBlock sb d k) i off = fileByte sb d i off := by
  have hpath := leafPath_isPath hoff
  unfold fileByte
  rw [ptr_putBlock lay ow hclear hi hpath]
  by_cases hz : ptr sb d i (leafPath (off / BLOCK_SIZE)) = 0
  · rw [if_pos hz, if_pos hz]
  · rw [if_neg hz, if_neg hz, putBlock_ptr_block ow hclear hi hpath hz]

/-- How many blocks can still be allocated. -/
def freeBlocks (sb : SuperBlock) (d : Nat → Block) : Nat :=
  ((Finset.range sb.nblocks).filter fun k => bit (d sb.bmapStart) k = false).card

lemma freeBlocks_congr (h : d' sb.bmapStart = d sb.bmapStart) : freeBlocks sb d' = freeBlocks sb d := by
  unfold freeBlocks
  rw [h]

lemma freeBlocks_putBlock (hk : k < sb.nblocks) (hclear : bit (d sb.bmapStart) k = false) :
    freeBlocks sb (putBlock sb d k) + 1 = freeBlocks sb d := by
  have hmem : k ∈ (Finset.range sb.nblocks).filter fun k => bit (d sb.bmapStart) k = false := by simp [hk, hclear]
  have hset : ((Finset.range sb.nblocks).filter fun k' => bit (putBlock sb d k sb.bmapStart) k' = false) =
      ((Finset.range sb.nblocks).filter fun k => bit (d sb.bmapStart) k = false).erase k := by
    ext m
    rw [putBlock_bitmap]
    simp only [Finset.mem_filter, Finset.mem_range, Finset.mem_erase, bit_setBit, Bool.or_eq_false_iff, decide_eq_false_iff_not]
    tauto
  unfold freeBlocks
  rw [hset, Finset.card_erase_add_one hmem]

lemma freeBlocks_eq_zero (lay : sb.Layout) (h : ∀ k < sb.nblocks, k < 32768 → bit (d sb.bmapStart) k = true) :
    freeBlocks sb d = 0 := by
  have hmax := lay.nblocks
  rw [freeBlocks, Finset.card_eq_zero, Finset.filter_eq_empty_iff]
  intro k hk
  have hlt := Finset.mem_range.mp hk
  rw [h k hlt (by omega)]
  decide

end Alloc

/-! ### Files that grow -/

/-- The block numbers stay at their places. -/
def Kept (sb : SuperBlock) (d d' : Nat → Block) : Prop :=
  ∀ j q, Used sb d j → IsPath q → ptr sb d j q ≠ 0 → ptr sb d' j q = ptr sb d j q

lemma Kept.trans (h : Kept sb d1 d2) (hused : ∀ j, Used sb d2 j ↔ Used sb d1 j) (h' : Kept sb d2 d3) :
    Kept sb d1 d3 := by
  intro j q hj hq hne
  have hsame := h j q hj hq hne
  rw [h' j q ((hused j).mpr hj) hq (by rwa [hsame]), hsame]

lemma Relink.kept (h : Relink sb d d' i p b) (hzero : Fs.ptr sb d i p = 0) : Kept sb d d' := by
  intro j q hj hq hne
  rw [h.ptr hj hq, if_neg]
  rintro ⟨rfl, rfl⟩
  exact hne hzero

/-- The files are the same, except that the inode `i` may have got blocks. -/
structure Grows (sb : SuperBlock) (d d' : Nat → Block) (i : Nat) : Prop where
  used : ∀ j, Used sb d' j ↔ Used sb d j
  other : ∀ j, Used sb d j → j ≠ i → dinode sb d' j = dinode sb d j
  self : dinode sb d' i = { dinode sb d i with index := (dinode sb d' i).index }
  bytes : ∀ j off, Used sb d j → off / BLOCK_SIZE < MAXBLOCKS → fileByte sb d' j off = fileByte sb d j off
  kept : Kept sb d d'

lemma Grows.refl (sb : SuperBlock) (d : Nat → Block) (i : Nat) : Grows sb d d i :=
  ⟨fun _ => Iff.rfl, fun _ _ _ => rfl, rfl, fun _ _ _ _ => rfl, fun _ _ _ _ _ => rfl⟩

lemma Grows.trans (h : Grows sb d1 d2 i) (h' : Grows sb d2 d3 i) : Grows sb d1 d3 i := by
  constructor
  · exact fun j => (h'.used j).trans (h.used j)
  · exact fun j hj hne => (h'.other j ((h.used j).mpr hj) hne).trans (h.other j hj hne)
  · rw [h'.self, h.self]
  · exact fun j off hj hoff => (h'.bytes j off ((h.used j).mpr hj) hoff).trans (h.bytes j off hj hoff)
  · exact h.kept.trans h.used h'.kept

lemma grows_putBlock (lay : sb.Layout) (ow : Owned sb d L) (hclear : bit (d sb.bmapStart) k = false) (hi : Used sb d i) :
    Grows sb d (putBlock sb d k) i := by
  constructor
  · exact fun j => used_putBlock lay
  · exact fun j hj _ => dinode_putBlock lay hj.1
  · rw [dinode_putBlock lay hi.1]
  · exact fun j off hj hoff => fileByte_putBlock lay ow hclear hj hoff
  · exact fun j q hj hq _ => ptr_putBlock lay ow hclear hj hq

/-! ### Room for a file -/

/-- A place in a file and the index blocks above it. -/
def nodes : List Nat → Finset (List Nat)
  | [] => ∅
  | j :: p => insert (j :: p) (nodes p)

/-- The places among `N` that have no block. -/
def lacking (sb : SuperBlock) (d : Nat → Block) (i : Nat) (N : Finset (List Nat)) : Finset (List Nat) :=
  N.filter fun p => ptr sb d i p = 0

/-- Every block that was used up has filled a place among `N`. -/
def Budget (sb : SuperBlock) (d d' : Nat → Block) (i : Nat) (N : Finset (List Nat)) : Prop :=
  (lacking sb d' i N).card + freeBlocks sb d ≤ (lacking sb d i N).card + freeBlocks sb d'

variable {N : Finset (List Nat)}

lemma self_mem_nodes (j : Nat) (p : List Nat) : j :: p ∈ nodes (j :: p) := Finset.mem_insert_self _ _

lemma nodes_cons_subset (j : Nat) (p : List Nat) : nodes p ⊆ nodes (j :: p) := Finset.subset_insert _ _

lemma card_nodes_le (p : List Nat) : (nodes p).card ≤ p.length := by
  induction p with
  | nil => exact le_rfl
  | cons j p ih => exact (Finset.card_insert_le _ _).trans (Nat.succ_le_succ ih)

lemma IsPath.of_mem_nodes (hp : IsPath p) (h : q ∈ nodes p) : IsPath q := by
  revert h
  refine IsPath.induct (motive := fun p => q ∈ nodes p → IsPath q) ?_ ?_ hp
  · intro n hn hne h
    rw [nodes, Finset.mem_insert] at h
    rcases h with rfl | h
    · exact .top hn hne
    · exact (Finset.notMem_empty _ h).elim
  · intro j p hin hj ih h
    rw [nodes, Finset.mem_insert] at h
    rcases h with rfl | h
    · exact hin.cons hj
    · exact ih h

lemma ptr_ne_zero_of_mem_nodes (hp : IsPath p) (hne : ptr sb d i p ≠ 0) (h : q ∈ nodes p) : ptr sb d i q ≠ 0 := by
  revert hne h
  refine IsPath.induct (motive := fun p => ptr sb d i p ≠ 0 → q ∈ nodes p → ptr sb d i q ≠ 0) ?_ ?_ hp
  · intro n _ _ hne h
    rw [nodes, Finset.mem_insert] at h
    rcases h with rfl | h
    · exact hne
    · exact (Finset.notMem_empty _ h).elim
  · intro j p hin _ ih hne h
    rw [nodes, Finset.mem_insert] at h
    rcases h with rfl | h
    · exact hne
    · refine ih (fun hz => hne ?_) h
      rw [ptr_cons hin, hz, child_zero]

lemma card_lacking_pos (hp : p ∈ N) (hz : ptr sb d i p = 0) : 1 ≤ (lacking sb d i N).card :=
  Finset.card_pos.mpr ⟨p, Finset.mem_filter.mpr ⟨hp, hz⟩⟩

namespace Budget

lemma refl (sb : SuperBlock) (d : Nat → Block) (i : Nat) (N : Finset (List Nat)) : Budget sb d d i N := le_rfl

lemma trans (h : Budget sb d1 d2 i N) (h' : Budget sb d2 d3 i N) : Budget sb d1 d3 i N := by
  unfold Budget at *
  omega

lemma of_ptr (hptr : ∀ q ∈ N, ptr sb d' i q = ptr sb d i q) (hfree : freeBlocks sb d' = freeBlocks sb d) : Budget sb d d' i N := by
  have hsame : lacking sb d' i N = lacking sb d i N := Finset.filter_congr fun q hq => by rw [hptr q hq]
  unfold Budget
  rw [hsame, hfree]

lemma room (h : Budget sb d d' i N) (hlt : freeBlocks sb d' < (lacking sb d' i N).card) : freeBlocks sb d < (lacking sb d i N).card := by
  unfold Budget at h
  omega

lemma of_link (hp : p ∈ N) (hold : ptr sb d i p = 0) (hnew : ptr sb d' i p ≠ 0)
    (hother : ∀ q ∈ N, q ≠ p → ptr sb d' i q = ptr sb d i q) (hfree : freeBlocks sb d ≤ freeBlocks sb d' + 1) :
    Budget sb d d' i N := by
  have hset : lacking sb d' i N = (lacking sb d i N).erase p := by
    ext q
    rw [Finset.mem_erase, lacking, lacking, Finset.mem_filter, Finset.mem_filter]
    by_cases hq : q = p
    · subst hq
      simp [hnew]
    · constructor
      · rintro ⟨hN, hz⟩
        exact ⟨hq, hN, (hother q hN hq).symm.trans hz⟩
      · rintro ⟨-, hN, hz⟩
        exact ⟨hN, (hother q hN hq).trans hz⟩
  have hmem : p ∈ lacking sb d i N := Finset.mem_filter.mpr ⟨hp, hold⟩
  have hcard := Finset.card_erase_add_one hmem
  unfold Budget
  rw [hset]
  omega

end Budget

end Glenda.Fs
