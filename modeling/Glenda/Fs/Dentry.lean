import Glenda.Fs.References
import Glenda.Fs.FileIo

/-!
# Directory entries

Model of `fs/dentry.rs`. A directory is a file of records of 64 bytes: a name of 60 bytes, padded with zeros, and the number of
an inode. A record whose name starts with a zero is free. Each function scans the records from the start of the file.
-/

namespace Glenda.Fs
open Glenda.Lib

abbrev DENTRY_SIZE : Nat := 64

def isLive (buf : Block) : Bool := buf 0 != 0

/-- The name of a record against `name`, of which 60 bytes count. -/
def nameMatches (buf : Block) (name : List UInt8) : Bool := (List.range MAXLEN_FILENAME).all fun i => buf i == name.getD i 0

def isEntry (name : List UInt8) (buf : Block) : Bool := isLive buf && nameMatches buf name

def dentryInum (buf : Block) : Nat := leNat 4 buf MAXLEN_FILENAME

def newDentry (name : List UInt8) (inum : Nat) : Block := fun i =>
  if i < MAXLEN_FILENAME then name.getD i 0 else byteOf inum (i - MAXLEN_FILENAME)

/-- A `u32` as an `i32`. -/
def asI32 (v : Nat) : Int := if v < 2 ^ 31 then v else v - 2 ^ 32

section Model

variable {σ : Type} (P : Profile) (B : BlockStore σ Block) (sb : SuperBlock)

/-- The loop over the records of a directory of `size` bytes up to one that satisfies `p`. It gives up at a record that cannot
be read in full. -/
def scanFrom (k : Slot) (size : Nat) (p : Block → Bool) : Nat → Nat → Block → K (FsState σ) (Option (Nat × Block))
  | 0, _, _ => throw .diverge
  | fuel + 1, off, buf =>
    if off < size then do
      let (read, buf) ← inodeReadData P B sb k off DENTRY_SIZE DENTRY_SIZE buf
      if read ≠ DENTRY_SIZE then return none
      else if p buf then return some (off, buf)
      else
        let next ← addW P 32 off DENTRY_SIZE
        scanFrom k size p fuel next buf
    else return none

def scanDentries (k : Slot) (p : Block → Bool) : K (FsState σ) (Option (Nat × Block)) := do
  let size := (← getInode k).disk.size
  scanFrom P B sb k size p (size / DENTRY_SIZE + 2) 0 fun _ => 0

def dentrySearch (k : Slot) (name : List UInt8) : K (FsState σ) (Option Nat) := do
  match ← scanDentries P B sb k (isEntry name) with
  | some (_, buf) => return some (dentryInum buf)
  | none => return none

def dentryCreate (k : Slot) (targetInum : Nat) (name : List UInt8) : K (FsState σ) Int := do
  if (← dentrySearch P B sb k name).isSome then return -1
  else
    let size := (← getInode k).disk.size
    let targetOff := ((← scanDentries P B sb k fun buf => !isLive buf).map Prod.fst).getD size
    if (← inodeWriteData P B sb k targetOff DENTRY_SIZE DENTRY_SIZE (newDentry name targetInum)) ≠ DENTRY_SIZE then return -1
    else return 0

def dentryDelete (k : Slot) (name : List UInt8) : K (FsState σ) Int := do
  match ← scanDentries P B sb k (isEntry name) with
  | some (off, buf) =>
    let _ ← inodeWriteData P B sb k off DENTRY_SIZE DENTRY_SIZE fun _ => 0
    return asI32 (dentryInum buf)
  | none => return -1

/-- The loop of `dentry_print`, without what it prints. -/
def dentryPrint (k : Slot) : K (FsState σ) Unit := do let _ ← scanDentries P B sb k fun _ => false

end Model

/-! ### Records -/

section Records

variable (sb : SuperBlock) (d : Nat → Block) (i : Nat)

def record (j : Nat) : Block := fun q => fileByte sb d i (DENTRY_SIZE * j + q)

/-- The first record that satisfies `p`. -/
def findRecord (p : Block → Bool) : Option Nat :=
  (List.range ((dinode sb d i).size / DENTRY_SIZE)).find? fun j => p (record sb d i j)

/-- The inode number under a name. -/
def lookup (name : List UInt8) : Option Nat := (findRecord sb d i (isEntry name)).map fun j => dentryInum (record sb d i j)

end Records

/-- What is said of a record depends on its bytes. -/
def OfRecord (p : Block → Bool) : Prop := ∀ b b' : Block, (∀ q < DENTRY_SIZE, b q = b' q) → p b = p b'

variable {sb : SuperBlock} {d d' : Nat → Block} {m : FsMem} {k : Slot} {i j n inum : Nat} {name : List UInt8} {p : Block → Bool}
  {b : Block}

lemma nameMatches_iff : nameMatches b name = true ↔ ∀ q < MAXLEN_FILENAME, b q = name.getD q 0 := by
  unfold nameMatches
  simp

lemma ofRecord_isLive : OfRecord isLive := by
  intro b b' h
  unfold isLive
  rw [h 0 (by decide)]

lemma ofRecord_isEntry (name : List UInt8) : OfRecord (isEntry name) := by
  intro b b' h
  have hname : nameMatches b name = nameMatches b' name := by
    rw [Bool.eq_iff_iff, nameMatches_iff, nameMatches_iff]
    have hq : ∀ q < MAXLEN_FILENAME, b q = b' q := fun q hlt => h q (hlt.trans (by decide))
    constructor
    · exact fun hb q hlt => (hq q hlt).symm.trans (hb q hlt)
    · exact fun hb q hlt => (hq q hlt).trans (hb q hlt)
  unfold isEntry
  rw [ofRecord_isLive b b' h, hname]

lemma OfRecord.not (h : OfRecord p) : OfRecord fun b => !p b := fun b b' hb => congrArg _ (h b b' hb)

lemma dentryInum_congr {b' : Block} (h : ∀ q < DENTRY_SIZE, b q = b' q) : dentryInum b = dentryInum b' := by
  refine leNat_congr fun q _ hlt => h q ?_
  unfold MAXLEN_FILENAME at hlt
  omega

lemma findRecord_eq_some : findRecord sb d i p = some j ↔
    p (record sb d i j) = true ∧ DENTRY_SIZE * j + DENTRY_SIZE ≤ (dinode sb d i).size ∧
      ∀ j' < j, p (record sb d i j') = false := by
  have hlt : j < (dinode sb d i).size / DENTRY_SIZE ↔ DENTRY_SIZE * j + DENTRY_SIZE ≤ (dinode sb d i).size := by
    unfold DENTRY_SIZE
    omega
  unfold findRecord
  rw [List.find?_range_eq_some, List.mem_range, hlt]
  simp

lemma findRecord_eq_none : findRecord sb d i p = none ↔
    ∀ j, DENTRY_SIZE * j + DENTRY_SIZE ≤ (dinode sb d i).size → p (record sb d i j) = false := by
  have hlt : ∀ j, j < (dinode sb d i).size / DENTRY_SIZE ↔ DENTRY_SIZE * j + DENTRY_SIZE ≤ (dinode sb d i).size := by
    intro j
    unfold DENTRY_SIZE
    omega
  unfold findRecord
  rw [List.find?_eq_none]
  simp only [List.mem_range, hlt, Bool.not_eq_true]

/-! ### The scans -/

/-- The result of a scan is the first record of its kind. -/
def Found (sb : SuperBlock) (d : Nat → Block) (i : Nat) (p : Block → Bool) : Option (Nat × Block) → Prop
  | none => findRecord sb d i p = none
  | some (off, buf) => ∃ j, findRecord sb d i p = some j ∧ off = DENTRY_SIZE * j ∧ ∀ q < DENTRY_SIZE, buf q = record sb d i j q

section Spec

variable {σ : Type} {P : Profile} {B : BlockStore σ Block} {cap : Nat} {Rep : σ → (Nat → Block) → List (Nat × Nat) → Prop}
  {t : FsState σ} {E : Panic → Prop} {fuel : Nat} {buf : Block} {N : Finset (List Nat)}

section

variable (L : B.Lawful cap Rep) (hc : 1 < cap) (h : Rests Rep sb t d m) (hk : 0 < (m.inodes k).refcnt)
include L hc h hk

lemma inodeReadData_last (hbig : MAXOFFSET < (dinode sb d (m.inodes k).inodeNum).size) :
    (inodeReadData P B sb k MAXOFFSET DENTRY_SIZE DENTRY_SIZE buf).Ends t DataPanic fun _ _ => False := by
  have hi := h.coherent.used k hk
  have hsize := (dinode_fits sb d (m.inodes k).inodeNum).size
  have L' := fsStore_lawful L m
  refine getInode_bind h.at_ ?_
  rw [h.coherent.disk k hk]
  dsimp only
  rw [if_neg (by omega), addW_of_lt P (by decide), pure_bind]
  generalize hlen : (if (dinode sb d (m.inodes k).inodeNum).size < MAXOFFSET + DENTRY_SIZE then
    (dinode sb d (m.inodes k).inodeNum).size - MAXOFFSET else DENTRY_SIZE) = len
  have hpos : 0 < len ∧ MAXOFFSET + len < 2 ^ 32 := by
    rw [← hlen]
    unfold MAXOFFSET DENTRY_SIZE at *
    split_ifs with hlt
    · omega
    · omega
  rw [addW_of_lt P hpos.2, pure_bind]
  refine .bind (Q := fun _ _ => False) ?_ fun _ _ _ hf => hf.elim
  unfold readFrom
  rw [if_pos (by omega)]
  cases P with
  | dev =>
    rw [chunk_overflow le_rfl (by decide)]
    exact .throw .overflow
  | release =>
    have hchunk : (chunk .release MAXOFFSET (MAXOFFSET + len) : K (FsState σ) Nat) = pure BLOCK_SIZE := rfl
    rw [hchunk, pure_bind]
    refine .bind (locate_ends L h.layout hc h.owned hi (h.coherent.holds hk) h.at_ (div_lt_maxBlocks (by decide))) ?_
    rintro o t1 - ⟨hr1, -⟩
    cases o with
    | none => exact .panicIf_bind (fun _ => .wildAccess) fun hno => (hno (by decide)).elim
    | some blk =>
      refine L'.read_bind hr1 (by simp) (Nat.zero_lt_of_lt hc) fun b t2 hr2 => L'.load_bind hr2 List.mem_cons_self ?_
      exact .panicIf_bind (fun _ => .wildAccess) fun hno => (hno (by decide)).elim

lemma scanFrom_ends (hp : OfRecord p) (hbig : MAXOFFSET < (dinode sb d (m.inodes k).inodeNum).size → ∀ e, DataPanic e → E e)
    (hj : DENTRY_SIZE * j ≤ MAXOFFSET) (hle : j ≤ (dinode sb d (m.inodes k).inodeNum).size / DENTRY_SIZE + 1)
    (hfuel : (dinode sb d (m.inodes k).inodeNum).size / DENTRY_SIZE + 1 < fuel + j)
    (hnone : ∀ j' < j, p (record sb d (m.inodes k).inodeNum j') = false) :
    (scanFrom P B sb k (dinode sb d (m.inodes k).inodeNum).size p fuel (DENTRY_SIZE * j) buf).Ends t E fun r t' =>
      Rests Rep sb t' d m ∧ Found sb d (m.inodes k).inodeNum p r := by
  have hi := h.coherent.used k hk
  have hend : ∀ j, (dinode sb d (m.inodes k).inodeNum).size < DENTRY_SIZE * j + DENTRY_SIZE →
      (∀ j' < j, p (record sb d (m.inodes k).inodeNum j') = false) → findRecord sb d (m.inodes k).inodeNum p = none := by
    intro j hlt hall
    refine findRecord_eq_none.mpr fun j' hj' => hall j' ?_
    unfold DENTRY_SIZE at hlt hj'
    omega
  induction fuel generalizing j t buf with
  | zero => omega
  | succ fuel ih =>
    unfold scanFrom
    by_cases hlt : DENTRY_SIZE * j < (dinode sb d (m.inodes k).inodeNum).size
    · rw [if_pos hlt]
      by_cases hlast : DENTRY_SIZE * j = MAXOFFSET
      · rw [hlast] at hlt ⊢
        exact .bind ((inodeReadData_last L hc h hk hlt).imp (hbig hlt)) fun _ _ _ hf => hf.elim
      · have hmax : DENTRY_SIZE * j + DENTRY_SIZE ≤ MAXOFFSET := by
          unfold DENTRY_SIZE MAXOFFSET at *
          omega
        have hsum : DENTRY_SIZE * j + DENTRY_SIZE < 2 ^ 32 := by
          unfold MAXOFFSET at hmax
          omega
        refine .bind (inodeReadData_ends buf L h.layout hc h.owned hi (h.coherent.holds hk) h.at_ le_rfl hsum
          (.inr ((Nat.min_le_left _ _).trans hmax))) ?_
        rintro ⟨read, buf'⟩ t1 - ⟨hr1, hread, hbuf⟩
        dsimp only at hread hbuf ⊢
        have h1 : Rests Rep sb t1 d m := ⟨h.toTidy, hr1⟩
        by_cases hshort : read = DENTRY_SIZE
        · have hfits : DENTRY_SIZE * j + DENTRY_SIZE ≤ (dinode sb d (m.inodes k).inodeNum).size := by omega
          have hrec : ∀ q < DENTRY_SIZE, buf' q = record sb d (m.inodes k).inodeNum j q := by
            intro q hq
            rw [hbuf, hshort]
            unfold blit
            rw [if_pos ⟨Nat.zero_le q, by omega⟩, Nat.sub_zero]
            rfl
          rw [if_neg (by simpa using hshort), hp buf' _ hrec]
          cases hpj : p (record sb d (m.inodes k).inodeNum j) with
          | true =>
            rw [if_pos rfl]
            exact .pure ⟨h1, j, findRecord_eq_some.mpr ⟨hpj, hfits, hnone⟩, rfl, hrec⟩
          | false =>
            have hnext : j + 1 ≤ (dinode sb d (m.inodes k).inodeNum).size / DENTRY_SIZE + 1 := by
              unfold DENTRY_SIZE at hfits ⊢
              omega
            rw [if_neg (by simp), addW_of_lt P hsum, pure_bind]
            refine ih h1 hmax hnext (by omega) fun j' hj' => ?_
            rcases Nat.lt_succ_iff_lt_or_eq.mp hj' with hj' | rfl
            · exact hnone j' hj'
            · exact hpj
        · rw [if_pos hshort]
          exact .pure ⟨h1, hend j (by omega) hnone⟩
    · rw [if_neg hlt]
      refine .pure ⟨h, hend j ?_ hnone⟩
      unfold DENTRY_SIZE at hlt ⊢
      omega

lemma scanDentries_ends (hp : OfRecord p) (hbig : MAXOFFSET < (dinode sb d (m.inodes k).inodeNum).size → ∀ e, DataPanic e → E e) :
    (scanDentries P B sb k p).Ends t E fun r t' => Rests Rep sb t' d m ∧ Found sb d (m.inodes k).inodeNum p r := by
  refine getInode_bind h.at_ ?_
  rw [h.coherent.disk k hk]
  exact scanFrom_ends L hc h hk hp hbig (Nat.zero_le _) (Nat.zero_le _) (by omega) fun j' hj' => by omega

theorem dentrySearch_ends (hbig : MAXOFFSET < (dinode sb d (m.inodes k).inodeNum).size → ∀ e, DataPanic e → E e) :
    (dentrySearch P B sb k name).Ends t E fun r t' => Rests Rep sb t' d m ∧ r = lookup sb d (m.inodes k).inodeNum name := by
  refine .bind (scanDentries_ends L hc h hk (ofRecord_isEntry name) hbig) ?_
  rintro r t1 - ⟨h1, hfound⟩
  unfold lookup
  cases r with
  | none =>
    rw [hfound]
    exact .pure ⟨h1, rfl⟩
  | some r =>
    obtain ⟨j, hj, -, hrec⟩ := hfound
    rw [hj]
    exact .pure ⟨h1, congrArg some (dentryInum_congr hrec)⟩

theorem dentryPrint_ends (hbig : MAXOFFSET < (dinode sb d (m.inodes k).inodeNum).size → ∀ e, DataPanic e → E e) :
    (dentryPrint P B sb k).Ends t E fun _ t' => Rests Rep sb t' d m := by
  refine .bind (scanDentries_ends L hc h hk (fun _ _ _ => rfl) hbig) ?_
  rintro r t1 - ⟨h1, -⟩
  exact .pure h1

end

/-- Where `dentry_create` puts an entry: in the first free record, or at the end. -/
def targetOff (sb : SuperBlock) (d : Nat → Block) (i : Nat) : Nat :=
  match findRecord sb d i fun b => !isLive b with
  | some j => DENTRY_SIZE * j
  | none => (dinode sb d i).size

lemma targetOff_le (sb : SuperBlock) (d : Nat → Block) (i : Nat) : targetOff sb d i ≤ (dinode sb d i).size := by
  unfold targetOff
  cases hf : findRecord sb d i fun b => !isLive b with
  | none => exact le_rfl
  | some j =>
    have hfits := (findRecord_eq_some.mp hf).2.1
    dsimp only
    omega

lemma fileNodes_subset {off stop last : Nat} (h : stop ≤ last) : fileNodes off stop ⊆ fileNodes 0 last := by
  intro q hq
  obtain ⟨o, -, hlt, hmem⟩ := mem_fileNodes.mp hq
  exact mem_fileNodes.mpr ⟨o, Nat.zero_le o, hlt.trans_le h, hmem⟩

section

variable (L : B.Lawful cap Rep) (hc : 1 < cap) (h : Rests Rep sb t d m) (hk : 0 < (m.inodes k).refcnt)
include L hc h hk

lemma dentryCreate_bind {R : Int → FsState σ → Prop}
    (hbig : MAXOFFSET < (dinode sb d (m.inodes k).inodeNum).size → ∀ e, DataPanic e → E e)
    (hsome : (lookup sb d (m.inodes k).inodeNum name).isSome → ∀ t', Rests Rep sb t' d m → R (-1) t')
    (hnone : lookup sb d (m.inodes k).inodeNum name = none → ∀ t', Rests Rep sb t' d m →
      (inodeWriteData P B sb k (targetOff sb d (m.inodes k).inodeNum) DENTRY_SIZE DENTRY_SIZE (newDentry name inum) >>= fun n =>
        if n ≠ DENTRY_SIZE then pure (-1) else pure 0).Ends t' E R) :
    (dentryCreate P B sb k inum name).Ends t E R := by
  refine .bind (dentrySearch_ends L hc h hk hbig) ?_
  rintro r t1 - ⟨h1, rfl⟩
  cases hl : lookup sb d (m.inodes k).inodeNum name with
  | some v =>
    rw [if_pos (show (some v).isSome = true from rfl)]
    exact .pure (hsome (by rw [hl]; rfl) t1 h1)
  | none =>
    rw [if_neg (by simp)]
    refine getInode_bind h1.at_ ?_
    rw [h.coherent.disk k hk]
    refine .bind (scanDentries_ends L hc h1 hk ofRecord_isLive.not hbig) ?_
    rintro r t2 - ⟨h2, hfound⟩
    have hoff : (r.map Prod.fst).getD (dinode sb d (m.inodes k).inodeNum).size = targetOff sb d (m.inodes k).inodeNum := by
      unfold targetOff
      cases r with
      | none =>
        rw [show findRecord sb d (m.inodes k).inodeNum (fun b => !isLive b) = none from hfound]
        rfl
      | some r =>
        obtain ⟨j, hj, hoff, -⟩ := hfound
        rw [hj]
        exact hoff
    dsimp only
    rw [hoff]
    exact hnone hl t2 h2

theorem dentryCreate_edits :
    (dentryCreate P B sb k inum name).Ends t DataPanic fun _ t' => ∃ d' m', Rests Rep sb t' d' m' ∧ Refd m m' [] ∧
      Edits sb d d' (m.inodes k).inodeNum := by
  have hsize := (dinode_fits sb d (m.inodes k).inodeNum).size
  refine dentryCreate_bind L hc h hk (fun _ _ he => he) (fun _ t' h' => ⟨d, m, h', .refl m, .refl h.owned _⟩) fun _ t1 h1 => ?_
  refine .bind (inodeWriteData_edits L hc h1 hk ((targetOff_le sb d _).trans_lt hsize)) fun n t2 _ hend => ?_
  split_ifs with hn
  · exact .pure hend
  · exact .pure hend

/-- A name that is not there gets its record. The block for it is taken from the places `N` of the directory. -/
theorem dentryCreate_ends (hmax : (dinode sb d (m.inodes k).inodeNum).size + DENTRY_SIZE ≤ MAXOFFSET) (hN : ∀ q ∈ N, IsPath q)
    (hsub : fileNodes 0 ((dinode sb d (m.inodes k).inodeNum).size + DENTRY_SIZE) ⊆ N)
    (hfull : freeBlocks sb d < (lacking sb d (m.inodes k).inodeNum N).card → E .outOfBlocks) :
    (dentryCreate P B sb k inum name).Ends t E fun r t' =>
      ((lookup sb d (m.inodes k).inodeNum name).isSome ∧ r = -1 ∧ Rests Rep sb t' d m) ∨
      (lookup sb d (m.inodes k).inodeNum name = none ∧ r = 0 ∧ ∃ d' m', Rests Rep sb t' d' m' ∧ Refd m m' [] ∧
        WroteData sb d d' (m.inodes k).inodeNum (targetOff sb d (m.inodes k).inodeNum) DENTRY_SIZE (newDentry name inum) ∧
        Budget sb d d' (m.inodes k).inodeNum N) := by
  have hle := targetOff_le sb d (m.inodes k).inodeNum
  have hoff : targetOff sb d (m.inodes k).inodeNum < 2 ^ 32 := by
    unfold MAXOFFSET at hmax
    omega
  refine dentryCreate_bind L hc h hk (fun hbig => by omega) (fun hs t' h' => .inl ⟨hs, rfl, h'⟩) fun hl t1 h1 => ?_
  refine .bind (inodeWriteData_wrote _ L hc h1 hk le_rfl hoff (.inr (by omega)) hN ((fileNodes_subset (by omega)).trans hsub) hfull) ?_
  rintro n t2 - ⟨rfl, d', m', h2, hrefs, hw, hbud⟩
  rw [if_neg (by simp)]
  exact .pure (.inr ⟨hl, rfl, d', m', h2, hrefs, hw, hbud⟩)

theorem dentryDelete_edits :
    (dentryDelete P B sb k name).Ends t DataPanic fun _ t' => ∃ d' m', Rests Rep sb t' d' m' ∧ Refd m m' [] ∧
      Edits sb d d' (m.inodes k).inodeNum := by
  have hsize := (dinode_fits sb d (m.inodes k).inodeNum).size
  refine .bind (scanDentries_ends L hc h hk (ofRecord_isEntry name) fun _ _ he => he) ?_
  rintro r t1 - ⟨h1, hfound⟩
  cases r with
  | none => exact .pure ⟨d, m, h1, .refl m, .refl h.owned _⟩
  | some r =>
    obtain ⟨j, hj, hoff, -⟩ := hfound
    have hfits := (findRecord_eq_some.mp hj).2.1
    exact .bind (inodeWriteData_edits L hc h1 hk (by omega)) fun _ t2 _ hend => .pure hend

/-- The record of a name is cleared. -/
theorem dentryDelete_ends (hmax : (dinode sb d (m.inodes k).inodeNum).size ≤ MAXOFFSET) (hN : ∀ q ∈ N, IsPath q)
    (hsub : fileNodes 0 (dinode sb d (m.inodes k).inodeNum).size ⊆ N)
    (hfull : freeBlocks sb d < (lacking sb d (m.inodes k).inodeNum N).card → E .outOfBlocks) :
    (dentryDelete P B sb k name).Ends t E fun r t' =>
      (lookup sb d (m.inodes k).inodeNum name = none ∧ r = -1 ∧ Rests Rep sb t' d m) ∨
      ∃ j d' m', findRecord sb d (m.inodes k).inodeNum (isEntry name) = some j ∧
        r = asI32 (dentryInum (record sb d (m.inodes k).inodeNum j)) ∧ Rests Rep sb t' d' m' ∧ Refd m m' [] ∧
        WroteData sb d d' (m.inodes k).inodeNum (DENTRY_SIZE * j) DENTRY_SIZE (fun _ => 0) ∧ Budget sb d d' (m.inodes k).inodeNum N := by
  refine .bind (scanDentries_ends L hc h hk (ofRecord_isEntry name) fun hbig => by omega) ?_
  rintro r t1 - ⟨h1, hfound⟩
  cases r with
  | none =>
    refine .pure (.inl ⟨?_, rfl, h1⟩)
    unfold lookup
    rw [show findRecord sb d (m.inodes k).inodeNum (isEntry name) = none from hfound]
    rfl
  | some r =>
    obtain ⟨j, hj, hoff, hrec⟩ := hfound
    have hfits := (findRecord_eq_some.mp hj).2.1
    dsimp only
    rw [hoff, dentryInum_congr hrec]
    refine .bind (inodeWriteData_wrote _ L hc h1 hk le_rfl ?_ (.inr (by omega)) hN ((fileNodes_subset hfits).trans hsub) hfull) ?_
    · unfold DENTRY_SIZE MAXOFFSET at *
      omega
    · rintro - t2 - ⟨-, d', m', h2, hrefs, hw, hbud⟩
      exact .pure (.inr ⟨j, d', m', hj, rfl, h2, hrefs, hw, hbud⟩)

end

end Spec

end Glenda.Fs
