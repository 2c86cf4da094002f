import Glenda.Fs.Dentry
import Glenda.Fs.InodeRuns
import Glenda.Lib.Slots

/-!
# A directory is a map

A directory whose records have distinct names stands for a map from the first 60 bytes of a name to the number of an inode.
`dentry_create`, `dentry_search` and `dentry_delete` answer as this map does.
-/

namespace Glenda.Fs
open Glenda.Lib

inductive DirOp
  | create (inum : Nat) (name : List UInt8)
  | search (name : List UInt8)
  | delete (name : List UInt8)

inductive DirAnswer
  | code (c : Int)
  | found (o : Option Nat)

def first60 (f : Nat → UInt8) : List UInt8 := (List.range MAXLEN_FILENAME).map f

/-- The part of a name that counts. -/
def nameKey (name : List UInt8) : List UInt8 := first60 (name.getD · 0)

namespace DirOp

def exec {σ : Type} (P : Profile) (B : BlockStore σ Block) (sb : SuperBlock) (k : Slot) : DirOp → K (FsState σ) DirAnswer
  | .create inum name => do return .code (← dentryCreate P B sb k inum name)
  | .search name => do return .found (← dentrySearch P B sb k name)
  | .delete name => do return .code (← dentryDelete P B sb k name)

/-- A name does not start with a zero, and the number of an inode is a `u32`. -/
def Typed : DirOp → Prop
  | .create inum name => inum < 2 ^ 32 ∧ name.getD 0 0 ≠ 0
  | _ => True

variable (D : List UInt8 → Option Nat)

/-- What the map `D` answers. -/
def answer : DirOp → DirAnswer
  | .create _ name => .code (if (D (nameKey name)).isSome then -1 else 0)
  | .search name => .found (D (nameKey name))
  | .delete name => .code ((D (nameKey name)).elim (-1) asI32)

def apply : DirOp → List UInt8 → Option Nat
  | .create inum name => if (D (nameKey name)).isSome then D else Function.update D (nameKey name) (some inum)
  | .search _ => D
  | .delete name => Function.update D (nameKey name) none

end DirOp

def answers : (List UInt8 → Option Nat) → List DirOp → List DirAnswer
  | _, [] => []
  | D, op :: ops => op.answer D :: answers (op.apply D) ops

/-- The name and the number in a record, if it is in use. -/
def entryOf (b : Block) : Option (List UInt8 × Nat) := if isLive b then some (first60 b, dentryInum b) else none

def slot (sb : SuperBlock) (d : Nat → Block) (i j : Nat) : Option (List UInt8 × Nat) :=
  if DENTRY_SIZE * j + DENTRY_SIZE ≤ (dinode sb d i).size then entryOf (record sb d i j) else none

/-- The records fill the inode, have distinct names and stand for the map `D`. -/
structure Dir (sb : SuperBlock) (d : Nat → Block) (i : Nat) (D : List UInt8 → Option Nat) : Prop where
  whole : DENTRY_SIZE ∣ (dinode sb d i).size
  distinct : Distinct (slot sb d i)
  denotes : Denotes (slot sb d i) D

variable {sb : SuperBlock} {d d' : Nat → Block} {i j inum v : Nat} {name : List UInt8} {b b' src : Block} {D : List UInt8 → Option Nat}

lemma entryOf_congr (h : ∀ q < DENTRY_SIZE, b q = b' q) : entryOf b = entryOf b' := by
  have hname : first60 b = first60 b' := List.map_congr_left fun q hq => h q ((List.mem_range.mp hq).trans (by decide))
  unfold entryOf
  rw [ofRecord_isLive b b' h, hname, dentryInum_congr h]

lemma entryOf_eq_some : entryOf b = some (nameKey name, v) ↔ isEntry name b = true ∧ dentryInum b = v := by
  have hname : nameMatches b name = true ↔ first60 b = nameKey name := by
    rw [nameMatches_iff]
    unfold nameKey first60
    rw [List.map_inj_left]
    simp
  unfold isEntry entryOf
  rw [Bool.and_eq_true, hname]
  split_ifs with hlive
  · simp [hlive]
  · simp [hlive]

lemma entryOf_newDentry (hname : name.getD 0 0 ≠ 0) (hinum : inum < 2 ^ 32) :
    entryOf (newDentry name inum) = some (nameKey name, inum) := by
  have hbyte : ∀ q < MAXLEN_FILENAME, newDentry name inum q = name.getD q 0 := fun q hq => if_pos hq
  have hlive : isLive (newDentry name inum) = true := by
    unfold isLive
    rw [hbyte 0 (by decide)]
    simpa using hname
  have hkey : first60 (newDentry name inum) = nameKey name := List.map_congr_left fun q hq => hbyte q (List.mem_range.mp hq)
  have hbytes : ∀ q < 4, newDentry name inum (MAXLEN_FILENAME + q) = UInt8.ofNat (inum / 256 ^ q) := by
    intro q _
    unfold newDentry
    rw [if_neg (by omega), Nat.add_sub_cancel_left]
    rfl
  unfold entryOf dentryInum
  rw [if_pos hlive, hkey, leNat_eq hbytes, Nat.mod_eq_of_lt (show inum < 256 ^ 4 from hinum)]

lemma WroteData.slot_eq (hw : WroteData sb d d' i (DENTRY_SIZE * j) DENTRY_SIZE src) (hwhole : DENTRY_SIZE ∣ (dinode sb d i).size)
    (hj : DENTRY_SIZE * j ≤ (dinode sb d i).size) (hmax : DENTRY_SIZE * j + DENTRY_SIZE ≤ 2 ^ 32) :
    slot sb d' i = Function.update (slot sb d i) j (entryOf src) := by
  have hsize : (dinode sb d' i).size = max (dinode sb d i).size (DENTRY_SIZE * j + DENTRY_SIZE) := by rw [hw.self]
  have hlt := (dinode_fits sb d i).size
  obtain ⟨n, hn⟩ := hwhole
  funext a
  unfold slot
  by_cases ha : a = j
  · subst ha
    rw [Function.update_self, hsize, if_pos (le_max_right _ _)]
    refine entryOf_congr fun q hq => ?_
    unfold record
    rw [hw.bytes _ (div_lt_maxBlocks (by omega))]
    unfold blit
    rw [if_pos (by omega), Nat.add_sub_cancel_left, Nat.zero_add]
  · have hiff : DENTRY_SIZE * a + DENTRY_SIZE ≤ (dinode sb d' i).size ↔ DENTRY_SIZE * a + DENTRY_SIZE ≤ (dinode sb d i).size := by
      rw [hsize, hn]
      rw [hn] at hj
      unfold DENTRY_SIZE at *
      omega
    rw [Function.update_of_ne ha]
    refine ite_congr (propext hiff) (fun hle => entryOf_congr fun q hq => ?_) fun _ => rfl
    unfold record
    rw [hw.bytes _ (div_lt_maxBlocks (by omega))]
    unfold blit
    rw [if_neg (by unfold DENTRY_SIZE at *; omega)]

namespace Dir

lemma lookup_eq (h : Dir sb d i D) : lookup sb d i name = D (nameKey name) := by
  unfold lookup
  cases hf : findRecord sb d i (isEntry name) with
  | some a =>
    obtain ⟨he, hle, -⟩ := findRecord_eq_some.mp hf
    exact ((h.denotes _ _).mpr ⟨a, (if_pos hle).trans (entryOf_eq_some.mpr ⟨he, rfl⟩)⟩).symm
  | none =>
    cases hD : D (nameKey name) with
    | none => rfl
    | some v =>
      obtain ⟨a, ha⟩ := (h.denotes _ _).mp hD
      unfold slot at ha
      split_ifs at ha with hle
      have he := (entryOf_eq_some.mp ha).1
      rw [findRecord_eq_none.mp hf a hle] at he
      cases he

lemma wrote (h : Dir sb d i D) {D' : List UInt8 → Option Nat} (hw : WroteData sb d d' i (DENTRY_SIZE * j) DENTRY_SIZE src)
    (hdistinct : Distinct (Function.update (slot sb d i) j (entryOf src)))
    (hdenotes : Denotes (Function.update (slot sb d i) j (entryOf src)) D')
    (hj : DENTRY_SIZE * j ≤ (dinode sb d i).size) (hmax : DENTRY_SIZE * j + DENTRY_SIZE ≤ 2 ^ 32) : Dir sb d' i D' := by
  rw [← hw.slot_eq h.whole hj hmax] at hdistinct hdenotes
  refine ⟨?_, hdistinct, hdenotes⟩
  rw [hw.self]
  exact max_rec' _ h.whole ⟨j + 1, rfl⟩

lemma created (h : Dir sb d i D) (hmax : (dinode sb d i).size + DENTRY_SIZE ≤ MAXOFFSET) (hname : name.getD 0 0 ≠ 0)
    (hinum : inum < 2 ^ 32) (hnone : D (nameKey name) = none)
    (hw : WroteData sb d d' i (targetOff sb d i) DENTRY_SIZE (newDentry name inum)) :
    Dir sb d' i (Function.update D (nameKey name) (some inum)) := by
  have hle := targetOff_le sb d i
  have hfree : ∃ j, targetOff sb d i = DENTRY_SIZE * j ∧ slot sb d i j = none := by
    unfold targetOff slot
    cases hf : findRecord sb d i fun b => !isLive b with
    | none =>
      obtain ⟨n, hn⟩ := h.whole
      exact ⟨n, hn, if_neg (by rw [hn]; unfold DENTRY_SIZE; omega)⟩
    | some j =>
      obtain ⟨hdead, hfits, -⟩ := findRecord_eq_some.mp hf
      exact ⟨j, rfl, (if_pos hfits).trans (if_neg (by simpa using hdead))⟩
  obtain ⟨j, hoff, hj⟩ := hfree
  rw [hoff] at hw hle
  refine h.wrote hw ?_ ?_ hle (by unfold MAXOFFSET at hmax; omega)
  · rw [entryOf_newDentry hname hinum]
    refine h.distinct.insert fun a v ha => ?_
    rw [(h.denotes _ _).mpr ⟨a, ha⟩] at hnone
    cases hnone
  · rw [entryOf_newDentry hname hinum]
    exact h.denotes.insert hj hnone

lemma deleted (h : Dir sb d i D) (hj : findRecord sb d i (isEntry name) = some j)
    (hw : WroteData sb d d' i (DENTRY_SIZE * j) DENTRY_SIZE fun _ => 0) : Dir sb d' i (Function.update D (nameKey name) none) := by
  obtain ⟨he, hle, -⟩ := findRecord_eq_some.mp hj
  have hsize := (dinode_fits sb d i).size
  exact h.wrote hw h.distinct.erase (h.denotes.erase h.distinct ((if_pos hle).trans (entryOf_eq_some.mpr ⟨he, rfl⟩))) (by omega) (by omega)

end Dir

section Spec

variable {σ : Type} {P : Profile} {B : BlockStore σ Block} {cap : Nat} {Rep : σ → (Nat → Block) → List (Nat × Nat) → Prop}
  {t : FsState σ} {m : FsMem} {k : Slot} {N : Finset (List Nat)} {op : DirOp} {ops : List DirOp} {E : Panic → Prop}

section

variable (L : B.Lawful cap Rep) (hc : 1 < cap) (h : Rests Rep sb t d m) (hk : 0 < (m.inodes k).refcnt) (hi : (m.inodes k).inodeNum = i)
  (hdir : Dir sb d i D)
include L hc h hk hi hdir

lemma DirOp.exec_ends (hop : op.Typed) (hmax : (dinode sb d i).size + DENTRY_SIZE ≤ MAXOFFSET)
    (hN : ∀ q ∈ N, IsPath q) (hsub : fileNodes 0 ((dinode sb d i).size + DENTRY_SIZE) ⊆ N)
    (hfull : freeBlocks sb d < (lacking sb d i N).card → E .outOfBlocks) :
    (op.exec P B sb k).Ends t E fun r t' => r = op.answer D ∧ ∃ d' m', Rests Rep sb t' d' m' ∧ Refd m m' [] ∧ Budget sb d d' i N ∧
      Dir sb d' i (op.apply D) ∧ (dinode sb d' i).size ≤ (dinode sb d i).size + DENTRY_SIZE := by
  subst hi
  have hgrow : ∀ {d' off src}, WroteData sb d d' (m.inodes k).inodeNum off DENTRY_SIZE src → off ≤ (dinode sb d (m.inodes k).inodeNum).size →
      (dinode sb d' (m.inodes k).inodeNum).size ≤ (dinode sb d (m.inodes k).inodeNum).size + DENTRY_SIZE := by
    intro d' off src hw hoff
    rw [hw.self]
    exact max_le (Nat.le_add_right _ _) (Nat.add_le_add_right hoff _)
  cases op with
  | create inum name =>
    refine .bind (dentryCreate_ends L hc h hk hmax hN hsub hfull) ?_
    unfold answer apply
    dsimp only
    rw [hdir.lookup_eq]
    rintro r t' - (⟨hs, rfl, h'⟩ | ⟨hnone, rfl, d', m', h', hrefs, hw, hbud⟩)
    · rw [if_pos hs, if_pos hs]
      exact .pure ⟨rfl, d, m, h', .refl m, .refl .., hdir, Nat.le_add_right _ _⟩
    · rw [hnone]
      exact .pure ⟨rfl, d', m', h', hrefs, hbud, hdir.created hmax hop.2 hop.1 hnone hw, hgrow hw (targetOff_le ..)⟩
  | search name =>
    refine .bind (dentrySearch_ends L hc h hk fun hbig => by omega) ?_
    rintro r t' - ⟨h', rfl⟩
    exact .pure ⟨congrArg _ hdir.lookup_eq, d, m, h', .refl m, .refl .., hdir, Nat.le_add_right _ _⟩
  | delete name =>
    refine .bind (dentryDelete_ends L hc h hk (by omega) hN ((fileNodes_subset (by omega)).trans hsub) hfull) ?_
    unfold answer apply
    dsimp only
    rw [← hdir.lookup_eq]
    rintro r t' - (⟨hnone, rfl, h'⟩ | ⟨j, d', m', hj, rfl, h', hrefs, hw, hbud⟩)
    · have hsame : Function.update D (nameKey name) none = D := by
        rw [← hnone, hdir.lookup_eq, Function.update_eq_self]
      rw [hnone, hsame]
      exact .pure ⟨rfl, d, m, h', .refl m, .refl .., hdir, Nat.le_add_right _ _⟩
    · have hrec := (findRecord_eq_some.mp hj).2.1
      refine .pure ⟨?_, d', m', h', hrefs, hbud, hdir.deleted hj hw, hgrow hw (by omega)⟩
      unfold lookup
      rw [hj]
      rfl

end

end Spec

variable {P : Profile} {t : FsState BufState} {k : Slot} {ops : List DirOp}

end Glenda.Fs
