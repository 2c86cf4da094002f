import Glenda.Fs.Dentry
import Glenda.Fs.InodeRuns

/-!
# Paths

Model of `fs/path.rs`. A position in a path is the rest of the path. The two resolvers walk through directories with one
reference in hand, and take the next one before they put the last one back.
-/

namespace Glenda.Fs
open Glenda.Lib

abbrev SLASH : UInt8 := 47

def getElement (path : List UInt8) : Option (List UInt8 × List UInt8) :=
  let start := path.dropWhile (· == SLASH)
  if start = [] then none else some (start.takeWhile (· != SLASH), start.dropWhile (· != SLASH))

def startInum (cwdInum : Nat) (path : List UInt8) : Nat := if path.head? = some SLASH then ROOT_INODE else cwdInum

/-- `name` in a zeroed buffer of 60 bytes. -/
def nameBuffer (name : List UInt8) : List UInt8 :=
  name.take MAXLEN_FILENAME ++ List.replicate (MAXLEN_FILENAME - name.length) 0

section Model

variable {σ : Type} (P : Profile) (B : BlockStore σ Block) (sb : SuperBlock)

/-- One hop of a walk, from the directory in the slot `k` to its entry `name`. -/
def nextInode (k : Slot) (name : List UInt8) : K (FsState σ) (Option Slot) := do
  if (← getInode k).disk.type_ ≠ INODE_TYPE_DIR then
    inodePut P B sb k
    return none
  else
    match ← dentrySearch P B sb k name with
    | some inum =>
      let next ← inodeGet P B sb inum
      inodePut P B sb k
      return some next
    | none =>
      inodePut P B sb k
      return none

/-- The loop of `path_to_inode_at`. -/
def walk : Nat → List UInt8 → Slot → K (FsState σ) (Option Slot)
  | 0, _, _ => throw .diverge
  | fuel + 1, path, k =>
    match getElement path with
    | none => return some k
    | some (name, rest) => do
      match ← nextInode P B sb k name with
      | some next => walk fuel rest next
      | none => return none

def pathToInodeAt (cwdInum : Nat) (path : List UInt8) : K (FsState σ) (Option Slot) := do
  let k ← inodeGet P B sb (startInum cwdInum path)
  walk P B sb (path.length + 1) path k

/-- The loop of `path_to_parent_inode_at`, with the last element that was read. -/
def walkParent : Nat → List UInt8 → List UInt8 → Slot → K (FsState σ) (Option Slot × List UInt8)
  | 0, _, _, _ => throw .diverge
  | fuel + 1, name, path, k =>
    match getElement path with
    | none => return (some k, nameBuffer name)
    | some (nextName, rest) => do
      match ← nextInode P B sb k name with
      | some next => walkParent fuel nextName rest next
      | none => return (none, List.replicate MAXLEN_FILENAME 0)

/-- The inode of the parent, and the buffer for the name, which all callers pass filled with zeros. -/
def pathToParentInodeAt (cwdInum : Nat) (path : List UInt8) : K (FsState σ) (Option Slot × List UInt8) := do
  let k ← inodeGet P B sb (startInum cwdInum path)
  match getElement path with
  | none => return (some k, List.replicate MAXLEN_FILENAME 0)
  | some (name, rest) => walkParent P B sb (path.length + 1) name rest k

end Model

/-! ### Components -/

/-- The non-empty pieces between slashes. -/
def components (path : List UInt8) : List (List UInt8) := (path.splitOnP (· == SLASH)).filter (· ≠ [])

variable {path name rest : List UInt8}

lemma components_slash (path : List UInt8) : components (SLASH :: path) = components path := by
  unfold components
  rw [List.splitOnP_cons_eq_if_modifyHead, if_pos (by decide), List.filter_cons_of_neg (by simp)]

lemma components_dropWhile (path : List UInt8) : components (path.dropWhile (· == SLASH)) = components path := by
  induction path with
  | nil => rfl
  | cons c path ih =>
    by_cases hc : c = SLASH
    · rw [hc, List.dropWhile_cons_of_pos (by decide), ih, components_slash]
    · rw [List.dropWhile_cons_of_neg (by simpa using hc)]

lemma getElement_eq_none (h : getElement path = none) : components path = [] := by
  unfold getElement at h
  dsimp only at h
  split_ifs at h with hnil
  rw [← components_dropWhile, hnil]
  rfl

lemma components_append (hne : name ≠ []) (hno : ∀ c ∈ name, (c == SLASH) = false)
    (hrest : rest = [] ∨ ∃ tail, rest = SLASH :: tail) : components (name ++ rest) = name :: components rest := by
  rcases hrest with rfl | ⟨tail, rfl⟩
  · unfold components
    rw [List.append_nil, List.splitOnP_eq_singleton hno, List.filter_cons_of_pos (by simpa using hne)]
    rfl
  · rw [components_slash]
    unfold components
    rw [List.splitOnP_append_cons_of_forall_mem hno SLASH (by decide), List.filter_cons_of_pos (by simpa using hne)]

lemma getElement_eq_some (h : getElement path = some (name, rest)) :
    components path = name :: components rest ∧ rest.length < path.length := by
  unfold getElement at h
  dsimp only at h
  split_ifs at h with hnil
  rw [Option.some_inj, Prod.mk.injEq] at h
  obtain ⟨hname, hrest⟩ := h
  have hhead := List.head_dropWhile_not (· == SLASH) hnil
  have hlen : (path.dropWhile (· == SLASH)).length ≤ path.length := (List.dropWhile_suffix _).length_le
  rw [← components_dropWhile path]
  generalize path.dropWhile (· == SLASH) = start at *
  have hsplit : start = name ++ rest := by
    rw [← hname, ← hrest]
    exact List.takeWhile_append_dropWhile.symm
  have hno : ∀ c ∈ name, (c == SLASH) = false := by
    intro c hc
    rw [← hname] at hc
    simpa using List.mem_takeWhile_imp hc
  have hne : name ≠ [] := by
    rw [← hname]
    cases start with
    | nil => exact (hnil rfl).elim
    | cons c tail =>
      rw [List.takeWhile_cons_of_pos (by simpa using hhead)]
      exact List.cons_ne_nil _ _
  have hstop : rest = [] ∨ ∃ tail, rest = SLASH :: tail := by
    cases hr : rest with
    | nil => exact .inl rfl
    | cons c tail =>
      have hc := List.head_dropWhile_not (· != SLASH) (l := start) (by rw [hrest, hr]; exact List.cons_ne_nil _ _)
      simp only [hrest, hr, List.head_cons, bne_eq_false_iff_eq] at hc
      exact .inr ⟨tail, by rw [hc]⟩
  refine ⟨by rw [hsplit, components_append hne hno hstop], ?_⟩
  have hpos := List.length_pos_iff.mpr hne
  rw [hsplit, List.length_append] at hlen
  omega

/-! ### Resolution -/

/-- The inode at the end of the components, which are looked up one after the other in directories. -/
def resolve (sb : SuperBlock) (d : Nat → Block) : Nat → List (List UInt8) → Option Nat
  | i, [] => some i
  | i, name :: names => if (dinode sb d i).type_ = INODE_TYPE_DIR then (lookup sb d i name).bind (resolve sb d · names) else none

/-- A file system that the kernel can work with: every inode in use has a name or a reference, and the entries of directories are
in use. -/
structure WellFormed (sb : SuperBlock) (d : Nat → Block) (m : FsMem) : Prop where
  anchored : ∀ i, Used sb d i → Anchored sb d m i
  root : Used sb d ROOT_INODE
  entries : ∀ i name j, Used sb d i → (dinode sb d i).type_ = INODE_TYPE_DIR → lookup sb d i name = some j → Used sb d j
  sizes : ∀ i, Used sb d i → (dinode sb d i).type_ = INODE_TYPE_DIR → (dinode sb d i).size ≤ MAXOFFSET

/-- Two slots of the inode cache are free. -/
def TwoFree (m : FsMem) : Prop := ∃ a b, a ≠ b ∧ (m.inodes a).refcnt = 0 ∧ (m.inodes b).refcnt = 0

section Spec

variable {σ : Type} {P : Profile} {B : BlockStore σ Block} {cap : Nat} {Rep : σ → (Nat → Block) → List (Nat × Nat) → Prop}
  {sb : SuperBlock} {t : FsState σ} {d : Nat → Block} {m m' : FsMem} {E : Panic → Prop} {k : Slot} {i cwd fuel : Nat}

lemma Refd.room (h : Refd m m' [k]) (htwo : TwoFree m) : ∃ a, (m'.inodes a).refcnt = 0 := by
  obtain ⟨a, b, hne, ha, hb⟩ := htwo
  by_cases hk : a = k
  · refine ⟨b, ?_⟩
    rw [h.refcnt b, hb, List.count_singleton, if_neg (by simpa [← hk] using hne)]
  · refine ⟨a, ?_⟩
    rw [h.refcnt a, ha, List.count_singleton, if_neg (by simpa using Ne.symm hk)]

/-- A walk ends with a reference to the inode `r`, or with none. -/
def Walked (Rep : σ → (Nat → Block) → List (Nat × Nat) → Prop) (sb : SuperBlock) (d : Nat → Block) (m : FsMem) (t : FsState σ)
    (r : Option Nat) : Option Slot → Prop
  | some k => ∃ m', Rests Rep sb t d m' ∧ Refd m m' [k] ∧ r = some (m'.inodes k).inodeNum
  | none => ∃ m', Rests Rep sb t d m' ∧ Refd m m' [] ∧ r = none

lemma resolve_singleton (sb : SuperBlock) (d : Nat → Block) (i : Nat) (name : List UInt8) :
    resolve sb d i [name] = if (dinode sb d i).type_ = INODE_TYPE_DIR then lookup sb d i name else none := by
  rw [resolve]
  congr 1
  cases lookup sb d i name with
  | none => rfl
  | some j => rfl

lemma nextInode_ends (L : B.Lawful cap Rep) (hc : 2 < cap) (wf : WellFormed sb d m) (h : Rests Rep sb t d m')
    (hk : Refd m m' [k]) (hspare : Spare 2 m) (hroom : ¬TwoFree m → E .noFreeInode) :
    (nextInode P B sb k name).Ends t E fun r t' => Walked Rep sb d m t' (resolve sb d (m'.inodes k).inodeNum [name]) r := by
  have hpos := hk.pos List.mem_cons_self
  have hused := h.coherent.used k hpos
  have hput : ∀ {t1 m1 held}, Rests Rep sb t1 d m1 → Refd m m1 (k :: held) → (inodePut P B sb k).Ends t1 E fun _ t' =>
      ∃ m2, Rests Rep sb t' d m2 ∧ Refd m m2 held ∧ ∀ a ∈ held, (m2.inodes a).inodeNum = (m1.inodes a).inodeNum :=
    fun h1 hk1 => inodePut_anchored L hc h1 hk1 (wf.anchored _ (h1.coherent.used k (hk1.pos List.mem_cons_self)))
  have hnone : ∀ {t1}, Rests Rep sb t1 d m' → resolve sb d (m'.inodes k).inodeNum [name] = none →
      (inodePut P B sb k >>= fun _ => pure none).Ends t1 E fun r t' =>
        Walked Rep sb d m t' (resolve sb d (m'.inodes k).inodeNum [name]) r := by
    intro t1 h1 hr
    refine .bind (hput h1 hk) ?_
    rintro - t2 - ⟨m2, h2, hk2, -⟩
    exact .pure ⟨m2, h2, hk2, hr⟩
  refine getInode_bind h.at_ ?_
  rw [h.coherent.disk k hpos]
  by_cases hdir : (dinode sb d (m'.inodes k).inodeNum).type_ = INODE_TYPE_DIR
  · have hmax := wf.sizes _ hused hdir
    rw [if_neg (by simpa using hdir)]
    refine .bind (dentrySearch_ends L (by omega) h hpos fun hbig => by omega) ?_
    rintro r t1 - ⟨h1, rfl⟩
    cases hl : lookup sb d (m'.inodes k).inodeNum name with
    | none => exact hnone h1 (by rw [resolve_singleton, if_pos hdir, hl])
    | some inum =>
      refine .bind (inodeGet_refd L (by omega) h1 (wf.entries _ name inum hused hdir hl) (hk.spare hspare) ?_) ?_
      · intro hfull _
        refine hroom fun htwo => ?_
        obtain ⟨a, ha⟩ := hk.room htwo
        have hpos := hfull a
        omega
      · rintro next t2 - ⟨m2, h2, hk2, hnum⟩
        refine .bind (hput h2 ((hk.cons hk2).perm (List.Perm.swap _ _ _))) ?_
        rintro - t3 - ⟨m3, h3, hk3, hsame⟩
        refine .pure ⟨m3, h3, hk3, ?_⟩
        rw [resolve_singleton, if_pos hdir, hl, hsame next List.mem_cons_self, hnum]
  · rw [if_pos hdir]
    exact hnone h (by rw [resolve_singleton, if_neg hdir])

lemma resolve_cons (sb : SuperBlock) (d : Nat → Block) (i : Nat) (name : List UInt8) (names : List (List UInt8)) :
    resolve sb d i (name :: names) = (resolve sb d i [name]).bind (resolve sb d · names) := by
  rw [resolve, resolve]
  split_ifs with hdir
  · cases lookup sb d i name with
    | none => rfl
    | some j => rfl
  · rfl

section

variable (L : B.Lawful cap Rep) (hc : 2 < cap) (wf : WellFormed sb d m)
include L hc wf

lemma walk_ends (h : Rests Rep sb t d m') (hk : Refd m m' [k])
    (hspare : Spare 2 m) (hroom : ¬TwoFree m → E .noFreeInode) (hfuel : path.length < fuel) :
    (walk P B sb fuel path k).Ends t E fun r t' =>
      Walked Rep sb d m t' (resolve sb d (m'.inodes k).inodeNum (components path)) r := by
  induction fuel generalizing path k t m' with
  | zero => omega
  | succ fuel ih =>
    unfold walk
    cases he : getElement path with
    | none =>
      rw [getElement_eq_none he]
      exact .pure ⟨m', h, hk, rfl⟩
    | some e =>
      obtain ⟨name, rest⟩ := e
      obtain ⟨hcomp, hlen⟩ := getElement_eq_some he
      rw [hcomp, resolve_cons]
      refine .bind (nextInode_ends L hc wf h hk hspare hroom) ?_
      rintro (_ | next) t1 - hwalked
      · obtain ⟨m1, h1, hk1, hres⟩ := hwalked
        rw [hres]
        exact .pure ⟨m1, h1, hk1, rfl⟩
      · obtain ⟨m1, h1, hk1, hres⟩ := hwalked
        rw [hres]
        exact ih h1 hk1 (by omega)

lemma startInode_bind {β : Type} {g : Slot → K (FsState σ) β} {R : β → FsState σ → Prop} (h : Rests Rep sb t d m) (hcwd : Used sb d cwd)
    (hspare : Spare 2 m) (hroom : ¬TwoFree m → E .noFreeInode)
    (hg : ∀ k t' m', Rests Rep sb t' d m' → Refd m m' [k] → (m'.inodes k).inodeNum = startInum cwd path → (g k).Ends t' E R) :
    (inodeGet P B sb (startInum cwd path) >>= g).Ends t E R := by
  have hstart : Used sb d (startInum cwd path) := by
    unfold startInum
    split_ifs with habs
    · exact wf.root
    · exact hcwd
  refine .bind (inodeGet_refd L (by omega) h hstart (fun a => ?_) fun hfull _ => hroom ?_) ?_
  · have hmax := hspare a
    omega
  · rintro ⟨a, -, -, ha, -⟩
    have hpos := hfull a
    omega
  · rintro k t1 - ⟨m1, h1, hk1, hnum⟩
    exact hg k t1 m1 h1 hk1 hnum

theorem pathToInodeAt_ends (h : Rests Rep sb t d m)
    (hcwd : Used sb d cwd) (hspare : Spare 2 m) (hroom : ¬TwoFree m → E .noFreeInode) :
    (pathToInodeAt P B sb cwd path).Ends t E fun r t' =>
      Walked Rep sb d m t' (resolve sb d (startInum cwd path) (components path)) r := by
  refine startInode_bind L hc wf h hcwd hspare hroom fun k t1 m1 h1 hk1 hnum => ?_
  rw [← hnum]
  exact walk_ends L hc wf h1 hk1 hspare hroom (by omega)

end

lemma Walked.rests {r : Option Nat} {o : Option Slot} (h : Walked Rep sb d m t r o) :
    o.map (fun k => (t.mem.inodes k).inodeNum) = r ∧ Rests Rep sb t d t.mem ∧ Refd m t.mem o.toList := by
  cases o with
  | none =>
    obtain ⟨m', h', hrefs, hres⟩ := h
    obtain rfl := h'.at_.1
    exact ⟨hres.symm, h', hrefs⟩
  | some k =>
    obtain ⟨m', h', hrefs, hres⟩ := h
    obtain rfl := h'.at_.1
    exact ⟨hres.symm, h', hrefs⟩

end Spec

/-- Path resolution is lookup component by component. -/
theorem path_resolves {P : Profile} {sb : SuperBlock} {t : FsState BufState} {cwd : Nat} (hs : Mounted sb t)
    (wf : WellFormed sb (blocks t) t.mem) (hcwd : Used sb (blocks t) cwd) (htwo : TwoFree t.mem) (hspare : Spare 2 t.mem)
    (path : List UInt8) : ∃ r t', pathToInodeAt P (cacheStore P) sb cwd path t = .ok (r, t') ∧ Mounted sb t' ∧
      blocks t' = blocks t ∧
      r.map (fun k => (t'.mem.inodes k).inodeNum) = resolve sb (blocks t) (startInum cwd path) (components path) ∧
      Refd t.mem t'.mem r.toList := by
  have hends : (pathToInodeAt P (cacheStore P) sb cwd path).Ends t (fun _ => False) _ :=
    pathToInodeAt_ends (cacheStore_lawful P) (by decide) wf hs hcwd hspare fun hno => hno htwo
  obtain ⟨r, t', he, hwalked⟩ := hends.exists_ok
  cases r with
  | none =>
    obtain ⟨m', h', hrefs, hres⟩ := hwalked
    obtain rfl := h'.at_.1
    exact ⟨none, t', he, h'.mounted, h'.at_.blocks_eq, hres.symm, hrefs⟩
  | some k =>
    obtain ⟨m', h', hrefs, hres⟩ := hwalked
    obtain rfl := h'.at_.1
    exact ⟨some k, t', he, h'.mounted, h'.at_.blocks_eq, hres.symm, hrefs⟩

/-! ### A small tree -/

def rootInode : InodeDisk := ⟨INODE_TYPE_DIR, 0, 0, 2, DENTRY_SIZE, fun n => if n = 0 then 4 else 0⟩

def fileInode : InodeDisk := ⟨INODE_TYPE_DATA, 0, 0, 1, 0, fun _ => 0⟩

/-- The root is a directory with the entry `a`, which is an empty file. -/
def treeDisk : Disk where
  blocks
    | 1 => fun q => if q = 0 then 3 else 0
    | 2 => rootInode.encode 0 (fileInode.encode 64 fun _ => 0)
    | 3 => fun q => if q = 0 then 1 else 0
    | 4 => newDentry [97] 1
    | _ => fun _ => 0
  outcome _ := true

def tree : FsState BufState := ⟨⟨LRUCache.new.init, treeDisk⟩, .new⟩

lemma tree_used {i : Nat} (h : Used smallSb treeDisk.blocks i) : i = 0 ∨ i = 1 := by
  obtain ⟨hlt, hbit⟩ := h
  change i < 4 at hlt
  interval_cases i
  · exact .inl rfl
  · exact .inr rfl
  · exact absurd hbit (by decide)
  · exact absurd hbit (by decide)

lemma tree_root : dinode smallSb treeDisk.blocks 0 = rootInode := by
  refine InodeDisk.decode_encode ⟨by decide, by decide, by decide, by decide, by decide, fun n => ?_, fun n hn => ?_⟩
  · change (if n = 0 then 4 else 0) < 2 ^ 32
    split_ifs
    · decide
    · decide
  · exact if_neg (by unfold INODE_INDEX_3 at hn; omega)

lemma fileInode_fits : fileInode.Fits :=
  ⟨by decide, by decide, by decide, by decide, by decide, fun _ => Nat.two_pow_pos 32, fun _ _ => rfl⟩

lemma tree_file : dinode smallSb treeDisk.blocks 1 = fileInode :=
  (InodeDisk.decode_encode_of_disjoint (.inl (by decide))).trans (InodeDisk.decode_encode fileInode_fits)

lemma tree_ptr {i : Nat} {p : List Nat} (hi : Used smallSb treeDisk.blocks i) (hp : IsPath p) :
    ptr smallSb treeDisk.blocks i p = if i = 0 ∧ p = [0] then 4 else 0 := by
  refine IsPath.induct (motive := fun p => ptr smallSb treeDisk.blocks i p = if i = 0 ∧ p = [0] then 4 else 0) ?_ ?_ hp
  · intro n _ _
    unfold ptr
    rcases tree_used hi with rfl | rfl
    · rw [tree_root]
      simp [rootInode]
    · rw [tree_file]
      rfl
  · intro e q hq _ ih
    have hne : ¬(i = 0 ∧ q = [0]) := by
      rintro ⟨-, rfl⟩
      cases hq
    rw [ptr_cons hq, ih, if_neg hne, child_zero]
    exact (if_neg (by rintro ⟨-, h⟩; cases h; cases hq)).symm

lemma tree_owned : Owned smallSb treeDisk.blocks fun _ => False := by
  constructor
  · intro i p hi hp hne
    rw [tree_ptr hi hp] at hne ⊢
    split_ifs at hne ⊢ with hroot
    · exact ⟨0, by decide, rfl, by decide⟩
    · exact (hne rfl).elim
  · intro i i' p p' hi hi' hp hp' hne he
    rw [tree_ptr hi hp] at hne he
    rw [tree_ptr hi' hp'] at he
    split_ifs at hne he with hroot hroot'
    · exact ⟨hroot.1.trans hroot'.1.symm, hroot.2.trans hroot'.2.symm⟩
    · exact (hne rfl).elim
  · rintro b ⟨n, hn, rfl, hbit⟩
    have hzero : n = 0 := by
      change n < 8 at hn
      revert hbit
      interval_cases n <;> decide
    refine .inr ⟨0, [0], ⟨by decide, by decide⟩, .top (by decide) (by decide), ?_⟩
    rw [tree_ptr ⟨by decide, by decide⟩ (.top (by decide) (by decide)), hzero]
    rfl
  · exact False.elim

lemma tree_mounted : Mounted smallSb tree := by
  have hnone : ∀ k, ¬0 < (tree.mem.inodes k).refcnt := fun _ => Nat.lt_irrefl 0
  refine ⟨⟨smallSb_layout, tree_owned, ?_⟩, rfl, stored_init treeDisk fun _ => rfl⟩
  exact ⟨fun k hk => (hnone k hk).elim, fun k hk => (hnone k hk).elim, fun k hk => (hnone k hk).elim,
    fun k _ hk => (hnone k hk).elim⟩

lemma tree_wellFormed : WellFormed smallSb (blocks tree) tree.mem := by
  have hdir : ∀ {i}, Used smallSb (blocks tree) i → (dinode smallSb (blocks tree) i).type_ = INODE_TYPE_DIR → i = 0 := by
    intro i hi htype
    rcases tree_used hi with rfl | rfl
    · rfl
    · rw [show dinode smallSb (blocks tree) 1 = fileInode from tree_file] at htype
      cases htype
  have hroot : dinode smallSb (blocks tree) 0 = rootInode := tree_root
  constructor
  · intro i hi
    left
    rcases tree_used hi with rfl | rfl
    · rw [hroot]
      decide
    · rw [show dinode smallSb (blocks tree) 1 = fileInode from tree_file]
      decide
  · exact ⟨by decide, by decide⟩
  · intro i name j hi htype hl
    obtain rfl := hdir hi htype
    obtain ⟨a, ha, rfl⟩ := Option.map_eq_some_iff.mp hl
    have hfits := (findRecord_eq_some.mp ha).2.1
    rw [hroot] at hfits
    change 64 * a + 64 ≤ 64 at hfits
    obtain rfl : a = 0 := by omega
    have hinum : dentryInum (record smallSb (blocks tree) 0 0) = 1 := by decide +kernel
    rw [hinum]
    exact ⟨by decide, by decide⟩
  · intro i hi htype
    obtain rfl := hdir hi htype
    rw [hroot]
    decide

theorem path_resolves_tree : ∃ k t', pathToInodeAt .dev (cacheStore .dev) smallSb 1 [SLASH, SLASH, 97, SLASH] tree =
    .ok (some k, t') ∧ (t'.mem.inodes k).inodeNum = 1 ∧ blocks t' = blocks tree ∧ Refd tree.mem t'.mem [k] := by
  have htwo : TwoFree tree.mem := ⟨0, 1, by decide, rfl, rfl⟩
  obtain ⟨r, t', he, -, hblocks, hres, hrefs⟩ := path_resolves (P := .dev) tree_mounted tree_wellFormed
    (show Used smallSb (blocks tree) 1 from ⟨by decide, by decide⟩) htwo (fun _ => show 0 + 2 < 2 ^ 32 by decide) [SLASH, SLASH, 97, SLASH]
  have hone : resolve smallSb (blocks tree) (startInum 1 [SLASH, SLASH, 97, SLASH]) (components [SLASH, SLASH, 97, SLASH]) = some 1 := by
    decide +kernel
  rw [hone] at hres
  obtain ⟨k, rfl, hk⟩ := Option.map_eq_some_iff.mp hres
  exact ⟨k, t', he, hk, hblocks, hrefs⟩

def crowdedSb : SuperBlock := ⟨0x10203040, 12, 8, 64, 2, 3⟩

/-- The inodes 0 to 50 are in use. All but the last one have no name. -/
def crowdedDisk : Disk where
  blocks
    | 1 => fun q => if q < 6 then 0xFF else if q = 6 then 7 else 0
    | 2 => fileInode.encode 3200 fun _ => 0
    | _ => fun _ => 0
  outcome _ := true

/-- The inode cache is full. -/
def crowded : FsState BufState := ⟨⟨LRUCache.new.init, crowdedDisk⟩, ⟨fun k => ⟨.zero, true, k, 1⟩, fun _ => .new⟩⟩

lemma crowded_layout : crowdedSb.Layout := ⟨by decide, by decide, show 12 < 2 ^ 32 by decide, by decide, by decide⟩

lemma crowded_used {i : Nat} (h : Used crowdedSb (blocks crowded) i) : i < 51 := by
  obtain ⟨hlt, hbit⟩ := h
  by_contra hge
  change i < 64 at hlt
  have hclear : ∀ j < 64, 51 ≤ j → bit (blocks crowded (crowdedSb.inodeStart - 1)) j = false := by decide
  rw [hclear i hlt (by omega)] at hbit
  cases hbit

lemma crowded_dinode {i : Nat} (h : i < 51) : dinode crowdedSb (blocks crowded) i = if i = 50 then fileInode else .zero := by
  have hblock : blocks crowded (crowdedSb.inodeStart + i / IPB) = fileInode.encode 3200 fun _ => 0 := by
    have hdiv : i / IPB = 0 := Nat.div_eq_of_lt (h.trans (by decide))
    rw [hdiv]
    rfl
  have hmod : i % IPB = i := Nat.mod_eq_of_lt (h.trans (by decide))
  unfold dinode
  rw [hblock, hmod]
  split_ifs with hlast
  · rw [hlast]
    exact InodeDisk.decode_encode fileInode_fits
  · rw [InodeDisk.decode_encode_of_disjoint (.inr (by omega))]
    unfold InodeDisk.decode InodeDisk.zero
    simp only [leNat_zero, ite_self]

lemma crowded_mounted : Mounted crowdedSb crowded := by
  refine ⟨⟨crowded_layout, ?_, ?_⟩, rfl, stored_init crowdedDisk fun _ => rfl⟩
  · apply owned_of_index
    · intro i hi n
      rw [crowded_dinode (crowded_used hi)]
      split_ifs
      · rfl
      · rfl
    · rintro b ⟨n, hn, -, hbit⟩
      revert hbit
      revert n
      decide
  · have hused : ∀ k : Slot, Used crowdedSb (blocks crowded) k := by
      intro k
      have hset : ∀ j < 51, bit (blocks crowded (crowdedSb.inodeStart - 1)) j = true := by decide
      exact ⟨k.isLt.trans (by decide), hset k (k.isLt.trans (by decide))⟩
    refine ⟨fun _ _ => rfl, fun k _ => hused k, fun k _ => ?_, fun k k' _ _ he => Fin.ext he⟩
    change InodeDisk.zero = dinode crowdedSb (blocks crowded) k
    rw [crowded_dinode (k.isLt.trans (by decide)), if_neg (Nat.ne_of_lt k.isLt)]

lemma crowded_wellFormed : WellFormed crowdedSb (blocks crowded) crowded.mem := by
  have htype : ∀ {i}, Used crowdedSb (blocks crowded) i → (dinode crowdedSb (blocks crowded) i).type_ ≠ INODE_TYPE_DIR := by
    intro i hi
    rw [crowded_dinode (crowded_used hi)]
    split_ifs
    · decide
    · decide
  refine ⟨fun i hi => ?_, ⟨by decide, by decide⟩, fun i _ _ hi h => (htype hi h).elim, fun i hi h => (htype hi h).elim⟩
  have hlt := crowded_used hi
  by_cases hlast : i = 50
  · left
    rw [crowded_dinode hlt, if_pos hlast]
    decide
  · right
    exact ⟨⟨i, by unfold N_INODE; omega⟩, Nat.one_pos, rfl⟩

/-- Without a free slot a path cannot be resolved. -/
theorem path_crowded : Mounted crowdedSb crowded ∧ WellFormed crowdedSb (blocks crowded) crowded.mem ∧
    Used crowdedSb (blocks crowded) 50 ∧ resolve crowdedSb (blocks crowded) (startInum 50 []) (components []) = some 50 ∧
    ∀ P, (pathToInodeAt P (cacheStore P) crowdedSb 50 []).run' crowded = .error .noFreeInode := by
  refine ⟨crowded_mounted, crowded_wellFormed, ⟨by decide, by decide⟩, by decide, fun P => ?_⟩
  cases P with
  | dev => decide +kernel
  | release => decide +kernel

end Glenda.Fs
