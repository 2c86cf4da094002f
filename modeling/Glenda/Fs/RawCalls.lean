import Glenda.Fs.Descriptors

/-!
# System calls on inode numbers

Model of the `sys_inode_*` and `sys_dentry_*` functions of `syscall/fs.rs` that name an inode by its number. Each of them takes a
reference for the time of the call.
-/

namespace Glenda.Fs
open Glenda.Lib Glenda.Mem

section Model

variable {σ : Type} (P : Profile) (B : BlockStore σ Block) (sb : SuperBlock)

def sysInodeCreate (a0 a1 a2 : Nat) : K (FsState σ) Nat := do
  let k ← inodeCreate P B sb (a0 % 2 ^ 16) (a1 % 2 ^ 16) (a2 % 2 ^ 16)
  return (← getInode k).inodeNum

def sysInodeDup (a0 : Nat) : K (FsState σ) Nat := do
  let k ← inodeGet P B sb (a0 % 2 ^ 32)
  inodeDup P k
  let rc := (← getInode k).refcnt
  inodePut P B sb k
  return rc

def sysInodePut (a0 : Nat) : K (FsState σ) Nat := do
  let k ← inodeGet P B sb (a0 % 2 ^ 32)
  inodePut P B sb k
  return 0

def sysInodeSetNlink (a0 a1 : Nat) : K (FsState σ) Nat := do
  let k ← inodeGet P B sb (a0 % 2 ^ 32)
  updateInode P B sb k ({ · with nlink := a1 % 2 ^ 16 })
  inodePut P B sb k
  return 0

def sysInodeGetRefcnt (a0 : Nat) : K (FsState σ) Nat := do
  let m := (← get).mem
  match (List.finRange N_INODE).find? fun k => 0 < (m.inodes k).refcnt && (m.inodes k).inodeNum == a0 % 2 ^ 32 with
  | some k => return (m.inodes k).refcnt
  | none => return 0

end Model

/-! ### References to a created inode -/

inductive RawOp
  | dup
  | put
  | setNlink (nlink : Nat)
  deriving DecidableEq

namespace RawOp

def exec {σ : Type} (P : Profile) (B : BlockStore σ Block) (sb : SuperBlock) (i : Nat) : RawOp → K (FsState σ) Nat
  | .dup => sysInodeDup P B sb i
  | .put => sysInodePut P B sb i
  | .setNlink nlink => sysInodeSetNlink P B sb i nlink

/-- The calls of a program, one after the other. -/
def execAll {σ : Type} (P : Profile) (B : BlockStore σ Block) (sb : SuperBlock) (i : Nat) : List RawOp → K (FsState σ) Unit
  | [] => return ()
  | op :: ops => do
    let _ ← op.exec P B sb i
    execAll P B sb i ops

/-- The link count that was set last. -/
def lastNlink : List RawOp → Option Nat
  | [] => none
  | .setNlink n :: ops => (lastNlink ops).or (some (n % 2 ^ 16))
  | _ :: ops => lastNlink ops

end RawOp

variable {P : Profile} {sb : SuperBlock} {t t' t₀ : FsState BufState} {k : Slot} {i r : Nat} {ops : List RawOp} {E : Panic → Prop} {β : Type}
  {R : β → FsState BufState → Prop}

/-- An inode with `r` references. -/
structure RawInode (sb : SuperBlock) (t : FsState BufState) (k : Slot) (i r : Nat) : Prop where
  mounted : Mounted sb t
  refcnt : (t.mem.inodes k).refcnt = r
  num : (t.mem.inodes k).inodeNum = i
  pos : 0 < r
  max : r + 1 < 2 ^ 32

namespace RawInode

section

variable (h : RawInode sb t k i r)
include h

lemma held : 0 < (t.mem.inodes k).refcnt := by
  rw [h.refcnt]
  exact h.pos

lemma used : Used sb (blocks t) i := by
  rw [← h.num]
  exact h.mounted.coherent.used k h.held

lemma mod_eq : i % 2 ^ 32 = i := by
  have hlt := h.used.1
  have hmax := h.mounted.layout.ninodes
  exact Nat.mod_eq_of_lt (by omega)

lemma getRefcnt : sysInodeGetRefcnt i t = .ok (r, t) := by
  have hfind : (List.finRange N_INODE).find? (fun a => decide (0 < (t.mem.inodes a).refcnt) && (t.mem.inodes a).inodeNum == i % 2 ^ 32) = some k := by
    rw [h.mod_eq]
    cases hf : (List.finRange N_INODE).find? fun a => decide (0 < (t.mem.inodes a).refcnt) && (t.mem.inodes a).inodeNum == i with
    | none =>
      have hnot := List.find?_eq_none.mp hf k (List.mem_finRange k)
      simp [h.held, h.num] at hnot
    | some a =>
      have ha := List.find?_some hf
      simp only [Bool.and_eq_true, decide_eq_true_eq, beq_iff_eq] at ha
      rw [h.mounted.coherent.unique a k ha.1 h.held (ha.2.trans h.num.symm)]
  have hget : (get : K (FsState BufState) (FsState BufState)) t = .ok (t, t) := rfl
  unfold sysInodeGetRefcnt
  rw [K.bind_of_ok hget, hfind]
  dsimp only
  rw [h.refcnt]
  rfl

lemma get_bind {g : Slot → K (FsState BufState) β}
    (hg : ∀ t1, Rests Stored sb t1 (blocks t) (t.mem.recount k (r + 1)) → (g k).Ends t1 E R) :
    (inodeGet P (cacheStore P) sb (i % 2 ^ 32) >>= g).Ends t E R := by
  have hco := h.mounted.coherent
  have hlimit : ∀ a, (t.mem.inodes a).inodeNum = i → (t.mem.inodes a).refcnt + 1 < 2 ^ 32 := by
    intro a ha
    by_cases hpos : 0 < (t.mem.inodes a).refcnt
    · rw [hco.unique a k hpos h.held (ha.trans h.num.symm), h.refcnt]
      exact h.max
    · omega
  rw [h.mod_eq]
  refine .bind (inodeGet_ends (cacheStore_lawful P) h.mounted.layout (by decide) hco h.mounted.at_ h.used.1 hlimit fun _ hno =>
    absurd h.num (hno k)) ?_
  rintro a t1 - ⟨hchosen, hr⟩
  have hak : a = k := by
    rcases hchosen with ⟨hpos, hnum⟩ | ⟨-, hnone⟩
    · exact hco.unique a k hpos h.held (hnum.trans h.num.symm)
    · exact absurd h.num (hnone k h.held)
  subst hak
  have htake : t.mem.take a (dinode sb (blocks t) i) i = t.mem.recount a (r + 1) := by
    unfold FsMem.take FsMem.recount
    rw [← h.num, ← hco.disk a h.held, ← hco.valid a h.held, h.refcnt]
  rw [htake] at hr
  exact hg t1 ⟨⟨h.mounted.layout, h.mounted.owned, hco.recount h.held _⟩, hr⟩

end

lemma put_bind {g : Unit → K (FsState BufState) β} {d : Nat → Block} {m : FsMem}
    (h : Rests Stored sb t d m) (hk : (m.inodes k).refcnt = r + 1) (hnum : (m.inodes k).inodeNum = i) (hpos : 0 < r) (hmax : r + 1 < 2 ^ 32)
    (hg : ∀ t1, RawInode sb t1 k i r → blocks t1 = d → (g ()).Ends t1 E R) : (inodePut P (cacheStore P) sb k >>= g).Ends t E R := by
  refine .bind (inodePut_refd (cacheStore_lawful P) (by decide) h (by omega)) ?_
  rintro u t1 - ⟨d', m', h', hput, ⟨-, rfl⟩ | ⟨hlast, -⟩⟩
  · have hmem := h'.at_.1
    have hcount := hput.refcnt k
    rw [List.count_singleton_self, hk] at hcount
    have hheld : 0 < (m'.inodes k).refcnt := by omega
    refine hg t1 ⟨h'.mounted, ?_, ?_, hpos, hmax⟩ h'.at_.blocks_eq
    · rw [hmem]
      omega
    · rw [hmem, ← hput.num k hheld]
      exact hnum
  · have hone := hlast.1
    omega

end RawInode

/-- What a call does to the number of references of the inode. -/
def RawOp.added : RawOp → Nat
  | .dup => 1
  | .put => 0
  | .setNlink _ => 0

lemma RawOp.exec_ends {op : RawOp} (h : RawInode sb t k i r) :
    (op.exec P (cacheStore P) sb i).Ends t (fun _ => True) fun _ t' => RawInode sb t' k i (r + op.added) := by
  have hself := FsMem.recount_self t.mem k (r + 1)
  have hcount : ((t.mem.recount k (r + 1)).inodes k).refcnt = r + 1 := by rw [hself]
  have hnum : ((t.mem.recount k (r + 1)).inodes k).inodeNum = i := by
    rw [hself]
    exact h.num
  cases op with
  | dup =>
    refine h.get_bind fun t1 h1 => ?_
    refine .bind (Q := fun _ t2 => ∃ n, At Stored ((t.mem.recount k (r + 1)).recount k n) t2 (blocks t) [] ∧ (n = r + 2 ∧ n < 2 ^ 32 ∨ n = 0)) ?_ ?_
    · refine getInode_bind h1.at_ ?_
      rw [hcount]
      refine addW_mod (fun _ => trivial) ((modifyMem_ends h1.at_).mono fun _ t2 hr => ⟨_, hr, ?_⟩)
      have hmax := h.max
      omega
    · rintro - t2 - ⟨n, hr, hn⟩
      have hself' := FsMem.recount_self (t.mem.recount k (r + 1)) k n
      refine getInode_bind hr ?_
      rcases hn with ⟨rfl, hlt⟩ | rfl
      · have hheld : 0 < ((t.mem.recount k (r + 1)).inodes k).refcnt := by omega
        have h2 : Rests Stored sb t2 (blocks t) ((t.mem.recount k (r + 1)).recount k (r + 2)) :=
          ⟨⟨h1.layout, h1.owned, h1.coherent.recount hheld _⟩, hr⟩
        refine RawInode.put_bind (r := r + 1) h2 (by rw [hself']) (by rw [hself']; exact hnum) (by omega) hlt fun t3 h3 _ => .pure h3
      · refine .bind (Q := fun _ _ => False) ?_ fun _ _ _ => False.elim
        refine getInode_bind hr (.panicIf_bind (fun _ => trivial) fun hpos => ?_)
        rw [hself'] at hpos
        exact absurd rfl hpos
  | put =>
    refine h.get_bind fun t1 h1 => RawInode.put_bind h1 hcount hnum h.pos h.max fun t2 h2 _ => ?_
    exact .pure h2
  | setNlink nlink =>
    refine h.get_bind fun t1 h1 => ?_
    refine .bind (updateInode_ends (cacheStore_lawful P) (by decide) h1 (by omega) (fun y hy => ?_) fun _ => rfl) ?_
    · exact ⟨hy.type_, hy.major, hy.minor, Nat.mod_lt _ (by decide), hy.size, hy.index, hy.rest⟩
    · rintro - t2 - ⟨d', m', h2, hrefs, -⟩
      have hcount' := hrefs.refcnt k
      rw [List.count_nil, Nat.add_zero, hcount] at hcount'
      refine RawInode.put_bind h2 hcount' ?_ h.pos h.max fun t3 h3 _ => .pure h3
      rw [hrefs.num k (by omega), hnum]

lemma RawOp.execAll_ends (h : RawInode sb t k i r) :
    (RawOp.execAll P (cacheStore P) sb i ops).Ends t (fun _ => True) fun _ t' => RawInode sb t' k i (r + ops.count .dup) := by
  induction ops generalizing t r with
  | nil => exact .pure h
  | cons op ops ih =>
    refine .bind (RawOp.exec_ends h) fun _ t1 _ h1 => (ih h1).mono fun _ t2 h2 => ?_
    have hsum : r + op.added + ops.count .dup = r + (op :: ops).count .dup := by
      rw [List.count_cons]
      cases op with
      | dup => exact Nat.add_right_comm r 1 _
      | put => rfl
      | setNlink n => rfl
    rwa [hsum] at h2

lemma sysInodeCreate_ends {a0 a1 a2 : Nat} (h : Mounted sb t) :
    (sysInodeCreate P (cacheStore P) sb a0 a1 a2).Ends t (fun _ => True) fun i t' => ∃ k, RawInode sb t' k i 1 := by
  have hlt : ∀ a, a % 2 ^ 16 < 2 ^ 16 := fun a => Nat.mod_lt a (by decide)
  refine .bind (inodeCreate_refd (cacheStore_lawful P) (by decide) h (hlt a0) (hlt a1) (hlt a2) (fun _ => trivial) fun _ => trivial) ?_
  rintro k t1 - ⟨i, d', m', h', hrefs, hzero, hnum, -⟩
  have hmem := h'.at_.1
  refine getInode_bind h'.at_ (.pure ⟨k, h'.mounted, ?_, ?_, Nat.one_pos, by decide⟩)
  · rw [hmem, hrefs.refcnt k, hzero, List.count_singleton_self]
  · rw [hmem]

/-- What the calls on a created inode should do: the number of references is the one that was given out and not put back, and the
last one that is put releases an inode whose link count was set to zero. -/
structure CountsRefs (sb : SuperBlock) (i : Nat) (ops : List RawOp) (t : FsState BufState) : Prop where
  refcnt : sysInodeGetRefcnt i t = .ok (1 + ops.count .dup - ops.count .put, t)
  released : ops.count .put = 1 + ops.count .dup → RawOp.lastNlink ops = some 0 → ¬Used sb (blocks t) i

/-- The system calls count references as long as none is put back. A reference from `sys_inode_create` or `sys_inode_dup` cannot be
put back, and the inode is never released. -/
theorem raw_calls_count_iff {a0 a1 a2 : Nat} (h : Mounted sb t) (hcreate : sysInodeCreate P (cacheStore P) sb a0 a1 a2 t = .ok (i, t₀))
    (hrun : RawOp.execAll P (cacheStore P) sb i ops t₀ = .ok ((), t')) (hputs : ops.count .put ≤ 1 + ops.count .dup) :
    (CountsRefs sb i ops t' ↔ .put ∉ ops) ∧ sysInodeGetRefcnt i t' = .ok (1 + ops.count .dup, t') ∧ Used sb (blocks t') i := by
  obtain ⟨k, h₀⟩ := (sysInodeCreate_ends (P := P) h).ok _ _ hcreate
  have h' := (RawOp.execAll_ends (P := P) h₀).ok _ _ hrun
  have hreported := h'.getRefcnt
  refine ⟨⟨fun hcounts hmem => ?_, fun hnone => ?_⟩, hreported, h'.used⟩
  · have hpos := List.count_pos_iff.mpr hmem
    have hsame := hcounts.refcnt
    rw [hreported] at hsame
    simp only [Except.ok.injEq, Prod.mk.injEq, and_true] at hsame
    omega
  · have hzero := List.count_eq_zero.mpr hnone
    refine ⟨?_, fun hall => ?_⟩
    · rw [hzero]
      exact hreported
    · rw [hzero] at hall
      omega

/-- An inode with three references. -/
theorem raw_calls_count_dup : ∃ t₀ t', sysInodeCreate .dev (cacheStore .dev) smallSb 2 0 0 oneFile = .ok (1, t₀) ∧
    RawOp.execAll .dev (cacheStore .dev) smallSb 1 [.dup, .dup] t₀ = .ok ((), t') ∧ CountsRefs smallSb 1 [.dup, .dup] t' := by
  obtain ⟨t', he⟩ := K.exists_of_run' (a := 1) (s := oneFile) (x := do
    let i ← sysInodeCreate .dev (cacheStore .dev) smallSb 2 0 0
    RawOp.execAll .dev (cacheStore .dev) smallSb 1 [.dup, .dup]
    return i) (by decide +kernel)
  obtain ⟨i, t₀, hcreate, he⟩ := K.bind_eq_ok.mp he
  obtain ⟨u, t₁, hrun, he⟩ := K.bind_eq_ok.mp he
  cases he
  exact ⟨t₀, t', hcreate, hrun, (raw_calls_count_iff oneFile_mounted hcreate hrun (by decide)).1.mpr (by decide)⟩

/-- A created inode is not released by putting its only reference. -/
theorem raw_calls_put_nothing : ∃ t₀ t', sysInodeCreate .dev (cacheStore .dev) smallSb 2 0 0 oneFile = .ok (1, t₀) ∧
    RawOp.execAll .dev (cacheStore .dev) smallSb 1 [.setNlink 0, .put] t₀ = .ok ((), t') ∧
    sysInodeGetRefcnt 1 t' = .ok (1, t') ∧ Used smallSb (blocks t') 1 := by
  obtain ⟨t', he⟩ := K.exists_of_run' (a := 1) (s := oneFile) (x := do
    let i ← sysInodeCreate .dev (cacheStore .dev) smallSb 2 0 0
    RawOp.execAll .dev (cacheStore .dev) smallSb 1 [.setNlink 0, .put]
    return i) (by decide +kernel)
  obtain ⟨i, t₀, hcreate, he⟩ := K.bind_eq_ok.mp he
  obtain ⟨u, t₁, hrun, he⟩ := K.bind_eq_ok.mp he
  cases he
  obtain ⟨k, h₀⟩ := (sysInodeCreate_ends (P := .dev) oneFile_mounted).ok _ _ hcreate
  have h' := (RawOp.execAll_ends (P := .dev) h₀).ok _ _ hrun
  exact ⟨t₀, t', hcreate, hrun, h'.getRefcnt, h'.used⟩

end Glenda.Fs
