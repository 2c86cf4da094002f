import Glenda.Fs.Descriptors

/-!
# Seeking

`fs_lseek` adds a signed offset to the start, to the current offset or to the size of a file, all of them as signed numbers of
32 bits.
-/

namespace Glenda.Fs
open Glenda.Lib Glenda.Mem

variable {P : Profile} {sb : SuperBlock} {s s' s₀ : Sys BufState} {m : FsMem} {d : Nat → Block} {f : FileId}
  {k : Slot} {fd o whence : Nat} {off : Int} {E : Panic → Prop}

/-! ### Sums of signed numbers -/

def InI32 (v : Int) : Prop := -2 ^ 31 ≤ v ∧ v < 2 ^ 31

lemma addI32_of_range {a b : Int} (h : InI32 (a + b)) : (addI32 P a b : K (Sys BufState) Int) = pure (a + b) := by
  unfold InI32 at h
  cases P with
  | dev => exact if_pos h
  | release =>
    unfold addI32
    rw [Int.bmod_eq_of_le_mul_two (by omega) (by omega)]

lemma addI32_bind {α : Type} {a b : Int} {g : Int → K (Sys BufState) α} {R : α → Sys BufState → Prop}
    (hE : ¬InI32 (a + b) → P = .release ∨ E .overflow)
    (hg : ∀ v, InI32 v → v = a + b ∨ ¬InI32 (a + b) ∧ P = .release → (g v).Ends s E R) : (addI32 P a b >>= g).Ends s E R := by
  by_cases h : InI32 (a + b)
  · rw [addI32_of_range h, pure_bind]
    exact hg _ h (.inl rfl)
  · cases P with
    | dev =>
      have hthrow : (addI32 .dev a b : K (Sys BufState) Int) = throw .overflow := if_neg h
      rw [hthrow]
      exact .throw ((hE h).resolve_left nofun)
    | release =>
      refine hg _ ⟨?_, ?_⟩ (.inr ⟨h, rfl⟩)
      · exact Int.le_bmod (by decide)
      · exact Int.bmod_lt (by decide)

/-! ### One call -/

lemma seekTo_ends {v : Int} (hw : Working sb m f k s.fs d o) (hv : InI32 v) : (seekTo f v).Ends s E fun r s' =>
    r = (if v < 0 then none else some v.toNat) ∧ Working sb m f k s'.fs d (r.getD o) ∧ s'.proc = s.proc ∧ s'.ph = s.ph := by
  unfold seekTo
  split_ifs with hneg
  · exact .pure ⟨rfl, hw, rfl, rfl⟩
  · have hlt : v.toNat < 2 ^ 32 := by
      unfold InI32 at hv
      omega
    exact onFs_bind (hw.setOff hlt) fun _ t hw1 => .pure ⟨rfl, hw1, rfl, rfl⟩

/-- What an offset is added to. -/
def seekBase (s : Sys BufState) (f : FileId) (k : Slot) : Nat → Nat
  | 0 => 0
  | 1 => (s.fs.mem.files f).off
  | _ => (s.fs.mem.inodes k).disk.size

lemma fsLseek_ends (h : Opened sb s fd f k) (hmax : (s.fs.mem.inodes k).refcnt + 1 < 2 ^ 32 ∨ ∀ e, E e) (hoff : InI32 off)
    (hwh : whence ≤ 2) (hE : ¬InI32 (asI32 (seekBase s f k whence) + off) → P = .release ∨ E .overflow) :
    (fsLseek P (cacheStore P) sb fd off whence).Ends s E fun r s' => (s.fs.mem.inodes k).refcnt + 1 < 2 ^ 32 ∧
      (∃ v, (v = asI32 (seekBase s f k whence) + off ∨ ¬InI32 (asI32 (seekBase s f k whence) + off) ∧ P = .release) ∧ InI32 v ∧
        r = if v < 0 then none else some v.toNat) ∧
      Working sb s.fs.mem f k s'.fs (blocks s.fs) (r.getD (s.fs.mem.files f).off) ∧ s'.proc = s.proc ∧ s'.ph = s.ph := by
  refine getProc_bind ?_
  rw [h.fd]
  refine onFs_getFile ?_
  refine h.bracket (x := fun a => onFs (getInode a)) hmax (Q := fun x s' d o => x.disk = (s.fs.mem.inodes k).disk ∧
    d = blocks s.fs ∧ o = (s.fs.mem.files f).off ∧ s'.proc = s.proc ∧ s'.ph = s.ph) (fun r t hw => ?_) ?_
  · have hdisk : (t.mem.inodes k).disk = (s.fs.mem.inodes k).disk := by
      rw [hw.at_.1, FsMem.setOff_inodes, FsMem.setDisk_self, FsMem.recount_self]
      exact (h.mounted.coherent.disk k h.held).symm
    exact .of_ok rfl ⟨_, _, hw, hdisk, rfl, rfl, rfl, rfl⟩
  · rintro x s' t d o ⟨hdisk, rfl, rfl, hproc, hph⟩ hw hlt
    have hseek : ∀ {v}, InI32 v → (v = asI32 (seekBase s f k whence) + off ∨
        ¬InI32 (asI32 (seekBase s f k whence) + off) ∧ P = .release) → (seekTo f v).Ends { s' with fs := t } E fun r s' =>
          (s.fs.mem.inodes k).refcnt + 1 < 2 ^ 32 ∧ (∃ v, (v = asI32 (seekBase s f k whence) + off ∨
            ¬InI32 (asI32 (seekBase s f k whence) + off) ∧ P = .release) ∧ InI32 v ∧
              r = if v < 0 then none else some v.toNat) ∧
            Working sb s.fs.mem f k s'.fs (blocks s.fs) (r.getD (s.fs.mem.files f).off) ∧ s'.proc = s.proc ∧ s'.ph = s.ph := by
      intro v hv hsum
      refine (seekTo_ends (s := { s' with fs := t }) hw hv).mono ?_
      rintro r s1 ⟨hr, hw1, hproc1, hph1⟩
      exact ⟨hlt, ⟨v, hsum, hv, hr⟩, hw1, hproc1.trans hproc, hph1.trans hph⟩
    rw [hdisk]
    interval_cases whence
    · refine hseek hoff (.inl ?_)
      change off = 0 + off
      rw [Int.zero_add]
    · exact addI32_bind hE fun v hv hsum => hseek hv hsum
    · exact addI32_bind hE fun v hv hsum => hseek hv hsum

lemma fsLseek_other (h : Opened sb s fd f k) (hwh : 2 < whence) :
    (fsLseek P (cacheStore P) sb fd off whence).Ends s (fun _ => True) fun r s' => r = none ∧ Opened sb s' fd f k := by
  refine getProc_bind ?_
  rw [h.fd]
  refine onFs_getFile ?_
  refine h.bracket (x := fun a => onFs (getInode a)) (.inr fun _ => trivial) (Q := fun _ s' d _ => d = blocks s.fs ∧ s'.proc = s.proc)
    (fun r t hw => .of_ok rfl ⟨_, _, hw, rfl, rfl⟩) ?_
  rintro x s' t d o ⟨rfl, hproc⟩ hw -
  obtain ⟨n, rfl⟩ : ∃ n, whence = n + 3 := ⟨whence - 3, by omega⟩
  exact .pure ⟨rfl, h.after hw (.refl h.mounted.owned _) hproc⟩

/-- The offset that seeking to `base + off` should set. -/
def sought (base : Nat) (off : Int) : Option Nat := if 0 ≤ base + off ∧ base + off < 2 ^ 32 then some (base + off).toNat else none

/-- Seeking is exact: no sum overflows, and the call returns the sum and sets the offset to it, or returns `Err`. -/
structure SeeksExactly (sb : SuperBlock) (s : Sys BufState) (fd : Nat) (f : FileId) (base : Nat) (off : Int) (whence : Nat) :
    Prop where
  noOverflow : fsLseek .dev (cacheStore .dev) sb fd off whence s ≠ .error .overflow
  exact : ∀ P, ∃ s', fsLseek P (cacheStore P) sb fd off whence s = .ok (sought base off, s') ∧
    (s'.fs.mem.files f).off = (sought base off).getD (s.fs.mem.files f).off

lemma asI32_of_lt {v : Nat} (h : v < 2 ^ 31) : asI32 v = v := if_pos h

lemma asI32_of_le {v : Nat} (h : 2 ^ 31 ≤ v) : asI32 v = v - 2 ^ 32 := if_neg (not_lt.mpr h)

lemma Opened.seeks_exactly_iff (h : Opened sb s fd f k) (hoff : InI32 off) (hwh : whence ≤ 2) :
    SeeksExactly sb s fd f (seekBase s f k whence) off whence ↔ (s.fs.mem.inodes k).refcnt + 1 < 2 ^ 32 ∧
      seekBase s f k whence < 2 ^ 31 ∧ seekBase s f k whence + off < 2 ^ 31 := by
  constructor
  · intro hexact
    obtain ⟨s', he, -⟩ := hexact.exact .dev
    obtain ⟨hlt, ⟨v, hsum, hv, hr⟩, -⟩ := (fsLseek_ends (P := .dev) (E := fun _ => True) h (.inr fun _ => trivial) hoff hwh
      fun _ => .inr trivial).ok _ _ he
    have hv0 : v = asI32 (seekBase s f k whence) + off := hsum.resolve_right fun hw => nomatch hw.2
    unfold InI32 at hv
    refine ⟨hlt, ?_⟩
    by_contra hnot
    unfold sought at hr
    by_cases hbase : seekBase s f k whence < 2 ^ 31
    · rw [asI32_of_lt hbase] at hv0
      omega
    · -- the base counts as negative, and the sum is too small by `2 ^ 32`
      rw [asI32_of_le (not_lt.mp hbase)] at hv0
      split_ifs at hr with hin hneg hneg
      · rw [Option.some_inj] at hr
        omega
      · omega
  · rintro ⟨hlt, hbase, hsum⟩
    have hin : InI32 (asI32 (seekBase s f k whence) + off) := by
      rw [asI32_of_lt hbase]
      unfold InI32 at hoff ⊢
      omega
    have hrun : ∀ P, ∃ s', fsLseek P (cacheStore P) sb fd off whence s = .ok (sought (seekBase s f k whence) off, s') ∧
        (s'.fs.mem.files f).off = (sought (seekBase s f k whence) off).getD (s.fs.mem.files f).off := by
      intro P
      obtain ⟨r, s', he, -, ⟨v, hv, -, hr⟩, hw, -⟩ := (fsLseek_ends (P := P) (E := fun _ => False) h (.inl hlt) hoff hwh
        fun hout => absurd hin hout).exists_ok
      have hv0 : v = seekBase s f k whence + off := by
        rw [← asI32_of_lt hbase]
        exact hv.resolve_right fun hw => hw.1 hin
      have hsought : r = sought (seekBase s f k whence) off := by
        rw [hr, hv0]
        unfold sought
        split_ifs with hneg hpos hpos
        · omega
        · rfl
        · rfl
        · omega
      rw [← hsought]
      exact ⟨s', he, hw.file_off⟩
    refine ⟨fun he => ?_, hrun⟩
    obtain ⟨s', he', -⟩ := hrun .dev
    rw [he] at he'
    cases he'

/-! ### Runs -/

inductive DescOp
  | read (uDst len : Nat)
  | write (uSrc len : Nat)
  | seek (off : Int) (whence : Nat)

def DescOp.exec (P : Profile) (sb : SuperBlock) (fd : Nat) : DescOp → K (Sys BufState) (Option Nat)
  | .read uDst len => fsRead P (cacheStore P) sb fd uDst len
  | .write uSrc len => fsWrite P (cacheStore P) sb fd uSrc len
  | .seek off whence => fsLseek P (cacheStore P) sb fd off whence

/-- Offsets are of type `i32`. -/
def DescOp.Typed : DescOp → Prop
  | .seek off _ => InI32 off
  | _ => True

/-- Calls on one descriptor. -/
abbrev DescRun (P : Profile) (sb : SuperBlock) (fd : Nat) : Sys BufState → Sys BufState → Prop :=
  Relation.ReflTransGen fun s s' => ∃ op : DescOp, op.Typed ∧ ∃ r, op.exec P sb fd s = .ok (r, s')

lemma DescOp.exec_keeps {op : DescOp} (h : Opened sb s fd f k) (ht : op.Typed) :
    (op.exec P sb fd).Ends s (fun _ => True) fun _ s' => Opened sb s' fd f k := by
  cases op with
  | read uDst len => exact fsRead_keeps h
  | write uSrc len => exact fsWrite_keeps h
  | seek off whence =>
    by_cases hwh : whence ≤ 2
    · refine (fsLseek_ends h (.inr fun _ => trivial) ht hwh fun _ => .inr trivial).mono ?_
      rintro r s' ⟨-, -, hw, hproc, -⟩
      exact h.after hw (.refl h.mounted.owned _) hproc
    · exact (fsLseek_other h (not_le.mp hwh)).mono fun _ _ hend => hend.2

lemma DescRun.opened (h : Opened sb s₀ fd f k) (hrun : DescRun P sb fd s₀ s) : Opened sb s fd f k := by
  induction hrun with
  | refl => exact h
  | tail _ hstep ih =>
    obtain ⟨op, ht, r, he⟩ := hstep
    exact (op.exec_keeps ih ht).ok r _ he

/-- Seeking is exact below `2 ^ 31`. -/
theorem seek_exact_iff (h₀ : Opened sb s₀ fd f k) (hrun : DescRun P sb fd s₀ s) (hoff : InI32 off) (hwh : whence ≤ 2) :
    SeeksExactly sb s fd f (seekBase s f k whence) off whence ↔ (s.fs.mem.inodes k).refcnt + 1 < 2 ^ 32 ∧
      seekBase s f k whence < 2 ^ 31 ∧ seekBase s f k whence + off < 2 ^ 31 :=
  (hrun.opened h₀).seeks_exactly_iff hoff hwh

theorem seek_exact_oneOpen : Opened smallSb oneOpen 0 0 0 ∧ SeeksExactly smallSb oneOpen 0 0 (seekBase oneOpen 0 0 1) 100 1 := by
  refine ⟨oneOpen_opened, ?_⟩
  exact (seek_exact_iff (P := .dev) oneOpen_opened .refl ⟨by decide, by decide⟩ (by decide)).mpr ⟨by decide, by decide, by decide⟩

/-- From the offset `2 ^ 31 - 1` the next byte cannot be reached. -/
theorem seek_past_signed : ∃ s, DescRun .dev smallSb 0 oneOpen s ∧ Opened smallSb s 0 0 0 ∧ (s.fs.mem.files 0).off = 2 ^ 31 - 1 ∧
    sought (seekBase s 0 0 1) 1 = some (2 ^ 31) ∧ (fsLseek .dev (cacheStore .dev) smallSb 0 1 1).run' s = .error .overflow ∧
    (fsLseek .release (cacheStore .release) smallSb 0 1 1).run' s = .ok none := by
  have hfirst : SeeksExactly smallSb oneOpen 0 0 (seekBase oneOpen 0 0 0) (2 ^ 31 - 1) 0 :=
    (oneOpen_opened.seeks_exactly_iff ⟨by decide, by decide⟩ (by decide)).mpr ⟨by decide, by decide, by decide⟩
  obtain ⟨s, he, hoff⟩ := hfirst.exact .dev
  have hrun : DescRun .dev smallSb 0 oneOpen s := .single ⟨.seek (2 ^ 31 - 1) 0, ⟨by decide, by decide⟩, _, he⟩
  have hoff' : (s.fs.mem.files 0).off = 2 ^ 31 - 1 := hoff
  refine ⟨s, hrun, hrun.opened oneOpen_opened, hoff', ?_, ?_, ?_⟩
  · rw [show seekBase s 0 0 1 = 2 ^ 31 - 1 from hoff']
    decide
  · have htwo : (fsLseek .dev (cacheStore .dev) smallSb 0 (2 ^ 31 - 1) 0 >>= fun _ =>
        fsLseek .dev (cacheStore .dev) smallSb 0 1 1).run' oneOpen = .error .overflow := by decide +kernel
    unfold StateT.run' at htwo ⊢
    rwa [K.bind_of_ok he] at htwo
  · have htwo : (fsLseek .dev (cacheStore .dev) smallSb 0 (2 ^ 31 - 1) 0 >>= fun _ =>
        fsLseek .release (cacheStore .release) smallSb 0 1 1).run' oneOpen = .ok none := by decide +kernel
    unfold StateT.run' at htwo ⊢
    rwa [K.bind_of_ok he] at htwo

end Glenda.Fs
