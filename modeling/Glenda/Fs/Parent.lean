import Glenda.Fs.Syscalls

/-!
# The directory of the last component

`path_to_parent_inode_at` walks to all components but the last, whose first 60 bytes it hands to its caller. `path_to_inode_at`
checks the type of every inode that it leaves, and the caller of `path_to_parent_inode_at` gets the last one unchecked.
-/

namespace Glenda.Fs
open Glenda.Lib

variable {path name : List UInt8} {sb : SuperBlock} {d : Nat → Block} {i j : Nat} {P : Profile} {cwd : Nat}

lemma mem_of_mem_components {c : UInt8} (hname : name ∈ components path) (hc : c ∈ name) : c ∈ path := by
  have hall : ∀ l ∈ path.splitOnP (· == SLASH), ∀ x ∈ l, x ∈ path := by
    clear hname
    induction path with
    | nil => simp
    | cons a path ih =>
      rw [List.splitOnP_cons_eq_if_modifyHead]
      split_ifs with ha
      · intro l hl x hx
        rcases List.mem_cons.mp hl with rfl | hl
        · cases hx
        · exact List.mem_cons_of_mem _ (ih l hl x hx)
      · cases hs : path.splitOnP (· == SLASH) with
        | nil => simp
        | cons s rest =>
          intro l hl x hx
          rcases List.mem_cons.mp hl with rfl | hl
          · rcases List.mem_cons.mp hx with rfl | hx
            · exact List.mem_cons_self
            · exact List.mem_cons_of_mem _ (ih s (by rw [hs]; exact List.mem_cons_self) x hx)
          · exact List.mem_cons_of_mem _ (ih l (by rw [hs]; exact List.mem_cons_of_mem _ hl) x hx)
  exact hall name (List.mem_of_mem_filter hname) c hc

/-- What a caller makes of the buffer: the first 60 bytes of the name. -/
lemma nameBuffer_takeWhile (h : ∀ c ∈ name, c ≠ 0) : (nameBuffer name).takeWhile (· != 0) = name.take MAXLEN_FILENAME := by
  unfold nameBuffer
  rw [List.takeWhile_append_of_pos]
  · rw [List.takeWhile_replicate]
    simp
  · intro c hc
    simpa using h c (List.mem_of_mem_take hc)

lemma lookup_take (sb : SuperBlock) (d : Nat → Block) (i : Nat) (name : List UInt8) :
    lookup sb d i (name.take MAXLEN_FILENAME) = lookup sb d i name := by
  have hentry : isEntry (name.take MAXLEN_FILENAME) = isEntry name := by
    funext b
    unfold isEntry
    congr 1
    rw [Bool.eq_iff_iff, nameMatches_iff, nameMatches_iff]
    refine forall₂_congr fun q hq => ?_
    rw [List.getD_eq_getElem?_getD, List.getD_eq_getElem?_getD, List.getElem?_take, if_pos hq]
  unfold lookup
  rw [hentry]

lemma resolve_append (sb : SuperBlock) (d : Nat → Block) (i : Nat) (l l' : List (List UInt8)) :
    resolve sb d i (l ++ l') = (resolve sb d i l).bind (resolve sb d · l') := by
  induction l generalizing i with
  | nil => rfl
  | cons name l ih =>
    rw [List.cons_append, resolve_cons, resolve_cons sb d i name l, Option.bind_assoc]
    congr 1
    funext j
    exact ih j

section Spec

variable {σ : Type} {B : BlockStore σ Block} {cap : Nat} {Rep : σ → (Nat → Block) → List (Nat × Nat) → Prop} {t : FsState σ}
  {m m' : FsMem} {E : Panic → Prop} {k : Slot} {fuel : Nat}

lemma walkParent_ends (L : B.Lawful cap Rep) (hc : 2 < cap) (wf : WellFormed sb d m) (h : Rests Rep sb t d m') (hk : Refd m m' [k])
    (hspare : Spare 2 m) (hroom : ¬TwoFree m → E .noFreeInode) (hfuel : path.length < fuel) :
    (walkParent P B sb fuel name path k).Ends t E fun r t' =>
      Walked Rep sb d m t' (resolve sb d (m'.inodes k).inodeNum (name :: components path).dropLast) r.1 ∧
      (r.1.isSome → r.2 = nameBuffer ((name :: components path).getLastD [])) := by
  induction fuel generalizing path name k t m' with
  | zero => omega
  | succ fuel ih =>
    unfold walkParent
    cases he : getElement path with
    | none =>
      rw [getElement_eq_none he]
      exact .pure ⟨⟨m', h, hk, rfl⟩, fun _ => rfl⟩
    | some e =>
      obtain ⟨next, rest⟩ := e
      obtain ⟨hcomp, hlen⟩ := getElement_eq_some he
      rw [hcomp, List.dropLast_cons_cons, resolve_cons]
      refine .bind (nextInode_ends L hc wf h hk hspare hroom) ?_
      rintro (_ | k1) t₁ - hwalked
      · obtain ⟨m1, h1, hk1, hres⟩ := hwalked
        rw [hres]
        exact .pure ⟨⟨m1, h1, hk1, rfl⟩, fun hsome => by cases hsome⟩
      · obtain ⟨m1, h1, hk1, hres⟩ := hwalked
        rw [hres]
        exact ih h1 hk1 (by omega)

theorem pathToParentInodeAt_ends (L : B.Lawful cap Rep) (hc : 2 < cap) (wf : WellFormed sb d m) (h : Rests Rep sb t d m)
    (hcwd : Used sb d cwd) (hspare : Spare 2 m) (hroom : ¬TwoFree m → E .noFreeInode) :
    (pathToParentInodeAt P B sb cwd path).Ends t E fun r t' =>
      Walked Rep sb d m t' (resolve sb d (startInum cwd path) (components path).dropLast) r.1 ∧
      (r.1.isSome → r.2 = nameBuffer ((components path).getLastD [])) := by
  refine startInode_bind L hc wf h hcwd hspare hroom fun k t₁ m1 h1 hk1 hnum => ?_
  rw [← hnum]
  cases he : getElement path with
  | none =>
    rw [getElement_eq_none he]
    exact .pure ⟨⟨m1, h1, hk1, rfl⟩, fun _ => rfl⟩
  | some e =>
    obtain ⟨name, rest⟩ := e
    obtain ⟨hcomp, hlen⟩ := getElement_eq_some he
    rw [hcomp]
    exact walkParent_ends L hc wf h1 hk1 hspare hroom (by omega)

end Spec

variable {t t₁ t₂ : FsState BufState} {o r : Option Slot} {buf : List UInt8}

/-- The two resolvers agree on every path: what `path_to_inode_at` finds is what a search for the last name finds in the inode that
`path_to_parent_inode_at` returns, if this is a directory. It need not be one, since its type is not checked. -/
theorem resolvers_agree (hs : Mounted sb t) (wf : WellFormed sb (blocks t) t.mem) (hcwd : Used sb (blocks t) cwd)
    (hspare : Spare 2 t.mem) (hcomp : components path ≠ []) (hnul : 0 ∉ path)
    (he1 : pathToInodeAt P (cacheStore P) sb cwd path t = .ok (o, t₁))
    (he2 : pathToParentInodeAt P (cacheStore P) sb cwd path t = .ok ((r, buf), t₂)) :
    r.map (fun k => (t₂.mem.inodes k).inodeNum) = resolve sb (blocks t) (startInum cwd path) (components path).dropLast ∧
    ∀ i, o.map (fun k => (t₁.mem.inodes k).inodeNum) = some i ↔ ∃ k, r = some k ∧ (t₂.mem.inodes k).disk.type_ = INODE_TYPE_DIR ∧
      (dentrySearch P (cacheStore P) sb k (buf.takeWhile (· != 0))).run' t₂ = .ok (some i) := by
  have L := cacheStore_lawful P
  obtain ⟨hres1, -, -⟩ := ((pathToInodeAt_ends (E := fun _ => True) L (by decide) wf hs hcwd hspare fun _ => trivial).ok _ _ he1).rests
  obtain ⟨hwalked, hbuf⟩ := (pathToParentInodeAt_ends (E := fun _ => True) L (by decide) wf hs hcwd hspare fun _ => trivial).ok _ _ he2
  obtain ⟨hres2, h2, hrefs⟩ := hwalked.rests
  have hlast : components path = (components path).dropLast ++ [(components path).getLastD []] := by
    rw [List.getLastD_eq_getLast?, List.getLast?_eq_getLast_of_ne_nil hcomp]
    exact (List.dropLast_append_getLast hcomp).symm
  have hname : ∀ c ∈ (components path).getLastD [], c ≠ 0 := by
    rintro c hc rfl
    refine hnul (mem_of_mem_components ?_ hc)
    rw [hlast]
    simp
  refine ⟨hres2, fun i => ?_⟩
  rw [hlast, resolve_append, ← hres2] at hres1
  rw [hres1]
  cases r with
  | none => simp
  | some k =>
    have hk : 0 < (t₂.mem.inodes k).refcnt := hrefs.pos (by simp)
    have hused := h2.coherent.used k hk
    obtain rfl : buf = _ := hbuf rfl
    rw [nameBuffer_takeWhile hname]
    simp only [Option.map_some, Option.bind_some, Option.some.injEq, exists_eq_left', resolve_singleton, h2.coherent.disk k hk]
    by_cases hdir : (dinode sb (blocks t) (t₂.mem.inodes k).inodeNum).type_ = INODE_TYPE_DIR
    · have hsearch : (dentrySearch P (cacheStore P) sb k (((components path).getLastD []).take MAXLEN_FILENAME)).Ends t₂ (fun _ => False) _ :=
        dentrySearch_ends L (by decide) h2 hk fun hbig => absurd (wf.sizes _ hused hdir) (by omega)
      obtain ⟨found, t3, he, -, rfl⟩ := hsearch.exists_ok
      have hrun : (dentrySearch P (cacheStore P) sb k (((components path).getLastD []).take MAXLEN_FILENAME)).run' t₂ =
          .ok (lookup sb (blocks t) (t₂.mem.inodes k).inodeNum ((components path).getLastD [])) := by
        rw [← lookup_take]
        exact congrArg _ he
      rw [hrun]
      simp [hdir]
    · simp [hdir]

theorem resolvers_agree_tree : ∃ o t₁ r buf t₂, pathToInodeAt .dev (cacheStore .dev) smallSb 0 [97] tree = .ok (o, t₁) ∧
    pathToParentInodeAt .dev (cacheStore .dev) smallSb 0 [97] tree = .ok ((r, buf), t₂) ∧
    r.map (fun k => (t₂.mem.inodes k).inodeNum) = some 0 := by
  obtain ⟨o, t₁, he1, -⟩ := K.exists_outcome (x := pathToInodeAt .dev (cacheStore .dev) smallSb 0 [97]) (s := tree) (f := fun _ _ => ())
    (b := ()) (by decide +kernel)
  obtain ⟨r, t₂, he2, -⟩ := K.exists_outcome (x := pathToParentInodeAt .dev (cacheStore .dev) smallSb 0 [97]) (s := tree)
    (f := fun _ _ => ()) (b := ()) (by decide +kernel)
  exact ⟨o, t₁, r.1, r.2, t₂, he1, he2, (resolvers_agree tree_mounted tree_wellFormed
    (show Used smallSb (blocks tree) 0 from ⟨by decide, by decide⟩) (fun _ => show 0 + 2 < 2 ^ 32 by decide)
    (show components [97] ≠ [] by decide) (by decide) he1 he2).1⟩

end Glenda.Fs
