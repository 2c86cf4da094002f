import Glenda.Fs.Path
import Glenda.Lib.StoreWatch

/-!
# The file system gives back its buffers

The functions of the file system on a watched store. It is never stopped on a disk that is well-formed, so that they hold at most
three buffers, no block twice, and release each of them once.
-/

namespace Glenda.Fs
open Glenda.Lib

/-! ### The watched functions are the functions -/

section Watches

variable {σ τ : Type} {f : σ → τ} {p : Panic} {B : BlockStore σ Block} {C : BlockStore τ Block} {P : Profile} {sb : SuperBlock}
  {g : Nat → K (FsState σ) PUnit} {g' : Nat → K (FsState τ) PUnit}

section

variable (h : BlockStore.Watches f p B C)
include h

lemma allocBit_watches (block limit : Nat) (full : Panic) :
    K.Watches f p (allocBit B block limit full) (allocBit C block limit full) := by
  refine .bind (h.read _) fun b => .bind (h.load b) fun data => ?_
  cases scan data BLOCK_SIZE 0 with
  | none => exact .bind (h.release b) fun _ => .throw full
  | some k =>
    dsimp only
    split_ifs
    · exact .bind (h.release b) fun _ => .throw full
    · exact .bind (h.modify b _) fun _ => .bind (h.write b) fun _ => .bind (h.release b) fun _ => .pure k

lemma freeBit_watches (block k : Nat) (clear : Panic) :
    K.Watches f p (freeBit B block k clear) (freeBit C block k clear) := by
  refine .bind (h.read _) fun b => .bind (h.load b) fun data => .bind (.panicIf _ _) fun _ => .bind (.panicIf _ _) fun _ => ?_
  exact .bind (h.modify b _) fun _ => .bind (h.write b) fun _ => h.release b

lemma blockAlloc_watches : K.Watches f p (Bitmap.alloc P B sb) (Bitmap.alloc P C sb) := by
  refine .bind (allocBit_watches h _ _ _) fun k => .bind (.addW ..) fun a => .bind (.addW ..) fun blk => .bind (h.read _) fun b => ?_
  exact .bind (h.modify b _) fun _ => .bind (h.write b) fun _ => .bind (h.release b) fun _ => .pure blk

lemma blockFree_watches (n : Nat) : K.Watches f p (Bitmap.free P B sb n) (Bitmap.free P C sb n) := by
  refine .bind (.addW ..) fun a => .bind (.panicIf _ _) fun _ => .bind (.addW ..) fun l => .bind (.panicIf _ _) fun _ => ?_
  exact freeBit_watches h _ _ _

lemma inodeAlloc_watches : K.Watches f p (Inode.alloc P B sb) (Inode.alloc P C sb) :=
  .bind (.subW ..) fun _ => allocBit_watches h _ _ _

lemma inodeFree_watches (n : Nat) : K.Watches f p (Inode.free P B sb n) (Inode.free P C sb n) :=
  .bind (.subW ..) fun _ => freeBit_watches h _ _ _

end

/-- The state of the file system with a part of its store. -/
def FsState.map (f : σ → τ) (t : FsState σ) : FsState τ := ⟨f t.store, t.mem⟩

lemma onStore_watches {α : Type} {x : K σ α} {y : K τ α} (h : K.Watches f p x y) :
    K.Watches (FsState.map f) p (K.focus FsState.store (fun s t => { t with store := s }) x)
      (K.focus FsState.store (fun s t => { t with store := s }) y) := by
  refine ⟨fun t => ?_⟩
  have ht := h.run t.store
  unfold K.focus
  cases hx : x t.store with
  | error e =>
    rw [hx] at ht
    refine ht.imp (fun he => ?_) fun he => ?_
    · cases he
      rfl
    · change _ = (y (f t.store)).map _
      rw [← he]
      rfl
  | ok r =>
    rw [hx] at ht
    refine .inr ?_
    have hy := ht.resolve_left fun he => by cases he
    change _ = (y (f t.store)).map _
    rw [← hy]
    rfl

lemma fsStore_watches (h : BlockStore.Watches f p B C) : BlockStore.Watches (FsState.map f) p (fsStore B) (fsStore C) := by
  constructor
  · exact fun n => onStore_watches (h.read n)
  · exact fun i => onStore_watches (h.load i)
  · exact fun i g => onStore_watches (h.modify i g)
  · exact fun i => onStore_watches (h.write i)
  · exact fun i => onStore_watches (h.release i)

lemma getInode_watches (k : Slot) : K.Watches (FsState.map f) p (getInode k) (getInode k) := ⟨fun _ => .inr rfl⟩

lemma modifyMem_watches (g : FsMem → FsMem) : K.Watches (FsState.map f) p (modifyMem g) (modifyMem g) := .modify fun _ => rfl

lemma inodeRw_watches (h : BlockStore.Watches f p B C) (k : Slot) (write : Bool) :
    K.Watches (FsState.map f) p (inodeRw P B sb k write) (inodeRw P C sb k write) := by
  have hs := fsStore_watches h
  refine .bind (getInode_watches k) fun inode => .bind (.addW ..) fun blk => .bind (hs.read blk) fun b => ?_
  split_ifs
  · exact .bind (hs.modify b _) fun _ => .bind (hs.write b) fun _ => hs.release b
  · exact .bind (hs.load b) fun data => .bind (modifyMem_watches _) fun _ => hs.release b

lemma directEntry_watches (h : BlockStore.Watches f p B C) (k : Slot) (idx : Nat) (grow : Bool) :
    K.Watches (FsState.map f) p (directEntry P B sb k idx grow) (directEntry P C sb k idx grow) := by
  refine .bind (getInode_watches k) fun inode => ?_
  dsimp only
  split_ifs
  · exact .pure none
  · refine .bind (blockAlloc_watches (fsStore_watches h)) fun blk => .bind (modifyMem_watches _) fun _ => ?_
    exact .bind (inodeRw_watches h k true) fun _ => .pure (some blk)
  · exact .pure _

lemma indirectEntry_watches (h : BlockStore.Watches f p B C) (blk i : Nat) (grow : Bool) :
    K.Watches (FsState.map f) p (indirectEntry P B sb blk i grow) (indirectEntry P C sb blk i grow) := by
  have hs := fsStore_watches h
  refine .bind (hs.read blk) fun b => .bind (hs.load b) fun data => ?_
  dsimp only
  split_ifs
  · exact .bind (hs.release b) fun _ => .pure none
  · refine .bind (blockAlloc_watches hs) fun blk => .bind (hs.modify b _) fun _ => .bind (hs.write b) fun _ => ?_
    exact .bind (hs.release b) fun _ => .pure (some blk)
  · exact .bind (hs.release b) fun _ => .pure _

lemma thenEntry_watches {x : K (FsState σ) (Option Nat)} {y : K (FsState τ) (Option Nat)} {g : Nat → K (FsState σ) (Option Nat)}
    {g' : Nat → K (FsState τ) (Option Nat)} (hx : K.Watches (FsState.map f) p x y) (hg : ∀ blk, K.Watches (FsState.map f) p (g blk) (g' blk)) :
    K.Watches (FsState.map f) p (thenEntry x g) (thenEntry y g') := by
  refine .bind hx fun o => ?_
  cases o with
  | none => exact .pure none
  | some blk => exact hg blk

lemma locateOrAddBlock_watches (h : BlockStore.Watches f p B C) (k : Slot) (lbn : Nat) (grow : Bool) :
    K.Watches (FsState.map f) p (locateOrAddBlock P B sb k lbn grow) (locateOrAddBlock P C sb k lbn grow) := by
  unfold locateOrAddBlock
  dsimp only
  split_ifs
  · exact directEntry_watches h _ _ _
  · exact thenEntry_watches (directEntry_watches h _ _ _) fun _ => indirectEntry_watches h _ _ _
  · exact thenEntry_watches (directEntry_watches h _ _ _) fun _ => thenEntry_watches (indirectEntry_watches h _ _ _) fun _ =>
      indirectEntry_watches h _ _ _
  · exact .throw _

lemma freeIndexBlock_watches (h : BlockStore.Watches f p B C)
    (hg : ∀ blk, K.Watches (FsState.map f) p (g blk) (g' blk)) (blk : Nat) :
    K.Watches (FsState.map f) p (freeIndexBlock P B sb g blk) (freeIndexBlock P C sb g' blk) := by
  have hs := fsStore_watches h
  refine .bind (hs.read blk) fun b => .bind (.forM fun i => .bind (hs.load b) fun data => ?_) fun _ => .bind (hs.release b) fun _ => ?_
  · dsimp only
    split_ifs
    · exact hg _
    · exact .pure _
  · exact blockFree_watches hs _

lemma clearIndex_watches (k : Slot) (idx : Nat)
    (hg : ∀ blk, K.Watches (FsState.map f) p (g blk) (g' blk)) :
    K.Watches (FsState.map f) p (clearIndex k idx g) (clearIndex k idx g') := by
  refine .bind (getInode_watches k) fun inode => ?_
  dsimp only
  split_ifs
  · exact .bind (hg _) fun _ => modifyMem_watches _
  · exact .pure _

lemma freeDataBlocks_watches (h : BlockStore.Watches f p B C) (k : Slot) :
    K.Watches (FsState.map f) p (freeDataBlocks P B sb k) (freeDataBlocks P C sb k) := by
  refine .bind (.forM fun i => clearIndex_watches k i (blockFree_watches (fsStore_watches h))) fun _ => .bind ?_ fun _ => ?_
  · exact clearIndex_watches k _ (freeIndexBlock_watches h (blockFree_watches (fsStore_watches h)))
  · exact clearIndex_watches k _ (freeIndexBlock_watches h (freeIndexBlock_watches h (blockFree_watches (fsStore_watches h))))

lemma inodePut_watches (h : BlockStore.Watches f p B C) (k : Slot) :
    K.Watches (FsState.map f) p (inodePut P B sb k) (inodePut P C sb k) := by
  refine .bind (getInode_watches k) fun inode => .bind (.panicIf _ _) fun _ => .bind (modifyMem_watches _) fun _ => ?_
  refine .bind (getInode_watches k) fun inode' => ?_
  split_ifs
  · refine .bind (getInode_watches k) fun inode' => .bind (freeDataBlocks_watches h k) fun _ => ?_
    refine .bind (inodeFree_watches (fsStore_watches h) _) fun _ => .bind (modifyMem_watches _) fun _ => ?_
    exact .bind (inodeRw_watches h k true) fun _ => modifyMem_watches _
  · exact .pure _

lemma chunk_watches (off stop : Nat) : K.Watches (FsState.map f) p (chunk P off stop) (chunk P off stop) := by
  refine .bind (.addW ..) fun n => ?_
  split_ifs
  · exact .pure _
  · exact .pure _

section

variable (h : BlockStore.Watches f p B C)
include h

lemma readFrom_watches (k : Slot) (stop dstLen fuel off dstOff : Nat) (dst : Block) :
    K.Watches (FsState.map f) p (readFrom P B sb k stop dstLen fuel off dstOff dst) (readFrom P C sb k stop dstLen fuel off dstOff dst) := by
  have hs := fsStore_watches h
  induction fuel generalizing off dstOff dst with
  | zero => exact .throw _
  | succ fuel ih =>
    unfold readFrom
    split_ifs
    · refine .bind (chunk_watches _ _) fun n => .bind (locateOrAddBlock_watches h _ _ _) fun o => ?_
      cases o with
      | none => exact .bind (.panicIf _ _) fun _ => .bind (.addW ..) fun _ => ih _ _ _
      | some blk =>
        refine .bind (hs.read blk) fun b => .bind (hs.load b) fun data => .bind (.panicIf _ _) fun _ => .bind (hs.release b) fun _ => ?_
        exact .bind (.addW ..) fun _ => ih _ _ _
    · exact .pure _

lemma inodeReadData_watches (k : Slot) (off len dstLen : Nat) (dst : Block) :
    K.Watches (FsState.map f) p (inodeReadData P B sb k off len dstLen dst) (inodeReadData P C sb k off len dstLen dst) := by
  refine .bind (getInode_watches k) fun inode => ?_
  dsimp only
  split_ifs
  · exact .pure _
  · refine .bind (.addW ..) fun n => .bind (.addW ..) fun stop => .bind (readFrom_watches h ..) fun _ => .pure _

lemma writeFrom_watches (k : Slot) (stop srcLen : Nat) (src : Block) (fuel off srcOff : Nat) :
    K.Watches (FsState.map f) p (writeFrom P B sb k stop srcLen src fuel off srcOff) (writeFrom P C sb k stop srcLen src fuel off srcOff) := by
  have hs := fsStore_watches h
  induction fuel generalizing off srcOff with
  | zero => exact .throw _
  | succ fuel ih =>
    unfold writeFrom
    split_ifs
    · refine .bind (chunk_watches _ _) fun n => .bind (locateOrAddBlock_watches h _ _ _) fun o => ?_
      cases o with
      | none => exact .throw _
      | some blk =>
        refine .bind (hs.read blk) fun b => .bind (.panicIf _ _) fun _ => .bind (hs.modify b _) fun _ => .bind (hs.write b) fun _ => ?_
        exact .bind (hs.release b) fun _ => .bind (.addW ..) fun _ => ih _ _
    · exact .pure _

lemma inodeWriteData_watches (k : Slot) (off len srcLen : Nat) (src : Block) :
    K.Watches (FsState.map f) p (inodeWriteData P B sb k off len srcLen src) (inodeWriteData P C sb k off len srcLen src) := by
  refine .bind (.addW ..) fun stop => .bind (writeFrom_watches h ..) fun _ => .bind (getInode_watches k) fun inode => ?_
  split_ifs
  · exact .bind (modifyMem_watches _) fun _ => .bind (inodeRw_watches h k true) fun _ => .pure _
  · exact .pure _

lemma scanFrom_watches (k : Slot) (size : Nat) (q : Block → Bool) (fuel off : Nat) (buf : Block) :
    K.Watches (FsState.map f) p (scanFrom P B sb k size q fuel off buf) (scanFrom P C sb k size q fuel off buf) := by
  induction fuel generalizing off buf with
  | zero => exact .throw _
  | succ fuel ih =>
    unfold scanFrom
    split_ifs
    · refine .bind (inodeReadData_watches h ..) fun r => ?_
      obtain ⟨n, buf'⟩ := r
      dsimp only
      split_ifs
      · exact .pure _
      · exact .pure _
      · exact .bind (.addW ..) fun _ => ih _ _
    · exact .pure _

lemma scanDentries_watches (k : Slot) (q : Block → Bool) :
    K.Watches (FsState.map f) p (scanDentries P B sb k q) (scanDentries P C sb k q) :=
  .bind (getInode_watches k) fun _ => scanFrom_watches h ..

lemma dentrySearch_watches (k : Slot) (name : List UInt8) :
    K.Watches (FsState.map f) p (dentrySearch P B sb k name) (dentrySearch P C sb k name) := by
  refine .bind (scanDentries_watches h k _) fun r => ?_
  cases r with
  | none => exact .pure _
  | some r => exact .pure _

lemma dentryCreate_watches (k : Slot) (inum : Nat) (name : List UInt8) :
    K.Watches (FsState.map f) p (dentryCreate P B sb k inum name) (dentryCreate P C sb k inum name) := by
  refine .bind (dentrySearch_watches h k name) fun r => ?_
  split_ifs
  · exact .pure _
  · refine .bind (getInode_watches k) fun inode => .bind (scanDentries_watches h k _) fun o => .bind (inodeWriteData_watches h ..) fun n => ?_
    split_ifs
    · exact .pure _
    · exact .pure _

lemma dentryDelete_watches (k : Slot) (name : List UInt8) :
    K.Watches (FsState.map f) p (dentryDelete P B sb k name) (dentryDelete P C sb k name) := by
  refine .bind (scanDentries_watches h k _) fun r => ?_
  cases r with
  | none => exact .pure _
  | some r => exact .bind (inodeWriteData_watches h ..) fun _ => .pure _

end

end Watches

/-! ### The calls -/

inductive FsCall
  | blockAlloc
  | blockFree (blockNo : Nat)
  | inodeAlloc
  | inodeFree (inum : Nat)
  | inodeRw (k : Slot) (write : Bool)
  | locate (k : Slot) (lbn : Nat) (grow : Bool)
  | readData (k : Slot) (off len dstLen : Nat) (dst : Block)
  | writeData (k : Slot) (off len srcLen : Nat) (src : Block)
  | put (k : Slot)
  | search (k : Slot) (name : List UInt8)
  | create (k : Slot) (targetInum : Nat) (name : List UInt8)
  | delete (k : Slot) (name : List UInt8)
  | print (k : Slot)

namespace FsCall

def exec {σ : Type} (P : Profile) (B : BlockStore σ Block) (sb : SuperBlock) : FsCall → K (FsState σ) Unit
  | .blockAlloc => do let _ ← Bitmap.alloc P (fsStore B) sb
  | .blockFree blockNo => Bitmap.free P (fsStore B) sb blockNo
  | .inodeAlloc => do let _ ← Inode.alloc P (fsStore B) sb
  | .inodeFree inum => Inode.free P (fsStore B) sb inum
  | .inodeRw k write => Fs.inodeRw P B sb k write
  | .locate k lbn grow => do let _ ← locateOrAddBlock P B sb k lbn grow
  | .readData k off len dstLen dst => do let _ ← inodeReadData P B sb k off len dstLen dst
  | .writeData k off len srcLen src => do let _ ← inodeWriteData P B sb k off len srcLen src
  | .put k => inodePut P B sb k
  | .search k name => do let _ ← dentrySearch P B sb k name
  | .create k targetInum name => do let _ ← dentryCreate P B sb k targetInum name
  | .delete k name => do let _ ← dentryDelete P B sb k name
  | .print k => dentryPrint P B sb k

/-- A call on an inode is made by someone who has a reference to it, with offsets of type `u32`. -/
def Allowed (m : FsMem) : FsCall → Prop
  | .blockAlloc | .blockFree _ | .inodeAlloc | .inodeFree _ => True
  | .inodeRw k _ | .locate k _ _ | .put k | .search k _ | .create k _ _ | .delete k _ | .print k => 0 < (m.inodes k).refcnt
  | .readData k off _ _ _ | .writeData k off _ _ _ => 0 < (m.inodes k).refcnt ∧ off < 2 ^ 32

variable {σ τ : Type} {f : σ → τ} {p : Panic} {B : BlockStore σ Block} {C : BlockStore τ Block} {P : Profile} {sb : SuperBlock}
  {cap : Nat} {Rep : σ → (Nat → Block) → List (Nat × Nat) → Prop} {t : FsState σ} {d : Nat → Block} {m : FsMem} {H : List (Nat × Nat)}

lemma exec_watches (h : BlockStore.Watches f p B C) (call : FsCall) :
    K.Watches (FsState.map f) p (call.exec P B sb) (call.exec P C sb) := by
  cases call with
  | blockAlloc => exact .bind (blockAlloc_watches (fsStore_watches h)) fun _ => .pure _
  | blockFree n => exact blockFree_watches (fsStore_watches h) n
  | inodeAlloc => exact .bind (inodeAlloc_watches (fsStore_watches h)) fun _ => .pure _
  | inodeFree n => exact inodeFree_watches (fsStore_watches h) n
  | inodeRw k write => exact inodeRw_watches h k write
  | locate k lbn grow => exact .bind (locateOrAddBlock_watches h k lbn grow) fun _ => .pure _
  | readData k off len dstLen dst => exact .bind (inodeReadData_watches h k off len dstLen dst) fun _ => .pure _
  | writeData k off len srcLen src => exact .bind (inodeWriteData_watches h k off len srcLen src) fun _ => .pure _
  | put k => exact inodePut_watches h k
  | search k name => exact .bind (dentrySearch_watches h k name) fun _ => .pure _
  | create k inum name => exact .bind (dentryCreate_watches h k inum name) fun _ => .pure _
  | delete k name => exact .bind (dentryDelete_watches h k name) fun _ => .pure _
  | print k => exact .bind (scanDentries_watches h k _) fun _ => .pure _

lemma freeBit_keeps {s : σ} {block k : Nat} {clear : Panic} {E : Panic → Prop} (L : B.Lawful cap Rep) (hr : Rep s d H)
    (hn : ∀ x ∈ H, x.2 ≠ block) (hc : H.length < cap) (hwild : E .wildAccess) (hclear : E clear) :
    (freeBit B block k clear).Ends s E fun _ s' => ∃ d', Rep s' d' H := by
  refine L.read_bind hr hn hc fun b s1 hr1 => L.load_bind hr1 List.mem_cons_self ?_
  refine .panicIf_bind (fun _ => hwild) fun _ => .panicIf_bind (fun _ => hclear) fun _ => ?_
  exact L.store_bind hr1 List.mem_cons_self fun s2 hr2 => (L.release_ends hr2).mono fun _ s3 hr3 => ⟨_, hr3⟩

lemma dataPanic_ne {e : Panic} (h : DataPanic e) : e ≠ .debugAssert := by
  cases h <;> decide

lemma exec_ends {call : FsCall} (L : B.Lawful cap Rep) (hc : 2 < cap) (h : Rests Rep sb t d m) (ha : call.Allowed m) :
    (call.exec P B sb).Ends t (· ≠ .debugAssert) fun _ t' => ∃ d' m', At Rep m' t' d' [] := by
  have L' := fsStore_lawful L m
  have hc0 : 0 < cap := by omega
  have hc1 : 1 < cap := by omega
  cases call with
  | blockAlloc =>
    refine .bind (Bitmap.alloc_ends L' h.layout.fit h.at_ (by simp) (by simp) hc0 fun _ => by decide) ?_
    rintro b t' - ⟨k, -, -, hr⟩
    exact .pure ⟨_, m, hr⟩
  | blockFree n =>
    refine addW_bind P _ _ (by decide) fun a _ => .panicIf_bind (fun _ => by decide) fun _ => ?_
    refine addW_bind P _ _ (by decide) fun l _ => .panicIf_bind (fun _ => by decide) fun _ => ?_
    exact (freeBit_keeps L' h.at_ (by simp) hc0 (by decide) (by decide)).mono fun _ t' ⟨d', hr⟩ => ⟨d', m, hr⟩
  | inodeAlloc =>
    refine .bind (Inode.alloc_ends L' h.layout.ibmap h.at_ (by simp) hc0 fun _ => by decide) ?_
    rintro i t' - ⟨-, hr⟩
    exact .pure ⟨_, m, hr⟩
  | inodeFree n =>
    change (subW P 32 sb.inodeStart 1 >>= fun b => freeBit (fsStore B) b n .inodeAlreadyFree).Ends _ _ _
    rw [subW_of_le P h.layout.ibmap, pure_bind]
    exact (freeBit_keeps L' h.at_ (by simp) hc0 (by decide) (by decide)).mono fun _ t' ⟨d', hr⟩ => ⟨d', m, hr⟩
  | inodeRw k write =>
    have hi := (h.coherent.used k ha).1
    cases write with
    | true => exact (inodeRw_write_ends L h.layout hc0 h.at_ hi).mono fun _ t' hr => ⟨_, m, hr⟩
    | false => exact (inodeRw_read_ends L h.layout hc0 h.at_ hi).mono fun _ t' hr => ⟨d, _, hr⟩
  | locate k lbn grow =>
    have hi := h.coherent.used k ha
    by_cases hlbn : lbn < MAXBLOCKS
    · have hpaths : ∀ q ∈ nodes (leafPath lbn), IsPath q := fun q hq => (leafPath_isPath hlbn).of_mem_nodes hq
      refine .bind (locateOrAddBlock_ends L h.layout hc1 h.owned hi h.at_ (h.coherent.holds ha) hlbn hpaths Finset.Subset.rfl
        fun _ _ => by decide) ?_
      rintro o t' - ⟨d', hr, -⟩
      exact .pure ⟨d', _, hr⟩
    · have hout : locateOrAddBlock P B sb k lbn grow = throw .blockIndexOutOfRange := by
        unfold MAXBLOCKS at hlbn
        unfold locateOrAddBlock
        dsimp only
        rw [if_neg (by omega), if_neg (by omega), if_neg (by omega)]
      refine .bind (Q := fun _ _ => False) ?_ fun _ _ _ => False.elim
      rw [hout]
      exact .throw (by decide)
  | readData k off len dstLen dst =>
    refine .bind ((inodeReadData_keeps L h.layout hc1 h.owned (h.coherent.used k ha.1) (h.coherent.holds ha.1) h.at_ ha.2).imp
      fun _ => dataPanic_ne) fun _ t' _ hr => .pure ⟨d, m, hr⟩
  | writeData k off len srcLen src =>
    refine .bind ((inodeWriteData_edits L hc1 h ha.1 ha.2).imp fun _ => dataPanic_ne) ?_
    rintro n t' - ⟨d', m', h', -⟩
    exact .pure ⟨d', m', h'.at_⟩
  | put k =>
    refine (inodePut_refd L hc h ha).mono ?_
    rintro - t' ⟨d', m', h', -⟩
    exact ⟨d', m', h'.at_⟩
  | search k name =>
    refine .bind (dentrySearch_ends L hc1 h ha fun _ _ => dataPanic_ne) ?_
    rintro r t' - ⟨h', -⟩
    exact .pure ⟨d, m, h'.at_⟩
  | create k inum name =>
    refine .bind ((dentryCreate_edits L hc1 h ha).imp fun _ => dataPanic_ne) ?_
    rintro r t' - ⟨d', m', h', -⟩
    exact .pure ⟨d', m', h'.at_⟩
  | delete k name =>
    refine .bind ((dentryDelete_edits L hc1 h ha).imp fun _ => dataPanic_ne) ?_
    rintro r t' - ⟨d', m', h', -⟩
    exact .pure ⟨d', m', h'.at_⟩
  | print k => exact (dentryPrint_ends L hc1 h ha fun _ _ => dataPanic_ne).mono fun _ t' h' => ⟨d, m, h'.at_⟩

end FsCall

/-- The state with a list of buffers in use, for the watched cache. -/
def FsState.watch (t : FsState BufState) (H : List (Nat × Nat)) : FsState (BufState × List (Nat × Nat)) := ⟨(t.store, H), t.mem⟩

variable {P : Profile} {sb : SuperBlock} {t : FsState BufState} {call : FsCall}

/-- The functions of the file system give back their buffers. The watched cache never stops a call, so that it holds at most three
buffers at any moment and does not read a block that it holds. A call that returns has released what it has read. -/
theorem calls_release_buffers (h : Mounted sb t) (ha : call.Allowed t.mem) :
    (call.exec P ((cacheStore P).watched 3 .debugAssert) sb (t.watch [])).map (fun r => (r.1, r.2.map Prod.fst)) =
      call.exec P (cacheStore P) sb t ∧
    ∀ t', call.exec P (cacheStore P) sb t = .ok ((), t') → Stored t'.store (blocks t') [] ∧
      call.exec P ((cacheStore P).watched 3 .debugAssert) sb (t.watch []) = .ok ((), t'.watch []) := by
  have L : ((cacheStore P).watched 3 .debugAssert).Lawful 3 (BlockStore.WatchedRep Stored) := (cacheStore_lawful P).watched (by decide) _
  have hrests : Rests (BlockStore.WatchedRep Stored) sb (t.watch []) (blocks t) t.mem := ⟨h.toTidy, rfl, h.at_.2, rfl⟩
  have hends := FsCall.exec_ends (P := P) L (by decide) hrests ha
  have hwatch : K.Watches (FsState.map Prod.fst) .debugAssert (call.exec P ((cacheStore P).watched 3 .debugAssert) sb) (call.exec P (cacheStore P) sb) :=
    call.exec_watches ((cacheStore P).watched_watches 3 .debugAssert)
  have hsame := (hwatch.run (t.watch [])).resolve_left fun he => hends.error _ he rfl
  refine ⟨hsame, fun t' he => ?_⟩
  have hrun : call.exec P (cacheStore P) sb ((t.watch []).map Prod.fst) = .ok ((), t') := he
  rw [hrun] at hsame
  cases hx : call.exec P ((cacheStore P).watched 3 .debugAssert) sb (t.watch []) with
  | error e =>
    rw [hx] at hsame
    cases hsame
  | ok r =>
    rw [hx] at hsame
    cases hsame
    obtain ⟨d', m', -, hstored, hheld⟩ := hends.ok _ _ hx
    refine ⟨?_, ?_⟩
    · have hd : blocks (r.2.map Prod.fst) = d' := hstored.blocks_eq
      rw [hd]
      exact hstored
    · have hr : r.2 = (r.2.map Prod.fst).watch [] := by
        unfold FsState.watch FsState.map
        rw [← hheld]
      rw [← hr]

/-- A write that adds an index block and a block below it. -/
theorem calls_release_buffers_oneFile : ∃ t', (FsCall.writeData 0 40960 10 10 fun _ => 7).exec .dev (cacheStore .dev) smallSb oneFile = .ok ((), t') ∧
    (FsCall.writeData 0 40960 10 10 fun _ => 7).exec .dev ((cacheStore .dev).watched 3 .debugAssert) smallSb (oneFile.watch []) =
      .ok ((), t'.watch []) := by
  obtain ⟨t', he⟩ := K.exists_of_run' (a := ()) (s := oneFile)
    (x := (FsCall.writeData 0 40960 10 10 fun _ => 7).exec .dev (cacheStore .dev) smallSb) (by decide +kernel)
  have ha : (FsCall.writeData 0 40960 10 10 fun _ => 7).Allowed oneFile.mem := ⟨by decide, by decide⟩
  exact ⟨t', he, ((calls_release_buffers oneFile_mounted ha).2 t' he).2⟩

end Glenda.Fs
