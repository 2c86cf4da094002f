import Glenda.Proc.ExecArgs
import Glenda.Proc.ExecStack

/-!
# What a successful `proc_exec` leaves behind

The process has the new table and the new trap frame. Through the table it sees its segments, what there is of its stack, and
on it the arguments as they were in its old memory.
-/

namespace Glenda.Proc
open Glenda.Lib Glenda.Mem

variable {P : Profile} {E : Env} {ph₀ : Phys} {k k' : Kernel} {A : Holder → Asset} {ring used : Nat → Prop} {i : Nat}
  {file : Nat → Nat → List Nat} {argv : List Nat} {v v' : Picture}

/-- The picture of the loaded segments. -/
def imagePicture (E : Env) (file : Nat → Nat → List Nat) (tf : Nat) : Picture := loadAll file (programSegments file) (newPicture E tf)

/-- The byte that the segments of a file have at an address. -/
def imageByte (file : Nat → Nat → List Nat) (x : Nat) : Nat := (loadAll file (programSegments file) ⟨fun _ => none, fun _ => 0⟩).byte x

lemma loadAll_byte (ps : List Phdr) (h : v.byte = v'.byte) : (loadAll file ps v).byte = (loadAll file ps v').byte := by
  induction ps generalizing v v' with
  | nil => exact h
  | cons p ps ih =>
    refine ih ?_
    unfold Phdr.load Picture.write Phdr.map Picture.mapRange
    dsimp only
    rw [h]

lemma imagePicture_byte (E : Env) (file : Nat → Nat → List Nat) (tf : Nat) : (imagePicture E file tf).byte = imageByte file :=
  loadAll_byte _ rfl

lemma StackSet.byte (h : StackSet v v') : v'.byte = v.byte := by
  rcases h with rfl | ⟨rfl, -⟩
  · rfl
  · rfl

/-- The program has been started with the arguments `strs`, on the stack that is in `v`. -/
structure Started (P : Profile) (E : Env) (i : Nat) (file : Nat → Nat → List Nat) (argv : List Nat) (k k' : Kernel)
    (strs : List (List Nat)) (v : Picture) : Prop where
  strings : List.Forall₂ (fun a s => Uvm.loadStr k.ph (k.procs i).table 128 a = .ok s) argv strs
  packable : Packable strs
  loadable : Loadable P file (programSegments file) (newPicture E (k'.procs i).trapframe)
  stack : StackSet (imagePicture E file (k'.procs i).trapframe) v
  writable : argv ≠ [] → v.Allows PTE_W 37
  reads : Reads k'.ph (k'.procs i).table (withArgs v strs)
  heapBase : (k'.procs i).heapBase = highest (programSegments file) 0
  heapTop : (k'.procs i).heapTop = highest (programSegments file) 0
  sp : k'.ph.mem ((k'.procs i).trapframe / PGSIZE) TF_SP = argvPtr strs
  epc : k'.ph.mem ((k'.procs i).trapframe / PGSIZE) TF_KERNEL_EPC = field (file 0 64) 24 32
  a0 : k'.ph.mem ((k'.procs i).trapframe / PGSIZE) TF_A0 = argv.length
  a1 : k'.ph.mem ((k'.procs i).trapframe / PGSIZE) TF_A1 = argvPtr strs

lemma Started.strings_unique {strs strs' : List (List Nat)} (h : Started P E i file argv k k' strs v)
    (h' : List.Forall₂ (fun a s => Uvm.loadStr k.ph (k.procs i).table 128 a = .ok s) argv strs') : strs = strs' :=
  List.right_unique_forall₂' (fun _ _ _ hb hc => Except.ok.inj (hb.symm.trans hc)) h.strings h'

lemma World.loadStr_congr (h : World E ph₀ ring k A used) (hi : (k.procs i).Live) {ph' : Phys}
    (hmem : ∀ n, (A (.table i)).foot n → ph'.mem n = k.ph.mem n) (n a : Nat) (s : List Nat) :
    Uvm.loadStr ph' (k.procs i).table n a = .ok s ↔ Uvm.loadStr k.ph (k.procs i).table n a = .ok s := by
  obtain ⟨-, hown⟩ := h.owns i hi
  obtain ⟨node, m, hA, hm⟩ := hown.table
  rw [hA] at hmem
  have htable := h.estate.userTable hA hm h.bounds
  rw [(htable.reads_congr hmem htable.reads).loadStr_ok, htable.reads.loadStr_ok]

lemma World.started (h : World E ph₀ ring k A used) (hi : (k.procs i).Live) (hfile : Bytes file) (hargc : argv.length ≤ 16)
    (he : procExec P E i (some file) argv k = .ok (.ok (), k')) : ∃ strs v, Started P E i file argv k k' strs v := by
  rcases procExec_ok he with ⟨hr, -⟩ | ⟨f, root, tf, res, ph1, ph2, ph3, ph4, ph5, hf, hl, hx⟩
  · cases hr
  · cases hf
    obtain ⟨B, used5, node, m, hp, -⟩ := h.loaded hfile hl
    obtain ⟨maxVa, sp, rfl⟩ : ∃ maxVa sp, res = .ok (maxVa, sp) := by
      cases hx with
      | ok => exact ⟨_, _, rfl⟩
    obtain ⟨-, hkept, ⟨hroot, htf, hbase, htop⟩, hsp, hepc, ha0, ha1⟩ := h.commit hi hp hx
    obtain ⟨ph6, ph7, hs, hargs⟩ := hl.stacked
    obtain ⟨rfl, hload, v, hv, hshows⟩ := h.stackShows (l := .table i) nofun nofun hfile hs
    obtain ⟨-, hok⟩ := (setupArgs_ends hshows hargc fun ph' hmem a s => h.loadStr_congr hi hmem 128 a s).ok _ _ hargs
    obtain ⟨strs, hforall, rfl, hpack, hfinal, hwrite⟩ := hok sp rfl
    have htable := hp.estate.userTable hp.table hp.leaves hp.bounds
    rw [hp.table] at hkept
    rw [← htf] at hsp hepc ha0 ha1 hload hv
    refine ⟨strs, v, hforall, hpack, hload, hv, hwrite, ?_, hbase, htop, hsp, hepc, ha0, ha1⟩
    rw [hroot]
    exact htable.reads_congr hkept hfinal.reads

end Glenda.Proc
