import Glenda.Proc.ExecResult

/-!
# The program that `proc_exec` loads

The headers of a file say what memory is to hold: for each segment so many bytes of the file, and then zeros. The loader gets
there if the file is not cut off, no address wraps around, and nothing that is stored later hits a byte of the segment. The
loops over the headers and over the contents just end at a read that comes up short.
-/

namespace Glenda.Proc
open Glenda.Lib Glenda.Mem

variable {P : Profile} {E : Env} {k k' k₀ : Kernel} {ring : Nat → Prop} {i : Nat} {argv contents : List Nat}
  {file : Nat → Nat → List Nat} {strs : List (List Nat)} {v : Picture} {p : Phdr} {ps pre post : List Phdr} {phoff phentsize j : Nat}

/-! ### The headers of a file -/

/-- The segments among the program headers that are in the file. -/
def fileSegments (contents : List Nat) : List Phdr :=
  (((List.range (field (contents.take 64) 56 58)).map fun i =>
    readBytes contents (field (contents.take 64) 32 40 + i * field (contents.take 64) 54 56) 56).filter (·.length = 56)).filterMap Phdr.parse

/-- The end of the highest segment, rounded up to pages. -/
def highestEnd (ps : List Phdr) : Nat := ps.foldl (fun x p => max x ((p.vaddr + p.memsz + (PGSIZE - 1)) / PGSIZE * PGSIZE)) 0

lemma rawHeader_eq (hlen : contents.length < 2 ^ 32) (h : phoff + j * phentsize + 56 ≤ contents.length) :
    rawHeader (readBytes contents) (phoff % 2 ^ 32) phentsize j = readBytes contents (phoff + j * phentsize) 56 := by
  unfold rawHeader
  rw [Nat.mod_eq_of_lt (show j * phentsize < 2 ^ 32 by omega), Nat.mod_eq_of_lt (show phoff < 2 ^ 32 by omega),
    Nat.mod_eq_of_lt (by omega)]

lemma length_readBytes (contents : List Nat) (off len : Nat) : (readBytes contents off len).length = min len (contents.length - off) := by
  unfold readBytes
  rw [List.length_take, List.length_drop]

section

variable (hlen : contents.length < 2 ^ 32)
include hlen

/-- The segments that are read are those of the file, and others only if an offset has wrapped around. -/
lemma segments_eq {n : Nat} :
    ∃ extra, segments (readBytes contents) (phoff % 2 ^ 32) phentsize n j =
      (((List.range' j n).map fun i => readBytes contents (phoff + i * phentsize) 56).filter (·.length = 56)).filterMap Phdr.parse ++ extra := by
  induction n generalizing j with
  | zero => exact ⟨[], rfl⟩
  | succ n ih =>
    by_cases hin : phoff + j * phentsize + 56 ≤ contents.length
    · have hfull : (readBytes contents (phoff + j * phentsize) 56).length = 56 := by
        rw [length_readBytes]
        omega
      obtain ⟨extra, hrest⟩ := @ih (j + 1)
      rw [segments, rawHeader_eq hlen hin, if_neg (by rw [not_not]; exact hfull), hrest, List.range'_succ, List.map_cons,
        List.filter_cons_of_pos (by simpa using hfull)]
      refine ⟨extra, ?_⟩
      cases hp : Phdr.parse (readBytes contents (phoff + j * phentsize) 56) with
      | none => rw [List.filterMap_cons_none hp]
      | some p => rw [List.filterMap_cons_some hp, List.cons_append]
    · -- the headers behind one that is cut off are not in the file either
      refine ⟨_, (List.nil_append _).symm.trans (congrArg (· ++ _) ?_)⟩
      rw [eq_comm, List.filterMap_eq_nil_iff]
      intro bs hbs
      obtain ⟨hmem, hfull⟩ := List.mem_filter.mp hbs
      obtain ⟨a, ha, rfl⟩ := List.mem_map.mp hmem
      have hle : j * phentsize ≤ a * phentsize := Nat.mul_le_mul_right _ (List.mem_range'_1.mp ha).1
      have hshort := length_readBytes contents (phoff + a * phentsize) 56
      rw [of_decide_eq_true hfull] at hshort
      omega

lemma programSegments_eq :
    ∃ extra, programSegments (readBytes contents) = fileSegments contents ++ extra := by
  obtain ⟨extra, h⟩ := @segments_eq contents (field (contents.take 64) 32 40) (field (contents.take 64) 54 56)
    0 hlen (field (contents.take 64) 56 58)
  refine ⟨extra, ?_⟩
  unfold programSegments fileSegments
  rw [List.range_eq_range', ← h]
  rfl

/-! ### The contents of a segment -/

lemma segmentBytes_readBytes {fuel off : Nat} (h : p.offset + p.filesz ≤ contents.length)
    (hfuel : p.filesz - off < fuel) :
    segmentBytes (readBytes contents) p fuel off = (contents.drop (p.offset + off)).take (p.filesz - off) := by
  induction fuel generalizing off with
  | zero => omega
  | succ fuel ih =>
    rw [segmentBytes]
    by_cases hoff : off < p.filesz
    · rw [if_pos hoff]
      dsimp only
      set chunk := min (p.filesz - off) 512 with hchunk
      have hsplit : ∀ xs : List Nat, xs.take (p.filesz - off) = xs.take chunk ++ (xs.drop chunk).take (p.filesz - (off + chunk)) := by
        intro xs
        rw [← List.take_add]
        congr 1
        omega
      rw [Nat.mod_eq_of_lt (show p.offset + off < 2 ^ 64 by omega), Nat.mod_eq_of_lt (show p.offset + off < 2 ^ 32 by omega),
        if_neg (by rw [not_not, length_readBytes]; omega), ih (by omega), hsplit, List.drop_drop, readBytes, Nat.add_assoc]
    · rw [if_neg hoff, Nat.sub_eq_zero_of_le (by omega), List.take_zero]

lemma Phdr.bytes_readBytes (h : 0 < p.filesz → p.offset + p.filesz ≤ contents.length) :
    p.bytes (readBytes contents) = (contents.drop p.offset).take p.filesz := by
  unfold Phdr.bytes
  by_cases hz : p.filesz = 0
  · rw [hz, segmentBytes, if_neg (by omega), List.take_zero]
  · rw [segmentBytes_readBytes hlen (h (by omega)) (by omega), Nat.add_zero, Nat.sub_zero]

end

/-! ### Stores, one after the other -/

/-- Bytes and the address they are stored at. -/
abbrev Store := Nat × List Nat

def storeAll (stores : List Store) (v : Picture) : Picture := stores.foldl (fun v s => v.write s.1 s.2) v

/-- What the last of the stores to an address has stored there. -/
def lastStore : List Store → Nat → Option Nat
  | [], _ => none
  | s :: rest, x => (lastStore rest x).or (if s.1 ≤ x ∧ x < s.1 + s.2.length then some (s.2.getD (x - s.1) 0) else none)

lemma storeAll_byte (stores : List Store) (v : Picture) (x : Nat) : (storeAll stores v).byte x = (lastStore stores x).getD (v.byte x) := by
  induction stores generalizing v with
  | nil => rfl
  | cons s rest ih =>
    have hstep : (storeAll (s :: rest) v).byte x = (lastStore rest x).getD ((v.write s.1 s.2).byte x) := ih _
    rw [hstep, lastStore]
    cases lastStore rest x with
    | some b => rfl
    | none =>
      unfold Picture.write
      dsimp only [Option.or, Option.getD]
      by_cases hin : s.1 ≤ x ∧ x < s.1 + s.2.length
      · rw [if_pos hin, if_pos hin]
      · rw [if_neg hin, if_neg hin]

lemma storeAll_append (a b : List Store) (v : Picture) : storeAll (a ++ b) v = storeAll b (storeAll a v) := List.foldl_append

lemma storeAll_congr {v v' : Picture} (stores : List Store) (h : v.byte = v'.byte) : (storeAll stores v).byte = (storeAll stores v').byte := by
  funext x
  rw [storeAll_byte, storeAll_byte, h]

/-- What the contents of segments are. -/
def segmentStores (file : Nat → Nat → List Nat) (ps : List Phdr) : List Store := ps.map fun p => (p.vaddr, p.bytes file)

lemma loadAll_storeAll (ps : List Phdr) (v : Picture) : (loadAll file ps v).byte = (storeAll (segmentStores file ps) v).byte := by
  induction ps generalizing v with
  | nil => rfl
  | cons p ps ih => exact (ih _).trans (storeAll_congr (segmentStores file ps) rfl)

/-- The strings of the arguments, from the last to the first. -/
def stringStores : List (List Nat) → List Store
  | [] => []
  | s :: rest => stringStores rest ++ [(bottom (s :: rest), s)]

/-- The strings and then their array. -/
def argStores (strs : List (List Nat)) : List Store := stringStores strs ++ [(argvPtr strs, (places strs).flatMap toNeBytes)]

lemma pushStrings_storeAll (v : Picture) (strs : List (List Nat)) : pushStrings v strs = storeAll (stringStores strs) v := by
  induction strs with
  | nil => rfl
  | cons s rest ih =>
    rw [pushStrings, ih, stringStores, storeAll_append]
    rfl

lemma withArgs_storeAll (v : Picture) (strs : List (List Nat)) : withArgs v strs = storeAll (argStores strs) v := by
  unfold withArgs argStores
  rw [pushStrings_storeAll, storeAll_append]
  rfl

/-! ### Pages that are not mapped -/

/-- Where nothing is mapped there are zeros. -/
def Blank (v : Picture) : Prop := ∀ x, v.flags (x / PGSIZE) = none → v.byte x = 0

lemma Blank.load (h : Blank v) (hfill : p.Filled file v) : Blank (p.load file v) := by
  intro x hx
  unfold Phdr.load at hx ⊢
  rw [Picture.write_flags] at hx
  rw [Picture.byte_write_of_not]
  · unfold Phdr.map Picture.mapRange at hx ⊢
    dsimp only at hx ⊢
    split_ifs at hx
    exact h x hx
  · rintro ⟨hlow, hhigh⟩
    obtain ⟨f, hf, -⟩ := hfill (x - p.vaddr) (by omega)
    rw [Nat.add_sub_of_le hlow, hx] at hf
    cases hf

lemma Loadable.split (h : Loadable P file (pre ++ p :: post) v) (hb : Blank v) :
    Blank (loadAll file pre v) ∧ p.Fits (loadAll file pre v) ∧ p.Filled file (loadAll file pre v) ∧
      Loadable P file post (p.load file (loadAll file pre v)) := by
  induction pre generalizing v with
  | nil => exact ⟨hb, h.2⟩
  | cons a pre ih =>
    obtain ⟨-, -, hfill, hrest⟩ := h
    exact ih hrest (hb.load hfill)

lemma loadAll_split (pre post : List Phdr) (p : Phdr) (v : Picture) :
    loadAll file (pre ++ p :: post) v = loadAll file post (p.load file (loadAll file pre v)) := by
  unfold loadAll
  rw [List.foldl_append, List.foldl_cons]

lemma StackSet.mono {v' : Picture} {perm q : Nat} (h : StackSet v v') (ha : v.Allows perm q) : v'.Allows perm q := by
  rcases h with rfl | ⟨rfl, hnone⟩
  · exact ha
  · refine (StackSet.allows_of_ne (.inr ⟨rfl, hnone⟩) ?_).mpr ha
    rintro rfl
    obtain ⟨f, hf, -⟩ := ha
    rw [hnone 37 (by decide)] at hf
    cases hf

/-! ### What is in memory -/

/-- The byte `j` of a segment. -/
def Phdr.expected (contents : List Nat) (p : Phdr) (j : Nat) : Nat := if j < p.filesz then contents.getD (p.offset + j) 0 else 0

/-- The segment is in user memory: its bytes of the file, and then zeros. -/
structure Phdr.InMemory (contents : List Nat) (ph : Phys) (table : Nat) (p : Phdr) : Prop where
  mapped : ∀ j < p.memsz, Uvm.Access ph.mem table PTE_U ((p.vaddr + j) / PGSIZE)
  bytes : ∀ j < p.filesz, Uvm.Access ph.mem table PTE_U ((p.vaddr + j) / PGSIZE) ∧
    contents[p.offset + j]? = some (ph.byte (Uvm.translate ph.mem table (p.vaddr + j)))
  zeros : ∀ j, p.filesz ≤ j → j < p.memsz → ph.byte (Uvm.translate ph.mem table (p.vaddr + j)) = 0

/-- The segment does not end beyond the last address, is not cut off, and is not hit by a later store, except with the same bytes. -/
structure Phdr.Sound (contents : List Nat) (later : List Store) (p : Phdr) : Prop where
  ends : 0 < p.memsz → p.vaddr + p.memsz + (PGSIZE - 1) < 2 ^ 64
  whole : 0 < p.filesz → p.offset + p.filesz ≤ contents.length
  kept : ∀ j < max p.filesz p.memsz, ∀ b, lastStore later (p.vaddr + j) = some b → b = p.expected contents j

lemma Phdr.covers_of_ends (h : p.vaddr + p.memsz + (PGSIZE - 1) < 2 ^ 64) (hj : j < p.memsz) :
    p.covers ((p.vaddr + j) / PGSIZE) := by
  unfold Phdr.covers Phdr.first Phdr.last
  rw [Nat.mod_eq_of_lt h]
  unfold PGSIZE
  omega

lemma Phdr.load_byte {later : List Store} (hlen : contents.length < 2 ^ 32) (hs : p.Sound contents later) (hb : Blank v)
    (hfit : p.Fits v) (hj : j < max p.filesz p.memsz) :
    (p.load (readBytes contents) v).byte (p.vaddr + j) = p.expected contents j := by
  unfold Phdr.load Phdr.expected
  rw [Phdr.bytes_readBytes hlen hs.whole]
  by_cases hlow : j < p.filesz
  · have hwhole := hs.whole (by omega)
    have hin : j < ((contents.drop p.offset).take p.filesz).length := by
      rw [List.length_take, List.length_drop]
      omega
    rw [if_pos hlow, Picture.byte_write hin, List.getElem_take, List.getElem_drop, List.getD_eq_getElem _ _ (by omega)]
  · have hmem : j < p.memsz := by omega
    rw [if_neg hlow, Picture.byte_write_of_not]
    · exact hb _ (hfit _ (Phdr.covers_of_ends (hs.ends (by omega)) hmem)).2
    · rw [List.length_take]
      omega

lemma newPicture_blank (E : Env) (tf : Nat) : Blank (newPicture E tf) := fun _ _ => rfl

namespace Started

/-- What the program has at an address: the last store behind a segment, or what the segment has left there. -/
lemma byte_eq (h : Started P E i file argv k k' strs v) (hps : programSegments file = pre ++ p :: post) (x : Nat) :
    (withArgs v strs).byte x = (lastStore (segmentStores file post ++ argStores strs) x).getD
      ((p.load file (loadAll file pre (newPicture E (k'.procs i).trapframe))).byte x) := by
  have himage : v.byte = (storeAll (segmentStores file post) (p.load file (loadAll file pre (newPicture E (k'.procs i).trapframe)))).byte := by
    rw [h.stack.byte, imagePicture, hps, loadAll_split, loadAll_storeAll]
  rw [withArgs_storeAll, storeAll_congr _ himage, ← storeAll_append, storeAll_byte]

lemma inMemory_iff (h : Started P E i (readBytes contents) argv k k' strs v) (hlen : contents.length < 2 ^ 32)
    (hps : programSegments (readBytes contents) = pre ++ p :: post) :
    p.InMemory contents k'.ph (k'.procs i).table ↔ p.Sound contents (segmentStores (readBytes contents) post ++ argStores strs) := by
  have hload := h.loadable
  rw [hps] at hload
  obtain ⟨hblank, hfit, hfill, hrest⟩ := hload.split (newPicture_blank _ _)
  set u := loadAll (readBytes contents) pre (newPicture E (k'.procs i).trapframe) with hu
  -- what is accessible when the segment is loaded stays so
  have hstays : ∀ q, (p.load (readBytes contents) u).Allows PTE_U q → Uvm.Access k'.ph.mem (k'.procs i).table PTE_U q := by
    intro q hq
    rw [h.reads.access PTE_U q (by decide)]
    have himage : (imagePicture E (readBytes contents) (k'.procs i).trapframe).Allows PTE_U q := by
      rw [imagePicture, hps, loadAll_split]
      exact (loadAll_allows hrest).mpr (.inr hq)
    have hv := h.stack.mono himage
    unfold Picture.Allows
    rw [withArgs_flags]
    exact hv
  have hmapped : 0 < p.memsz → p.vaddr + p.memsz + (PGSIZE - 1) < 2 ^ 64 → ∀ j < p.memsz,
      Uvm.Access k'.ph.mem (k'.procs i).table PTE_U ((p.vaddr + j) / PGSIZE) := by
    intro _ hends j hj
    exact hstays _ ((Phdr.load_allows hfit).mpr (.inl ⟨Phdr.covers_of_ends hends hj, p.perm_user⟩))
  have hfilled : ∀ j < (p.bytes (readBytes contents)).length, Uvm.Access k'.ph.mem (k'.procs i).table PTE_U ((p.vaddr + j) / PGSIZE) := by
    intro j hj
    obtain ⟨f, hf, hfu, -⟩ := hfill j hj
    exact hstays _ ⟨f, hf, hfu, hfu⟩
  have hbyte : ∀ x, Uvm.Access k'.ph.mem (k'.procs i).table PTE_U (x / PGSIZE) →
      k'.ph.byte (Uvm.translate k'.ph.mem (k'.procs i).table x) =
        (lastStore (segmentStores (readBytes contents) post ++ argStores strs) x).getD ((p.load (readBytes contents) u).byte x) := by
    intro x hx
    rw [h.reads.byte PTE_U x ((h.reads.access PTE_U _ (by decide)).mp hx), h.byte_eq hps]
  constructor
  · intro hm
    have hwhole : 0 < p.filesz → p.offset + p.filesz ≤ contents.length := by
      intro hpos
      obtain ⟨hlast, -⟩ := List.getElem?_eq_some_iff.mp (hm.bytes (p.filesz - 1) (by omega)).2
      omega
    refine ⟨fun hpos => ?_, hwhole, fun j hj b hlast => ?_⟩
    · have hmax := (hm.mapped (p.memsz - 1) (by omega)).va_lt
      unfold VA_MAX at hmax
      unfold PGSIZE
      omega
    · unfold Phdr.expected
      by_cases hlow : j < p.filesz
      · obtain ⟨hacc, hget⟩ := hm.bytes j hlow
        rw [hbyte _ hacc, hlast, Option.getD_some] at hget
        rw [if_pos hlow, List.getD_eq_getElem?_getD, hget, Option.getD_some]
      · have hzero := hm.zeros j (by omega) (by omega)
        rw [hbyte _ (hm.mapped j (by omega)), hlast, Option.getD_some] at hzero
        rw [if_neg hlow, hzero]
  · intro hs
    have hlength : (p.bytes (readBytes contents)).length = p.filesz := by
      rw [Phdr.bytes_readBytes hlen hs.whole, List.length_take, List.length_drop]
      have hwhole := hs.whole
      omega
    have hvalue : ∀ j < max p.filesz p.memsz, Uvm.Access k'.ph.mem (k'.procs i).table PTE_U ((p.vaddr + j) / PGSIZE) →
        k'.ph.byte (Uvm.translate k'.ph.mem (k'.procs i).table (p.vaddr + j)) = p.expected contents j := by
      intro j hj hacc
      rw [hbyte _ hacc]
      cases hlast : lastStore (segmentStores (readBytes contents) post ++ argStores strs) (p.vaddr + j) with
      | none => exact Phdr.load_byte hlen hs hblank hfit hj
      | some b => exact hs.kept j hj b hlast
    refine ⟨fun j hj => hmapped (by omega) (hs.ends (by omega)) j hj, fun j hj => ?_, fun j hge hj => ?_⟩
    · have hacc := hfilled j (by omega)
      have hwhole := hs.whole (by omega)
      refine ⟨hacc, ?_⟩
      rw [hvalue j (by omega) hacc, Phdr.expected, if_pos hj, List.getD_eq_getElem _ _ (by omega), List.getElem?_eq_getElem]
    · rw [hvalue j (by omega) (hmapped (by omega) (hs.ends (by omega)) j hj), Phdr.expected, if_neg (by omega)]

end Started

/-- A successful `proc_exec` has loaded the whole program. -/
structure Complete (contents : List Nat) (k : Kernel) (i : Nat) : Prop where
  segments : ∀ p ∈ fileSegments contents, p.InMemory contents k.ph (k.procs i).table
  heap : (k.procs i).heapBase = highestEnd (fileSegments contents) ∧ (k.procs i).heapTop = highestEnd (fileSegments contents)
  pc : k.ph.mem ((k.procs i).trapframe / PGSIZE) TF_KERNEL_EPC = field (contents.take 64) 24 32

/-- The condition on the file, and on the arguments: the highest end is the same for the headers that are read and for those of the
file, and each segment of the file is sound. -/
structure Faithful (contents : List Nat) (strs : List (List Nat)) : Prop where
  highest : highest (programSegments (readBytes contents)) 0 = highestEnd (fileSegments contents)
  sound : ∀ pre p post, programSegments (readBytes contents) = pre ++ p :: post → pre.length < (fileSegments contents).length →
    p.Sound contents (segmentStores (readBytes contents) post ++ argStores strs)

/-- A successful `proc_exec` has loaded the whole program exactly if the file is as `Faithful` says. -/
theorem program_loaded_iff (h₀ : Booted E ring k₀)
    (hrun : Reaches P E (fun _ op _ => op.Typed ∧ (P = .release → op.NoWrap)) k₀ k) (hi : k.Active i)
    (hbytes : ∀ b ∈ contents, b < 256) (hlen : contents.length < 2 ^ 32) (hargc : argv.length ≤ 16)
    (hargs : List.Forall₂ (fun a s => Uvm.loadStr k.ph (k.procs i).table 128 a = .ok s) argv strs)
    (he : procExec P E i (some (readBytes contents)) argv k = .ok (.ok (), k')) : Complete contents k' i ↔ Faithful contents strs := by
  obtain ⟨A₀, hA₀, -⟩ := h₀.shared
  obtain ⟨A, used, ids, free, hA, -⟩ := hA₀.run hrun fun _ _ _ ha => ha
  obtain ⟨strs', v, h⟩ := hA.started hi.2.1 (bytes_readBytes hbytes) hargc he
  obtain rfl : strs' = strs := h.strings_unique hargs
  obtain ⟨extra, hextra⟩ := programSegments_eq hlen
  constructor
  · rintro ⟨hseg, hheap, -⟩
    refine ⟨h.heapBase.symm.trans hheap.1, fun pre p post hps hpre => (h.inMemory_iff hlen hps).mp (hseg p ?_)⟩
    have hget : p ∈ (fileSegments contents ++ extra).take (fileSegments contents).length := by
      rw [← hextra, hps, List.take_append, List.mem_append]
      refine .inr ?_
      obtain ⟨n, hn⟩ : ∃ n, (fileSegments contents).length - pre.length = n + 1 := ⟨_, (Nat.succ_pred_eq_of_pos (by omega)).symm⟩
      rw [hn, List.take_succ_cons]
      exact List.mem_cons_self
    rwa [List.take_left'] at hget
    rfl
  · rintro ⟨hhigh, hsound⟩
    refine ⟨fun p hp => ?_, ⟨h.heapBase.trans hhigh, h.heapTop.trans hhigh⟩, h.epc⟩
    obtain ⟨pre, post, hsplit⟩ := List.append_of_mem hp
    have hps : programSegments (readBytes contents) = pre ++ p :: (post ++ extra) := by
      rw [hextra, hsplit, List.append_assoc, List.cons_append]
    refine (h.inMemory_iff hlen hps).mpr (hsound pre p _ hps ?_)
    rw [hsplit, List.length_append, List.length_cons]
    omega

/-- A program with one segment at 0x1000, whose header promises two bytes. -/
def dataElf (data : List Nat) : List Nat :=
  [0x7f, 0x45, 0x4c, 0x46] ++ List.replicate 20 0 ++ toNeBytes 0x1000 ++ toNeBytes 64 ++ List.replicate 14 0 ++
    [56, 0, 1, 0, 0, 0, 0, 0, 0, 0] ++ [1, 0, 0, 0, 7, 0, 0, 0] ++
    toNeBytes 120 ++ toNeBytes 0x1000 ++ toNeBytes 0x1000 ++ toNeBytes 2 ++ toNeBytes 4096 ++ toNeBytes 0 ++ data

lemma exists_loaded (data : List Nat) (x : Nat) (hend : StateT.run' (do
      let _ ← onPhys (mapKernel .dev bootEnv)
      let b ← performAll .dev bootEnv (fun _ op _ => !op.isExec) [.create []]
      let k ← get
      return (b, decide (k.Active 0) && match procExec .dev bootEnv 0 (some (readBytes (dataElf data))) [] k with
        | .ok (.ok (), k') => k'.ph.byte (Uvm.translate k'.ph.mem (k'.procs 0).table 0x1000) == x
        | _ => false)) bootKernel = .ok (true, true)) :
    ∃ k₀ k k', Booted bootEnv (fun _ => False) k₀ ∧
      Reaches .dev bootEnv (fun _ op _ => op.Typed ∧ (Profile.dev = .release → op.NoWrap)) k₀ k ∧ k.Active 0 ∧
      procExec .dev bootEnv 0 (some (readBytes (dataElf data))) [] k = .ok (.ok (), k') ∧
      k'.ph.byte (Uvm.translate k'.ph.mem (k'.procs 0).table 0x1000) = x := by
  obtain ⟨k₀, k, h0, hrun, hend⟩ := exists_run .dev (fun _ op _ => op.Typed ∧ (Profile.dev = .release → op.NoWrap))
    (fun _ op _ => !op.isExec) [.create []] _ _
    (fun k op _ b ht => ⟨Op.typed_of_not_exec (by simpa using ht), nofun⟩) hend
  rw [Bool.and_eq_true, decide_eq_true_eq] at hend
  obtain ⟨hi, hend⟩ := hend
  split at hend
  · rename_i k' he
    exact ⟨k₀, k, k', h0, hrun, hi, he, by simpa using hend⟩
  · cases hend

/-- A file with both of the bytes. -/
theorem program_loaded_data : ∃ k₀ k k', Booted bootEnv (fun _ => False) k₀ ∧
    Reaches .dev bootEnv (fun _ op _ => op.Typed ∧ (Profile.dev = .release → op.NoWrap)) k₀ k ∧ k.Active 0 ∧
    procExec .dev bootEnv 0 (some (readBytes (dataElf [7, 8]))) [] k = .ok (.ok (), k') ∧ Complete (dataElf [7, 8]) k' 0 := by
  obtain ⟨k₀, k, k', h₀, hrun, hi, he, -⟩ := exists_loaded [7, 8] 7 (by decide +kernel)
  have hps : programSegments (readBytes (dataElf [7, 8])) = [⟨7, 120, 0x1000, 2, 4096⟩] := by decide +kernel
  have hfs : fileSegments (dataElf [7, 8]) = [⟨7, 120, 0x1000, 2, 4096⟩] := by decide +kernel
  have hiff := @program_loaded_iff .dev bootEnv k k' k₀ _ 0 [] (dataElf [7, 8]) [] h₀ hrun hi (by decide +kernel) (by decide +kernel) (by decide) .nil he
  refine ⟨k₀, k, k', h₀, hrun, hi, he, hiff.mpr ⟨?_, fun pre p post hsplit hpre => ?_⟩⟩
  · rw [hps, hfs]
    decide
  · rw [hfs, List.length_singleton, Nat.lt_one_iff, List.length_eq_zero_iff] at hpre
    subst hpre
    rw [hps] at hsplit
    cases hsplit
    refine ⟨fun _ => by decide, fun _ => by decide, fun j hj b hlast => ?_⟩
    -- nothing is stored behind the only segment: there are no arguments
    have hnone : lastStore (segmentStores (readBytes (dataElf [7, 8])) [] ++ argStores []) (0x1000 + j) = none := by
      simp [segmentStores, argStores, stringStores, lastStore, places]
    rw [hnone] at hlast
    cases hlast

/-- A file that is cut off in the middle of the segment. No byte of it is loaded, and `proc_exec` succeeds. -/
theorem program_cut_off : ∃ k₀ k k', Booted bootEnv (fun _ => False) k₀ ∧
    Reaches .dev bootEnv (fun _ op _ => op.Typed ∧ (Profile.dev = .release → op.NoWrap)) k₀ k ∧ k.Active 0 ∧
    procExec .dev bootEnv 0 (some (readBytes (dataElf [7]))) [] k = .ok (.ok (), k') ∧
    fileSegments (dataElf [7]) = [⟨7, 120, 0x1000, 2, 4096⟩] ∧ (dataElf [7])[120]? = some 7 ∧
    k'.ph.byte (Uvm.translate k'.ph.mem (k'.procs 0).table 0x1000) = 0 := by
  obtain ⟨k₀, k, k', h₀, hrun, hi, he, hbyte⟩ := exists_loaded [7] 0 (by decide +kernel)
  exact ⟨k₀, k, k', h₀, hrun, hi, he, by decide +kernel, by decide, hbyte⟩

end Glenda.Proc
