import Glenda.Fs.BlockCache
import Glenda.Lib.BlockStore

/-!
# The buffer cache as a store of blocks

The file system uses the cache through `buffer::read`, `get_data_ptr`, `write` and `release` on device 0. As long as every
request to the device succeeds, the cache is a lawful store with a handle for each of its buffers.
-/

namespace Glenda.Fs
open Glenda.Lib

def cacheStore (P : Profile) : BlockStore BufState Block where
  read n := Buffer.read P 0 n
  load := Buffer.getData
  modify := Buffer.modifyData
  write := Buffer.write
  release := Buffer.release P

/-- The plain copies in the hands of a client with the handles `H`. -/
def handles (d : Nat → Block) (H : List (Nat × Nat)) (id : BufferId) : Option Handle :=
  (H.find? fun x => x.1 = id.val).map fun x => ⟨x.2, d x.2, true⟩

structure Stored (s : BufState) (d : Nat → Block) (H : List (Nat × Nat)) : Prop where
  refines : ∃ l, Refines s ⟨d, handles d H⟩ l
  ids : ∀ x ∈ H, x.1 < N_BUFFER
  nodup : (H.map Prod.fst).Nodup
  blocks : (H.map Prod.snd).Nodup

variable {P : Profile} {s : BufState} {d : Nat → Block} {H : List (Nat × Nat)} {i n : Nat} {id : BufferId}

lemma handles_cons (d : Nat → Block) (H : List (Nat × Nat)) (id : BufferId) (n : Nat) :
    handles d ((id.val, n) :: H) = Function.update (handles d H) id (some ⟨n, d n, true⟩) := by
  funext j
  unfold handles
  by_cases hj : j = id
  · subst hj
    simp
  · have hne : ¬id.val = j.val := fun h => hj (Fin.ext h.symm)
    rw [List.find?_cons_of_neg (by simpa using hne), Function.update_of_ne hj]

lemma handles_of_mem (hn : (H.map Prod.fst).Nodup) (hi : (id.val, n) ∈ H) : handles d H id = some ⟨n, d n, true⟩ := by
  unfold handles
  induction H with
  | nil => cases hi
  | cons x H ih =>
    rw [List.map_cons, List.nodup_cons] at hn
    rcases List.mem_cons.mp hi with rfl | hi
    · simp
    · have hne : ¬x.1 = id.val := by
        intro he
        exact hn.1 (he ▸ List.mem_map_of_mem (f := Prod.fst) hi)
      rw [List.find?_cons_of_neg (by simpa using hne)]
      exact ih hn.2 hi

lemma handles_eq_none : handles d H id = none ↔ ∀ x ∈ H, x.1 ≠ id.val := by
  unfold handles
  rw [Option.map_eq_none_iff, List.find?_eq_none]
  simp

lemma handles_update (hn : (H.map Prod.fst).Nodup) (hb : (H.map Prod.snd).Nodup) (hi : (id.val, n) ∈ H) (x : Block) :
    handles (Function.update d n x) H = Function.update (handles d H) id (some ⟨n, x, true⟩) := by
  funext j
  by_cases hj : j = id
  · rw [hj, Function.update_self, handles_of_mem hn hi, Function.update_self]
  · rw [Function.update_of_ne hj]
    unfold handles
    cases hf : H.find? fun x => x.1 = j.val with
    | none => rfl
    | some y =>
      have hy : y ∈ H := List.mem_of_find?_eq_some hf
      have hyj : y.1 = j.val := by simpa using List.find?_some hf
      have hne : y.2 ≠ n := by
        intro he
        have heq : y = (id.val, n) := List.inj_on_of_nodup_map hb hy hi he
        exact hj (Fin.ext (by rw [← hyj, heq]))
      simp [Function.update_of_ne hne]

lemma exists_unused (hlen : H.length < N_BUFFER) : ∃ id : BufferId, ∀ x ∈ H, x.1 ≠ id.val := by
  have hcard : (H.map Prod.fst).toFinset.card < (Finset.range N_BUFFER).card := by
    have hle := (H.map Prod.fst).toFinset_card_le
    rw [Finset.card_range]
    rw [List.length_map] at hle
    omega
  obtain ⟨i, hi, hnot⟩ := Finset.exists_mem_notMem_of_card_lt_card hcard
  refine ⟨⟨i, Finset.mem_range.mp hi⟩, fun x hx he => hnot ?_⟩
  rw [List.mem_toFinset, List.mem_map]
  exact ⟨x, hx, he⟩

/-- The cache serves a client that follows the rules. -/
theorem cacheStore_lawful (P : Profile) : (cacheStore P).Lawful N_BUFFER Stored := by
  constructor
  · rintro s d H n ⟨⟨l, hl⟩, hids, hnd, hblocks⟩ hn hlen
    obtain ⟨free, hfree⟩ := exists_unused hlen
    have hallows : Plain.Allows ⟨d, handles d H⟩ (.read 0 n) := by
      refine ⟨rfl, fun id h hh => ?_, free, handles_eq_none.mpr hfree⟩
      obtain ⟨x, hx, rfl⟩ := Option.map_eq_some_iff.mp hh
      exact hn x (List.mem_of_find?_eq_some hx)
    obtain ⟨id, s', l', he, hnone, hr⟩ := hl.read (P := P) hallows
    refine ⟨id.val, s', he, ⟨l', ?_⟩, ?_, ?_, ?_⟩
    · rw [handles_cons]
      exact hr
    · exact List.forall_mem_cons.mpr ⟨id.isLt, hids⟩
    · rw [List.map_cons, List.nodup_cons]
      refine ⟨fun hm => ?_, hnd⟩
      obtain ⟨x, hx, he⟩ := List.mem_map.mp hm
      exact handles_eq_none.mp hnone x hx he
    · rw [List.map_cons, List.nodup_cons]
      refine ⟨fun hm => ?_, hblocks⟩
      obtain ⟨x, hx, he⟩ := List.mem_map.mp hm
      exact hn x hx he
  · rintro s d H i n ⟨⟨l, hl⟩, hids, hnd, -⟩ hi
    obtain ⟨id, rfl⟩ : ∃ id : BufferId, i = id.val := ⟨⟨i, hids _ hi⟩, rfl⟩
    have hdata := (hl.held (handles_of_mem hnd hi)).2.1
    dsimp only at hdata
    change Buffer.getData id.val s = _
    unfold Buffer.getData
    rw [idOf_val, ← hdata]
    rfl
  · rintro s d H i n f ⟨⟨l, hl⟩, hids, hnd, hblocks⟩ hi
    obtain ⟨id, rfl⟩ : ∃ id : BufferId, i = id.val := ⟨⟨i, hids _ hi⟩, rfl⟩
    have hheld := handles_of_mem (d := d) hnd hi
    obtain ⟨s1, hmod, hr1⟩ := hl.modify hheld f
    have hheld1 : (Plain.next ⟨d, handles d H⟩ id (.modify id.val f)).held id = some ⟨n, f (d n), false⟩ := by
      simp [Plain.next, hheld]
    obtain ⟨s2, hwrite, hr2⟩ := hr1.write hheld1
    refine ⟨s1, s2, hmod, hwrite, ⟨l, ?_⟩, hids, hnd, hblocks⟩
    rw [handles_update hnd hblocks hi]
    simpa [Plain.next, hheld] using hr2
  · rintro s d H i n ⟨⟨l, hl⟩, hids, hnd, hblocks⟩
    obtain ⟨id, rfl⟩ : ∃ id : BufferId, i = id.val := ⟨⟨i, hids _ List.mem_cons_self⟩, rfl⟩
    have hheld := handles_of_mem (d := d) hnd List.mem_cons_self
    obtain ⟨s', l', he, hr⟩ := hl.release (P := P) hheld rfl
    rw [List.map_cons, List.nodup_cons] at hnd hblocks
    refine ⟨s', he, ⟨l', ?_⟩, fun x hx => hids x (List.mem_cons_of_mem _ hx), hnd.2, hblocks.2⟩
    have hnone : handles d H id = none := by
      rw [handles_eq_none]
      intro x hx hxi
      exact hnd.1 (List.mem_map.mpr ⟨x, hx, hxi⟩)
    have hnext : Plain.next ⟨d, handles d ((id.val, n) :: H)⟩ id (.release id.val) = ⟨d, handles d H⟩ := by
      simp [Plain.next, handles_cons, ← hnone]
    rwa [hnext] at hr

lemma stored_init (disk : Disk) (hd : ∀ n, disk.outcome n = true) : Stored ⟨LRUCache.new.init, disk⟩ disk.blocks [] := by
  refine ⟨⟨_, Refines.init disk hd⟩, nofun, List.nodup_nil, List.nodup_nil⟩

end Glenda.Fs
