import Glenda.Proc.ExecResult

/-!
# Arguments through `sys_exec`

`sys_exec` reads the vector of the arguments up to a null pointer, and `proc_exec` writes one without a null pointer: the
word behind its last pointer is the beginning of the first string. The new program finds its arguments if that word happens to
be zero, or if there are as many arguments as are read at most.
-/

namespace Glenda.Proc
open Glenda.Lib Glenda.Mem

variable {P : Profile} {E : Env} {k k' k₀ : Kernel} {ring : Nat → Prop} {i uPath : Nat} {file : Nat → Nat → List Nat} {argv : List Nat}
  {openPath : List Nat → Option (Nat → Nat → List Nat)} {ph ph' : Phys} {table uArgv argc fuel : Nat} {args : List Nat} {strs : List (List Nat)} {v w : Picture}

/-! ### The system call -/

/-- The loop over the pointers to the arguments, `argc` of which are read. -/
def readArgv (P : Profile) (table uArgv : Nat) : Nat → Nat → K Phys (List Nat)
  | 0, _ => throw .diverge
  | fuel + 1, argc => do
    match ← Uvm.copyin P table 8 (← addW P 64 uArgv (argc * 8)) with
    | .error _ => return []
    | .ok bs =>
      if fromLeBytes bs = 0 ∨ 15 ≤ argc then return []
      else return fromLeBytes bs :: (← readArgv P table uArgv fuel (argc + 1))

/-- `openPath` is what `fs_open` finds for a path. -/
def sysExec (P : Profile) (E : Env) (openPath : List Nat → Option (Nat → Nat → List Nat)) (i uPath uArgv : Nat) : K Kernel Nat := do
  let p ← getProc i
  match ← onPhys (Uvm.copyinStr P p.table 256 uPath) with
  | .error _ => return USIZE_MAX
  | .ok path =>
    let argv ← onPhys (readArgv P p.table uArgv 16 0)
    match ← procExec P E i (openPath (path.takeWhile (· ≠ 0))) argv with
    | .ok () => return 0
    | .error _ => return USIZE_MAX

/-- The strings that `proc_exec` reads for the pointers. -/
def readStrings (P : Profile) (table : Nat) : List Nat → K Phys (Except CopyError (List (List Nat)))
  | [] => return .ok []
  | uArg :: rest => do
    match ← Uvm.copyinStr P table 128 uArg with
    | .error e => return .error e
    | .ok s =>
      match ← readStrings P table rest with
      | .error e => return .error e
      | .ok ss => return .ok (s :: ss)

/-- The vector of arguments at an address. -/
def readVector (P : Profile) (table uArgv : Nat) : K Phys (Except CopyError (List (List Nat))) := do
  readStrings P table (← readArgv P table uArgv 16 0)

/-! ### Reading a vector -/

lemma readArgv_ok (he : readArgv P table uArgv fuel argc ph = .ok (args, ph')) : ph' = ph ∧ args.length + argc ≤ max 15 argc := by
  induction fuel generalizing argc args with
  | zero => cases he
  | succ fuel ih =>
    obtain ⟨a, ph1, hsum, he⟩ := K.bind_ok he
    obtain ⟨rfl, -⟩ := addW_ok hsum
    rw [K.bind_of_ok (Uvm.copyin_eq P _ table 8 a)] at he
    cases hload : Uvm.load ph table 8 a with
    | error e =>
      rw [hload] at he
      cases he
      exact ⟨rfl, by simp⟩
    | ok bs =>
      rw [hload] at he
      dsimp only at he
      split_ifs at he with hstop
      · cases he
        exact ⟨rfl, by simp⟩
      · obtain ⟨rest, ph2, hrest, he⟩ := K.bind_ok he
        cases he
        obtain ⟨rfl, hlen⟩ := ih hrest
        refine ⟨rfl, ?_⟩
        rw [List.length_cons]
        omega

lemma readArgv_append {ps : List Nat} (P : Profile) (fuel argc : Nat) (h : Reads ph table w) (hw : w.Holds (uArgv + argc * 8) (ps.flatMap toNeBytes))
    (hps : ∀ a ∈ ps, 0 < a ∧ a < 2 ^ 64) (hcount : argc + ps.length ≤ 15) (hu : uArgv + 128 < 2 ^ 64) :
    readArgv P table uArgv (fuel + ps.length) argc ph =
      (do return ps ++ (← readArgv P table uArgv fuel (argc + ps.length)) : K Phys (List Nat)) ph := by
  induction ps generalizing argc with
  | nil =>
    simp only [List.nil_append, bind_pure]
    rfl
  | cons a rest ih =>
    rw [List.flatMap_cons, Picture.holds_append, length_toNeBytes, Nat.add_assoc, ← Nat.succ_mul] at hw
    rw [List.length_cons] at hcount ⊢
    obtain ⟨hpos, hlt⟩ := hps a List.mem_cons_self
    have hrest := ih _ hw.2 (fun x hx => hps x (List.mem_cons_of_mem _ hx)) (by omega)
    rw [← Nat.add_assoc, readArgv, addW_of_lt P (by omega), pure_bind, K.bind_of_ok (Uvm.copyin_eq P ph table 8 _),
      h.load_ok.mpr ⟨length_toNeBytes a, hw.1⟩]
    dsimp only
    rw [fromLeBytes_toNeBytes hlt, if_neg (by omega)]
    rw [K.bind_apply, hrest, K.bind_apply, K.bind_apply, show argc + 1 + rest.length = argc + (rest.length + 1) by omega]
    cases readArgv P table uArgv fuel (argc + (rest.length + 1)) ph <;> rfl

/-- The loop ends after 15 pointers, at an address that cannot be read and at a null pointer. -/
lemma readArgv_nil_iff (h : Reads ph table w) (hu : uArgv + argc * 8 < 2 ^ 64) :
    (∃ ph', readArgv P table uArgv (fuel + 1) argc ph = .ok ([], ph')) ↔
      15 ≤ argc ∨ (w.AllowsAll PTE_R (uArgv + argc * 8) 8 → ∀ j < 8, w.byte (uArgv + argc * 8 + j) = 0) := by
  rw [readArgv, addW_of_lt P hu, pure_bind, K.bind_of_ok (Uvm.copyin_eq P ph table 8 _)]
  cases hload : Uvm.load ph table 8 (uArgv + argc * 8) with
  | error e =>
    refine iff_of_true ⟨ph, rfl⟩ (.inr fun hall => ?_)
    obtain ⟨bs, hbs⟩ := Uvm.load_ok.mpr (h.allows_iff.mpr hall)
    rw [hload] at hbs
    cases hbs
  | ok bs =>
    obtain ⟨hlen, hall, hbytes⟩ := h.load_ok.mp hload
    rw [hlen] at hall
    have hzero : fromLeBytes bs = 0 ↔ ∀ j < 8, w.byte (uArgv + argc * 8 + j) = 0 := by
      rw [fromLeBytes_eq_zero, List.forall_mem_iff_forall_getElem]
      refine ⟨fun hb j hj => ?_, fun hb j hj => ?_⟩
      · rw [hbytes j (by omega)]
        exact hb j (by omega)
      · rw [← hbytes j hj]
        exact hb j (by omega)
    have hstop : (15 ≤ argc ∨ (w.AllowsAll PTE_R (uArgv + argc * 8) 8 → ∀ j < 8, w.byte (uArgv + argc * 8 + j) = 0)) ↔
        fromLeBytes bs = 0 ∨ 15 ≤ argc := by
      rw [hzero, or_comm]
      exact or_congr_left ⟨fun hz => hz hall, fun hz _ => hz⟩
    rw [hstop]
    dsimp only
    split_ifs with hc
    · exact iff_of_true ⟨ph, rfl⟩ hc
    · refine iff_of_false ?_ hc
      rintro ⟨ph', he⟩
      obtain ⟨rest, ph1, -, he⟩ := K.bind_ok he
      cases he

lemma readStrings_ok : readStrings P table args ph = .ok (.ok strs, ph') ↔
    ph' = ph ∧ List.Forall₂ (fun a s => Uvm.loadStr ph table 128 a = .ok s) args strs := by
  induction args generalizing strs with
  | nil =>
    rw [List.forall₂_nil_left_iff]
    constructor
    · intro he
      cases he
      exact ⟨rfl, rfl⟩
    · rintro ⟨rfl, rfl⟩
      rfl
  | cons a rest ih =>
    rw [readStrings, K.bind_of_ok (Uvm.copyinStr_eq P ph table 128 a), List.forall₂_cons_left_iff]
    cases hload : Uvm.loadStr ph table 128 a with
    | error e => simp [K.pure_apply]
    | ok s =>
      constructor
      · intro he
        obtain ⟨r, ph1, hrest, he⟩ := K.bind_ok he
        cases r with
        | error e => cases he
        | ok ss =>
          cases he
          obtain ⟨rfl, hforall⟩ := ih.mp hrest
          exact ⟨rfl, s, ss, rfl, hforall, rfl⟩
      · rintro ⟨rfl, s', ss, hs, hforall, rfl⟩
        cases hs
        dsimp only
        rw [K.bind_of_ok (ih.mpr ⟨rfl, hforall⟩)]
        rfl

/-! ### The vector on the new stack -/

section

variable (h : Packable strs)
include h

lemma Packable.page {x : Nat} (hlow : argvPtr strs ≤ x) (hhigh : x < Uvm.STACK_TOP) : x / PGSIZE = 37 := by
  obtain ⟨-, -, hbound⟩ := h.argvPtr_bounds
  have hn := h.count
  unfold Uvm.STACK_TOP Uvm.STACK_BASE Uvm.STACK_SIZE at *
  unfold PGSIZE
  omega

/-- The strings and their array are there, if the last page of the stack can be read. -/
lemma Packable.holds (hr : strs ≠ [] → v.Allows PTE_R 37) :
    (withArgs v strs).Holds (argvPtr strs) ((places strs).flatMap toNeBytes) ∧
      List.Forall₂ (fun a s => (withArgs v strs).Holds a s) (places strs) strs := by
  obtain ⟨hptr, -, -⟩ := h.argvPtr_bounds
  obtain ⟨-, -, htop⟩ := h.bottom_bounds
  have hlen : ((places strs).flatMap toNeBytes).length = 8 * strs.length := by
    rw [length_pointers, length_places]
  have hallow : ∀ x, argvPtr strs ≤ x → x < Uvm.STACK_TOP → (withArgs v strs).Allows PTE_R (x / PGSIZE) := by
    intro x hlow hhigh
    rw [h.page hlow hhigh]
    unfold Picture.Allows
    rw [withArgs_flags]
    refine hr fun hnil => ?_
    rw [hnil] at hlow
    exact absurd hlow (Nat.not_le.mpr hhigh)
  refine ⟨⟨fun j hj => hallow _ (by omega) (by omega), fun j hj => Picture.byte_write hj⟩, ?_⟩
  refine List.Forall₂.imp ?_ (h.strings (v := v) (w := withArgs v strs) fun x hx => Picture.byte_write_of_not (by omega))
  rintro a s ⟨hlow, hhigh, hbytes⟩
  exact ⟨fun j hj => hallow _ (by omega) (by omega), hbytes⟩

lemma Packable.readArgv_eq (hcount : strs.length ≤ 15) (hr : strs ≠ [] → v.Allows PTE_R 37)
    (hreads : Reads ph table (withArgs v strs)) : ∃ fuel, readArgv P table (argvPtr strs) 16 0 ph =
      (do return places strs ++ (← readArgv P table (argvPtr strs) (fuel + 1) strs.length) : K Phys (List Nat)) ph := by
  obtain ⟨hptr, -, hlow⟩ := h.argvPtr_bounds
  obtain ⟨-, -, htop⟩ := h.bottom_bounds
  have hmax : Uvm.STACK_TOP = 0x26000 := rfl
  have hn := length_places strs
  obtain ⟨fuel, hfuel⟩ : ∃ fuel, 16 = fuel + 1 + (places strs).length := ⟨15 - strs.length, by omega⟩
  have haddr : ∀ a ∈ places strs, 0 < a ∧ a < 2 ^ 64 := by
    intro a ha
    have hbounds := h.place_bounds ha
    omega
  have hargv := readArgv_append P (fuel + 1) 0 hreads (by simpa using (h.holds hr).1) haddr (by omega) (by omega)
  rw [← hfuel, Nat.zero_add, hn] at hargv
  exact ⟨fuel, hargv⟩

lemma Packable.readArgv_iff (hcount : strs.length ≤ 15) (hr : strs ≠ [] → v.Allows PTE_R 37)
    (hreads : Reads ph table (withArgs v strs)) :
    readArgv P table (argvPtr strs) 16 0 ph = .ok (places strs, ph) ↔ strs.length = 15 ∨
      ((withArgs v strs).AllowsAll PTE_R (bottom strs) 8 → ∀ j < 8, (withArgs v strs).byte (bottom strs + j) = 0) := by
  obtain ⟨fuel, hargv⟩ := h.readArgv_eq (P := P) hcount hr hreads
  obtain ⟨hptr, -, hlow⟩ := h.argvPtr_bounds
  obtain ⟨-, -, htop⟩ := h.bottom_bounds
  have hmax : Uvm.STACK_TOP = 0x26000 := rfl
  have hnext : argvPtr strs + strs.length * 8 = bottom strs := by omega
  have hstop := @readArgv_nil_iff P _ _ (argvPtr strs) strs.length fuel _ hreads (by omega)
  rw [hnext] at hstop
  rw [hargv, show (strs.length = 15 ↔ 15 ≤ strs.length) by omega, ← hstop]
  constructor
  · intro he
    obtain ⟨rest, ph2, hrest, he⟩ := K.bind_ok he
    rw [K.pure_apply, Except.ok.injEq, Prod.mk.injEq, List.append_right_eq_self] at he
    rw [he.1] at hrest
    exact ⟨_, hrest⟩
  · rintro ⟨ph', hnil⟩
    obtain ⟨rfl, -⟩ := readArgv_ok hnil
    rw [K.bind_of_ok hnil, List.append_nil]
    rfl

lemma Packable.readVector_iff (hcount : strs.length ≤ 15) (hterm : ∀ s ∈ strs, Terminated s)
    (hr : strs ≠ [] → v.Allows PTE_R 37) (hreads : Reads ph table (withArgs v strs)) :
    readVector P table (argvPtr strs) ph = .ok (.ok strs, ph) ↔ readArgv P table (argvPtr strs) 16 0 ph = .ok (places strs, ph) := by
  have hstr : List.Forall₂ (fun a s => Uvm.loadStr ph table 128 a = .ok s) (places strs) strs := by
    have hall := (List.forall₂_and_left (p := fun s => s.length ≤ 128 ∧ Terminated s) _ _).mpr
      ⟨fun s hs => ⟨h.short s hs, hterm s hs⟩, (h.holds hr).2.flip⟩
    exact hall.flip.imp fun a s has => hreads.loadStr_ok.mpr ⟨has.1.1, has.1.2, has.2⟩
  constructor
  · intro he
    obtain ⟨args, ph1, hread, he⟩ := K.bind_ok he
    obtain ⟨rfl, hforall⟩ := readStrings_ok.mp he
    obtain ⟨fuel, hargv⟩ := h.readArgv_eq (P := P) hcount hr hreads
    rw [hread]
    rw [hargv] at hread
    obtain ⟨rest, ph2, -, hread⟩ := K.bind_ok hread
    cases hread
    have hlen := hforall.length_eq
    rw [List.length_append, length_places] at hlen
    rw [List.length_eq_zero_iff.mp (show rest.length = 0 by omega), List.append_nil]
  · intro hread
    unfold readVector
    rw [K.bind_of_ok hread]
    exact readStrings_ok.mpr ⟨rfl, hstr⟩

lemma Packable.readable (hreads : Reads ph table (withArgs v strs))
    (he : readVector P table (argvPtr strs) ph = .ok (.ok strs, ph)) (hne : strs ≠ []) : v.Allows PTE_R 37 := by
  obtain ⟨hptr, -, hlow⟩ := h.argvPtr_bounds
  obtain ⟨-, -, htop⟩ := h.bottom_bounds
  have hmax : Uvm.STACK_TOP = 0x26000 := rfl
  have hpos := List.length_pos_iff.mpr hne
  obtain ⟨args, ph1, hread, he⟩ := K.bind_ok he
  obtain ⟨-, hforall⟩ := readStrings_ok.mp he
  by_contra hno
  have hstop := (@readArgv_nil_iff P _ _ (argvPtr strs) 0 15 _ hreads (by omega)).mpr (.inr fun hall => ?_)
  · obtain ⟨ph', hnil⟩ := hstop
    rw [hnil] at hread
    cases hread
    cases hforall
    exact hne rfl
  · have hfirst := hall 0 (by decide)
    rw [h.page (by omega) (by omega)] at hfirst
    unfold Picture.Allows at hfirst
    rw [withArgs_flags] at hfirst
    exact absurd hfirst hno

end

/-- The word behind the array is the beginning of the first string. It is zero for an empty string at most. -/
lemma Packable.first_word {s : List Nat} {rest : List (List Nat)} (h : Packable (s :: rest)) (hs : Terminated s)
    (hr : v.Allows PTE_R 37) :
    ((withArgs v (s :: rest)).AllowsAll PTE_R (bottom (s :: rest)) 8 → ∀ j < 8, (withArgs v (s :: rest)).byte (bottom (s :: rest) + j) = 0) ↔
      s = [0] ∧ ∀ j < 7, v.byte (bottom (s :: rest) + 1 + j) = 0 := by
  obtain ⟨hptr, -, -⟩ := h.argvPtr_bounds
  obtain ⟨halign, -, htop⟩ := h.bottom_bounds
  obtain ⟨halign', -, htop'⟩ := h.tail.bottom_bounds
  have habove := h.above
  have hmax : Uvm.STACK_TOP = 0x26000 := rfl
  have hbyte : ∀ x, bottom (s :: rest) ≤ x → (withArgs v (s :: rest)).byte x = (pushStrings v (s :: rest)).byte x :=
    fun x hx => Picture.byte_write_of_not (by rw [length_pointers, length_places]; omega)
  have hpos : 0 < s.length := List.length_pos_iff.mpr hs.ne_nil
  have hall : (withArgs v (s :: rest)).AllowsAll PTE_R (bottom (s :: rest)) 8 := by
    intro j hj
    rw [h.page (by omega) (by omega)]
    unfold Picture.Allows
    rw [withArgs_flags]
    exact hr
  have hfirst : (withArgs v (s :: rest)).byte (bottom (s :: rest) + 0) = s[0] := by
    rw [hbyte _ (by omega), pushStrings, Picture.byte_write hpos]
  -- behind an empty string there are seven bytes that nothing is written to
  have hpad : s = [0] → ∀ j < 7, (withArgs v (s :: rest)).byte (bottom (s :: rest) + 1 + j) = v.byte (bottom (s :: rest) + 1 + j) := by
    rintro rfl j hj
    have hnext : bottom ([0] :: rest) + 8 = bottom rest := by
      rw [bottom] at habove ⊢
      rw [List.length_singleton] at *
      omega
    rw [hbyte _ (by omega), pushStrings, Picture.byte_write_of_not (by rw [List.length_singleton]; omega), h.tail.below (by omega)]
  constructor
  · intro hz
    have hzero := hz hall
    have hs0 : s = [0] := by
      have h0 := hzero 0 (by decide)
      rw [hfirst] at h0
      cases s with
      | nil => cases hpos
      | cons b bs =>
        rw [List.getElem_cons_zero] at h0
        rw [hs.eq_nil h0, h0]
    refine ⟨hs0, fun j hj => ?_⟩
    rw [← hpad hs0 j hj, Nat.add_assoc]
    exact hzero (1 + j) (by omega)
  · rintro ⟨hs0, hz⟩ - j hj
    by_cases hj0 : j = 0
    · rw [hj0, hfirst]
      simp only [hs0, List.getElem_cons_zero]
    · have hlast := hpad hs0 (j - 1) (by omega)
      rw [hz (j - 1) (by omega), Nat.add_assoc, show 1 + (j - 1) = j by omega] at hlast
      exact hlast

/-! ### The new program -/

/-- Ranges of addresses, each with its length, that do not overlap. -/
def Apart (r r' : Nat × Nat) : Prop := r.1 + r.2 ≤ r'.1 ∨ r'.1 + r'.2 ≤ r.1

/-- The program of the process finds the arguments: their number in `a0`, and in `a1` the address of a vector from which they are read
as `sys_exec` reads them. The strings and their pointers are on the stack and do not overlap. -/
structure Passed (P : Profile) (k : Kernel) (i : Nat) (strs : List (List Nat)) (a0 a1 sp : Nat) : Prop where
  count : a0 = strs.length
  vector : a1 % 8 = 0 ∧ Uvm.STACK_BASE ≤ a1 ∧ a1 ≤ Uvm.STACK_TOP
  stack : sp % 8 = 0 ∧ Uvm.STACK_BASE ≤ sp ∧ sp ≤ Uvm.STACK_TOP
  apart : ∃ args, readArgv P (k.procs i).table a1 16 0 k.ph = .ok (args, k.ph) ∧
    ((a1, 8 * args.length) :: args.zip (strs.map List.length)).Pairwise Apart ∧
    ∀ r ∈ (a1, 8 * args.length) :: args.zip (strs.map List.length), Uvm.STACK_BASE ≤ r.1 ∧ r.1 + r.2 ≤ Uvm.STACK_TOP
  back : readVector P (k.procs i).table a1 k.ph = .ok (.ok strs, k.ph)

/-- What the program must be like, and the arguments. Without arguments, there must be no word behind the stack but zero. Otherwise
the last page of the stack must be readable, if the program brings it along; and there must be 15 arguments, or an empty first
argument with nothing of the program behind it. -/
def Restorable (file : Nat → Nat → List Nat) : List (List Nat) → Prop
  | [] => Brings (programSegments file) 38 → ∀ j < 8, imageByte file (Uvm.STACK_TOP + j) = 0
  | s :: rest => ((∃ p ∈ programSegments file, p.covers 37) → Brings (programSegments file) 37) ∧
    ((s :: rest).length = 15 ∨ s = [0] ∧ ∀ j < 7, imageByte file (bottom (s :: rest) + 1 + j) = 0)

lemma Packable.apart (h : Packable strs) : ((argvPtr strs, 8 * strs.length) :: (places strs).zip (strs.map List.length)).Pairwise Apart ∧
    ∀ r ∈ (argvPtr strs, 8 * strs.length) :: (places strs).zip (strs.map List.length), Uvm.STACK_BASE ≤ r.1 ∧ r.1 + r.2 ≤ Uvm.STACK_TOP := by
  have hinner : ((places strs).zip (strs.map List.length)).Pairwise Apart ∧
      ∀ r ∈ (places strs).zip (strs.map List.length), bottom strs ≤ r.1 ∧ r.1 + r.2 ≤ Uvm.STACK_TOP := by
    induction strs with
    | nil => exact ⟨.nil, nofun⟩
    | cons s rest ih =>
      have habove := h.above
      obtain ⟨-, -, htop⟩ := h.tail.bottom_bounds
      obtain ⟨hpair, hin⟩ := ih h.tail
      rw [places, List.map_cons, List.zip_cons_cons, List.pairwise_cons, List.forall_mem_cons]
      refine ⟨⟨fun r hr => .inl ?_, hpair⟩, ⟨le_refl _, by dsimp only; omega⟩, fun r hr => ⟨?_, (hin r hr).2⟩⟩
      · exact habove.trans (hin r hr).1
      · have hlow := (hin r hr).1
        omega
  obtain ⟨hpair, hin⟩ := hinner
  obtain ⟨hptr, -, hlow⟩ := h.argvPtr_bounds
  obtain ⟨-, -, htop⟩ := h.bottom_bounds
  have hn := h.count
  have hbase : Uvm.STACK_BASE + 24576 = Uvm.STACK_TOP := rfl
  rw [List.pairwise_cons, List.forall_mem_cons]
  refine ⟨⟨fun r hr => .inl ?_, hpair⟩, ⟨by dsimp only; omega, by dsimp only; omega⟩, fun r hr => ⟨?_, (hin r hr).2⟩⟩
  · have hr' := (hin r hr).1
    dsimp only
    omega
  · have hr' := (hin r hr).1
    omega

namespace Started

/-- The last page of the stack can be read unless the program has brought it along otherwise. -/
lemma readable_iff (h : Started P E i file argv k k' strs v) (hne : argv ≠ []) :
    v.Allows PTE_R 37 ↔ ((∃ p ∈ programSegments file, p.covers 37) → Brings (programSegments file) 37) := by
  have hwrite := h.writable hne
  have hcovered : (imagePicture E file (k'.procs i).trapframe).Allows PTE_W 37 ↔ ∃ p ∈ programSegments file, p.covers 37 := h.loadable.covered
  have hbrings : (imagePicture E file (k'.procs i).trapframe).Allows PTE_R 37 ↔ Brings (programSegments file) 37 := h.loadable.brings
  rcases h.stack with rfl | ⟨rfl, hnone⟩
  · rw [hbrings]
    exact ⟨fun hb _ => hb, fun hb => hb (hcovered.mp hwrite)⟩
  · have hflags : (stackOn (imagePicture E file (k'.procs i).trapframe)).flags 37 = some (Uvm.MMAP_FLAGS ||| PTE_V) := by
      simp [stackOn, Picture.map]
    refine iff_of_true ⟨Uvm.MMAP_FLAGS ||| PTE_V, hflags, by decide, by decide⟩ fun hc => ?_
    obtain ⟨f, hf, -⟩ := hcovered.mpr hc
    rw [hnone 37 (by decide)] at hf
    cases hf

lemma behind_iff (h : Started P E i file argv k k' strs v) :
    (v.AllowsAll PTE_R Uvm.STACK_TOP 8 → ∀ j < 8, v.byte (Uvm.STACK_TOP + j) = 0) ↔ Restorable file [] := by
  have hbrings : v.Allows PTE_R 38 ↔ Brings (programSegments file) 38 := (h.stack.allows_of_ne (by decide)).trans h.loadable.brings
  have hpage : ∀ j < 8, (Uvm.STACK_TOP + j) / PGSIZE = 38 := by decide
  have hall : v.AllowsAll PTE_R Uvm.STACK_TOP 8 ↔ Brings (programSegments file) 38 := by
    rw [← hbrings]
    refine ⟨fun hc => ?_, fun hc j hj => ?_⟩
    · have hfirst := hc 0 (by decide)
      rwa [hpage 0 (by decide)] at hfirst
    · rw [hpage j hj]
      exact hc
  rw [hall, h.stack.byte, imagePicture_byte]
  rfl

lemma passed_iff (h : Started P E i file argv k k' strs v) (hcount : strs.length ≤ 15) :
    Passed P k' i strs (k'.ph.mem ((k'.procs i).trapframe / PGSIZE) TF_A0) (k'.ph.mem ((k'.procs i).trapframe / PGSIZE) TF_A1)
      (k'.ph.mem ((k'.procs i).trapframe / PGSIZE) TF_SP) ↔ Restorable file strs := by
  have hlen := h.strings.length_eq
  have hterm : ∀ s ∈ strs, Terminated s := by
    obtain ⟨u, hu⟩ := exists_reads k.ph (k.procs i).table
    exact ((List.forall₂_and_left (p := Terminated) strs argv).mp
      (h.strings.flip.imp fun s a ha => ⟨(hu.loadStr_ok.mp ha).2.1, ha⟩)).1
  obtain ⟨hptr, halign, hlow⟩ := h.packable.argvPtr_bounds
  obtain ⟨-, -, htop⟩ := h.packable.bottom_bounds
  have hbase : Uvm.STACK_BASE + 24576 = Uvm.STACK_TOP := rfl
  have hvector := fun hr => h.packable.readVector_iff (P := P) hcount hterm hr h.reads
  have hstop := fun hr => h.packable.readArgv_iff (P := P) hcount hr h.reads
  have hreadable := h.packable.readable (P := P) h.reads
  -- the condition on the word behind the array, in terms of the file
  have hback : readVector P (k'.procs i).table (argvPtr strs) k'.ph = .ok (.ok strs, k'.ph) ↔ Restorable file strs := by
    cases strs with
    | nil =>
      rw [hvector nofun, hstop nofun, ← h.behind_iff]
      have hsame : withArgs v [] = v := Picture.write_nil _ _
      rw [hsame, or_iff_right (by decide)]
      rfl
    | cons s rest =>
      have hne : argv ≠ [] := by
        rintro rfl
        cases hlen
      have hword := fun hr => h.packable.first_word (v := v) (hterm s List.mem_cons_self) hr
      unfold Restorable
      rw [← h.readable_iff hne]
      rw [h.stack.byte, imagePicture_byte] at hword
      constructor
      · intro he
        have hr := hreadable he nofun
        exact ⟨hr, ((hstop fun _ => hr).mp ((hvector fun _ => hr).mp he)).imp_right (hword hr).mp⟩
      · rintro ⟨hr, hc⟩
        exact (hvector fun _ => hr).mpr ((hstop fun _ => hr).mpr (hc.imp_right (hword hr).mpr))
  rw [h.a0, h.a1, h.sp, ← hback]
  refine ⟨fun hp => hp.back, fun he => ⟨hlen, ⟨halign, by omega, by omega⟩, ⟨halign, by omega, by omega⟩, ?_, he⟩⟩
  have hread := (hvector (hreadable he)).mp he
  have hapart := h.packable.apart
  rw [← length_places strs] at hapart
  exact ⟨places strs, hread, hapart⟩

end Started

/-- After a successful `sys_exec` the new program finds the arguments that were passed exactly if the file and the arguments are as
`Restorable` says. -/
theorem arguments_survive_iff (h₀ : Booted E ring k₀)
    (hrun : Reaches P E (fun _ op _ => op.Typed ∧ (P = .release → op.NoWrap)) k₀ k) (hi : k.Active i)
    (hfiles : ∀ path f, openPath path = some f → Bytes f)
    (hargs : readVector P (k.procs i).table uArgv k.ph = .ok (.ok strs, k.ph))
    (he : sysExec P E openPath i uPath uArgv k = .ok (0, k')) :
    ∃ path file, Uvm.loadStr k.ph (k.procs i).table 256 uPath = .ok path ∧ openPath (path.takeWhile (· ≠ 0)) = some file ∧
      (Passed P k' i strs (k'.ph.mem ((k'.procs i).trapframe / PGSIZE) TF_A0) (k'.ph.mem ((k'.procs i).trapframe / PGSIZE) TF_A1)
        (k'.ph.mem ((k'.procs i).trapframe / PGSIZE) TF_SP) ↔ Restorable file strs) := by
  obtain ⟨A₀, hA₀, -⟩ := h₀.shared
  obtain ⟨A, used, ids, free, hA, -⟩ := hA₀.run hrun fun _ _ _ ha => ha
  obtain ⟨argv, ph₁, hargv, hstrings⟩ := K.bind_eq_ok.mp hargs
  obtain ⟨rfl, hcount⟩ := readArgv_ok hargv
  obtain ⟨-, hforall⟩ := readStrings_ok.mp hstrings
  unfold sysExec at he
  obtain ⟨p, k₁, hp, he⟩ := K.bind_eq_ok.mp he
  cases hp
  obtain ⟨r, k₁, h, he⟩ := K.bind_eq_ok.mp he
  obtain ⟨ph₂, hpath, rfl⟩ := onPhys_eq_ok.mp h
  rw [Uvm.copyinStr_eq, Except.ok.injEq, Prod.mk.injEq] at hpath
  obtain ⟨hpath, rfl⟩ := hpath
  cases r with
  | error e => cases he
  | ok path =>
    obtain ⟨argv', k₁, h, he⟩ := K.bind_eq_ok.mp he
    obtain ⟨ph₂, hargv', rfl⟩ := onPhys_eq_ok.mp h
    rw [hargv] at hargv'
    cases hargv'
    obtain ⟨r, k₂, hexec, he⟩ := K.bind_eq_ok.mp he
    cases r with
    | error e => cases he
    | ok u =>
      cases he
      cases hfile : openPath (path.takeWhile (· ≠ 0)) with
      | none =>
        rw [hfile] at hexec
        cases hexec
      | some file =>
        rw [hfile] at hexec
        obtain ⟨strs', v, hstarted⟩ := hA.started hi.2.1 (hfiles _ _ hfile) (hcount.trans (by decide)) hexec
        -- the strings that are passed on are those of the vector
        obtain rfl : strs' = strs := hstarted.strings_unique hforall
        refine ⟨path, file, hpath, hfile, hstarted.passed_iff ?_⟩
        rw [← hforall.length_eq]
        exact hcount

/-- The vector of arguments at an address is `strs`. -/
def hasVector (P : Profile) (ph : Phys) (table uArgv : Nat) (strs : List (List Nat)) : Bool :=
  match readVector P table uArgv ph with
  | .ok (.ok ss, _) => ss == strs
  | _ => false

lemma hasVector_iff : hasVector P ph table uArgv strs = true ↔ readVector P table uArgv ph = .ok (.ok strs, ph) := by
  have hstate : ∀ r ph', readVector P table uArgv ph = .ok (.ok r, ph') → ph' = ph := by
    intro r ph' he
    obtain ⟨args, ph1, hread, hstr⟩ := K.bind_ok he
    obtain ⟨rfl, -⟩ := readArgv_ok hread
    exact (readStrings_ok.mp hstr).1
  unfold hasVector
  split
  · rename_i ss ph' he
    rw [beq_iff_eq]
    refine ⟨fun hs => ?_, fun hs => ?_⟩
    · rw [he, hs, hstate _ _ he]
    · rw [he] at hs
      cases hs
      rfl
  · rename_i hne
    exact iff_of_false nofun fun he => hne _ _ he

/-- A state in which the first process has a vector with one argument at 0x1000, and executes a program at 0x200000. -/
lemma exists_exec (s : List Nat) (keeps : Bool) (hend : StateT.run' (do
      let _ ← onPhys (mapKernel .dev bootEnv)
      let b ← performAll .dev bootEnv (fun _ op _ => !op.isExec) [.create (toNeBytes 0x1010 ++ toNeBytes 0 ++ s)]
      let k ← get
      return (b, decide (k.Active 0) && hasVector .dev k.ph (k.procs 0).table 0x1000 [s] &&
        match sysExec .dev bootEnv (fun _ => some (readBytes (zeroElf 0x200000 4096))) 0 0x1010 0x1000 k with
        | .ok (r, k') => r == 0 &&
          hasVector .dev k'.ph (k'.procs 0).table (k'.ph.mem ((k'.procs 0).trapframe / PGSIZE) TF_A1) [s] == keeps
        | .error _ => false)) bootKernel = .ok (true, true)) :
    ∃ k₀ k k', Booted bootEnv (fun _ => False) k₀ ∧
      Reaches .dev bootEnv (fun _ op _ => op.Typed ∧ (Profile.dev = .release → op.NoWrap)) k₀ k ∧ k.Active 0 ∧
      readVector .dev (k.procs 0).table 0x1000 k.ph = .ok (.ok [s], k.ph) ∧
      sysExec .dev bootEnv (fun _ => some (readBytes (zeroElf 0x200000 4096))) 0 0x1010 0x1000 k = .ok (0, k') ∧
      (readVector .dev (k'.procs 0).table (k'.ph.mem ((k'.procs 0).trapframe / PGSIZE) TF_A1) k'.ph = .ok (.ok [s], k'.ph) ↔ keeps = true) := by
  obtain ⟨k₀, k, h0, hrun, hend⟩ := exists_run .dev (fun _ op _ => op.Typed ∧ (Profile.dev = .release → op.NoWrap))
    (fun _ op _ => !op.isExec) [.create (toNeBytes 0x1010 ++ toNeBytes 0 ++ s)] _ _
    (fun k op _ b ht => ⟨Op.typed_of_not_exec (by simpa using ht), nofun⟩) hend
  rw [Bool.and_eq_true, Bool.and_eq_true, decide_eq_true_eq, hasVector_iff] at hend
  obtain ⟨⟨hi, hargs⟩, hend⟩ := hend
  cases he : sysExec .dev bootEnv (fun _ => some (readBytes (zeroElf 0x200000 4096))) 0 0x1010 0x1000 k with
  | error e =>
    rw [he] at hend
    cases hend
  | ok r =>
    obtain ⟨r, k'⟩ := r
    rw [he] at hend
    dsimp only at hend
    rw [Bool.and_eq_true, beq_iff_eq, beq_iff_eq] at hend
    obtain ⟨rfl, hkeeps⟩ := hend
    refine ⟨k₀, k, k', h0, hrun, hi, hargs, he, ?_⟩
    rw [← hasVector_iff, hkeeps]

/-- One empty argument. -/
theorem arguments_survive_empty : ∃ k₀ k k', Booted bootEnv (fun _ => False) k₀ ∧
    Reaches .dev bootEnv (fun _ op _ => op.Typed ∧ (Profile.dev = .release → op.NoWrap)) k₀ k ∧ k.Active 0 ∧
    readVector .dev (k.procs 0).table 0x1000 k.ph = .ok (.ok [[0]], k.ph) ∧
    sysExec .dev bootEnv (fun _ => some (readBytes (zeroElf 0x200000 4096))) 0 0x1010 0x1000 k = .ok (0, k') ∧
    Passed .dev k' 0 [[0]] (k'.ph.mem ((k'.procs 0).trapframe / PGSIZE) TF_A0) (k'.ph.mem ((k'.procs 0).trapframe / PGSIZE) TF_A1)
      (k'.ph.mem ((k'.procs 0).trapframe / PGSIZE) TF_SP) := by
  obtain ⟨k₀, k, k', h₀, hrun, hi, hargs, he, -⟩ := exists_exec [0] true (by decide +kernel)
  have hbytes : ∀ path f, (fun _ => some (readBytes (zeroElf 0x200000 4096)) : List Nat → Option (Nat → Nat → List Nat)) path = some f →
      Bytes f := by
    intro path f hf
    cases hf
    exact bytes_zeroElf _ _
  obtain ⟨path, file, -, hfile, hiff⟩ := arguments_survive_iff h₀ hrun hi hbytes hargs he
  cases hfile
  refine ⟨k₀, k, k', h₀, hrun, hi, hargs, he, hiff.mpr ⟨fun hc => ?_, .inr ⟨rfl, ?_⟩⟩⟩
  · have hps : programSegments (readBytes (zeroElf 0x200000 4096)) = [⟨7, 0, 0x200000, 0, 4096⟩] := by decide +kernel
    obtain ⟨p, hp, hc⟩ := hc
    rw [hps, List.mem_singleton] at hp
    subst hp
    exact absurd hc (by decide)
  · decide +kernel

/-- One argument that is not empty. Its first bytes are taken for another pointer. -/
theorem arguments_lost : ∃ k₀ k k', Booted bootEnv (fun _ => False) k₀ ∧
    Reaches .dev bootEnv (fun _ op _ => op.Typed ∧ (Profile.dev = .release → op.NoWrap)) k₀ k ∧ k.Active 0 ∧
    readVector .dev (k.procs 0).table 0x1000 k.ph = .ok (.ok [[120, 0]], k.ph) ∧
    sysExec .dev bootEnv (fun _ => some (readBytes (zeroElf 0x200000 4096))) 0 0x1010 0x1000 k = .ok (0, k') ∧
    readVector .dev (k'.procs 0).table (k'.ph.mem ((k'.procs 0).trapframe / PGSIZE) TF_A1) k'.ph ≠ .ok (.ok [[120, 0]], k'.ph) := by
  obtain ⟨k₀, k, k', h₀, hrun, hi, hargs, he, hiff⟩ := exists_exec [120, 0] false (by decide +kernel)
  exact ⟨k₀, k, k', h₀, hrun, hi, hargs, he, fun hc => absurd (hiff.mp hc) nofun⟩

end Glenda.Proc
