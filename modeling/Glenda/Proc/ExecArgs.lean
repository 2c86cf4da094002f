import Glenda.Proc.ExecImage

/-!
# The arguments on the new stack

`proc_exec` packs the argument strings downwards from the top of the stack, the last one first, each at a multiple of 8, and
puts the array of their addresses right below them. The layout depends on the lengths of the strings only. All of it is in
the last page of the stack.
-/

namespace Glenda.Proc
open Glenda.Lib Glenda.Mem

variable {P : Profile} {ph₀ ph : Phys} {fixed : PageMap} {table oldTable : Nat} {O : Nat → Prop} {old : Nat → Nat → Nat}
  {v w : Picture} {strs done : List (List Nat)} {Str : Nat → List Nat → Prop}

/-! ### The layout -/

/-- The address of the first string. -/
def bottom : List (List Nat) → Nat
  | [] => Uvm.STACK_TOP
  | s :: rest => (bottom rest - s.length) / 8 * 8

def places : List (List Nat) → List Nat
  | [] => []
  | s :: rest => bottom (s :: rest) :: places rest

def pushStrings (v : Picture) : List (List Nat) → Picture
  | [] => v
  | s :: rest => (pushStrings v rest).write (bottom (s :: rest)) s

/-- The address of the array. -/
def argvPtr (strs : List (List Nat)) : Nat := bottom strs - 8 * strs.length

/-- The picture with the strings and the array. -/
def withArgs (v : Picture) (strs : List (List Nat)) : Picture :=
  (pushStrings v strs).write (argvPtr strs) ((places strs).flatMap toNeBytes)

/-- As many strings as `sys_exec` passes on, as long as `copyin_str` reads them. -/
structure Packable (strs : List (List Nat)) : Prop where
  count : strs.length ≤ 16
  short : ∀ s ∈ strs, s.length ≤ 128

lemma Packable.tail {s : List Nat} (h : Packable (s :: strs)) : Packable strs :=
  ⟨(Nat.le_succ _).trans h.count, fun t ht => h.short t (List.mem_cons_of_mem _ ht)⟩

lemma Packable.bottom_bounds (h : Packable strs) : bottom strs % 8 = 0 ∧ Uvm.STACK_TOP ≤ bottom strs + 128 * strs.length ∧
    bottom strs ≤ Uvm.STACK_TOP := by
  induction strs with
  | nil => exact ⟨rfl, le_refl _, le_refl _⟩
  | cons s rest ih =>
    obtain ⟨halign, hlow, hhigh⟩ := ih h.tail
    have hs := h.short s List.mem_cons_self
    have hn := h.count
    rw [bottom]
    rw [List.length_cons] at hn ⊢
    unfold Uvm.STACK_TOP Uvm.STACK_BASE Uvm.STACK_SIZE at *
    omega

lemma Packable.above {s : List Nat} (h : Packable (s :: strs)) : bottom (s :: strs) + s.length ≤ bottom strs := by
  obtain ⟨-, hlow, -⟩ := h.tail.bottom_bounds
  have hs := h.short s List.mem_cons_self
  have hn := h.count
  rw [bottom]
  rw [List.length_cons] at hn
  unfold Uvm.STACK_TOP Uvm.STACK_BASE Uvm.STACK_SIZE at *
  omega

lemma Packable.argvPtr_bounds (h : Packable strs) : argvPtr strs + 8 * strs.length = bottom strs ∧ argvPtr strs % 8 = 0 ∧
    Uvm.STACK_TOP ≤ argvPtr strs + 136 * strs.length := by
  obtain ⟨halign, hlow, -⟩ := h.bottom_bounds
  have hn := h.count
  unfold argvPtr
  unfold Uvm.STACK_TOP Uvm.STACK_BASE Uvm.STACK_SIZE at *
  omega

lemma length_places (strs : List (List Nat)) : (places strs).length = strs.length := by
  induction strs with
  | nil => rfl
  | cons s rest ih => rw [places, List.length_cons, List.length_cons, ih]

lemma Packable.place_bounds {a : Nat} (h : Packable strs) (ha : a ∈ places strs) : bottom strs ≤ a ∧ a ≤ Uvm.STACK_TOP := by
  induction strs with
  | nil => cases ha
  | cons s rest ih =>
    have habove := h.above
    obtain ⟨-, -, htop⟩ := h.bottom_bounds
    rcases List.mem_cons.mp ha with rfl | ha
    · exact ⟨le_refl _, htop⟩
    · have hrest := ih h.tail ha
      omega

lemma length_toNeBytes (x : Nat) : (toNeBytes x).length = 8 := by
  unfold toNeBytes
  rw [List.length_map, List.length_range]

lemma length_pointers (ps : List Nat) : (ps.flatMap toNeBytes).length = 8 * ps.length := by
  induction ps with
  | nil => rfl
  | cons a rest ih =>
    rw [List.flatMap_cons, List.length_append, length_toNeBytes, ih, List.length_cons]
    omega

@[simp] lemma pushStrings_flags (v : Picture) (strs : List (List Nat)) : (pushStrings v strs).flags = v.flags := by
  induction strs with
  | nil => rfl
  | cons s rest ih => rw [pushStrings, Picture.write_flags, ih]

lemma withArgs_flags (v : Picture) (strs : List (List Nat)) : (withArgs v strs).flags = v.flags := by
  unfold withArgs
  rw [Picture.write_flags, pushStrings_flags]

/-- The strings are where their addresses say, between the lowest of them and the top of the stack, in any picture with the same
upper part. -/
lemma Packable.strings (h : Packable strs) (hw : ∀ x, bottom strs ≤ x → w.byte x = (pushStrings v strs).byte x) :
    List.Forall₂ (fun a s => bottom strs ≤ a ∧ a + s.length ≤ Uvm.STACK_TOP ∧ ∀ j (hj : j < s.length), w.byte (a + j) = s[j])
      (places strs) strs := by
  induction strs with
  | nil => exact .nil
  | cons s rest ih =>
    have habove := h.above
    obtain ⟨-, -, htop⟩ := h.tail.bottom_bounds
    have hrest := ih h.tail fun x hx => by
      rw [hw x (by omega), pushStrings, Picture.byte_write_of_not (by omega)]
    refine .cons ⟨le_refl _, by omega, fun j hj => ?_⟩ (hrest.imp fun a t hat => ⟨by omega, hat.2⟩)
    rw [hw _ (Nat.le_add_right _ _), pushStrings, Picture.byte_write hj]

lemma Packable.below {x : Nat} (h : Packable strs) (hx : x < bottom strs) : (pushStrings v strs).byte x = v.byte x := by
  induction strs with
  | nil => rfl
  | cons s rest ih =>
    have habove := h.above
    rw [pushStrings, Picture.byte_write_of_not (by omega), ih h.tail (by omega)]

/-! ### Copying them -/

lemma pushArgs_ends {args : List Nat} (h : Shows ph₀ fixed table O old ph (pushStrings v done)) (hdone : Packable done)
    (hcount : done.length + args.length ≤ 16)
    (hstr : ∀ ph' : Phys, (∀ n, O n → ph'.mem n = old n) → ∀ a s, Uvm.loadStr ph' oldTable 128 a = .ok s ↔ Str a s) :
    (pushArgs P oldTable table args (bottom done) (places done)).Ends ph (fun _ => False) fun r ph' =>
      (∃ v', Shows ph₀ fixed table O old ph' v') ∧ ∀ x, r = .ok x → ∃ strs, List.Forall₂ Str args.reverse strs ∧
        x = (bottom (strs ++ done), places (strs ++ done)) ∧ Packable (strs ++ done) ∧
        Shows ph₀ fixed table O old ph' (pushStrings v (strs ++ done)) ∧ (args ≠ [] → v.Allows PTE_W 37) := by
  induction args generalizing done ph with
  | nil =>
    refine .pure ⟨⟨_, h⟩, fun x hx => ?_⟩
    cases hx
    exact ⟨[], .nil, rfl, hdone, h, fun hc => absurd rfl hc⟩
  | cons a rest ih =>
    rw [pushArgs]
    refine .bind_of_ok (Uvm.copyinStr_eq P ph oldTable 128 a) ?_
    cases hload : Uvm.loadStr ph oldTable 128 a with
    | error e => exact .pure ⟨⟨_, h⟩, fun x hx => by cases hx⟩
    | ok s =>
      obtain ⟨hlen, hstring, hall⟩ := Uvm.loadStr_ok hload
      have hpos := hstring.pos
      have hbytes : ∀ b ∈ s, b < 256 := by
        intro b hb
        rw [Uvm.load_eq hall] at hb
        obtain ⟨i, -, rfl⟩ := List.mem_map.mp hb
        exact Nat.mod_lt _ (by decide)
      have hcons : Packable (s :: done) := by
        rw [List.length_cons] at hcount
        refine ⟨by rw [List.length_cons]; omega, List.forall_mem_cons.mpr ⟨hlen, hdone.short⟩⟩
      have habove := hcons.above
      have hpage : ∀ i < s.length, (bottom (s :: done) + i) / PGSIZE = 37 := by
        intro i hi
        obtain ⟨-, hlow, -⟩ := hcons.bottom_bounds
        have htop := hdone.bottom_bounds.2.2
        have hn := hcons.count
        unfold Uvm.STACK_TOP Uvm.STACK_BASE Uvm.STACK_SIZE at hlow htop
        unfold PGSIZE
        omega
      dsimp only
      rw [subW_of_le P (by omega), pure_bind]
      obtain ⟨r, ph1, hcopy, hiff, hshows, n, hpart⟩ := h.copyout P (bottom (s :: done)) hbytes
      refine .bind_of_ok hcopy ?_
      cases r with
      | error e => exact .pure ⟨⟨_, hpart⟩, fun x hx => by cases hx⟩
      | ok u =>
        rw [List.length_cons] at hcount
        refine (ih (hshows rfl) hcons (by rw [List.length_cons]; omega)).mono fun r ph' hQ => ⟨hQ.1, fun x hx => ?_⟩
        obtain ⟨strs, hforall, hx, hpack, hfinal, -⟩ := hQ.2 x hx
        have happ : strs ++ s :: done = strs ++ [s] ++ done := List.append_cons strs s done
        rw [happ] at hx hpack hfinal
        refine ⟨strs ++ [s], ?_, hx, hpack, hfinal, fun _ => ?_⟩
        · rw [List.reverse_cons]
          exact List.rel_append hforall (.cons ((hstr ph (fun n hn => h.others hn) a s).mp hload) .nil)
        · have hallow := hiff.mp rfl 0 hpos
          rw [hpage 0 hpos] at hallow
          obtain ⟨f, hf, hbits⟩ := hallow
          rw [pushStrings_flags] at hf
          exact ⟨f, hf, hbits⟩

lemma pushPointers_ends {ps : List Nat} (va : Nat) (h : Shows ph₀ fixed table O old ph v) :
    (pushPointers P table va ps).Ends ph (fun _ => False) fun r ph' => (∃ v', Shows ph₀ fixed table O old ph' v') ∧
      (r = .ok () → Shows ph₀ fixed table O old ph' (v.write va (ps.flatMap toNeBytes))) := by
  induction ps generalizing va v ph with
  | nil =>
    refine .pure ⟨⟨v, h⟩, fun _ => ?_⟩
    rw [List.flatMap_nil, Picture.write_nil]
    exact h
  | cons a rest ih =>
    rw [pushPointers]
    obtain ⟨r, ph1, hcopy, -, hshows, n, hpart⟩ := h.copyout P va (toNeBytes_lt a)
    refine .bind_of_ok hcopy ?_
    cases r with
    | error e => exact .pure ⟨⟨_, hpart⟩, fun hr => by cases hr⟩
    | ok u =>
      refine (ih (va + 8) (hshows rfl)).mono fun r ph' hQ => ⟨hQ.1, fun hr => ?_⟩
      have hwrite := Picture.write_write v va (toNeBytes a) (rest.flatMap toNeBytes)
      rw [length_toNeBytes] at hwrite
      rw [List.flatMap_cons, ← hwrite]
      exact hQ.2 hr

lemma setupArgs_ends {argv : List Nat} (h : Shows ph₀ fixed table O old ph v) (hcount : argv.length ≤ 16)
    (hstr : ∀ ph' : Phys, (∀ n, O n → ph'.mem n = old n) → ∀ a s, Uvm.loadStr ph' oldTable 128 a = .ok s ↔ Str a s) :
    (setupArgs P oldTable table argv).Ends ph (fun _ => False) fun r ph' => (∃ v', Shows ph₀ fixed table O old ph' v') ∧
      ∀ sp, r = .ok sp → ∃ strs, List.Forall₂ Str argv strs ∧ sp = argvPtr strs ∧ Packable strs ∧
        Shows ph₀ fixed table O old ph' (withArgs v strs) ∧ (argv ≠ [] → v.Allows PTE_W 37) := by
  have hnil : Packable [] := ⟨Nat.zero_le _, nofun⟩
  refine .bind (pushArgs_ends h hnil (by simpa using hcount) hstr) fun r ph1 _ hQ => ?_
  cases r with
  | error e => exact .pure ⟨hQ.1, nofun⟩
  | ok x =>
    obtain ⟨strs, hforall, rfl, hpack, h1, hallow⟩ := hQ.2 x rfl
    rw [List.append_nil] at *
    rw [List.reverse_reverse] at hforall
    obtain ⟨hptr, halign, -⟩ := hpack.argvPtr_bounds
    have hlen := hforall.length_eq
    have hsp : (bottom strs - argv.length * 8) / 8 * 8 = argvPtr strs := by
      rw [hlen]
      omega
    dsimp only
    rw [subW_of_le P (by omega), pure_bind, hsp]
    refine .bind (pushPointers_ends _ h1) fun r ph2 _ hQ => ?_
    cases r with
    | error e => exact .pure ⟨hQ.1, nofun⟩
    | ok u =>
      refine .pure ⟨hQ.1, fun sp hsp => ?_⟩
      cases hsp
      exact ⟨strs, hforall, rfl, hpack, hQ.2 rfl, fun hne => hallow (by simpa using hne)⟩

end Glenda.Proc
