import Mathlib.Algebra.Group.Nat.Defs
import Mathlib.Logic.Function.Basic
import Mathlib.Tactic.Common

/-!
# Requests to the disk

Model of `rw` in `drivers/virtio/disk.rs` and of the device behind the ring. The driver fills the header and
three descriptors, publishes them, notifies the device, stores the status `0xFF` and polls until the status
is another one. The device serves a request that is published and notified at any later moment. What a
buffer and a block of the disk hold is a parameter `β`.
-/

namespace Glenda.Drivers.Disk

def VIRTIO_BLK_T_IN : Nat := 0
def VIRTIO_BLK_T_OUT : Nat := 1
def VRING_DESC_F_NEXT : Nat := 1
def VRING_DESC_F_WRITE : Nat := 2
def PGSIZE : Nat := 4096

structure BlkOutHdr where
  type : Nat
  reserved : Nat
  sector : Nat
  deriving DecidableEq, Repr

structure VRingDesc where
  addr : Nat
  len : Nat
  flags : Nat
  next : Nat
  deriving DecidableEq, Repr

/-- The arguments of `rw`. -/
structure Request where
  buf : Nat
  blockno : Nat
  write : Bool
  deriving DecidableEq, Repr

/-- The next store of the driver. -/
inductive Pc
  | header
  | descriptors
  | ring
  | publish
  | notify
  | status
  | poll
  deriving DecidableEq, Repr

/-- Where the header and the status byte lie. -/
structure Layout where
  headPa : Nat
  statusPa : Nat

/-- `seen` is the number of requests the device has taken from the ring, and `served` the one it has
completed since the last call of `rw`. -/
structure State (β : Type) where
  call : Option (Pc × Request)
  hdr : BlkOutHdr
  status : Nat
  desc : Nat → VRingDesc
  availRing : Nat → Nat
  availIdx : Nat
  notified : Bool
  seen : Nat
  served : Option Request
  mem : Nat → β
  disk : Nat → β

variable {β : Type} (L : Layout)

/-- After `init`. -/
def State.init (mem disk : Nat → β) : State β where
  call := none
  hdr := ⟨0, 0, 0⟩
  status := 0
  desc := fun _ => ⟨0, 0, 0, 0⟩
  availRing := fun _ => 0
  availIdx := 0
  notified := false
  seen := 0
  served := none
  mem := mem
  disk := disk

/-- The header of a request. A block has eight sectors. -/
def Request.header (r : Request) : BlkOutHdr where
  type := if r.write then VIRTIO_BLK_T_OUT else VIRTIO_BLK_T_IN
  reserved := 0
  sector := r.blockno * (PGSIZE / 512)

def Request.desc (r : Request) : Nat → VRingDesc
  | 0 => ⟨L.headPa, 16, VRING_DESC_F_NEXT, 1⟩
  | 1 => ⟨r.buf, PGSIZE, VRING_DESC_F_NEXT ||| (if !r.write then VRING_DESC_F_WRITE else 0), 2⟩
  | _ => ⟨L.statusPa, 1, VRING_DESC_F_WRITE, 0⟩

namespace State

/-- The store at `pc`, and where the driver stands after it. A poll that sees another status returns. -/
def driverStep (s : State β) (r : Request) : Pc → State β
  | .header => { s with hdr := r.header, call := some (.descriptors, r) }
  | .descriptors => { s with desc := fun i => if i < 3 then r.desc L i else s.desc i, call := some (.ring, r) }
  | .ring => { s with availRing := Function.update s.availRing (s.availIdx % 8) 0, call := some (.publish, r) }
  | .publish => { s with availIdx := (s.availIdx + 1) % 2 ^ 16, call := some (.notify, r) }
  | .notify => { s with notified := true, call := some (.status, r) }
  | .status => { s with status := 0xFF, call := some (.poll, r) }
  | .poll => if s.status ≠ 0xFF then { s with call := none } else s

/-- The header that the device reads at an address. -/
def headerAt (s : State β) (pa : Nat) : BlkOutHdr := if pa = L.headPa then s.hdr else ⟨0, 0, 0⟩

/-- The request that the device finds in the chain of descriptors from `head` on. -/
def decode (s : State β) (head : Nat) : Request where
  buf := (s.desc (s.desc head).next).addr
  blockno := (s.headerAt L (s.desc head).addr).sector / (PGSIZE / 512)
  write := (s.headerAt L (s.desc head).addr).type = VIRTIO_BLK_T_OUT

/-- The device serves the next request of the ring: it moves the data and stores 0 where the third
descriptor points. -/
def deviceStep (s : State β) : State β :=
  let head := s.availRing (s.seen % 8)
  let r := s.decode L head
  let seen := (s.seen + 1) % 2 ^ 16
  { s with
    mem := if r.write then s.mem else Function.update s.mem r.buf (s.disk r.blockno)
    disk := if r.write then Function.update s.disk r.blockno (s.mem r.buf) else s.disk
    status := if (s.desc (s.desc (s.desc head).next).next).addr = L.statusPa then 0 else s.status
    seen := seen
    notified := seen ≠ s.availIdx
    served := some r }

end State

inductive Step : State β → State β → Prop
  | call {s : State β} (r : Request) (hr : r.blockno < 2 ^ 32) (h : s.call = none) :
      Step s { s with call := some (.header, r), served := none }
  | driver {s : State β} {pc : Pc} {r : Request} (h : s.call = some (pc, r)) : Step s (s.driverStep L r pc)
  | device {s : State β} (hn : s.notified = true) (hs : s.seen ≠ s.availIdx) : Step s (s.deviceStep L)
  /-- Between two calls the kernel uses its buffers. -/
  | kernel {s : State β} (mem : Nat → β) (h : s.call = none) : Step s { s with mem := mem }

/-- The states that steps reach, each of which is allowed. -/
inductive Run (allowed : State β → State β → Prop) (s₀ : State β) : State β → Prop
  | start : Run allowed s₀ s₀
  | step {s s' : State β} (h : Run allowed s₀ s) (hs : Step L s s') (ha : allowed s s') : Run allowed s₀ s'

/-- No request is in the ring. -/
def Ready (s : State β) : Prop := s.notified = false ∧ s.seen = s.availIdx ∧ s.availIdx < 2 ^ 16

/-- The request is encoded, and the device finds it there. -/
def Encoded (s : State β) (r : Request) : Prop := s.hdr = r.header ∧ ∀ i < 3, s.desc i = r.desc L i

def Pending (s : State β) (r : Request) : Prop :=
  s.seen < 2 ^ 16 ∧ s.availIdx = (s.seen + 1) % 2 ^ 16 ∧ s.availRing (s.seen % 8) = 0 ∧ Encoded L s r

/-- The device has completed the request, and the driver will not learn of it. -/
def Lost (s : State β) : Prop := ∃ r, s.call = some (.poll, r) ∧ s.served ≠ none ∧ s.status = 0xFF

/-- The device does not complete a request between the notification and the store of the status. -/
def Late (s s' : State β) : Prop := ∀ r, s.call = some (.status, r) → s'.served = s.served

/-- What holds where the driver stands. -/
def Progress (s : State β) (r : Request) : Pc → Prop
  | .header => Ready s ∧ s.served = none
  | .descriptors => Ready s ∧ s.served = none ∧ s.hdr = r.header
  | .ring => Ready s ∧ s.served = none ∧ Encoded L s r
  | .publish => Ready s ∧ s.served = none ∧ Encoded L s r ∧ s.availRing (s.availIdx % 8) = 0
  | .notify => Pending L s r ∧ s.served = none ∧ s.notified = false
  | .status => Pending L s r ∧ s.served = none ∨ Ready s ∧ s.served = some r
  | .poll => Pending L s r ∧ s.served = none ∧ s.status = 0xFF ∨ Ready s ∧ s.served = some r

def Inv (s : State β) : Prop :=
  match s.call with
  | none => Ready s
  | some (pc, r) => Progress L s r pc

variable {L} {s s' s₀ : State β} {r : Request} {pc : Pc}

lemma Encoded.decode_eq (h : Encoded L s r) : s.decode L 0 = r := by
  obtain ⟨hhdr, hdesc⟩ := h
  have h0 := hdesc 0 (by decide)
  have h1 := hdesc 1 (by decide)
  unfold State.decode State.headerAt
  rw [h0, show (r.desc L 0).next = 1 from rfl, h1, show (r.desc L 0).addr = L.headPa from rfl, if_pos rfl, hhdr]
  obtain ⟨buf, blockno, write⟩ := r
  have hblock : blockno * (PGSIZE / 512) / (PGSIZE / 512) = blockno := Nat.mul_div_cancel _ (by decide)
  have hwrite : decide ((if write then VIRTIO_BLK_T_OUT else VIRTIO_BLK_T_IN) = VIRTIO_BLK_T_OUT) = write := by
    cases write <;> rfl
  exact congrArg₂ (Request.mk buf) hblock hwrite

lemma Pending.deviceStep (h : Pending L s r) :
    Ready (s.deviceStep L) ∧ (s.deviceStep L).served = some r ∧ (s.deviceStep L).status = 0 := by
  obtain ⟨hseen, hidx, hring, henc⟩ := h
  have h0 := henc.2 0 (by decide)
  have h1 := henc.2 1 (by decide)
  have h2 := henc.2 2 (by decide)
  refine ⟨⟨?_, ?_, ?_⟩, ?_, ?_⟩
  · simp [State.deviceStep, hidx]
  · exact hidx.symm
  · show s.availIdx < 2 ^ 16
    rw [hidx]
    exact Nat.mod_lt _ (by decide)
  · show some (s.decode L (s.availRing (s.seen % 8))) = some r
    rw [hring, henc.decode_eq]
  · show (if (s.desc (s.desc (s.desc (s.availRing (s.seen % 8))).next).next).addr = L.statusPa then 0 else s.status) = 0
    rw [hring, h0, show (r.desc L 0).next = 1 from rfl, h1, show (r.desc L 1).next = 2 from rfl, h2]
    exact if_pos rfl

lemma Progress.driverStep (hc : s.call = some (pc, r)) (h : Progress L s r pc) : Inv L (s.driverStep L r pc) := by
  cases pc with
  | header => exact ⟨h.1, h.2, rfl⟩
  | descriptors =>
    refine ⟨h.1, h.2.1, h.2.2, fun i hi => ?_⟩
    exact if_pos hi
  | ring => exact ⟨h.1, h.2.1, h.2.2, Function.update_self ..⟩
  | publish =>
    obtain ⟨⟨hn, hseen, hlt⟩, hs, henc, hring⟩ := h
    refine ⟨⟨?_, ?_, ?_, henc⟩, hs, hn⟩
    · show s.seen < 2 ^ 16
      rwa [hseen]
    · show (s.availIdx + 1) % 2 ^ 16 = (s.seen + 1) % 2 ^ 16
      rw [hseen]
    · show s.availRing (s.seen % 8) = 0
      rwa [hseen]
  | notify => exact .inl ⟨h.1, h.2.1⟩
  | status =>
    rcases h with ⟨hp, hs⟩ | h
    · exact .inl ⟨hp, hs, rfl⟩
    · exact .inr h
  | poll =>
    unfold State.driverStep
    split_ifs with hstatus
    · rcases h with ⟨-, -, hff⟩ | h
      · exact absurd hff hstatus
      · exact h.1
    · unfold Inv
      rw [hc]
      exact h

lemma Inv.step (h : Inv L s) (hs : Step L s s') : Inv L s' := by
  cases hs with
  | call r hr hc =>
    unfold Inv at h
    rw [hc] at h
    exact ⟨h, rfl⟩
  | driver hc =>
    unfold Inv at h
    rw [hc] at h
    exact Progress.driverStep hc h
  | kernel mem hc =>
    unfold Inv at h ⊢
    rw [hc] at h ⊢
    exact h
  | device hn hne =>
    have hnot : ¬Ready s := fun hr => hne hr.2.1
    unfold Inv at h ⊢
    show match s.call with
      | none => Ready (s.deviceStep L)
      | some (pc, r) => Progress L (s.deviceStep L) r pc
    cases hc : s.call with
    | none =>
      rw [hc] at h
      exact absurd h hnot
    | some c =>
      obtain ⟨pc, r⟩ := c
      rw [hc] at h
      cases pc with
      | header => exact absurd h.1 hnot
      | descriptors => exact absurd h.1 hnot
      | ring => exact absurd h.1 hnot
      | publish => exact absurd h.1 hnot
      | notify =>
        rw [h.2.2] at hn
        cases hn
      | status =>
        have hp := (h.resolve_right fun hr => hnot hr.1).1
        exact .inr ⟨hp.deviceStep.1, hp.deviceStep.2.1⟩
      | poll =>
        have hp := (h.resolve_right fun hr => hnot hr.1).1
        exact .inr ⟨hp.deviceStep.1, hp.deviceStep.2.1⟩

lemma Run.inv {allowed : State β → State β → Prop} (h : Run L allowed s₀ s) (hc : s₀.call = none) (h0 : Ready s₀) :
    Inv L s := by
  induction h with
  | start =>
    unfold Inv
    rw [hc]
    exact h0
  | step _ hs _ ih => exact ih.step hs

/-- The driver stores the status before the device completes the request. -/
def InTime (s : State β) : Prop :=
  (∀ r, s.call = some (.status, r) → s.served = none) ∧ ∀ r, s.call = some (.poll, r) → s.served ≠ none → s.status ≠ 0xFF

lemma InTime.step (hi : Inv L s) (h : InTime s) (hs : Step L s s') (hl : Late s s') : InTime s' := by
  cases hs with
  | call r hr hc => exact ⟨nofun, nofun⟩
  | kernel mem hc => exact h
  | device hn hne =>
    refine ⟨fun r hc => ?_, fun r hc _ => ?_⟩
    · rw [hl r hc]
      exact h.1 r hc
    · unfold Inv at hi
      rw [show s.call = some (.poll, r) from hc] at hi
      have hp := (hi.resolve_right fun hr => hne hr.1.2.1).1
      rw [hp.deviceStep.2.2]
      decide
  | @driver pc r hc =>
    unfold Inv at hi
    rw [hc] at hi
    cases pc with
    | header => exact ⟨nofun, nofun⟩
    | descriptors => exact ⟨nofun, nofun⟩
    | ring => exact ⟨nofun, nofun⟩
    | publish => exact ⟨nofun, nofun⟩
    | notify => exact ⟨fun _ _ => hi.2.1, nofun⟩
    | status => exact ⟨nofun, fun _ _ hne => absurd (h.1 r hc) hne⟩
    | poll =>
      unfold State.driverStep
      split_ifs
      · exact ⟨nofun, nofun⟩
      · exact h

/-- A call returns only after the device has completed its request. If the device never completes a
request before the driver has stored the status, no completion is lost. -/
theorem completion_noticed (hc : s₀.call = none) (h₀ : Ready s₀) :
    (∀ s r, Run L (fun _ _ => True) s₀ s → s.call = some (.poll, r) → (s.driverStep L r .poll).call = none →
      s.served = some r) ∧
    (∀ s, Run L Late s₀ s → ¬Lost s) ∧
    ∀ s r, Run L (fun _ _ => True) s₀ s → s.call = some (.status, r) →
      (Lost (s.driverStep L r .status) ↔ s.served ≠ none) := by
  refine ⟨fun s r hrun hcall hret => ?_, fun s hrun => ?_, fun s r hrun hcall => ?_⟩
  · have hinv := hrun.inv hc h₀
    unfold Inv at hinv
    rw [hcall] at hinv
    rcases hinv with ⟨-, -, hff⟩ | hdone
    · unfold State.driverStep at hret
      rw [if_neg (not_not.mpr hff), hcall] at hret
      cases hret
    · exact hdone.2
  · have hboth : Inv L s ∧ InTime s := by
      induction hrun with
      | start =>
        refine ⟨(Run.start : Run L Late s₀ s₀).inv hc h₀, ?_⟩
        unfold InTime
        rw [hc]
        exact ⟨nofun, nofun⟩
      | step _ hs hl ih => exact ⟨ih.1.step hs, ih.2.step ih.1 hs hl⟩
    rintro ⟨r, hcall, hserved, hff⟩
    exact hboth.2.2 r hcall hserved hff
  · constructor
    · rintro ⟨-, -, hserved, -⟩
      exact hserved
    · exact fun hserved => ⟨r, rfl, hserved, rfl⟩

/-- The device answers the first read after the driver has stored the status. -/
theorem completion_noticed_init : ∃ s : State Nat,
    Run ⟨0x80040000, 0x80040080⟩ Late (State.init (fun _ => 0) fun n => n) s ∧ s.served = some ⟨0x80050000, 7, false⟩ ∧
      s.mem 0x80050000 = 7 ∧ ¬Lost s := by
  have hstart : Run ⟨0x80040000, 0x80040080⟩ Late (State.init (fun _ => 0) fun n => n) _ := .start
  have hcall := hstart.step (.call ⟨0x80050000, 7, false⟩ (by decide) rfl) nofun
  have hnotified := ((((hcall.step (.driver rfl) nofun).step (.driver rfl) nofun).step (.driver rfl) nofun).step
    (.driver rfl) nofun).step (.driver rfl) nofun
  have hserved := (hnotified.step (.driver rfl) fun _ _ => rfl).step (.device rfl (by decide)) nofun
  exact ⟨_, hserved, rfl, rfl, (completion_noticed rfl ⟨rfl, rfl, by decide⟩).2.1 _ hserved⟩

/-- The device answers the first read before the driver stores the status. -/
theorem completion_lost :
    ∃ s : State Nat, Run ⟨0x80040000, 0x80040080⟩ (fun _ _ => True) (State.init (fun _ => 0) fun n => n) s ∧
      Lost s := by
  have hstart : Run ⟨0x80040000, 0x80040080⟩ (fun _ _ => True) (State.init (fun _ => 0) fun n => n) _ := .start
  have hcall := hstart.step (.call ⟨0x80050000, 7, false⟩ (by decide) rfl) trivial
  have hnotified := ((((hcall.step (.driver rfl) trivial).step (.driver rfl) trivial).step (.driver rfl) trivial).step
    (.driver rfl) trivial).step (.driver rfl) trivial
  have hserved := hnotified.step (.device rfl (by decide)) trivial
  exact ⟨_, hserved.step (.driver rfl) trivial, ⟨0x80050000, 7, false⟩, rfl, nofun, rfl⟩

end Glenda.Drivers.Disk
