import Mathlib.Tactic

/-!
# Inter-processor interrupts of the two local APIC drivers

A driver is the list of register writes each of its operations makes.  The
hardware turns a write to the interrupt command register into a delivery; the
xAPIC takes the destination from `ICR2`, which is written before and keeps its
value, and the x2APIC from the upper half of the register itself.
-/

namespace NopOS.Smp.ApicDriver

/-- A 32-bit register value. -/
abbrev U32 := BitVec 32

/-- The value of a model specific register. -/
abbrev U64 := BitVec 64

/-! ## The registers -/

/-- The two memory mapped registers that the drivers write. -/
inductive Apicreg where
  | icr
  | icr2
deriving DecidableEq

/-- The offset of each register in the local APIC's page, as `apicreg` lists
them. -/
def Apicreg.offset : Apicreg → Nat
  | .icr => 0x300
  | .icr2 => 0x310

/-- The two model specific registers that the x2APIC driver writes. -/
inductive Msr where
  | x2apicIcr
  | x2apicSelfIpi
deriving DecidableEq

/-- The index each register has for `wrmsr`. -/
def Msr.index : Msr → Nat
  | .x2apicIcr => 0x830
  | .x2apicSelfIpi => 0x83f

/-- Destination shorthand: this processor only. -/
def apicShorthandSelf : U32 := 0x40000

/-- Destination shorthand: every processor but this one. -/
def apicShorthandAllbutself : U32 := 0xC0000

/-- The fixed delivery type, which is no bit at all. -/
def apicIcrTypeFixed : U32 := 0x00000

/-- The level bit that asserts an interrupt. -/
def apicIcrLevelAssert : U32 := 1 <<< 14

/-- Where the destination starts in the high command register. -/
def icr2DestinationShift : Nat := 24

/-- The delivery mode of a non-maskable interrupt. -/
def nmiDelivery : U32 := 4

/-- A delivery mode in its place in the command register. -/
def apicDelivery (mode : U32) : U32 :=
  mode <<< 8

/-- A write of a driver: to the memory-mapped registers, or to an MSR. -/
inductive Write where
  | mmio (register : Apicreg) (value : U32)
  | wrmsr (register : Msr) (value : U64)
deriving DecidableEq

/-! ## The drivers -/

/-- An operation of `apic_driver`. -/
inductive Operation where
  | selfIpi (vector : U32)
  | ipi (apicId vector : U32)
  | initIpi (apicId vector : U32)
  | ipiAllbutself (vector : U32)
  | nmiAllbutself
deriving DecidableEq

namespace Xapic

/-- `xapic::ipi` writes the destination first, since the second write sends. -/
def ipi (apicId vector : U32) : List Write :=
  [.mmio .icr2 (apicId <<< icr2DestinationShift),
    .mmio .icr (vector ||| apicIcrLevelAssert)]

/-- `xapic::self_ipi` calls `ipi` with the shorthand where `ipi` takes a
processor's id. -/
def selfIpi (vector : U32) : List Write :=
  ipi (apicIcrTypeFixed ||| apicShorthandSelf) vector

/-- `xapic::init_ipi` is `ipi` under another name. -/
def initIpi (apicId vector : U32) : List Write :=
  ipi apicId vector

/-- `xapic::ipi_allbutself` needs no destination. -/
def ipiAllbutself (vector : U32) : List Write :=
  [.mmio .icr
    (apicIcrTypeFixed ||| apicShorthandAllbutself ||| vector |||
      apicIcrLevelAssert)]

/-- `xapic::nmi_allbutself` asserts no level. -/
def nmiAllbutself : List Write :=
  [.mmio .icr
    (apicIcrTypeFixed ||| apicShorthandAllbutself |||
      apicDelivery nmiDelivery)]

/-- The register writes of the xAPIC driver for an operation. -/
def perform : Operation → List Write
  | .selfIpi vector => selfIpi vector
  | .ipi apicId vector => ipi apicId vector
  | .initIpi apicId vector => initIpi apicId vector
  | .ipiAllbutself vector => ipiAllbutself vector
  | .nmiAllbutself => nmiAllbutself

end Xapic

namespace X2apic

/-- `x2apic::self_ipi` has a register of its own. -/
def selfIpi (vector : U32) : List Write :=
  [.wrmsr .x2apicSelfIpi (vector.setWidth 64)]

/-- `x2apic::ipi` sends the destination and the command in one write. -/
def ipi (apicId vector : U32) : List Write :=
  [.wrmsr .x2apicIcr
    (vector.setWidth 64 ||| (apicId.setWidth 64 <<< 32) |||
      apicIcrLevelAssert.setWidth 64)]

/-- `x2apic::init_ipi` does not assert the level. -/
def initIpi (apicId vector : U32) : List Write :=
  [.wrmsr .x2apicIcr (vector.setWidth 64 ||| (apicId.setWidth 64 <<< 32))]

/-- `x2apic::ipi_allbutself` leaves the upper half of the command zero. -/
def ipiAllbutself (vector : U32) : List Write :=
  [.wrmsr .x2apicIcr
    ((vector ||| apicShorthandAllbutself |||
      apicIcrLevelAssert).setWidth 64)]

/-- `x2apic::nmi_allbutself` asserts the level. -/
def nmiAllbutself : List Write :=
  [.wrmsr .x2apicIcr
    ((apicShorthandAllbutself ||| apicDelivery nmiDelivery |||
      apicIcrLevelAssert).setWidth 64)]

/-- The register writes of the x2APIC driver for an operation. -/
def perform : Operation → List Write
  | .selfIpi vector => selfIpi vector
  | .ipi apicId vector => ipi apicId vector
  | .initIpi apicId vector => initIpi apicId vector
  | .ipiAllbutself vector => ipiAllbutself vector
  | .nmiAllbutself => nmiAllbutself

end X2apic

/-! ## The hardware -/

/-- An interrupt which arrives at a set of processors. -/
structure Delivery where
  mode : BitVec 3
  vector : BitVec 8
  recipients : Finset U32
deriving DecidableEq

/-- The processors a command is for, by its shorthand. -/
def recipients
    (cpus : Finset U32) (sender : U32)
    (shorthand : BitVec 2) (broadcast destination : U32) : Finset U32 :=
  match shorthand with
  | 0 => if destination = broadcast then cpus else cpus.filter (· = destination)
  | 1 => {sender}
  | 2 => cpus
  | 3 => cpus.erase sender

/-- A command given by the low half of the register and a destination. -/
def command
    (cpus : Finset U32) (sender broadcast destination low : U32) :
    Delivery where
  mode := low.extractLsb' 8 3
  vector := low.extractLsb' 0 8
  recipients :=
    recipients cpus sender (low.extractLsb' 18 2) broadcast destination

/-- What the writes of `sender` cause, given what `ICR2` holds. -/
def deliveries
    (cpus : Finset U32) (sender : U32) :
    (icr2 : U32) → List Write → List Delivery
  | _, [] => []
  | icr2, .mmio register value :: later =>
      if register.offset = 0x310 then
        deliveries cpus sender value later
      else if register.offset = 0x300 then
        command cpus sender 0xFF ((icr2.extractLsb' 24 8).setWidth 32) value ::
          deliveries cpus sender icr2 later
      else deliveries cpus sender icr2 later
  | icr2, .wrmsr register value :: later =>
      if register.index = 0x830 then
        command cpus sender 0xFFFFFFFF
            (value.extractLsb' 32 32) (value.extractLsb' 0 32) ::
          deliveries cpus sender icr2 later
      else if register.index = 0x83f then
        ⟨0, value.extractLsb' 0 8, {sender}⟩ ::
          deliveries cpus sender icr2 later
      else deliveries cpus sender icr2 later

variable {cpus : Finset U32} {sender broadcast destination low : U32}

/-! ## The command register -/

/-- The level is in no field which selects a vector or a processor. -/
@[simp]
theorem command_levelAssert :
    command cpus sender broadcast destination (low ||| apicIcrLevelAssert) =
      command cpus sender broadcast destination low := by
  have mode : apicIcrLevelAssert.extractLsb' 8 3 = 0 := by decide
  have vector : apicIcrLevelAssert.extractLsb' 0 8 = 0 := by decide
  have shorthand : apicIcrLevelAssert.extractLsb' 18 2 = 0 := by decide
  simp only [command, BitVec.extractLsb'_or, mode, vector, shorthand,
    BitVec.ofNat_eq_ofNat, BitVec.or_zero]

/-- A vector alone asks for a fixed interrupt at the destination. -/
theorem fields_of_vector {vector : U32} (isVector : vector.toNat < 256) :
    vector.extractLsb' 8 3 = 0 ∧ vector.extractLsb' 18 2 = 0 := by
  constructor
  · apply BitVec.eq_of_toNat_eq
    rw [BitVec.extractLsb'_toNat, Nat.shiftRight_eq_div_pow,
      Nat.div_eq_of_lt (by simpa using isVector)]
    rfl
  · apply BitVec.eq_of_toNat_eq
    rw [BitVec.extractLsb'_toNat, Nat.shiftRight_eq_div_pow,
      Nat.div_eq_of_lt (by omega)]
    rfl

/-- With a shorthand the destination does not matter. -/
theorem command_of_shorthand
    (shorthand : low.extractLsb' 18 2 ≠ 0)
    (otherBroadcast otherDestination : U32) :
    command cpus sender broadcast destination low =
      command cpus sender otherBroadcast otherDestination low := by
  simp only [command, recipients]
  split
  · contradiction
  · rfl
  · rfl
  · rfl

/-- Which destination addresses all processors does not matter to the others. -/
theorem command_of_ne_broadcast
    {otherBroadcast : U32}
    (notAll : destination ≠ broadcast)
    (notAllOther : destination ≠ otherBroadcast) :
    command cpus sender broadcast destination low =
      command cpus sender otherBroadcast destination low := by
  simp only [command, recipients, if_neg notAll, if_neg notAllOther]

/-- A write to the xAPIC register sends at once. -/
@[simp]
theorem deliveries_icr (icr2 low : U32) :
    deliveries cpus sender icr2 [.mmio .icr low] =
      [command cpus sender 0xFF ((icr2.extractLsb' 24 8).setWidth 32) low] :=
  rfl

@[simp]
theorem deliveries_x2apicIcr (icr2 : U32) (value : U64) :
    deliveries cpus sender icr2 [.wrmsr .x2apicIcr value] =
      [command cpus sender 0xFFFFFFFF
        (value.extractLsb' 32 32) (value.extractLsb' 0 32)] :=
  rfl

/-! ## What the drivers deliver -/

theorem destination_of_icr2 {apicId : U32} (fits : apicId.toNat < 256) :
    ((apicId <<< icr2DestinationShift).extractLsb' 24 8).setWidth 32 =
      apicId := by
  apply BitVec.eq_of_toNat_eq
  simp only [icr2DestinationShift, BitVec.toNat_setWidth,
    BitVec.extractLsb'_toNat, BitVec.toNat_shiftLeft,
    Nat.shiftLeft_eq, Nat.shiftRight_eq_div_pow]
  omega

theorem destination_of_x2apicIcr (apicId low : U32) :
    (low.setWidth 64 ||| (apicId.setWidth 64 <<< 32)).extractLsb' 32 32 =
      apicId := by
  ext bit inWord
  have inUpper : 32 + bit < 64 := by omega
  simp [BitVec.getElem_extractLsb', inUpper, BitVec.getLsbD_eq_getElem inWord]

theorem low_of_setWidth (low : U32) :
    (low.setWidth 64).extractLsb' 0 32 = low := by
  ext bit inWord
  have inHalf : bit < 64 := by omega
  simp [BitVec.getElem_extractLsb', inWord, inHalf]

theorem low_of_x2apicIcr (apicId low : U32) :
    (low.setWidth 64 ||| (apicId.setWidth 64 <<< 32)).extractLsb' 0 32 =
      low := by
  ext bit inWord
  have inHalf : bit < 64 := by omega
  simp [BitVec.getElem_extractLsb', inWord, inHalf]

theorem xapic_ipi
    (icr2 : U32) {apicId : U32} (fits : apicId.toNat < 256) (vector : U32) :
    deliveries cpus sender icr2 (Xapic.ipi apicId vector) =
      [command cpus sender 0xFF apicId vector] := by
  simp [Xapic.ipi, deliveries, Apicreg.offset, destination_of_icr2 fits]

/-- The command goes to processor 0. -/
theorem xapic_selfIpi (icr2 vector : U32) :
    deliveries cpus sender icr2 (Xapic.selfIpi vector) =
      [command cpus sender 0xFF 0 vector] := by
  -- the shorthand is shifted out of `ICR2`
  have shiftedOut :
      (((apicIcrTypeFixed ||| apicShorthandSelf) <<<
            icr2DestinationShift).extractLsb' 24 8).setWidth 32 =
        (0 : U32) := by
    decide
  simp only [Xapic.selfIpi, Xapic.ipi, deliveries, Apicreg.offset, if_true,
    shiftedOut, command_levelAssert]
  rfl

theorem x2apic_initIpi (icr2 apicId vector : U32) :
    deliveries cpus sender icr2 (X2apic.initIpi apicId vector) =
      [command cpus sender 0xFFFFFFFF apicId vector] := by
  rw [X2apic.initIpi, deliveries_x2apicIcr, destination_of_x2apicIcr,
    low_of_x2apicIcr]

theorem x2apic_ipi (icr2 apicId vector : U32) :
    deliveries cpus sender icr2 (X2apic.ipi apicId vector) =
      [command cpus sender 0xFFFFFFFF apicId vector] := by
  have levelFirst :
      vector.setWidth 64 ||| (apicId.setWidth 64 <<< 32) |||
          apicIcrLevelAssert.setWidth 64 =
        (vector ||| apicIcrLevelAssert).setWidth 64 |||
          (apicId.setWidth 64 <<< 32) := by
    rw [BitVec.setWidth_or, BitVec.or_assoc, BitVec.or_assoc,
      BitVec.or_comm (apicId.setWidth 64 <<< 32)]
  rw [X2apic.ipi, deliveries_x2apicIcr, levelFirst, destination_of_x2apicIcr,
    low_of_x2apicIcr, command_levelAssert]

theorem shorthand_of_allbutself (low : U32) :
    (low ||| apicShorthandAllbutself).extractLsb' 18 2 = 3 := by
  have shorthand : apicShorthandAllbutself.extractLsb' 18 2 = 3 := by decide
  rw [BitVec.extractLsb'_or, shorthand]
  generalize low.extractLsb' 18 2 = own
  revert own
  decide

/-- With the shorthand for all but the sender the rest decides the delivery. -/
theorem command_allbutself
    (otherBroadcast otherDestination : U32) :
    command cpus sender broadcast destination
        (low ||| apicShorthandAllbutself) =
      command cpus sender otherBroadcast otherDestination
        (low ||| apicShorthandAllbutself) := by
  apply command_of_shorthand
  rw [shorthand_of_allbutself]
  decide

/-- Both drivers reach all the others. -/
theorem ipiAllbutself_agree (icr2 vector : U32) :
    deliveries cpus sender icr2 (Xapic.ipiAllbutself vector) =
      deliveries cpus sender icr2 (X2apic.ipiAllbutself vector) := by
  have sameLow :
      apicIcrTypeFixed ||| apicShorthandAllbutself ||| vector =
        vector ||| apicShorthandAllbutself := by
    rw [BitVec.or_comm vector]
    simp [apicIcrTypeFixed]
  rw [Xapic.ipiAllbutself, X2apic.ipiAllbutself, deliveries_icr,
    deliveries_x2apicIcr, low_of_setWidth, sameLow, command_levelAssert,
    command_levelAssert]
  exact congrArg (fun sent => [sent]) (command_allbutself _ _)

/-- The level makes no difference. -/
theorem nmiAllbutself_agree (icr2 : U32) :
    deliveries cpus sender icr2 Xapic.nmiAllbutself =
      deliveries cpus sender icr2 X2apic.nmiAllbutself := by
  have xapicLow :
      apicIcrTypeFixed ||| apicShorthandAllbutself |||
          apicDelivery nmiDelivery =
        apicDelivery nmiDelivery ||| apicShorthandAllbutself := by
    decide
  have x2apicLow :
      apicShorthandAllbutself ||| apicDelivery nmiDelivery =
        apicDelivery nmiDelivery ||| apicShorthandAllbutself := by
    decide
  rw [Xapic.nmiAllbutself, X2apic.nmiAllbutself, deliveries_icr,
    deliveries_x2apicIcr, low_of_setWidth, xapicLow, x2apicLow,
    command_levelAssert]
  exact congrArg (fun sent => [sent]) (command_allbutself _ _)

/-- To one processor both drivers send the same, whatever its id below 255. -/
theorem command_unicast {apicId : U32} (small : apicId.toNat < 255) :
    command cpus sender 0xFF apicId low =
      command cpus sender 0xFFFFFFFF apicId low := by
  apply command_of_ne_broadcast
  · rintro rfl
    simp at small
  · rintro rfl
    simp at small

/-- Both drivers reach the processor with the given id. -/
theorem ipi_agree
    (icr2 : U32) {apicId : U32} (small : apicId.toNat < 255) (vector : U32) :
    deliveries cpus sender icr2 (Xapic.ipi apicId vector) =
      deliveries cpus sender icr2 (X2apic.ipi apicId vector) := by
  rw [xapic_ipi icr2 (by omega), x2apic_ipi, command_unicast small]

/-- And so they do for INIT. -/
theorem initIpi_agree
    (icr2 : U32) {apicId : U32} (small : apicId.toNat < 255) (vector : U32) :
    deliveries cpus sender icr2 (Xapic.initIpi apicId vector) =
      deliveries cpus sender icr2 (X2apic.initIpi apicId vector) := by
  rw [Xapic.initIpi, xapic_ipi icr2 (by omega), x2apic_initIpi,
    command_unicast small]

/-! ## An interrupt to itself -/

theorem recipients_unicast_zero
    (present : sender ∈ cpus) :
    cpus.filter (· = 0) = {sender} ↔ sender = 0 := by
  constructor
  · intro same
    have own : sender ∈ cpus.filter (· = 0) := by
      rw [same]
      exact Finset.mem_singleton_self sender
    exact (Finset.mem_filter.1 own).2
  · rintro rfl
    rw [Finset.filter_eq', if_pos present]

/-- The self IPI is the sender's own only on processor 0. -/
theorem selfIpi_agree_iff
    (icr2 : U32) {vector : U32}
    (present : sender ∈ cpus) (isVector : vector.toNat < 256) :
    deliveries cpus sender icr2 (Xapic.selfIpi vector) =
        deliveries cpus sender icr2 (X2apic.selfIpi vector) ↔
      sender = 0 := by
  rcases fields_of_vector isVector with ⟨fixed, noShorthand⟩
  have x2apic :
      deliveries cpus sender icr2 (X2apic.selfIpi vector) =
        [⟨0, vector.extractLsb' 0 8, {sender}⟩] := by
    have sent :
        (vector.setWidth 64).extractLsb' 0 8 = vector.extractLsb' 0 8 := by
      ext bit inVector
      have inHalf : bit < 64 := by omega
      simp [BitVec.getElem_extractLsb', inHalf]
    rw [← sent]
    rfl
  have xapic :
      deliveries cpus sender icr2 (Xapic.selfIpi vector) =
        [⟨0, vector.extractLsb' 0 8, cpus.filter (· = 0)⟩] := by
    rw [xapic_selfIpi, command, fixed, noShorthand]
    rfl
  rw [xapic, x2apic, List.singleton_inj, Delivery.mk.injEq]
  simp only [true_and]
  exact recipients_unicast_zero present

/-! ## One interface -/

/-- The arguments the callers of `apic_driver` may pass. -/
def Operation.Allowed (cpus : Finset U32) : Operation → Prop
  | .selfIpi vector => vector.toNat < 256
  | .ipi apicId vector => apicId ∈ cpus ∧ vector.toNat < 256
  | .initIpi apicId vector =>
      apicId ∈ cpus ∧
        (vector.toNat < 256 ∨ vector = 0x4500 ∨
          0x4600 ≤ vector.toNat ∧ vector.toNat < 0x4700)
  | .ipiAllbutself vector => vector.toNat < 256
  | .nmiAllbutself => True

/-- The operation on which the two drivers part. -/
def Operation.IsSelfIpi : Operation → Prop
  | .selfIpi _ => True
  | _ => False

/--
The two drivers deliver the same exactly if the operation is not an interrupt
to itself from another processor than the one with id 0.
-/
theorem drivers_agree_iff
    {cpus : Finset U32} {sender : U32} {operation : Operation}
    (small : ∀ apicId ∈ cpus, apicId.toNat < 255)
    (present : sender ∈ cpus)
    (allowed : operation.Allowed cpus)
    (icr2 : U32) :
    deliveries cpus sender icr2 (Xapic.perform operation) =
        deliveries cpus sender icr2 (X2apic.perform operation) ↔
      (operation.IsSelfIpi → sender = 0) := by
  cases operation with
  | selfIpi vector =>
      exact (selfIpi_agree_iff icr2 present allowed).trans
        ⟨fun zero _ => zero, fun zero => zero trivial⟩
  | ipi apicId vector =>
      exact iff_of_true
        (ipi_agree icr2 (small apicId allowed.1) vector) False.elim
  | initIpi apicId vector =>
      exact iff_of_true
        (initIpi_agree icr2 (small apicId allowed.1) vector) False.elim
  | ipiAllbutself vector =>
      exact iff_of_true (ipiAllbutself_agree icr2 vector) False.elim
  | nmiAllbutself =>
      exact iff_of_true (nmiAllbutself_agree icr2) False.elim

/-- An INIT from processor 0 to processor 1. -/
theorem drivers_agree_iff_init :
    deliveries {0, 1} 0 0 (Xapic.perform (.initIpi 1 0x4600)) =
        deliveries {0, 1} 0 0 (X2apic.perform (.initIpi 1 0x4600)) ↔
      (Operation.IsSelfIpi (.initIpi 1 0x4600) → (0 : U32) = 0) := by
  have small : ∀ apicId ∈ ({0, 1} : Finset U32), apicId.toNat < 255 := by
    simp
  have allowed : Operation.Allowed {0, 1} (.initIpi 1 0x4600) :=
    ⟨by decide, Or.inr (Or.inr ⟨by decide, by decide⟩)⟩
  exact drivers_agree_iff small (by decide) allowed 0

/-- What processor 1 sends to itself arrives at processor 0. -/
theorem xapic_selfIpi_reaches_zero :
    deliveries {0, 1} 1 0 (Xapic.perform (.selfIpi 0x30)) =
        [⟨0, 0x30, {0}⟩] ∧
      deliveries {0, 1} 1 0 (X2apic.perform (.selfIpi 0x30)) =
        [⟨0, 0x30, {1}⟩] ∧
      deliveries {0, 1} 1 0 (Xapic.perform (.selfIpi 0x30)) ≠
        deliveries {0, 1} 1 0 (X2apic.perform (.selfIpi 0x30)) := by
  decide

end NopOS.Smp.ApicDriver
