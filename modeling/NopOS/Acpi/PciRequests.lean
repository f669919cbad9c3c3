import NopOS.Acpi.PciConfiguration

/-!
# Requests which are out of range

The numbers of a function come in 16 bits and a register in 32, of which the
address register holds 8, 5, 3 and 8.  Nothing compares them with what there
is room for: they are cut to bytes and packed by shifts, so that a device
above 31 reaches into the bus and a function above 7 into the device.
-/

namespace NopOS.Acpi.PciRequests

open NopOS.Acpi.InterruptHandlers (AcpiStatus)
open NopOS.Acpi.PciConfiguration

/-! ## Where a request goes -/

/-- The function which is selected for numbers of any size. -/
def selects (pciId : AcpiPciId) : PciFunction where
  bus := pciId.bus.setWidth 8 ||| pciId.device.setWidth 8 >>> 5
  device :=
    (pciId.device.setWidth 8).setWidth 5 |||
      (pciId.function.setWidth 8 >>> 3).setWidth 5
  function := (pciId.function.setWidth 8).setWidth 3

/-- What is too large for a field goes over into the next one. -/
theorem buildConfigAddress_overlap (bus device function offset : U8) :
    buildConfigAddress bus device function offset =
      buildConfigAddress (bus ||| device >>> 5)
        ((device.setWidth 5 ||| (function >>> 3).setWidth 5).setWidth 8)
        ((function.setWidth 3).setWidth 8) offset := by
  have packed :
      bus.setWidth 32 <<< 16 ||| device.setWidth 32 <<< 11 |||
          function.setWidth 32 <<< 8 =
        (bus ||| device >>> 5).setWidth 32 <<< 16 |||
            ((device.setWidth 5 ||| (function >>> 3).setWidth 5).setWidth
              8).setWidth 32 <<< 11 |||
          ((function.setWidth 3).setWidth 8).setWidth 32 <<< 8 := by
    apply BitVec.eq_of_getLsbD_eq
    intro bit inWord
    simp only [BitVec.getLsbD_or, BitVec.getLsbD_shiftLeft,
      BitVec.getLsbD_setWidth, BitVec.getLsbD_ushiftRight]
    interval_cases bit <;> simp [Bool.or_comm]
  exact congrArg (· ||| (offset.setWidth 32 &&& ~~~3)) packed

/-- The exponent of the number of bytes of a width. -/
def byteExponent (width : U32) : Nat :=
  if width = 32 then 2 else if width = 16 then 1 else 0

theorem two_pow_byteExponent
    {width : U32} (widths : width = 8 ∨ width = 16 ∨ width = 32) :
    2 ^ byteExponent width = width.toNat / 8 := by
  rcases widths with rfl | rfl | rfl
  all_goals rfl

/-- The register is cut to a byte and its lowest bits are ignored. -/
def cutRegister (reg width : U32) : U8 :=
  reg.setWidth 8 >>> byteExponent width <<< byteExponent width

/-- The register that is accessed is aligned. -/
theorem dvd_toNat_cutRegister
    (reg : U32) {width : U32}
    (widths : width = 8 ∨ width = 16 ∨ width = 32) :
    width.toNat / 8 ∣ (cutRegister reg width).toNat := by
  have fits : 2 ^ byteExponent width ∣ 2 ^ 8 := by
    rw [two_pow_byteExponent widths]
    rcases widths with rfl | rfl | rfl <;> decide
  rw [← two_pow_byteExponent widths, cutRegister, BitVec.toNat_shiftLeft,
    Nat.shiftLeft_eq, Nat.dvd_mod_iff fits]
  exact Nat.dvd_mul_left _ _

/-- The access which is made for a register of any size. -/
def redirected
    (reg width : U32) (widths : width = 8 ∨ width = 16 ∨ width = 32) :
    Access where
  reg := (cutRegister reg width).setWidth 32
  width := width
  widths := widths
  inside := by
    rw [BitVec.toNat_setWidth_of_le (by decide)]
    exact (cutRegister reg width).isLt
  aligned := by
    rw [BitVec.toNat_setWidth_of_le (by decide)]
    exact dvd_toNat_cutRegister reg widths

theorem setWidth_redirected
    (reg : U32) {width : U32}
    (widths : width = 8 ∨ width = 16 ∨ width = 32) :
    (redirected reg width widths).reg.setWidth 8 = cutRegister reg width := by
  simp [redirected]

/-- A mask does not see the lowest bits which it lacks. -/
theorem setWidth_cut_and
    {width : Nat} (byte : U8) {exponent : Nat} {mask : BitVec width}
    (clear : ∀ bit < exponent, mask.getLsbD bit = false) :
    (byte >>> exponent <<< exponent).setWidth width &&& mask =
      byte.setWidth width &&& mask := by
  apply BitVec.eq_of_getLsbD_eq
  intro bit inWord
  by_cases low : bit < exponent
  · simp [clear bit low]
  · have restored : exponent + (bit - exponent) = bit := by omega
    by_cases inByte : bit < 8
    · simp [low, restored, inByte]
    · have beyond : byte.getLsbD bit = false :=
        BitVec.getLsbD_of_ge _ _ (not_lt.mp inByte)
      simp [inByte, beyond]

theorem byteExponent_le (width : U32) : byteExponent width ≤ 2 := by
  unfold byteExponent
  split_ifs
  all_goals decide

/-- A request selects the function and the register of its redirection. -/
theorem preparePciConfigAccess_redirected
    (pciId : AcpiPciId) (reg : U32) {width : U32}
    (widths : width = 8 ∨ width = 16 ∨ width = 32) (bridge : HostBridge) :
    preparePciConfigAccess (pciId.bus.setWidth 8) (pciId.device.setWidth 8)
        (pciId.function.setWidth 8) (reg.setWidth 8) bridge =
      prepared (selects pciId) (redirected reg width widths).reg bridge := by
  have register := setWidth_redirected reg widths
  have offset :
      (cutRegister reg width).setWidth 32 &&& ~~~3 =
        (reg.setWidth 8).setWidth 32 &&& (~~~3 : U32) := by
    apply setWidth_cut_and
    intro bit low
    have atMost := byteExponent_le width
    have oneOf : bit = 0 ∨ bit = 1 := by omega
    rcases oneOf with rfl | rfl
    all_goals rfl
  have bus :
      ((selects pciId).bus.setWidth 16).setWidth 8 = (selects pciId).bus := by
    simp
  have device :
      ((selects pciId).device.setWidth 16).setWidth 8 =
        (selects pciId).device.setWidth 8 :=
    BitVec.setWidth_setWidth (by decide)
  have function :
      ((selects pciId).function.setWidth 16).setWidth 8 =
        (selects pciId).function.setWidth 8 :=
    BitVec.setWidth_setWidth (by decide)
  unfold prepared preparePciConfigAccess
  rw [bus, device, function, register, buildConfigAddress_overlap]
  unfold buildConfigAddress
  rw [offset]
  rfl

theorem lane_redirected
    (reg : U32) {width : U32}
    (widths : width = 8 ∨ width = 16 ∨ width = 32) (mask : U8)
    (clear : ∀ bit < byteExponent width, mask.getLsbD bit = false) :
    reg.setWidth 8 &&& mask =
      (redirected reg width widths).reg.setWidth 8 &&& mask := by
  have cut := setWidth_cut_and (reg.setWidth 8) clear
  rw [BitVec.setWidth_eq, BitVec.setWidth_eq] at cut
  rw [setWidth_redirected]
  exact cut.symm

/-- Any read is the read of an access of the function which is selected. -/
theorem acpiOsReadPciConfiguration_redirected
    (pciId : AcpiPciId) (reg : U32) (value : U64) {width : U32}
    (widths : width = 8 ∨ width = 16 ∨ width = 32) (segment : U16)
    (bridge : HostBridge) :
    acpiOsReadPciConfiguration pciId reg value width bridge =
      (redirected reg width widths).read (selects pciId) segment value
        bridge := by
  have selected := preparePciConfigAccess_redirected pciId reg widths bridge
  have lane := lane_redirected reg widths
  have same : (redirected reg width widths).width = width := rfl
  rw [prepared] at selected
  rw [Access.read, same]
  generalize redirected reg width widths = access at *
  rcases widths with rfl | rfl | rfl
  · have byte := lane 0x03 fun bit low => absurd low (Nat.not_lt_zero bit)
    have answer :
        readPciConfigByte _ _ _ _ bridge = readPciConfigByte _ _ _ _ bridge :=
      congrArg₂ (fun lane bridge => (inb (pciConfigData + BitVec.toNat lane)
        bridge, bridge)) byte selected
    exact congrArg (fun answer =>
      (AcpiStatus.ok, answer.1.setWidth 64, answer.2)) answer
  · have word := lane 0x02 (by decide)
    have answer :
        readPciConfigWord _ _ _ _ bridge = readPciConfigWord _ _ _ _ bridge :=
      congrArg₂ (fun lane bridge => (inw (pciConfigData + BitVec.toNat lane)
        bridge, bridge)) word selected
    exact congrArg (fun answer =>
      (AcpiStatus.ok, answer.1.setWidth 64, answer.2)) answer
  · have answer :
        readPciConfig _ _ _ _ bridge = readPciConfig _ _ _ _ bridge :=
      congrArg (fun bridge => (inl pciConfigData bridge, bridge)) selected
    exact congrArg (fun answer =>
      (AcpiStatus.ok, answer.1.setWidth 64, answer.2)) answer

/-- So is any write, which may change a register of another function. -/
theorem acpiOsWritePciConfiguration_redirected
    (pciId : AcpiPciId) (reg : U32) (value : U64) {width : U32}
    (widths : width = 8 ∨ width = 16 ∨ width = 32) (segment : U16)
    (bridge : HostBridge) :
    acpiOsWritePciConfiguration pciId reg value width bridge =
      (redirected reg width widths).write (selects pciId) segment value
        bridge := by
  have selected := preparePciConfigAccess_redirected pciId reg widths bridge
  have lane := lane_redirected reg widths
  have same : (redirected reg width widths).width = width := rfl
  rw [prepared] at selected
  rw [Access.write, same]
  generalize redirected reg width widths = access at *
  rcases widths with rfl | rfl | rfl
  · have byte := lane 0x03 fun bit low => absurd low (Nat.not_lt_zero bit)
    have after :
        writePciConfigByte _ _ _ _ _ bridge =
          writePciConfigByte _ _ _ _ _ bridge :=
      congrArg₂ (fun lane bridge => outb (value.setWidth 8)
        (pciConfigData + BitVec.toNat lane) bridge) byte selected
    exact congrArg (Prod.mk AcpiStatus.ok) after
  · have word := lane 0x02 (by decide)
    have after :
        writePciConfigWord _ _ _ _ _ bridge =
          writePciConfigWord _ _ _ _ _ bridge :=
      congrArg₂ (fun lane bridge => outw (value.setWidth 16)
        (pciConfigData + BitVec.toNat lane) bridge) word selected
    exact congrArg (Prod.mk AcpiStatus.ok) after
  · have after :
        writePciConfig _ _ _ _ _ bridge = writePciConfig _ _ _ _ _ bridge :=
      congrArg (fun bridge => outl (value.setWidth 32) pciConfigData bridge)
        selected
    exact congrArg (Prod.mk AcpiStatus.ok) after

/-! ## Requests which are refused -/

/-- A register of the configuration space of a function. -/
structure InRange (pciId : AcpiPciId) (reg width : U32) : Prop where
  bus : pciId.bus.toNat ≤ 255
  device : pciId.device.toNat ≤ 31
  function : pciId.function.toNat ≤ 7
  inside : reg.toNat + width.toNat / 8 ≤ 256
  aligned : width.toNat / 8 ∣ reg.toNat

/-- A request fails without an effect on the host bridge and the answer does
not depend on it.  As an access starts by a write of the address register,
no port is accessed. -/
structure Refused (pciId : AcpiPciId) (reg width : U32) : Prop where
  reads :
    ∃ status, status ≠ AcpiStatus.ok ∧
      ∀ (value : U64) (bridge : HostBridge),
        acpiOsReadPciConfiguration pciId reg value width bridge =
          (status, value, bridge)
  writes :
    ∃ status, status ≠ AcpiStatus.ok ∧
      ∀ (value : U64) (bridge : HostBridge),
        acpiOsWritePciConfiguration pciId reg value width bridge =
          (status, bridge)

/-- A byte, a word or a doubleword. -/
def Attempted (width : U32) : Prop :=
  width = 8 ∨ width = 16 ∨ width = 32

theorem Refused.not_attempted
    {pciId : AcpiPciId} {reg width : U32}
    (refused : Refused pciId reg width) : ¬ Attempted width := by
  intro widths
  rcases refused.reads with ⟨status, failure, answers⟩
  have bridge : HostBridge := ⟨0, fun _ _ => 0⟩
  have answer := answers 0 bridge
  rw [acpiOsReadPciConfiguration_redirected pciId reg 0 widths 0,
    Access.read, acpiOsReadPciConfiguration_spec] at answer
  exact failure (congrArg Prod.fst answer).symm

/-- A width that is none of the three is refused without an access. -/
theorem refused_of_not_attempted
    (pciId : AcpiPciId) (reg : U32) {width : U32}
    (none : ¬ Attempted width) : Refused pciId reg width := by
  have notByte : width ≠ 8 := fun same => none (Or.inl same)
  have notWord : width ≠ 16 := fun same => none (Or.inr (Or.inl same))
  have notLong : width ≠ 32 := fun same => none (Or.inr (Or.inr same))
  by_cases quad : width = 64
  · subst quad
    exact ⟨⟨.notImplemented, by decide, fun _ _ => rfl⟩,
      ⟨.notImplemented, by decide, fun _ _ => rfl⟩⟩
  · refine ⟨⟨.badParameter, by decide, ?_⟩, ⟨.badParameter, by decide, ?_⟩⟩
    · intro value bridge
      unfold acpiOsReadPciConfiguration
      split <;> first | contradiction | rfl
    · intro value bridge
      unfold acpiOsWritePciConfiguration
      split <;> first | contradiction | rfl

/-- What is out of range is refused if and only if it is of another width. -/
theorem out_of_range_refused
    (pciId : AcpiPciId) (reg width : U32) :
    (¬ InRange pciId reg width → Refused pciId reg width) ↔
      InRange pciId reg width ∨ ¬ (width = 8 ∨ width = 16 ∨ width = 32) := by
  constructor
  · intro property
    by_cases inRange : InRange pciId reg width
    · exact Or.inl inRange
    · exact Or.inr (property inRange).not_attempted
  · intro condition outOfRange
    rcases condition with inRange | none
    · exact absurd inRange outOfRange
    · exact refused_of_not_attempted pciId reg none

/-- A byte which is written to device 32 of bus 0 is in device 0 of bus 1,
and one which is written to register 256 is in register 0. -/
theorem out_of_range_request_redirected :
    (¬ InRange ⟨0, 0, 32, 0⟩ 0 8 ∧ ¬ Refused ⟨0, 0, 32, 0⟩ 0 8 ∧
        (acpiOsWritePciConfiguration ⟨0, 0, 32, 0⟩ 0 0x5a 8
          ⟨0, fun _ _ => 0⟩).2.registers ⟨1, 0, 0⟩ 0 = 0x5a) ∧
      ¬ InRange ⟨0, 0, 0, 0⟩ 256 8 ∧ ¬ Refused ⟨0, 0, 0, 0⟩ 256 8 ∧
        (acpiOsWritePciConfiguration ⟨0, 0, 0, 0⟩ 256 0x5a 8
          ⟨0, fun _ _ => 0⟩).2.registers ⟨0, 0, 0⟩ 0 = 0x5a := by
  have byte : Attempted 8 := Or.inl rfl
  refine ⟨⟨?_, ?_, by decide⟩, ?_, ?_, by decide⟩
  · exact fun inRange => absurd inRange.device (by decide)
  · exact fun refused => refused.not_attempted byte
  · exact fun inRange => absurd inRange.inside (by decide)
  · exact fun refused => refused.not_attempted byte

end NopOS.Acpi.PciRequests
