import NopOS.Lib.BitField
import NopOS.Lib.LittleEndian
import NopOS.Acpi.InterruptHandlers

/-!
# Access to the PCI configuration space

The host bridge has 256 bytes of registers for every function.  An access
goes through two ports: the doubleword is selected by a write to
`PCI_CONFIG_ADDRESS`, and its bytes are the four ports from `PCI_CONFIG_DATA`
on.
-/

namespace NopOS.Acpi.PciConfiguration

open NopOS.Lib.BitField
open NopOS.Lib.LittleEndian
open NopOS.Acpi.InterruptHandlers (AcpiStatus)

/-- `u8`. -/
abbrev U8 := BitVec 8

/-- `u16`. -/
abbrev U16 := BitVec 16

/-- `u32`. -/
abbrev U32 := BitVec 32

/-- `u64`. -/
abbrev U64 := BitVec 64

/-! ## The host bridge -/

/-- A function by the numbers the address register has room for. -/
structure PciFunction where
  bus : BitVec 8
  device : BitVec 5
  function : BitVec 3
deriving DecidableEq

/-- The configuration space of every function, by bytes. -/
abbrev Registers := PciFunction → Nat → U8

/-- The register at port 0xcf8, and the configuration spaces. -/
structure HostBridge where
  configAddress : U32
  registers : Registers

/-- The function selected by the address register, if it is enabled. -/
def HostBridge.selected (bridge : HostBridge) : Option PciFunction :=
  if bridge.configAddress.getLsbD 31 then
    some
      { bus := bridge.configAddress.extractLsb' 16 8
        device := bridge.configAddress.extractLsb' 11 5
        function := bridge.configAddress.extractLsb' 8 3 }
  else none

/-- The register a data port stands for. -/
def HostBridge.register (bridge : HostBridge) (port : Nat) : Nat :=
  4 * (bridge.configAddress.extractLsb' 2 6).toNat + (port - 0xcfc)

/-- Ports `port` to `port + count - 1` are data ports. -/
def DataPorts (port count : Nat) : Prop :=
  0xcfc ≤ port ∧ port + count ≤ 0xd00

instance (port count : Nat) : Decidable (DataPorts port count) :=
  inferInstanceAs (Decidable (_ ∧ _))

/-- Input of `count` bytes.  Nothing answers without a selected function. -/
def HostBridge.input (bridge : HostBridge) (port count : Nat) : Nat :=
  match bridge.selected with
  | some function =>
      if DataPorts port count then
        littleEndian (bridge.registers function) (bridge.register port) count
      else 256 ^ count - 1
  | none => 256 ^ count - 1

/-- Output of `count` bytes. -/
def HostBridge.output
    (bridge : HostBridge) (port count value : Nat) : HostBridge :=
  match bridge.selected with
  | some function =>
      if DataPorts port count then
        { bridge with
          registers :=
            Function.update bridge.registers function
              (store (bridge.registers function) (bridge.register port)
                count value) }
      else bridge
  | none => bridge

/-- `inb`. -/
def inb (port : Nat) (bridge : HostBridge) : U8 :=
  BitVec.ofNat 8 (bridge.input port 1)

/-- `inw`. -/
def inw (port : Nat) (bridge : HostBridge) : U16 :=
  BitVec.ofNat 16 (bridge.input port 2)

/-- `inl`. -/
def inl (port : Nat) (bridge : HostBridge) : U32 :=
  if port = 0xcf8 then bridge.configAddress
  else BitVec.ofNat 32 (bridge.input port 4)

/-- `outb`. -/
def outb (value : U8) (port : Nat) (bridge : HostBridge) : HostBridge :=
  bridge.output port 1 value.toNat

/-- `outw`. -/
def outw (value : U16) (port : Nat) (bridge : HostBridge) : HostBridge :=
  bridge.output port 2 value.toNat

/-- The address register takes doublewords only. -/
def outl (value : U32) (port : Nat) (bridge : HostBridge) : HostBridge :=
  if port = 0xcf8 then { bridge with configAddress := value }
  else bridge.output port 4 value.toNat

/-! ## The functions of the kernel -/

/-- `PCI_CONFIG_ADDRESS`. -/
def pciConfigAddress : Nat := 0xcf8

/-- `PCI_CONFIG_DATA`. -/
def pciConfigData : Nat := 0xcfc

/-- `PCI_BUS_OFFSET`. -/
def pciBusOffset : Nat := 16

/-- `PCI_SLOT_OFFSET`. -/
def pciSlotOffset : Nat := 11

/-- `PCI_FUNC_OFFSET`. -/
def pciFuncOffset : Nat := 8

/-- `PCI_CONFIG_ADDRESS_ENABLE`. -/
def pciConfigAddressEnable : U32 := 0x80000000

/-- `build_config_address`. -/
def buildConfigAddress (bus slot func offset : U8) : U32 :=
  bus.setWidth 32 <<< pciBusOffset ||| slot.setWidth 32 <<< pciSlotOffset |||
    func.setWidth 32 <<< pciFuncOffset ||| (offset.setWidth 32 &&& ~~~3)

/-- `prepare_pci_config_access`. -/
def preparePciConfigAccess
    (bus slot func offset : U8) (bridge : HostBridge) : HostBridge :=
  outl (pciConfigAddressEnable ||| buildConfigAddress bus slot func offset)
    pciConfigAddress bridge

/-- `read_pci_config`. -/
def readPciConfig
    (bus slot func offset : U8) (bridge : HostBridge) : U32 × HostBridge :=
  let prepared := preparePciConfigAccess bus slot func offset bridge
  (inl pciConfigData prepared, prepared)

/-- `read_pci_config_word`. -/
def readPciConfigWord
    (bus slot func offset : U8) (bridge : HostBridge) : U16 × HostBridge :=
  let prepared := preparePciConfigAccess bus slot func offset bridge
  (inw (pciConfigData + (offset &&& 0x02).toNat) prepared, prepared)

/-- `read_pci_config_byte`. -/
def readPciConfigByte
    (bus slot func offset : U8) (bridge : HostBridge) : U8 × HostBridge :=
  let prepared := preparePciConfigAccess bus slot func offset bridge
  (inb (pciConfigData + (offset &&& 0x03).toNat) prepared, prepared)

/-- `write_pci_config`. -/
def writePciConfig
    (bus slot func offset : U8) (val : U32) (bridge : HostBridge) :
    HostBridge :=
  outl val pciConfigData (preparePciConfigAccess bus slot func offset bridge)

/-- `write_pci_config_word`. -/
def writePciConfigWord
    (bus slot func offset : U8) (val : U16) (bridge : HostBridge) :
    HostBridge :=
  outw val (pciConfigData + (offset &&& 0x02).toNat)
    (preparePciConfigAccess bus slot func offset bridge)

/-- `write_pci_config_byte`. -/
def writePciConfigByte
    (bus slot func offset : U8) (val : U8) (bridge : HostBridge) :
    HostBridge :=
  outb val (pciConfigData + (offset &&& 0x03).toNat)
    (preparePciConfigAccess bus slot func offset bridge)

/-! ## The functions of ACPICA's interface -/

/-- `ACPI_PCI_ID`. -/
structure AcpiPciId where
  segment : U16
  bus : U16
  device : U16
  function : U16

/-- `AcpiOsReadPciConfiguration`, with what is in `*Value` before and after. -/
def acpiOsReadPciConfiguration
    (pciId : AcpiPciId) (reg : U32) (value : U64) (width : U32)
    (bridge : HostBridge) : AcpiStatus × U64 × HostBridge :=
  let bus := pciId.bus.setWidth 8
  let device := pciId.device.setWidth 8
  let function := pciId.function.setWidth 8
  match width with
  | 64 => (.notImplemented, value, bridge)
  | 32 =>
      let answer := readPciConfig bus device function (reg.setWidth 8) bridge
      (.ok, answer.1.setWidth 64, answer.2)
  | 16 =>
      let answer :=
        readPciConfigWord bus device function (reg.setWidth 8) bridge
      (.ok, answer.1.setWidth 64, answer.2)
  | 8 =>
      let answer :=
        readPciConfigByte bus device function (reg.setWidth 8) bridge
      (.ok, answer.1.setWidth 64, answer.2)
  | _ => (.badParameter, value, bridge)

/-- `AcpiOsWritePciConfiguration`. -/
def acpiOsWritePciConfiguration
    (pciId : AcpiPciId) (reg : U32) (value : U64) (width : U32)
    (bridge : HostBridge) : AcpiStatus × HostBridge :=
  let bus := pciId.bus.setWidth 8
  let device := pciId.device.setWidth 8
  let function := pciId.function.setWidth 8
  match width with
  | 64 => (.notImplemented, bridge)
  | 32 =>
      (.ok, writePciConfig bus device function (reg.setWidth 8)
        (value.setWidth 32) bridge)
  | 16 =>
      (.ok, writePciConfigWord bus device function (reg.setWidth 8)
        (value.setWidth 16) bridge)
  | 8 =>
      (.ok, writePciConfigByte bus device function (reg.setWidth 8)
        (value.setWidth 8) bridge)
  | _ => (.badParameter, bridge)

/-! ## The doubleword which is selected -/

/-- The numbers of a function as ACPICA passes them. -/
def PciFunction.pciId (function : PciFunction) (segment : U16) :
    AcpiPciId where
  segment := segment
  bus := function.bus.setWidth 16
  device := function.device.setWidth 16
  function := function.function.setWidth 16

/-- The host bridge after the address of a register was written. -/
def prepared (function : PciFunction) (reg : U32) (bridge : HostBridge) :
    HostBridge :=
  preparePciConfigAccess
    ((function.bus.setWidth 16).setWidth 8)
    ((function.device.setWidth 16).setWidth 8)
    ((function.function.setWidth 16).setWidth 8)
    (reg.setWidth 8) bridge

/-- What is in the address register for a function and a register. -/
theorem configAddress_prepared
    (function : PciFunction) (reg : U32) (bridge : HostBridge) :
    (prepared function reg bridge).configAddress =
      0x80000000 |||
        (function.bus.setWidth 32 <<< 16 |||
          function.device.setWidth 32 <<< 11 |||
            function.function.setWidth 32 <<< 8 |||
              ((reg.setWidth 8).setWidth 32 &&& ~~~3)) := by
  have bus :
      ((function.bus.setWidth 16).setWidth 8).setWidth 32 =
        function.bus.setWidth 32 := by
    simp
  have device :
      ((function.device.setWidth 16).setWidth 8).setWidth 32 =
        function.device.setWidth 32 := by
    rw [BitVec.setWidth_setWidth (x := function.device) (by decide),
      BitVec.setWidth_setWidth (by decide)]
  have number :
      ((function.function.setWidth 16).setWidth 8).setWidth 32 =
        function.function.setWidth 32 := by
    rw [BitVec.setWidth_setWidth (x := function.function) (by decide),
      BitVec.setWidth_setWidth (by decide)]
  rw [← bus, ← device, ← number]
  rfl

theorem offset_outside
    (offset : U8) {start length : Nat} (beyond : 8 ≤ start) :
    (offset.setWidth 32 &&& ~~~3).extractLsb' start length = 0 := by
  apply BitVec.eq_of_getLsbD_eq
  intro bit inField
  have noBit : offset.getLsbD (start + bit) = false :=
    BitVec.getLsbD_of_ge _ _ (by omega)
  simp [noBit]

/-- The address port selects the function. -/
theorem selected_prepared
    (function : PciFunction) (reg : U32) (bridge : HostBridge) :
    (prepared function reg bridge).selected = some function := by
  have address := configAddress_prepared function reg bridge
  have enabled :
      (prepared function reg bridge).configAddress.getLsbD 31 := by
    rw [address, BitVec.getLsbD_or]
    rfl
  rw [HostBridge.selected, if_pos enabled, address]
  rcases function with ⟨bus, device, number⟩
  simp only [BitVec.extractLsb'_or]
  congr 2
  · rw [extractLsb'_place bus (by decide),
      extractLsb'_place_of_apart device (by decide),
      extractLsb'_place_of_apart number (by decide),
      offset_outside _ (by decide)]
    simp
  · rw [extractLsb'_place_of_apart bus (by decide),
      extractLsb'_place device (by decide),
      extractLsb'_place_of_apart number (by decide),
      offset_outside _ (by decide)]
    simp
  · rw [extractLsb'_place_of_apart bus (by decide),
      extractLsb'_place_of_apart device (by decide),
      extractLsb'_place number (by decide),
      offset_outside _ (by decide)]
    simp

/-- The two lowest bits of the register do not reach the host bridge. -/
theorem dword_prepared
    (function : PciFunction) {reg : U32} (inside : reg.toNat < 256)
    (bridge : HostBridge) :
    ((prepared function reg bridge).configAddress.extractLsb' 2 6).toNat =
      reg.toNat / 4 := by
  have sameBits :
      (prepared function reg bridge).configAddress.extractLsb' 2 6 =
        reg.extractLsb' 2 6 := by
    rw [configAddress_prepared]
    simp only [BitVec.extractLsb'_or]
    rw [extractLsb'_place_of_apart function.bus (by decide),
      extractLsb'_place_of_apart function.device (by decide),
      extractLsb'_place_of_apart function.function (by decide)]
    apply BitVec.eq_of_getLsbD_eq
    intro bit inField
    have inByte : 2 + bit < 8 := by omega
    have kept : (4294967292#32).getLsbD (2 + bit) = true := by
      interval_cases bit <;> rfl
    simp [inField, inByte, kept]
    omega
  rw [sameBits, BitVec.extractLsb'_toNat, Nat.shiftRight_eq_div_pow]
  omega

/-! ## The bytes of an access -/

/-- An access ACPICA may ask for. -/
structure Access where
  reg : U32
  width : U32
  widths : width = 8 ∨ width = 16 ∨ width = 32
  inside : reg.toNat < 256
  aligned : width.toNat / 8 ∣ reg.toNat

/-- The first byte which an access reaches. -/
def Access.start (access : Access) : Nat := access.reg.toNat

/-- The number of bytes which an access reaches. -/
def Access.count (access : Access) : Nat := access.width.toNat / 8

/-- The port through which an access goes. -/
def Access.port (access : Access) : Nat := 0xcfc + access.start % 4

theorem lane_byte (reg : U32) :
    (reg.setWidth 8 &&& 0x03).toNat = reg.toNat % 4 := by
  have low : (0x03 : U8).toNat = 2 ^ 2 - 1 := rfl
  rw [BitVec.toNat_and, low, Nat.and_two_pow_sub_one_eq_mod,
    BitVec.toNat_setWidth]
  omega

theorem lane_word {reg : U32} (aligned : 2 ∣ reg.toNat) :
    (reg.setWidth 8 &&& 0x02).toNat = reg.toNat % 4 := by
  have high (n : Nat) : (n &&& 2) / 2 ^ 1 = n / 2 ^ 1 % 2 := by
    rw [Nat.and_div_two_pow]
    exact Nat.and_one_is_mod _
  have low (n : Nat) : (n &&& 2) % 2 ^ 1 = 0 := by
    rw [Nat.and_mod_two_pow]
    exact Nat.and_zero _
  have two : (0x02 : U8).toNat = 2 := rfl
  rw [BitVec.toNat_and, two, BitVec.toNat_setWidth]
  have highBit := high (reg.toNat % 2 ^ 8)
  have lowBit := low (reg.toNat % 2 ^ 8)
  omega

/-- The port of an access leads to its register. -/
theorem register_prepared
    (function : PciFunction) (access : Access) (bridge : HostBridge) :
    (prepared function access.reg bridge).register access.port =
      access.start := by
  have lane : access.port - 0xcfc = access.start % 4 :=
    Nat.add_sub_cancel_left _ _
  unfold HostBridge.register
  rw [dword_prepared function access.inside, lane]
  exact Nat.div_add_mod _ _

theorem Access.count_of_width (access : Access) :
    access.width = 8 ∧ access.count = 1 ∨
      access.width = 16 ∧ access.count = 2 ∨
        access.width = 32 ∧ access.count = 4 := by
  have one : (8 : U32).toNat / 8 = 1 := rfl
  have two : (16 : U32).toNat / 8 = 2 := rfl
  have four : (32 : U32).toNat / 8 = 4 := rfl
  rw [Access.count]
  rcases access.widths with width | width | width
  · exact Or.inl ⟨width, width ▸ one⟩
  · exact Or.inr (Or.inl ⟨width, width ▸ two⟩)
  · exact Or.inr (Or.inr ⟨width, width ▸ four⟩)

theorem Access.dataPorts (access : Access) :
    DataPorts access.port access.count := by
  have aligned : access.count ∣ access.start := access.aligned
  simp only [DataPorts, Access.port]
  rcases access.count_of_width with ⟨-, count⟩ | ⟨-, count⟩ | ⟨-, count⟩
  all_goals
    rw [count] at aligned ⊢
    omega

/-- An input reads the bytes of the access. -/
theorem input_prepared
    (function : PciFunction) (access : Access) (bridge : HostBridge) :
    (prepared function access.reg bridge).input access.port access.count =
      littleEndian (bridge.registers function) access.start
        access.count := by
  rw [HostBridge.input, selected_prepared]
  simp only [if_pos access.dataPorts, register_prepared]
  rfl

/-- An output writes the bytes of the access. -/
theorem output_prepared
    (function : PciFunction) (access : Access) (value : Nat)
    (bridge : HostBridge) :
    ((prepared function access.reg bridge).output access.port access.count
        value).registers =
      Function.update bridge.registers function
        (store (bridge.registers function) access.start
          access.count value) := by
  rw [HostBridge.output, selected_prepared]
  simp only [if_pos access.dataPorts, register_prepared]
  rfl

theorem Access.port_byte (access : Access) :
    pciConfigData + (access.reg.setWidth 8 &&& 0x03).toNat = access.port := by
  rw [lane_byte]
  rfl

theorem Access.port_word (access : Access) (word : access.count = 2) :
    pciConfigData + (access.reg.setWidth 8 &&& 0x02).toNat = access.port := by
  have aligned : 2 ∣ access.reg.toNat := word ▸ access.aligned
  rw [lane_word aligned]
  rfl

theorem Access.port_long (access : Access) (long : access.count = 4) :
    pciConfigData = access.port := by
  have aligned : 4 ∣ access.reg.toNat := long ▸ access.aligned
  rw [Access.port, Access.start, Nat.mod_eq_zero_of_dvd aligned]
  rfl

/-! ## Reads and writes -/

/-- A number of `width` bits which is returned in 64. -/
theorem setWidth_ofNat {width number : Nat}
    (fits : number < 2 ^ width) :
    (BitVec.ofNat width number).setWidth 64 = BitVec.ofNat 64 number := by
  apply BitVec.eq_of_toNat_eq
  rw [BitVec.toNat_setWidth, BitVec.toNat_ofNat, BitVec.toNat_ofNat,
    Nat.mod_eq_of_lt fits]

/-- A read returns the bytes of the access and keeps the registers. -/
theorem acpiOsReadPciConfiguration_spec
    (function : PciFunction) (segment : U16) (access : Access)
    (value : U64) (bridge : HostBridge) :
    acpiOsReadPciConfiguration (function.pciId segment) access.reg value
        access.width bridge =
      (.ok,
        BitVec.ofNat 64
          (littleEndian (bridge.registers function) access.start
            access.count),
        prepared function access.reg bridge) := by
  have input := input_prepared function access bridge
  have bound :=
    littleEndian_lt (bridge.registers function) access.start access.count
  rcases access.count_of_width with
    ⟨width, count⟩ | ⟨width, count⟩ | ⟨width, count⟩
  · rw [width]
    show
      (AcpiStatus.ok,
          (inb (pciConfigData + (access.reg.setWidth 8 &&& 0x03).toNat)
            (prepared function access.reg bridge)).setWidth 64,
          prepared function access.reg bridge) = _
    rw [count] at input bound ⊢
    rw [access.port_byte, inb, input, setWidth_ofNat bound]
  · rw [width]
    show
      (AcpiStatus.ok,
          (inw (pciConfigData + (access.reg.setWidth 8 &&& 0x02).toNat)
            (prepared function access.reg bridge)).setWidth 64,
          prepared function access.reg bridge) = _
    have port := access.port_word count
    rw [count] at input bound ⊢
    rw [port, inw, input, setWidth_ofNat bound]
  · rw [width]
    show
      (AcpiStatus.ok,
          (BitVec.ofNat 32
            ((prepared function access.reg bridge).input
              pciConfigData 4)).setWidth 64,
          prepared function access.reg bridge) = _
    have port := access.port_long count
    rw [count] at input bound ⊢
    rw [port, input, setWidth_ofNat bound]

/-- A write stores the low bytes of the value and nothing else. -/
theorem acpiOsWritePciConfiguration_spec
    (function : PciFunction) (segment : U16) (access : Access)
    (value : U64) (bridge : HostBridge) :
    (acpiOsWritePciConfiguration (function.pciId segment) access.reg value
        access.width bridge).1 = .ok ∧
      (acpiOsWritePciConfiguration (function.pciId segment) access.reg value
          access.width bridge).2.registers =
        Function.update bridge.registers function
          (store (bridge.registers function) access.start access.count
            value.toNat) := by
  have output (sent : Nat) := output_prepared function access sent bridge
  rcases access.count_of_width with
    ⟨width, count⟩ | ⟨width, count⟩ | ⟨width, count⟩
  · rw [width]
    refine ⟨rfl, ?_⟩
    show
      (outb (value.setWidth 8)
        (pciConfigData + (access.reg.setWidth 8 &&& 0x03).toNat)
        (prepared function access.reg bridge)).registers = _
    rw [count] at output ⊢
    rw [access.port_byte, outb, output, BitVec.toNat_setWidth]
    exact congrArg _ store_mod
  · rw [width]
    refine ⟨rfl, ?_⟩
    show
      (outw (value.setWidth 16)
        (pciConfigData + (access.reg.setWidth 8 &&& 0x02).toNat)
        (prepared function access.reg bridge)).registers = _
    have port := access.port_word count
    rw [count] at output ⊢
    rw [port, outw, output, BitVec.toNat_setWidth]
    exact congrArg _ store_mod
  · rw [width]
    refine ⟨rfl, ?_⟩
    show
      ((prepared function access.reg bridge).output pciConfigData 4
        (value.setWidth 32).toNat).registers = _
    have port := access.port_long count
    rw [count] at output ⊢
    rw [port, output, BitVec.toNat_setWidth]
    exact congrArg _ store_mod

/-! ## Sequences of accesses -/

/-- The answer to a read of the access. -/
def Access.read
    (access : Access) (function : PciFunction) (segment : U16)
    (value : U64) (bridge : HostBridge) : AcpiStatus × U64 × HostBridge :=
  acpiOsReadPciConfiguration (function.pciId segment) access.reg value
    access.width bridge

/-- A write of an access to a function. -/
def Access.write
    (access : Access) (function : PciFunction) (segment : U16)
    (value : U64) (bridge : HostBridge) : AcpiStatus × HostBridge :=
  acpiOsWritePciConfiguration (function.pciId segment) access.reg value
    access.width bridge

/-- The two calls of ACPICA, with the access they make. -/
inductive PciCall where
  | read (function : PciFunction) (segment : U16) (access : Access)
  | write
      (function : PciFunction) (segment : U16) (access : Access)
      (value : U64)

/-- The host bridge after a call. -/
def perform (bridge : HostBridge) : PciCall → HostBridge
  | .read function segment access =>
      (access.read function segment 0 bridge).2.2
  | .write function segment access value =>
      (access.write function segment value bridge).2

/-- The host bridge after calls one after the other. -/
def performAll (bridge : HostBridge) (calls : List PciCall) : HostBridge :=
  calls.foldl perform bridge

/-- The call writes no byte of the access. -/
def PciCall.LeavesAlone (function : PciFunction) (access : Access) :
    PciCall → Prop
  | .read _ _ _ => True
  | .write other _ written _ =>
      other = function →
        access.start + access.count ≤ written.start ∨
          written.start + written.count ≤ access.start

/-- A call elsewhere leaves the bytes of an access alone. -/
theorem perform_leavesAlone
    {function : PciFunction} {access : Access} {call : PciCall}
    (alone : call.LeavesAlone function access) (bridge : HostBridge) :
    littleEndian ((perform bridge call).registers function) access.start
        access.count =
      littleEndian (bridge.registers function) access.start access.count := by
  cases call with
  | read other segment read =>
      rw [perform, Access.read, acpiOsReadPciConfiguration_spec]
      rfl
  | write other segment written value =>
      rw [perform, Access.write,
        (acpiOsWritePciConfiguration_spec other segment written value bridge).2]
      by_cases same : other = function
      · subst other
        rw [Function.update_self]
        exact littleEndian_store_of_apart (alone rfl)
      · rw [Function.update_of_ne (Ne.symm same)]

/-- And so does any sequence of such calls. -/
theorem performAll_leavesAlone
    {function : PciFunction} {access : Access} {calls : List PciCall}
    (alone : ∀ call ∈ calls, call.LeavesAlone function access)
    (bridge : HostBridge) :
    littleEndian ((performAll bridge calls).registers function) access.start
        access.count =
      littleEndian (bridge.registers function) access.start access.count := by
  induction calls generalizing bridge with
  | nil => rfl
  | cons call later induction =>
      have first :=
        perform_leavesAlone (alone call List.mem_cons_self) bridge
      have rest :=
        induction (fun other member =>
          alone other (List.mem_cons_of_mem call member)) (perform bridge call)
      exact rest.trans first

theorem Access.bits (access : Access) :
    256 ^ access.count = 2 ^ access.width.toNat := by
  rcases access.count_of_width with
    ⟨width, count⟩ | ⟨width, count⟩ | ⟨width, count⟩
  all_goals
    rw [width, count]
    rfl

theorem Access.bytes_lt (access : Access) (bytes : Nat → U8) :
    littleEndian bytes access.start access.count < 2 ^ 64 := by
  have bound := littleEndian_lt bytes access.start access.count
  rcases access.count_of_width with ⟨-, count⟩ | ⟨-, count⟩ | ⟨-, count⟩
  all_goals
    rw [count] at bound ⊢
    omega

/-- The accesses act on the registers as on arrays of bytes. -/
structure RefinesBytes (bridge : HostBridge) : Prop where
  reads :
    ∀ (function : PciFunction) (segment : U16) (access : Access) (value : U64),
      (access.read function segment value bridge).1 = .ok ∧
        (access.read function segment value bridge).2.1.toNat =
            littleEndian (bridge.registers function) access.start
              access.count ∧
          (access.read function segment value bridge).2.2.registers =
            bridge.registers
  writes :
    ∀ (function : PciFunction) (segment : U16) (access : Access) (value : U64),
      (access.write function segment value bridge).1 = .ok ∧
        ∀ i < access.count,
          (access.write function segment value bridge).2.registers function
              (access.start + i) =
            byteOf value.toNat i
  keeps :
    ∀ (function : PciFunction) (segment : U16) (access : Access) (value : U64)
      (other : PciFunction) (k : Nat),
      (other = function →
          k < access.start ∨ access.start + access.count ≤ k) →
        (access.write function segment value bridge).2.registers other k =
          bridge.registers other k
  readsBack :
    ∀ (function : PciFunction) (segment readSegment : U16) (access : Access)
      (value before : U64) (later : List PciCall),
      (∀ call ∈ later, call.LeavesAlone function access) →
        (access.read function readSegment before
            (performAll (access.write function segment value bridge).2
              later)).2.1.toNat =
          value.toNat % 2 ^ access.width.toNat

/-- The registers behind the ports are an array of bytes for every function. -/
theorem pci_configuration_refines_bytes (bridge : HostBridge) :
    RefinesBytes bridge where
  reads function segment access value := by
    rw [Access.read, acpiOsReadPciConfiguration_spec]
    refine ⟨rfl, ?_, rfl⟩
    rw [BitVec.toNat_ofNat]
    exact Nat.mod_eq_of_lt (access.bytes_lt _)
  writes function segment access value := by
    have written :=
      acpiOsWritePciConfiguration_spec function segment access value bridge
    refine ⟨written.1, ?_⟩
    intro i inside
    rw [Access.write, written.2, Function.update_self]
    exact store_inside inside
  keeps function segment access value other k outside := by
    have written :=
      acpiOsWritePciConfiguration_spec function segment access value bridge
    rw [Access.write, written.2]
    by_cases same : other = function
    · subst other
      rw [Function.update_self]
      exact store_outside (outside rfl)
    · rw [Function.update_of_ne same]
  readsBack function segment readSegment access value before later alone := by
    have written :=
      acpiOsWritePciConfiguration_spec function segment access value bridge
    rw [Access.read, acpiOsReadPciConfiguration_spec]
    show (BitVec.ofNat 64 _).toNat = _
    rw [BitVec.toNat_ofNat, performAll_leavesAlone alone, Access.write,
      written.2, Function.update_self, littleEndian_store, access.bits]
    exact Nat.mod_eq_of_lt
      (lt_of_le_of_lt (Nat.mod_le _ _) value.isLt)

end NopOS.Acpi.PciConfiguration
