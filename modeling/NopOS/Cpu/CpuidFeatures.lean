import NopOS.Lib.PartialAssignment

/-!
# Feature detection

The constructor of `features_type` goes through the table `cpuid_bits` and
then looks for the signature of Xen.  It assigns a flag only where it reads
the flag's bit: a table entry whose signature does not match or whose leaf is
out of range is skipped, and without a signature of Xen its three flags are.
No member is initialised beforehand, so that a skipped flag is what the
storage happened to hold.

The answers of the processor, of the hypercalls and of the Xen ports are
arbitrary.  `cpuid(function)` asks for leaves which have no subleaves, where
the processor ignores `ecx`.
-/

namespace NopOS.Cpu.CpuidFeatures

open NopOS.Lib.PartialAssignment

/-- A 32-bit register. -/
abbrev U32 := BitVec 32

/-! ## The processor and the hypervisor -/

/-- The four registers that `cpuid` fills. -/
structure CpuidResult where
  a : U32
  b : U32
  c : U32
  d : U32

/-- The member of `cpuid_result` which a letter selects. -/
inductive Register where
  | a
  | b
  | c
  | d

/-- The register a table entry names. -/
def CpuidResult.register (result : CpuidResult) : Register → U32
  | .a => result.a
  | .b => result.b
  | .c => result.c
  | .d => result.d

/-- The responses to `cpuid(function)` and `cpuid(function, subleaf)`. -/
structure Processor where
  cpuid : U32 → CpuidResult
  cpuidSubleaf : U32 → U32 → CpuidResult

/-- What the hypercalls and the ports answer. -/
structure XenAnswers where
  /-- `info.submap` after `XENVER_get_features` -/
  submap : U32
  /-- the result of `XENMEM_add_to_physmap` -/
  addToPhysmap : BitVec 64
  /-- the first `inw(0x10)` -/
  magic : BitVec 16
  /-- `inw(0x12)` -/
  version : BitVec 16
  /-- the second `inw(0x10)` -/
  magicAgain : BitVec 16

/-- A failed assertion. -/
inductive Fault where
  | assertFailed (expression : String)
deriving DecidableEq

/-! ## `features_type` -/

/-- The members of `features_type`. -/
inductive Flag where
  | sse3
  | ssse3
  | cmpxchg16b
  | sse4_1
  | sse4_2
  | x2apic
  | tscDeadline
  | xsave
  | osxsave
  | avx
  | rdrand
  | clflush
  | fsgsbase
  | repmovsb
  | gbpage
  | invariantTsc
  | kvmClocksource
  | kvmClocksource2
  | kvmClocksourceStable
  | kvmPvEoi
  | xenClocksource
  | xenVectorCallback
  | xenPci
deriving DecidableEq

/-- The content of the storage of a `features_type`. -/
abbrev FeaturesType := Flag → Bool

/-! ## The table of bits -/

/-- The three registers that spell a hypervisor's name. -/
structure Signature where
  b : U32
  c : U32
  d : U32
deriving DecidableEq

/-- The answer spells this name. -/
def CpuidResult.Signed (result : CpuidResult) (sign : Signature) : Prop :=
  result.b = sign.b ∧ result.c = sign.c ∧ result.d = sign.d

instance (result : CpuidResult) (sign : Signature) :
    Decidable (result.Signed sign) :=
  inferInstanceAs (Decidable (_ ∧ _))

/-- An entry of the table: the leaf, the register and the bit that decide a
flag, with the hypervisor it is for. -/
structure CpuidBit where
  leaf : U32
  word : Register
  bit : Nat
  flag : Flag
  subleaf : U32
  sign : Option Signature

/-- `KVMKVMKVM` followed by three zero bytes. -/
def kvmSignature : Signature := ⟨0x4b4d564b, 0x564b4d56, 0x4d⟩

/-- `cpuid_bits`, in the source's order. -/
def cpuidBits : List CpuidBit :=
  [⟨1, .c, 0, .sse3, 0, none⟩,
    ⟨1, .c, 9, .ssse3, 0, none⟩,
    ⟨1, .c, 13, .cmpxchg16b, 0, none⟩,
    ⟨1, .c, 19, .sse4_1, 0, none⟩,
    ⟨1, .c, 20, .sse4_2, 0, none⟩,
    ⟨1, .c, 21, .x2apic, 0, none⟩,
    ⟨1, .c, 24, .tscDeadline, 0, none⟩,
    ⟨1, .c, 26, .xsave, 0, none⟩,
    ⟨1, .c, 27, .osxsave, 0, none⟩,
    ⟨1, .c, 28, .avx, 0, none⟩,
    ⟨1, .c, 30, .rdrand, 0, none⟩,
    ⟨1, .d, 19, .clflush, 0, none⟩,
    ⟨7, .b, 0, .fsgsbase, 0, none⟩,
    ⟨7, .b, 9, .repmovsb, 0, none⟩,
    ⟨0x80000001, .d, 26, .gbpage, 0, none⟩,
    ⟨0x80000007, .d, 8, .invariantTsc, 0, none⟩,
    ⟨0x40000001, .a, 0, .kvmClocksource, 0, some kvmSignature⟩,
    ⟨0x40000001, .a, 3, .kvmClocksource2, 0, some kvmSignature⟩,
    ⟨0x40000001, .a, 6, .kvmPvEoi, 0, some kvmSignature⟩,
    ⟨0x40000001, .a, 24, .kvmClocksourceStable, 0, some kvmSignature⟩]

namespace CpuidBit

/-- The first leaf of the range, which reports its last. -/
def base (b : CpuidBit) : U32 := b.leaf &&& 0xf0000000

/-- The signature the entry requires, if it requires one, is there. -/
def SignatureMatches (cpu : Processor) (b : CpuidBit) : Prop :=
  ∀ sign ∈ b.sign, (cpu.cpuid b.base).Signed sign

instance (cpu : Processor) (b : CpuidBit) : Decidable (b.SignatureMatches cpu) :=
  inferInstanceAs (Decidable (∀ sign ∈ b.sign, _))

/-- The last leaf of the range; some versions of KVM report zero. -/
def max (cpu : Processor) (b : CpuidBit) : U32 :=
  if b.base = 0x40000000 ∧ b.sign = some kvmSignature ∧
      (cpu.cpuid b.base).a = 0 then
    0x40000001
  else (cpu.cpuid b.base).a

/-- The leaf is within the reported range, and so is the subleaf. -/
def InRange (cpu : Processor) (b : CpuidBit) : Prop :=
  b.leaf ≤ b.max cpu ∧
    (b.leaf = 7 → b.subleaf ≤ (cpu.cpuidSubleaf b.leaf 0).a)

instance (cpu : Processor) (b : CpuidBit) : Decidable (b.InRange cpu) :=
  inferInstanceAs (Decidable (_ ∧ _))

/-- `(w >> b.bit) & 1` -/
def isSet (cpu : Processor) (b : CpuidBit) : Bool :=
  ((cpu.cpuidSubleaf b.leaf b.subleaf).register b.word >>> b.bit) &&& 1 ≠ 0

end CpuidBit

/-- `process_cpuid_bit` returns early, with the flag as it was, on a missing
leaf. -/
def processCpuidBit (cpu : Processor) (features : FeaturesType) (b : CpuidBit) :
    FeaturesType :=
  if ¬ b.SignatureMatches cpu then features
  else if b.leaf > b.max cpu then features
  else if b.leaf = 7 ∧ b.subleaf > (cpu.cpuidSubleaf b.leaf 0).a then features
  else Function.update features b.flag (b.isSet cpu)

/-! ## Xen -/

/-- `xen_features[j]` -/
def xenFeatures (xen : XenAnswers) (j : Nat) : BitVec 8 :=
  if xen.submap &&& (1 <<< j) ≠ 0 then 1 else 0

/-- `xen_pci_enabled` asks for the protocol version, then for the magic once
more. -/
def xenPciEnabled (xen : XenAnswers) : Bool :=
  if xen.magic ≠ 0x49d2 then false
  else if xen.version.setWidth 8 ≠ 0 then
    if xen.magicAgain ≠ 0x49d2 then false else true
  else true

/-- The result of `version_hypercall` is unsigned, so that the assertion
about it never fails. -/
def xenInit (xen : XenAnswers) (features : FeaturesType) :
    Except Fault FeaturesType :=
  let features :=
    Function.update features .xenClocksource (xenFeatures xen 9 &&& 1 ≠ 0)
  let features :=
    Function.update features .xenVectorCallback (xenFeatures xen 8 &&& 1 ≠ 0)
  if xen.addToPhysmap ≠ 0 then .error (.assertFailed "0")
  else .ok (Function.update features .xenPci (xenPciEnabled xen))

/-- `XenVMMXenVMM`. -/
def xenSignature : Signature := ⟨0x566e6558, 0x65584d4d, 0x4d4d566e⟩

/-- The loop of `process_xen_bits`, from `base` on. -/
def scanXen (cpu : Processor) (xen : XenAnswers) (features : FeaturesType) :
    Nat → U32 → Except Fault FeaturesType
  | 0, _ => .ok features
  | rounds + 1, base =>
      if base < 0x40010000 then
        if (cpu.cpuid base).Signed xenSignature then xenInit xen features
        else scanXen cpu xen features rounds (base + 0x100)
      else .ok features

/-- There are 256 bases below the end of the loop. -/
def processXenBits (cpu : Processor) (xen : XenAnswers) (features : FeaturesType) :
    Except Fault FeaturesType :=
  scanXen cpu xen features 256 0x40000000

/-- `process_cpuid` goes through the table, then asks for the Xen features. -/
def processCpuid (cpu : Processor) (xen : XenAnswers) (features : FeaturesType) :
    Except Fault FeaturesType :=
  processXenBits cpu xen (cpuidBits.foldl (processCpuidBit cpu) features)

/-- `processor::features()`, in storage with some content. -/
def features (cpu : Processor) (xen : XenAnswers) (storage : FeaturesType) :
    Except Fault FeaturesType :=
  processCpuid cpu xen storage

/-! ## Detection which depends on the processor only -/

/-- The flags that `process_xen_bits` sets. -/
def xenFlags : List Flag := [.xenClocksource, .xenVectorCallback, .xenPci]

/-- The values of `base` in the loop. -/
def xenBase (k : Nat) : U32 := 0x40000000 + BitVec.ofNat 32 (0x100 * k)

/-- The hypervisor leaves show the signature of Xen. -/
def XenFound (cpu : Processor) : Prop :=
  ∃ k < 256, (cpu.cpuid (xenBase k)).Signed xenSignature

/-- The flags tell what the processor reports. -/
structure Reports (cpu : Processor) (found : FeaturesType) : Prop where
  listed :
    ∀ b ∈ cpuidBits,
      found b.flag = true ↔
        b.SignatureMatches cpu ∧ b.InRange cpu ∧ b.isSet cpu = true
  withoutXen : ¬ XenFound cpu → ∀ flag ∈ xenFlags, found flag = false

/-- In any two storages the same flags are found, and they are right. -/
def DependsOnCpuOnly (cpu : Processor) (xen : XenAnswers) : Prop :=
  ∀ first second : FeaturesType, ∃ found other,
    features cpu xen first = .ok found ∧
      features cpu xen second = .ok other ∧
        (∀ b ∈ cpuidBits, found b.flag = other b.flag) ∧
          (∀ flag ∈ xenFlags, found flag = other flag) ∧
            Reports cpu found

/-! ## The table as a list of assignments -/

section Detection

variable {cpu : Processor} {xen : XenAnswers} {b : CpuidBit}

/-- The bit, where the entry is not skipped. -/
def CpuidBit.reading (cpu : Processor) (b : CpuidBit) : Option Bool :=
  if b.SignatureMatches cpu ∧ b.InRange cpu then some (b.isSet cpu) else none

/-- An entry of the table assigns its flag or nothing. -/
theorem processCpuidBit_eq (features : FeaturesType) (b : CpuidBit) :
    processCpuidBit cpu features b =
      assign features (b.flag, b.reading cpu) := by
  rw [processCpuidBit, CpuidBit.reading]
  by_cases signature : b.SignatureMatches cpu
  · rw [if_neg (not_not.2 signature)]
    by_cases above : b.leaf > b.max cpu
    · have outside : ¬ b.InRange cpu := fun inRange =>
        BitVec.not_lt.2 inRange.1 above
      rw [if_pos above, if_neg fun both => outside both.2]
      rfl
    · rw [if_neg above]
      by_cases noSubleaf :
          b.leaf = 7 ∧ b.subleaf > (cpu.cpuidSubleaf b.leaf 0).a
      · have outside : ¬ b.InRange cpu := fun inRange =>
          BitVec.not_lt.2 (inRange.2 noSubleaf.1) noSubleaf.2
        rw [if_pos noSubleaf, if_neg fun both => outside both.2]
        rfl
      · have inRange : b.InRange cpu :=
          ⟨BitVec.not_lt.1 above, fun seven =>
            BitVec.not_lt.1 fun beyond => noSubleaf ⟨seven, beyond⟩⟩
        rw [if_neg noSubleaf, if_pos ⟨signature, inRange⟩]
        rfl
  · rw [if_pos signature, if_neg fun both => signature both.1]
    rfl

/-- The flags after the table was gone through. -/
def afterBits (cpu : Processor) (storage : FeaturesType) : FeaturesType :=
  cpuidBits.foldl (processCpuidBit cpu) storage

/-- The table is a list of assignments. -/
theorem afterBits_eq (storage : FeaturesType) :
    afterBits cpu storage =
      assignAll storage
        (cpuidBits.map fun b => (b.flag, b.reading cpu)) := by
  rw [afterBits, assignAll, List.foldl_map]
  congr 1
  funext features b
  exact processCpuidBit_eq features b

theorem flags_distinct : (cpuidBits.map CpuidBit.flag).Nodup := by
  decide

theorem xenFlags_not_listed :
    ∀ flag ∈ xenFlags, flag ∉ cpuidBits.map CpuidBit.flag := by
  decide

/-- A flag of the table is its bit, or what it was. -/
theorem afterBits_listed (listed : b ∈ cpuidBits) (storage : FeaturesType) :
    afterBits cpu storage b.flag =
      (b.reading cpu).getD (storage b.flag) := by
  rw [afterBits_eq]
  apply assignAll_of_mem
  · rw [List.map_map]
    exact flags_distinct
  · exact List.mem_map.2 ⟨b, listed, rfl⟩

/-- The table does not touch the flags of Xen. -/
theorem afterBits_xen
    {flag : Flag} (member : flag ∈ xenFlags) (storage : FeaturesType) :
    afterBits cpu storage flag = storage flag := by
  rw [afterBits_eq]
  apply assignAll_of_not_mem
  rw [List.map_map]
  exact xenFlags_not_listed flag member

/-! ## The search for Xen -/

theorem xenBase_lt {k : Nat} (inside : k < 256) :
    xenBase k < 0x40010000 := by
  rw [BitVec.lt_def, xenBase, BitVec.toNat_add, BitVec.toNat_ofNat]
  change (0x40000000 + 256 * k % 2 ^ 32) % 2 ^ 32 < 0x40010000
  omega

theorem xenBase_succ (k : Nat) : xenBase k + 0x100 = xenBase (k + 1) := by
  rw [xenBase, xenBase, Nat.mul_succ, BitVec.ofNat_add, BitVec.add_assoc]
  rfl

/-- The loop ends without a signature, by induction on the rounds that are left.
-/
theorem scanXen_of_missing
    {features : FeaturesType} {rounds k : Nat} (total : k + rounds = 256)
    (missing : ¬ XenFound cpu) :
    scanXen cpu xen features rounds (xenBase k) = .ok features := by
  induction rounds generalizing k with
  | zero => rfl
  | succ rounds induction =>
      have inside : k < 256 := by omega
      have unsigned : ¬ (cpu.cpuid (xenBase k)).Signed xenSignature :=
        fun signed => missing ⟨k, inside, signed⟩
      rw [scanXen, if_pos (xenBase_lt inside), if_neg unsigned, xenBase_succ]
      exact induction (by omega)

/-- The loop stops at a signature. -/
theorem scanXen_of_found
    {features : FeaturesType} {rounds k last : Nat}
    (total : k + rounds = 256) (ahead : k ≤ last) (inside : last < 256)
    (signed : (cpu.cpuid (xenBase last)).Signed xenSignature) :
    scanXen cpu xen features rounds (xenBase k) = xenInit xen features := by
  induction rounds generalizing k with
  | zero => omega
  | succ rounds induction =>
      rw [scanXen, if_pos (xenBase_lt (by omega))]
      by_cases here : (cpu.cpuid (xenBase k)).Signed xenSignature
      · rw [if_pos here]
      · have different : k ≠ last := by
          rintro rfl
          exact here signed
        rw [if_neg here, xenBase_succ]
        exact induction (by omega) (by omega)

/-- The flags after `xen_init`. -/
def withXen (xen : XenAnswers) (features : FeaturesType) : FeaturesType :=
  Function.update
    (Function.update
      (Function.update features .xenClocksource
        (xenFeatures xen 9 &&& 1 ≠ 0))
      .xenVectorCallback (xenFeatures xen 8 &&& 1 ≠ 0))
    .xenPci (xenPciEnabled xen)

theorem withXen_of_not_mem
    {flag : Flag} (notXen : flag ∉ xenFlags) (features : FeaturesType) :
    withXen xen features flag = features flag := by
  simp only [xenFlags, List.mem_cons, List.not_mem_nil, or_false,
    not_or] at notXen
  rw [withXen, Function.update_of_ne notXen.2.2,
    Function.update_of_ne notXen.2.1, Function.update_of_ne notXen.1]

/-- The flags of Xen are what the hypervisor answers. -/
theorem withXen_of_mem
    {flag : Flag} (member : flag ∈ xenFlags)
    (first second : FeaturesType) :
    withXen xen first flag = withXen xen second flag := by
  simp only [xenFlags, List.mem_cons, List.not_mem_nil, or_false] at member
  rcases member with rfl | rfl | rfl <;> rfl

/-- Without Xen the table is all there is. -/
theorem features_of_missing
    (missing : ¬ XenFound cpu) (storage : FeaturesType) :
    features cpu xen storage = .ok (afterBits cpu storage) :=
  scanXen_of_missing (k := 0) rfl missing

theorem features_of_found
    (found : XenFound cpu) (storage : FeaturesType) :
    features cpu xen storage = xenInit xen (afterBits cpu storage) := by
  rcases found with ⟨last, inside, signed⟩
  exact scanXen_of_found (k := 0) rfl (Nat.zero_le last) inside signed

/-- With Xen its three flags are assigned too. -/
theorem features_of_granted
    (found : XenFound cpu) (granted : xen.addToPhysmap = 0)
    (storage : FeaturesType) :
    features cpu xen storage =
      .ok (withXen xen (afterBits cpu storage)) := by
  rw [features_of_found found, xenInit, if_neg (not_not.2 granted)]
  rfl

/-- A table entry's flag is its bit, or what the storage held. -/
theorem features_listed
    {storage found : FeaturesType}
    (returns : features cpu xen storage = .ok found)
    (listed : b ∈ cpuidBits) :
    found b.flag = (b.reading cpu).getD (storage b.flag) := by
  have notXen : b.flag ∉ xenFlags := fun member =>
    xenFlags_not_listed b.flag member (List.mem_map.2 ⟨b, listed, rfl⟩)
  by_cases xenThere : XenFound cpu
  · by_cases granted : xen.addToPhysmap = 0
    · rw [features_of_granted xenThere granted] at returns
      cases returns
      rw [withXen_of_not_mem notXen, afterBits_listed listed]
    · rw [features_of_found xenThere, xenInit, if_pos granted] at returns
      cases returns
  · rw [features_of_missing xenThere] at returns
    cases returns
    exact afterBits_listed listed storage

/-- An entry which is not skipped gives its flag, whatever the storage. -/
theorem features_read
    {storage found : FeaturesType}
    (returns : features cpu xen storage = .ok found)
    (listed : b ∈ cpuidBits)
    (read : b.SignatureMatches cpu ∧ b.InRange cpu) :
    found b.flag = b.isSet cpu := by
  rw [features_listed returns listed, CpuidBit.reading, if_pos read]
  rfl

/-- An entry whose flag is the same in two storages is not skipped. -/
theorem read_of_same
    {found other : FeaturesType}
    (returns : features cpu xen (fun _ => true) = .ok found)
    (otherReturns : features cpu xen (fun _ => false) = .ok other)
    (listed : b ∈ cpuidBits) (same : found b.flag = other b.flag) :
    b.SignatureMatches cpu ∧ b.InRange cpu := by
  rw [features_listed returns listed, features_listed otherReturns listed,
    CpuidBit.reading] at same
  by_contra skipped
  rw [if_neg skipped] at same
  cases same

/-- Without a signature of Xen its flags are what the storage held. -/
theorem xenFound_of_reports
    {found : FeaturesType}
    (returns : features cpu xen (fun _ => true) = .ok found)
    (reports : Reports cpu found) : XenFound cpu := by
  by_contra missing
  have notPci := reports.withoutXen missing .xenPci (by decide)
  rw [features_of_missing missing] at returns
  cases returns
  rw [afterBits_xen (by decide)] at notPci
  cases notPci

/-- Where Xen is found, the constructor returns only if it is granted its
page. -/
theorem granted_of_returns
    {storage found : FeaturesType} (xenThere : XenFound cpu)
    (returns : features cpu xen storage = .ok found) :
    xen.addToPhysmap = 0 := by
  by_contra denied
  rw [features_of_found xenThere, xenInit, if_pos denied] at returns
  cases returns

end Detection

/-! ## Which processors are detected -/

/--
The flags depend on the processor only, and are right, exactly if no table
entry is skipped and Xen is found and grants the shared page.
-/
theorem features_depend_on_cpu_only_iff
    (cpu : Processor) (xen : XenAnswers) :
    DependsOnCpuOnly cpu xen ↔
      (∀ b ∈ cpuidBits, b.SignatureMatches cpu ∧ b.InRange cpu) ∧
        XenFound cpu ∧ xen.addToPhysmap = 0 := by
  constructor
  · intro depends
    rcases depends (fun _ => true) (fun _ => false) with
      ⟨found, other, returns, otherReturns, same, -, reports⟩
    have xenThere := xenFound_of_reports returns reports
    exact
      ⟨fun b listed => read_of_same returns otherReturns listed (same b listed),
        xenThere, granted_of_returns xenThere returns⟩
  · rintro ⟨read, xenThere, granted⟩ first second
    have returns := features_of_granted xenThere granted
    have listed := fun storage b member =>
      features_read (returns storage) member (read b member)
    refine
      ⟨_, _, returns first, returns second, ?_, ?_,
        { listed := ?_
          withoutXen := fun missing => absurd xenThere missing }⟩
    · intro b member
      rw [listed first b member, listed second b member]
    · intro flag member
      exact withXen_of_mem member _ _
    · intro b member
      rw [listed first b member]
      constructor
      · intro set
        exact ⟨(read b member).1, (read b member).2, set⟩
      · rintro ⟨-, -, set⟩
        exact set

/-- KVM which emulates Xen at the next base. -/
def kvmWithXen : Processor where
  cpuid function :=
    if function = 0 then ⟨7, 0x756e6547, 0x6c65746e, 0x49656e69⟩
    else if function = 0x80000000 then ⟨0x80000008, 0, 0, 0⟩
    else if function = 0x40000000 then
      ⟨0x40000001, kvmSignature.b, kvmSignature.c, kvmSignature.d⟩
    else if function = 0x40000100 then
      ⟨0x40000104, xenSignature.b, xenSignature.c, xenSignature.d⟩
    else ⟨0, 0, 0, 0⟩
  cpuidSubleaf _ _ := ⟨0, 0, 0, 0⟩

example :
    (∀ b ∈ cpuidBits,
        b.SignatureMatches kvmWithXen ∧ b.InRange kvmWithXen) ∧
      XenFound kvmWithXen :=
  ⟨by decide, 1, by decide, by decide⟩

/-- A processor without a hypervisor. -/
def plainProcessor : Processor where
  cpuid function :=
    if function = 0 then ⟨7, 0x756e6547, 0x6c65746e, 0x49656e69⟩
    else if function = 0x80000000 then ⟨0x80000008, 0, 0, 0⟩
    else ⟨0, 0, 0, 0⟩
  cpuidSubleaf leaf _ :=
    if leaf = 1 then ⟨0x306a9, 0, 0x7fbae3bf, 0xbfebfbff⟩
    else ⟨0, 0, 0, 0⟩

/-- Ports with nothing behind them. -/
def absentXen : XenAnswers := ⟨0, 0, 0xffff, 0xffff, 0xffff⟩

theorem plainProcessor_unsigned (function : U32) :
    ¬ (plainProcessor.cpuid function).Signed xenSignature := by
  rintro ⟨same, -, -⟩
  revert same
  simp only [plainProcessor]
  split
  · decide
  · split <;> decide

/-- Without a hypervisor the flags of KVM and Xen are what the storage held. -/
theorem skipped_flags_are_stale :
    (∃ found,
        features plainProcessor absentXen (fun _ => true) = .ok found ∧
          found .kvmClocksource = true ∧ found .xenPci = true) ∧
      (∃ found,
        features plainProcessor absentXen (fun _ => false) = .ok found ∧
          found .kvmClocksource = false ∧ found .xenPci = false) ∧
        ¬ DependsOnCpuOnly plainProcessor absentXen := by
  have missing : ¬ XenFound plainProcessor := by
    rintro ⟨k, -, signed⟩
    exact plainProcessor_unsigned _ signed
  refine
    ⟨⟨_, features_of_missing missing _, by decide, by decide⟩,
      ⟨_, features_of_missing missing _, by decide, by decide⟩, ?_⟩
  intro depends
  rcases depends (fun _ => true) (fun _ => true) with
    ⟨found, -, returns, -, -, -, reports⟩
  exact missing (xenFound_of_reports returns reports)

end NopOS.Cpu.CpuidFeatures
