import NopOS.Lz.CompressorRuns

/-!
# The kernel image comes back

What the compressors write is a block, and the decompressor writes the text of
a block.  So `uncompress_loader` restores the kernel which `lz` compressed,
and the output of the compressors stays in the buffer which `fastlz.h` asks
for.
-/

namespace NopOS.Lz.KernelImage

open NopOS.Lib.IndexedBuffer
open NopOS.Lz.Decompress
open NopOS.Lz.TokenFormat
open NopOS.Lz.Compress
open NopOS.Lz.CompressorRuns

/-- A call of the decompressor which gives back `length` bytes of the input. -/
def Restores
    (input : Memory) (length : Nat) (packed : List Byte) : Prop :=
  ∀ (strictAlign : Bool) (call : Call) (fuel : Nat) (memory : Memory),
    Layout call →
    call.length = packed.length →
    Holds memory call.input packed →
    length ≤ call.maxout →
    packed.length ≤ fuel →
      ∃ after,
        fastlzDecompress strictAlign call fuel memory = some (length, after) ∧
          (∀ i < length, after (call.output + i) = input i) ∧
            ∀ place,
              place < call.output ∨ call.output + length ≤ place →
                after place = memory place

theorem Compressed.restores
    {level : Level} {input before after : Memory} {length size : Nat}
    {block : Block level (slice input 0 length)}
    (made : Compressed level input before length size after block) :
    Restores input length (slice after 0 size) := by
  intro strictAlign call fuel memory layout counted held room enough
  have packed : slice after 0 size = block.bytes := by
    rw [made.counted]
    exact made.held
  rw [packed] at counted held enough
  rcases fastlzDecompress_block strictAlign block layout counted held
      (by rw [length_slice]; exact room) (counted.trans_le enough) with
    ⟨last, decompressed, written⟩
  rw [length_slice] at decompressed
  refine ⟨last, decompressed, ?_, ?_⟩
  · intro i inside
    have there : i < (slice input 0 length).length := by
      rw [length_slice]
      exact inside
    rw [holds_iff_getElem.mp written.holds i there, getElem_slice,
      Nat.zero_add]
  · intro place outside
    apply written.elsewhere
    rwa [length_slice]

/-- The levels of `fastlz_compress_level` which compress. -/
theorem compressLevel_compressed
    {level length : Nat}
    (input output : Memory)
    (known : level = 1 ∨ level = 2)
    (positive : 0 < length)
    (small : length < 2 ^ 31) :
    ∃ used size after,
      ∃ block : Block used (slice input 0 length),
        fastlzCompressLevel level input length output = some (size, after) ∧
          Compressed used input output length size after block := by
  have nonzero : length ≠ 0 := by omega
  have fits : length < 2 ^ 32 := by omega
  rcases known with rfl | rfl
  · exact compressor_compressed .one input output nonzero fits
  · exact compressor_compressed .two input output nonzero fits

/-- Whatever the level, the decompressor restores what was compressed. -/
theorem decompress_compressLevel
    {level length : Nat}
    (input output : Memory)
    (known : level = 1 ∨ level = 2)
    (positive : 0 < length)
    (small : length < 2 ^ 31) :
    ∃ size after,
      fastlzCompressLevel level input length output = some (size, after) ∧
        Restores input length (slice after 0 size) := by
  rcases compressLevel_compressed input output known positive small
    with ⟨used, size, after, block, compressed, made⟩
  exact ⟨size, after, compressed, Compressed.restores made⟩

/-- A run of one byte. -/
theorem decompress_compressLevel_run :
    ∃ size after,
      fastlzCompressLevel 2 (fun _ => 7) 100000 (fun _ => 0) =
          some (size, after) ∧
        Restores (fun _ => 7) 100000 (slice after 0 size) :=
  decompress_compressLevel (fun _ => 7) (fun _ => 0) (Or.inr rfl) (by decide)
    (by decide)

/-! ## The output buffer -/

/-- 5% larger than the input, and not smaller than 66 bytes. -/
def documentedSize (length : Nat) : Nat := max 66 (length + length / 20)

theorem outputSize_le_documentedSize (length : Nat) :
    outputSize length ≤ documentedSize length := by
  rw [outputSize, documentedSize]
  omega

/--
The compressors write no byte behind the documented size of the output buffer,
nor behind twice the length, which is what `lz` allocates.
-/
theorem compressLevel_in_buffer
    {level length : Nat}
    (input output : Memory)
    (known : level = 1 ∨ level = 2)
    (positive : 0 < length)
    (small : length < 2 ^ 31) :
    ∃ size after,
      fastlzCompressLevel level input length output = some (size, after) ∧
        size ≤ documentedSize length ∧
          size ≤ 2 * length ∧
            ∀ place,
              documentedSize length ≤ place ∨ 2 * length ≤ place →
                after place = output place := by
  rcases compressLevel_compressed input output known positive small
    with ⟨used, size, after, block, compressed, made⟩
  have documented := outputSize_le_documentedSize length
  have twice : outputSize length ≤ 2 * length := by
    rw [outputSize]
    omega
  have bound := made.bound
  refine ⟨size, after, compressed, by omega, by omega, ?_⟩
  rintro place (beyond | beyond)
  · exact made.untouched place (by omega)
  · exact made.untouched place (by omega)

/-- The same run. -/
theorem compressLevel_in_buffer_run :
    ∃ size after,
      fastlzCompressLevel 1 (fun _ => 7) 64 (fun _ => 0) =
          some (size, after) ∧
        size ≤ documentedSize 64 ∧
          size ≤ 2 * 64 ∧
            ∀ place,
              documentedSize 64 ≤ place ∨ 2 * 64 ≤ place →
                after place = 0 :=
  compressLevel_in_buffer (fun _ => 7) (fun _ => 0) (Or.inl rfl) (by decide)
    (by decide)

/-! ## From `lz` to `uncompress_loader` -/

theorem bufferOf_inside
    {file : List Byte} {i : Nat}
    (behind : Memory)
    (inside : i < file.length) :
    bufferOf file behind i = file[i] := by
  rw [bufferOf, List.getElem?_eq_getElem inside, Option.getD_some]

/--
The loader restores the kernel at 2 MiB, wherever above the buffer the file of
`lz` was linked, and changes nothing else in memory.
-/
theorem uncompressLoader_lz
    {kernel : List Byte}
    (behind output : Memory)
    (some : kernel ≠ [])
    (fits : kernel.length ≤ maxBuffer) :
    ∃ file,
      lz kernel behind output = Option.some file ∧
        ∀ (memory : Memory) (input fuel : Nat),
          Holds memory input file →
          bufferOut + maxBuffer ≤ input →
          input + file.length < 2 ^ 32 →
          file.length ≤ fuel →
            ∃ after,
              uncompressLoader input file.length fuel memory =
                  Option.some after ∧
                Holds after bufferOut kernel ∧
                  ∀ place,
                    place < bufferOut ∨ bufferOut + kernel.length ≤ place →
                      after place = memory place := by
  have positive := List.length_pos_of_ne_nil some
  have most : maxBuffer = 0x1600000 := rfl
  have lowest : bufferOut = 0x200000 := rfl
  have chosen :
      ∃ level,
        (level = 1 ∨ level = 2) ∧
          fastlzCompress (bufferOf kernel behind) kernel.length output =
            fastlzCompressLevel level (bufferOf kernel behind) kernel.length
              output := by
    rw [fastlzCompress]
    split
    · exact ⟨1, Or.inl rfl, rfl⟩
    · exact ⟨2, Or.inr rfl, rfl⟩
  rcases chosen with ⟨level, known, same⟩
  rcases decompress_compressLevel (bufferOf kernel behind) output known
      positive (by omega) with
    ⟨size, packed, compressed, restores⟩
  refine ⟨slice packed 0 size, ?_, ?_⟩
  · rw [lz, same, compressed]
    rfl
  · intro memory input fuel held above ends enough
    rcases restores false
        { input
          length := (slice packed 0 size).length
          output := bufferOut
          maxout := maxBuffer }
        fuel memory
        { inputEnds := ends
          outputEnds := (by decide : bufferOut + maxBuffer < 2 ^ 32)
          apart := Or.inr above }
        rfl held fits enough with
      ⟨after, decompressed, text, elsewhere⟩
    refine ⟨after, ?_, ?_, elsewhere⟩
    · rw [uncompressLoader, decompressed]
      rfl
    · rw [holds_iff_getElem]
      intro i inside
      rw [← bufferOf_inside behind inside]
      exact text i inside

/-- The start of an ELF file and a row of zeros, which `lz` packs into a
match. -/
def elfStart : List Byte :=
  [0x7f, 0x45, 0x4c, 0x46] ++ List.replicate 28 0

/-- The first bytes of a kernel, with a run of zeros among them. -/
theorem uncompressLoader_lz_elfStart :
    ∃ file,
      lz elfStart (fun _ => 0) (fun _ => 0) = some file ∧
        ∀ (memory : Memory) (input fuel : Nat),
          Holds memory input file →
          bufferOut + maxBuffer ≤ input →
          input + file.length < 2 ^ 32 →
          file.length ≤ fuel →
            ∃ after,
              uncompressLoader input file.length fuel memory = some after ∧
                Holds after bufferOut elfStart ∧
                  ∀ place,
                    place < bufferOut ∨ bufferOut + 32 ≤ place →
                      after place = memory place :=
  uncompressLoader_lz (fun _ => 0) (fun _ => 0) (by decide) (by decide)

end NopOS.Lz.KernelImage
