import NopOS.Lib.LittleEndian

/-!
# The image `loader.img`

The rule of the `Makefile` lays out the boot sector and `lzloader.elf`, and
`setsize.py` writes the number of blocks into the boot sector.  A file is the
list of its bytes.
-/

namespace NopOS.Boot.LoaderImage

open NopOS.Lib.LittleEndian

/-- A byte of a file. -/
abbrev Byte := BitVec 8

/-! ## The data of `boot16.S` -/

/-- `tmp`, where `int $0x13` puts a block. -/
def tmp : Nat := 0x80000

/-- `target`, where the ELF file goes. -/
def target : Nat := 0x1800000

/-- `.byte`. -/
def byte (value : Nat) : List Byte := [byteOf value 0]

/-- `.short`. -/
def short (value : Nat) : List Byte := (List.range 2).map (byteOf value)

/-- `.long`. -/
def long (value : Nat) : List Byte := (List.range 4).map (byteOf value)

/-- `.quad`. -/
def quad (value : Nat) : List Byte := (List.range 8).map (byteOf value)

/-- `int1342_struct` up to its `lba`. -/
def int1342Struct : List Byte :=
  byte 0x10 ++ byte 0 ++ short 0x40 ++ short 0 ++ short (tmp / 16)

/-- The blocks which hold a file, rounded up. -/
def blocks (size : Nat) : Nat := (size + 32767) / 32768

variable {code : BootCode} {elf : List Byte}

end NopOS.Boot.LoaderImage
