import SoundUnit.Word

namespace SoundUnit

structure BootRom where
  bytes : ByteArray
  size_eq : bytes.size = 64

namespace BootRom

def size : Nat := 64

def base : UInt16 := 0xFFC0

def ofBytes? (bytes : ByteArray) : Option BootRom :=
  if h : bytes.size = 64 then some ⟨bytes, h⟩ else none

def read (rom : BootRom) (i : Fin 64) : UInt8 := rom.bytes.get i.val (by rw [rom.size_eq]; exact i.isLt)

/-- The address at which the processor starts. -/
def resetVector (rom : BootRom) : UInt16 := word (rom.read 63) (rom.read 62)

/-- The standard program, which receives data through the ports. -/
def standard : BootRom where
  bytes := ⟨#[
    0xCD, 0xEF, 0xBD, 0xE8, 0x00, 0xC6, 0x1D, 0xD0, 0xFC, 0x8F, 0xAA, 0xF4, 0x8F, 0xBB, 0xF5, 0x78,
    0xCC, 0xF4, 0xD0, 0xFB, 0x2F, 0x19, 0xEB, 0xF4, 0xD0, 0xFC, 0x7E, 0xF4, 0xD0, 0x0B, 0xE4, 0xF5,
    0xCB, 0xF4, 0xD7, 0x00, 0xFC, 0xD0, 0xF3, 0xAB, 0x01, 0x10, 0xEF, 0x7E, 0xF4, 0x10, 0xEB, 0xBA,
    0xF6, 0xDA, 0x00, 0xBA, 0xF4, 0xC4, 0xF4, 0xDD, 0x5D, 0xD0, 0xDB, 0x1F, 0x00, 0x00, 0xC0, 0xFF]⟩
  size_eq := rfl

end BootRom

end SoundUnit
