namespace SoundUnit

structure Ram where
  bytes : ByteArray
  size_eq : bytes.size = 65536

namespace Ram

def size : Nat := 65536

theorem toNat_lt_size (ram : Ram) (addr : UInt16) : addr.toNat < ram.bytes.size :=
  ram.size_eq ▸ addr.toNat_lt

def zero : Ram := ⟨⟨Array.replicate 65536 0⟩, by simp [ByteArray.size]⟩

def ofBytes? (bytes : ByteArray) : Option Ram :=
  if h : bytes.size = 65536 then some ⟨bytes, h⟩ else none

def read (ram : Ram) (addr : UInt16) : UInt8 := ram.bytes.get addr.toNat (ram.toNat_lt_size addr)

theorem size_set (bytes : ByteArray) (i : Nat) (data : UInt8) (h : i < bytes.size) :
    (bytes.set i data h).size = bytes.size :=
  Array.size_set h

def write (ram : Ram) (addr : UInt16) (data : UInt8) : Ram where
  bytes := ram.bytes.set addr.toNat data (ram.toNat_lt_size addr)
  size_eq := (size_set ..).trans ram.size_eq

/-- Sets `n` consecutive bytes to zero, wrapping at the end of memory. -/
def clear (ram : Ram) (start : UInt16) : Nat → Ram
  | 0 => ram
  | n + 1 => (ram.write start 0).clear (start + 1) n

theorem read_zero (addr : UInt16) : zero.read addr = 0 :=
  Array.getElem_replicate _

theorem read_write_self (ram : Ram) (addr : UInt16) (data : UInt8) :
    (ram.write addr data).read addr = data :=
  Array.getElem_set_self (ram.toNat_lt_size addr)

theorem read_write_of_ne (ram : Ram) {addr other : UInt16} (h : other ≠ addr) (data : UInt8) :
    (ram.write addr data).read other = ram.read other :=
  Array.getElem_set_ne (ram.toNat_lt_size addr) (ram.toNat_lt_size other) fun e ↦ h (UInt16.toNat_inj.1 e).symm

end Ram

end SoundUnit
