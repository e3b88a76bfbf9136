namespace SoundUnit

structure Stereo (α : Type) where
  left : α
  right : α
deriving DecidableEq

namespace Stereo

def map {α β : Type} (f : α → β) (s : Stereo α) : Stereo β := ⟨f s.left, f s.right⟩

def zipWith {α β γ : Type} (f : α → β → γ) (s : Stereo α) (t : Stereo β) : Stereo γ :=
  ⟨f s.left t.left, f s.right t.right⟩

end Stereo

abbrev Frame := Stereo Int16

def Frame.silence : Frame := ⟨0, 0⟩

namespace Sample

/-- The nearest value in the range of a signed 16-bit number. -/
def clamp (x : Int) : Int := min 32767 (max (-32768) x)

/-- The signed 16-bit number with the same low 16 bits. -/
def wrap (x : Int) : Int := x.bmod 65536

/-- The largest even number not above `x`. -/
def even (x : Int) : Int := 2 * (x / 2)

end Sample

end SoundUnit
