import SoundUnit.Index

namespace SoundUnit

inductive Location where
  | ram
  | test
  | control
  | dspAddress
  | dspData
  | port (i : Fin 4)
  | timerTarget (i : Fin 3)
  | timerOutput (i : Fin 3)
  /-- Memory that the boot program can hide from reads. -/
  | boot (i : Fin 64)
deriving DecidableEq

namespace Location

def devices : Vector Location 16 := #v[
  .test, .control, .dspAddress, .dspData, .port 0, .port 1, .port 2, .port 3,
  .ram, .ram, .timerTarget 0, .timerTarget 1, .timerTarget 2, .timerOutput 0, .timerOutput 1, .timerOutput 2]

def ofAddress (addr : UInt16) : Location :=
  if h : 0xFFC0 ≤ addr.toNat then .boot ⟨addr.toNat - 0xFFC0, by have := addr.toNat_lt; omega⟩
  else if h : 0xF0 ≤ addr.toNat ∧ addr.toNat < 0x100 then devices[addr.toNat - 0xF0]
  else .ram

end Location

end SoundUnit
