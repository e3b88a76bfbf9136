import SoundUnit.Voice.Basic

namespace SoundUnit

inductive GlobalRegister where
  | mainVolumeLeft | mainVolumeRight
  | echoVolumeLeft | echoVolumeRight
  | keyOn | keyOff
  | flags
  | ended
  | echoFeedback
  | spare
  | pitchModulation
  | noiseEnable
  | echoEnable
  | directory
  | echoStart
  | echoDelay
deriving DecidableEq

inductive DspRegister where
  | voice (v : Fin 8) (r : VoiceRegister)
  | tap (i : Fin 8)
  | global (r : GlobalRegister)
deriving DecidableEq

namespace DspRegister

def columnC : Vector GlobalRegister 8 := #v[
  .mainVolumeLeft, .mainVolumeRight, .echoVolumeLeft, .echoVolumeRight, .keyOn, .keyOff, .flags, .ended]

def columnD : Vector GlobalRegister 8 := #v[
  .echoFeedback, .spare, .pitchModulation, .noiseEnable, .echoEnable, .directory, .echoStart, .echoDelay]

def columns : Vector (Fin 8 → DspRegister) 16 := #v[
  (.voice · .volumeLeft), (.voice · .volumeRight), (.voice · .pitchLow), (.voice · .pitchHigh),
  (.voice · .source), (.voice · .adsrLow), (.voice · .adsrHigh), (.voice · .gain),
  (.voice · .envelopeReadback), (.voice · .outputReadback), (.voice · .spareA), (.voice · .spareB),
  fun row ↦ .global (columnC.get row), fun row ↦ .global (columnD.get row), (.voice · .spareE), .tap]

/-- The register that the low seven bits of an address select. -/
def ofAddress (addr : UInt8) : DspRegister :=
  columns.get (Fin.ofNat 16 addr.toNat) (Fin.ofNat 8 (addr.toNat / 16))

end DspRegister

end SoundUnit
