namespace SoundUnit

/-- A literal index and `Fin.ofNat` need a range that is not empty. Each range in use has an instance of its own,
which is found before the general one and is stated with the zero that `Fin` uses. -/
instance (priority := high) neZeroFour : @NeZero Nat Zero.ofOfNat0 4 := ⟨by decide⟩

instance (priority := high) neZeroEight : @NeZero Nat Zero.ofOfNat0 8 := ⟨by decide⟩

instance (priority := high) neZeroSixteen : @NeZero Nat Zero.ofOfNat0 16 := ⟨by decide⟩

instance (priority := high) neZeroThirtyTwo : @NeZero Nat Zero.ofOfNat0 32 := ⟨by decide⟩

end SoundUnit
