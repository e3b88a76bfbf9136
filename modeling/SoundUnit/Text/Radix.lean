namespace SoundUnit

namespace Radix

def render (base width n : Nat) : String :=
  String.ofList (((Nat.toDigits base n).map Char.toUpper).leftpad width '0')

def hex (width n : Nat) : String := render 16 width n

def binary (width n : Nat) : String := render 2 width n

inductive Fault where
  | empty
  | invalidDigit
  | tooLarge
deriving DecidableEq

def Fault.message : Fault → String
  | .empty => "cannot parse integer from empty string"
  | .invalidDigit => "invalid digit found in string"
  | .tooLarge => "number too large to fit in target type"

def digit? (base : Nat) (c : Char) : Option Nat :=
  let value? :=
    if '0' ≤ c ∧ c ≤ '9' then some (c.toNat - '0'.toNat)
    else if 'a' ≤ c ∧ c ≤ 'z' then some (c.toNat - 'a'.toNat + 10)
    else if 'A' ≤ c ∧ c ≤ 'Z' then some (c.toNat - 'A'.toNat + 10)
    else none
  value?.filter (· < base)

/-- Reads further digits. At each one a wrong character counts before a number that has become too large. -/
def readDigits (base bound : Nat) : Nat → List Char → Except Fault Nat
  | value, [] => .ok value
  | value, c :: rest =>
    match digit? base c with
    | none => .error .invalidDigit
    | some d =>
      if value * base + d < bound then readDigits base bound (value * base + d) rest
      else .error .tooLarge

/-- Reads a number below `bound`. One leading plus sign is allowed, but not alone. -/
def read (base bound : Nat) (text : List Char) : Except Fault Nat :=
  match text with
  | [] => .error .empty
  | ['+'] => .error .invalidDigit
  | '+' :: digits => readDigits base bound 0 digits
  | digits => readDigits base bound 0 digits

end Radix

end SoundUnit
