/-!
# Number arguments

A number is written in decimal, or in hexadecimal after `0x` or `0X`.  One plus
sign may precede the digits.  Values from `2 ^ 64` on are not numbers.
-/

namespace Aap.CommandLine

/-- The value of a hexadecimal digit of either case. -/
def hexDigit? (character : Char) : Option Nat :=
  if '0' ≤ character ∧ character ≤ '9' then some (character.toNat - '0'.toNat)
  else if 'a' ≤ character ∧ character ≤ 'f' then some (character.toNat - 'a'.toNat + 10)
  else if 'A' ≤ character ∧ character ≤ 'F' then some (character.toNat - 'A'.toNat + 10)
  else none

/-- The value of a digit in a radix up to sixteen. -/
def digit? (radix : Nat) (character : Char) : Option Nat :=
  (hexDigit? character).filter fun value => value < radix

/-- The value of digits that follow digits of the value `leading`. -/
def digits? (radix leading : Nat) : List Char → Option Nat
  | [] => some leading
  | character :: rest => do
      let value ← digit? radix character
      digits? radix (radix * leading + value) rest

/-- The value of at least one digit, with an optional plus sign in front. -/
def unsigned? (radix : Nat) (characters : List Char) : Option Nat :=
  let written :=
    match characters with
    | '+' :: rest => rest
    | _ => characters
  match written with
  | [] => none
  | _ => digits? radix 0 written

/-- The value of digits in the radix that the characters in front of them select. -/
def prefixed? : List Char → Option Nat
  | '0' :: 'x' :: rest => unsigned? 16 rest
  | '0' :: 'X' :: rest => unsigned? 16 rest
  | characters => unsigned? 10 characters

def number? (text : String) : Option Nat :=
  (prefixed? text.toList).filter fun value => value < 1 <<< 64

end Aap.CommandLine
