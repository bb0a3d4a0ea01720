/-!
# Hexadecimal text

Addresses in reports and error texts are written in lowercase hexadecimal after
`0x`, filled up with zeros to a least number of digits.
-/

namespace Aap.Text

/-- `value` in lowercase hexadecimal after `0x`, with at least `digits` digits. -/
def hexadecimal (digits value : Nat) : String :=
  let written := Nat.toDigits 16 value
  "0x" ++ String.ofList (List.replicate (digits - written.length) '0' ++ written)

end Aap.Text
