import Troe.Lib.Bytes

/-!
# UTF-8 validation

The well-formed byte sequences of UTF-8, as `core::str::from_utf8` accepts them: shortest forms
only, no surrogates, nothing above U+10FFFF.
-/

namespace Troe.Lib

/-- A byte within bounds. -/
def isBetween (low high : ℕ) (byte : UInt8) : Bool :=
  decide (low ≤ byte.toNat ∧ byte.toNat ≤ high)

/-- A continuation byte. -/
def isContinuation (byte : UInt8) : Bool := isBetween 0x80 0xbf byte

/-- The scalar values of a byte string, when it is well formed. -/
def decodeUtf8 : Bytes → Option (List ℕ)
  | [] => some []
  | first :: rest =>
    let lead := first.toNat
    if lead < 0x80 then (decodeUtf8 rest).map (lead :: ·)
    else if 0xc2 ≤ lead ∧ lead ≤ 0xdf then
      match rest with
      | second :: rest =>
        if isContinuation second then
          (decodeUtf8 rest).map (((lead - 0xc0) * 64 + (second.toNat - 0x80)) :: ·)
        else none
      | [] => none
    else if 0xe0 ≤ lead ∧ lead ≤ 0xef then
      match rest with
      | second :: third :: rest =>
        -- `e0` would be overlong below `a0`, and `ed` a surrogate above `9f`.
        let low := if lead = 0xe0 then 0xa0 else 0x80
        let high := if lead = 0xed then 0x9f else 0xbf
        if isBetween low high second && isContinuation third then
          (decodeUtf8 rest).map (((lead - 0xe0) * 4096 + (second.toNat - 0x80) * 64 +
            (third.toNat - 0x80)) :: ·)
        else none
      | _ => none
    else if 0xf0 ≤ lead ∧ lead ≤ 0xf4 then
      match rest with
      | second :: third :: fourth :: rest =>
        -- `f0` would be overlong below `90`, and `f4` too large above `8f`.
        let low := if lead = 0xf0 then 0x90 else 0x80
        let high := if lead = 0xf4 then 0x8f else 0xbf
        if isBetween low high second && isContinuation third && isContinuation fourth then
          (decodeUtf8 rest).map (((lead - 0xf0) * 262144 + (second.toNat - 0x80) * 4096 +
            (third.toNat - 0x80) * 64 + (fourth.toNat - 0x80)) :: ·)
        else none
      | _ => none
    else none

/-- `char::is_control`: the general category Cc. -/
def isControl (scalar : ℕ) : Bool := decide (scalar < 0x20 ∨ 0x7f ≤ scalar ∧ scalar ≤ 0x9f)

end Troe.Lib
