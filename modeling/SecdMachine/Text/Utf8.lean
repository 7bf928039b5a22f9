/-!
Reading bytes as characters. A byte that does not take part in a well-formed sequence reads as one
replacement character, so every byte sequence is some text and nothing is dropped.
-/

namespace SecdMachine.Text

abbrev Bytes := List UInt8

def replacement : Char := Char.ofNat 0xFFFD

def isContinuation (byte : UInt8) : Bool :=
  0x80 ≤ byte && byte ≤ 0xBF

def continued (code : Nat) (byte : UInt8) : Nat :=
  code * 64 + (byte.toNat - 0x80)

/-- The character that starts with byte `lead`, and how many of the bytes after it belong to it.
The second byte after 0xE0, 0xED, 0xF0 and 0xF4 has a narrower range, which leaves out long forms,
surrogates and code points past the last. -/
def leading? (lead : UInt8) (rest : Bytes) : Option (Char × Nat) :=
  if lead < 0x80 then some (Char.ofNat lead.toNat, 0)
  else if 0xC2 ≤ lead && lead ≤ 0xDF then
    match rest with
    | second :: _ =>
        if isContinuation second then
          some (Char.ofNat (continued (lead.toNat - 0xC0) second), 1)
        else none
    | [] => none
  else if 0xE0 ≤ lead && lead ≤ 0xEF then
    match rest with
    | second :: third :: _ =>
        let lower : UInt8 := if lead = 0xE0 then 0xA0 else 0x80
        let upper : UInt8 := if lead = 0xED then 0x9F else 0xBF
        if lower ≤ second && second ≤ upper && isContinuation third then
          some (Char.ofNat (continued (continued (lead.toNat - 0xE0) second) third), 2)
        else none
    | _ => none
  else if 0xF0 ≤ lead && lead ≤ 0xF4 then
    match rest with
    | second :: third :: fourth :: _ =>
        let lower : UInt8 := if lead = 0xF0 then 0x90 else 0x80
        let upper : UInt8 := if lead = 0xF4 then 0x8F else 0xBF
        if lower ≤ second && second ≤ upper && isContinuation third && isContinuation fourth then
          some (Char.ofNat (continued (continued (continued (lead.toNat - 0xF0) second) third)
            fourth), 3)
        else none
    | _ => none
  else none

def decodeAfter : Nat → Bytes → List Char
  | _, [] => []
  | skip + 1, _ :: rest => decodeAfter skip rest
  | 0, lead :: rest =>
      match leading? lead rest with
      | some (char, used) => char :: decodeAfter used rest
      | none => replacement :: decodeAfter 0 rest

def decode (bytes : Bytes) : List Char :=
  decodeAfter 0 bytes

def wellFormedAfter : Nat → Bytes → Bool
  | _, [] => true
  | skip + 1, _ :: rest => wellFormedAfter skip rest
  | 0, lead :: rest =>
      match leading? lead rest with
      | some (_, used) => wellFormedAfter used rest
      | none => false

def wellFormed (bytes : Bytes) : Bool :=
  wellFormedAfter 0 bytes

def encode (text : String) : Bytes :=
  text.toUTF8.toList

theorem decode_eq_nil_iff (bytes : Bytes) : decode bytes = [] ↔ bytes = [] := by
  cases bytes with
  | nil => simp [decode, decodeAfter]
  | cons lead rest =>
      simp only [decode, decodeAfter, reduceCtorEq, iff_false]
      split <;> simp

end SecdMachine.Text
