import SecdMachine.Proofs.Encoding

/-!
What bytes that are no text read as. Where a character is written it is read, and a byte where none
is written reads as one replacement character.
-/

namespace SecdMachine.Text

/-- Bytes as a text, from the left: characters, and replacements for bytes that begin none. -/
inductive Decodes : Bytes → List Char → Prop
  | nil : Decodes [] []
  | char {char : Char} {rest : Bytes} {text : List Char} (more : Decodes rest text) :
      Decodes (String.utf8EncodeChar char ++ rest) (char :: text)
  | invalid {byte : UInt8} {rest : Bytes} {text : List Char}
      (foreign : ∀ char, ¬String.utf8EncodeChar char <+: byte :: rest) (more : Decodes rest text) :
      Decodes (byte :: rest) (replacement :: text)

theorem utf8EncodeChar_ofNat {code : Nat} (valid : code.isValidChar) :
    String.utf8EncodeChar (Char.ofNat code) =
      if code ≤ 0x7F then [UInt8.ofNat code]
      else if code ≤ 0x7FF then [UInt8.ofNat (code / 64 % 32 + 192), UInt8.ofNat (code % 64 + 128)]
      else if code ≤ 0xFFFF then
        [UInt8.ofNat (code / 4096 % 16 + 224), UInt8.ofNat (code / 64 % 64 + 128),
          UInt8.ofNat (code % 64 + 128)]
      else
        [UInt8.ofNat (code / 262144 % 8 + 240), UInt8.ofNat (code / 4096 % 64 + 128),
          UInt8.ofNat (code / 64 % 64 + 128), UInt8.ofNat (code % 64 + 128)] := by
  have same : (Char.ofNat code).val.toNat = code := by
    rw [Char.ofNat, dif_pos valid]
    rfl
  simp only [String.utf8EncodeChar, same]

theorem ofNat_eq {number : Nat} {byte : UInt8} (same : byte.toNat = number) :
    UInt8.ofNat number = byte := by
  rw [← same, UInt8.ofNat_toNat]

theorem between_toNat {lower upper byte : UInt8}
    (within : (lower ≤ byte && byte ≤ upper) = true) :
    lower.toNat ≤ byte.toNat ∧ byte.toNat ≤ upper.toNat := by
  simpa [UInt8.le_iff_toNat_le] using within

theorem utf8EncodeChar_two {lead second : UInt8} (leads : (0xC2 ≤ lead && lead ≤ 0xDF) = true)
    (continues : isContinuation second = true) :
    String.utf8EncodeChar (Char.ofNat (continued (lead.toNat - 0xC0) second)) = [lead, second] := by
  have leadBounds := between_toNat leads
  have bounds := between_toNat continues
  simp only [UInt8.reduceToNat] at leadBounds bounds
  unfold continued
  rw [utf8EncodeChar_ofNat (Or.inl (by omega)), if_neg (by omega), if_pos (by omega),
    @ofNat_eq _ lead (by omega), @ofNat_eq _ second (by omega)]

theorem utf8EncodeChar_three {lead second third : UInt8}
    (leads : (0xE0 ≤ lead && lead ≤ 0xEF) = true)
    (proper : ((if lead = 0xE0 then (0xA0 : UInt8) else 0x80) ≤ second &&
      second ≤ (if lead = 0xED then (0x9F : UInt8) else 0xBF)) = true)
    (continues : isContinuation third = true) :
    String.utf8EncodeChar
        (Char.ofNat (continued (continued (lead.toNat - 0xE0) second) third)) =
      [lead, second, third] := by
  have leadBounds := between_toNat leads
  have secondBounds := between_toNat proper
  have bounds := between_toNat continues
  simp only [UInt8.reduceToNat] at leadBounds bounds
  simp only [← UInt8.toNat_inj, apply_ite UInt8.toNat, UInt8.reduceToNat] at secondBounds
  have scalar : ((lead.toNat - 0xE0) * 64 + (second.toNat - 0x80)) * 64 +
      (third.toNat - 0x80) < 0xD800 ∨
      0xDFFF < ((lead.toNat - 0xE0) * 64 + (second.toNat - 0x80)) * 64 + (third.toNat - 0x80) := by
    split at secondBounds <;> split at secondBounds <;> omega
  have long : 0x7FF < ((lead.toNat - 0xE0) * 64 + (second.toNat - 0x80)) * 64 +
      (third.toNat - 0x80) := by
    split at secondBounds <;> omega
  have low : 0x80 ≤ second.toNat ∧ second.toNat ≤ 0xBF := by
    split at secondBounds <;> split at secondBounds <;> omega
  unfold continued
  rw [utf8EncodeChar_ofNat (by unfold Nat.isValidChar; omega), if_neg (by omega), if_neg (by omega),
    if_pos (by omega), @ofNat_eq _ lead (by omega), @ofNat_eq _ second (by omega),
    @ofNat_eq _ third (by omega)]

theorem utf8EncodeChar_four {lead second third fourth : UInt8}
    (leads : (0xF0 ≤ lead && lead ≤ 0xF4) = true)
    (proper : ((if lead = 0xF0 then (0x90 : UInt8) else 0x80) ≤ second &&
      second ≤ (if lead = 0xF4 then (0x8F : UInt8) else 0xBF)) = true)
    (continues : isContinuation third = true) (alsoContinues : isContinuation fourth = true) :
    String.utf8EncodeChar (Char.ofNat
        (continued (continued (continued (lead.toNat - 0xF0) second) third) fourth)) =
      [lead, second, third, fourth] := by
  have leadBounds := between_toNat leads
  have secondBounds := between_toNat proper
  have bounds := between_toNat continues
  have lastBounds := between_toNat alsoContinues
  simp only [UInt8.reduceToNat] at leadBounds bounds lastBounds
  simp only [← UInt8.toNat_inj, apply_ite UInt8.toNat, UInt8.reduceToNat] at secondBounds
  have low : 0x80 ≤ second.toNat ∧ second.toNat ≤ 0xBF := by
    split at secondBounds <;> split at secondBounds <;> omega
  have long : 0x10 ≤ (lead.toNat - 0xF0) * 64 + (second.toNat - 0x80) := by
    split at secondBounds <;> omega
  have short : (lead.toNat - 0xF0) * 64 + (second.toNat - 0x80) < 0x110 := by
    split at secondBounds <;> split at secondBounds <;> omega
  unfold continued
  rw [utf8EncodeChar_ofNat (by unfold Nat.isValidChar; omega), if_neg (by omega), if_neg (by omega),
    if_neg (by omega), @ofNat_eq _ lead (by omega), @ofNat_eq _ second (by omega),
    @ofNat_eq _ third (by omega), @ofNat_eq _ fourth (by omega)]

theorem utf8EncodeChar_of_leading? {lead : UInt8} {rest : Bytes} {char : Char} {used : Nat}
    (found : leading? lead rest = some (char, used)) :
    String.utf8EncodeChar char = lead :: rest.take used := by
  unfold leading? at found
  split at found
  next short =>
    simp only [UInt8.lt_iff_toNat_lt, UInt8.reduceToNat] at short
    cases found
    rw [utf8EncodeChar_ofNat (Or.inl (by omega)), if_pos (by omega), UInt8.ofNat_toNat]
    rfl
  next =>
    split at found
    next leads =>
      split at found
      next second more =>
        obtain ⟨continues, same⟩ := Option.ite_none_right_eq_some.mp found
        obtain ⟨rfl, rfl⟩ := Prod.mk.inj (Option.some.inj same)
        rw [utf8EncodeChar_two leads continues]
        rfl
      next => cases found
    next =>
      split at found
      next leads =>
        split at found
        next second third more =>
          obtain ⟨proper, same⟩ := Option.ite_none_right_eq_some.mp found
          rw [Bool.and_eq_true] at proper
          obtain ⟨rfl, rfl⟩ := Prod.mk.inj (Option.some.inj same)
          rw [utf8EncodeChar_three leads proper.1 proper.2]
          rfl
        next => cases found
      next =>
        split at found
        next leads =>
          split at found
          next second third fourth more =>
            obtain ⟨proper, same⟩ := Option.ite_none_right_eq_some.mp found
            rw [Bool.and_eq_true, Bool.and_eq_true] at proper
            obtain ⟨rfl, rfl⟩ := Prod.mk.inj (Option.some.inj same)
            rw [utf8EncodeChar_four leads proper.1.1 proper.1.2 proper.2]
            rfl
          next => cases found
        next => cases found

theorem decodeAfter_eq_decode_drop (skip : Nat) (bytes : Bytes) :
    decodeAfter skip bytes = decode (bytes.drop skip) := by
  induction bytes generalizing skip with
  | nil => cases skip <;> rfl
  | cons lead rest ih =>
      cases skip with
      | zero => rfl
      | succ skip => exact ih skip

/-- Bytes decode to one text. -/
theorem decodes_iff {bytes : Bytes} {text : List Char} :
    Decodes bytes text ↔ decode bytes = text := by
  constructor
  · intro decodes
    induction decodes with
    | nil => rfl
    | @char char rest text _ ih =>
        obtain ⟨lead, more, encoded, leads⟩ := leading?_utf8EncodeChar char rest
        rw [encoded, List.cons_append, decode, decodeAfter, leads]
        simp only [decodeAfter_append]
        exact congrArg (char :: ·) ih
    | @invalid byte rest text foreign _ ih =>
        have none : leading? byte rest = none := by
          rw [Option.eq_none_iff_forall_ne_some]
          rintro ⟨char, used⟩ found
          have encoded := utf8EncodeChar_of_leading? found
          exact foreign char ⟨rest.drop used, by
            rw [encoded, List.cons_append, List.take_append_drop]⟩
        rw [decode, decodeAfter, none]
        exact congrArg (replacement :: ·) ih
  · rintro rfl
    -- A character takes several bytes, so the induction is on the number of bytes.
    induction bound : bytes.length using Nat.strongRecOn generalizing bytes with
    | ind length ih =>
        cases bytes with
        | nil => exact .nil
        | cons lead rest =>
            have shorter : ∀ used, Decodes (rest.drop used) (decode (rest.drop used)) := by
              intro used
              refine ih _ ?_ rfl
              simp only [List.length_cons, List.length_drop] at *
              omega
            rw [decode, decodeAfter]
            cases found : leading? lead rest with
            | none =>
                refine .invalid ?_ (shorter 0)
                rintro char ⟨more, encoded⟩
                obtain ⟨first, others, same, leads⟩ := leading?_utf8EncodeChar char more
                rw [same, List.cons_append] at encoded
                cases encoded
                rw [leads] at found
                cases found
            | some both =>
                obtain ⟨char, used⟩ := both
                have whole : lead :: rest = String.utf8EncodeChar char ++ rest.drop used := by
                  rw [utf8EncodeChar_of_leading? found, List.cons_append, List.take_append_drop]
                rw [whole]
                simp only [decodeAfter_eq_decode_drop]
                exact .char (shorter used)

end SecdMachine.Text
