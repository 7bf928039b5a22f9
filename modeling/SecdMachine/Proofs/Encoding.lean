import SecdMachine.LineSource

/-!
Text as bytes. Decoding undoes encoding, and the byte that ends a line occurs in no other place than
in a newline, so a text may be cut into lines before it is decoded.
-/

namespace SecdMachine

namespace Text

theorem toList_loop (bytes : ByteArray) (index : Nat) (before : Bytes) :
    ByteArray.toList.loop bytes index before = before.reverse ++ bytes.data.toList.drop index := by
  fun_induction ByteArray.toList.loop bytes index before with
  | case1 index before inside ih =>
      have bound : index < bytes.data.toList.length := inside
      have same : bytes.get! index = bytes.data.toList[index] := by
        obtain ⟨data⟩ := bytes
        have inside : index < data.size := inside
        simp [ByteArray.get!, inside]
      rw [ih, List.drop_eq_getElem_cons bound]
      simp [same]
  | case2 index before outside =>
      have bound : bytes.data.toList.length ≤ index := Nat.le_of_not_lt outside
      rw [List.drop_eq_nil_of_le bound, List.append_nil]

theorem encode_eq (text : String) : encode text = text.toList.flatMap String.utf8EncodeChar := by
  rw [encode, String.toUTF8_eq_toByteArray, ByteArray.toList, toList_loop,
    ← String.utf8Encode_toList, List.utf8Encode, List.toList_data_toByteArray]
  simp

theorem leading?_one {code : Nat} {lead : UInt8} {rest : Bytes} (small : code ≤ 0x7F)
    (leadCode : lead.toNat = code) : leading? lead rest = some (Char.ofNat code, 0) := by
  have short : lead < 0x80 := by
    rw [UInt8.lt_iff_toNat_lt, leadCode]
    exact Nat.lt_succ_of_le small
  simp only [leading?, if_pos short, leadCode]

theorem isContinuation_of_toNat {byte : UInt8} {low : Nat} (small : low < 0x40)
    (code : byte.toNat = low + 0x80) : isContinuation byte = true := by
  simp only [isContinuation, UInt8.le_iff_toNat_le, UInt8.reduceToNat, Bool.and_eq_true,
    decide_eq_true_eq]
  omega

theorem leading?_two {code : Nat} {lead second : UInt8} {rest : Bytes} (lower : 0x80 ≤ code)
    (upper : code ≤ 0x7FF) (leadCode : lead.toNat = code / 64 % 0x20 + 0xC0)
    (secondCode : second.toNat = code % 0x40 + 0x80) :
    leading? lead (second :: rest) = some (Char.ofNat code, 1) := by
  have wide : ¬lead < 0x80 := by
    simp only [UInt8.lt_iff_toNat_lt, UInt8.reduceToNat]
    omega
  have double : (0xC2 ≤ lead && lead ≤ 0xDF) = true := by
    simp only [UInt8.le_iff_toNat_le, UInt8.reduceToNat, Bool.and_eq_true, decide_eq_true_eq]
    omega
  have continues := isContinuation_of_toNat (by omega) secondCode
  have decoded : continued (lead.toNat - 0xC0) second = code := by
    unfold continued
    omega
  simp only [leading?, if_neg wide, if_pos double, if_pos continues, decoded]

theorem leading?_three {code : Nat} {lead second third : UInt8} {rest : Bytes}
    (lower : 0x800 ≤ code) (upper : code ≤ 0xFFFF) (scalar : code < 0xD800 ∨ 0xDFFF < code)
    (leadCode : lead.toNat = code / 4096 % 0x10 + 0xE0)
    (secondCode : second.toNat = code / 64 % 0x40 + 0x80)
    (thirdCode : third.toNat = code % 0x40 + 0x80) :
    leading? lead (second :: third :: rest) = some (Char.ofNat code, 2) := by
  have wide : ¬lead < 0x80 := by
    simp only [UInt8.lt_iff_toNat_lt, UInt8.reduceToNat]
    omega
  have noDouble : ¬(0xC2 ≤ lead && lead ≤ 0xDF) = true := by
    simp only [UInt8.le_iff_toNat_le, UInt8.reduceToNat, Bool.and_eq_true, decide_eq_true_eq]
    omega
  have triple : (0xE0 ≤ lead && lead ≤ 0xEF) = true := by
    simp only [UInt8.le_iff_toNat_le, UInt8.reduceToNat, Bool.and_eq_true, decide_eq_true_eq]
    omega
  have proper : ((if lead = 0xE0 then (0xA0 : UInt8) else 0x80) ≤ second &&
      second ≤ (if lead = 0xED then (0x9F : UInt8) else 0xBF) && isContinuation third) = true := by
    rw [isContinuation_of_toNat (by omega) thirdCode]
    simp only [← UInt8.toNat_inj, UInt8.le_iff_toNat_le, UInt8.reduceToNat, Bool.and_eq_true,
      decide_eq_true_eq, and_true, apply_ite UInt8.toNat]
    constructor
    · split <;> omega
    · split <;> omega
  have decoded : continued (continued (lead.toNat - 0xE0) second) third = code := by
    unfold continued
    omega
  simp only [leading?, if_neg wide, if_neg noDouble, if_pos triple, if_pos proper, decoded]

theorem leading?_four {code : Nat} {lead second third fourth : UInt8} {rest : Bytes}
    (lower : 0x10000 ≤ code) (upper : code < 0x110000)
    (leadCode : lead.toNat = code / 262144 % 0x08 + 0xF0)
    (secondCode : second.toNat = code / 4096 % 0x40 + 0x80)
    (thirdCode : third.toNat = code / 64 % 0x40 + 0x80)
    (fourthCode : fourth.toNat = code % 0x40 + 0x80) :
    leading? lead (second :: third :: fourth :: rest) = some (Char.ofNat code, 3) := by
  have wide : ¬lead < 0x80 := by
    simp only [UInt8.lt_iff_toNat_lt, UInt8.reduceToNat]
    omega
  have noDouble : ¬(0xC2 ≤ lead && lead ≤ 0xDF) = true := by
    simp only [UInt8.le_iff_toNat_le, UInt8.reduceToNat, Bool.and_eq_true, decide_eq_true_eq]
    omega
  have noTriple : ¬(0xE0 ≤ lead && lead ≤ 0xEF) = true := by
    simp only [UInt8.le_iff_toNat_le, UInt8.reduceToNat, Bool.and_eq_true, decide_eq_true_eq]
    omega
  have quadruple : (0xF0 ≤ lead && lead ≤ 0xF4) = true := by
    simp only [UInt8.le_iff_toNat_le, UInt8.reduceToNat, Bool.and_eq_true, decide_eq_true_eq]
    omega
  have proper : ((if lead = 0xF0 then (0x90 : UInt8) else 0x80) ≤ second &&
      second ≤ (if lead = 0xF4 then (0x8F : UInt8) else 0xBF) && isContinuation third &&
      isContinuation fourth) = true := by
    rw [isContinuation_of_toNat (by omega) thirdCode, isContinuation_of_toNat (by omega) fourthCode]
    simp only [← UInt8.toNat_inj, UInt8.le_iff_toNat_le, UInt8.reduceToNat, Bool.and_eq_true,
      decide_eq_true_eq, and_true, apply_ite UInt8.toNat]
    constructor
    · split <;> omega
    · split <;> omega
  have decoded :
      continued (continued (continued (lead.toNat - 0xF0) second) third) fourth = code := by
    unfold continued
    omega
  simp only [leading?, if_neg wide, if_neg noDouble, if_neg noTriple, if_pos quadruple,
    if_pos proper, decoded]

theorem leading?_utf8EncodeChar (char : Char) (rest : Bytes) :
    ∃ lead more, String.utf8EncodeChar char = lead :: more ∧
      leading? lead (more ++ rest) = some (char, more.length) := by
  have byte : ∀ {number : Nat}, number < 256 → (UInt8.ofNat number).toNat = number :=
    UInt8.toNat_ofNat_of_lt'
  have scalar : char.toNat < 0xD800 ∨ 0xDFFF < char.toNat ∧ char.toNat < 0x110000 := char.valid
  have same : Char.ofNat char.toNat = char := Char.ofNat_toNat char
  simp only [String.utf8EncodeChar]
  rw [show char.val.toNat = char.toNat from rfl]
  split
  next one =>
    refine ⟨_, _, rfl, ?_⟩
    rw [leading?_one one (byte (by omega)), same]
    rfl
  next several =>
    split
    next two =>
      refine ⟨_, _, rfl, ?_⟩
      rw [List.cons_append, leading?_two (by omega) two (byte (by omega)) (byte (by omega)), same]
      rfl
    next more =>
      split
      next three =>
        refine ⟨_, _, rfl, ?_⟩
        rw [List.cons_append, List.cons_append, leading?_three (by omega) three (by omega)
          (byte (by omega)) (byte (by omega)) (byte (by omega)), same]
        rfl
      next four =>
        refine ⟨_, _, rfl, ?_⟩
        rw [List.cons_append, List.cons_append, List.cons_append, leading?_four (by omega)
          (by omega) (byte (by omega)) (byte (by omega)) (byte (by omega)) (byte (by omega)), same]
        rfl

theorem decodeAfter_append (used rest : Bytes) :
    decodeAfter used.length (used ++ rest) = decodeAfter 0 rest := by
  induction used with
  | nil => rfl
  | cons byte used ih => simpa [decodeAfter] using ih

theorem decode_flatMap (text : List Char) : decode (text.flatMap String.utf8EncodeChar) = text := by
  induction text with
  | nil => rfl
  | cons char rest ih =>
      obtain ⟨lead, more, bytes, first⟩ :=
        leading?_utf8EncodeChar char (rest.flatMap String.utf8EncodeChar)
      rw [List.flatMap_cons, bytes, List.cons_append, decode, decodeAfter, first]
      simp only
      rw [decodeAfter_append]
      exact congrArg (char :: ·) ih

theorem not_between_of_not_isContinuation {lower upper byte : UInt8}
    (foreign : isContinuation byte = false) (above : 0x80 ≤ lower) (below : upper ≤ 0xBF) :
    (lower ≤ byte && byte ≤ upper) = false := by
  rw [Bool.eq_false_iff]
  intro within
  simp only [Bool.and_eq_true, decide_eq_true_eq] at within
  have continues : isContinuation byte = true := by
    simp only [isContinuation, Bool.and_eq_true, decide_eq_true_eq]
    exact ⟨UInt8.le_trans above within.1, UInt8.le_trans within.2 below⟩
  rw [continues] at foreign
  cases foreign

/-- No sequence goes on past a byte that does not continue one. -/
theorem leading?_append (lead : UInt8) (rest : Bytes) {right : Bytes}
    (starts : ∀ byte ∈ right.head?, isContinuation byte = false) :
    leading? lead (rest ++ right) = leading? lead rest := by
  cases right with
  | nil => rw [List.append_nil]
  | cons byte more =>
      have foreign : isContinuation byte = false := starts byte rfl
      have three : ((if lead = 0xE0 then (0xA0 : UInt8) else 0x80) ≤ byte &&
          byte ≤ (if lead = 0xED then (0x9F : UInt8) else 0xBF)) = false := by
        apply not_between_of_not_isContinuation foreign
        · split <;> decide
        · split <;> decide
      have four : ((if lead = 0xF0 then (0x90 : UInt8) else 0x80) ≤ byte &&
          byte ≤ (if lead = 0xF4 then (0x8F : UInt8) else 0xBF)) = false := by
        apply not_between_of_not_isContinuation foreign
        · split <;> decide
        · split <;> decide
      unfold leading?
      rcases rest with _ | ⟨second, _ | ⟨third, _ | ⟨fourth, rest⟩⟩⟩
      · rcases more with _ | ⟨next, _ | ⟨last, more⟩⟩ <;>
          simp [foreign, three, four]
      · cases more with
        | nil => simp [foreign]
        | cons next more => simp [foreign]
      · simp [foreign]
      · rfl

theorem used_le_of_leading? {lead : UInt8} {rest : Bytes} {char : Char} {used : Nat}
    (found : leading? lead rest = some (char, used)) : used ≤ rest.length := by
  unfold leading? at found
  grind

theorem decodeAfter_append_of_le {skip : Nat} {left right : Bytes} (inside : skip ≤ left.length)
    (starts : ∀ byte ∈ right.head?, isContinuation byte = false) :
    decodeAfter skip (left ++ right) = decodeAfter skip left ++ decode right := by
  induction left generalizing skip with
  | nil =>
      obtain rfl : skip = 0 := by simpa using inside
      rfl
  | cons lead rest ih =>
      cases skip with
      | succ skip => exact ih (by simpa using inside)
      | zero =>
          rw [List.cons_append, decodeAfter, decodeAfter, leading?_append lead rest starts]
          cases found : leading? lead rest with
          | none => simp only [ih (Nat.zero_le _), List.cons_append]
          | some both =>
              obtain ⟨char, used⟩ := both
              simp only [ih (used_le_of_leading? found), List.cons_append]

/-- Bytes may be cut before any byte that does not continue a sequence. -/
theorem decode_append (left : Bytes) {right : Bytes}
    (starts : ∀ byte ∈ right.head?, isContinuation byte = false) :
    decode (left ++ right) = decode left ++ decode right :=
  decodeAfter_append_of_le (Nat.zero_le _) starts

theorem not_isContinuation_of_leading? {lead : UInt8} {rest : Bytes} {found : Char × Nat}
    (leads : leading? lead rest = some found) : isContinuation lead = false := by
  rw [Bool.eq_false_iff]
  intro continues
  simp only [isContinuation, UInt8.le_iff_toNat_le, UInt8.reduceToNat, Bool.and_eq_true,
    decide_eq_true_eq] at continues
  have wide : ¬lead < 0x80 := by
    simp only [UInt8.lt_iff_toNat_lt, UInt8.reduceToNat]
    omega
  have beyond : ∀ first last : UInt8, 0xBF < first.toNat →
      ¬(first ≤ lead && lead ≤ last) = true := by
    intro first last above
    simp only [UInt8.le_iff_toNat_le, Bool.and_eq_true, decide_eq_true_eq]
    omega
  simp only [leading?, if_neg wide, if_neg (beyond 0xC2 _ (by decide)),
    if_neg (beyond 0xE0 _ (by decide)), if_neg (beyond 0xF0 _ (by decide))] at leads
  cases leads

theorem decode_append_char (left : Bytes) (char : Char) (more : List Char) :
    decode (left ++ (char :: more).flatMap String.utf8EncodeChar) =
      decode left ++ char :: more := by
  obtain ⟨lead, rest, bytes, leads⟩ :=
    leading?_utf8EncodeChar char (more.flatMap String.utf8EncodeChar)
  have starts : ∀ byte ∈ ((char :: more).flatMap String.utf8EncodeChar).head?,
      isContinuation byte = false := by
    rw [List.flatMap_cons, bytes]
    rintro _ ⟨⟩
    exact not_isContinuation_of_leading? leads
  rw [decode_append left starts, decode_flatMap]

theorem toNat_of_mem_utf8EncodeChar {char : Char} {byte : UInt8}
    (member : byte ∈ String.utf8EncodeChar char) (small : byte.toNat < 0x80) :
    char.toNat = byte.toNat := by
  have marked : ∀ {number : Nat}, 0x80 ≤ number → number < 256 → byte ≠ UInt8.ofNat number := by
    rintro number lower upper rfl
    rw [UInt8.toNat_ofNat_of_lt' upper] at small
    omega
  simp only [String.utf8EncodeChar] at member
  rw [show char.val.toNat = char.toNat from rfl] at member
  split at member
  next one =>
    rw [List.mem_singleton] at member
    rw [member, UInt8.toNat_ofNat_of_lt' (Nat.lt_of_le_of_lt one (by decide))]
  next =>
    split at member
    next =>
      simp only [List.mem_cons, List.not_mem_nil, or_false] at member
      rcases member with first | second
      · exact absurd first (marked (by omega) (by omega))
      · exact absurd second (marked (by omega) (by omega))
    next =>
      split at member
      next =>
        simp only [List.mem_cons, List.not_mem_nil, or_false] at member
        rcases member with first | second | third
        · exact absurd first (marked (by omega) (by omega))
        · exact absurd second (marked (by omega) (by omega))
        · exact absurd third (marked (by omega) (by omega))
      next =>
        simp only [List.mem_cons, List.not_mem_nil, or_false] at member
        rcases member with first | second | third | fourth
        · exact absurd first (marked (by omega) (by omega))
        · exact absurd second (marked (by omega) (by omega))
        · exact absurd third (marked (by omega) (by omega))
        · exact absurd fourth (marked (by omega) (by omega))

theorem eq_of_mem_utf8EncodeChar {char other : Char} {byte : UInt8}
    (member : byte ∈ String.utf8EncodeChar char) (small : byte.toNat < 0x80)
    (code : byte.toNat = other.toNat) : char = other := by
  rw [← Char.ofNat_toNat char, toNat_of_mem_utf8EncodeChar member small, code,
    Char.ofNat_toNat]

end Text

namespace LineSource

def Plain (line : List Char) : Prop :=
  '\n' ∉ line ∧ line.getLast? ≠ some '\r'

theorem splitLines_append {line : Text.Bytes} (whole : 0x0A ∉ line) (current rest : Text.Bytes) :
    splitLines current (line ++ 0x0A :: rest) =
      (current.reverse ++ line) :: splitLines [] rest := by
  induction line generalizing current with
  | nil => simp [splitLines]
  | cons byte line ih =>
      simp only [List.mem_cons, not_or] at whole
      rw [List.cons_append, splitLines, if_neg (Ne.symm whole.1), ih whole.2]
      simp

theorem Plain.newline_not_mem {line : List Char} (plain : Plain line) :
    (0x0A : UInt8) ∉ line.flatMap String.utf8EncodeChar := by
  intro member
  obtain ⟨char, inside, byte⟩ := List.mem_flatMap.mp member
  have newline : char = '\n' := Text.eq_of_mem_utf8EncodeChar byte (by decide) (by decide)
  exact plain.1 (newline ▸ inside)

theorem Plain.withoutReturns_eq {line : List Char} (plain : Plain line) :
    withoutReturns (line.flatMap String.utf8EncodeChar) = line.flatMap String.utf8EncodeChar := by
  rcases List.eq_nil_or_concat line with rfl | ⟨before, last, rfl⟩
  · rfl
  · have other : last ≠ '\r' := by
      intro same
      exact plain.2 (by simp [same])
    have bytes : String.utf8EncodeChar last ≠ [] := String.utf8EncodeChar_ne_nil
    obtain ⟨first, byte, split⟩ := (List.eq_nil_or_concat _).resolve_left bytes
    have noReturn : byte ≠ 0x0D := by
      rintro rfl
      have inside : (0x0D : UInt8) ∈ String.utf8EncodeChar last := by simp [split]
      exact other (Text.eq_of_mem_utf8EncodeChar inside (by decide) (by decide))
    simp [withoutReturns, split, noReturn]

/-- The lines of a text are what a stream of its bytes delivers. -/
theorem ofStream_pending {lines : List (List Char)} (plain : ∀ line ∈ lines, Plain line)
    (policy : PromptPolicy) (prompts : Sink) :
    (ofStream (Text.encode (String.join (lines.map fun line => String.ofList (line ++ ['\n']))))
      policy prompts).pending = lines.map fun line => { line := line } := by
  have cut : splitLines [] ((lines.flatMap fun line => line ++ ['\n']).flatMap
      String.utf8EncodeChar) = lines.map fun line => line.flatMap String.utf8EncodeChar := by
    induction lines with
    | nil => rfl
    | cons line rest ih =>
        have here := plain line List.mem_cons_self
        have there := ih fun other member => plain other (List.mem_cons_of_mem _ member)
        have newline : String.utf8EncodeChar '\n' = [0x0A] := by decide
        simp only [List.flatMap_cons, List.flatMap_append, newline, List.append_assoc,
          List.singleton_append, List.map_cons]
        rw [splitLines_append here.newline_not_mem, there]
        rfl
  have text : (String.join (lines.map fun line => String.ofList (line ++ ['\n']))).toList =
      lines.flatMap fun line => line ++ ['\n'] := by
    rw [String.toList_join, List.flatMap_map]
    simp
  rw [ofStream, Text.encode_eq, text, cut, List.map_map]
  apply List.map_congr_left
  intro line member
  simp only [Function.comp_apply]
  rw [(plain line member).withoutReturns_eq, Text.decode_flatMap]

end LineSource

end SecdMachine
