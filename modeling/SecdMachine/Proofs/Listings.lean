import SecdMachine.Proofs.InstructionLayout
import SecdMachine.Proofs.RoundTrip

/-!
What a listing says about the code. A listing shows nesting by indentation and by the labels of
branches alone, and code operands that are empty have no line at all. Still the first line that is
not indented enough ends a nested listing, and the words of an instruction can be read back, so code
that the assembler makes can be recovered from its listing.
-/

namespace SecdMachine

namespace Store

variable {store later : Store} {base middle stack value control code operand : Value}
  {values more operands : List Value} {opcode : Opcode}

theorem Stacked.append (top : store.Stacked middle values stack)
    (bottom : store.Stacked base more middle) : store.Stacked base (values ++ more) stack := by
  induction top with
  | base => exact bottom
  | push found _ ih => exact .push found ih

theorem Stacked.split (stacked : store.Stacked base (values ++ more) stack) :
    ∃ middle, store.Stacked middle values stack ∧ store.Stacked base more middle := by
  induction values generalizing stack with
  | nil => exact ⟨stack, .base, stacked⟩
  | cons value values ih =>
      obtain ⟨below, found, tail⟩ := stacked.pop
      obtain ⟨middle, top, bottom⟩ := ih tail
      exact ⟨middle, .push found top, bottom⟩

theorem stacked_consReversed (elements : List Value) :
    (store.consReversed elements value).2.Stacked value elements.reverse
      (store.consReversed elements value).1 := by
  induction elements generalizing store value with
  | nil => exact .base
  | cons element elements ih =>
      have below := (@extends_consReversed (store.cons element value).2 (.pair store.size)
        elements).cell? cell?_cons_self
      rw [List.reverse_cons]
      exact ih.append (.push below .base)

inductive Coded (store : Store) : Value → Prop
  | nil : Coded store .nil
  | instruction {control code : Value} {opcode : Opcode} {operands : List Value}
      (lays : store.Lays control opcode operands code)
      (nested : opcode.operandKind = .code → ∀ operand ∈ operands, Coded store operand)
      (next : Coded store code) : Coded store control

inductive HasLiteral (store : Store) (operand : Value) : Value → Prop
  | here {control code : Value} {opcode : Opcode} {operands : List Value}
      (lays : store.Lays control opcode operands code) (kind : opcode.operandKind = .literal)
      (member : operand ∈ operands) : HasLiteral store operand control
  | within {control code body : Value} {opcode : Opcode} {operands : List Value}
      (lays : store.Lays control opcode operands code) (kind : opcode.operandKind = .code)
      (member : body ∈ operands) (found : HasLiteral store operand body) :
      HasLiteral store operand control
  | later {control code : Value} {opcode : Opcode} {operands : List Value}
      (lays : store.Lays control opcode operands code) (found : HasLiteral store operand code) :
      HasLiteral store operand control

theorem Stacked.readable (stacked : store.Stacked base values stack)
    (readable : store.Readable stack) :
    (∀ value ∈ values, store.Readable value) ∧ store.Readable base := by
  induction stacked with
  | base => exact ⟨by simp, readable⟩
  | push found _ ih =>
      cases readable with
      | pair foundAgain left right =>
          rw [found] at foundAgain
          cases foundAgain
          rw [List.forall_mem_cons]
          exact ⟨⟨left, (ih right).1⟩, (ih right).2⟩
      | integer | symbol => cases found

theorem HasLiteral.readable (literal : store.HasLiteral operand code)
    (readable : store.Readable code) : store.Readable operand := by
  induction literal with
  | here lays _ member =>
      exact (lays.cells.readable readable).1 _ (List.mem_cons_of_mem _ member)
  | within lays _ member _ ih =>
      exact ih ((lays.cells.readable readable).1 _ (List.mem_cons_of_mem _ member))
  | later lays _ ih => exact ih (lays.cells.readable readable).2

theorem extends_load (store : Store) (datum : Datum) : store.Extends (store.load datum).2 :=
  fun _ _ found => cell?_load_of_cell? datum found

theorem Denotes.readable {datum : Datum} (denotes : store.Denotes value datum)
    (readable : datum.Readable) : store.Readable value := by
  induction denotes with
  | symbol name => exact .symbol readable
  | integer number => exact .integer number
  | pair found _ _ firstIh secondIh =>
      exact .pair found (firstIh readable.1) (secondIh readable.2)

theorem Coded.mono (coded : store.Coded value) (extended : store.Extends later) :
    later.Coded value := by
  induction coded with
  | nil => exact .nil
  | instruction lays _ _ nestedIh nextIh => exact .instruction (lays.mono extended) nestedIh nextIh

end Store

namespace Assembler

variable {store later : Store} {fuel position index count : Nat} {opcode : Opcode}
  {reversed : List Value} {code made : Value}
  {nested : Store → Value → Except AssemblyError (Value × Store)}

theorem operands_coded (adds : Adds nested)
    (coded : ∀ store code made later, nested store code = .ok (made, later) → later.Coded made)
    {taken after : Taken} (done : operands nested position opcode index count taken = .ok after) :
    ∃ values, values.length = count ∧ after.reversed.reverse = taken.reversed.reverse ++ values ∧
      (opcode.operandKind = .code → ∀ value ∈ values, after.store.Coded value) := by
  fun_induction operands nested position opcode index count taken with
  | case1 =>
      cases done
      exact ⟨[], rfl, by simp, by simp⟩
  | case2 | case4 => cases done
  | case3 _ _ _ _ _ cell _ kind ih =>
      obtain ⟨values, length, reversed, _⟩ := ih done
      refine ⟨cell.first :: values, by simp [length], by simp [reversed], fun other => ?_⟩
      rw [kind] at other
      cases other
  | case5 _ _ _ _ _ _ _ _ operand _ made ih =>
      obtain ⟨values, length, reversed, others⟩ := ih done
      refine ⟨operand :: values, by simp [length], by simp [reversed], fun kind => ?_⟩
      rw [List.forall_mem_cons]
      exact ⟨(coded _ _ _ _ made).mono (extends_operands adds done), others kind⟩

/-- Whatever the assembler accepts, what it makes is code. -/
theorem coded_assembleFrom (done : assembleFrom fuel store position reversed code =
      .ok (made, later)) :
    ∃ rest, later.Stacked rest reversed.reverse made ∧ later.Coded rest := by
  induction fuel generalizing store position reversed code made later with
  | zero => cases done
  | succ fuel ih =>
      simp only [assembleFrom] at done
      split at done
      · split at done
        · obtain rfl : _ = made := congrArg Prod.fst (Except.ok.inj done)
          obtain rfl : _ = later := congrArg Prod.snd (Except.ok.inj done)
          exact ⟨.nil, Store.stacked_consReversed _, .nil⟩
        · cases done
      · split at done
        · cases done
        · rename_i opcode _
          split at done
          · cases done
          · rename_i taken operandsTaken
            obtain ⟨values, length, order, nested⟩ := operands_coded adds_assembleFrom
              (fun _ _ _ _ done => by
                obtain ⟨_, ⟨⟩, coded⟩ := ih done
                exact coded) operandsTaken
            obtain ⟨rest, stacked, coded⟩ := ih done
            rw [order, List.reverse_cons, List.append_assoc] at stacked
            obtain ⟨middle, top, bottom⟩ := stacked.split
            have extended := adds_assembleFrom _ _ _ _ done
            exact ⟨middle, top, .instruction ⟨length, bottom⟩
              (fun kind value member => (nested kind value member).mono extended) coded⟩

theorem coded_assemble (done : assemble store code = .ok (made, later)) : later.Coded made := by
  obtain ⟨_, ⟨⟩, coded⟩ := coded_assembleFrom done
  exact coded

theorem extends_assemble (done : assemble store code = .ok (made, later)) : store.Extends later :=
  adds_assembleFrom _ _ _ _ done

end Assembler

def Datum.format (datum : Datum) : String :=
  let text := String.join (datum.pieces.map Piece.text)
  String.ofList (text.toList.reverse.dropWhile (· = ' ')).reverse

def Datum.instruction (opcode : Opcode) (operands : List Datum) (rest : Datum) : Datum :=
  .pair opcode.datum (operands.foldr .pair rest)

theorem Store.Denotes.format_eq {store : Store} {value : Value} {datum : Datum}
    (denotes : store.Denotes value datum) : store.format value = datum.format := by
  rw [Store.format, denotes.pieces_eq]
  rfl

theorem Datum.Readable.tokens_format {datum : Datum} (readable : datum.Readable) :
    SecdMachine.tokens datum.format.toList = datum.tokens := by
  have denotes := Store.denotes_load {} datum
  rw [← denotes.format_eq]
  exact Store.tokens_format denotes readable

theorem Datum.eq_of_flatMap_tokens {datums others : List Datum}
    (readable : ∀ datum ∈ datums, datum.Readable) (also : ∀ datum ∈ others, datum.Readable)
    (length : datums.length = others.length)
    (same : datums.flatMap tokens = others.flatMap tokens) : datums = others := by
  induction datums generalizing others with
  | nil =>
      cases others with
      | nil => rfl
      | cons => simp at length
  | cons datum datums ih =>
      cases others with
      | nil => simp at length
      | cons other others =>
          rw [List.forall_mem_cons] at readable also
          rw [List.flatMap_cons, List.flatMap_cons] at same
          have read := readTokens_tokens readable.1 (datums.flatMap tokens)
          rw [same, readTokens_tokens also.1] at read
          obtain ⟨sameDatum, sameRest⟩ := Prod.mk.inj read
          rw [Except.ok.inj sameDatum, ih readable.2 also.2 (by simpa using length) sameRest.symm]

namespace Opcode

theorem tokens_name (opcode : Opcode) :
    tokens opcode.name.toList = [.word opcode.name.toList] := by
  cases opcode <;> decide

theorem name_injective {opcode other : Opcode} (same : opcode.name = other.name) :
    opcode = other := by
  have named : ∀ opcode : Opcode, ofName? opcode.name = some opcode := by
    intro opcode
    cases opcode <;> decide
  exact Option.some.inj ((named opcode).symm.trans ((congrArg ofName? same).trans (named other)))

end Opcode

namespace Listing

def words (opcode : Opcode) (operands : List Datum) : String :=
  operands.foldl (fun text operand => text ++ " " ++ operand.format) opcode.name

theorem tokens_foldl {operands : List Datum} (readable : ∀ operand ∈ operands, operand.Readable)
    (text : String) :
    tokens (operands.foldl (fun text operand => text ++ " " ++ operand.format) text).toList =
      tokens text.toList ++ operands.flatMap Datum.tokens := by
  induction operands generalizing text with
  | nil => simp
  | cons operand operands ih =>
      rw [List.forall_mem_cons] at readable
      have blank : (text ++ " " ++ operand.format).toList =
          text.toList ++ ' ' :: operand.format.toList := by
        simp
      rw [List.foldl_cons, ih readable.2, blank, tokens_append_blank (by decide),
        readable.1.tokens_format, List.flatMap_cons, List.append_assoc]

/-- The words determine the instruction. -/
theorem words_injective {opcode other : Opcode} {operands others : List Datum}
    (readable : ∀ operand ∈ operands, operand.Readable)
    (also : ∀ operand ∈ others, operand.Readable)
    (same : words opcode operands = words other others) :
    opcode = other ∧ (operands.length = others.length → operands = others) := by
  have tokens := congrArg (fun text => SecdMachine.tokens text.toList) same
  simp only [words, tokens_foldl readable, tokens_foldl also, Opcode.tokens_name,
    List.singleton_append, List.cons.injEq, Token.word.injEq, String.toList_inj] at tokens
  exact ⟨Opcode.name_injective tokens.1,
    fun length => Datum.eq_of_flatMap_tokens readable also length tokens.2⟩

theorem words_ne_name {opcode other : Opcode} {operands : List Datum}
    (readable : ∀ operand ∈ operands, operand.Readable) (kind : opcode.operandKind = .literal)
    (otherKind : other.operandKind = .code) : words opcode operands ≠ other.name := by
  intro same
  have same : words opcode operands = words other [] := same
  rw [(words_injective readable (by simp) same).1, otherKind] at kind
  cases kind

def label (depth : Nat) (text : String) : String :=
  indent depth ++ "      " ++ text ++ "\n"

inductive Listed : Nat → Nat → Datum → List String → Prop
  | nil {depth position : Nat} : Listed depth position .nil []
  | literal {depth position : Nat} {opcode : Opcode} {operands : List Datum} {rest : Datum}
      {lines : List String} (kind : opcode.operandKind = .literal)
      (count : operands.length = opcode.operandCount)
      (readable : ∀ operand ∈ operands, operand.Readable)
      (next : Listed depth (position + 1) rest lines) :
      Listed depth position (.instruction opcode operands rest)
        (line depth position (words opcode operands) :: lines)
  | function {depth position : Nat} {body rest : Datum} {inner lines : List String}
      (nested : Listed (depth + 1) 0 body inner) (next : Listed depth (position + 1) rest lines) :
      Listed depth position (.instruction .ldf [body] rest)
        (line depth position Opcode.ldf.name :: (inner ++ lines))
  | branch {depth position : Nat} {whenTrue whenFalse rest : Datum}
      {first second lines : List String} (left : Listed (depth + 1) 0 whenTrue first)
      (right : Listed (depth + 1) 0 whenFalse second)
      (next : Listed depth (position + 1) rest lines) :
      Listed depth position (.instruction .sel [whenTrue, whenFalse] rest)
        (line depth position Opcode.sel.name ::
          label depth "then:" :: (first ++ label depth "else:" :: (second ++ lines)))

def margin (text : String) : Nat :=
  (text.toList.takeWhile (· = ' ')).length

theorem margin_eq {text : String} {count : Nat} {char : Char} {rest : List Char}
    (chars : text.toList = List.replicate count ' ' ++ char :: rest) (other : char ≠ ' ') :
    margin text = count := by
  have blanks : ∀ char ∈ List.replicate count ' ', decide (char = ' ') = true := by
    intro char member
    rw [List.eq_of_mem_replicate member]
    rfl
  rw [margin, chars, List.takeWhile_append_of_pos blanks]
  simp [other]

theorem exists_ordinal (position : Nat) :
    ∃ char rest, (ordinal position).toList = char :: rest ∧ char ≠ ' ' := by
  have digits : ∀ char ∈ (ordinal position).toList, char ≠ ' ' := by
    intro char member
    simp only [ordinal, String.toList_ofList, List.mem_append] at member
    rcases member with zero | digit
    · rw [List.eq_of_mem_replicate zero]
      decide
    · rintro rfl
      exact absurd (Nat.isDigit_of_mem_toDigits (by decide) (by decide) digit) (by decide)
  cases chars : (ordinal position).toList with
  | nil => simp [ordinal, Nat.toDigits_ne_nil] at chars
  | cons char rest => exact ⟨char, rest, rfl, digits char (by simp [chars])⟩

theorem margin_line (depth position : Nat) (text : String) :
    margin (line depth position text) = 4 * depth := by
  obtain ⟨char, rest, chars, other⟩ := exists_ordinal position
  have whole : (line depth position text).toList = List.replicate (4 * depth) ' ' ++
      char :: (rest ++ ' ' :: ' ' :: (text.toList ++ ['\n'])) := by
    simp [line, indent, chars]
  exact margin_eq whole other

theorem margin_label (depth : Nat) {text : String} {char : Char} {rest : List Char}
    (chars : text.toList = char :: rest) (other : char ≠ ' ') :
    margin (label depth text) = 4 * depth + 6 := by
  have whole : (label depth text).toList = List.replicate (4 * depth + 6) ' ' ++
      char :: (rest ++ ['\n']) := by
    simp [label, indent, chars, List.replicate_add]
  exact margin_eq whole other

theorem line_injective {depth position : Nat} {text other : String}
    (same : line depth position text = line depth position other) : text = other := by
  simpa [line, ← String.toList_inj] using same

/-- Lines that cannot go on with a listing at the given depth: the first of them, if there is one,
is not indented like an instruction there or further in. -/
def Outside (depth : Nat) (lines : List String) : Prop :=
  ∀ first ∈ lines.head?, ∀ deeper, depth ≤ deeper → margin first ≠ 4 * deeper

variable {depth position : Nat} {code other : Datum} {text : String}
  {lines others more further : List String}

theorem outside_nil : Outside depth [] := by
  simp [Outside]

theorem Outside.deeper (outside : Outside depth lines) : Outside (depth + 1) lines :=
  fun first member deeper enough => outside first member deeper (by omega)

theorem outside_line : Outside (depth + 1) (line depth position text :: lines) := by
  rintro _ ⟨⟩ deeper enough
  rw [margin_line]
  omega

theorem outside_else : Outside (depth + 1) (label depth "else:" :: lines) := by
  have chars : ("else:" : String).toList = 'e' :: ['l', 's', 'e', ':'] := by decide
  rintro _ ⟨⟩ deeper enough
  rw [margin_label depth chars (by decide)]
  omega

theorem Outside.ne_line (outside : Outside depth more) :
    more ≠ line depth position text :: lines := by
  rintro rfl
  exact outside _ rfl depth (Nat.le_refl _) (margin_line depth position text)

theorem Listed.eq_nil_or_line (listed : Listed depth position code lines) :
    (code = .nil ∧ lines = []) ∨ ∃ text rest, lines = line depth position text :: rest := by
  cases listed with
  | nil => exact Or.inl ⟨rfl, rfl⟩
  | literal | function | branch => exact Or.inr ⟨_, _, rfl⟩

theorem Listed.outside (listed : Listed depth position code lines) (outside : Outside depth more) :
    Outside (depth + 1) (lines ++ more) := by
  rcases listed.eq_nil_or_line with ⟨_, rfl⟩ | ⟨text, rest, rfl⟩
  · exact outside.deeper
  · exact outside_line

/-- A listing that ends where the lines are no longer indented enough determines the code and its
own end. -/
theorem Listed.unique (listed : Listed depth position code lines)
    (also : Listed depth position other others) (outside : Outside depth more)
    (beyond : Outside depth further) (same : lines ++ more = others ++ further) :
    code = other ∧ more = further := by
  induction listed generalizing other others more further with
  | nil =>
      rcases also.eq_nil_or_line with ⟨rfl, rfl⟩ | ⟨_, _, rfl⟩
      · exact ⟨rfl, same⟩
      · exact absurd same outside.ne_line
  | literal kind count readable next ih =>
      cases also with
      | nil => exact absurd same.symm beyond.ne_line
      | literal kind' count' readable' next' =>
          obtain ⟨first, rest⟩ := List.cons.inj same
          obtain ⟨rfl, operands⟩ := words_injective readable readable' (line_injective first)
          obtain rfl := operands (count.trans count'.symm)
          obtain ⟨rfl, ended⟩ := ih next' outside beyond rest
          exact ⟨rfl, ended⟩
      | function | branch =>
          have first := line_injective (List.cons.inj same).1
          exact absurd first (words_ne_name readable kind rfl)
  | function nested next nestedIh nextIh =>
      cases also with
      | nil => exact absurd same.symm beyond.ne_line
      | literal kind _ readable _ =>
          have first := line_injective (List.cons.inj same).1
          exact absurd first.symm (words_ne_name readable kind rfl)
      | branch =>
          have first := line_injective (List.cons.inj same).1
          exact absurd (Opcode.name_injective first) (by decide)
      | function nested' next' =>
          simp only [List.cons_append, List.append_assoc] at same
          obtain ⟨_, rest⟩ := List.cons.inj same
          obtain ⟨rfl, rest⟩ := nestedIh nested' (next.outside outside) (next'.outside beyond) rest
          obtain ⟨rfl, ended⟩ := nextIh next' outside beyond rest
          exact ⟨rfl, ended⟩
  | branch left right next leftIh rightIh nextIh =>
      cases also with
      | nil => exact absurd same.symm beyond.ne_line
      | literal kind _ readable _ =>
          have first := line_injective (List.cons.inj same).1
          exact absurd first.symm (words_ne_name readable kind rfl)
      | function =>
          have first := line_injective (List.cons.inj same).1
          exact absurd (Opcode.name_injective first) (by decide)
      | branch left' right' next' =>
          simp only [List.cons_append, List.append_assoc] at same
          obtain ⟨_, rest⟩ := List.cons.inj (List.cons.inj same).2
          obtain ⟨rfl, rest⟩ := leftIh left' outside_else outside_else rest
          obtain ⟨rfl, rest⟩ := rightIh right' (next.outside outside) (next'.outside beyond)
            (List.cons.inj rest).2
          obtain ⟨rfl, ended⟩ := nextIh next' outside beyond rest
          exact ⟨rfl, ended⟩

def IsLine (text : String) : Prop :=
  ∃ body, '\n' ∉ body ∧ text.toList = body ++ ['\n']

theorem first_line_injective {body other rest beyond : List Char} (whole : '\n' ∉ body)
    (also : '\n' ∉ other) (same : body ++ '\n' :: rest = other ++ '\n' :: beyond) :
    body = other ∧ rest = beyond := by
  induction body generalizing other with
  | nil =>
      cases other with
      | nil => exact ⟨rfl, (List.cons.inj same).2⟩
      | cons char other => exact absurd (List.cons.inj same).1 (List.ne_of_not_mem_cons also)
  | cons char body ih =>
      cases other with
      | nil => exact absurd (List.cons.inj same).1.symm (List.ne_of_not_mem_cons whole)
      | cons otherChar other =>
          obtain ⟨rfl, tail⟩ := List.cons.inj same
          obtain ⟨rfl, ended⟩ := ih (List.not_mem_of_not_mem_cons whole)
            (List.not_mem_of_not_mem_cons also) tail
          exact ⟨rfl, ended⟩

theorem eq_of_join (single : ∀ line ∈ lines, IsLine line) (also : ∀ line ∈ others, IsLine line)
    (same : String.join lines = String.join others) : lines = others := by
  rw [← String.toList_inj, String.toList_join, String.toList_join] at same
  induction lines generalizing others with
  | nil =>
      cases others with
      | nil => rfl
      | cons other others =>
          obtain ⟨body, _, chars⟩ := also other List.mem_cons_self
          simp [chars] at same
  | cons line lines ih =>
      obtain ⟨body, whole, chars⟩ := single line List.mem_cons_self
      cases others with
      | nil => simp [chars] at same
      | cons other others =>
          obtain ⟨otherBody, otherWhole, otherChars⟩ := also other List.mem_cons_self
          rw [List.forall_mem_cons] at single also
          simp only [List.flatMap_cons, chars, otherChars, List.append_assoc,
            List.singleton_append] at same
          obtain ⟨rfl, rest⟩ := first_line_injective whole otherWhole same
          rw [← String.toList_inj.mp (chars.trans otherChars.symm), ih single.2 also.2 rest]

theorem newline_not_mem_format {datum : Datum} (readable : datum.Readable) :
    '\n' ∉ datum.format.toList := by
  intro member
  simp only [Datum.format, String.toList_ofList, List.mem_reverse] at member
  have inside := List.mem_reverse.mp ((List.dropWhile_sublist _).mem member)
  rw [String.toList_join, List.flatMap_map, List.mem_flatMap] at inside
  obtain ⟨piece, found, here⟩ := inside
  have solid := readable.legible.1.solid.1 piece found
  cases piece with
  | word text =>
      rw [Piece.text, String.toList_push, List.mem_append, List.mem_singleton] at here
      rcases here with here | here
      · exact (Layout.ne_of_not_isBlank (solid.2 _ here)).1 rfl
      · exact absurd here (by decide)
  | mark char =>
      have same : '\n' = char := by simpa [Piece.text] using here
      subst same
      rcases solid with blank | opening
      · exact absurd blank (by decide)
      · exact absurd opening (by decide)

theorem newline_not_mem_foldl {operands : List Datum}
    (readable : ∀ operand ∈ operands, operand.Readable) (whole : '\n' ∉ text.toList) :
    '\n' ∉ (operands.foldl (fun text operand => text ++ " " ++ operand.format) text).toList := by
  induction operands generalizing text with
  | nil => exact whole
  | cons operand operands ih =>
      rw [List.forall_mem_cons] at readable
      refine ih readable.2 ?_
      simpa using ⟨whole, newline_not_mem_format readable.1⟩

theorem newline_not_mem_name (opcode : Opcode) : '\n' ∉ opcode.name.toList := by
  cases opcode <;> decide

theorem isLine_line (whole : '\n' ∉ text.toList) : IsLine (line depth position text) := by
  refine ⟨(indent depth ++ ordinal position ++ "  " ++ text).toList, ?_, by simp [line]⟩
  have digits : '\n' ∉ (ordinal position).toList := by
    intro member
    simp only [ordinal, String.toList_ofList, List.mem_append] at member
    rcases member with zero | digit
    · exact absurd (List.eq_of_mem_replicate zero) (by decide)
    · exact absurd (Nat.isDigit_of_mem_toDigits (by decide) (by decide) digit) (by decide)
  simp [indent, digits, whole]

theorem isLine_label (whole : '\n' ∉ text.toList) : IsLine (label depth text) := by
  refine ⟨(indent depth ++ "      " ++ text).toList, ?_, by simp [label]⟩
  simp [indent, whole]

theorem Listed.isLine (listed : Listed depth position code lines) :
    ∀ line ∈ lines, IsLine line := by
  induction listed with
  | nil => simp
  | literal _ _ readable _ ih =>
      rw [List.forall_mem_cons]
      exact ⟨isLine_line (newline_not_mem_foldl readable (newline_not_mem_name _)), ih⟩
  | function _ _ nestedIh nextIh =>
      rw [List.forall_mem_cons, List.forall_mem_append]
      exact ⟨isLine_line (newline_not_mem_name _), nestedIh, nextIh⟩
  | branch _ _ _ leftIh rightIh nextIh =>
      rw [List.forall_mem_cons, List.forall_mem_cons, List.forall_mem_append, List.forall_mem_cons,
        List.forall_mem_append]
      exact ⟨isLine_line (newline_not_mem_name _), isLine_label (by decide), leftIh,
        isLine_label (by decide), rightIh, nextIh⟩

theorem Listed.eq_of_join (listed : Listed depth position code lines)
    (also : Listed depth position other others) (same : String.join lines = String.join others) :
    code = other := by
  have lines := Listing.eq_of_join listed.isLine also.isLine same
  exact (listed.unique also outside_nil outside_nil (by rw [lines])).1

end Listing

namespace Store

variable {store : Store} {control code stack : Value} {values operands : List Value}
  {opcode : Opcode} {datum : Datum} {datums : List Datum}

theorem Stacked.denotes {base : Value} (stacked : store.Stacked base values stack)
    (denote : List.Forall₂ store.Denotes values datums) (bottom : store.Denotes base datum) :
    store.Denotes stack (datums.foldr .pair datum) := by
  induction stacked generalizing datums with
  | base =>
      cases denote
      exact bottom
  | @push _ stack _ _ found _ ih =>
      cases denote with
      | cons first rest =>
          obtain ⟨address, rfl⟩ := eq_pair_of_cell? found
          exact .pair found first (ih rest)

theorem Lays.denotes (lays : store.Lays control opcode operands code)
    (denote : List.Forall₂ store.Denotes operands datums) (next : store.Denotes code datum) :
    store.Denotes control (.instruction opcode datums datum) :=
  lays.cells.denotes (.cons (.integer _) denote) next

end Store

theorem Datum.height_instruction {opcode : Opcode} {operands : List Datum} {rest : Datum} :
    rest.height < (instruction opcode operands rest).height ∧
      ∀ operand ∈ operands, operand.height < (instruction opcode operands rest).height := by
  have along : rest.height ≤ (operands.foldr pair rest).height ∧
      ∀ operand ∈ operands, operand.height ≤ (operands.foldr pair rest).height := by
    induction operands with
    | nil => simp
    | cons operand operands ih =>
        rw [List.forall_mem_cons, List.foldr_cons, height]
        exact ⟨by omega, by omega, fun other member => by have := ih.2 other member; omega⟩
  rw [instruction, height]
  exact ⟨by omega, fun operand member => by have := along.2 operand member; omega⟩

namespace Listing

structure Shows (store : Store) (code : Value) (datum : Datum) : Prop where
  denotes : store.Denotes code datum
  listed : ∀ depth position, ∃ lines, Listed depth position datum lines ∧
    ∀ fuel before, datum.height < fuel →
      addLines store fuel depth position code before = lines.reverse ++ before

variable {store : Store} {control code body whenTrue whenFalse : Value} {operands : List Value}
  {opcode : Opcode} {datums : List Datum} {rest inner first second : Datum}

theorem shows_nil : Shows store .nil .nil := by
  refine ⟨.symbol "NIL", fun depth position => ⟨[], .nil, fun fuel before enough => ?_⟩⟩
  obtain ⟨fuel, rfl⟩ := Nat.exists_eq_succ_of_ne_zero (Nat.ne_of_gt (Nat.zero_lt_of_lt enough))
  rfl

theorem foldl_format (denote : List.Forall₂ store.Denotes operands datums) (text : String) :
    operands.foldl (fun text value => text ++ " " ++ store.format value) text =
      datums.foldl (fun text datum => text ++ " " ++ datum.format) text := by
  induction denote generalizing text with
  | nil => rfl
  | cons first _ ih => rw [List.foldl_cons, List.foldl_cons, first.format_eq, ih]

theorem Shows.literal (next : Shows store code rest)
    (lays : store.Lays control opcode operands code) (kind : opcode.operandKind = .literal)
    (readable : ∀ operand ∈ operands, store.Readable operand) :
    ∃ datum, Shows store control datum := by
  obtain ⟨datums, both, good⟩ := Store.exists_trees readable
  have denote := both.imp fun _ _ both => both.1
  refine ⟨.instruction opcode datums rest, lays.denotes denote next.denotes,
    fun depth position => ?_⟩
  obtain ⟨lines, listed, added⟩ := next.listed depth (position + 1)
  refine ⟨_, .literal kind (both.length_eq.symm.trans lays.count) good listed,
    fun fuel before enough => ?_⟩
  obtain ⟨fuel, rfl⟩ := Nat.exists_eq_succ_of_ne_zero (Nat.ne_of_gt (Nat.zero_lt_of_lt enough))
  have shallow := (@Datum.height_instruction opcode datums rest).1
  rw [addLines_of_lays lays, added _ _ (by omega)]
  simp [instructionLines, kind, foldl_format denote, words]

theorem Shows.function (nested : Shows store body inner) (next : Shows store code rest)
    (lays : store.Lays control .ldf [body] code) :
    Shows store control (.instruction .ldf [inner] rest) := by
  refine ⟨lays.denotes (.cons nested.denotes .nil) next.denotes, fun depth position => ?_⟩
  obtain ⟨innerLines, innerListed, innerAdded⟩ := nested.listed (depth + 1) 0
  obtain ⟨lines, listed, added⟩ := next.listed depth (position + 1)
  refine ⟨_, .function innerListed listed, fun fuel before enough => ?_⟩
  obtain ⟨fuel, rfl⟩ := Nat.exists_eq_succ_of_ne_zero (Nat.ne_of_gt (Nat.zero_lt_of_lt enough))
  obtain ⟨shallow, deep⟩ := @Datum.height_instruction .ldf [inner] rest
  have low := deep inner (by simp)
  rw [addLines_of_lays lays, added _ _ (by omega)]
  simp [instructionLines, Opcode.operandKind, labels, operandLines, innerAdded fuel _ (by omega)]

theorem Shows.branch (left : Shows store whenTrue first) (right : Shows store whenFalse second)
    (next : Shows store code rest) (lays : store.Lays control .sel [whenTrue, whenFalse] code) :
    Shows store control (.instruction .sel [first, second] rest) := by
  refine ⟨lays.denotes (.cons left.denotes (.cons right.denotes .nil)) next.denotes,
    fun depth position => ?_⟩
  obtain ⟨leftLines, leftListed, leftAdded⟩ := left.listed (depth + 1) 0
  obtain ⟨rightLines, rightListed, rightAdded⟩ := right.listed (depth + 1) 0
  obtain ⟨lines, listed, added⟩ := next.listed depth (position + 1)
  refine ⟨_, .branch leftListed rightListed listed, fun fuel before enough => ?_⟩
  obtain ⟨fuel, rfl⟩ := Nat.exists_eq_succ_of_ne_zero (Nat.ne_of_gt (Nat.zero_lt_of_lt enough))
  obtain ⟨shallow, deep⟩ := @Datum.height_instruction .sel [first, second] rest
  have low := deep first (by simp)
  have alsoLow := deep second (by simp)
  rw [addLines_of_lays lays, added _ _ (by omega)]
  simp [instructionLines, Opcode.operandKind, labels, operandLines, leftAdded fuel _ (by omega),
    rightAdded fuel _ (by omega), label]

theorem shows_of_coded (coded : store.Coded code)
    (readable : ∀ operand, store.HasLiteral operand code → store.Readable operand) :
    ∃ datum, Shows store code datum := by
  induction coded with
  | nil => exact ⟨_, shows_nil⟩
  | @instruction control code opcode operands lays nested _ nestedIh nextIh =>
      obtain ⟨rest, next⟩ := nextIh fun operand found => readable operand (.later lays found)
      cases kind : opcode.operandKind with
      | literal =>
          exact next.literal lays kind fun operand member =>
            readable operand (.here lays kind member)
      | code =>
          have bodies : ∀ body ∈ operands, ∃ datum, Shows store body datum := by
            intro body member
            exact nestedIh kind body member fun operand found =>
              readable operand (.within lays kind member found)
          cases opcode with
          | ldf =>
              obtain ⟨body, rfl⟩ := List.length_eq_one_iff.mp lays.count
              obtain ⟨inner, shows⟩ := bodies body (by simp)
              exact ⟨_, shows.function next lays⟩
          | sel =>
              obtain ⟨whenTrue, whenFalse, rfl⟩ := List.length_eq_two.mp lays.count
              obtain ⟨first, left⟩ := bodies whenTrue (by simp)
              obtain ⟨second, right⟩ := bodies whenFalse (by simp)
              exact ⟨_, left.branch right next lays⟩
          | _ => cases kind

theorem Shows.text_eq {datum : Datum} (shows : Shows store code datum) (name : String) :
    ∃ lines, Listed 0 0 datum lines ∧
      text store code name = (if name.isEmpty then "" else "; === " ++ name ++ " ===\n") ++
        String.join lines := by
  obtain ⟨lines, listed, added⟩ := shows.listed 0 0
  refine ⟨lines, listed, ?_⟩
  have enough := Nat.lt_succ_of_le shows.denotes.height_le_size
  rw [text, Listing.lines, added _ [] enough, List.append_nil, List.reverse_reverse]

/-- Two results of the assembler that have one listing are equal, if the operands of LD and LDC in
them can be read back. -/
theorem listing_determines_code {store firstStore firstLater secondStore secondLater : Store}
    {firstSource secondSource firstCode secondCode : Value} {name : String}
    (madeFirst : Assembler.assemble firstStore firstSource = .ok (firstCode, firstLater))
    (madeSecond : Assembler.assemble secondStore secondSource = .ok (secondCode, secondLater))
    (keptFirst : firstLater.Extends store) (keptSecond : secondLater.Extends store)
    (readableFirst : ∀ operand, store.HasLiteral operand firstCode → store.Readable operand)
    (readableSecond : ∀ operand, store.HasLiteral operand secondCode → store.Readable operand)
    (same : text store firstCode name = text store secondCode name) :
    store.equal firstCode secondCode = true := by
  obtain ⟨first, left⟩ :=
    shows_of_coded ((Assembler.coded_assemble madeFirst).mono keptFirst) readableFirst
  obtain ⟨second, right⟩ :=
    shows_of_coded ((Assembler.coded_assemble madeSecond).mono keptSecond) readableSecond
  obtain ⟨lines, listed, text⟩ := left.text_eq name
  obtain ⟨others, also, otherText⟩ := right.text_eq name
  rw [text, otherText] at same
  have joined : String.join lines = String.join others := by
    rw [← String.toList_inj] at same ⊢
    simpa using same
  obtain rfl := listed.eq_of_join also joined
  exact left.denotes.unfolds.equal right.denotes.unfolds

def nestedByNames : Datum :=
  .ofList [.symbol "ldf", .ofList [.symbol "LD", .pair (.integer 0) (.integer 1), .symbol "sel",
    .nil, .ofList [.symbol "ldc", .pair (.symbol "a") (.symbol "b"), .symbol "join"],
    .symbol "rtn"], .symbol "stop"]

def nestedByNumbers : Datum :=
  .ofList [.integer 3, .ofList [.integer 1, .pair (.integer 0) (.integer 1), .integer 8, .nil,
    .ofList [.integer 2, .pair (.symbol "a") (.symbol "b"), .integer 9], .integer 5], .integer 21]

def assembled (store : Store) (datum : Datum) : Value × Store :=
  (Assembler.assemble (store.load datum).2 (store.load datum).1).toOption.getD (.nil, store)

theorem nested_listing_determines_code :
    let first := assembled {} nestedByNames
    let second := assembled first.2 nestedByNumbers
    first.1 ≠ second.1 ∧ text second.2 first.1 "" = text second.2 second.1 "" ∧
      second.2.equal first.1 second.1 = true := by
  intro first second
  have madeFirst : Assembler.assemble (Store.load {} nestedByNames).2
      (Store.load {} nestedByNames).1 = .ok (first.1, first.2) := by decide +kernel
  have madeSecond : Assembler.assemble (first.2.load nestedByNumbers).2
      (first.2.load nestedByNumbers).1 = .ok (second.1, second.2) := by decide +kernel
  have firstDenotes : second.2.Denotes first.1 nestedByNumbers :=
    @Store.denotes_of_datum? _ _ _ 12 (by decide +kernel)
  have secondDenotes : second.2.Denotes second.1 nestedByNumbers :=
    @Store.denotes_of_datum? _ _ _ 12 (by decide +kernel)
  have same : text second.2 first.1 "" = text second.2 second.1 "" := by decide +kernel
  have different : first.1 ≠ second.1 := by decide +kernel
  clear_value first second
  have readable : nestedByNumbers.Readable := by
    have single : SingleToken "NIL" ∧ SingleToken "a" ∧ SingleToken "b" :=
      ⟨Or.inl ⟨'N', ['I', 'L'], rfl, rfl, by simp; decide⟩, Or.inl ⟨'a', [], rfl, rfl, by simp⟩,
        Or.inl ⟨'b', [], rfl, rfl, by simp⟩⟩
    simp [nestedByNumbers, Datum.ofList, Datum.nil, Datum.Readable, single]
  have kept := (first.2.extends_load nestedByNumbers).trans (Assembler.extends_assemble madeSecond)
  exact ⟨different, same, listing_determines_code madeFirst madeSecond kept
    second.2.extends_refl (fun _ found => found.readable (firstDenotes.readable readable))
    (fun _ found => found.readable (secondDenotes.readable readable)) same⟩

end Listing

end SecdMachine
