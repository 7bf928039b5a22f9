import Mathlib.Data.List.Forall2
import SecdMachine.Proofs.Numerals
import SecdMachine.Proofs.Printing
import SecdMachine.Proofs.Reading
import SecdMachine.Proofs.Wrapping

/-!
Writing and reading back. A value whose symbols are single tokens is read back as the tree it stands
for, whatever the width of the lines and however the text reaches the reader.
-/

namespace SecdMachine

/-- A symbol that the reader takes for one token and for a symbol: a letter followed by letters and
digits, a minus sign, or any other single character that has no meaning of its own. -/
def SingleToken (name : String) : Prop :=
  (∃ first more, name.toList = first :: more ∧ Text.isLetter first = true ∧
    ∀ char ∈ more, Text.isLetter char = true ∨ Text.isDigit char = true) ∨
  name = "-" ∨
  ∃ char, name.toList = [char] ∧ Text.isBlank char = false ∧ Text.isLetter char = false ∧
    Text.isDigit char = false ∧ char ∉ ['-', '(', ')', '.']

inductive Store.Readable (store : Store) : Value → Prop
  | integer (number : Int64) : Readable store (.integer number)
  | symbol {name : String} (single : SingleToken name) : Readable store (.symbol name)
  | pair {address : Address} {first second : Value}
      (found : store.cell? (.pair address) = some ⟨first, second⟩)
      (left : Readable store first) (right : Readable store second) :
      Readable store (.pair address)

def Datum.Readable : Datum → Prop
  | integer _ => True
  | symbol name => SingleToken name
  | pair first second => first.Readable ∧ second.Readable

theorem Store.Readable.denotes {store : Store} {value : Value} (readable : store.Readable value) :
    ∃ datum, store.Denotes value datum ∧ datum.Readable := by
  induction readable with
  | integer number => exact ⟨_, .integer number, trivial⟩
  | symbol single => exact ⟨_, .symbol _, single⟩
  | pair found _ _ firstIh secondIh =>
      obtain ⟨first, left, goodFirst⟩ := firstIh
      obtain ⟨second, right, goodSecond⟩ := secondIh
      exact ⟨_, .pair found left right, goodFirst, goodSecond⟩

structure Token.Spells (token : Token) (datum : Datum) : Prop where
  notClosing : token ≠ .delimiter ')'
  notDot : token ≠ .delimiter '.'
  begins : ∀ lists, Progress.begin lists token = .ok (Progress.finish datum lists)

def Token.Begins (token : Token) (atom : Datum) : Prop :=
  ∀ lists, Progress.begin lists token = .ok (Progress.finish atom lists)

theorem Token.Begins.ne_opening {token : Token} {atom : Datum} (begins : token.Begins atom) :
    token ≠ .delimiter '(' := by
  rintro rfl
  cases begins []

theorem Token.Begins.eq_symbol {char : Char} {atom : Datum}
    (begins : (delimiter char).Begins atom) : atom = .symbol (String.ofList [char]) := by
  have first := begins []
  have opening : char ≠ '(' := fun same => begins.ne_opening (congrArg delimiter same)
  simpa [Progress.begin, opening, Progress.finish, literal, chars] using first.symm

theorem SingleToken.tokens {name : String} (single : SingleToken name) :
    ∃ token, SecdMachine.tokens name.toList = [token] ∧ token.Spells (.symbol name) := by
  rcases single with ⟨first, more, chars, letter, continues⟩ | rfl |
    ⟨char, chars, noBlank, noLetter, noDigit, other⟩
  · have word : ∀ char ∈ more, Token.continuesWord char = true := by
      intro char member
      simpa [Token.continuesWord] using continues char member
    refine ⟨.word (first :: more), by rw [chars, tokens_word letter word], by simp, by simp, ?_⟩
    intro lists
    simp [Progress.begin, Token.literal, Token.chars, ← chars]
  · refine ⟨.numeric ['-'], by decide, by simp, by simp, fun lists => rfl⟩
  · simp only [List.mem_cons, List.not_mem_nil, or_false, not_or] at other
    obtain ⟨noSign, noOpening, noClosing, noDot⟩ := other
    have noNumber : Token.startsNumber char = false := by
      simp [Token.startsNumber, noDigit, noSign]
    refine ⟨.delimiter char, by rw [chars, tokens_delimiter noBlank noNumber noLetter],
      by simpa using noClosing, by simpa using noDot, ?_⟩
    intro lists
    simp [Progress.begin, noOpening, Token.literal, Token.chars, ← chars]

theorem SingleToken.ne {name : String} (single : SingleToken name) : name ≠ ")" ∧ name ≠ "." := by
  obtain ⟨token, alone, spells⟩ := single.tokens
  have closing : SecdMachine.tokens (")" : String).toList = [.delimiter ')'] := by decide
  have dot : SecdMachine.tokens ("." : String).toList = [.delimiter '.'] := by decide
  constructor
  · rintro rfl
    rw [closing] at alone
    cases alone
    exact spells.notClosing rfl
  · rintro rfl
    rw [dot] at alone
    cases alone
    exact spells.notDot rfl

theorem solid_of_toList {text : String} {char : Char} (chars : text.toList = [char])
    (noBlank : Text.isBlank char = false) : (Piece.word text).Solid := by
  refine ⟨?_, ?_⟩
  · rintro rfl
    simp at chars
  · simpa [chars] using noBlank

theorem SingleToken.solid {name : String} (single : SingleToken name) :
    (Piece.word name).Solid := by
  rcases single with ⟨first, more, chars, letter, continues⟩ | rfl |
    ⟨char, chars, noBlank, _⟩
  · refine ⟨?_, ?_⟩
    · rintro rfl
      simp at chars
    · rw [chars]
      intro char member
      rcases List.mem_cons.mp member with rfl | member
      · exact Text.not_isBlank_of_isLetter letter
      · rcases continues char member with letter | digit
        · exact Text.not_isBlank_of_isLetter letter
        · exact Text.not_isBlank_of_isDigit digit
  · exact solid_of_toList rfl rfl
  · exact solid_of_toList chars noBlank

theorem Progress.begin_numeric {text : List Char} (noSign : text ≠ ['-']) (lists : List OpenList) :
    begin lists (.numeric text) =
      match Literal.integer text with
      | .ok number => .ok (finish (.integer number) lists)
      | .error problem => .error ⟨String.ofList text, problem⟩ := by
  unfold begin
  split
  next same => cases same
  next same => exact absurd (Token.numeric.inj same) noSign
  next same =>
    cases same
    rfl
  next other => exact absurd rfl (other text)

theorem Token.begins_numeric {text : List Char} (noSign : text ≠ ['-']) {number : Int64}
    (read : Literal.integer text = .ok number) : (numeric text).Begins (.integer number) := by
  intro lists
  rw [Progress.begin_numeric noSign, read]

theorem Literal.Decimal.spells {text : List Char} {number : Int64} (decimal : Decimal text number) :
    (Token.numeric text).Spells (.integer number) := by
  have read := decimal.integer_eq
  have noSign : text ≠ ['-'] := by
    rintro rfl
    cases decimal with
    | plain _ digits _ => exact absurd (digits '-' List.mem_cons_self) (by decide)
    | negative some _ _ => exact some rfl
  exact ⟨by simp, by simp, Token.begins_numeric noSign read⟩

theorem integer_tokens (number : Int64) :
    ∃ token, tokens (toString number.toInt).toList = [token] ∧ token.Spells (.integer number) :=
  ⟨_, Literal.tokens_toString number.toInt, (Literal.decimal_toString number).spells⟩

theorem integer_solid (number : Int64) : (Piece.word (toString number.toInt)).Solid := by
  have digits : ∀ char ∈ Nat.toDigits 10 number.toInt.natAbs, Text.isBlank char = false := by
    intro char member
    have decimal := Nat.isDigit_of_mem_toDigits (by decide) (by decide) member
    exact Text.not_isBlank_of_isDigit (Literal.isDigit_of_isDigit decimal)
  constructor
  · intro empty
    have text := Literal.toList_toString number.toInt
    rw [empty] at text
    split at text
    · exact Nat.toDigits_ne_nil text.symm
    · simp at text
  · rw [Literal.toList_toString]
    split
    · exact digits
    · intro char member
      rcases List.mem_cons.mp member with rfl | member
      · decide
      · exact digits char member

namespace Datum

def Legible : Datum → Prop
  | symbol name => (Piece.word name).Solid ∧
      ∃ token, SecdMachine.tokens name.toList = [token] ∧ token.Begins (symbol name)
  | integer _ => True
  | pair first second => first.Legible ∧ first ≠ symbol ")" ∧ second.Legible

def dotLeads : Datum → Bool
  | pair first _ => first = symbol "."
  | _ => false

/-- The dots that are elements of lists, the first elements apart. They are printed where the reader
takes them for the dot before a tail. -/
def misplacedDots : Datum → Nat
  | pair first second => second.dotLeads.toNat + first.misplacedDots + second.misplacedDots
  | _ => 0

theorem Readable.legible {datum : Datum} (readable : datum.Readable) :
    datum.Legible ∧ datum.misplacedDots = 0 := by
  have other : ∀ {datum : Datum} {name : String}, datum.Readable →
      name = ")" ∨ name = "." → datum ≠ symbol name := by
    rintro datum name readable special rfl
    have single := SingleToken.ne readable
    rcases special with rfl | rfl
    · exact single.1 rfl
    · exact single.2 rfl
  induction datum with
  | symbol name =>
      obtain ⟨token, alone, spells⟩ := SingleToken.tokens readable
      exact ⟨⟨SingleToken.solid readable, token, alone, spells.begins⟩, rfl⟩
  | integer number => exact ⟨trivial, rfl⟩
  | pair first second firstIh secondIh =>
      obtain ⟨left, placed⟩ := firstIh readable.1
      obtain ⟨right, alsoPlaced⟩ := secondIh readable.2
      have leads : second.dotLeads = false := by
        cases second with
        | symbol | integer => rfl
        | pair inner rest => simpa [dotLeads] using other readable.2.1 (Or.inr rfl)
      exact ⟨⟨left, other readable.1 (Or.inl rfl), right⟩,
        by simp [misplacedDots, leads, placed, alsoPlaced]⟩

theorem Legible.solid {datum : Datum} (legible : datum.Legible) :
    (∀ piece ∈ datum.pieces, piece.Solid) ∧ ∀ piece ∈ datum.tailPieces, piece.Solid := by
  have closing : (Piece.word ")").Solid := solid_of_toList rfl rfl
  have dot : (Piece.word ".").Solid := solid_of_toList rfl rfl
  induction datum with
  | symbol name =>
      have word := legible.1
      constructor
      · simpa [pieces, atomPiece] using word
      · simp only [tailPieces]
        split
        · simpa using closing
        · simpa [atomPiece] using ⟨dot, word, closing⟩
  | integer number =>
      have word := integer_solid number
      constructor
      · simpa [pieces, atomPiece] using word
      · simpa [tailPieces, nil, atomPiece] using ⟨dot, word, closing⟩
  | pair first second firstIh secondIh =>
      obtain ⟨firstPieces, _⟩ := firstIh legible.1
      obtain ⟨_, secondPieces⟩ := secondIh legible.2.2
      have both : ∀ piece ∈ first.pieces ++ second.tailPieces, piece.Solid := by
        intro piece member
        rcases List.mem_append.mp member with member | member
        · exact firstPieces piece member
        · exact secondPieces piece member
      constructor
      · intro piece member
        simp only [pieces, List.mem_cons] at member
        rcases member with rfl | rfl | member
        · exact Or.inr rfl
        · exact Or.inl rfl
        · exact both piece member
      · simpa only [tailPieces] using both

def tokens (datum : Datum) : List Token :=
  datum.pieces.flatMap Piece.tokens

def tailTokens (datum : Datum) : List Token :=
  datum.tailPieces.flatMap Piece.tokens

theorem tokens_atom {atom : Datum} {token : Token} (noPair : ∀ first second, atom ≠ pair first second)
    (single : atom.atomPiece.tokens = [token]) :
    atom.tokens = [token] ∧
      atom.tailTokens = if atom = nil then [.delimiter ')']
        else [.delimiter '.', token, .delimiter ')'] := by
  have closing : (Piece.word ")").tokens = [.delimiter ')'] := by decide
  have dot : (Piece.word ".").tokens = [.delimiter '.'] := by decide
  constructor
  · rw [tokens, pieces]
    · simp [single]
    · exact noPair
  · rw [tailTokens, tailPieces]
    · split
      · simp [closing]
      · simp [closing, dot, single]
    · exact noPair

theorem tokens_pair (first second : Datum) :
    (pair first second).tokens = .delimiter '(' :: (first.tokens ++ second.tailTokens) := by
  have opening : SecdMachine.tokens ['('] = [.delimiter '('] := by decide
  have blank : SecdMachine.tokens [' '] = [] := by decide
  simp [tokens, tailTokens, pieces, Piece.tokens, opening, blank]

theorem tailTokens_pair (first second : Datum) :
    (pair first second).tailTokens = first.tokens ++ second.tailTokens := by
  simp [tokens, tailTokens, tailPieces]

theorem Legible.exists_token {atom : Datum} (legible : atom.Legible)
    (noPair : ∀ first second, atom ≠ pair first second) :
    ∃ token, atom.atomPiece.tokens = [token] ∧ token.Begins atom := by
  cases atom with
  | symbol name => exact legible.2
  | integer number =>
      obtain ⟨token, alone, spells⟩ := integer_tokens number
      exact ⟨token, alone, spells.begins⟩
  | pair first second => exact absurd rfl (noPair first second)

theorem Legible.eq_symbol {datum : Datum} (legible : datum.Legible) {char : Char}
    (first : datum.tokens.head? = some (.delimiter char)) (other : char ≠ '(') :
    datum = symbol (String.ofList [char]) := by
  by_cases isPair : ∃ left right, datum = pair left right
  · obtain ⟨left, right, rfl⟩ := isPair
    rw [tokens_pair] at first
    cases first
    exact absurd rfl other
  · have noPair : ∀ left right, datum ≠ pair left right :=
      fun left right same => isPair ⟨left, right, same⟩
    obtain ⟨token, alone, begins⟩ := legible.exists_token noPair
    rw [(tokens_atom noPair alone).1] at first
    cases first
    exact begins.eq_symbol

end Datum

namespace Progress

structure Awaits (progress : Progress) (lists : List OpenList) : Prop where
  unfinished : ∀ datum, progress ≠ complete datum
  begins : ∀ token, token ≠ .delimiter ')' → token ≠ .delimiter '.' →
    progress.consume token = begin lists token

theorem awaits_expecting (lists : List OpenList) : (expecting lists).Awaits lists :=
  ⟨by simp, fun _ _ _ => rfl⟩

theorem awaits_opened (lists : List OpenList) : (opened lists).Awaits (.elements [] :: lists) := by
  refine ⟨by simp, ?_⟩
  intro token notClosing _
  simp only [consume, if_neg notClosing]

theorem awaits_holding (element : Datum) (reversed : List Datum) (lists : List OpenList) :
    (holding element (.elements reversed) lists).Awaits
      (.elements (element :: reversed) :: lists) := by
  refine ⟨by simp, ?_⟩
  intro token notClosing notDot
  simp only [consume, if_neg notDot, if_neg notClosing]

theorem Awaits.feed_cons {progress next : Progress} {lists : List OpenList} {token : Token}
    (awaits : progress.Awaits lists) (notClosing : token ≠ .delimiter ')')
    (notDot : token ≠ .delimiter '.') (started : begin lists token = .ok next)
    (rest : List Token) : progress.feed (token :: rest) = next.feed rest := by
  rw [← awaits.begins token notClosing notDot] at started
  cases progress with
  | complete datum => exact absurd rfl (awaits.unfinished datum)
  | expecting | opened | holding => simp only [feed, started]

theorem feed_spelled {progress : Progress} {lists : List OpenList} {token : Token} {datum : Datum}
    (awaits : progress.Awaits lists) (spells : token.Spells datum) (rest : List Token) :
    progress.feed (token :: rest) = (finish datum lists).feed rest :=
  awaits.feed_cons spells.notClosing spells.notDot (spells.begins lists) rest

theorem feed_closing (element : Datum) (reversed : List Datum) (lists : List OpenList)
    (rest : List Token) :
    (holding element (.elements reversed) lists).feed (.delimiter ')' :: rest) =
      (finish (Datum.ofReversed (element :: reversed) Datum.nil) lists).feed rest := by
  simp [feed, consume, OpenList.close]

theorem feed_dot (element : Datum) (reversed : List Datum) (lists : List OpenList)
    (rest : List Token) :
    (holding element (.elements reversed) lists).feed (.delimiter '.' :: rest) =
      (expecting (.tail (element :: reversed) :: lists)).feed rest := by
  simp [feed, consume]

/-- After the tail of a list any token is taken for its end. -/
theorem feed_afterTail (datum : Datum) (reversed : List Datum) (lists : List OpenList)
    (token : Token) (rest : List Token) :
    (holding datum (.tail reversed) lists).feed (token :: rest) =
      (finish (Datum.ofReversed reversed datum) lists).feed rest := by
  simp [feed, consume, OpenList.close]

inductive Admits : Progress → List OpenList → Token → Prop
  | expecting (lists : List OpenList) (token : Token) : Admits (expecting lists) lists token
  | opened (lists : List OpenList) {token : Token} (notClosing : token ≠ .delimiter ')') :
      Admits (opened lists) (.elements [] :: lists) token
  | holding (element : Datum) (reversed : List Datum) (lists : List OpenList) {token : Token}
      (notClosing : token ≠ .delimiter ')') (notDot : token ≠ .delimiter '.') :
      Admits (holding element (.elements reversed) lists) (.elements (element :: reversed) :: lists)
        token

theorem Admits.consume {progress : Progress} {lists : List OpenList} {token : Token}
    (admits : progress.Admits lists token) : progress.consume token = begin lists token := by
  cases admits with
  | expecting => rfl
  | opened _ notClosing => simp only [Progress.consume, if_neg notClosing]
  | holding _ _ _ notClosing notDot =>
      simp only [Progress.consume, if_neg notDot, if_neg notClosing]

theorem Admits.feed_cons {progress next : Progress} {lists : List OpenList} {token : Token}
    (admits : progress.Admits lists token) (started : begin lists token = .ok next)
    (rest : List Token) : progress.feed (token :: rest) = next.feed rest := by
  rw [← admits.consume] at started
  cases admits with
  | expecting | opened | holding => simp only [feed, started]

theorem feed_dotted {element datum : Datum} {reversed : List Datum} {lists : List OpenList}
    {token : Token} (begins : token.Begins datum) (rest : List Token) :
    (holding element (.elements reversed) lists).feed
        (.delimiter '.' :: token :: .delimiter ')' :: rest) =
      (finish (Datum.ofReversed (element :: reversed) datum) lists).feed rest := by
  rw [feed_dot, (Admits.expecting _ token).feed_cons (begins _), finish, feed_afterTail]

theorem feed_atom {atom : Datum} {token : Token}
    (noPair : ∀ first second, atom ≠ .pair first second)
    (alone : atom.atomPiece.tokens = [token]) (begins : token.Begins atom) :
    (∀ (progress : Progress) (lists : List OpenList) rest,
      (∀ first ∈ atom.tokens.head?, progress.Admits lists first) →
      progress.feed (atom.tokens ++ rest) = (finish atom lists).feed rest) ∧
    (∀ element reversed lists rest,
      (holding element (.elements reversed) lists).feed (atom.tailTokens ++ rest) =
        (finish (Datum.ofReversed (element :: reversed) atom) lists).feed rest) := by
  obtain ⟨whole, tail⟩ := Datum.tokens_atom noPair alone
  constructor
  · intro progress lists rest admits
    rw [whole] at admits ⊢
    exact (admits token rfl).feed_cons (begins lists) rest
  · intro element reversed lists rest
    rw [tail]
    split
    next ended =>
      rw [ended]
      exact feed_closing element reversed lists rest
    next => exact feed_dotted begins rest

/-- The tokens of a tree take the reader past that tree, and those of a tail past the list that it
ends, if it does not start with a dot. -/
theorem feed_tokens {datum : Datum} (legible : datum.Legible) (placed : datum.misplacedDots = 0) :
    (∀ (progress : Progress) (lists : List OpenList) rest,
      (∀ token ∈ datum.tokens.head?, progress.Admits lists token) →
      progress.feed (datum.tokens ++ rest) = (finish datum lists).feed rest) ∧
    (datum.dotLeads = false → ∀ element reversed lists rest,
      (holding element (.elements reversed) lists).feed (datum.tailTokens ++ rest) =
        (finish (Datum.ofReversed (element :: reversed) datum) lists).feed rest) := by
  induction datum with
  | symbol | integer =>
      obtain ⟨token, alone, begins⟩ := legible.exists_token (by simp)
      obtain ⟨whole, tail⟩ := feed_atom (by simp) alone begins
      exact ⟨whole, fun _ => tail⟩
  | pair first second firstIh secondIh =>
      simp only [Datum.misplacedDots, Nat.add_eq_zero_iff, Bool.toNat_eq_zero] at placed
      obtain ⟨⟨noDot, placedFirst⟩, placedSecond⟩ := placed
      obtain ⟨left, noClosing, right⟩ := legible
      obtain ⟨feedFirst, _⟩ := firstIh left placedFirst
      have feedSecond := (secondIh right placedSecond).2 noDot
      have notClosing : ∀ token ∈ first.tokens.head?, token ≠ .delimiter ')' := by
        rintro _ head rfl
        exact noClosing (left.eq_symbol head (by decide))
      constructor
      · intro progress lists rest admits
        rw [Datum.tokens_pair] at admits ⊢
        rw [List.cons_append, List.append_assoc, (admits _ rfl).feed_cons rfl,
          feedFirst _ _ _ fun token head => .opened lists (notClosing token head)]
        exact feedSecond first [] lists rest
      · intro leads element reversed lists rest
        have notDot : ∀ token ∈ first.tokens.head?, token ≠ .delimiter '.' := by
          rintro _ head rfl
          exact absurd (left.eq_symbol head (by decide)) (by simpa [Datum.dotLeads] using leads)
        rw [Datum.tailTokens_pair, List.append_assoc, feedFirst _ _ _ fun token head =>
          .holding element reversed lists (notClosing token head) (notDot token head)]
        exact feedSecond first (element :: reversed) lists rest

end Progress

theorem readTokens_of_legible {datum : Datum} (legible : datum.Legible)
    (placed : datum.misplacedDots = 0) (rest : List Token) :
    readTokens (datum.tokens ++ rest) = (.ok datum, rest) := by
  have fed := (Progress.feed_tokens legible placed).1 Progress.start [] rest
    fun token _ => .expecting [] token
  rw [Progress.finish, Progress.feed_complete] at fed
  cases all : datum.tokens ++ rest with
  | nil =>
      rw [all] at fed
      simp [Progress.feed, Progress.start] at fed
  | cons token more =>
      rw [readTokens, ← all, fed]
      rfl

theorem readTokens_tokens {datum : Datum} (readable : datum.Readable) (rest : List Token) :
    readTokens (datum.tokens ++ rest) = (.ok datum, rest) :=
  readTokens_of_legible readable.legible.1 readable.legible.2 rest

namespace Store

theorem tokens_dropWhile_blank (reversed : List Char) :
    tokens (reversed.dropWhile (· = ' ')).reverse = tokens reversed.reverse := by
  induction reversed with
  | nil => rfl
  | cons char rest ih =>
      by_cases blank : char = ' '
      · subst blank
        have step : tokens (' ' :: rest).reverse = tokens rest.reverse := by
          rw [List.reverse_cons, tokens_append_blank (by decide)]
          simp [tokens, tokensAfter]
        rw [step, ← ih]
        simp
      · simp [blank]

theorem tokens_join_text {pieces : List Piece} (solid : ∀ piece ∈ pieces, piece.Solid) :
    tokens (String.join (pieces.map Piece.text)).toList = pieces.flatMap Piece.tokens := by
  induction pieces with
  | nil => rfl
  | cons piece rest ih =>
      have more := ih fun other member => solid other (List.mem_cons_of_mem _ member)
      have here := solid piece List.mem_cons_self
      have cut : Severed piece.text.toList ∧ tokens piece.text.toList = piece.tokens := by
        cases piece with
        | word text =>
            simp only [Piece.text, String.toList_push, Piece.tokens]
            refine ⟨severed_blank (by decide) _, ?_⟩
            rw [tokens_append_blank (by decide)]
            simp [tokens, tokensAfter]
        | mark char =>
            refine ⟨?_, by simp [Piece.text, Piece.tokens]⟩
            rcases here with rfl | rfl
            · exact severed_blank (by decide) []
            · exact severed_parenthesis []
      rw [List.map_cons, String.join_cons, String.toList_append, cut.1, cut.2, more,
        List.flatMap_cons]

theorem tokens_format_of_legible {store : Store} {value : Value} {datum : Datum}
    (denotes : store.Denotes value datum) (legible : datum.Legible) :
    tokens (store.format value).toList = datum.tokens := by
  simp only [format, String.toList_ofList]
  rw [tokens_dropWhile_blank, List.reverse_reverse, denotes.pieces_eq,
    tokens_join_text legible.solid.1]
  rfl

theorem tokens_format {store : Store} {value : Value} {datum : Datum}
    (denotes : store.Denotes value datum) (readable : datum.Readable) :
    tokens (store.format value).toList = datum.tokens :=
  tokens_format_of_legible denotes readable.legible.1

end Store

namespace LineSource

theorem ahead_ofText (prompt : String) (text : List Char) :
    Reader.Ahead { prompt := prompt } (ofText text) (SecdMachine.tokens text) := by
  cases text with
  | nil => exact Reader.ahead_of_lines prompt (by simp [ofText]) (by simp [ofText]) rfl
  | cons char rest =>
      have ahead := @Reader.ahead_of_lines prompt (ofText (char :: rest))
        (by simp [ofText, Delivery.ending?]) (by simp [ofText]) rfl
      simpa [ofText] using ahead

theorem ahead_ofStream {lines : List String} {found : List Token} (written : Written lines found)
    (prompt : String) {policy : PromptPolicy} (unchecked : policy ≠ .check) {prompts : Sink}
    (unlimited : prompts.capacity = none) :
    Reader.Ahead { prompt := prompt } (ofStream (Text.encode (String.join lines)) policy prompts)
      found := by
  obtain ⟨bodies, rfl, good, rfl⟩ := written
  have pending := ofStream_pending (fun body member => (good body member).2) policy prompts
  generalize source : ofStream _ policy prompts = stream at pending ⊢
  have arrives : ∀ delivery ∈ stream.pending, delivery.ending? = none := by
    intro delivery member
    rw [pending] at member
    obtain ⟨body, inside, rfl⟩ := List.mem_map.mp member
    simp [Delivery.ending?, (good body inside).1]
  have ahead : Reader.Ahead { prompt := prompt } stream _ :=
    Reader.ahead_of_lines prompt arrives (source ▸ unchecked) (source ▸ unlimited)
  rwa [pending, List.flatMap_map] at ahead

end LineSource

theorem Store.exists_trees {store : Store} {values : List Value}
    (readable : ∀ value ∈ values, store.Readable value) :
    ∃ datums, List.Forall₂ (fun value datum => store.Denotes value datum ∧ datum.Readable) values
      datums ∧ ∀ datum ∈ datums, datum.Readable := by
  induction values with
  | nil => exact ⟨[], .nil, by simp⟩
  | cons value rest ih =>
      obtain ⟨datum, denotes, single⟩ := (readable value List.mem_cons_self).denotes
      obtain ⟨datums, others, good⟩ :=
        ih fun other member => readable other (List.mem_cons_of_mem _ member)
      refine ⟨datum :: datums, .cons ⟨denotes, single⟩ others, ?_⟩
      intro other member
      rcases List.mem_cons.mp member with rfl | member
      · exact single
      · exact good other member

theorem Datum.pieces_ne_nil (datum : Datum) : datum.pieces ≠ [] := by
  cases datum <;> simp [pieces]

theorem Writer.putLines_eq {store : Store} {values : List Value} {datums : List Datum}
    (denote : List.Forall₂ store.Denotes values datums)
    (readable : ∀ datum ∈ datums, datum.Readable) {writer : Writer} (clear : writer.Clear)
    (named : writer.blankNil = false) :
    ∃ lines, Written lines (datums.flatMap Datum.tokens) ∧
      values.foldl (fun writer value => writer.putLine store value) writer =
        { writer with sink := { writer.sink with
            written := writer.sink.written ++ lines.toArray } } := by
  induction denote generalizing writer with
  | nil => exact ⟨[], written_nil, by simp⟩
  | @cons value datum values datums denotes _ ih =>
      have pieces : store.pieces writer.blankNil value = datum.pieces := by
        rw [named, denotes.pieces_eq]
      have solid := (readable datum List.mem_cons_self).legible.1.solid.1
      obtain ⟨lines, written, first⟩ := putLine_eq clear (pieces ▸ datum.pieces_ne_nil)
        (fun piece member => solid piece (pieces ▸ member))
      rw [pieces] at written
      have still : (writer.putLine store value).Clear := by
        rw [first]
        exact ⟨clear.line, clear.accepted, clear.unlimited⟩
      obtain ⟨more, rest, all⟩ := ih (fun other member => readable other (List.mem_cons_of_mem _ member))
        still (by rw [first]; exact named)
      refine ⟨lines ++ more, written.append rest, ?_⟩
      rw [List.foldl_cons, all, first]
      simp

/-- Whatever the width, values written line by line and read back give the same trees in the same
order and then the end of the input, as one text or as a stream of lines, and each of them is read
back from its printed form. -/
theorem written_values_read_back (store : Store) (values : List Value) (width : Int)
    (readable : ∀ value ∈ values, store.Readable value) :
    let writer : Writer := { width := width, blankNil := false }
    let text := (values.foldl (fun writer value => writer.putLine store value) writer).sink.text
    ∃ datums,
      List.Forall₂ (fun value datum => store.Denotes value datum ∧
        (store.load datum).2.equal value (store.load datum).1 = true ∧
        readText (store.format value).toList = .ok datum) values datums ∧
      (∀ prompt, Reader.Yields { prompt := prompt } (.ofText text.toList) datums .endOfInput) ∧
      ∀ prompt policy prompts, policy ≠ .check → prompts.capacity = none →
        Reader.Yields { prompt := prompt } (.ofStream (Text.encode text) policy prompts) datums
          .endOfInput := by
  intro writer text
  obtain ⟨datums, trees, good⟩ := Store.exists_trees readable
  have clear : writer.Clear := ⟨rfl, rfl, rfl⟩
  obtain ⟨lines, written, final⟩ :=
    Writer.putLines_eq (trees.imp fun _ _ both => both.1) good clear rfl
  have output : text = String.join lines := by
    simp [text, final, Sink.text, writer]
  have reads : ∀ datum ∈ datums, ∀ rest, readTokens (datum.tokens ++ rest) = (.ok datum, rest) :=
    fun datum member => readTokens_tokens (good datum member)
  refine ⟨datums, trees.imp ?_, ?_, ?_⟩
  · rintro value datum ⟨denotes, single⟩
    refine ⟨denotes, denotes.equal_load, ?_⟩
    have ahead := LineSource.ahead_ofText defaultPrompt (store.format value).toList
    rw [Store.tokens_format denotes single] at ahead
    have outcome := ahead.read.1
    have whole := readTokens_tokens single []
    rw [List.append_nil] at whole
    rw [whole] at outcome
    exact outcome
  · intro prompt
    apply Reader.Ahead.yields reads
    rw [output, ← written.tokens_join]
    exact LineSource.ahead_ofText prompt _
  · intro prompt policy prompts unchecked unlimited
    apply Reader.Ahead.yields reads
    rw [output]
    exact LineSource.ahead_ofStream written prompt unchecked unlimited

def dottedStore : Store :=
  ⟨#[⟨.integer (-5), .symbol "+"⟩, ⟨.symbol "a1", .pair 0⟩]⟩

theorem dottedValues_read_back :
    let values := [.pair 1, .symbol "-", .pair 0]
    let writer : Writer := { width := 1, blankNil := false }
    let text :=
      (values.foldl (fun writer value => writer.putLine dottedStore value) writer).sink.text
    (∀ value ∈ values, dottedStore.Readable value) ∧
    Reader.Yields {} (.ofText text.toList)
      [.pair (.symbol "a1") (.pair (.integer (-5)) (.symbol "+")), .symbol "-",
        .pair (.integer (-5)) (.symbol "+")] .endOfInput := by
  intro values writer text
  have plus : SingleToken "+" := Or.inr (Or.inr ⟨'+', rfl, rfl, rfl, rfl, by simp⟩)
  have tail : dottedStore.Readable (.pair 0) := .pair rfl (.integer _) (.symbol plus)
  have readable : ∀ value ∈ values, dottedStore.Readable value := by
    intro value member
    simp only [values, List.mem_cons, List.not_mem_nil, or_false] at member
    rcases member with rfl | rfl | rfl
    · exact .pair rfl (.symbol (Or.inl ⟨'a', ['1'], rfl, rfl, by simp; decide⟩)) tail
    · exact .symbol (Or.inr (Or.inl rfl))
    · exact tail
  obtain ⟨datums, same, reads, _⟩ := written_values_read_back dottedStore values 1 readable
  have trees : datums = [.pair (.symbol "a1") (.pair (.integer (-5)) (.symbol "+")), .symbol "-",
      .pair (.integer (-5)) (.symbol "+")] := by
    obtain ⟨first, others, ⟨whole, _⟩, more, rfl⟩ := List.forall₂_cons_left_iff.mp same
    obtain ⟨second, last, ⟨sign, _⟩, ending, rfl⟩ := List.forall₂_cons_left_iff.mp more
    obtain ⟨third, empty, ⟨part, _⟩, none, rfl⟩ := List.forall₂_cons_left_iff.mp ending
    have dotted : dottedStore.Denotes (.pair 0) (.pair (.integer (-5)) (.symbol "+")) :=
      .pair rfl (.integer _) (.symbol _)
    rw [List.forall₂_nil_left_iff.mp none, whole.unique (.pair rfl (.symbol _) dotted),
      sign.unique (.symbol _), part.unique dotted]
  exact ⟨readable, trees ▸ reads defaultPrompt⟩

end SecdMachine
