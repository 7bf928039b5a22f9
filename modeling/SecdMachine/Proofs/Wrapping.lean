import SecdMachine.Proofs.Encoding
import SecdMachine.Proofs.Scanning
import SecdMachine.Writer

/-!
Cutting pieces into lines. A line may end in the middle of an expression, and at a small width even
between a word and its blank, but never inside a token; no line is empty, whatever the width.
-/

namespace SecdMachine

namespace Piece

def Solid : Piece → Prop
  | word text => text ≠ "" ∧ ∀ char ∈ text.toList, Text.isBlank char = false
  | mark char => char = ' ' ∨ char = '('

def tokens : Piece → List Token
  | word text => SecdMachine.tokens text.toList
  | mark char => SecdMachine.tokens [char]

end Piece

/-- Lines with their newlines, none of them empty, that hold the given tokens. -/
def Written (lines : List String) (found : List Token) : Prop :=
  ∃ bodies : List (List Char), lines = bodies.map (fun body => String.ofList (body ++ ['\n'])) ∧
    (∀ body ∈ bodies, body ≠ [] ∧ LineSource.Plain body) ∧ bodies.flatMap tokens = found

theorem written_nil : Written [] [] :=
  ⟨[], rfl, by simp, rfl⟩

theorem Written.append {lines more : List String} {found further : List Token}
    (first : Written lines found) (second : Written more further) :
    Written (lines ++ more) (found ++ further) := by
  obtain ⟨bodies, rfl, good, rfl⟩ := first
  obtain ⟨others, rfl, alsoGood, rfl⟩ := second
  refine ⟨bodies ++ others, by simp, ?_, by simp⟩
  intro body member
  rcases List.mem_append.mp member with inside | inside
  · exact good body inside
  · exact alsoGood body inside

theorem written_line {line : String} (some : line ≠ "") (plain : LineSource.Plain line.toList) :
    Written [line.push '\n'] (tokens line.toList) := by
  refine ⟨[line.toList], ?_, ?_, by simp⟩
  · simp [← String.toList_inj]
  · simpa using ⟨some, plain⟩

theorem Written.tokens_join {lines : List String} {found : List Token}
    (written : Written lines found) : tokens (String.join lines).toList = found := by
  obtain ⟨bodies, rfl, good, rfl⟩ := written
  rw [String.toList_join, List.flatMap_map]
  simp only [String.toList_ofList]
  clear good
  induction bodies with
  | nil => rfl
  | cons body rest ih =>
      rw [List.flatMap_cons, List.flatMap_cons, List.append_assoc, List.singleton_append,
        tokens_append_blank (by decide), ih]

namespace Layout

structure Spells (layout : Layout) (found : List Token) : Prop where
  tokens : ∃ done, Written layout.lines.reverse done ∧ done ++ tokens layout.line.toList = found
  plain : LineSource.Plain layout.line.toList

variable {layout : Layout} {found : List Token} {width : Nat}

theorem Spells.endLine (spells : layout.Spells found) (some : layout.line ≠ "") :
    layout.endLine.Spells found := by
  obtain ⟨done, written, rfl⟩ := spells.tokens
  refine ⟨⟨done ++ SecdMachine.tokens layout.line.toList, ?_, ?_⟩, ?_⟩
  · simp only [Layout.endLine, List.reverse_cons]
    exact written.append (written_line some spells.plain)
  · simp [Layout.endLine, SecdMachine.tokens, tokensAfter]
  · simp [Layout.endLine, LineSource.Plain]

theorem Spells.add (spells : layout.Spells found) {line : String} {more : List Char}
    (longer : line.toList = layout.line.toList ++ more)
    (cut : SecdMachine.tokens (layout.line.toList ++ more) =
      SecdMachine.tokens layout.line.toList ++ SecdMachine.tokens more)
    (plain : LineSource.Plain (layout.line.toList ++ more)) :
    Spells { layout with line := line } (found ++ SecdMachine.tokens more) := by
  obtain ⟨done, written, rfl⟩ := spells.tokens
  refine ⟨⟨done, written, ?_⟩, by simpa [longer] using plain⟩
  rw [longer, cut, List.append_assoc]

theorem plain_append {line text : List Char} (plain : LineSource.Plain line) (nonempty : text ≠ [])
    (solid : ∀ char ∈ text, char ≠ '\n' ∧ char ≠ '\r') : LineSource.Plain (line ++ text) := by
  constructor
  · intro member
    rcases List.mem_append.mp member with inside | inside
    · exact plain.1 inside
    · exact (solid _ inside).1 rfl
  · obtain ⟨before, last, rfl⟩ := (List.eq_nil_or_concat text).resolve_left nonempty
    have other := (solid last (by simp)).2
    simpa [← List.append_assoc] using other

theorem ne_of_not_isBlank {char : Char} (solid : Text.isBlank char = false) :
    char ≠ '\n' ∧ char ≠ '\r' := by
  constructor
  · rintro rfl
    exact absurd solid (by decide)
  · rintro rfl
    exact absurd solid (by decide)

theorem Spells.putChar (spells : layout.Spells found) (positive : 0 < width) {char : Char}
    (separates : char = ' ' ∨ char = '(') :
    (layout.putChar width char).Spells (found ++ SecdMachine.tokens [char]) ∧
      Severed (layout.putChar width char).line.toList := by
  have stops : ∀ other ∈ [char].head?, Token.continuesWord other = false := by
    rintro _ ⟨⟩
    rcases separates with rfl | rfl
    · exact Token.not_continuesWord_of_isBlank (by decide)
    · decide
  have solid : ∀ other ∈ [char], other ≠ '\n' ∧ other ≠ '\r' := by
    rcases separates with rfl | rfl <;> simp
  have severs : ∀ line : List Char, Severed (line ++ [char]) := by
    rcases separates with rfl | rfl
    · exact severed_blank (by decide)
    · exact severed_parenthesis
  have started : (if layout.line.utf8ByteSize ≥ width then layout.endLine else layout).Spells
      found := by
    split
    next full =>
      apply spells.endLine
      intro empty
      simp [empty] at full
      omega
    next => exact spells
  refine ⟨started.add (String.toList_push ..) (tokens_append stops)
    (plain_append started.plain (by simp) solid), ?_⟩
  simp only [Layout.putChar, String.toList_push]
  exact severs _

theorem Spells.putWord (spells : layout.Spells found) (severed : Severed layout.line.toList)
    (positive : 0 < width) {text : String} (solid : (Piece.word text).Solid) :
    (layout.putWord width text).Spells (found ++ SecdMachine.tokens text.toList) ∧
      Severed (layout.putWord width text).line.toList := by
  simp only [Layout.putWord]
  generalize full : (decide (layout.line.utf8ByteSize > 0) &&
    decide (layout.line.utf8ByteSize + text.utf8ByteSize > width)) = breaks
  have started : (if breaks then layout.endLine else layout).Spells found ∧
      Severed (if breaks then layout.endLine else layout).line.toList := by
    split
    next broken =>
      refine ⟨spells.endLine ?_, severed_nil⟩
      intro empty
      simp [empty, broken] at full
    next => exact ⟨spells, severed⟩
  have unbroken : ∀ char ∈ text.toList, char ≠ '\n' ∧ char ≠ '\r' :=
    fun char member => ne_of_not_isBlank (solid.2 char member)
  have added := started.1.add (String.toList_append ..) (started.2 text.toList)
    (plain_append started.1.plain (by simpa using solid.1) unbroken)
  have ended := added.putChar positive (Or.inl rfl)
  rwa [tokens_blank (by decide), show SecdMachine.tokens [] = [] from rfl, List.append_nil] at ended

theorem Spells.put (spells : layout.Spells found) (severed : Severed layout.line.toList)
    (positive : 0 < width) {piece : Piece} (solid : piece.Solid) :
    (layout.put width piece).Spells (found ++ piece.tokens) ∧
      Severed (layout.put width piece).line.toList := by
  cases piece with
  | word text => exact spells.putWord severed positive solid
  | mark char => exact spells.putChar positive solid

theorem line_put_ne (layout : Layout) (width : Nat) (piece : Piece) :
    (layout.put width piece).line ≠ "" := by
  cases piece <;> simp [Layout.put, Layout.putWord, Layout.putChar]

theorem Spells.foldl (spells : layout.Spells found) (severed : Severed layout.line.toList)
    (positive : 0 < width) {pieces : List Piece} (solid : ∀ piece ∈ pieces, piece.Solid) :
    (pieces.foldl (Layout.put width) layout).Spells (found ++ pieces.flatMap Piece.tokens) := by
  induction pieces generalizing layout found with
  | nil => simpa using spells
  | cons piece rest ih =>
      obtain ⟨added, apart⟩ := spells.put severed positive (solid piece List.mem_cons_self)
      have more := ih added apart fun other member => solid other (List.mem_cons_of_mem _ member)
      simpa using more

end Layout

theorem Sink.write_unlimited {sink : Sink} (unlimited : sink.capacity = none) (text : String) :
    sink.write text = (none, { sink with written := sink.written.push text }) := by
  simp [write, accepts, unlimited]

namespace Writer

structure Clear (writer : Writer) : Prop where
  line : writer.line = ""
  accepted : writer.failure = none
  unlimited : writer.sink.capacity = none

theorem send_unlimited {sink : Sink} (unlimited : sink.capacity = none) (lines : List String) :
    send none sink lines = (none, { sink with written := sink.written ++ lines.toArray }) := by
  induction lines generalizing sink with
  | nil => simp [send]
  | cons line rest ih =>
      simp only [send, Sink.write_unlimited unlimited]
      rw [@ih { sink with written := sink.written.push line } unlimited]
      simp

def linesOf (writer : Writer) (store : Store) (value : Value) : List String :=
  let layout := (store.pieces writer.blankNil value).foldl (Layout.put writer.lineWidth)
    { line := writer.line }
  layout.lines.reverse ++ [layout.line.push '\n']

theorem putLine_eq_linesOf {writer : Writer} (accepted : writer.failure = none)
    (unlimited : writer.sink.capacity = none) (store : Store) (value : Value) :
    writer.putLine store value = { writer with
      line := ""
      sink := { writer.sink with
        written := writer.sink.written ++ (writer.linesOf store value).toArray } } := by
  obtain ⟨width, blankNil, line, failure, written, capacity, refusals⟩ := writer
  simp only at accepted unlimited
  subst accepted unlimited
  simp [putLine, put, send_unlimited, flush, linesOf, lineWidth]

theorem lineWidth_pos (writer : Writer) : 0 < writer.lineWidth := by
  simp only [lineWidth, defaultWidth]
  split <;> omega

theorem putLine_eq {writer : Writer} (clear : writer.Clear) {store : Store} {value : Value}
    (nonempty : store.pieces writer.blankNil value ≠ [])
    (solid : ∀ piece ∈ store.pieces writer.blankNil value, piece.Solid) :
    ∃ lines, Written lines ((store.pieces writer.blankNil value).flatMap Piece.tokens) ∧
      writer.putLine store value =
        { writer with sink := { writer.sink with
            written := writer.sink.written ++ lines.toArray } } := by
  obtain ⟨width, blankNil, line, failure, sink⟩ := writer
  obtain ⟨rfl, rfl, unlimited⟩ := clear
  simp only at nonempty solid unlimited ⊢
  generalize wide : lineWidth ⟨width, blankNil, "", none, sink⟩ = columns
  have positive : 0 < columns := wide ▸ lineWidth_pos _
  have begun : Layout.Spells {} [] :=
    ⟨⟨[], written_nil, rfl⟩, by simp [LineSource.Plain]⟩
  have spells := begun.foldl severed_nil positive solid
  have pending : ((store.pieces blankNil value).foldl (Layout.put columns) {}).line ≠ "" := by
    obtain ⟨before, last, split⟩ := (List.eq_nil_or_concat _).resolve_left nonempty
    rw [split, List.concat_eq_append, List.foldl_append]
    exact Layout.line_put_ne _ _ _
  simp only [putLine, put, wide, send_unlimited unlimited, flush]
  generalize (store.pieces blankNil value).foldl (Layout.put columns) {} = layout at *
  obtain ⟨done, written, all⟩ := spells.tokens
  rw [List.nil_append] at all
  refine ⟨layout.lines.reverse ++ [layout.line.push '\n'], ?_, ?_⟩
  · rw [← all]
    exact written.append (written_line pending spells.plain)
  · have still : Sink.capacity { sink with
        written := sink.written ++ layout.lines.reverse.toArray } = none := unlimited
    rw [send_unlimited still]
    simp

def sent (writer : Writer) (lines : List String) (line : String) : Writer :=
  { writer with
    line := line
    failure := (send writer.failure writer.sink lines).1
    sink := (send writer.failure writer.sink lines).2 }

theorem put_eq_sent (writer : Writer) (store : Store) (value : Value) :
    writer.put store value =
      let layout := (store.pieces writer.blankNil value).foldl (Layout.put writer.lineWidth)
        { line := writer.line }
      writer.sent layout.lines.reverse layout.line :=
  rfl

theorem flush_eq_sent (writer : Writer) :
    writer.flush = writer.sent [writer.line.push '\n'] "" :=
  rfl

theorem send_append (failure : Option String) (sink : Sink) (lines more : List String) :
    send failure sink (lines ++ more) =
      send (send failure sink lines).1 (send failure sink lines).2 more := by
  induction lines generalizing failure sink with
  | nil => rfl
  | cons line rest ih =>
      cases failure with
      | none => exact ih _ _
      | some problem => cases more <;> rfl

inductive Request where
  | put (store : Store) (value : Value)
  | putLine (store : Store) (value : Value)
  | flush
  | setWidth (width : Int)
  | setBlankNil (blankNil : Bool)

def obey (writer : Writer) : Request → Writer
  | .put store value => writer.put store value
  | .putLine store value => writer.putLine store value
  | .flush => writer.flush
  | .setWidth width => { writer with width := width }
  | .setBlankNil blankNil => { writer with blankNil := blankNil }

def obeyAll (writer : Writer) (requests : List Request) : Writer :=
  requests.foldl obey writer

end Writer

end SecdMachine
