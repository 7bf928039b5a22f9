import SecdMachine.Proofs.CycleMarks
import SecdMachine.Proofs.Grammar

/-!
Writing NIL as a blank. An element that is printed so leaves no token, so what is read back has lost
it, and a list that has lost all its elements is read as the empty one. Such a list is printed with
its parentheses and stays where it was, although the symbol it is read as is the one that was lost.
-/

namespace SecdMachine

namespace Datum

inductive Nested : Datum → Prop
  | integer (number : Int64) : Nested (.integer number)
  | symbol {name : String} (single : SingleToken name) : Nested (.symbol name)
  | list {elements : List Datum} (inside : ∀ element ∈ elements, Nested element) :
      Nested (ofList elements)

/-- The tree without the elements of its lists that are NIL. A list that loses all of its elements
stays as the empty list. -/
def pruned : Datum → Datum
  | pair first second => if first = nil then second.pruned else pair first.pruned second.pruned
  | atom => atom

def shows (datum : Datum) : Bool :=
  datum ≠ nil

def blankedTokens (datum : Datum) : List Token :=
  (datum.tree.pieces true).flatMap Piece.tokens

theorem pruned_ofList (elements : List Datum) :
    (ofList elements).pruned = ofList ((elements.filter shows).map pruned) := by
  induction elements with
  | nil => rfl
  | cons element rest ih =>
      change (pair element (ofList rest)).pruned = _
      by_cases blank : element = nil
      · simpa [pruned, shows, blank] using ih
      · simpa [pruned, shows, blank, ofList] using ih

theorem blankedTokens_nil : nil.blankedTokens = [] := by
  decide

theorem tailPieces_ofList (elements : List Datum) : (ofList elements).tree.tailPieces true =
    elements.flatMap (·.tree.pieces true) ++ [.word ")"] := by
  induction elements with
  | nil => rfl
  | cons element rest ih =>
      change (pair element (ofList rest)).tree.tailPieces true = _
      rw [tree, Tree.tailPieces, ih, List.flatMap_cons, List.append_assoc]

theorem pieces_ofList {elements : List Datum} (some : elements ≠ []) :
    (ofList elements).tree.pieces true =
      .mark '(' :: .mark ' ' :: (elements.flatMap (·.tree.pieces true) ++ [.word ")"]) := by
  obtain ⟨element, rest, rfl⟩ := List.exists_cons_of_ne_nil some
  change (pair element (ofList rest)).tree.pieces true = _
  rw [tree, Tree.pieces, tailPieces_ofList, List.flatMap_cons, List.append_assoc]

theorem flatMap_blankedTokens (elements : List Datum) :
    elements.flatMap blankedTokens = (elements.filter shows).flatMap blankedTokens := by
  induction elements with
  | nil => rfl
  | cons element rest ih =>
      by_cases blank : element = nil
      · simp [shows, blank, blankedTokens_nil, ih]
      · simp [shows, blank, ih]

theorem blankedTokens_ofList {elements : List Datum} (some : elements ≠ []) :
    (ofList elements).blankedTokens =
      .delimiter '(' :: (elements.filter shows).flatMap blankedTokens ++ [.delimiter ')'] := by
  have opening : SecdMachine.tokens ['('] = [.delimiter '('] := by decide
  have blank : SecdMachine.tokens [' '] = [] := by decide
  have closing : SecdMachine.tokens [')'] = [.delimiter ')'] := by decide
  rw [← flatMap_blankedTokens, blankedTokens, pieces_ofList some]
  simp [Piece.tokens, opening, blank, closing, List.flatMap_assoc]
  rfl

theorem Nested.solid {datum : Datum} (nested : datum.Nested) :
    ∀ piece ∈ datum.tree.pieces true, piece.Solid := by
  induction nested with
  | integer number => 
      simpa [tree, Tree.pieces, Tree.atomPiece, Store.atomPiece] using integer_solid number
  | @symbol name single =>
      by_cases blank : name = "NIL"
      · simp [tree, Tree.pieces, Tree.atomPiece, Store.atomPiece, blank, Piece.Solid]
      · simpa [tree, Tree.pieces, Tree.atomPiece, Store.atomPiece, blank] using single.solid
  | @list elements _ ih =>
      by_cases some : elements = []
      · subst some
        simp [ofList, nil, tree, Tree.pieces, Tree.atomPiece, Store.atomPiece, Piece.Solid]
      · rw [pieces_ofList some]
        have closing : (Piece.word ")").Solid := solid_of_toList rfl rfl
        simp only [List.mem_cons, List.mem_append, List.mem_flatMap, List.not_mem_nil, or_false]
        rintro piece (rfl | rfl | ⟨element, member, inside⟩ | rfl)
        · exact Or.inr rfl
        · exact Or.inl rfl
        · exact ih element member piece inside
        · exact closing

end Datum

namespace Progress

theorem fills_of_passes {form : Datum → List Token} {result : Datum → Datum} {elements : List Datum}
    (some : elements ≠ [])
    (passes : ∀ element ∈ elements, Passes (form element) (result element)) :
    Fills (elements.flatMap form) (elements.map result) := by
  induction elements using List.reverseRecOn with
  | nil => exact absurd rfl some
  | append_singleton earlier last ih =>
      have ends := passes last (by simp)
      rw [List.flatMap_append, List.map_append, List.flatMap_singleton, List.map_singleton]
      by_cases none : earlier = []
      · subst none
        exact ends.one
      · exact (ih none fun element member =>
          passes element (List.mem_append_left _ member)).more ends

/-- The tokens of a tree other than NIL take the reader past the pruned tree. A list is read as the
list of those elements that show, and without any of them as the empty list. -/
theorem passes_blankedTokens {datum : Datum} (nested : datum.Nested) (shows : datum ≠ Datum.nil) :
    Passes datum.blankedTokens datum.pruned := by
  induction nested with
  | integer number =>
      obtain ⟨token, alone, spells⟩ := integer_tokens number
      have single : (Datum.integer number).blankedTokens = [token] := by
        simpa [Datum.blankedTokens, Datum.tree, Tree.pieces, Tree.atomPiece, Store.atomPiece,
          Piece.tokens] using alone
      rw [single]
      exact passes_of_spells spells
  | @symbol name named =>
      obtain ⟨token, alone, spells⟩ := named.tokens
      have other : name ≠ "NIL" := by
        rintro rfl
        exact shows rfl
      have single : (Datum.symbol name).blankedTokens = [token] := by
        simpa [Datum.blankedTokens, Datum.tree, Tree.pieces, Tree.atomPiece, Store.atomPiece,
          Piece.tokens, other] using alone
      rw [single]
      exact passes_of_spells spells
  | @list elements _ ih =>
      have some : elements ≠ [] := by
        rintro rfl
        exact shows rfl
      rw [Datum.blankedTokens_ofList some, Datum.pruned_ofList]
      -- An element that is NIL adds no token; one that has lost its own elements adds two.
      by_cases none : elements.filter Datum.shows = []
      · rw [none]
        exact passes_empty
      · refine (fills_of_passes none ?_).list
        intro element member
        obtain ⟨inside, shown⟩ := List.mem_filter.mp member
        exact ih element inside (by simpa [Datum.shows] using shown)

end Progress

theorem readTokens_blankedTokens {datum : Datum} (nested : datum.Nested) (shows : datum ≠ Datum.nil)
    (rest : List Token) : readTokens (datum.blankedTokens ++ rest) = (.ok datum.pruned, rest) := by
  have passes := Progress.passes_blankedTokens nested shows
  refine passes.readTokens_append ?_ rest
  intro none
  have fed := passes Progress.start [] [] (Progress.awaits_expecting [])
  rw [none] at fed
  cases fed

theorem Writer.putLine_blanked {store : Store} {value : Value} {datum : Datum}
    (denotes : store.Denotes value datum) (nested : datum.Nested) (width : Int) :
    ∃ lines, Written lines datum.blankedTokens ∧
      (({ width := width } : Writer).putLine store value).sink.text = String.join lines := by
  have pieces := denotes.unfolds.pieces_eq true
  have some : datum.tree.pieces true ≠ [] := by
    cases datum <;> simp [Datum.tree, Tree.pieces]
  obtain ⟨lines, written, final⟩ := @Writer.putLine_eq { width := width } ⟨rfl, rfl, rfl⟩ store value
    (pieces ▸ some) (fun piece member => nested.solid piece (pieces ▸ member))
  refine ⟨lines, ?_, by simp [final, Sink.text]⟩
  rw [pieces] at written
  exact written

/-- A tree of lists other than NIL that is written with blanks for NIL, whatever the width, is read
back without the elements that are NIL, at every level: as the one expression of a text, or of a
stream of lines. -/
theorem blanks_drop_nil_elements :
    (∀ elements, (Datum.ofList elements).pruned =
      Datum.ofList ((elements.filter (· ≠ Datum.nil)).map Datum.pruned)) ∧
    ∀ (store : Store) (value : Value) (datum : Datum) (width : Int), store.Denotes value datum →
      datum.Nested → datum ≠ Datum.nil →
      let text := (({ width := width } : Writer).putLine store value).sink.text
      readText text.toList = .ok datum.pruned ∧
      (∀ prompt, Reader.Yields { prompt := prompt } (.ofText text.toList) [datum.pruned]
        .endOfInput) ∧
      ∀ prompt policy prompts, policy ≠ .check → prompts.capacity = none →
        Reader.Yields { prompt := prompt } (.ofStream (Text.encode text) policy prompts)
          [datum.pruned] .endOfInput := by
  refine ⟨Datum.pruned_ofList, ?_⟩
  intro store value datum width denotes nested shows text
  obtain ⟨lines, written, output⟩ := Writer.putLine_blanked denotes nested width
  have reads := readTokens_blankedTokens nested shows
  have yields : ∀ {reader source}, Reader.Ahead reader source datum.blankedTokens →
      Reader.Yields reader source [datum.pruned] .endOfInput := by
    intro reader source ahead
    refine @Reader.Ahead.yields (fun _ => datum.blankedTokens) _ ?_ _ _ (by simpa using ahead)
    intro other member rest
    rw [List.mem_singleton.mp member]
    exact reads rest
  have ahead : ∀ prompt, Reader.Ahead { prompt := prompt } (.ofText text.toList)
      datum.blankedTokens := by
    intro prompt
    rw [← written.tokens_join, ← output]
    exact LineSource.ahead_ofText prompt _
  refine ⟨?_, fun prompt => yields (ahead prompt), ?_⟩
  · have outcome := (ahead defaultPrompt).read.1
    rw [← List.append_nil datum.blankedTokens, reads] at outcome
    exact outcome
  · intro prompt policy prompts unchecked unlimited
    apply yields
    rw [show text = String.join lines from output]
    exact LineSource.ahead_ofStream written prompt unchecked unlimited

def nestedStore : Store :=
  ⟨#[⟨.nil, .nil⟩, ⟨.symbol "b", .pair 0⟩, ⟨.pair 1, .nil⟩, ⟨.nil, .pair 2⟩,
    ⟨.symbol "a", .pair 3⟩, ⟨.pair 0, .pair 4⟩]⟩

theorem emptied_list_stays :
    readText (({ width := 1 } : Writer).putLine nestedStore (.pair 5)).sink.text.toList =
      .ok (.ofList [.nil, .symbol "a", .ofList [.symbol "b"]]) := by
  have none : SingleToken "NIL" := Or.inl ⟨'N', ['I', 'L'], rfl, by decide, by simp; decide⟩
  have one : ∀ char, Text.isLetter char = true → SingleToken (String.ofList [char]) :=
    fun char letter => Or.inl ⟨char, [], by simp, letter, by simp⟩
  have blank : (Datum.ofList [.nil]).Nested := .list (by simpa using .symbol none)
  have inner : (Datum.ofList [.symbol "b", .nil]).Nested :=
    .list (by simpa using ⟨.symbol (one 'b' (by decide)), .symbol none⟩)
  have nested : (Datum.ofList [.ofList [.nil], .symbol "a", .nil, .ofList [.symbol "b", .nil]]).Nested :=
    .list (by simpa using ⟨blank, .symbol (one 'a' (by decide)), .symbol none, inner⟩)
  have nothing : nestedStore.Denotes (.pair 0) (.ofList [.nil]) := .pair rfl (.symbol _) (.symbol _)
  have denotes : nestedStore.Denotes (.pair 5)
      (.ofList [.ofList [.nil], .symbol "a", .nil, .ofList [.symbol "b", .nil]]) :=
    .pair rfl nothing (.pair rfl (.symbol _) (.pair rfl (.symbol _)
      (.pair rfl (.pair rfl (.symbol _) nothing) (.symbol _))))
  exact (blanks_drop_nil_elements.2 nestedStore (.pair 5) _ 1 denotes nested (by decide)).1

end SecdMachine
