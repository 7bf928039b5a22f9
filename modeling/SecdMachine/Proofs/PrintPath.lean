import SecdMachine.Printer
import SecdMachine.Proofs.CycleMarks
import SecdMachine.Proofs.Wrapping

/-!
What the printer does as it goes along. It writes the pieces that are shown, one after the other, and
a value that is printed with an empty path leaves the writer as `Writer.put` does. Printing ends, and
the path is then what it was before.
-/

namespace SecdMachine

namespace Layout

variable {layout : Layout} {width : Nat}

theorem put_of_fits {piece : Piece}
    (fits : layout.line.utf8ByteSize + piece.text.utf8ByteSize ≤ width) :
    layout.put width piece = { layout with line := layout.line ++ piece.text } := by
  cases piece with
  | word text =>
      have room : layout.line.utf8ByteSize + text.utf8ByteSize < width := by
        have blank := Char.utf8Size_pos ' '
        simp [Piece.text] at fits
        omega
      have unfilled : ¬width < layout.line.utf8ByteSize + text.utf8ByteSize := by omega
      have roomy : ¬width ≤ layout.line.utf8ByteSize + text.utf8ByteSize := by omega
      simp [Layout.put, putWord, putChar, Piece.text, unfilled, roomy, ← String.toList_inj]
  | mark char =>
      have room : ¬width ≤ layout.line.utf8ByteSize := by
        have positive := Char.utf8Size_pos char
        simp [Piece.text] at fits
        omega
      simp [Layout.put, putChar, Piece.text, room]

theorem foldl_put_of_fits {pieces : List Piece}
    (fits : layout.line.utf8ByteSize +
      (String.join (pieces.map Piece.text)).utf8ByteSize ≤ width) :
    pieces.foldl (Layout.put width) layout =
      { layout with line := layout.line ++ String.join (pieces.map Piece.text) } := by
  induction pieces generalizing layout with
  | nil => simp
  | cons piece rest ih =>
      simp at fits
      rw [List.foldl_cons, put_of_fits (by omega), ih (by simp; omega)]
      simp [String.append_assoc]

end Layout

namespace Writer

variable (writer : Writer)

theorem endLine_sent (lines : List String) (line : String) :
    (writer.sent lines line).endLine = writer.sent (lines ++ [line.push '\n']) "" := by
  simp only [sent, send_append]
  generalize send writer.failure writer.sink lines = sent
  obtain ⟨failure, sink⟩ := sent
  cases failure <;> rfl

theorem addChar_sent (layout : Layout) (char : Char) :
    (writer.sent layout.lines.reverse layout.line).addChar char =
      writer.sent (layout.putChar writer.lineWidth char).lines.reverse
        (layout.putChar writer.lineWidth char).line := by
  have width : (writer.sent layout.lines.reverse layout.line).lineWidth = writer.lineWidth := rfl
  have line : (writer.sent layout.lines.reverse layout.line).line = layout.line := rfl
  simp only [addChar, Layout.putChar, width, line]
  split
  · rw [endLine_sent]
    simp [sent, Layout.endLine]
  · rfl

theorem add_sent (layout : Layout) (piece : Piece) :
    (writer.sent layout.lines.reverse layout.line).add piece =
      writer.sent (layout.put writer.lineWidth piece).lines.reverse
        (layout.put writer.lineWidth piece).line := by
  cases piece with
  | mark char => exact writer.addChar_sent layout char
  | word text =>
      have width : (writer.sent layout.lines.reverse layout.line).lineWidth = writer.lineWidth := rfl
      have line : (writer.sent layout.lines.reverse layout.line).line = layout.line := rfl
      simp only [add, addWord, Layout.put, Layout.putWord, width, line]
      split
      · rw [endLine_sent]
        rw [← List.reverse_cons]
        exact writer.addChar_sent { layout.endLine with line := "" ++ text } ' '
      · exact writer.addChar_sent { layout with line := layout.line ++ text } ' '

theorem foldl_add_sent (pieces : List Piece) (layout : Layout) :
    pieces.foldl add (writer.sent layout.lines.reverse layout.line) =
      writer.sent (pieces.foldl (Layout.put writer.lineWidth) layout).lines.reverse
        (pieces.foldl (Layout.put writer.lineWidth) layout).line := by
  induction pieces generalizing layout with
  | nil => rfl
  | cons piece rest ih => rw [List.foldl_cons, add_sent, ih, List.foldl_cons]

/-- Sending the lines once they are all known is sending each as soon as it is full. -/
theorem put_eq_foldl_add (store : Store) (value : Value) :
    writer.put store value = (store.pieces writer.blankNil value).foldl add writer := by
  have added := writer.foldl_add_sent (store.pieces writer.blankNil value) { line := writer.line }
  rw [put_eq_sent]
  exact added.symm

theorem flush_eq_endLine : writer.flush = writer.endLine := by
  rw [flush_eq_sent]
  exact (writer.endLine_sent [] writer.line).symm

theorem blankNil_foldl_add (pieces : List Piece) :
    (pieces.foldl add writer).blankNil = writer.blankNil := by
  have added := congrArg blankNil (writer.foldl_add_sent pieces { line := writer.line })
  exact added

end Writer

namespace Printer

def showing (printer : Printer) (shown : List Shown) : Printer :=
  { printer with writer := (shown.map Shown.printed).foldl Writer.add printer.writer }

variable {printer : Printer}

theorem blankNil_showing (shown : List Shown) :
    (printer.showing shown).writer.blankNil = printer.writer.blankNil :=
  printer.writer.blankNil_foldl_add _

theorem put_of_noCell {store : Store} {value : Value} (noCell : store.cell? value = none)
    (fuel : Nat) :
    printer.put store (fuel + 1) value =
      some (printer.showing [.piece (Store.atomPiece printer.writer.blankNil value)]) := by
  simp [put, noCell, showing, add, Shown.printed]

theorem put_of_walk {store : Store} {fuel : Nat} {address : Address} {cell : Cell} {rest : Value}
    {visited : List Address} {walked closing : Printer}
    (found : store.cell? (.pair address) = some cell) (off : address ∉ printer.path)
    (walks : walk store fuel ((printer.add (.mark '(')).add (.mark ' ')) (.pair address) [] =
      some (visited, rest, walked))
    (closes : (if rest.isNil then some walked else put store fuel (walked.add (.word ".")) rest) =
      some closing) :
    printer.put store (fuel + 1) (.pair address) =
      some ((closing.add (.word ")")).leave visited) := by
  simp only [put, found, List.contains_eq_mem, off, decide_false, Bool.false_eq_true, if_false, walks,
    Option.bind_eq_bind, Option.bind_some]
  split at closes
  next nil =>
    cases closes
    rw [if_pos nil]
    rfl
  next unended =>
    rw [if_neg unended, closes]
    rfl

theorem foldl_filter_ne (visited path : List Address) :
    visited.foldl (fun path address => path.filter (· ≠ address)) path =
      path.filter (· ∉ visited) := by
  induction visited generalizing path with
  | nil => simp
  | cons address rest ih =>
      rw [List.foldl_cons, ih, List.filter_filter]
      apply List.filter_congr
      intro other _
      simp [List.mem_cons, not_or, Bool.and_comm]

/-- Taking off the pairs that were put on leaves the path as it was, if they were new to it. -/
theorem leave_eq {visited path : List Address} (new : Disjoint path.toFinset visited.toFinset)
    (writer : Writer) : leave ⟨writer, visited.reverse ++ path⟩ visited = ⟨writer, path⟩ := by
  have apart : ∀ address ∈ path, address ∉ visited := by
    intro address member visitedToo
    exact Finset.disjoint_left.mp new (List.mem_toFinset.mpr member)
      (List.mem_toFinset.mpr visitedToo)
  simp only [leave, foldl_filter_ne, List.filter_append]
  rw [List.filter_eq_nil_iff.mpr (by simp), List.filter_eq_self.mpr (by simpa using apart),
    List.nil_append]

end Printer

namespace Store

variable {store : Store} {blankNil : Bool}

mutual

/-- Whoever has fuel enough prints what is shown, and has the path back. -/
theorem Prints.put_eq {path value shown after} :
    Prints store blankNil path value shown after → ∀ printer : Printer,
      printer.path.toFinset = path → printer.writer.blankNil = blankNil →
      ∃ enough, ∀ fuel, enough ≤ fuel →
        printer.put store fuel value = some (printer.showing shown)
  | .atom noCell, printer, _, blank => by
      refine ⟨1, fun fuel enough => ?_⟩
      obtain ⟨fuel, rfl⟩ := Nat.exists_eq_add_of_le' enough
      rw [Printer.put_of_noCell noCell, blank]
  | .again found on, printer, same, _ => by
      refine ⟨1, fun fuel enough => ?_⟩
      obtain ⟨fuel, rfl⟩ := Nat.exists_eq_add_of_le' enough
      rw [← same, List.mem_toFinset] at on
      simp [Printer.put, found, on, Printer.showing, Printer.add, Shown.printed]
  | @Prints.list _ _ _ _ _ visited _ _ found off walks, printer, same, blank => by
      obtain ⟨_, new⟩ := walks.path_eq
      rw [← same] at off new
      obtain ⟨rest, part, enough, ended, walked⟩ := walks.walk_eq
        ((printer.add (.mark '(')).add (.mark ' ')) same
        ((printer.blankNil_showing [.piece (.mark '('), .piece (.mark ' ')]).trans blank)
      refine ⟨enough + 2, fun fuel more => ?_⟩
      obtain ⟨fuel, rfl⟩ := Nat.exists_eq_add_of_le' (show 2 ≤ fuel by omega)
      rw [List.mem_toFinset] at off
      have arrives := walked (fuel + 1) [] (by omega)
      rw [List.nil_append] at arrives
      rcases ended with ⟨nil, rfl⟩ | ⟨unended, noCell, rfl⟩
      · rw [Printer.put_of_walk found off arrives (if_pos nil)]
        simp only [Printer.add, Printer.showing, Printer.leave_eq new]
        simp [Shown.printed]
      · have still := (printer.blankNil_showing (.piece (.mark '(') :: .piece (.mark ' ') ::
          (part ++ [.piece (.word ".")]))).trans blank
        rw [Printer.put_of_walk found off arrives
          ((if_neg (by simp [unended])).trans (Printer.put_of_noCell noCell fuel))]
        simp only [Printer.add, Printer.showing, Printer.leave_eq new]
        simp only [Printer.showing, Shown.printed, List.map_cons, List.map_append, List.map_nil,
          List.foldl_cons, List.foldl_append, List.foldl_nil] at still ⊢
        rw [still]

theorem Walks.walk_eq {path value visited shown after} :
    Walks store blankNil path value visited shown after → ∀ printer : Printer,
      printer.path.toFinset = path → printer.writer.blankNil = blankNil →
      ∃ rest part enough,
        (rest.isNil = true ∧ shown = part ++ [.piece (.word ")")] ∨
          rest.isNil = false ∧ store.cell? rest = none ∧ shown = part ++
            [.piece (.word "."), .piece (atomPiece blankNil rest), .piece (.word ")")]) ∧
        ∀ fuel before, enough ≤ fuel → printer.walk store fuel value before =
          some (before ++ visited, rest,
            { printer.showing part with path := visited.reverse ++ printer.path })
  | .closed ended, printer, _, _ => by
      refine ⟨_, [], 1, Or.inl ⟨ended, rfl⟩, fun fuel before enough => ?_⟩
      obtain ⟨fuel, rfl⟩ := Nat.exists_eq_add_of_le' enough
      simp only [Value.isNil, decide_eq_true_eq] at ended
      subst ended
      simp [Printer.walk, Value.nil, Printer.showing]
  | .dotted noCell unended, printer, _, _ => by
      refine ⟨_, [], 1, Or.inr ⟨unended, noCell, rfl⟩, fun fuel before enough => ?_⟩
      obtain ⟨fuel, rfl⟩ := Nat.exists_eq_add_of_le' enough
      simp [Printer.walk, noCell, Printer.showing]
  | .again found on, printer, same, _ => by
      refine ⟨.nil, [.piece (.word "."), .cycle _], 1, Or.inl ⟨rfl, rfl⟩,
        fun fuel before enough => ?_⟩
      obtain ⟨fuel, rfl⟩ := Nat.exists_eq_add_of_le' enough
      rw [← same, List.mem_toFinset] at on
      simp [Printer.walk, found, on, Printer.showing, Printer.add, Shown.printed]
  | @Walks.next _ _ _ address cell first _ visited _ _ found off element rest, printer, same,
      blank => by
      obtain ⟨fuelFirst, put⟩ := element.put_eq (printer.enter address)
        (by simp [Printer.enter, same]) blank
      obtain ⟨final, part, fuelRest, ended, walked⟩ := rest.walk_eq
        ((printer.enter address).showing first)
        (by simp [Printer.showing, Printer.enter, same, element.path_eq])
        ((Printer.blankNil_showing first).trans blank)
      refine ⟨final, first ++ part, max fuelFirst fuelRest + 1, ?_, fun fuel before enough => ?_⟩
      · simpa using ended
      · obtain ⟨fuel, rfl⟩ := Nat.exists_eq_add_of_le' (Nat.one_le_of_lt enough)
        rw [← same, List.mem_toFinset] at off
        simp only [Printer.walk, found, List.contains_eq_mem, off, decide_false, Bool.false_eq_true,
          if_false, put fuel (by omega), Option.bind_eq_bind, Option.bind_some,
          walked fuel _ (by omega)]
        simp [Printer.showing, Printer.enter]

end

/-- Printing ends for every store and every value, whatever is on the path, and leaves the path as it
was; what is written is what is shown, piece by piece, and nothing else can be shown. A mark stands
only for a pair that leads back to itself, so there is none in a value without cycles; and there is
one in every value that leads to a cycle. Writing, writing a line and formatting a value are
printing it with an empty path, the last on a line without end. Values that unfold to the same tree
print the same, however much they share. -/
theorem printing_ends_and_marks_cycles (store : Store) (value : Value) :
    (∀ printer : Printer, ∃ shown enough,
      let blankNil := printer.writer.blankNil
      let path := printer.path.toFinset
      Prints store blankNil path value shown path ∧
      (∀ other after, Prints store blankNil path value other after →
        other = shown ∧ after = path) ∧
      ∀ fuel, enough ≤ fuel → printer.put store fuel value = some { printer with
        writer := (shown.map Shown.printed).foldl Writer.add printer.writer }) ∧
    (∀ blankNil, ∃ shown, Prints store blankNil ∅ value shown ∅ ∧
      (∀ address, .cycle address ∈ shown → store.OnCycle address) ∧
      ((∃ address, .cycle address ∈ shown) ↔
        ∃ address, store.Reaches value address ∧ store.OnCycle address) ∧
      ∀ writer : Writer, writer.blankNil = blankNil →
        let printed := (shown.map Shown.printed).foldl Writer.add writer
        writer.put store value = printed ∧ writer.putLine store value = printed.endLine ∧
        (blankNil = false → writer.line = "" →
          (String.join (shown.map fun part => part.printed.text)).utf8ByteSize ≤ writer.lineWidth →
          store.format value =
            String.ofList (printed.line.toList.reverse.dropWhile (· = ' ')).reverse)) ∧
    ∀ other like tree, store.Unfolds value tree → Unfolds other like tree →
      store.format value = other.format like ∧
      ∀ writer : Writer, writer.put store value = writer.put other like ∧
        writer.putLine store value = writer.putLine other like := by
  refine ⟨?_, ?_, ?_⟩
  · intro printer
    obtain ⟨shown, prints⟩ :=
      store.exists_prints printer.writer.blankNil printer.path.toFinset value
    obtain ⟨enough, put⟩ := prints.put_eq printer rfl rfl
    exact ⟨shown, enough, prints, fun _ _ also => prints.unique also, put⟩
  · intro blankNil
    obtain ⟨shown, prints⟩ := store.exists_prints blankNil ∅ value
    refine ⟨shown, prints, ?_, prints.exists_cycle_iff, ?_⟩
    · intro address marked
      exact (prints.reaches_of_cycle marked).2.resolve_left (Finset.notMem_empty address)
    · rintro writer rfl printed
      have put : writer.put store value = printed := by
        rw [writer.put_eq_foldl_add, prints.pieces_eq]
      refine ⟨put, by rw [Writer.putLine, put, Writer.flush_eq_endLine], fun named fresh fits => ?_⟩
      have line : printed.line = String.join (shown.map fun part => part.printed.text) := by
        have laid := @Layout.foldl_put_of_fits { line := writer.line } writer.lineWidth
          (shown.map Shown.printed) (by simpa [fresh, Function.comp_def] using fits)
        rw [← put, Writer.put_eq_sent, prints.pieces_eq]
        simp only [Writer.sent]
        rw [laid, fresh, List.map_map]
        exact String.empty_append
      rw [line, format, ← named, prints.pieces_eq, List.map_map]
      rfl
  · intro other like tree unfolds unfoldsAlike
    have same : ∀ blankNil, store.pieces blankNil value = other.pieces blankNil like := by
      intro blankNil
      rw [unfolds.pieces_eq, unfoldsAlike.pieces_eq]
    refine ⟨by rw [format, format, same], ?_⟩
    intro writer
    have put : writer.put store value = writer.put other like := by
      rw [Writer.put, Writer.put, same]
    exact ⟨put, by rw [Writer.putLine, Writer.putLine, put]⟩

theorem knot_is_marked_and_sharing_is_not :
    (∃ shown, Prints knottedStore false ∅ (.pair 0) shown ∅ ∧ ∃ address, .cycle address ∈ shown) ∧
    (∃ tree, knottedStore.Unfolds (.pair 4) tree ∧ knottedStore.Unfolds (.pair 6) tree) ∧
    knottedStore.format (.pair 4) = knottedStore.format (.pair 6) := by
  have back : knottedStore.Reaches (.pair 1) 0 := .first rfl (.second rfl (.here 0))
  obtain ⟨_, knot, _⟩ := printing_ends_and_marks_cycles knottedStore (.pair 0)
  obtain ⟨shown, prints, _, marked, _⟩ := knot false
  have one : ∀ address, knottedStore.cell? (.pair address) = some ⟨.integer 1, .nil⟩ →
      knottedStore.Unfolds (.pair address) (.pair (.integer 1) .nil) :=
    fun _ found => .pair found (.integer 1) (.symbol "NIL")
  have shared : knottedStore.Unfolds (.pair 4) (.pair (.pair (.integer 1) .nil)
      (.pair (.integer 1) .nil)) := .pair rfl (one 3 rfl) (one 3 rfl)
  have apart : knottedStore.Unfolds (.pair 6) (.pair (.pair (.integer 1) .nil)
      (.pair (.integer 1) .nil)) := .pair rfl (one 3 rfl) (one 5 rfl)
  obtain ⟨_, _, same⟩ := printing_ends_and_marks_cycles knottedStore (.pair 4)
  exact ⟨⟨shown, prints, marked.mpr ⟨0, .here 0, _, rfl, Or.inl back⟩⟩, ⟨_, shared, apart⟩,
    (same knottedStore (.pair 6) _ shared apart).1⟩

end Store

end SecdMachine
