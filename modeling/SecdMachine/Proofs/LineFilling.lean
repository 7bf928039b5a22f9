import SecdMachine.Proofs.CycleMarks
import SecdMachine.Proofs.FailingSinks

/-!
Where lines are broken. A page divides what has been written into the items that may not be broken,
tokens and single characters, and says of each line whether it was full or was ended on request.
Leaving out the line breaks of full lines gives back what was to be written, item by item; no full
line is empty, and a line is longer than the width only if it is a single token that is.
-/

namespace SecdMachine

inductive Item where
  | token (text : String)
  | single (char : Char)
  deriving DecidableEq, Repr

namespace Item

def text : Item → String
  | token name => name
  | single char => char.toString

def join (items : List Item) : String :=
  String.join (items.map text)

theorem join_append (items more : List Item) : join (items ++ more) = join items ++ join more := by
  simp [join]

theorem join_singleton (item : Item) : join [item] = item.text := by
  simp [join]

def size (items : List Item) : Nat :=
  (join items).utf8ByteSize

@[simp] theorem size_append (items more : List Item) :
    size (items ++ more) = size items + size more := by
  rw [size, join_append, String.utf8ByteSize_append]
  rfl

@[simp] theorem size_token (text : String) : size [.token text] = text.utf8ByteSize := by
  rw [size, join_singleton]
  rfl

theorem join_eq_empty_iff (items : List Item) : join items = "" ↔ size items = 0 := by
  simp [size]

end Item

/-- The items of a piece. A line may end between a word and the blank after it. -/
def Piece.items : Piece → List Item
  | word text => [.token text, .single ' ']
  | mark char => [.single char]

def Piece.Usual : Piece → Prop
  | word _ => True
  | mark char => char = ' ' ∨ char = '('

namespace Piece

@[simp] theorem usual_word (text : String) : (word text).Usual := trivial

@[simp] theorem usual_blank : (mark ' ').Usual := Or.inl rfl

@[simp] theorem usual_opening : (mark '(').Usual := Or.inr rfl

end Piece

inductive Stroke where
  | item (item : Item)
  | lineEnd
  deriving DecidableEq, Repr

namespace Stroke

def text : Stroke → String
  | item part => part.text
  | lineEnd => "\n"

def size (strokes : List Stroke) : Nat :=
  (String.join (strokes.map text)).utf8ByteSize

theorem size_append (strokes more : List Stroke) :
    size (strokes ++ more) = size strokes + size more := by
  simp [size]

theorem join_items (items : List Item) :
    String.join ((items.map item).map text) = Item.join items := by
  rw [List.map_map]
  rfl

theorem size_items (items : List Item) : size (items.map item) = Item.size items := by
  rw [size, join_items]
  rfl

end Stroke

structure Line where
  items : List Item
  wrapped : Bool
  deriving DecidableEq, Repr

namespace Line

def text (line : Line) : String :=
  (Item.join line.items).push '\n'

def strokes (line : Line) : List Stroke :=
  line.items.map .item ++ if line.wrapped then [] else [.lineEnd]

theorem text_of_ended {line : Line} (ended : line.wrapped = false) :
    line.text = String.join (line.strokes.map Stroke.text) := by
  rw [strokes, ended, List.map_append, String.join_append, Stroke.join_items]
  simp [text, Stroke.text, String.push_eq_append]

end Line

def Fits (width : Nat) (items : List Item) : Prop :=
  Item.size items ≤ width ∨ ∃ text, items = [.token text] ∧ width < text.utf8ByteSize

structure Page where
  lines : List Line := []
  pending : List Item := []
  deriving DecidableEq, Repr

namespace Page

def strokes (page : Page) : List Stroke :=
  page.lines.flatMap Line.strokes ++ page.pending.map .item

def layout (page : Page) : Layout where
  lines := (page.lines.map Line.text).reverse
  line := Item.join page.pending

def place (page : Page) (full : Bool) (item : Item) : Page :=
  if full then ⟨page.lines ++ [⟨page.pending, true⟩], [item]⟩
  else ⟨page.lines, page.pending ++ [item]⟩

def putChar (width : Nat) (page : Page) (char : Char) : Page :=
  page.place (width ≤ Item.size page.pending) (.single char)

def putWord (width : Nat) (page : Page) (text : String) : Page :=
  (page.place (0 < Item.size page.pending && width < Item.size page.pending + text.utf8ByteSize)
    (.token text)).putChar width ' '

def put (width : Nat) (page : Page) : Piece → Page
  | .word text => page.putWord width text
  | .mark char => page.putChar width char

def ended (page : Page) : Page :=
  ⟨page.lines ++ [⟨page.pending, false⟩], []⟩

def after (lines : List Line) (page : Page) : Page :=
  ⟨lines ++ page.lines, page.pending⟩

variable {page : Page} {width : Nat}

theorem put_after (lines : List Line) (page : Page) (width : Nat) (piece : Piece) :
    (page.after lines).put width piece = (page.put width piece).after lines := by
  have placed : ∀ (page : Page) full item,
      (page.after lines).place full item = (page.place full item).after lines := by
    intro page full item
    cases full <;> simp [place, after]
  cases piece with
  | mark char => exact placed page _ _
  | word text => exact (congrArg (putChar width · ' ') (placed page _ _)).trans (placed _ _ _)

theorem foldl_after (lines : List Line) (page : Page) (width : Nat) (pieces : List Piece) :
    pieces.foldl (put width) (page.after lines) = (pieces.foldl (put width) page).after lines :=
  List.foldl_hom (after lines) fun page piece => put_after lines page width piece

theorem layout_place (page : Page) (full : Bool) (item : Item) :
    (page.place full item).layout =
      let layout := if full then page.layout.endLine else page.layout
      { layout with line := layout.line ++ item.text } := by
  cases full <;>
    simp [place, layout, Layout.endLine, Line.text, Item.join_append, Item.join_singleton]

theorem layout_putChar (page : Page) (width : Nat) (char : Char) :
    (page.putChar width char).layout = page.layout.putChar width char := by
  have added : ∀ line : String, line ++ char.toString = line.push char := by
    intro line
    simp
  simp only [putChar, layout_place, Layout.putChar, Item.text, decide_eq_true_eq, added]
  rfl

/-- A page is broken where the layout of its text is. -/
theorem layout_put (page : Page) (width : Nat) (piece : Piece) :
    (page.put width piece).layout = page.layout.put width piece := by
  cases piece with
  | mark char => exact layout_putChar page width char
  | word text =>
      simp only [put, putWord, layout_putChar, layout_place, Layout.put, Layout.putWord, Item.text]
      rfl

theorem layout_foldl (page : Page) (width : Nat) (pieces : List Piece) :
    (pieces.foldl (put width) page).layout = pieces.foldl (Layout.put width) page.layout := by
  induction pieces generalizing page with
  | nil => rfl
  | cons piece rest ih => rw [List.foldl_cons, List.foldl_cons, ih, layout_put]

theorem strokes_place (page : Page) (full : Bool) (item : Item) :
    (page.place full item).strokes = page.strokes ++ [.item item] := by
  cases full <;> simp [place, strokes, Line.strokes]

theorem strokes_put (page : Page) (width : Nat) (piece : Piece) :
    (page.put width piece).strokes = page.strokes ++ piece.items.map .item := by
  cases piece <;> simp [put, putWord, putChar, strokes_place, Piece.items]

theorem strokes_foldl (page : Page) (width : Nat) (pieces : List Piece) :
    (pieces.foldl (put width) page).strokes =
      page.strokes ++ (pieces.flatMap Piece.items).map .item := by
  induction pieces generalizing page with
  | nil => simp
  | cons piece rest ih => simp [ih, strokes_put]

def Filled (page : Page) : Prop :=
  ∀ line ∈ page.lines, line.wrapped = true → 0 < Item.size line.items

theorem filled_blank : Filled {} := by
  simp [Filled]

theorem Filled.place (filled : page.Filled) {full : Bool}
    (some : full = true → 0 < Item.size page.pending) (item : Item) :
    (page.place full item).Filled := by
  cases full with
  | false => exact filled
  | true =>
      intro line member wrapped
      rcases List.mem_append.mp member with earlier | last
      · exact filled line earlier wrapped
      · rw [List.mem_singleton.mp last]
        exact some rfl

theorem Filled.putChar (filled : page.Filled) (positive : 0 < width) (char : Char) :
    (page.putChar width char).Filled :=
  filled.place (fun full => Nat.lt_of_lt_of_le positive (of_decide_eq_true full)) _

theorem Filled.put (filled : page.Filled) (positive : 0 < width) (piece : Piece) :
    (page.put width piece).Filled := by
  cases piece with
  | mark char => exact filled.putChar positive char
  | word text =>
      refine (filled.place ?_ _).putChar positive ' '
      intro full
      simp only [Bool.and_eq_true, decide_eq_true_eq] at full
      exact full.1

/-- Every line fits, and so does the line in progress. That one is empty only if nothing stands on
it. -/
structure Within (width : Nat) (page : Page) : Prop where
  lines : ∀ line ∈ page.lines, Fits width line.items
  pending : Item.size page.pending ≤ width
  nonempty : page.pending ≠ [] → 0 < Item.size page.pending

theorem within_blank (width : Nat) : Within width {} :=
  ⟨by simp, Nat.zero_le _, fun some => absurd rfl some⟩

theorem fits_place (fits : ∀ line ∈ page.lines, Fits width line.items) {full : Bool}
    (last : full = true → Fits width page.pending) (item : Item) :
    ∀ line ∈ (page.place full item).lines, Fits width line.items := by
  cases full with
  | false => exact fits
  | true =>
      intro line member
      rcases List.mem_append.mp member with earlier | new
      · exact fits line earlier
      · rw [List.mem_singleton.mp new]
        exact last rfl

theorem size_single {char : Char} (usual : char = ' ' ∨ char = '(') :
    Item.size [.single char] = 1 := by
  rcases usual with rfl | rfl <;> rfl

theorem within_putChar (lines : ∀ line ∈ page.lines, Fits width line.items)
    (pending : Fits width page.pending) (positive : 0 < width) {char : Char}
    (usual : char = ' ' ∨ char = '(') : (page.putChar width char).Within width := by
  refine ⟨fits_place lines (fun _ => pending) _, ?_, ?_⟩
  · simp only [putChar, place]
    split
    next => rw [size_single usual]; omega
    next room =>
      simp only [decide_eq_true_eq] at room
      rw [Item.size_append, size_single usual]
      omega
  · intro _
    simp only [putChar, place]
    split
    · rw [size_single usual]; omega
    · rw [Item.size_append, size_single usual]; omega

theorem fits_token (width : Nat) (text : String) : Fits width [.token text] := by
  rcases Nat.lt_or_ge width text.utf8ByteSize with long | short
  · exact Or.inr ⟨text, rfl, long⟩
  · exact Or.inl (by rwa [Item.size_token])

theorem Within.put (within : page.Within width) (positive : 0 < width) {piece : Piece}
    (usual : piece.Usual) : (page.put width piece).Within width := by
  cases piece with
  | mark char => exact within_putChar within.lines (Or.inl within.pending) positive usual
  | word text =>
      refine within_putChar (fits_place within.lines (fun _ => Or.inl within.pending) _) ?_ positive
        (Or.inl rfl)
      simp only [place]
      split
      next => exact fits_token width text
      next room =>
        -- No break before the token: there is nothing on the line yet, or the token fits.
        simp only [Bool.and_eq_true, decide_eq_true_eq, not_and_or, Nat.not_lt] at room
        rcases room with blank | enough
        · have none : page.pending = [] := by
            by_contra some
            exact absurd (within.nonempty some) (Nat.not_lt.mpr blank)
          rw [none]
          exact fits_token width text
        · exact Or.inl (by rwa [Item.size_append, Item.size_token])

theorem getLast?_put (page : Page) (width : Nat) (piece : Piece) :
    (page.put width piece).pending.getLast? = piece.items.getLast? := by
  have placed : ∀ (page : Page) (full : Bool) (item : Item),
      (page.place full item).pending.getLast? = some item := by
    intro page full item
    cases full <;> simp [place]
  cases piece with
  | mark char => exact placed _ _ _
  | word text => exact placed _ _ _

theorem Filled.foldl (filled : page.Filled) (positive : 0 < width) (pieces : List Piece) :
    (pieces.foldl (Page.put width) page).Filled :=
  List.foldlRecOn pieces _ filled fun _ filled piece _ => filled.put positive piece

theorem Within.foldl (within : page.Within width) (positive : 0 < width) {pieces : List Piece}
    (usual : ∀ piece ∈ pieces, piece.Usual) : (pieces.foldl (Page.put width) page).Within width :=
  List.foldlRecOn pieces _ within fun _ within piece member =>
    within.put positive (usual piece member)

theorem place_of_room (page : Page) (item : Item) :
    page.place false item = ⟨page.lines, page.pending ++ [item]⟩ :=
  rfl

theorem putChar_of_room {char : Char} (room : Item.size page.pending < width) :
    page.putChar width char = ⟨page.lines, page.pending ++ [.single char]⟩ := by
  rw [putChar, decide_eq_false (Nat.not_le.mpr room), place_of_room]

theorem size_single_pos (char : Char) : 0 < Item.size [.single char] := by
  rw [Item.size, Item.join_singleton, Item.text]
  simpa using char.utf8Size_pos

theorem put_of_room {piece : Piece}
    (room : Item.size page.pending + Item.size piece.items ≤ width) :
    page.put width piece = ⟨page.lines, page.pending ++ piece.items⟩ := by
  cases piece with
  | mark char =>
      have some := size_single_pos char
      exact putChar_of_room (by simp only [Piece.items] at room; omega)
  | word text =>
      have some := size_single_pos ' '
      have split : Piece.items (.word text) = [.token text] ++ [.single ' '] := rfl
      rw [split, Item.size_append, Item.size_token] at room
      have stays : (decide (0 < Item.size page.pending) &&
          decide (width < Item.size page.pending + text.utf8ByteSize)) = false := by
        have fits : ¬width < Item.size page.pending + text.utf8ByteSize := by omega
        rw [decide_eq_false fits, Bool.and_false]
      rw [put, putWord, stays, place_of_room, putChar_of_room]
      · simp [Piece.items]
      · rw [Item.size_append, Item.size_token]
        omega

theorem foldl_of_room {pieces : List Piece}
    (room : Item.size page.pending + Item.size (pieces.flatMap Piece.items) ≤ width) :
    pieces.foldl (Page.put width) page =
      ⟨page.lines, page.pending ++ pieces.flatMap Piece.items⟩ := by
  induction pieces generalizing page with
  | nil => simp
  | cons piece rest ih =>
      rw [List.flatMap_cons, Item.size_append] at room
      rw [List.foldl_cons, put_of_room (by omega), ih, List.flatMap_cons, List.append_assoc]
      simp only [Item.size_append]
      omega

theorem strokes_ended (page : Page) : page.ended.strokes = page.strokes ++ [.lineEnd] := by
  simp [ended, strokes, Line.strokes]

theorem forall_ended {holds : Line → Prop} (lines : ∀ line ∈ page.lines, holds line)
    (last : holds ⟨page.pending, false⟩) : ∀ line ∈ page.ended.lines, holds line := by
  intro line member
  rcases List.mem_append.mp member with earlier | new
  · exact lines line earlier
  · rw [List.mem_singleton.mp new]
    exact last

theorem Filled.ended (filled : page.Filled) : page.ended.Filled :=
  forall_ended filled (fun wrapped => absurd wrapped Bool.false_ne_true)

theorem Within.ended (within : page.Within width) : page.ended.Within width :=
  ⟨forall_ended within.lines (Or.inl within.pending), Nat.zero_le _, fun some => absurd rfl some⟩

def Unbroken (page : Page) : Prop :=
  ∀ line ∈ page.lines, line.wrapped = false

theorem unbroken_blank : Unbroken {} := by
  simp [Unbroken]

theorem Unbroken.ended (unbroken : page.Unbroken) : page.ended.Unbroken :=
  forall_ended unbroken rfl

theorem size_pending_le (page : Page) : Item.size page.pending ≤ Stroke.size page.strokes := by
  rw [strokes, Stroke.size_append, Stroke.size_items]
  omega

theorem Unbroken.text (unbroken : page.Unbroken) :
    String.join (page.lines.map Line.text) ++ Item.join page.pending =
      String.join (page.strokes.map Stroke.text) := by
  obtain ⟨lines, pending⟩ := page
  rw [strokes, List.map_append, String.join_append, Stroke.join_items]
  congr 1
  induction lines with
  | nil => rfl
  | cons line rest ih =>
      obtain ⟨ended, others⟩ := List.forall_mem_cons.mp unbroken
      rw [List.map_cons, List.flatMap_cons, List.map_append, String.join_append, ← ih others,
        ← Line.text_of_ended ended, String.join_cons]

end Page

namespace Store

variable {store : Store} {blankNil : Bool}

theorem atomPiece_cases (blankNil : Bool) (value : Value) :
    (∃ text, atomPiece blankNil value = .word text) ∨ atomPiece blankNil value = .mark ' ' := by
  cases value with
  | symbol name =>
      simp only [atomPiece]
      split
      · exact Or.inr rfl
      · exact Or.inl ⟨name, rfl⟩
  | integer number => exact Or.inl ⟨_, rfl⟩
  | absent | empty | pair _ => exact Or.inr rfl

theorem usual_atomPiece (blankNil : Bool) (value : Value) : (atomPiece blankNil value).Usual := by
  rcases atomPiece_cases blankNil value with ⟨text, same⟩ | same
  · simp [same]
  · simp [same]

mutual

theorem Prints.usual {path value shown after} :
    Prints store blankNil path value shown after → ∀ part ∈ shown, part.printed.Usual
  | .atom _ => by simp [Shown.printed, usual_atomPiece]
  | .again _ _ => by simp [Shown.printed]
  | .list _ _ walks => by
      have inner := walks.usual
      simpa [Shown.printed] using inner

theorem Walks.usual {path value visited shown after} :
    Walks store blankNil path value visited shown after → ∀ part ∈ shown, part.printed.Usual
  | .closed _ => by simp [Shown.printed]
  | .dotted _ _ => by simp [Shown.printed, usual_atomPiece]
  | .again _ _ => by simp [Shown.printed]
  | .next _ _ element rest => by
      have first := element.usual
      have others := rest.usual
      intro part member
      rcases List.mem_append.mp member with inside | inside
      · exact first part inside
      · exact others part inside

end

theorem usual_pieces (store : Store) (blankNil : Bool) (value : Value) :
    ∀ piece ∈ store.pieces blankNil value, piece.Usual := by
  obtain ⟨shown, prints⟩ := store.exists_prints blankNil ∅ value
  rw [prints.pieces_eq, List.forall_mem_map]
  exact prints.usual

theorem Walks.closes {path value visited shown after} :
    Walks store blankNil path value visited shown after →
      ∃ inner, shown = inner ++ [.piece (.word ")")]
  | .closed _ => ⟨[], rfl⟩
  | .dotted _ _ => ⟨[_, _], rfl⟩
  | .again _ _ => ⟨[_, _], rfl⟩
  | .next _ _ _ rest => by
      obtain ⟨inner, closed⟩ := rest.closes
      exact ⟨_ ++ inner, by rw [closed, List.append_assoc]⟩

theorem Prints.ends_blank {path value shown after} :
    Prints store blankNil path value shown after →
      ∃ before last, shown = before ++ [last] ∧ last.printed.items.getLast? = some (.single ' ')
  | .atom _ => by
      refine ⟨[], _, rfl, ?_⟩
      rcases atomPiece_cases blankNil value with ⟨text, same⟩ | same
      · simp [Shown.printed, same, Piece.items]
      · simp [Shown.printed, same, Piece.items]
  | .again _ _ => ⟨[], _, rfl, rfl⟩
  | .list _ _ walks => by
      obtain ⟨inner, closed⟩ := walks.closes
      rw [closed]
      exact ⟨_ :: _ :: inner, _, rfl, rfl⟩

theorem pieces_end_blank (store : Store) (blankNil : Bool) (value : Value) :
    ∃ before last, store.pieces blankNil value = before ++ [last] ∧
      last.items.getLast? = some (.single ' ') := by
  obtain ⟨shown, prints⟩ := store.exists_prints blankNil ∅ value
  obtain ⟨before, last, rfl, blank⟩ := prints.ends_blank
  exact ⟨before.map Shown.printed, last.printed, by rw [prints.pieces_eq, List.map_append]; rfl,
    blank⟩

end Store

namespace Writer

def Request.strokes (blankNil : Bool) : Request → List Stroke
  | put store value => ((store.pieces blankNil value).flatMap Piece.items).map .item
  | putLine store value =>
      ((store.pieces blankNil value).flatMap Piece.items).map .item ++ [.lineEnd]
  | flush => [.lineEnd]
  | setWidth _ | setBlankNil _ => []

def Request.setsWidth : Request → Bool
  | setWidth _ => true
  | _ => false

def unwrapped : Bool → List Request → List Stroke
  | _, [] => []
  | _, .setBlankNil blankNil :: rest => unwrapped blankNil rest
  | blankNil, request :: rest => request.strokes blankNil ++ unwrapped blankNil rest

def laid (writer : Writer) (page : Page) : Request → Page
  | .put store value => (store.pieces writer.blankNil value).foldl (Page.put writer.lineWidth) page
  | .putLine store value =>
      ((store.pieces writer.blankNil value).foldl (Page.put writer.lineWidth) page).ended
  | .flush => page.ended
  | .setWidth _ | .setBlankNil _ => page

def laidAll (writer : Writer) (page : Page) : List Request → Page
  | [] => page
  | request :: rest => (writer.obey request).laidAll (writer.laid page request) rest

section

variable {writer : Writer} {page : Page} {start : Sink}

structure Shows (writer : Writer) (start : Sink) (page : Page) : Prop where
  free : writer.Free
  sink : writer.sink = start.append (page.lines.map Line.text)
  line : writer.line = Item.join page.pending

theorem Clear.shows (clear : writer.Clear) : writer.Shows writer.sink {} :=
  ⟨⟨clear.accepted, clear.unlimited⟩, by simp [Sink.append], clear.line⟩

theorem Shows.put (shows : writer.Shows start page) (store : Store) (value : Value) :
    (writer.put store value).Shows start (writer.laid page (.put store value)) := by
  have same := Page.layout_foldl { pending := page.pending } writer.lineWidth
    (store.pieces writer.blankNil value)
  have begun : Page.layout { pending := page.pending } = { line := writer.line } := by
    rw [shows.line]
    rfl
  have after := Page.foldl_after page.lines { pending := page.pending } writer.lineWidth
    (store.pieces writer.blankNil value)
  have whole : Page.after page.lines { pending := page.pending } = page := by
    simp [Page.after]
  rw [begun] at same
  rw [whole] at after
  rw [put_eq_sent, ← same, shows.free.sent, laid, after]
  refine ⟨⟨shows.free.accepted, shows.free.unlimited⟩, ?_, rfl⟩
  simp [Page.layout, Page.after, shows.sink, Sink.append]

theorem Shows.flush (shows : writer.Shows start page) : writer.flush.Shows start page.ended := by
  rw [flush_eq_sent, shows.free.sent]
  refine ⟨⟨shows.free.accepted, shows.free.unlimited⟩, ?_, rfl⟩
  simp [Page.ended, Line.text, shows.sink, shows.line, Sink.append]

/-- The page shows what a writer does over a sink that takes everything. -/
theorem Shows.obey (shows : writer.Shows start page) (request : Request) :
    (writer.obey request).Shows start (writer.laid page request) := by
  cases request with
  | put store value => exact shows.put store value
  | putLine store value => exact (shows.put store value).flush
  | flush => exact shows.flush
  | setWidth | setBlankNil =>
      exact ⟨⟨shows.free.accepted, shows.free.unlimited⟩, shows.sink, shows.line⟩

theorem strokes_laid (writer : Writer) (page : Page) (request : Request) :
    (writer.laid page request).strokes = page.strokes ++ request.strokes writer.blankNil := by
  cases request with
  | put store value => exact Page.strokes_foldl _ _ _
  | putLine store value =>
      rw [laid, Page.strokes_ended, Page.strokes_foldl, List.append_assoc]
      rfl
  | flush => exact Page.strokes_ended page
  | setWidth | setBlankNil => exact (List.append_nil _).symm

theorem filled_laid (writer : Writer) (filled : page.Filled) (request : Request) :
    (writer.laid page request).Filled := by
  have put := fun (store : Store) (value : Value) =>
    filled.foldl writer.lineWidth_pos (store.pieces writer.blankNil value)
  cases request with
  | put store value => exact put store value
  | putLine store value => exact (put store value).ended
  | flush => exact filled.ended
  | setWidth | setBlankNil => exact filled

theorem within_laid (writer : Writer) (within : page.Within writer.lineWidth) (request : Request) :
    (writer.laid page request).Within writer.lineWidth := by
  have put := fun (store : Store) (value : Value) =>
    within.foldl writer.lineWidth_pos (store.usual_pieces writer.blankNil value)
  cases request with
  | put store value => exact put store value
  | putLine store value => exact (put store value).ended
  | flush => exact within.ended
  | setWidth | setBlankNil => exact within

theorem unbroken_laid (writer : Writer) (unbroken : page.Unbroken) (request : Request)
    (room : Item.size page.pending + Stroke.size (request.strokes writer.blankNil) ≤
      writer.lineWidth) : (writer.laid page request).Unbroken := by
  cases request with
  | put store value =>
      simp only [Request.strokes, Stroke.size_items] at room
      rw [laid, Page.foldl_of_room room]
      exact unbroken
  | putLine store value =>
      simp only [Request.strokes, Stroke.size_append, Stroke.size_items] at room
      rw [laid, Page.foldl_of_room (by omega)]
      exact Page.Unbroken.ended unbroken
  | flush => exact unbroken.ended
  | setWidth | setBlankNil => exact unbroken

theorem laidAll_of_laid {kept : Writer → Page → Prop} {requests : List Request}
    (step : ∀ writer page, ∀ request ∈ requests, kept writer page →
      kept (writer.obey request) (writer.laid page request)) (before : kept writer page) :
    kept (writer.obeyAll requests) (writer.laidAll page requests) := by
  induction requests generalizing writer page with
  | nil => exact before
  | cons request rest ih =>
      refine ih ?_ (step writer page request List.mem_cons_self before)
      exact fun writer page other member => step writer page other (List.mem_cons_of_mem _ member)

theorem Shows.obeyAll (shows : writer.Shows start page) (requests : List Request) :
    (writer.obeyAll requests).Shows start (writer.laidAll page requests) :=
  @laidAll_of_laid writer page (fun writer page => writer.Shows start page) requests
    (fun _ _ request _ shows => shows.obey request) shows

theorem filled_laidAll (writer : Writer) (filled : page.Filled) (requests : List Request) :
    (writer.laidAll page requests).Filled :=
  @laidAll_of_laid writer page (fun _ page => page.Filled) requests
    (fun writer _ request _ filled => writer.filled_laid filled request) filled

theorem width_obey (writer : Writer) {request : Request} (fixed : request.setsWidth = false) :
    (writer.obey request).width = writer.width := by
  cases request with
  | setWidth width => cases fixed
  | put | putLine | flush | setBlankNil => rfl

theorem lineWidth_obey (writer : Writer) {request : Request} (fixed : request.setsWidth = false) :
    (writer.obey request).lineWidth = writer.lineWidth := by
  rw [lineWidth, width_obey writer fixed]
  rfl

theorem within_laidAll (writer : Writer) (within : page.Within writer.lineWidth)
    {requests : List Request} (fixed : ∀ request ∈ requests, request.setsWidth = false) :
    (writer.laidAll page requests).Within writer.lineWidth := by
  refine (@laidAll_of_laid writer page (fun later page => later.lineWidth = writer.lineWidth ∧
    page.Within writer.lineWidth) requests ?_ ⟨rfl, within⟩).2
  rintro later page request member ⟨same, within⟩
  rw [← same] at within ⊢
  exact ⟨later.lineWidth_obey (fixed request member), later.within_laid within request⟩

theorem unwrapped_cons (writer : Writer) (request : Request) (rest : List Request) :
    unwrapped writer.blankNil (request :: rest) =
      request.strokes writer.blankNil ++ unwrapped (writer.obey request).blankNil rest := by
  cases request <;> rfl

theorem unwrapped_filter (blankNil : Bool) (requests : List Request) :
    unwrapped blankNil (requests.filter (!·.setsWidth)) = unwrapped blankNil requests := by
  induction requests generalizing blankNil with
  | nil => rfl
  | cons request rest ih =>
      cases request with
      | setWidth => exact ih blankNil
      | setBlankNil blank => exact ih blank
      | put | putLine | flush => exact congrArg (_ ++ ·) (ih blankNil)

theorem strokes_laidAll (writer : Writer) (page : Page) (requests : List Request) :
    (writer.laidAll page requests).strokes =
      page.strokes ++ unwrapped writer.blankNil requests := by
  induction requests generalizing writer page with
  | nil => simp [laidAll, unwrapped]
  | cons request rest ih => rw [laidAll, ih, strokes_laid, unwrapped_cons, List.append_assoc]

theorem unbroken_laidAll (writer : Writer) (unbroken : page.Unbroken) {requests : List Request}
    (fixed : ∀ request ∈ requests, request.setsWidth = false)
    (room : Stroke.size (page.strokes ++ unwrapped writer.blankNil requests) ≤ writer.lineWidth) :
    (writer.laidAll page requests).Unbroken := by
  induction requests generalizing writer page with
  | nil => exact unbroken
  | cons request rest ih =>
      have same := writer.lineWidth_obey (fixed request List.mem_cons_self)
      rw [unwrapped_cons, ← List.append_assoc] at room
      refine ih _ (writer.unbroken_laid unbroken request ?_)
        (fun other member => fixed other (List.mem_cons_of_mem _ member)) ?_
      · have pending := page.size_pending_le
        simp only [Stroke.size_append] at room
        omega
      · rwa [strokes_laid, same]

/-- Over requests at a width with room for everything, what is written is what they ask for. -/
theorem text_of_room (clear : writer.Clear) {requests : List Request}
    (fixed : ∀ request ∈ requests, request.setsWidth = false)
    (room : Stroke.size (unwrapped writer.blankNil requests) ≤ writer.lineWidth) :
    ∃ lines : List String,
      (writer.obeyAll requests).sink = writer.sink.append lines ∧
      String.join lines ++ (writer.obeyAll requests).line =
        String.join ((unwrapped writer.blankNil requests).map Stroke.text) := by
  have shows := clear.shows.obeyAll requests
  have unbroken := writer.unbroken_laidAll Page.unbroken_blank fixed room
  refine ⟨_, shows.sink, ?_⟩
  rw [shows.line, unbroken.text, strokes_laidAll]
  rfl

theorem putLine_ends_blank (free : writer.Free) (store : Store) (value : Value) :
    ∃ lines body, (writer.putLine store value).sink =
      writer.sink.append (lines ++ [body ++ " \n"]) := by
  -- Whatever is on the line may pass for a single token.
  have shows : writer.Shows writer.sink { pending := [.token writer.line] } :=
    ⟨free, by simp [Sink.append], (Item.join_singleton (.token writer.line)).symm⟩
  have sink := (shows.obey (.putLine store value)).sink
  obtain ⟨before, last, pieces, blank⟩ := store.pieces_end_blank writer.blankNil value
  simp only [laid, pieces, List.foldl_append, List.foldl_cons, List.foldl_nil] at sink
  generalize before.foldl (Page.put writer.lineWidth) { pending := [.token writer.line] } = page
    at sink
  rw [← page.getLast?_put writer.lineWidth] at blank
  generalize page.put writer.lineWidth last = page at blank sink
  obtain ⟨items, pending⟩ := List.getLast?_eq_some_iff.mp blank
  have ended : Line.text ⟨page.pending, false⟩ = Item.join items ++ " \n" := by
    simp [Line.text, pending, Item.join_append, Item.join_singleton, Item.text,
      ← String.toList_inj]
  refine ⟨page.lines.map Line.text, Item.join items, sink.trans ?_⟩
  rw [Page.ended, List.map_append, List.map_singleton, ended]

end

/-- Whatever is asked of a writer, what it writes and the line in progress are the tokens and blanks
that were asked for, in their order, with nothing but line breaks added, and none of these inside a
token. At a width with room for everything no other breaks are made than those asked for. A line
that is broken is not empty, and at a fixed width every line fits or is a single token that does
not. A value that ends its line leaves its blank on it. -/
theorem wrapping_changes_only_the_layout (writer : Writer) (clear : writer.Clear)
    (requests : List Request) :
    let asked := unwrapped writer.blankNil requests
    ∃ page : Page,
      (writer.obeyAll requests).sink.written =
        writer.sink.written ++ (page.lines.map Line.text).toArray ∧
      (writer.obeyAll requests).line = Item.join page.pending ∧
      page.strokes = asked ∧
      (∀ width : Nat, Stroke.size asked ≤ width →
        let plain := obeyAll { writer with width := width } (requests.filter (!·.setsWidth))
        ∃ lines, plain.sink.written = writer.sink.written ++ lines.toArray ∧
          String.join lines ++ plain.line = String.join (asked.map Stroke.text)) ∧
      (∀ line ∈ page.lines, line.wrapped = true → Item.join line.items ≠ "") ∧
      ((∀ request ∈ requests, request.setsWidth = false) →
        ∀ line ∈ page.lines, Fits writer.lineWidth line.items) ∧
      ∀ earlier store value later, requests = earlier ++ .putLine store value :: later →
        ∃ lines body, ((writer.obeyAll earlier).putLine store value).sink.written =
          (writer.obeyAll earlier).sink.written ++ (lines ++ [body ++ " \n"]).toArray := by
  intro asked
  have shows := clear.shows.obeyAll requests
  refine ⟨_, congrArg Sink.written shows.sink, shows.line, strokes_laidAll writer {} requests,
    ?_, ?_, ?_, ?_⟩
  · intro width room plain
    have wide : Stroke.size asked ≤ lineWidth { writer with width := width } := by
      simp only [lineWidth]
      split <;> omega
    have fixed : ∀ request ∈ requests.filter (!·.setsWidth), request.setsWidth = false := by
      simp
    have same := unwrapped_filter writer.blankNil requests
    obtain ⟨lines, sink, text⟩ := @text_of_room { writer with width := width }
      ⟨clear.line, clear.accepted, clear.unlimited⟩ _ fixed (by rwa [same])
    exact ⟨lines, congrArg Sink.written sink, text.trans (by rw [same])⟩
  · intro line member wrapped empty
    have filled := writer.filled_laidAll Page.filled_blank requests line member wrapped
    exact absurd ((Item.join_eq_empty_iff _).mp empty) (Nat.ne_of_gt filled)
  · intro fixed
    exact (writer.within_laidAll (Page.within_blank _) fixed).lines
  · rintro earlier store value later -
    obtain ⟨lines, body, sink⟩ :=
      putLine_ends_blank (clear.shows.obeyAll earlier).free store value
    exact ⟨lines, body, congrArg Sink.written sink⟩

theorem long_token_stands_alone :
    let writer : Writer := { width := 3 }
    let requests : List Request := [.put {} (.symbol "long"), .putLine {} (.symbol "a"), .flush]
    writer.Clear ∧
    (writer.obeyAll requests).sink.written = #["long\n", " a \n", "\n"] ∧
    (obeyAll { width := 9 } requests).sink.written = #["long a \n", "\n"] ∧
    ∃ page : Page, page.strokes = unwrapped true requests ∧
      page.lines.map Line.text = ["long\n", " a \n", "\n"] ∧
      ∀ line ∈ page.lines, Fits 3 line.items := by
  intro writer requests
  have clear : writer.Clear := ⟨rfl, rfl, rfl⟩
  have whole : (writer.obeyAll requests).sink.written = #["long\n", " a \n", "\n"] := by
    decide +kernel
  refine ⟨clear, whole, by decide +kernel, ?_⟩
  obtain ⟨page, written, _, strokes, _, _, fits, _⟩ :=
    wrapping_changes_only_the_layout writer clear requests
  refine ⟨page, strokes, ?_, fits (by decide)⟩
  simpa [writer] using written.symm.trans whole

end Writer

end SecdMachine
