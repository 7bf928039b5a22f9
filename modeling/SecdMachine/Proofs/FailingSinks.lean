import SecdMachine.Proofs.Interruption

/-!
Sinks that refuse a write. A writer whose sink refuses its calls from some number on does what it
does over a sink that takes everything, except that the sink keeps only the lines before that
number. Once a line has been refused its error stays and the sink is left alone.
-/

namespace SecdMachine

namespace Sink

variable (sink : Sink) (limit : Nat) (problems : List String)

/-- The error met by now if the sink takes only so many texts and then refuses calls for the given
reasons. -/
def overflow : Option String :=
  if limit < sink.written.size then some (problems.headD refusal) else none

/-- The sink as it would stand had it taken only so many texts and, if there were more, refused one
call. -/
def cut : Sink where
  written := (sink.written.toList.take limit).toArray
  capacity := some limit
  refusals := if limit < sink.written.size then problems.tail else problems

theorem size_append (texts : List String) :
    (sink.append texts).written.size = sink.written.size + texts.length := by
  simp [append]

theorem cut_append (count : Nat) (texts : List String) :
    (sink.append texts).cut (sink.written.size + count) problems =
      { written := sink.written ++ (texts.take count).toArray
        capacity := some (sink.written.size + count)
        refusals := if count < texts.length then problems.tail else problems } := by
  obtain ⟨⟨written⟩, capacity, refusals⟩ := sink
  simp [cut, append, List.take_length_add_append]

theorem overflow_append (count : Nat) (texts : List String) :
    (sink.append texts).overflow (sink.written.size + count) problems =
      if count < texts.length then some (problems.headD refusal) else none := by
  simp [overflow, size_append]

theorem cut_of_room (count : Nat) :
    sink.cut (sink.written.size + count) problems =
      { sink with capacity := some (sink.written.size + count), refusals := problems } := by
  have none : sink.append [] = sink := by simp [append]
  have cut := sink.cut_append problems count []
  rw [none] at cut
  simpa using cut

variable {sink limit}

theorem overflow_of_le (room : sink.written.size ≤ limit) : sink.overflow limit problems = none :=
  if_neg (Nat.not_lt.mpr room)

theorem overflow_of_lt (past : limit < sink.written.size) :
    sink.overflow limit problems = some (problems.headD refusal) :=
  if_pos past

theorem cut_append_of_lt (past : limit < sink.written.size) (texts : List String) :
    (sink.append texts).cut limit problems = sink.cut limit problems := by
  have all : limit ≤ sink.written.toList.length := by simpa using Nat.le_of_lt past
  have longer : limit < sink.written.size + texts.length := by omega
  simp only [cut, size_append, if_pos past, if_pos longer]
  simp [append, List.take_append_of_le_length all]

theorem overflow_append_of_lt (past : limit < sink.written.size) (texts : List String) :
    (sink.append texts).overflow limit problems = sink.overflow limit problems := by
  have longer : limit < sink.written.size + texts.length := by omega
  simp only [overflow, size_append, if_pos past, if_pos longer]

theorem write_cut (room : sink.written.size ≤ limit) (text : String) :
    (sink.cut limit problems).write text =
      ((sink.append [text]).overflow limit problems, (sink.append [text]).cut limit problems) := by
  obtain ⟨⟨texts⟩, capacity, refusals⟩ := sink
  have fits : texts.length ≤ limit := by simpa using room
  have whole : texts.take limit = texts := List.take_of_length_le fits
  by_cases more : texts.length < limit
  · have longer : (texts ++ [text]).take limit = texts ++ [text] := by
      apply List.take_of_length_le
      rw [List.length_append, List.length_singleton]
      omega
    have still : ¬limit < texts.length + 1 := by omega
    simp [cut, overflow, write, accepts, append, whole, longer, more, still, Nat.not_lt.mpr fits]
  · have full : texts.length = limit := by omega
    subst full
    simp [cut, overflow, write, accepts, append]

end Sink

namespace Writer

theorem send_some (problem : String) (sink : Sink) (lines : List String) :
    send (some problem) sink lines = (some problem, sink) := by
  cases lines <;> rfl

/-- Sending lines to a sink that takes only so many: as many of them arrive as there is room for. -/
theorem send_cut (sink : Sink) (limit : Nat) (problems lines : List String) :
    send (sink.overflow limit problems) (sink.cut limit problems) lines =
      ((sink.append lines).overflow limit problems, (sink.append lines).cut limit problems) := by
  induction lines generalizing sink with
  | nil => simp [send, Sink.append]
  | cons line rest ih =>
      by_cases past : limit < sink.written.size
      · rw [Sink.cut_append_of_lt problems past, Sink.overflow_append_of_lt problems past,
          Sink.overflow_of_lt problems past, send_some]
      · have room : sink.written.size ≤ limit := Nat.le_of_not_lt past
        have both : (sink.append [line]).append rest = sink.append (line :: rest) := by
          simp [Sink.append]
        rw [Sink.overflow_of_le problems room, send, Sink.write_cut problems room]
        simp only
        rw [ih, both]

/-- The writer as it would stand over a sink that takes only so many lines. -/
def cut (writer : Writer) (limit : Nat) (problems : List String) : Writer :=
  { writer with
    failure := writer.sink.overflow limit problems
    sink := writer.sink.cut limit problems }

structure Free (writer : Writer) : Prop where
  accepted : writer.failure = none
  unlimited : writer.sink.capacity = none

theorem sent_of_failure {writer : Writer} {problem : String} (failed : writer.failure = some problem)
    (lines : List String) (line : String) : writer.sent lines line = { writer with line := line } := by
  obtain ⟨width, blankNil, pending, failure, sink⟩ := writer
  simp only at failed
  subst failed
  simp [sent, send_some]

variable {writer : Writer}

theorem Free.sent (free : writer.Free) (lines : List String) (line : String) :
    writer.sent lines line = { writer with line := line, sink := writer.sink.append lines } := by
  obtain ⟨width, blankNil, pending, failure, sink⟩ := writer
  obtain ⟨rfl, unlimited⟩ := free
  simp [Writer.sent, send_unlimited unlimited, Sink.append]

theorem Free.sent_cut (free : writer.Free) (limit : Nat) (problems lines : List String)
    (line : String) :
    (writer.cut limit problems).sent lines line = (writer.sent lines line).cut limit problems := by
  rw [free.sent]
  simp [Writer.sent, cut, send_cut]

/-- What sending lines and changing a setting keep, every request keeps. -/
theorem obey_of_sent {kept : Writer → Prop}
    (sent : ∀ {writer : Writer} lines line, kept writer → kept (writer.sent lines line))
    (width : ∀ {writer : Writer} width, kept writer → kept { writer with width := width })
    (blankNil : ∀ {writer : Writer} blankNil, kept writer →
      kept { writer with blankNil := blankNil })
    (before : kept writer) (request : Request) : kept (writer.obey request) := by
  cases request with
  | put store value =>
      rw [obey, put_eq_sent]
      exact sent _ _ before
  | putLine store value =>
      rw [obey, putLine, flush_eq_sent, put_eq_sent]
      exact sent _ _ (sent _ _ before)
  | flush =>
      rw [obey, flush_eq_sent]
      exact sent _ _ before
  | setWidth columns => exact width columns before
  | setBlankNil blank => exact blankNil blank before

theorem Free.obey (free : writer.Free) (request : Request) :
    (writer.obey request).Free ∧
      ∃ lines, (writer.obey request).sink = writer.sink.append lines := by
  refine @obey_of_sent writer (fun later => later.Free ∧ ∃ lines, later.sink =
    writer.sink.append lines) ?_ ?_ ?_ ⟨free, [], by simp [Sink.append]⟩ request
  · rintro later lines line ⟨free, earlier, same⟩
    rw [free.sent]
    refine ⟨⟨free.accepted, free.unlimited⟩, earlier ++ lines, ?_⟩
    simp [same, Sink.append]
  · exact fun _ kept => ⟨⟨kept.1.accepted, kept.1.unlimited⟩, kept.2⟩
  · exact fun _ kept => ⟨⟨kept.1.accepted, kept.1.unlimited⟩, kept.2⟩

theorem Free.obey_cut (free : writer.Free) (limit : Nat) (problems : List String)
    (request : Request) :
    (writer.cut limit problems).obey request = (writer.obey request).cut limit problems := by
  have put : ∀ store value, (writer.cut limit problems).put store value =
      (writer.put store value).cut limit problems := fun _ _ => free.sent_cut limit problems _ _
  cases request with
  | put store value => exact put store value
  | putLine store value =>
      have next := (free.obey (.put store value)).1
      simp only [Writer.obey] at next
      simp only [Writer.obey, putLine, put, flush_eq_sent]
      exact next.sent_cut limit problems _ _
  | flush => exact free.sent_cut limit problems _ _
  | setWidth | setBlankNil => rfl

theorem Free.obeyAll (free : writer.Free) (requests : List Request) :
    (writer.obeyAll requests).Free ∧
      ∃ lines, (writer.obeyAll requests).sink = writer.sink.append lines := by
  induction requests generalizing writer with
  | nil => exact ⟨free, [], by simp [Writer.obeyAll, Sink.append]⟩
  | cons request rest ih =>
      obtain ⟨next, lines, first⟩ := free.obey request
      obtain ⟨last, more, all⟩ := ih next
      refine ⟨last, lines ++ more, all.trans ?_⟩
      simp [first, Sink.append]

theorem Free.obeyAll_cut (free : writer.Free) (limit : Nat) (problems : List String)
    (requests : List Request) :
    (writer.cut limit problems).obeyAll requests =
      (writer.obeyAll requests).cut limit problems := by
  induction requests generalizing writer with
  | nil => rfl
  | cons request rest ih =>
      rw [Writer.obeyAll, List.foldl_cons, free.obey_cut]
      exact ih (free.obey request).1

theorem obey_of_failure {problem : String} (failed : writer.failure = some problem)
    (request : Request) :
    (writer.obey request).failure = some problem ∧ (writer.obey request).sink = writer.sink := by
  refine @obey_of_sent writer
    (fun later => later.failure = some problem ∧ later.sink = writer.sink) ?_ ?_ ?_ ⟨failed, rfl⟩
    request
  · rintro later lines line ⟨failed, same⟩
    rw [sent_of_failure failed]
    exact ⟨failed, same⟩
  · exact fun _ both => both
  · exact fun _ both => both

theorem obeyAll_of_failure {problem : String} (failed : writer.failure = some problem)
    (requests : List Request) :
    (writer.obeyAll requests).failure = some problem ∧
      (writer.obeyAll requests).sink = writer.sink := by
  induction requests generalizing writer with
  | nil => exact ⟨failed, rfl⟩
  | cons request rest ih =>
      obtain ⟨still, same⟩ := obey_of_failure failed request
      obtain ⟨final, kept⟩ := ih still
      exact ⟨final, kept.trans same⟩

end Writer

namespace Registers

variable {store : Store} {sink noted : Sink} {label : String} {value : Value}
  {rest : List (String × Value)}

theorem printLabelled_of_accepted (accepted : sink.write (label.push '\n') = (none, noted)) :
    printLabelled store sink ((label, value) :: rest) =
      match (Writer.putLine { sink := noted } store value).failure with
      | some problem => (some problem, (Writer.putLine { sink := noted } store value).sink)
      | none => printLabelled store (Writer.putLine { sink := noted } store value).sink rest := by
  rw [printLabelled, accepted]
  simp only
  generalize Writer.putLine { sink := noted } store value = writer
  obtain ⟨_, _, _, failure, sink⟩ := writer
  cases failure <;> rfl

theorem putLine_cut {limit : Nat} (problems : List String) (unlimited : sink.capacity = none)
    (room : sink.written.size ≤ limit) :
    Writer.putLine { sink := sink.cut limit problems } store value =
      Writer.cut { sink := sink.append (({} : Writer).linesOf store value) } limit problems := by
  have begun : ({ sink := sink.cut limit problems } : Writer) =
      Writer.cut { sink := sink } limit problems := by
    simp [Writer.cut, Sink.overflow_of_le problems room]
  have free : Writer.Free { sink := sink } := ⟨rfl, unlimited⟩
  have cut := free.obey_cut limit problems (.putLine store value)
  simp only [Writer.obey] at cut
  rw [begun, cut, Writer.putLine_eq_linesOf rfl unlimited]
  rfl

theorem printLabelled_cut (store : Store) (values : List (String × Value)) {limit : Nat}
    (problems : List String) (unlimited : sink.capacity = none)
    (room : sink.written.size ≤ limit) :
    printLabelled store (sink.cut limit problems) values =
      ((sink.append (linesOf store values)).overflow limit problems,
        (sink.append (linesOf store values)).cut limit problems) := by
  induction values generalizing sink with
  | nil => simp [printLabelled, linesOf, Sink.append, Sink.overflow_of_le problems room]
  | cons labelled rest ih =>
      obtain ⟨label, value⟩ := labelled
      have answer := Sink.write_cut problems room (label.push '\n')
      generalize heading : sink.append [label.push '\n'] = noted at answer
      generalize body : noted.append (({} : Writer).linesOf store value) = done
      have all : sink.append (linesOf store ((label, value) :: rest)) =
          done.append (linesOf store rest) := by
        simp [← body, ← heading, linesOf, Sink.append]
      have freely : noted.capacity = none := by rw [← heading]; exact unlimited
      rw [all]
      -- The label is refused, or one of the lines of the value is, or the rest goes on.
      by_cases past : limit < noted.written.size
      · have beyond : limit < done.written.size := by
          rw [← body, Sink.size_append]
          omega
        rw [Sink.overflow_of_lt problems past] at answer
        rw [printLabelled, answer, Sink.cut_append_of_lt problems beyond,
          Sink.overflow_append_of_lt problems beyond, ← body,
          Sink.cut_append_of_lt problems past, Sink.overflow_append_of_lt problems past,
          Sink.overflow_of_lt problems past]
      · have fits : noted.written.size ≤ limit := Nat.le_of_not_lt past
        rw [Sink.overflow_of_le problems fits] at answer
        rw [printLabelled_of_accepted answer, putLine_cut problems freely fits, body]
        simp only [Writer.cut]
        by_cases beyond : limit < done.written.size
        · rw [Sink.cut_append_of_lt problems beyond, Sink.overflow_append_of_lt problems beyond,
            Sink.overflow_of_lt problems beyond]
        · have enough : done.written.size ≤ limit := Nat.le_of_not_lt beyond
          rw [Sink.overflow_of_le problems enough]
          exact ih (by rw [← body]; exact freely) enough

/-- The lines that a value is printed on, each register under its label. -/
theorem linesOf_labelled (registers : Registers) (store : Store) :
    let shown (value : Value) := (Writer.putLine {} store value).sink.written.toList
    linesOf store registers.labelled =
      ["s:\n"] ++ shown registers.stack ++ ["e:\n"] ++ shown registers.environment ++
        ["c:\n"] ++ shown registers.control ++ ["d:\n"] ++ shown registers.dump := by
  have written : ∀ value, (Writer.putLine {} store value).sink.written.toList =
      ({} : Writer).linesOf store value := by
    intro value
    rw [Writer.putLine_eq_linesOf rfl rfl]
    simp
  have named : ("s:".push '\n', "e:".push '\n', "c:".push '\n', "d:".push '\n') =
      ("s:\n", "e:\n", "c:\n", "d:\n") := by decide
  simp only [Prod.mk.injEq] at named
  simp [linesOf, labelled, written, named]

end Registers

namespace Writer

/-- Over a sink that refuses its calls from some number on, each for a reason of its own, the lines
before that number arrive and no others. The requests before the one that makes that call succeed;
it and all later ones fail with the reason for the first refusal, and no sink is asked for anything
any more. Nothing else about the writer is different. Printing registers keeps the same part of its
lines, and stops with the reason for the first refusal. -/
theorem refusal_keeps_a_prefix (writer : Writer) (free : writer.Free) (count : Nat)
    (problems : List String) :
    let limit (sink : Sink) : Sink :=
      { sink with capacity := some (sink.written.size + count), refusals := problems }
    let error (lines : List String) : Option String :=
      if count < lines.length then some (problems.headD Sink.refusal) else none
    let kept (sink : Sink) (lines : List String) : Sink :=
      { written := sink.written ++ (lines.take count).toArray
        capacity := some (sink.written.size + count)
        refusals := if count < lines.length then problems.tail else problems }
    (∀ requests : List Request,
      let full := writer.obeyAll requests
      let limited := obeyAll { writer with sink := limit writer.sink } requests
      ∃ lines : List String,
        full.failure = none ∧
        full.sink.written = writer.sink.written ++ lines.toArray ∧
        limited = { full with failure := error lines, sink := kept writer.sink lines } ∧
        (limited.failure ≠ none → ∀ sink more,
          let later := obeyAll { limited with sink := sink } more
          later.failure = limited.failure ∧ later.sink = sink)) ∧
    ∀ (registers : Registers) (store : Store) (sink : Sink), sink.capacity = none →
      let shown (value : Value) := (putLine {} store value).sink.written.toList
      let lines := ["s:\n"] ++ shown registers.stack ++ ["e:\n"] ++ shown registers.environment ++
        ["c:\n"] ++ shown registers.control ++ ["d:\n"] ++ shown registers.dump
      registers.printTo store sink =
        (none, { sink with written := sink.written ++ lines.toArray }) ∧
      registers.printTo store (limit sink) = (error lines, kept sink lines) := by
  intro limit error kept
  refine ⟨?_, ?_⟩
  · intro requests full limited
    obtain ⟨still, lines, appended⟩ := free.obeyAll requests
    have start : ({ writer with sink := limit writer.sink } : Writer) =
        writer.cut (writer.sink.written.size + count) problems := by
      simp [cut, Sink.cut_of_room, Sink.overflow, limit, free.accepted]
    have cut : limited = full.cut (writer.sink.written.size + count) problems := by
      simp only [limited, start]
      exact free.obeyAll_cut _ problems requests
    refine ⟨lines, still.accepted, by rw [appended]; rfl, ?_, ?_⟩
    · rw [cut, Writer.cut, appended, Sink.cut_append, Sink.overflow_append]
    · intro failed sink more later
      obtain ⟨problem, found⟩ := Option.ne_none_iff_exists'.mp failed
      rw [found]
      exact @obeyAll_of_failure { limited with sink := sink } problem found more
  · intro registers store sink unlimited shown lines
    have all : Registers.linesOf store registers.labelled = lines :=
      registers.linesOf_labelled store
    refine ⟨?_, ?_⟩
    · rw [← all]
      exact Registers.printLabelled_unlimited unlimited store registers.labelled
    · have printed := Registers.printLabelled_cut store registers.labelled problems unlimited
        (Nat.le_add_right sink.written.size count)
      rw [Sink.cut_of_room, Sink.cut_append, Sink.overflow_append, all] at printed
      exact printed

theorem secondLine_is_refused :
    let writer : Writer := { width := 2 }
    let first : Request := .put {} (.symbol "aa")
    let limited : Writer :=
      { width := 2, sink := { capacity := some 1, refusals := ["disk full", "disk gone"] } }
    writer.Free ∧
    (writer.obeyAll [first, .putLine {} (.symbol "bb")]).sink.written =
      #["aa\n", " \n", "bb\n", " \n"] ∧
    (limited.obeyAll [first]).failure = none ∧
    (limited.obeyAll [first, .putLine {} (.symbol "bb")]).failure = some "disk full" ∧
    (limited.obeyAll [first, .putLine {} (.symbol "bb")]).sink =
      { written := #["aa\n"], capacity := some 1, refusals := ["disk gone"] } := by
  intro writer first limited
  have free : writer.Free := ⟨rfl, rfl⟩
  obtain ⟨prefixes, _⟩ := refusal_keeps_a_prefix writer free 1 ["disk full", "disk gone"]
  have short : (writer.obeyAll [first]).sink.written = #["aa\n"] := by decide +kernel
  have whole : (writer.obeyAll [first, .putLine {} (.symbol "bb")]).sink.written =
      #["aa\n", " \n", "bb\n", " \n"] := by decide +kernel
  obtain ⟨one, _, wroteOne, limitedOne, _⟩ := prefixes [first]
  obtain ⟨all, _, wroteAll, limitedAll, _⟩ := prefixes [first, .putLine {} (.symbol "bb")]
  have oneLine : one = ["aa\n"] := by simpa [writer] using (wroteOne.symm.trans short)
  have allLines : all = ["aa\n", " \n", "bb\n", " \n"] := by
    simpa [writer] using (wroteAll.symm.trans whole)
  subst oneLine allLines
  exact ⟨free, whole, congrArg Writer.failure limitedOne, congrArg Writer.failure limitedAll,
    congrArg Writer.sink limitedAll⟩

end Writer

end SecdMachine
