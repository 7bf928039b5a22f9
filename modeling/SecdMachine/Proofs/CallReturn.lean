import SecdMachine.Proofs.Separation

/-!
Calls and branches come back to what they saved. From a fresh machine on, the dump is out of the
program's reach, so the entry that a call or a branch makes lies untouched until the dump is as deep
as before it.
-/

namespace SecdMachine

theorem owned_append (above entries : List Entry) :
    owned (above ++ entries) = owned above ++ owned entries := by
  simp [owned]

theorem Holds.suffix {store : Store} {above entries : List Entry}
    (holds : Holds store (above ++ entries)) : Holds store entries := by
  induction above with
  | nil => exact holds
  | cons top above ih => exact ih holds.tail

theorem Moves.shape {before : Configuration} {opcode : Opcode} {entries after : List Entry}
    (moves : Moves before opcode entries after) :
    after = entries ∨ (∃ top, after = top :: entries) ∨ ∃ top, entries = top :: after := by
  cases moves with
  | ap | rap | sel => exact Or.inr (Or.inl ⟨_, rfl⟩)
  | rtn | join => exact Or.inr (Or.inr ⟨_, rfl⟩)
  | stay => exact Or.inl rfl

namespace Separated

variable {hidden : Address → Prop} {entries : List Entry} {before : Configuration}

theorem depth_eq (separated : Separated hidden entries before) :
    before.depth = entries.length := by
  have counted := separated.holds.length_dumpOf separated.distinct
  rw [← separated.dump] at counted
  exact counted

theorem next (separated : Separated hidden entries before) :
    ∃ hidden after, Separated hidden after before.next ∧
      (after = entries ∨ (∃ top, after = top :: entries) ∨ ∃ top, entries = top :: after) ∧
      ∀ address ∈ owned entries,
        before.next.store.cell? (.pair address) = before.store.cell? (.pair address) := by
  rcases before.step_cases with ⟨_, trace, _, _, _, unchanged⟩ |
    ⟨_, opcode, rest, effect, executes⟩
  · refine ⟨hidden, entries, separated.of_unchanged unchanged, Or.inl rfl, ?_⟩
    rw [unchanged]
    exact fun _ _ => rfl
  · obtain ⟨hidden, after, moved, moves⟩ := separated.step executes
    exact ⟨hidden, after, moved, moves.shape, separated.kept executes⟩

/-- Until the dump is back at the entries below it, an entry stays where it is, and so do its cells
and those of the entries below. -/
theorem remains {top : Entry} (separated : Separated hidden (top :: entries) before) (calls : Nat)
    (away : ∀ earlier, earlier ≤ calls → ∀ hidden,
      ¬Separated hidden entries (before.after earlier)) :
    ∃ hidden above, Separated hidden (above ++ top :: entries) (before.after calls) ∧
      ∀ address ∈ owned (top :: entries),
        (before.after calls).store.cell? (.pair address) = before.store.cell? (.pair address) := by
  induction calls with
  | zero => exact ⟨hidden, [], separated, fun _ _ => rfl⟩
  | succ calls ih =>
      obtain ⟨_, above, held, same⟩ := ih fun earlier bound => away earlier (by omega)
      obtain ⟨hidden, after, moved, shape, kept⟩ := held.next
      have stillSame : ∀ address ∈ owned (top :: entries),
          (before.after (calls + 1)).store.cell? (.pair address) =
            before.store.cell? (.pair address) := by
        intro address member
        rw [← same address member]
        apply kept
        rw [owned_append]
        exact List.mem_append_right _ member
      rcases shape with rfl | ⟨new, rfl⟩ | ⟨taken, split⟩
      · exact ⟨hidden, above, moved, stillSame⟩
      · exact ⟨hidden, new :: above, moved, stillSame⟩
      · cases above with
        | nil =>
            -- The entry itself would have been taken, which `away` rules out.
            simp only [List.nil_append, List.cons.injEq] at split
            obtain ⟨rfl, rfl⟩ := split
            exact absurd moved (away (calls + 1) (Nat.le_refl _) hidden)
        | cons first above =>
            simp only [List.cons_append, List.cons.injEq] at split
            obtain ⟨rfl, rfl⟩ := split
            exact ⟨hidden, above, moved, stillSame⟩

theorem not_of_cons {hiddenBelow : Address → Prop} {top : Entry}
    (separated : Separated hidden (top :: entries) before) :
    ¬Separated hiddenBelow entries before := by
  intro below
  have deeper := separated.depth_eq
  rw [below.depth_eq] at deeper
  simp at deeper

/-- The first instruction that takes the dump back to the entries below takes the entry itself. -/
theorem taken {top : Entry} {opcode : Opcode} {calls : Nat}
    (separated : Separated hidden (top :: entries) before)
    (away : ∀ earlier, earlier ≤ calls → ∀ hidden,
      ¬Separated hidden entries (before.after earlier))
    (completes : (before.after calls).Completes opcode) (pops : opcode = .rtn ∨ opcode = .join)
    (back : (before.after (calls + 1)).depth = entries.length ∨
      (before.after (calls + 1)).registers.dump = dumpOf entries) :
    Moves (before.after calls) opcode (top :: entries) entries ∧
      (before.after (calls + 1)).registers.dump = dumpOf entries := by
  obtain ⟨_, above, held, _⟩ := separated.remains calls away
  obtain ⟨rest, effect, executes⟩ := completes.executes
  obtain ⟨hidden, after, moved, moves⟩ := held.step executes
  obtain ⟨first, split⟩ : ∃ first, above ++ top :: entries = first :: after := by
    rcases pops with rfl | rfl
    · generalize above ++ top :: entries = all at moves
      cases moves with
      | rtn _ _ => exact ⟨_, rfl⟩
      | stay unmoved => simp [Opcode.movesDump] at unmoved
    · generalize above ++ top :: entries = all at moves
      cases moves with
      | join _ => exact ⟨_, rfl⟩
      | stay unmoved => simp [Opcode.movesDump] at unmoved
  cases above with
  | nil =>
      simp only [List.nil_append, List.cons.injEq] at split
      obtain ⟨rfl, rfl⟩ := split
      exact ⟨moves, moved.dump⟩
  | cons other above =>
      -- Then the dump would still be deeper than the entries below.
      simp only [List.cons_append, List.cons.injEq] at split
      obtain ⟨rfl, rfl⟩ := split
      have deep : (before.after (calls + 1)).depth = entries.length := by
        rcases back with depth | dump
        · exact depth
        · have distinct := moved.distinct
          rw [List.append_cons, owned_append] at distinct
          have holds := moved.holds
          rw [List.append_cons] at holds
          have counted := holds.suffix.length_dumpOf (List.nodup_append.mp distinct).2.1
          rw [← dump] at counted
          exact counted
      have counted := moved.depth_eq
      rw [show (before.after calls).next = before.after (calls + 1) from rfl, deep] at counted
      simp at counted
      omega

end Separated

namespace Configuration

theorem separated_start {store : Store} {program arguments : Value} (trace : Option Sink)
    (closed : store.Closed) (programKnown : store.Knows program)
    (argumentsKnown : store.Knows arguments) :
    Separated (fun _ => False) [] (start store program arguments trace) := by
  have grown := store.size_le_cons arguments .nil
  have shown : ∀ {value}, store.Knows value → Exposed (fun _ => False) store value :=
    fun known address same => ⟨known address same, id⟩
  have guarded : Guarded (fun _ => False) store := by
    intro address cell _ found
    exact ⟨shown (closed address cell found).1, shown (closed address cell found).2⟩
  refine ⟨⟨by simp, guarded.cons (shown argumentsKnown) (exposed_symbol "NIL"), ?_,
    exposed_symbol "NIL", (shown programKnown).mono grown⟩, rfl, .empty, by simp [owned],
    by simp [owned], by simp⟩
  exact exposed_size (by simp)

theorem separated_after {configuration : Configuration} {hidden : Address → Prop}
    {entries : List Entry} (separated : Separated hidden entries configuration) (calls : Nat) :
    ∃ hidden entries, Separated hidden entries (configuration.after calls) := by
  induction calls with
  | zero => exact ⟨hidden, entries, separated⟩
  | succ calls ih =>
      obtain ⟨_, _, held⟩ := ih
      obtain ⟨hidden, after, moved, _⟩ := held.next
      exact ⟨hidden, after, moved⟩

def Returns (run : Nat → Configuration) (earlier later : Nat) : Prop :=
  earlier < later ∧ (run (later + 1)).depth = (run earlier).depth ∧
    ∀ between, between < later → earlier < between →
      (run (between + 1)).depth ≠ (run earlier).depth

def BringsBack (run : Nat → Configuration) (earlier later : Nat) : Prop :=
  earlier < later ∧ (run (later + 1)).registers.dump = (run earlier).registers.dump ∧
    ∀ between, between < later → earlier < between →
      (run (between + 1)).registers.dump ≠ (run earlier).registers.dump

def Pending (run : Nat → Configuration) (earlier later : Nat) : Prop :=
  earlier < later ∧ ∀ between, earlier < between → between ≤ later →
    (run between).depth ≠ (run earlier).depth

/-- The instruction executed in `later` returns the value on top of the stack to the very stack, code
and dump that the call executed in `earlier` had, and to the given environment. -/
def ReturnsToCaller (earlier later : Configuration) (environment : Value) : Prop :=
  ∃ closure arguments below stack number rest value under,
    earlier.store.cell? earlier.registers.stack = some ⟨closure, below⟩ ∧
    earlier.store.cell? below = some ⟨arguments, stack⟩ ∧
    earlier.store.cell? earlier.registers.control = some ⟨number, rest⟩ ∧
    later.store.cell? later.registers.stack = some ⟨value, under⟩ ∧
    later.next.store.cell? later.next.registers.stack = some ⟨value, stack⟩ ∧
    later.next.registers.environment = environment ∧
    later.next.registers.control = rest ∧
    later.next.registers.dump = earlier.registers.dump

def RejoinsAfterBranches (earlier later : Configuration) : Prop :=
  ∃ number operands first more second rest,
    earlier.store.cell? earlier.registers.control = some ⟨number, operands⟩ ∧
    earlier.store.cell? operands = some ⟨first, more⟩ ∧
    earlier.store.cell? more = some ⟨second, rest⟩ ∧
    later.next.registers.control = rest ∧
    later.next.registers.dump = earlier.registers.dump

section

variable {configuration : Configuration} {hidden : Address → Prop} {top : Entry}
  {entries : List Entry} {earlier later : Nat}

theorem away_of_depth
    (pushed : Separated hidden (top :: entries) (configuration.after (earlier + 1)))
    (depth : (configuration.after earlier).depth = entries.length) {calls : Nat}
    (deep : ∀ between, between < earlier + 1 + calls → earlier < between →
      (configuration.after (between + 1)).depth ≠ (configuration.after earlier).depth) :
    ∀ passed, passed ≤ calls → ∀ hidden,
      ¬Separated hidden entries ((configuration.after (earlier + 1)).after passed) := by
  intro passed bound hidden below
  cases passed with
  | zero => exact pushed.not_of_cons below
  | succ passed =>
      rw [← after_add] at below
      apply deep (earlier + 1 + passed) (by omega) (by omega)
      rw [depth]
      exact below.depth_eq

theorem away_of_dump
    (pushed : Separated hidden (top :: entries) (configuration.after (earlier + 1)))
    (dump : (configuration.after earlier).registers.dump = dumpOf entries) {calls : Nat}
    (other : ∀ between, between < earlier + 1 + calls → earlier < between →
      (configuration.after (between + 1)).registers.dump ≠
        (configuration.after earlier).registers.dump) :
    ∀ passed, passed ≤ calls → ∀ hidden,
      ¬Separated hidden entries ((configuration.after (earlier + 1)).after passed) := by
  intro passed bound hidden below
  cases passed with
  | zero => exact pushed.not_of_cons below
  | succ passed =>
      rw [← after_add] at below
      apply other (earlier + 1 + passed) (by omega) (by omega)
      rw [dump]
      exact below.dump

theorem returnsToCaller_of_pushed {store : Store} {number closure arguments below stack rest
      environment : Value}
    (code : (configuration.after earlier).store.cell?
      (configuration.after earlier).registers.control = some ⟨number, rest⟩)
    (called : (configuration.after earlier).store.cell?
      (configuration.after earlier).registers.stack = some ⟨closure, below⟩)
    (next : (configuration.after earlier).store.cell? below = some ⟨arguments, stack⟩)
    (separated : Separated hidden entries (configuration.after earlier))
    {hiddenAfter : Address → Prop}
    (pushed : Separated hiddenAfter (callEntry store stack environment rest :: entries)
      (configuration.after (earlier + 1)))
    (returns : Returns configuration.after earlier later)
    (completes : (configuration.after later).Completes .rtn) :
    ReturnsToCaller (configuration.after earlier) (configuration.after later) environment := by
  obtain ⟨order, depth, deep⟩ := returns
  obtain ⟨calls, rfl⟩ := Nat.exists_eq_add_of_le order
  have away := away_of_depth pushed separated.depth_eq deep
  rw [after_add] at completes
  have back : ((configuration.after (earlier + 1)).after (calls + 1)).depth = entries.length := by
    rw [← separated.depth_eq, ← depth, ← after_add]
    rfl
  obtain ⟨moves, dump⟩ := pushed.taken away completes (Or.inl rfl) (Or.inl back)
  rw [after_add]
  cases moves with
  | @rtn value under _ _ result restored =>
      obtain ⟨stackEq, environmentEq, controlEq⟩ := restored _ _ _ _ rfl
      exact ⟨closure, arguments, below, stack, number, rest, value, under, called, next, code,
        result, stackEq, environmentEq, controlEq, dump.trans separated.dump.symm⟩

theorem rejoins_of_pushed {store : Store} {number operands first more second rest : Value}
    (code : (configuration.after earlier).store.cell?
      (configuration.after earlier).registers.control = some ⟨number, operands⟩)
    (operand : (configuration.after earlier).store.cell? operands = some ⟨first, more⟩)
    (other : (configuration.after earlier).store.cell? more = some ⟨second, rest⟩)
    (separated : Separated hidden entries (configuration.after earlier))
    {hiddenAfter : Address → Prop}
    (pushed : Separated hiddenAfter (branchEntry store rest :: entries)
      (configuration.after (earlier + 1)))
    (returns : BringsBack configuration.after earlier later)
    (completes : (configuration.after later).Completes .join) :
    RejoinsAfterBranches (configuration.after earlier) (configuration.after later) := by
  obtain ⟨order, same, different⟩ := returns
  obtain ⟨calls, rfl⟩ := Nat.exists_eq_add_of_le order
  have away := away_of_dump pushed separated.dump different
  rw [after_add] at completes
  have back : ((configuration.after (earlier + 1)).after (calls + 1)).registers.dump =
      dumpOf entries := by
    rw [← separated.dump, ← same, ← after_add]
    rfl
  obtain ⟨moves, dump⟩ := pushed.taken away completes (Or.inr rfl) (Or.inr back)
  rw [after_add]
  cases moves with
  | join resumed =>
      exact ⟨number, operands, first, more, second, rest, code, operand, other, resumed rest rfl,
        dump.trans separated.dump.symm⟩

theorem frame_kept_of_pending {store : Store} {stack environment rest : Value}
    (separated : Separated hidden entries (configuration.after earlier))
    {hiddenAfter : Address → Prop}
    (pushed : Separated hiddenAfter (callEntry store stack environment rest :: entries)
      (configuration.after (earlier + 1)))
    (pending : Pending configuration.after earlier later) {address : Address}
    (spine : (configuration.after (earlier + 1)).store.OnSpine
      ((configuration.after (earlier + 1)).store.first
        (configuration.after (earlier + 1)).registers.dump) address) :
    (configuration.after (later + 1)).store.cell? (.pair address) =
      (configuration.after (earlier + 1)).store.cell? (.pair address) := by
  obtain ⟨order, deep⟩ := pending
  obtain ⟨calls, rfl⟩ := Nat.exists_eq_add_of_le order
  have deeper : ∀ between, between < earlier + 1 + calls → earlier < between →
      (configuration.after (between + 1)).depth ≠ (configuration.after earlier).depth :=
    fun between upper lower => deep (between + 1) (by omega) (by omega)
  have away := away_of_depth pushed separated.depth_eq deeper
  obtain ⟨_, above, held, same⟩ := pushed.remains calls away
  have member : address ∈ owned (callEntry store stack environment rest :: entries) := by
    rw [mem_owned_cons]
    have holds := pushed.holds
    rw [pushed.dump] at spine
    cases holds with
    | entry linked saved _ =>
        rw [dumpOf, Store.first_of_cell? linked] at spine
        exact Or.inr (Or.inl (Store.ListAt.mem_of_onSpine saved spine))
  obtain ⟨_, _, _, _, kept⟩ := held.next
  have inside : address ∈ owned (above ++ callEntry store stack environment rest :: entries) := by
    rw [owned_append]
    exact List.mem_append_right _ member
  rw [← same address member, ← kept address inside, ← after_add]
  rfl

theorem callEntry_of_call {opcode : Opcode} {environment : Value}
    (separated : Separated hidden entries (configuration.after earlier))
    (completes : (configuration.after earlier).Completes opcode)
    (call : opcode = .ap ∧ environment = (configuration.after earlier).registers.environment ∨
      opcode = .rap ∧ environment = (configuration.after earlier).store.second
        (configuration.after earlier).registers.environment) :
    ∃ hidden number closure below arguments stack rest,
      (configuration.after earlier).store.cell? (configuration.after earlier).registers.control =
        some ⟨number, rest⟩ ∧
      (configuration.after earlier).store.cell? (configuration.after earlier).registers.stack =
        some ⟨closure, below⟩ ∧
      (configuration.after earlier).store.cell? below = some ⟨arguments, stack⟩ ∧
      Separated hidden (callEntry (configuration.after earlier).store stack environment rest ::
        entries) (configuration.after (earlier + 1)) := by
  obtain ⟨rest, effect, executes⟩ := completes.executes
  obtain ⟨hidden, after, pushed, moves⟩ := separated.step executes
  rcases call with ⟨rfl, rfl⟩ | ⟨rfl, rfl⟩
  · cases moves with
    | ap code top next => exact ⟨hidden, _, _, _, _, _, _, code, top, next, pushed⟩
    | stay unmoved => simp [Opcode.movesDump] at unmoved
  · cases moves with
    | rap code top next => exact ⟨hidden, _, _, _, _, _, _, code, top, next, pushed⟩
    | stay unmoved => simp [Opcode.movesDump] at unmoved

theorem branchEntry_of_sel (separated : Separated hidden entries (configuration.after earlier))
    (completes : (configuration.after earlier).Completes .sel) :
    ∃ hidden number operands first more second rest,
      (configuration.after earlier).store.cell? (configuration.after earlier).registers.control =
        some ⟨number, operands⟩ ∧
      (configuration.after earlier).store.cell? operands = some ⟨first, more⟩ ∧
      (configuration.after earlier).store.cell? more = some ⟨second, rest⟩ ∧
      Separated hidden (branchEntry (configuration.after earlier).store rest :: entries)
        (configuration.after (earlier + 1)) := by
  obtain ⟨rest, effect, executes⟩ := completes.executes
  obtain ⟨hidden, after, pushed, moves⟩ := separated.step executes
  cases moves with
  | sel code operand other => exact ⟨hidden, _, _, _, _, _, _, code, operand, other, pushed⟩
  | stay unmoved => simp [Opcode.movesDump] at unmoved

end

/-- Whatever the program does, the instruction that first brings the dump back after a call or a
branch restores exactly what was saved, and no instruction in between changes a cell of the dump or
of the frame of a call that has not returned. -/
theorem calls_and_branches_restore (store : Store) (program arguments : Value)
    (trace : Option Sink) (closed : store.Closed) (programKnown : store.Knows program)
    (argumentsKnown : store.Knows arguments) :
    let run := (start store program arguments trace).after
    (∀ earlier later, (run earlier).Completes .ap → Returns run earlier later →
      (run later).Completes .rtn →
      ReturnsToCaller (run earlier) (run later) (run earlier).registers.environment) ∧
    (∀ earlier later, (run earlier).Completes .rap → Returns run earlier later →
      (run later).Completes .rtn →
      ReturnsToCaller (run earlier) (run later)
        ((run earlier).store.second (run earlier).registers.environment)) ∧
    (∀ earlier later, (run earlier).Completes .sel → BringsBack run earlier later →
      (run later).Completes .join → RejoinsAfterBranches (run earlier) (run later)) ∧
    (∀ calls address, (run calls).store.OnSpine (run calls).registers.dump address →
      (run (calls + 1)).store.cell? (.pair address) =
        (run calls).store.cell? (.pair address)) ∧
    (∀ earlier later, (run earlier).Completes .ap ∨ (run earlier).Completes .rap →
      Pending run earlier later → ∀ address,
      (run (earlier + 1)).store.OnSpine
        ((run (earlier + 1)).store.first (run (earlier + 1)).registers.dump) address →
      (run (later + 1)).store.cell? (.pair address) =
        (run (earlier + 1)).store.cell? (.pair address)) := by
  have always := separated_after (separated_start trace closed programKnown argumentsKnown)
  refine ⟨?_, ?_, ?_, ?_, ?_⟩
  · intro earlier later called returns completes
    obtain ⟨_, _, separated⟩ := always earlier
    obtain ⟨_, _, _, _, _, _, _, code, top, next, pushed⟩ :=
      callEntry_of_call separated called (Or.inl ⟨rfl, rfl⟩)
    exact returnsToCaller_of_pushed code top next separated pushed returns completes
  · intro earlier later called returns completes
    obtain ⟨_, _, separated⟩ := always earlier
    obtain ⟨_, _, _, _, _, _, _, code, top, next, pushed⟩ :=
      callEntry_of_call separated called (Or.inr ⟨rfl, rfl⟩)
    exact returnsToCaller_of_pushed code top next separated pushed returns completes
  · intro earlier later branched returns completes
    obtain ⟨_, _, separated⟩ := always earlier
    obtain ⟨_, _, _, _, _, _, _, code, operand, other, pushed⟩ :=
      branchEntry_of_sel separated branched
    exact rejoins_of_pushed code operand other separated pushed returns completes
  · intro calls address spine
    obtain ⟨_, _, separated⟩ := always calls
    obtain ⟨_, _, _, _, kept⟩ := separated.next
    rw [separated.dump] at spine
    exact kept address (separated.holds.mem_owned_of_onSpine spine)
  · intro earlier later called pending address spine
    obtain ⟨_, _, separated⟩ := always earlier
    rcases called with called | called
    · obtain ⟨_, _, _, _, _, _, _, _, _, _, pushed⟩ :=
        callEntry_of_call separated called (Or.inl ⟨rfl, rfl⟩)
      exact frame_kept_of_pending separated pushed pending spine
    · obtain ⟨_, _, _, _, _, _, _, _, _, _, pushed⟩ :=
        callEntry_of_call separated called (Or.inr ⟨rfl, rfl⟩)
      exact frame_kept_of_pending separated pushed pending spine

def branchWithinCalls : Datum :=
  .ofList [.integer 6, .integer 2, .nil, .integer 3,
    .ofList [.integer 1, .pair (.integer 0) (.integer 0), .integer 8,
      .ofList [.integer 2, .symbol "x", .integer 9], .ofList [.integer 2, .symbol "y", .integer 9],
      .integer 5],
    .integer 13, .integer 3,
    .ofList [.integer 2, .nil, .integer 2, .symbol "t", .integer 13, .integer 1,
      .pair (.integer 0) (.integer 0), .integer 4, .integer 5],
    .integer 7, .integer 21]

def branchWithinCallsRun : Nat → Configuration :=
  (start (Store.load {} branchWithinCalls).2 (Store.load {} branchWithinCalls).1 .nil none).after

theorem branchWithinCalls_restores :
    ReturnsToCaller (branchWithinCallsRun 10) (branchWithinCallsRun 15)
      (branchWithinCallsRun 10).registers.environment ∧
    ReturnsToCaller (branchWithinCallsRun 5) (branchWithinCallsRun 16)
      ((branchWithinCallsRun 5).store.second (branchWithinCallsRun 5).registers.environment) ∧
    RejoinsAfterBranches (branchWithinCallsRun 12) (branchWithinCallsRun 14) := by
  have loaded := Store.closed_empty.load branchWithinCalls
  obtain ⟨call, recursive, branch, _, _⟩ := calls_and_branches_restore _ _ .nil none loaded.1
    loaded.2.1 (by simp [Store.Knows, Value.nil])
  refine ⟨call 10 15 (by decide) ?_ (by decide), recursive 5 16 (by decide) ?_ (by decide),
    branch 12 14 (by decide) ?_ (by decide)⟩
  · unfold Returns
    decide
  · unfold Returns
    decide
  · unfold BringsBack
    decide

end Configuration

end SecdMachine
