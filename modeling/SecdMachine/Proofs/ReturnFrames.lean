import SecdMachine.Proofs.Attribution
import SecdMachine.Proofs.Execution

/-!
What RTN takes for a call frame. Entries of the dump carry no mark, so RTN goes by their shape: it
returns to any list of three elements, and the code after a branch may be one.
-/

namespace SecdMachine

def Store.IsTriple (store : Store) (value : Value) : Prop :=
  ∃ cells first second third, store.ListAt value cells [first, second, third]

namespace Instruction

variable {store : Store} {entry : Value}

theorem callFrame_cases (store : Store) (entry : Value) :
    (∃ frame, callFrame store entry = .ok frame ∧ store.IsTriple entry) ∨
      callFrame store entry = .error (.notCallFrame entry) := by
  unfold callFrame
  split
  next => exact Or.inr rfl
  next stack stackFound =>
    split
    next => exact Or.inr rfl
    next environment environmentFound =>
      split
      next => exact Or.inr rfl
      next control controlFound =>
        split
        next ended =>
          obtain ⟨first, afterFirst⟩ := stack
          obtain ⟨second, afterSecond⟩ := environment
          obtain ⟨third, afterThird⟩ := control
          obtain ⟨head, rfl⟩ := Store.eq_pair_of_cell? stackFound
          obtain ⟨middle, rfl⟩ := Store.eq_pair_of_cell? environmentFound
          obtain ⟨last, rfl⟩ := Store.eq_pair_of_cell? controlFound
          simp only [Value.isNil, decide_eq_true_eq] at ended
          subst ended
          exact Or.inl ⟨_, rfl, _, _, _, _,
            .cons stackFound (.cons environmentFound (.cons controlFound .nil))⟩
        next => exact Or.inr rfl

theorem callFrame_of_not_isTriple (other : ¬store.IsTriple entry) :
    callFrame store entry = .error (.notCallFrame entry) :=
  (callFrame_cases store entry).resolve_left fun ⟨_, _, triple⟩ => other triple

theorem isTriple_of_callFrame {frame : Value × Value × Value}
    (found : callFrame store entry = .ok frame) : store.IsTriple entry := by
  rcases callFrame_cases store entry with ⟨_, _, triple⟩ | failed
  · exact triple
  · rw [found] at failed
    cases failed

theorem effect_rtn {registers : Registers} {value below dump : Value} (rest : Value)
    (top : store.cell? registers.stack = some ⟨value, below⟩)
    (popped : store.cell? registers.dump = some ⟨entry, dump⟩) :
    effect store registers .rtn rest = (callFrame store entry).map
      fun (stack, environment, control) => .return value stack environment control dump := by
  simp only [effect, pop_eq_ok.mpr top, popDump_eq_ok.mpr popped, bind, Except.bind, pure,
    Except.pure]
  cases callFrame store entry <;> rfl

end Instruction

namespace Configuration

structure Returning (configuration : Configuration) : Prop where
  running : configuration.machine.halted = false
  decoded : ∃ rest, Instruction.decode configuration.store configuration.registers.control =
    .ok (.rtn, rest)
  traced : (configuration.machine.traced configuration.store .rtn).1 = none
  valued : ∃ cell, configuration.store.cell? configuration.registers.stack = some cell

theorem Returning.error?_eq {configuration : Configuration} (returning : configuration.Returning)
    {entry dump : Value}
    (popped : configuration.store.cell? configuration.registers.dump = some ⟨entry, dump⟩) :
    configuration.error? =
      match Instruction.callFrame configuration.store entry with
      | .error cause => some (configuration.machine.faultOf (some .rtn) cause)
      | .ok _ => none := by
  obtain ⟨rest, decoded⟩ := returning.decoded
  obtain ⟨⟨value, below⟩, top⟩ := returning.valued
  obtain ⟨failure, trace, traced, _⟩ := traced_eq configuration.machine configuration.store .rtn
  have granted := returning.traced
  rw [traced] at granted
  simp only at granted
  subst granted
  have deep : Instruction.hasDepth configuration.store Opcode.rtn.stackNeed
      configuration.registers.stack = true := by
    simp [Instruction.hasDepth, Opcode.stackNeed, top]
  have worked : configuration.machine.effectOf configuration.store .rtn rest =
      (Instruction.callFrame configuration.store entry).map _ :=
    (if_pos deep).trans (Instruction.effect_rtn rest top popped)
  rw [error?, step_of_traced returning.running decoded traced, worked]
  cases Instruction.callFrame configuration.store entry <;> rfl

/-- The entry on top of the dump is the code after the branches of the SEL that made it. -/
theorem popped_of_sel {configuration : Configuration} {hidden : Address → Prop}
    {entries : List Entry} {earlier calls : Nat}
    (separated : Separated hidden entries (configuration.after calls))
    (entered : Entered configuration.after calls entries)
    (branched : (configuration.after earlier).Completes .sel)
    (same : (configuration.after (earlier + 1)).registers.dump =
      (configuration.after calls).registers.dump) :
    ∃ code dump, (configuration.after earlier).FollowsBranches code ∧
      (configuration.after calls).store.cell? (configuration.after calls).registers.dump =
        some ⟨code, dump⟩ := by
  have dump : (configuration.after (earlier + 1)).registers.dump = .pair _ :=
    (dump_of_sel branched).1
  rw [separated.dump] at same ⊢
  cases separated.holds with
  | empty =>
      rw [dump] at same
      cases same
  | entry linked saved _ =>
      obtain ⟨other, _, enters⟩ := entered _ List.mem_cons_self
      rcases (enters.of_dump (Or.inr branched) same).cases with ⟨_, _, _, called, _⟩ |
        ⟨code, _, follows, rfl⟩
      · exact absurd called (not_call_of_sel branched)
      · exact ⟨code, _, follows, saved ▸ linked⟩

/-- RTN returns from an entry made by AP or RAP, or by SEL if the code after both branches is a list
of three elements. If that code is no such list, RTN faults over it and changes nothing. -/
theorem return_goes_by_shape (store : Store) (program arguments : Value) (trace : Option Sink)
    (closed : store.Closed) (programKnown : store.Knows program)
    (argumentsKnown : store.Knows arguments) :
    let run := (start store program arguments trace).after
    ∀ calls,
      ((run calls).Completes .rtn → ∃ earlier < calls,
        (run (earlier + 1)).registers.dump = (run calls).registers.dump ∧
        ((run earlier).Completes .ap ∨ (run earlier).Completes .rap ∨
          (run earlier).Completes .sel ∧
            ∃ code, (run earlier).FollowsBranches code ∧ (run calls).store.IsTriple code)) ∧
      ∀ earlier < calls, (run earlier).Completes .sel →
        (run (earlier + 1)).registers.dump = (run calls).registers.dump →
        ∃ code, (run earlier).FollowsBranches code ∧ ((run calls).Returning →
          ((run calls).store.IsTriple code → (run calls).Completes .rtn) ∧
          (¬(run calls).store.IsTriple code → ∃ fault,
            (run calls).error? = some (.fault fault) ∧ fault.opcode = some .rtn ∧
            fault.cause = .notCallFrame code ∧ fault.cause.kind = .type ∧
            (run calls).next.registers = (run calls).registers ∧
            (run calls).next.machine.steps = (run calls).machine.steps ∧
            (run calls).next.store = (run calls).store)) := by
  intro run calls
  obtain ⟨hidden, entries, separated, entered⟩ :=
    entered_after (separated_start trace closed programKnown argumentsKnown) calls
  constructor
  · intro completes
    obtain ⟨_, _, executes⟩ := completes.executes
    cases executes.performs with
    | arithmetic kind => simp [Opcode.isArithmetic] at kind
    | rtn _ popped frame =>
        have dump := separated.dump
        rw [dump] at popped
        obtain ⟨top, below, rfl, _, saved⟩ := separated.holds.of_cell? popped
        obtain ⟨earlier, order, enters⟩ := entered top List.mem_cons_self
        refine ⟨earlier, order, enters.dump_eq.trans dump.symm, ?_⟩
        -- A branch saves the code itself, so that is what RTN has taken apart.
        rcases enters.cases with ⟨_, _, _, called, _⟩ | ⟨code, branched, follows, rfl⟩
        · rcases called with called | called
          · exact Or.inl called
          · exact Or.inr (Or.inl called)
        · refine Or.inr (Or.inr ⟨branched, code, follows, ?_⟩)
          exact saved ▸ Instruction.isTriple_of_callFrame frame
  · intro earlier _ branched same
    obtain ⟨code, dump, follows, popped⟩ := popped_of_sel separated entered branched same
    refine ⟨code, follows, fun returning => ?_⟩
    have reported := returning.error?_eq popped
    constructor
    · rintro ⟨_, _, _, _, list⟩
      rw [Instruction.callFrame_of_listAt list] at reported
      exact ⟨reported, returning.decoded⟩
    · intro other
      rw [Instruction.callFrame_of_not_isTriple other] at reported
      obtain ⟨_, _, _, unchanged⟩ := next_of_error reported
      rw [unchanged]
      exact ⟨_, reported, rfl, rfl, rfl, rfl, rfl, rfl⟩

def returnFromBranch (after : List Datum) : Datum :=
  .ofList ([.integer 2, .symbol "t", .integer 8, .ofList [.integer 2, .integer 5, .integer 5],
    .ofList [.integer 2, .integer 6, .integer 9]] ++ after)

def returnFromBranchRun (after : List Datum) : Nat → Configuration :=
  (start (Store.load {} (returnFromBranch after)).2 (Store.load {} (returnFromBranch after)).1 .nil
    none).after

theorem returningToStop_faults :
    let run := returnFromBranchRun [.integer 21]
    (∃ fault, (run 3).error? = some (.fault fault) ∧ fault.cause.kind = .type ∧
      (run 3).next.registers = (run 3).registers ∧ (run 3).next.store = (run 3).store) ∧
    ((branchWithinCallsRun 15).Completes .rtn ∧ ∃ earlier < 15,
      (branchWithinCallsRun (earlier + 1)).registers.dump =
        (branchWithinCallsRun 15).registers.dump) := by
  intro run
  have known : ∀ store : Store, store.Knows .nil := by simp [Store.Knows, Value.nil]
  constructor
  · have loaded := Store.closed_empty.load (returnFromBranch [.integer 21])
    obtain ⟨code, _, returned⟩ := (return_goes_by_shape _ _ .nil none loaded.1 loaded.2.1
      (known _) 3).2 1 (by decide) (by decide) (by decide)
    have returning : (run 3).Returning := ⟨by decide, ⟨_, rfl⟩, by decide, ⟨_, rfl⟩⟩
    obtain ⟨completes, faults⟩ := returned returning
    have other : ¬(run 3).store.IsTriple code := fun triple => absurd (completes triple) (by decide)
    obtain ⟨fault, reported, _, _, kind, registers, _, kept⟩ := faults other
    exact ⟨fault, reported, kind, registers, kept⟩
  · have loaded := Store.closed_empty.load branchWithinCalls
    have completes : (branchWithinCallsRun 15).Completes .rtn := by decide
    obtain ⟨earlier, order, dump, _⟩ := (return_goes_by_shape _ _ .nil none loaded.1 loaded.2.1
      (known _) 15).1 completes
    exact ⟨completes, earlier, order, dump⟩

theorem returningToCode_succeeds :
    let run := returnFromBranchRun [.integer 2, .integer 1, .integer 21]
    ((run 1).Completes .sel ∧ (run 2).registers.dump = (run 3).registers.dump) ∧
    (∀ earlier < 3, ¬(run earlier).Completes .ap ∧ ¬(run earlier).Completes .rap) ∧
    (run 3).Completes .rtn ∧
    (run 4).store.cell? (run 4).registers.stack = some ⟨.integer 5, .integer 2⟩ ∧
    (run 4).registers.environment = .integer 1 ∧ (run 4).registers.control = .integer 21 := by
  decide

end Configuration

end SecdMachine
