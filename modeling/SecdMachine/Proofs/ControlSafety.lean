import SecdMachine.Proofs.CallReturn
import SecdMachine.Proofs.Execution
import SecdMachine.Proofs.StructuredCode

/-!
Runs of structured programs. A fault in such a run is about the values the program works on, never
about its code or the dump; a function returns to the call that entered it and a branch to the SEL
that chose it; and the machine stops with an empty dump.
-/

namespace SecdMachine

def Cause.isControl : Cause → Bool
  | controlEnded _ => true
  | opcodeNotInteger _ => true
  | opcodeUndefined _ => true
  | operandMissing => true
  | addressNotPair _ => true
  | addressNotIntegers _ => true
  | dumpEmpty => true
  | notCallFrame _ => true
  | _ => false

def Benign {α : Type} (result : Except Cause α) : Prop :=
  ∀ cause, result = .error cause → cause.isControl = false

namespace Benign

variable {α β : Type} {store : Store} {value : Value}

theorem ok (value : α) : Benign (.ok value : Except Cause α) := by
  intro cause failed
  cases failed

theorem error {cause : Cause} (kind : cause.isControl = false) :
    Benign (.error cause : Except Cause α) := by
  rintro _ ⟨⟩
  exact kind

theorem bind {action : Except Cause α} {next : α → Except Cause β} (first : Benign action)
    (later : ∀ value, action = .ok value → Benign (next value)) : Benign (action >>= next) := by
  cases action with
  | error cause =>
      rintro _ ⟨⟩
      exact first cause rfl
  | ok value => exact later value rfl

theorem pop (missing : String) : Benign (Instruction.pop store value missing) := by
  simp only [Instruction.pop]
  split
  · exact ok _
  · exact error rfl

theorem popCall : Benign (Instruction.popCall store value) := by
  refine (pop _).bind fun _ _ => (pop _).bind fun _ _ => ?_
  dsimp only
  split
  · exact ok _
  · exact error rfl

theorem popIntegers : Benign (Instruction.popIntegers store value) := by
  refine (pop _).bind fun _ _ => (pop _).bind fun _ _ => ?_
  dsimp only
  split
  · exact ok _
  · exact error rfl
  · exact error rfl

theorem arithmetic (opcode : Opcode) (second top : Int64) :
    Benign (Instruction.arithmetic opcode second top) := by
  unfold Instruction.arithmetic
  split
  · exact ok _
  · exact ok _
  · exact ok _
  · split
    · exact error rfl
    · exact ok _
  · split
    · exact error rfl
    · exact ok _
  · exact ok _

theorem alone {registers : Registers} {opcode : Opcode} {rest : Value}
    (kind : opcode.standsAlone = true) :
    Benign (Instruction.effect store registers opcode rest) := by
  cases opcode with
  | ap => exact popCall.bind fun _ _ => ok _
  | rap =>
      refine popCall.bind fun _ _ => ?_
      split
      · split
        · exact ok _
        · exact error rfl
      · exact error rfl
  | dum => exact ok _
  | car | cdr =>
      refine (pop _).bind fun _ _ => ?_
      dsimp only
      split
      · exact ok _
      · exact error rfl
  | atom => exact (pop _).bind fun _ _ => ok _
  | cons | eq => exact (pop _).bind fun _ _ => (pop _).bind fun _ _ => ok _
  | add | sub | mul | div | rem | leq =>
      exact popIntegers.bind fun _ _ => (arithmetic _ _ _).bind fun _ _ => ok _
  | ld | ldc | ldf | rtn | sel | join | stop =>
      simp [Opcode.standsAlone, Opcode.isArithmetic] at kind

end Benign

theorem Framed.popDump_eq {base : Nat} {frames : Address → Prop}
    {closures : Address → Value → Prop} {top : Entry} {below : List Entry}
    {configuration : Configuration}
    (framed : Framed base frames closures (top :: below) configuration) :
    ∃ value, Instruction.popDump configuration.store configuration.registers.dump =
      .ok (value, dumpOf below) ∧ top.saved.At configuration.store value := by
  cases framed.holds with
  | entry linked saved _ =>
      refine ⟨_, Instruction.popDump_eq_ok.mpr ?_, saved⟩
      rw [framed.dump]
      exact linked

namespace Guided

variable {code : Store} {frames : Address → Prop} {closures : Address → Value → Prop}
  {terminator opcode : Opcode} {entries : List Entry} {configuration : Configuration} {rest : Value}

theorem benign_terminator (guided : Guided code closures terminator entries configuration)
    (framed : Framed code.size frames closures entries configuration) :
    Benign (Instruction.effect configuration.store configuration.registers terminator rest) := by
  cases guided.suspended with
  | program => exact .ok _
  | call _ _ =>
      obtain ⟨entry, popped, saved⟩ := framed.popDump_eq
      refine (Benign.pop _).bind fun _ _ => ?_
      simp only [popped, Instruction.callFrame_of_listAt saved, bind, Except.bind]
      exact .ok _
  | branch _ _ =>
      obtain ⟨entry, popped, _⟩ := framed.popDump_eq
      simp only [Instruction.effect, popped, bind, Except.bind]
      exact .ok _

theorem benign (guided : Guided code closures terminator entries configuration)
    (framed : Framed code.size frames closures entries configuration)
    (decoded : Instruction.decode configuration.store configuration.registers.control =
      .ok (opcode, rest)) :
    Benign (Instruction.effect configuration.store configuration.registers opcode rest) := by
  have unique : ∀ {other more}, code.Opens configuration.registers.control other more →
      other = opcode ∧ more = rest := by
    intro other more opens
    have same := (guided.decode_eq opens).symm.trans decoded
    simpa using same
  cases guided.control with
  | ends _ opens =>
      obtain ⟨rfl, rfl⟩ := unique opens
      exact guided.benign_terminator framed
  | alone kind opens _ =>
      obtain ⟨rfl, rfl⟩ := unique opens
      exact .alone kind
  | ld opens operand place _ =>
      obtain ⟨rfl, rfl⟩ := unique opens
      have taken := Instruction.operand_eq_ok.mpr (guided.kept _ _ operand)
      have found := guided.kept _ _ place
      simp only [Instruction.effect, Instruction.locate, taken, found, bind, Except.bind]
      exact .ok _
  | ldc opens operand _ | ldf opens operand _ _ =>
      obtain ⟨rfl, rfl⟩ := unique opens
      have taken := Instruction.operand_eq_ok.mpr (guided.kept _ _ operand)
      simp only [Instruction.effect, taken, bind, Except.bind]
      exact .ok _
  | sel opens operand other _ _ _ =>
      obtain ⟨rfl, rfl⟩ := unique opens
      have taken := Instruction.operand_eq_ok.mpr (guided.kept _ _ operand)
      have second := Instruction.operand_eq_ok.mpr (guided.kept _ _ other)
      simp only [Instruction.effect]
      refine Benign.bind (taken ▸ .ok _) fun _ same => ?_
      rw [taken] at same
      cases same
      refine Benign.bind (second ▸ .ok _) fun _ same => ?_
      rw [second] at same
      cases same
      refine (Benign.pop _).bind fun _ _ => ?_
      dsimp only
      split
      · exact .ok _
      · exact .error rfl

theorem exists_decode (guided : Guided code closures terminator entries configuration) :
    ∃ opcode rest, Instruction.decode configuration.store configuration.registers.control =
      .ok (opcode, rest) := by
  cases guided.control with
  | ends _ opens | alone _ opens _ | ld opens | ldc opens | ldf opens | sel opens =>
      exact ⟨_, _, guided.decode_eq opens⟩

theorem terminator_eq (guided : Guided code closures terminator entries configuration)
    {effect : Effect} (executes : configuration.Executes opcode rest effect)
    (last : opcode.isTerminator = true) : terminator = opcode := by
  cases guided.control with
  | ends _ opens => exact (guided.opens_unique executes opens).1
  | alone kind opens _ =>
      obtain ⟨rfl, _⟩ := guided.opens_unique executes opens
      rw [Opcode.isTerminator_of_standsAlone kind] at last
      cases last
  | ld opens | ldc opens | ldf opens | sel opens =>
      obtain ⟨rfl, _⟩ := guided.opens_unique executes opens
      simp [Opcode.isTerminator] at last

theorem fault_benign (guided : Guided code closures terminator entries configuration)
    (framed : Framed code.size frames closures entries configuration) {fault : Fault}
    (failed : configuration.error? = some (.fault fault)) : fault.cause.isControl = false := by
  rcases configuration.step_cases with ⟨error, _, reported, stops, _⟩ | ⟨succeeded, _⟩
  · rw [failed] at reported
    cases reported
    cases stops with
    | undecoded _ undecoded =>
        obtain ⟨_, _, decoded⟩ := guided.exists_decode
        rw [decoded] at undecoded
        cases undecoded
    | unperformed _ decoded unworked =>
        unfold Machine.effectOf at unworked
        split at unworked
        · exact guided.benign framed decoded _ unworked
        · cases unworked
          rfl
  · rw [failed] at succeeded
    cases succeeded

end Guided

namespace Configuration

def Pushed (run : Nat → Configuration) (calls : Nat) (entry : Entry) : Prop :=
  (match entry.saved with
    | .call _ _ _ _ => (run calls).Completes .ap ∨ (run calls).Completes .rap
    | .branch _ => (run calls).Completes .sel) ∧
  (run (calls + 1)).registers.dump = .pair entry.cell

/-- Whatever the first `calls` calls of `step` apply is a pair that LDF made before. -/
def AppliesOwnClosures (run : Nat → Configuration) (calls : Nat) : Prop :=
  ∀ call < calls, (run call).Completes .ap ∨ (run call).Completes .rap →
    ∃ earlier < call, (run earlier).Completes .ldf ∧
      (run call).store.first (run call).registers.stack =
        (run (earlier + 1)).store.first (run (earlier + 1)).registers.stack

theorem AppliesOwnClosures.mono {run : Nat → Configuration} {calls more : Nat}
    (own : AppliesOwnClosures run more) (fewer : calls ≤ more) : AppliesOwnClosures run calls :=
  fun call bound => own call (Nat.lt_of_lt_of_le bound fewer)

def KnowsClosures (run : Nat → Configuration) (calls : Nat) (closures : Address → Value → Prop) :
    Prop :=
  ∀ earlier < calls, (run earlier).Completes .ldf → Framed.Applies closures (run (earlier + 1))

namespace KnowsClosures

variable {run : Nat → Configuration} {calls : Nat} {closures moreClosures : Address → Value → Prop}

theorem applies (knows : KnowsClosures run calls closures)
    (own : AppliesOwnClosures run (calls + 1))
    (completes : (run calls).Completes .ap ∨ (run calls).Completes .rap) :
    Framed.Applies closures (run calls) := by
  obtain ⟨earlier, bound, made, same⟩ := own calls (Nat.lt_succ_self calls) completes
  obtain ⟨address, body, known, found⟩ := knows earlier bound made
  exact ⟨address, body, known, same.trans found⟩

theorem next_of_error (knows : KnowsClosures run calls closures) {error : MachineError}
    (failed : (run calls).error? = some error) : KnowsClosures run (calls + 1) closures := by
  intro earlier bound made
  rcases Nat.lt_succ_iff_lt_or_eq.mp bound with below | rfl
  · exact knows earlier below made
  · rw [made.1] at failed
    cases failed

theorem next {configuration : Configuration} {opcode : Opcode} {rest : Value} {effect : Effect}
    (knows : KnowsClosures configuration.after calls closures)
    (executes : (configuration.after calls).Executes opcode rest effect)
    (makes : Framed.Makes closures moreClosures (configuration.after calls) opcode rest) :
    KnowsClosures configuration.after (calls + 1) moreClosures := by
  intro earlier bound made
  rcases Nat.lt_succ_iff_lt_or_eq.mp bound with below | rfl
  · obtain ⟨address, body, known, same⟩ := knows earlier below made
    exact ⟨address, body, makes.grown address body known, same⟩
  · exact makes.applies (executes.opcode_eq made)

end KnowsClosures

/-- What holds before each call of `step`: code, closures and dump are structured, the closures are
those that LDF made, and each entry of the dump comes from the instruction that it looks like. -/
structure Controlled (code : Store) (run : Nat → Configuration) (calls : Nat)
    (closures : Address → Value → Prop) (terminator : Opcode) (entries : List Entry) : Prop where
  framed : ∃ frames, Framed code.size frames closures entries (run calls)
  guided : Guided code closures terminator entries (run calls)
  made : ∀ earlier < calls, (run earlier).Completes .ldf →
    Framed.Applies closures (run (earlier + 1))
  pushed : ∀ entry ∈ entries, ∃ earlier < calls, Pushed run earlier entry

theorem framed_start {base : Nat} {store : Store} {program arguments : Value} (trace : Option Sink)
    (grown : base ≤ (start store program arguments trace).store.size) :
    Framed base (fun _ => False) (fun _ _ => False) [] (start store program arguments trace) :=
  ⟨grown, by simp, by simp, Or.inl rfl, rfl, .empty, by simp [owned], by simp⟩

theorem controlled_start {store : Store} {program : Value} (structured : Structured store .stop program)
    (arguments : Value) (trace : Option Sink) :
    Controlled store (start store program arguments trace).after 0 (fun _ _ => False) .stop [] := by
  have grown : store.size ≤ (store.cons arguments .nil).2.size := by
    rw [Store.size_cons]
    omega
  refine ⟨⟨fun _ => False, framed_start trace grown⟩, ?_, by simp, by simp⟩
  exact ⟨fun _ _ => Store.cell?_cons_of_some, structured, by simp, .program⟩

theorem pushed_of_moves {configuration : Configuration} {calls : Nat} {opcode : Opcode}
    {entries later : List Entry}
    (completes : (configuration.after calls).Completes opcode)
    (moves : Moves (configuration.after calls) opcode entries later)
    (dump : (configuration.after (calls + 1)).registers.dump = dumpOf later) {entry : Entry}
    (member : entry ∈ later) : entry ∈ entries ∨ Pushed configuration.after calls entry := by
  cases moves with
  | ap =>
      rcases List.mem_cons.mp member with rfl | old
      · exact Or.inr ⟨Or.inl completes, dump⟩
      · exact Or.inl old
  | rap =>
      rcases List.mem_cons.mp member with rfl | old
      · exact Or.inr ⟨Or.inr completes, dump⟩
      · exact Or.inl old
  | sel =>
      rcases List.mem_cons.mp member with rfl | old
      · exact Or.inr ⟨completes, dump⟩
      · exact Or.inl old
  | rtn | join => exact Or.inl (List.mem_cons_of_mem _ member)
  | stay _ => exact Or.inl member

theorem Controlled.next_of_error {code : Store} {configuration : Configuration} {calls : Nat}
    {closures : Address → Value → Prop} {terminator : Opcode} {entries : List Entry}
    (controlled : Controlled code configuration.after calls closures terminator entries)
    {error : MachineError} (failed : (configuration.after calls).error? = some error) :
    Controlled code configuration.after (calls + 1) closures terminator entries := by
  obtain ⟨frames, framed⟩ := controlled.framed
  have guided := controlled.guided
  obtain ⟨_, trace, _, unchanged⟩ := Configuration.next_of_error failed
  refine ⟨⟨frames, framed.of_unchanged unchanged⟩, ?_,
    KnowsClosures.next_of_error controlled.made failed, ?_⟩
  · rw [after, unchanged]
    exact ⟨guided.kept, guided.control, guided.bodies, guided.suspended⟩
  · intro entry member
    obtain ⟨earlier, bound, pushed⟩ := controlled.pushed entry member
    exact ⟨earlier, Nat.lt_succ_of_lt bound, pushed⟩

theorem Controlled.next {code : Store} {configuration : Configuration} {calls : Nat}
    {closures : Address → Value → Prop} {terminator : Opcode} {entries : List Entry}
    (controlled : Controlled code configuration.after calls closures terminator entries)
    (own : AppliesOwnClosures configuration.after (calls + 1)) :
    ∃ closures terminator entries,
      Controlled code configuration.after (calls + 1) closures terminator entries := by
  obtain ⟨frames, framed⟩ := controlled.framed
  have guided := controlled.guided
  rcases (configuration.after calls).step_cases with ⟨error, _, failed, _⟩ |
    ⟨succeeded, opcode, rest, effect, executes⟩
  · exact ⟨closures, terminator, entries, controlled.next_of_error failed⟩
  · have completes := completes_of_executes succeeded executes
    have applied : opcode = .ap ∨ opcode = .rap →
        Framed.Applies closures (configuration.after calls) := by
      rintro (rfl | rfl)
      · exact KnowsClosures.applies controlled.made own (Or.inl completes)
      · exact KnowsClosures.applies controlled.made own (Or.inr completes)
    have returned : opcode = .rtn → ∀ top below, entries = top :: below →
        ∃ cells stack environment control,
          top.saved = .call cells stack environment control := by
      rintro rfl top below rfl
      have due := guided.suspended
      rw [guided.terminator_eq executes rfl] at due
      cases due
      exact ⟨_, _, _, _, rfl⟩
    obtain ⟨moreFrames, moreClosures, later, framedLater, moves, makes, _⟩ :=
      framed.step executes applied returned
    obtain ⟨next, guidedLater⟩ := guided.step framed framedLater makes executes applied moves
    refine ⟨moreClosures, next, later, ⟨moreFrames, framedLater⟩, guidedLater,
      KnowsClosures.next controlled.made executes makes, ?_⟩
    intro entry member
    rcases pushed_of_moves completes moves framedLater.dump member with old | new
    · obtain ⟨earlier, bound, pushed⟩ := controlled.pushed entry old
      exact ⟨earlier, Nat.lt_succ_of_lt bound, pushed⟩
    · exact ⟨calls, Nat.lt_succ_self calls, new⟩

theorem controlled_after {store : Store} {program : Value}
    (structured : Structured store .stop program) (arguments : Value) (trace : Option Sink)
    (calls : Nat) (own : AppliesOwnClosures (start store program arguments trace).after calls) :
    ∃ closures terminator entries, Controlled store (start store program arguments trace).after calls
      closures terminator entries := by
  induction calls with
  | zero => exact ⟨_, _, _, controlled_start structured arguments trace⟩
  | succ calls ih =>
      obtain ⟨_, _, _, controlled⟩ := ih (own.mono (Nat.le_succ calls))
      exact controlled.next own

/-- As long as a structured program has applied only closures of its own, it does not fault over its
code or its dump, returns only from calls, rejoins only after branches, and stops with an empty
dump. -/
theorem structured_program_keeps_control (store : Store) (program arguments : Value)
    (trace : Option Sink) (structured : Structured store .stop program) (calls : Nat)
    (own : AppliesOwnClosures (start store program arguments trace).after calls) :
    let run := (start store program arguments trace).after
    (∀ fault, (run calls).error? = some (.fault fault) → fault.cause.isControl = false) ∧
    ((run calls).Completes .rtn → ∃ earlier < calls,
      ((run earlier).Completes .ap ∨ (run earlier).Completes .rap) ∧
      (run (earlier + 1)).registers.dump = (run calls).registers.dump) ∧
    ((run calls).Completes .join → ∃ earlier < calls, (run earlier).Completes .sel ∧
      (run (earlier + 1)).registers.dump = (run calls).registers.dump) ∧
    ((run calls).Completes .stop → (run calls).registers.dump = .nil) := by
  intro run
  obtain ⟨closures, terminator, entries, controlled⟩ :=
    controlled_after structured arguments trace calls own
  obtain ⟨frames, framed⟩ := controlled.framed
  have guided := controlled.guided
  refine ⟨fun fault => guided.fault_benign framed, ?_, ?_, ?_⟩
  · intro completes
    obtain ⟨_, _, executes⟩ := completes.executes
    obtain rfl := guided.terminator_eq executes rfl
    cases guided.suspended with
    | call _ _ =>
        obtain ⟨earlier, bound, made, dump⟩ := controlled.pushed _ List.mem_cons_self
        exact ⟨earlier, bound, made, dump.trans framed.dump.symm⟩
  · intro completes
    obtain ⟨_, _, executes⟩ := completes.executes
    obtain rfl := guided.terminator_eq executes rfl
    cases guided.suspended with
    | branch _ _ =>
        obtain ⟨earlier, bound, made, dump⟩ := controlled.pushed _ List.mem_cons_self
        exact ⟨earlier, bound, made, dump.trans framed.dump.symm⟩
  · intro completes
    obtain ⟨_, _, executes⟩ := completes.executes
    obtain rfl := guided.terminator_eq executes rfl
    cases guided.suspended with
    | program => exact framed.dump

theorem branchWithinCalls_structured :
    Structured (Store.load {} branchWithinCalls).2 .stop (Store.load {} branchWithinCalls).1 := by
  have dum : Opcode.dum.standsAlone = true := rfl
  have cons : Opcode.cons.standsAlone = true := rfl
  have ap : Opcode.ap.standsAlone = true := rfl
  have rap : Opcode.rap.standsAlone = true := rfl
  refine .alone dum rfl (.ldc rfl rfl (.ldf rfl rfl ?_ (.alone cons rfl (.ldf rfl rfl ?_
    (.alone rap rfl (.ends rfl rfl))))))
  · exact .ld rfl rfl rfl (.sel rfl rfl rfl (.ldc rfl rfl (.ends rfl rfl))
      (.ldc rfl rfl (.ends rfl rfl)) (.ends rfl rfl))
  · exact .ldc rfl rfl (.ldc rfl rfl (.alone cons rfl (.ld rfl rfl rfl (.alone ap rfl
      (.ends rfl rfl)))))

theorem branchWithinCallsRun_of_le {calls : Nat} (late : 18 ≤ calls) :
    branchWithinCallsRun calls = branchWithinCallsRun 18 := by
  have stopped : (branchWithinCallsRun 18).error? = some .halted := by decide
  obtain ⟨more, rfl⟩ := Nat.exists_eq_add_of_le late
  rw [branchWithinCallsRun, after_add]
  exact after_eq_self (by decide) stopped more

theorem branchWithinCalls_appliesOwnClosures (calls : Nat) :
    AppliesOwnClosures branchWithinCallsRun calls := by
  have calling : ∀ call < 18, (branchWithinCallsRun call).Completes .ap ∨
      (branchWithinCallsRun call).Completes .rap → call = 5 ∨ call = 10 := by decide
  intro call _ completes
  by_cases early : call < 18
  · rcases calling call early completes with rfl | rfl
    · exact ⟨4, by decide, by decide, by decide⟩
    · exact ⟨2, by decide, by decide, by decide⟩
  · rw [branchWithinCallsRun_of_le (Nat.le_of_not_lt early)] at completes
    exact absurd completes (by decide)

theorem branchWithinCalls_keeps_control :
    ((branchWithinCallsRun 15).Completes .rtn ∧ ∃ earlier < 15,
      ((branchWithinCallsRun earlier).Completes .ap ∨
        (branchWithinCallsRun earlier).Completes .rap) ∧
      (branchWithinCallsRun (earlier + 1)).registers.dump =
        (branchWithinCallsRun 15).registers.dump) ∧
    ((branchWithinCallsRun 17).Completes .stop ∧
      (branchWithinCallsRun 17).registers.dump = .nil) := by
  have safe := fun calls => structured_program_keeps_control _ _ .nil none
    branchWithinCalls_structured calls (branchWithinCalls_appliesOwnClosures calls)
  have returns : (branchWithinCallsRun 15).Completes .rtn := by decide
  have stops : (branchWithinCallsRun 17).Completes .stop := by decide
  exact ⟨⟨returns, (safe 15).2.1 returns⟩, stops, (safe 17).2.2.2 stops⟩

end Configuration

end SecdMachine
