import SecdMachine.Proofs.Deposits
import SecdMachine.Proofs.Spines
import SecdMachine.Proofs.Tracing

/-!
Mutual recursion. DUM puts an incomplete frame on the environment, each LDF makes a closure over it,
and RAP completes it with the list of these closures. So the closures find each other, and
themselves, through the environment they share, for as long as nothing overwrites that list.
-/

namespace SecdMachine

theorem Store.Extends.lt_size {store later : Store} {address : Address}
    (extended : store.Extends later) (old : address < store.size) : address < later.size := by
  obtain ⟨cell, found⟩ := Store.exists_cell_of_lt_size old
  exact Store.lt_size_of_cell? (extended _ _ found)

theorem Effect.perform_push (registers : Registers) (store : Store) (value stack control : Value) :
    ∃ later top, (push value stack control).perform registers store =
        ({ registers with stack := top, control := control }, later) ∧
      store.Extends later ∧ later.cell? top = some ⟨value, stack⟩ :=
  ⟨_, _, rfl, store.extends_cons value stack, Store.cell?_cons_self⟩

theorem Effect.perform_pushPair (registers : Registers) (store : Store)
    (first second stack control : Value) :
    ∃ later top, (pushPair first second stack control).perform registers store =
        ({ registers with stack := top, control := control }, later) ∧
      store.Extends later ∧ later.cell? top = some ⟨.pair store.size, stack⟩ ∧
      later.cell? (.pair store.size) = some ⟨first, second⟩ := by
  have inner := store.extends_cons first second
  have outer := (store.cons first second).2.extends_cons (.pair store.size) stack
  exact ⟨_, _, rfl, inner.trans outer, Store.cell?_cons_self, outer.cell? Store.cell?_cons_self⟩

def Opcode.code (opcode : Opcode) : Value :=
  .integer (Int64.ofNat opcode.number)

def closureCode (body : Value) : List Value :=
  [Opcode.ldf.code, body, Opcode.cons.code]

/-- `DUM LDC NIL LDF bk CONS ... LDF b1 CONS LDF body RAP` -/
def letrecCode (bodies : List Value) (body : Value) : List Value :=
  [Opcode.dum.code, Opcode.ldc.code, .nil] ++ bodies.reverse.flatMap closureCode ++
    [Opcode.ldf.code, body, Opcode.rap.code]

namespace Configuration

structure Arrives (start : Configuration) (calls : Nat) (registers : Registers) (store : Store) :
    Prop where
  running : (start.after calls).machine.halted = false
  untraced : (start.after calls).machine.trace = none
  registers : (start.after calls).registers = registers
  store : (start.after calls).store = store
  succeeded : ∀ call < calls, (start.after call).error? = none

theorem Arrives.step {start : Configuration} {calls : Nat} {registers : Registers} {store : Store}
    {opcode : Opcode} {rest : Value} {effect : Effect}
    (arrives : start.Arrives calls registers store)
    (opens : store.Opens registers.control opcode rest)
    (performs : Instruction.Performs store registers opcode rest effect)
    (continues : effect.halts = false) :
    start.Arrives (calls + 1) (effect.perform registers store).1
      (effect.perform registers store).2 := by
  obtain ⟨running, untraced, rfl, rfl, succeeded⟩ := arrives
  have stepped := step_of_performs running untraced opens.decode_eq performs
  have moved : start.after (calls + 1) =
      ⟨((start.after calls).machine.commit (start.after calls).store effect).1,
        ((start.after calls).machine.commit (start.after calls).store effect).2⟩ := by
    rw [after, next, stepped]
  have succeeds : (start.after calls).error? = none := by rw [error?, stepped]
  refine ⟨?_, ?_, ?_, ?_, ?_⟩
  · rw [moved, commit_eq]
    exact continues
  · rw [moved, commit_eq]
    exact untraced
  · rw [moved, Configuration.registers, commit_eq]
    rfl
  · rw [moved, commit_eq]
    rfl
  · intro call early
    rcases Nat.lt_succ_iff_lt_or_eq.mp early with before | rfl
    · exact succeeded call before
    · exact succeeds

theorem Arrives.keeps {start : Configuration} {calls : Nat} {registers : Registers} {store : Store}
    {good : Store → Value → Prop} (arrives : start.Arrives calls registers store)
    (lasting : Lasting good) (held : ∀ value ∈ start.registers.values, good start.store value) :
    ∀ value ∈ registers.values, good store value := by
  rw [← arrives.registers, ← arrives.store]
  exact lasting.after held calls

structure Gathered (base : Store) (frame : Address) (bodies : List Value) (list : Value)
    (cells : List Address) (closures : List Value) (store : Store) : Prop where
  extended : base.Extends store
  list : store.ListAt list cells closures
  made : List.Forall₂ (fun body closure => closure ≠ .pair frame ∧
    store.cell? closure = some ⟨body, .pair frame⟩) bodies closures
  apart : frame ∉ cells

section

variable {start : Configuration} {base store later : Store} {frame : Address}
  {stack dump rest list body : Value} {cells : List Address}
  {calls : Nat} {bodies closures code more : List Value}

theorem Gathered.mono (gathered : Gathered base frame bodies list cells closures store)
    (extended : store.Extends later) : Gathered base frame bodies list cells closures later :=
  ⟨gathered.extended.trans extended, gathered.list.mono extended,
    gathered.made.imp fun _ _ made => ⟨made.1, extended.cell? made.2⟩, gathered.apart⟩

def Collects (start : Configuration) (base : Store) (frame : Address) (stack dump rest : Value)
    (calls : Nat) (bodies code : List Value) : Prop :=
  ∃ top control store list cells closures,
    start.Arrives calls ⟨top, .pair frame, control, dump⟩ store ∧
      store.Stacked rest code control ∧ store.cell? top = some ⟨list, stack⟩ ∧
      Gathered base frame bodies list cells closures store

theorem Collects.closure (old : frame < base.size)
    (collects : Collects start base frame stack dump rest calls bodies
      (closureCode body ++ code)) :
    Collects start base frame stack dump rest (calls + 2) (body :: bodies) code := by
  obtain ⟨top, control, store, list, cells, closures, arrives, written, below, gathered⟩ := collects
  obtain ⟨_, ldf, written⟩ := written.pop
  obtain ⟨_, operand, written⟩ := written.pop
  have closed := arrives.step ldf (.ldf operand) rfl
  obtain ⟨middle, pushed, performed, grown, closureTop, closure⟩ := Effect.perform_pushPair
    ⟨top, .pair frame, control, dump⟩ store body (.pair frame) top _
  rw [performed] at closed
  obtain ⟨_, cons, written⟩ := (written.mono grown).pop
  have linked := closed.step cons (.cons closureTop (grown.cell? below)) rfl
  obtain ⟨later, linkedTop, performed, grownMore, listTop, cell⟩ := Effect.perform_pushPair
    ⟨pushed, .pair frame, _, dump⟩ middle (.pair store.size) list stack _
  rw [performed] at linked
  have within := gathered.extended.lt_size old
  have still := gathered.mono (grown.trans grownMore)
  refine ⟨linkedTop, _, later, _, middle.size :: cells, .pair store.size :: closures, linked,
    written.mono grownMore, listTop, still.extended, .cons cell still.list,
    .cons ⟨?_, grownMore.cell? closure⟩ still.made, ?_⟩
  · rintro ⟨⟩
    exact Nat.lt_irrefl _ within
  · rw [List.mem_cons, not_or]
    exact ⟨Nat.ne_of_lt (grown.lt_size within), still.apart⟩

theorem Collects.all (old : frame < base.size)
    (collects : Collects start base frame stack dump rest calls bodies
      (more.flatMap closureCode ++ code)) :
    Collects start base frame stack dump rest (calls + 2 * more.length) (more.reverse ++ bodies)
      code := by
  induction more generalizing calls bodies with
  | nil => exact collects
  | cons body more ih =>
      rw [List.flatMap_cons, List.append_assoc] at collects
      have onward := ih (collects.closure old)
      have counted : calls + 2 + 2 * more.length = calls + 2 * (body :: more).length := by
        rw [List.length_cons]
        omega
      rw [counted] at onward
      rwa [List.reverse_cons, List.append_assoc]

theorem collects_nil {registers : Registers} (arrives : start.Arrives 0 registers store)
    (written : store.Stacked rest ([Opcode.dum.code, Opcode.ldc.code, .nil] ++ code)
      registers.control) :
    Collects start (store.cons .nil registers.environment).2 store.size registers.stack
      registers.dump rest 2 [] code := by
  obtain ⟨afterDum, dum, written⟩ := written.pop
  have extended : start.Arrives 1
      ⟨registers.stack, .pair store.size, afterDum, registers.dump⟩
      (store.cons .nil registers.environment).2 := arrives.step dum .dum rfl
  obtain ⟨_, ldc, written⟩ := (written.mono (store.extends_cons _ _)).pop
  obtain ⟨after, operand, written⟩ := written.pop
  have loaded := extended.step ldc (.ldc operand) rfl
  obtain ⟨later, top, performed, grown, pushed⟩ := Effect.perform_push
    ⟨registers.stack, .pair store.size, afterDum, registers.dump⟩
    (store.cons .nil registers.environment).2 .nil registers.stack after
  rw [performed] at loaded
  exact ⟨top, after, later, .nil, [], [], loaded, written.mono grown, pushed, grown, .nil, .nil,
    by simp⟩

end

/-- The frame holds the list of closures in front of an environment, and each of them is closed over
that frame. -/
structure Tied (store : Store) (frame : Address) (environment : Value) (cells : List Address)
    (bodies closures : List Value) : Prop where
  bound : ∃ list, store.cell? (.pair frame) = some ⟨list, environment⟩ ∧
    store.ListAt list cells closures
  made : List.Forall₂ (fun body closure => store.cell? closure = some ⟨body, .pair frame⟩) bodies
    closures

theorem Gathered.tied {base store : Store} {frame : Address} {bodies closures : List Value}
    {list placeholder environment : Value} {cells : List Address}
    (gathered : Gathered base frame bodies list cells closures store)
    (incomplete : store.cell? (.pair frame) = some ⟨placeholder, environment⟩) :
    Tied (store.setFirst frame list) frame environment cells bodies closures := by
  refine ⟨⟨list, Store.cell?_setFirst_self incomplete, gathered.list.congr ?_⟩, ?_⟩
  · intro address member
    apply Store.cell?_setFirst_of_ne
    rintro rfl
    exact gathered.apart member
  · refine gathered.made.imp fun body closure made => ?_
    obtain ⟨address, rfl⟩ := Store.eq_pair_of_cell? made.2
    rw [Store.cell?_setFirst_of_ne, made.2]
    rintro rfl
    exact made.1 rfl

theorem Tied.mono {store later : Store} {frame : Address} {environment : Value}
    {cells : List Address} {bodies closures : List Value}
    (tied : Tied store frame environment cells bodies closures) (extended : store.Extends later) :
    Tied later frame environment cells bodies closures := by
  obtain ⟨⟨list, bound, listed⟩, made⟩ := tied
  exact ⟨⟨list, extended.cell? bound, listed.mono extended⟩,
    made.imp fun _ _ found => extended.cell? found⟩

section

variable {start : Configuration} {store : Store} {registers : Registers} {rest body : Value}
  {bodies : List Value}

/-- What RAP saves and what it goes on with is known to the store with the completed frame. -/
theorem known_of_rap {closure list stack environment : Value} {frame : Address}
    (known : ∀ value ∈ registers.values, store.Avoids (fun _ => False) value)
    (opens : store.Opens registers.control .rap rest)
    (performs : Instruction.Performs store registers .rap rest
      (.callRecursive closure list frame stack environment rest))
    (applied : store.cell? closure = some ⟨body, .pair frame⟩) :
    (store.setFirst frame list).Closed ∧
      ∀ value ∈ [stack, environment, rest, registers.dump] ++ [.nil, .pair frame, body],
        (store.setFirst frame list).Knows value := by
  have everywhere := Store.lasting_avoids fun _ => False
  simp only [Registers.values, List.forall_mem_cons] at known
  obtain ⟨stackHeld, environmentHeld, controlHeld, dumpHeld, _⟩ := known
  have region := everywhere.region stackHeld
  have restHeld := (region.components _ _ controlHeld opens).2
  have operated := region.values_of_performs stackHeld environmentHeld restHeld performs
  simp only [Effect.values, List.forall_mem_cons] at operated
  obtain ⟨closureHeld, listHeld, frameHeld, belowHeld, outerHeld, _⟩ := operated
  have bodyHeld := (region.components _ _ closureHeld applied).1
  have kept := fun value held => (everywhere.setFirst listHeld frame value held).known
  refine ⟨listHeld.closed.setFirst listHeld.known frame, ?_⟩
  simp only [List.cons_append, List.nil_append, List.forall_mem_cons]
  exact ⟨kept _ belowHeld, kept _ outerHeld, kept _ restHeld, kept _ dumpHeld, kept _ region.nil,
    kept _ frameHeld, kept _ bodyHeld, by simp⟩

/-- RAP completes the frame and calls the body. -/
theorem arrives_tied (arrives : start.Arrives 0 registers store)
    (known : ∀ value ∈ start.registers.values, start.store.Avoids (fun _ => False) value)
    (written : store.Stacked rest (letrecCode bodies body) registers.control) :
    ∃ before cells closures, before.Closed ∧
      (∀ value ∈ [registers.stack, registers.environment, rest, registers.dump] ++
        [.nil, .pair store.size, body], before.Knows value) ∧
      Tied before store.size registers.environment cells bodies closures ∧
      start.Arrives (2 * bodies.length + 4)
        ⟨.nil, .pair store.size, body, .pair (before.size + 3)⟩
        (before.saveCall registers.stack registers.environment rest registers.dump) := by
  have old : store.size < (store.cons .nil registers.environment).2.size := by
    rw [Store.size_cons]
    exact Nat.lt_succ_self _
  rw [letrecCode, List.append_assoc] at written
  have collected := (collects_nil arrives written).all old
  rw [List.length_reverse, List.reverse_reverse, List.append_nil] at collected
  obtain ⟨top, control, second, list, cells, closures, arrived, written, below, gathered⟩ :=
    collected
  have apart : Value.pair second.size ≠ .pair store.size := by
    rw [Ne, Value.pair.injEq]
    exact Nat.ne_of_gt (gathered.extended.lt_size old)
  obtain ⟨_, ldf, written⟩ := written.pop
  obtain ⟨last, operand, written⟩ := written.pop
  have closed := arrived.step ldf (.ldf operand) rfl
  obtain ⟨third, pushed, performed, grown, closureTop, closure⟩ := Effect.perform_pushPair
    ⟨top, .pair store.size, control, registers.dump⟩ second body (.pair store.size) top last
  rw [performed] at closed
  obtain ⟨rest, rap, ends⟩ := (written.mono grown).pop
  cases ends
  have gathered := gathered.mono grown
  have incomplete : third.cell? (.pair store.size) = some ⟨.nil, registers.environment⟩ :=
    gathered.extended.cell? Store.cell?_cons_self
  have performs : Instruction.Performs third ⟨pushed, .pair store.size, last, registers.dump⟩ .rap
      rest (.callRecursive (.pair second.size) list store.size registers.stack
        registers.environment rest) :=
    @Instruction.Performs.rap _ _ _ _ _ _ _ _ _ _ ⟨.nil, registers.environment⟩ closureTop
      (grown.cell? below) closure incomplete incomplete
  have called := closed.step rap performs rfl
  have counted : 2 + 2 * bodies.length + 1 + 1 = 2 * bodies.length + 4 := by omega
  rw [Effect.perform_callRecursive closure apart (Store.lt_size_of_cell? incomplete),
    Store.size_list, counted] at called
  have held := closed.keeps (Store.lasting_avoids fun _ => False) known
  obtain ⟨completedClosed, completedKnown⟩ := known_of_rap held rap performs closure
  exact ⟨third.setFirst store.size list, cells, closures, completedClosed, completedKnown,
    gathered.tied incomplete, called⟩

end

def Overwrites (configuration : Configuration) (address : Address) : Prop :=
  configuration.Completes .rap ∧ configuration.CompletesFrame address

def Loads (configuration : Configuration) (frame position : Nat) : Prop :=
  configuration.machine.halted = false ∧ ∃ operand after address first second,
    Instruction.decode configuration.store configuration.registers.control = .ok (.ld, operand) ∧
    configuration.store.cell? operand = some ⟨address, after⟩ ∧
    configuration.store.cell? address = some ⟨.integer first, .integer second⟩ ∧
    first.toInt = frame ∧ second.toInt = position

def Pushes (configuration : Configuration) (value : Value) : Prop :=
  configuration.error? = none ∧
    configuration.next.store.cell? configuration.next.registers.stack =
      some ⟨value, configuration.registers.stack⟩

section

variable {configuration : Configuration} {address : Address} {cell : Cell} {calls : Nat}

theorem cell?_of_kept (found : configuration.store.cell? (.pair address) = some cell)
    (kept : ∀ call < calls, ¬(configuration.after call).Overwrites address) :
    (configuration.after calls).store.cell? (.pair address) = some cell := by
  induction calls with
  | zero => exact found
  | succ calls ih =>
      have still := ih fun call early => kept call (Nat.lt_succ_of_lt early)
      by_contra changed
      exact kept calls (Nat.lt_succ_self calls) (completesFrame_of_changes ⟨cell, still, changed⟩)

theorem second_after (found : configuration.store.cell? (.pair address) = some cell)
    (calls : Nat) :
    ∃ first, (configuration.after calls).store.cell? (.pair address) =
      some ⟨first, cell.second⟩ := by
  induction calls with
  | zero => exact ⟨cell.first, found⟩
  | succ calls ih =>
      obtain ⟨first, still⟩ := ih
      rcases (configuration.after calls).step_cases with ⟨_, _, _, _, _, unchanged⟩ |
        ⟨_, _, _, _, executes⟩
      · rw [after, unchanged]
        exact ⟨first, still⟩
      · rw [after, executes.store]
        obtain ⟨other, kept⟩ := Effect.second_perform still
        exact ⟨other, kept⟩

theorem untraced_after (untraced : configuration.machine.trace = none) (calls : Nat) :
    (configuration.after calls).machine.trace = none := by
  have freely : configuration.machine.TracesFreely := by
    intro sink traced
    rw [untraced] at traced
    cases traced
  rw [trace_after freely, untraced]
  rfl

theorem Loads.pushes {frame position : Nat} (loads : configuration.Loads frame position)
    (untraced : configuration.machine.trace = none) :
    configuration.Pushes (configuration.store.first (Instruction.walk configuration.store position
      (configuration.store.first
        (Instruction.walk configuration.store frame configuration.registers.environment)))) := by
  obtain ⟨running, operand, after, address, first, second, decoded, code, numbers, frameEq,
    positionEq⟩ := loads
  have located : Instruction.locate configuration.store configuration.registers.environment
      address = .ok (configuration.store.first (Instruction.walk configuration.store position
        (configuration.store.first (Instruction.walk configuration.store frame
          configuration.registers.environment)))) := by
    simp only [Instruction.locate, numbers, frameEq, positionEq, Int.toNat_natCast]
  have stepped := step_of_performs running untraced decoded (.ld code located)
  refine ⟨by rw [error?, stepped], ?_⟩
  rw [next, stepped, commit_eq]
  exact Store.cell?_cons_self

theorem environment_of_ap {closure below : Value} (completes : configuration.Completes .ap)
    (top : configuration.store.cell? configuration.registers.stack = some ⟨closure, below⟩)
    (applied : configuration.store.cell? closure = some cell) :
    ∃ address first, configuration.next.registers.environment = .pair address ∧
      configuration.next.store.cell? (.pair address) = some ⟨first, cell.second⟩ := by
  obtain ⟨rest, effect, executes⟩ := completes.executes
  have registers := executes.registers
  have store := executes.store
  cases executes.performs with
  | ap found _ code =>
      rw [top] at found
      cases found
      rw [applied] at code
      cases code
      rw [registers, store]
      exact ⟨_, _, rfl, Store.cell?_cons_self⟩
  | arithmetic kind => cases kind

end

end Configuration

theorem Store.ListAt.first_walk {store : Store} {value element : Value} {cells : List Address}
    {elements : List Value} (list : store.ListAt value cells elements) {position : Nat}
    (found : elements[position]? = some element) :
    store.first (Instruction.walk store position value) = element := by
  induction list generalizing position with
  | nil => cases found
  | cons present _ ih =>
      cases position with
      | zero =>
          cases found
          exact Store.first_of_cell? present
      | succ position =>
          simp only [Instruction.walk, present]
          exact ih found

namespace Configuration

theorem Tied.closure {store : Store} {frame : Address} {environment closure : Value}
    {cells : List Address} {bodies closures : List Value}
    (tied : Tied store frame environment cells bodies closures) (member : closure ∈ closures) :
    ∃ body, store.cell? closure = some ⟨body, .pair frame⟩ := by
  obtain ⟨position, rfl⟩ := List.get_of_mem member
  obtain ⟨same, made⟩ := List.forall₂_iff_get.mp tied.made
  exact ⟨_, made position (Nat.lt_of_lt_of_eq position.2 same.symm) position.2⟩

/-- LD finds a closure through an environment that begins with the frame, or whose second frame it
is. -/
theorem Tied.pushes {ready : Configuration} {frame : Address} {environment closure : Value}
    {cells : List Address} {bodies closures : List Value} {calls depth position : Nat}
    (tied : Tied ready.store frame environment cells bodies closures)
    (kept : ∀ call < calls, ∀ address ∈ frame :: cells, ¬(ready.after call).Overwrites address)
    (untraced : ready.machine.trace = none) (found : closures[position]? = some closure)
    (leads : Instruction.walk (ready.after calls).store depth
      (ready.after calls).registers.environment = .pair frame)
    (loads : (ready.after calls).Loads depth position) : (ready.after calls).Pushes closure := by
  obtain ⟨⟨list, bound, listed⟩, _⟩ := tied
  have boundStill := cell?_of_kept bound fun call early => kept call early frame List.mem_cons_self
  have listedStill : (ready.after calls).store.ListAt list cells closures := by
    refine listed.congr ?_
    intro address member
    obtain ⟨cell, present⟩ := Store.exists_cell_of_lt_size (listed.lt_size address member)
    rw [present]
    exact cell?_of_kept present fun call early =>
      kept call early address (List.mem_cons_of_mem frame member)
  have pushes := loads.pushes (untraced_after untraced calls)
  rwa [leads, Store.first_of_cell? boundStill, listedStill.first_walk found] at pushes

theorem Tied.walk_one {ready : Configuration} {frame : Address}
    {environment closure below : Value} {cells : List Address} {bodies closures : List Value}
    {call calls : Nat} (tied : Tied ready.store frame environment cells bodies closures)
    (member : closure ∈ closures) (early : call < calls)
    (completes : (ready.after call).Completes .ap)
    (top : (ready.after call).store.cell? (ready.after call).registers.stack =
      some ⟨closure, below⟩) :
    Instruction.walk (ready.after calls).store 1 (ready.after (call + 1)).registers.environment =
      .pair frame := by
  obtain ⟨body, applied⟩ := tied.closure member
  obtain ⟨address, rfl⟩ := Store.eq_pair_of_cell? applied
  obtain ⟨_, closed⟩ := second_after applied call
  obtain ⟨extended, _, environment, cell⟩ := environment_of_ap completes top closed
  obtain ⟨more, rfl⟩ := Nat.exists_eq_add_of_le early
  obtain ⟨_, still⟩ := second_after cell more
  rw [after_add, after, environment]
  simp only [Instruction.walk, still]

def Restores (configuration : Configuration) (stack environment control dump : Value) : Prop :=
  configuration.next.store.second configuration.next.registers.stack = stack ∧
    configuration.next.registers.environment = environment ∧
    configuration.next.registers.control = control ∧
    configuration.next.registers.dump = dump

theorem restores_of_saves {configuration : Configuration}
    {stack environment control below : Value} (completes : configuration.Completes .rtn)
    (saves : configuration.store.Saves configuration.registers.dump stack environment control
      below) :
    configuration.Restores stack environment control below := by
  obtain ⟨rest, effect, executes⟩ := completes.executes
  obtain ⟨entry, cells, linked, list⟩ := saves
  have registers := executes.registers
  have store := executes.store
  cases executes.performs with
  | rtn top popped frame =>
      rw [linked] at popped
      cases popped
      have same := (Instruction.callFrame_of_listAt list).symm.trans frame
      simp only [Except.ok.injEq, Prod.mk.injEq] at same
      obtain ⟨rfl, rfl, rfl⟩ := same
      rw [Restores, registers, store]
      exact ⟨Store.second_of_cell? Store.cell?_cons_self, rfl, rfl, rfl⟩
  | arithmetic kind => cases kind

/-- The code of mutually recursive functions ties the knot. It makes a frame with the list of the
closures, each of which has this very frame in front of its environment, and calls its body there.
Until RAP overwrites the frame or a pair of that list, LD finds the closures from the body and from
their calls. A return that finds the dump again goes back to the environment without the frame. -/
theorem letrec_ties_the_knot (start : Configuration) (bodies : List Value) (body rest : Value)
    (running : start.machine.halted = false) (untraced : start.machine.trace = none)
    (closed : start.store.Closed)
    (known : ∀ value ∈ start.registers.values, start.store.Knows value)
    (code : start.store.Stacked rest (letrecCode bodies body) start.registers.control) :
    (∀ call < 2 * bodies.length + 4, (start.after call).error? = none) ∧
    let ready := start.after (2 * bodies.length + 4)
    ready.machine.halted = false ∧ ready.registers.control = body ∧ ready.registers.stack = .nil ∧
    ready.store.Saves ready.registers.dump start.registers.stack start.registers.environment rest
      start.registers.dump ∧
    (∀ calls, (ready.after calls).registers.dump = ready.registers.dump →
      (ready.after calls).Completes .rtn → (ready.after calls).Restores start.registers.stack
        start.registers.environment rest start.registers.dump) ∧
    ∃ frame cells closures, ready.registers.environment = .pair frame ∧
      Tied ready.store frame start.registers.environment cells bodies closures ∧
      ∀ calls,
        (∀ call < calls, ∀ address ∈ frame :: cells, ¬(ready.after call).Overwrites address) →
        ∀ position closure, closures[position]? = some closure →
          ((ready.after calls).registers.environment = .pair frame →
            (ready.after calls).Loads 0 position → (ready.after calls).Pushes closure) ∧
          ∀ call < calls, ∀ applied ∈ closures, ∀ below, (ready.after call).Completes .ap →
            (ready.after call).store.cell? (ready.after call).registers.stack =
              some ⟨applied, below⟩ →
            (ready.after calls).registers.environment =
              (ready.after (call + 1)).registers.environment →
            (ready.after calls).Loads 1 position → (ready.after calls).Pushes closure := by
  have free : ∀ value ∈ start.registers.values, start.store.Avoids (fun _ => False) value :=
    fun value member => ⟨closed, by simp, known value member, by simp⟩
  have arrives : start.Arrives 0 start.registers start.store :=
    ⟨running, untraced, rfl, rfl, by simp⟩
  obtain ⟨before, cells, closures, beforeClosed, beforeKnown, tied, arrived⟩ :=
    arrives_tied arrives free code
  obtain ⟨runs, quiet, registers, store, succeeded⟩ := arrived
  refine ⟨succeeded, ?_⟩
  generalize start.after (2 * bodies.length + 4) = ready at runs quiet registers store
  have dump : ready.registers.dump = .pair (before.size + 3) := by rw [registers]
  have environment : ready.registers.environment = .pair start.store.size := by rw [registers]
  have rests := Deposit.rests_ofCall beforeClosed (by rwa [registers]) store dump
  have saved := before.extends_saveCall start.registers.stack start.registers.environment rest
    start.registers.dump
  have tied := tied.mono saved
  rw [← store] at tied
  refine ⟨runs, by rw [registers], by rw [registers], ?_, ?_, start.store.size, cells, closures,
    environment, tied, ?_⟩
  · rw [dump]
    exact rests.saves 0 dump
  · intro calls same completes
    apply restores_of_saves completes
    rw [same, dump]
    exact rests.saves calls (same.trans dump)
  · intro calls kept position closure found
    constructor
    · intro here loads
      exact tied.pushes kept quiet found (congrArg _ here) loads
    · intro call early applied member below completes top same loads
      have leads := tied.walk_one member early completes top
      rw [← same] at leads
      exact tied.pushes kept quiet found leads loads

def siblingLookup : Datum :=
  .ofList [.integer 6, .integer 2, .nil, .integer 3, .ofList [.integer 5], .integer 13,
    .integer 3, .ofList [.integer 1, .pair (.integer 1) (.integer 1), .integer 5], .integer 13,
    .integer 3,
    .ofList [.integer 2, .nil, .integer 1, .pair (.integer 0) (.integer 0), .integer 4, .integer 5],
    .integer 7, .integer 21]

def startOf (program : Datum) : Configuration :=
  start (Store.load {} program).2 (Store.load {} program).1 .nil none

theorem closed_startOf (program : Datum) : (startOf program).store.Closed ∧
    ∀ value ∈ (startOf program).registers.values, (startOf program).store.Knows value := by
  have nil : ∀ store : Store, store.Knows .nil := fun store => by simp [Store.Knows, Value.nil]
  obtain ⟨closed, known, _⟩ := Store.closed_empty.load program
  refine ⟨closed.cons (nil _) (nil _), ?_⟩
  simp only [Registers.values, List.forall_mem_cons]
  refine ⟨?_, nil _, known.mono (Store.size_le_cons ..), nil _, by simp⟩
  rintro address ⟨⟩
  exact Store.lt_size_of_cell? Store.cell?_cons_self

theorem siblingLookup_finds_both :
    let ready := (startOf siblingLookup).after 8
    ∃ first second, (ready.after 1).Pushes first ∧ (ready.after 3).Pushes second ∧
      (ready.after 5).Restores (.pair 25) .nil (.pair 12) .nil := by
  intro ready
  obtain ⟨closed, known⟩ := closed_startOf siblingLookup
  have code : (startOf siblingLookup).store.Stacked (.pair 12)
      (letrecCode [.pair 4, .pair 0] (.pair 11)) (startOf siblingLookup).registers.control := by
    iterate 12 refine .push rfl ?_
    exact .base
  have quiet : ∀ call < 3, ¬(ready.after call).Completes .rap := by decide
  obtain ⟨_, _, _, _, _, returns, frame, cells, closures, environment, tied, finds⟩ :=
    letrec_ties_the_knot (startOf siblingLookup) [.pair 4, .pair 0] (.pair 11) (.pair 12) rfl rfl
      closed known code
  have unwritten : ∀ calls ≤ 3, ∀ call < calls, ∀ address ∈ frame :: cells,
      ¬(ready.after call).Overwrites address :=
    fun calls bound call early address _ overwrites =>
      quiet call (Nat.lt_of_lt_of_le early bound) overwrites.1
  have lookup : ∃ first second, closures = [first, second] := by
    obtain _ | ⟨_, _ | ⟨_, ⟨⟩⟩⟩ := tied.made
    exact ⟨_, _, rfl⟩
  obtain ⟨first, second, rfl⟩ := lookup
  have inside : (ready.after 1).registers.environment = .pair frame := by
    rw [← environment]
    decide
  have pushed := (finds 1 (unwritten 1 (by decide)) 0 first rfl).1 inside
    ⟨by decide, .pair 8, .pair 7, .pair 5, 0, 0, by decide +kernel, by decide, by decide, rfl, rfl⟩
  refine ⟨first, second, pushed, ?_, returns 5 (by decide) (by decide)⟩
  exact (finds 3 (unwritten 3 (by decide)) 1 second rfl).2 2 (by decide) first (by simp) _
    (by decide) pushed.2 (by decide)
    ⟨by decide, .pair 3, .pair 2, .pair 1, 1, 1, by decide +kernel, by decide, by decide, rfl, rfl⟩

def listOverwritten : Datum :=
  .ofList [.integer 6, .integer 2, .nil, .integer 3, .ofList [.integer 5], .integer 13,
    .integer 3,
    .ofList [.integer 2, .integer 7, .integer 1, .pair (.integer 0) (.integer 0), .integer 11,
      .integer 10, .integer 2, .ofList [.integer 2, .integer 1, .integer 5], .integer 13,
      .integer 6, .integer 7, .integer 1, .pair (.integer 0) (.integer 0), .integer 21],
    .integer 7, .integer 21]

theorem listOverwritten_loses_closure :
    let start := startOf listOverwritten
    let ready := start.after 6
    start.machine.halted = false ∧ start.machine.trace = none ∧ start.store.Closed ∧
    (∀ value ∈ start.registers.values, start.store.Knows value) ∧
    start.store.Stacked (.pair 20) (letrecCode [.pair 0] (.pair 19)) start.registers.control ∧
    ready.registers.environment = .pair 31 ∧
    Tied ready.store 31 .nil [35] [.pair 0] [.pair 33] ∧
    (∀ call < 10, ¬(ready.after call).Overwrites 31) ∧
    (ready.after 10).registers.environment = .pair 31 ∧ (ready.after 10).Loads 0 0 ∧
    (ready.after 10).Pushes (.integer 7) ∧ ¬(ready.after 10).Pushes (.pair 33) := by
  intro start ready
  obtain ⟨closed, known⟩ := closed_startOf listOverwritten
  have listed : ready.store.cell? (.pair 35) = some ⟨.pair 33, .nil⟩ := by decide
  have only : ∀ call < 10, (ready.after call).Completes .rap → call = 7 := by decide
  have changes : (ready.after 7).Changes 35 := ⟨⟨.pair 33, .nil⟩, by decide, by decide⟩
  refine ⟨rfl, rfl, closed, known, ?_, by decide,
    ⟨⟨.pair 35, by decide, .cons listed .nil⟩, .cons (by decide) .nil⟩, ?_, by decide, ?_,
    ⟨by decide, by decide⟩, ?_⟩
  · iterate 9 refine .push rfl ?_
    exact .base
  · rintro call early ⟨completes, overwrites⟩
    obtain rfl := only call early completes
    have same := overwrites.unique (completesFrame_of_changes changes).2
    exact absurd same (by decide)
  · exact ⟨by decide, .pair 7, .pair 6, .pair 5, 0, 0, by decide +kernel, by decide, by decide, rfl,
      rfl⟩
  · rintro ⟨_, pushed⟩
    exact absurd pushed (by decide)

end Configuration

end SecdMachine
