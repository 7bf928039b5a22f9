import SecdMachine.Proofs.Environments

/-!
Structured code keeps control of the machine. Code is a sequence of instructions with one terminator:
RTN in the body of a function, JOIN in a branch, STOP in the program. While such code runs, every
entry of the dump is of the kind that the current terminator takes, so no instruction finds the code
or the dump in a state that it cannot use.
-/

namespace SecdMachine

namespace Opcode

def isTerminator : Opcode → Bool
  | rtn => true
  | join => true
  | stop => true
  | _ => false

def standsAlone : Opcode → Bool
  | ap => true
  | dum => true
  | rap => true
  | car => true
  | cdr => true
  | atom => true
  | cons => true
  | eq => true
  | opcode => opcode.isArithmetic

theorem isTerminator_of_standsAlone {opcode : Opcode} (kind : opcode.standsAlone = true) :
    opcode.isTerminator = false := by
  cases opcode <;> simp [standsAlone, isArithmetic] at kind <;> rfl

theorem ofNumber?_number (opcode : Opcode) :
    ofNumber? (Int64.ofNat opcode.number).toInt = some opcode := by
  cases opcode <;> decide

end Opcode

def Store.Opens (store : Store) (control : Value) (opcode : Opcode) (rest : Value) : Prop :=
  store.cell? control = some ⟨.integer (Int64.ofNat opcode.number), rest⟩

/-- Code that goes on to the given terminator. The bodies of functions end in RTN and branches in
JOIN; what stands after a terminator is never looked at. -/
inductive Structured (store : Store) : Opcode → Value → Prop
  | ends {terminator : Opcode} {control rest : Value} (last : terminator.isTerminator = true)
      (opens : store.Opens control terminator rest) : Structured store terminator control
  | alone {terminator opcode : Opcode} {control rest : Value} (kind : opcode.standsAlone = true)
      (opens : store.Opens control opcode rest) (next : Structured store terminator rest) :
      Structured store terminator control
  | ld {terminator : Opcode} {control operands address rest : Value} {frame position : Int64}
      (opens : store.Opens control .ld operands)
      (operand : store.cell? operands = some ⟨address, rest⟩)
      (place : store.cell? address = some ⟨.integer frame, .integer position⟩)
      (next : Structured store terminator rest) : Structured store terminator control
  | ldc {terminator : Opcode} {control operands value rest : Value}
      (opens : store.Opens control .ldc operands)
      (operand : store.cell? operands = some ⟨value, rest⟩)
      (next : Structured store terminator rest) : Structured store terminator control
  | ldf {terminator : Opcode} {control operands body rest : Value}
      (opens : store.Opens control .ldf operands)
      (operand : store.cell? operands = some ⟨body, rest⟩)
      (function : Structured store .rtn body)
      (next : Structured store terminator rest) : Structured store terminator control
  | sel {terminator : Opcode} {control operands first more second rest : Value}
      (opens : store.Opens control .sel operands)
      (operand : store.cell? operands = some ⟨first, more⟩)
      (other : store.cell? more = some ⟨second, rest⟩)
      (whenTrue : Structured store .join first) (whenFalse : Structured store .join second)
      (next : Structured store terminator rest) : Structured store terminator control

/-- The entries of a dump that is ready for the given terminator: each goes on with code whose own
terminator the entries below are ready for. -/
inductive Suspended (store : Store) : Opcode → List Entry → Prop
  | program : Suspended store .stop []
  | call {terminator : Opcode} {cell : Address} {cells : List Address}
      {stack environment control : Value} {entries : List Entry}
      (code : Structured store terminator control) (below : Suspended store terminator entries) :
      Suspended store .rtn (⟨cell, .call cells stack environment control⟩ :: entries)
  | branch {terminator : Opcode} {cell : Address} {control : Value} {entries : List Entry}
      (code : Structured store terminator control) (below : Suspended store terminator entries) :
      Suspended store .join (⟨cell, .branch control⟩ :: entries)

structure Guided (code : Store) (closures : Address → Value → Prop) (terminator : Opcode)
    (entries : List Entry) (configuration : Configuration) : Prop where
  kept : ∀ value cell, code.cell? value = some cell →
    configuration.store.cell? value = some cell
  control : Structured code terminator configuration.registers.control
  bodies : ∀ address body, closures address body → Structured code .rtn body
  suspended : Suspended code terminator entries

def Proceeds (code : Store) (entries : List Entry) (configuration : Configuration) : Prop :=
  ∃ terminator, Structured code terminator configuration.registers.control ∧
    Suspended code terminator entries

namespace Guided

variable {code : Store} {frames : Address → Prop} {closures moreClosures : Address → Value → Prop}
  {terminator opcode : Opcode} {entries after : List Entry} {before : Configuration}
  {rest : Value} {effect : Effect}

theorem decode_eq (guided : Guided code closures terminator entries before)
    (opens : code.Opens before.registers.control opcode rest) :
    Instruction.decode before.store before.registers.control = .ok (opcode, rest) :=
  Instruction.decode_eq_ok_iff.mpr ⟨_, guided.kept _ _ opens, opcode.ofNumber?_number⟩

theorem opens_unique (guided : Guided code closures terminator entries before)
    (executes : before.Executes opcode rest effect) {other : Opcode} {more : Value}
    (opens : code.Opens before.registers.control other more) : other = opcode ∧ more = rest := by
  have same := (guided.decode_eq opens).symm.trans executes.decoded
  simpa using same

theorem code_kept (guided : Guided code closures terminator entries before)
    (framed : Framed code.size frames closures entries before)
    (executes : before.Executes opcode rest effect)
    (applied : opcode = .rap → Framed.Applies closures before) {value : Value} {cell : Cell}
    (found : code.cell? value = some cell) : before.next.store.cell? value = some cell := by
  obtain ⟨address, rfl⟩ := Store.eq_pair_of_cell? found
  have inside := Store.lt_size_of_cell? found
  have other : ¬frames address :=
    fun known => absurd (framed.linked address known).1 (Nat.not_le.mpr inside)
  rw [framed.kept executes applied (Nat.lt_of_lt_of_le inside framed.grown) other]
  exact guided.kept _ _ found

theorem bodies_step (guided : Guided code closures terminator entries before)
    (executes : before.Executes opcode rest effect)
    (makes : Framed.Makes closures moreClosures before opcode rest)
    {address : Address} {body : Value} (known : moreClosures address body) :
    Structured code .rtn body := by
  rcases makes.made address body known with known | ⟨rfl, more, operand⟩
  · exact guided.bodies address body known
  · cases guided.control with
    | ldf opens found function _ =>
        obtain ⟨_, rfl⟩ := guided.opens_unique executes opens
        rw [guided.kept _ _ found] at operand
        cases operand
        exact function
    | ends last opens =>
        obtain ⟨rfl, _⟩ := guided.opens_unique executes opens
        simp [Opcode.isTerminator] at last
    | alone kind opens _ =>
        obtain ⟨rfl, _⟩ := guided.opens_unique executes opens
        simp [Opcode.standsAlone, Opcode.isArithmetic] at kind
    | ld opens | ldc opens | sel opens => simpa using (guided.opens_unique executes opens).1

theorem terminator_step (guided : Guided code closures terminator entries before)
    (executes : before.Executes terminator rest effect)
    (moves : Moves before terminator entries after) :
    Proceeds code after before.next := by
  cases guided.suspended with
  | program =>
      obtain rfl := moves.eq_of_unmoved rfl
      have registers := executes.registers
      cases executes.performs with
      | arithmetic kind => simp [Opcode.isArithmetic] at kind
      | stop =>
          refine ⟨.stop, ?_, .program⟩
          rw [registers]
          exact guided.control
  | @call next _ _ _ _ _ _ resumed below =>
      cases moves with
      | stay unmoved => simp [Opcode.movesDump] at unmoved
      | rtn _ restored =>
          refine ⟨next, ?_, below⟩
          rw [(restored _ _ _ _ rfl).2.2]
          exact resumed
  | @branch next _ _ _ resumed below =>
      cases moves with
      | stay unmoved => simp [Opcode.movesDump] at unmoved
      | join restored =>
          refine ⟨next, ?_, below⟩
          rw [restored _ rfl]
          exact resumed

theorem rest_eq (executes : before.Executes opcode rest effect) {number control : Value}
    (found : before.store.cell? before.registers.control = some ⟨number, control⟩) :
    control = rest := by
  obtain ⟨_, decoded, _⟩ := Instruction.decode_eq_ok_iff.mp executes.decoded
  rw [decoded] at found
  cases found
  rfl

theorem alone_step (guided : Guided code closures terminator entries before)
    (framed : Framed code.size frames closures entries before)
    {moreFrames : Address → Prop}
    (framedAfter : Framed code.size moreFrames moreClosures after before.next)
    (makes : Framed.Makes closures moreClosures before opcode rest)
    (executes : before.Executes opcode rest effect)
    (applied : opcode = .ap ∨ opcode = .rap → Framed.Applies closures before)
    (kind : opcode.standsAlone = true) (goesOn : Structured code terminator rest)
    (moves : Moves before opcode entries after) :
    Proceeds code after before.next := by
  have registers := executes.registers
  cases executes.performs with
  | ap top _ found =>
      obtain ⟨address, body, known, same⟩ := applied (Or.inl rfl)
      rw [Store.first_of_cell? top] at same
      simp only at same
      subst same
      cases moves with
      | stay unmoved => simp [Opcode.movesDump] at unmoved
      | ap saved _ _ =>
          obtain rfl := rest_eq executes saved
          refine ⟨.rtn, ?_, .call goesOn guided.suspended⟩
          obtain ⟨_, _, here, _⟩ := framed.applicable address body known
          rw [here] at found
          cases found
          rw [registers]
          exact guided.bodies address body known
  | rap top _ _ _ _ =>
      obtain ⟨address, body, known, same⟩ := applied (Or.inr rfl)
      rw [Store.first_of_cell? top] at same
      simp only at same
      subst same
      cases moves with
      | stay unmoved => simp [Opcode.movesDump] at unmoved
      | rap saved _ _ =>
          obtain rfl := rest_eq executes saved
          refine ⟨.rtn, ?_, .call goesOn guided.suspended⟩
          -- The code is fetched after the frame is completed, which must not be the closure itself.
          have fetched : before.next.registers.control = before.next.store.first (.pair address) := by
            rw [registers, executes.store]
            rfl
          obtain ⟨_, _, there, _⟩ := framedAfter.applicable address body (makes.grown _ _ known)
          rw [fetched, Store.first_of_cell? there]
          exact guided.bodies address body known
  | dum | car | cdr | atom | cons | eq =>
      obtain rfl := moves.eq_of_unmoved rfl
      refine ⟨terminator, ?_, guided.suspended⟩
      rw [registers]
      exact goesOn
  | arithmetic number =>
      obtain rfl := moves.eq_of_unmoved (Opcode.movesDump_of_isArithmetic number)
      refine ⟨terminator, ?_, guided.suspended⟩
      rw [registers]
      exact goesOn
  | ld | ldc | ldf | rtn | sel | join | stop =>
      simp [Opcode.standsAlone, Opcode.isArithmetic] at kind

theorem operand_step (guided : Guided code closures terminator entries before)
    (executes : before.Executes opcode rest effect)
    (kind : opcode = .ld ∨ opcode = .ldc ∨ opcode = .ldf) {value more : Value}
    (operand : code.cell? rest = some ⟨value, more⟩) (goesOn : Structured code terminator more)
    (moves : Moves before opcode entries after) :
    Proceeds code after before.next := by
  have here := guided.kept _ _ operand
  have unmoved : opcode.movesDump = false := by
    rcases kind with rfl | rfl | rfl <;> rfl
  obtain rfl := moves.eq_of_unmoved unmoved
  refine ⟨terminator, ?_, guided.suspended⟩
  rw [executes.registers]
  cases executes.performs with
  | ld found _ | ldc found | ldf found =>
      rw [here] at found
      cases found
      exact goesOn
  | arithmetic number => rcases kind with rfl | rfl | rfl <;> simp [Opcode.isArithmetic] at number
  | ap | rtn | dum | rap | sel | join | car | cdr | atom | cons | eq | stop => simp at kind

theorem branch_step (guided : Guided code closures terminator entries before)
    (executes : before.Executes .sel rest effect) {first more second joined : Value}
    (operand : code.cell? rest = some ⟨first, more⟩)
    (other : code.cell? more = some ⟨second, joined⟩)
    (whenTrue : Structured code .join first) (whenFalse : Structured code .join second)
    (goesOn : Structured code terminator joined) (moves : Moves before .sel entries after) :
    Proceeds code after before.next := by
  have here := guided.kept _ _ operand
  have there := guided.kept _ _ other
  have registers := executes.registers
  cases moves with
  | stay unmoved => simp [Opcode.movesDump] at unmoved
  | sel saved found next =>
      obtain rfl := rest_eq executes saved
      rw [here] at found
      cases found
      rw [there] at next
      cases next
      refine ⟨.join, ?_, .branch goesOn guided.suspended⟩
      rw [registers]
      cases executes.performs with
      | arithmetic number => simp [Opcode.isArithmetic] at number
      | @sel _ _ _ _ _ name _ found next _ =>
          rw [here] at found
          cases found
          rw [there] at next
          cases next
          simp only [Effect.perform]
          split
          · exact whenTrue
          · exact whenFalse

/-- One instruction takes the machine from structured code to structured code, with a dump that is
ready for the new terminator. -/
theorem step (guided : Guided code closures terminator entries before)
    (framed : Framed code.size frames closures entries before)
    {moreFrames : Address → Prop}
    (framedAfter : Framed code.size moreFrames moreClosures after before.next)
    (makes : Framed.Makes closures moreClosures before opcode rest)
    (executes : before.Executes opcode rest effect)
    (applied : opcode = .ap ∨ opcode = .rap → Framed.Applies closures before)
    (moves : Moves before opcode entries after) :
    ∃ next, Guided code moreClosures next after before.next := by
  have follows : Proceeds code after before.next := by
    cases guided.control with
    | ends last opens =>
        obtain ⟨rfl, rfl⟩ := guided.opens_unique executes opens
        exact guided.terminator_step executes moves
    | alone kind opens goesOn =>
        obtain ⟨rfl, rfl⟩ := guided.opens_unique executes opens
        exact guided.alone_step framed framedAfter makes executes applied kind goesOn moves
    | ld opens operand _ goesOn | ldc opens operand goesOn | ldf opens operand _ goesOn =>
        obtain ⟨rfl, rfl⟩ := guided.opens_unique executes opens
        exact guided.operand_step executes (by simp) operand goesOn moves
    | sel opens operand other whenTrue whenFalse goesOn =>
        obtain ⟨rfl, rfl⟩ := guided.opens_unique executes opens
        exact guided.branch_step executes operand other whenTrue whenFalse goesOn moves
  obtain ⟨next, control, suspended⟩ := follows
  exact ⟨next, fun _ _ => guided.code_kept framed executes (fun same => applied (Or.inr same)),
    control, fun _ _ => guided.bodies_step executes makes, suspended⟩

end Guided

end SecdMachine
