import SecdMachine.Proofs.Dump

/-!
Environments are apart from everything else. In a run that applies only closures it has made, the
environment register, every closure and every saved state hold lists of frames that were added by
calls and by DUM, and such a frame is all that a recursive call ever overwrites.
-/

namespace SecdMachine

namespace Effect

theorem second_perform {effect : Effect} {registers : Registers} {store : Store} {address : Nat}
    {cell : Cell} (found : store.cell? (.pair address) = some cell) :
    ∃ first, (effect.perform registers store).2.cell? (.pair address) =
      some ⟨first, cell.second⟩ := by
  have old := Store.lt_size_of_cell? found
  by_cases target : effect.target = some address
  · cases effect with
    | callRecursive closure frame environment stack saved control =>
        cases target
        refine ⟨frame, Store.cell?_setFirst_self ?_⟩
        exact (Store.cell?_saveCall_of_lt old).trans found
    | push | pushPair | call | «return» | extend | branch | resume | halt =>
        simp [Effect.target] at target
  · exact ⟨cell.first, by rw [cell?_perform old target, found]⟩

theorem cell?_pushPair {registers : Registers} {store : Store} {first second stack control : Value} :
    ((pushPair first second stack control).perform registers store).2.cell? (.pair store.size) =
      some ⟨first, second⟩ := by
  have made : (store.cons first second).2.cell? (.pair store.size) = some ⟨first, second⟩ :=
    Store.cell?_cons_self
  exact (Store.cell?_cons_of_lt (Store.lt_size_of_cell? made)).trans made

theorem environment_call {registers : Registers} {store : Store}
    {code frame environment stack control : Value} :
    ((call code frame environment stack control).perform registers store).1.environment =
      .pair (store.size + 4) := by
  simp [perform, Store.size_list]

end Effect

def IsEnvironment (frames : Address → Prop) (value : Value) : Prop :=
  value = .nil ∨ ∃ address, frames address ∧ value = .pair address

theorem IsEnvironment.mono {frames larger : Address → Prop} {value : Value}
    (environment : IsEnvironment frames value) (grown : ∀ address, frames address → larger address) :
    IsEnvironment larger value := by
  rcases environment with rfl | ⟨address, known, rfl⟩
  · exact Or.inl rfl
  · exact Or.inr ⟨address, grown address known, rfl⟩

/-- `frames` are the cells of environments, all of them made since the store had `base` cells, and
`closures` the closures with their code; the two have no cell in common with each other or with the
dump. -/
structure Framed (base : Nat) (frames : Address → Prop) (closures : Address → Value → Prop)
    (entries : List Entry) (configuration : Configuration) : Prop where
  grown : base ≤ configuration.store.size
  linked : ∀ address, frames address → base ≤ address ∧
    ∃ cell, configuration.store.cell? (.pair address) = some cell ∧
      IsEnvironment frames cell.second
  applicable : ∀ address body, closures address body → ¬frames address ∧
    ∃ environment, configuration.store.cell? (.pair address) = some ⟨body, environment⟩ ∧
      IsEnvironment frames environment
  environment : IsEnvironment frames configuration.registers.environment
  dump : configuration.registers.dump = dumpOf entries
  holds : Holds configuration.store entries
  apart : ∀ address ∈ owned entries, ¬frames address
  saved : ∀ entry ∈ entries, ∀ cells stack environment control,
    entry.saved = .call cells stack environment control → IsEnvironment frames environment

namespace Framed

variable {base : Nat} {frames : Address → Prop} {closures : Address → Value → Prop}
  {entries : List Entry} {before : Configuration} {opcode : Opcode} {rest : Value} {effect : Effect}

def Applies (closures : Address → Value → Prop) (configuration : Configuration) : Prop :=
  ∃ address body, closures address body ∧
    configuration.store.first configuration.registers.stack = .pair address

theorem lt_size (framed : Framed base frames closures entries before) {address : Nat}
    (known : frames address) : address < before.store.size := by
  obtain ⟨_, _, found, _⟩ := framed.linked address known
  exact Store.lt_size_of_cell? found

theorem environment_of_applied (framed : Framed base frames closures entries before)
    (applied : Applies closures before) {closure below : Value} {cell : Cell}
    (top : before.store.cell? before.registers.stack = some ⟨closure, below⟩)
    (code : before.store.cell? closure = some cell) : IsEnvironment frames cell.second := by
  obtain ⟨address, body, known, same⟩ := applied
  rw [Store.first_of_cell? top] at same
  simp only at same
  obtain ⟨_, environment, found, isEnvironment⟩ := framed.applicable address body known
  rw [same, found] at code
  cases code
  exact isEnvironment

theorem environment_of_outer (framed : Framed base frames closures entries before) {outer : Cell}
    (around : before.store.cell? before.registers.environment = some outer) :
    IsEnvironment frames outer.second := by
  rcases framed.environment with absent | ⟨address, known, same⟩
  · rw [absent] at around
    simp [Value.nil, Store.cell?] at around
  · obtain ⟨_, cell, found, isEnvironment⟩ := framed.linked address known
    rw [same, found] at around
    cases around
    exact isEnvironment

theorem frame_of_pair {address : Address} (isEnvironment : IsEnvironment frames (.pair address)) :
    frames address := by
  rcases isEnvironment with absent | ⟨frame, known, same⟩
  · simp [Value.nil] at absent
  · cases same
    exact known

theorem kept (framed : Framed base frames closures entries before)
    (executes : before.Executes opcode rest effect)
    (applied : opcode = .rap → Applies closures before) {address : Nat}
    (old : address < before.store.size) (other : ¬frames address) :
    before.next.store.cell? (.pair address) = before.store.cell? (.pair address) := by
  rw [executes.store]
  apply Effect.cell?_perform old
  cases executes.performs with
  | rap top _ code _ _ =>
      rintro ⟨⟩
      exact other (frame_of_pair (framed.environment_of_applied (applied rfl) top code))
  | ld | ldc | ldf | ap | rtn | dum | sel | join | car | cdr | atom | cons | eq | arithmetic |
      stop => simp [Effect.target]

theorem of_unchanged (framed : Framed base frames closures entries before) {trace : Option Sink}
    (unchanged : before.next = ⟨before.machine.withTrace trace, before.store⟩) :
    Framed base frames closures entries before.next := by
  rw [unchanged]
  exact ⟨framed.grown, framed.linked, framed.applicable, framed.environment, framed.dump,
    framed.holds, framed.apart, framed.saved⟩

/-- What is left to check of the invariant when the frames that an instruction adds are known:
everything that was there before is still as it was. -/
theorem advance (framed : Framed base frames closures entries before)
    (executes : before.Executes opcode rest effect)
    (applied : opcode = .rap → Applies closures before) (new : Address → Prop)
    {moreClosures : Address → Value → Prop} {after : List Entry}
    (added : ∀ address, new address → before.store.size ≤ address ∧
      ∃ cell, before.next.store.cell? (.pair address) = some cell ∧
        IsEnvironment frames cell.second)
    (made : ∀ address body, moreClosures address body → closures address body ∨
      before.store.size ≤ address ∧ ¬new address ∧
        ∃ environment, before.next.store.cell? (.pair address) = some ⟨body, environment⟩ ∧
          IsEnvironment frames environment)
    (environment : IsEnvironment (fun address => frames address ∨ new address)
      before.next.registers.environment)
    (dump : before.next.registers.dump = dumpOf after) (holds : Holds before.next.store after)
    (pushed : ∀ address ∈ owned after, address ∈ owned entries ∨
      before.store.size ≤ address ∧ ¬new address)
    (saved : ∀ entry ∈ after, entry ∈ entries ∨ ∀ cells stack environment control,
      entry.saved = .call cells stack environment control → IsEnvironment frames environment) :
    Framed base (fun address => frames address ∨ new address) moreClosures after before.next := by
  have size : before.store.size ≤ before.next.store.size := by
    rw [executes.store]
    exact Effect.size_le_perform _ _ _
  have wider : ∀ {value}, IsEnvironment frames value →
      IsEnvironment (fun address => frames address ∨ new address) value :=
    fun environment => environment.mono fun _ => Or.inl
  have outside : ∀ {address : Nat}, address < before.store.size → ¬frames address →
      ¬(frames address ∨ new address) := by
    rintro address old other (known | fresh)
    · exact other known
    · exact absurd (added address fresh).1 (Nat.not_le.mpr old)
  refine ⟨Nat.le_trans framed.grown size, ?_, ?_, environment, dump, holds, ?_, ?_⟩
  · rintro address (known | fresh)
    · obtain ⟨lower, cell, found, second⟩ := framed.linked address known
      obtain ⟨first, still⟩ := Effect.second_perform found
      rw [← executes.store] at still
      exact ⟨lower, _, still, wider second⟩
    · obtain ⟨lower, cell, found, second⟩ := added address fresh
      exact ⟨Nat.le_trans framed.grown lower, cell, found, wider second⟩
  · intro address body known
    rcases made address body known with known | ⟨lower, other, environment, found, second⟩
    · obtain ⟨other, environment, found, second⟩ := framed.applicable address body known
      have old := Store.lt_size_of_cell? found
      refine ⟨outside old other, environment, ?_, wider second⟩
      rw [framed.kept executes applied old other, found]
    · refine ⟨?_, environment, found, wider second⟩
      rintro (known | fresh)
      · exact absurd (framed.lt_size known) (Nat.not_lt.mpr lower)
      · exact other fresh
  · intro address member
    rcases pushed address member with inside | ⟨lower, other⟩
    · exact outside (framed.holds.lt_size address inside) (framed.apart address inside)
    · rintro (known | fresh)
      · exact absurd (framed.lt_size known) (Nat.not_lt.mpr lower)
      · exact other fresh
  · intro entry member cells stack environment control shape
    rcases saved entry member with inside | new
    · exact wider (framed.saved entry inside cells stack environment control shape)
    · exact wider (new cells stack environment control shape)

theorem stay (framed : Framed base frames closures entries before)
    (executes : before.Executes opcode rest effect)
    (applied : opcode = .rap → Applies closures before)
    {moreClosures : Address → Value → Prop}
    (made : ∀ address body, moreClosures address body → closures address body ∨
      before.store.size ≤ address ∧
        ∃ environment, before.next.store.cell? (.pair address) = some ⟨body, environment⟩ ∧
          IsEnvironment frames environment)
    (environment : before.next.registers.environment = before.registers.environment)
    (dump : before.next.registers.dump = dumpOf entries) (holds : Holds before.next.store entries) :
    Framed base (fun address => frames address ∨ False) moreClosures entries before.next := by
  refine framed.advance executes applied (fun _ => False) (by simp) ?_ ?_ dump holds
    (fun _ member => Or.inl member) (fun _ member => Or.inl member)
  · intro address body known
    rcases made address body known with known | ⟨lower, found⟩
    · exact Or.inl known
    · exact Or.inr ⟨lower, id, found⟩
  · rw [environment]
    exact framed.environment.mono fun _ => Or.inl

theorem push (framed : Framed base frames closures entries before)
    (executes : before.Executes opcode rest effect)
    (applied : opcode = .rap → Applies closures before) (new : Address → Prop) {top : Entry}
    (added : ∀ address, new address → before.store.size ≤ address ∧
      ∃ cell, before.next.store.cell? (.pair address) = some cell ∧
        IsEnvironment frames cell.second)
    (fresh : ∀ address ∈ top.cells, before.store.size ≤ address ∧ ¬new address)
    (saved : ∀ cells stack environment control,
      top.saved = .call cells stack environment control → IsEnvironment frames environment)
    (environment : IsEnvironment (fun address => frames address ∨ new address)
      before.next.registers.environment)
    (dump : before.next.registers.dump = dumpOf (top :: entries))
    (holds : Holds before.next.store (top :: entries)) :
    Framed base (fun address => frames address ∨ new address) closures (top :: entries)
      before.next := by
  refine framed.advance executes applied new added (fun _ _ => Or.inl) environment dump holds ?_ ?_
  · intro address member
    rcases List.mem_append.mp member with inside | old
    · exact Or.inr (fresh address inside)
    · exact Or.inl old
  · intro entry member
    rcases List.mem_cons.mp member with rfl | old
    · exact Or.inr saved
    · exact Or.inl old

theorem pop {top : Entry} (framed : Framed base frames closures (top :: entries) before)
    (executes : before.Executes opcode rest effect)
    (applied : opcode = .rap → Applies closures before)
    (environment : IsEnvironment frames before.next.registers.environment)
    (dump : before.next.registers.dump = dumpOf entries) (holds : Holds before.next.store entries) :
    Framed base (fun address => frames address ∨ False) closures entries before.next := by
  refine framed.advance executes applied (fun _ => False) (by simp) (fun _ _ => Or.inl)
    (environment.mono fun _ => Or.inl) dump holds ?_ ?_
  · exact fun _ member => Or.inl (List.mem_append_right _ member)
  · exact fun _ member => Or.inl (List.mem_cons_of_mem _ member)

structure Makes (closures moreClosures : Address → Value → Prop) (before : Configuration)
    (opcode : Opcode) (rest : Value) : Prop where
  grown : ∀ address body, closures address body → moreClosures address body
  made : ∀ address body, moreClosures address body → closures address body ∨
    opcode = .ldf ∧ ∃ more, before.store.cell? rest = some ⟨body, more⟩
  applies : opcode = .ldf → Applies moreClosures before.next

def Adds (frames moreFrames : Address → Prop) (before : Configuration) (opcode : Opcode) : Prop :=
  ∀ address, moreFrames address → frames address ∨
    (opcode = .dum ∨ opcode = .ap) ∧ before.store.size ≤ address ∧
      before.next.registers.environment = .pair address

theorem adds_none : Adds frames (fun address => frames address ∨ False) before opcode :=
  fun _ known => Or.inl (known.resolve_right id)

theorem makes_none (other : opcode ≠ .ldf) : Makes closures closures before opcode rest :=
  ⟨fun _ _ => id, fun _ _ => Or.inl, fun same => absurd same other⟩

theorem step_ldf {body more : Value} (framed : Framed base frames closures entries before)
    (executes : before.Executes .ldf rest
      (.pushPair body before.registers.environment before.registers.stack more))
    (operand : before.store.cell? rest = some ⟨body, more⟩)
    (dump : before.next.registers.dump = dumpOf entries) (holds : Holds before.next.store entries) :
    ∃ moreFrames moreClosures, Framed base moreFrames moreClosures entries before.next ∧
      Makes closures moreClosures before .ldf rest ∧ Adds frames moreFrames before .ldf := by
  have fresh : before.next.store.cell? (.pair before.store.size) =
      some ⟨body, before.registers.environment⟩ := by
    rw [executes.store]
    exact Effect.cell?_pushPair
  refine ⟨_, fun address code => closures address code ∨ address = before.store.size ∧ code = body,
    framed.stay executes (by simp) ?_ ?_ dump holds, ⟨fun _ _ => Or.inl, ?_, ?_⟩, adds_none⟩
  · rintro address code (known | ⟨rfl, rfl⟩)
    · exact Or.inl known
    · exact Or.inr ⟨Nat.le_refl _, _, fresh, framed.environment⟩
  · rw [executes.registers]
    rfl
  · rintro address code (known | ⟨rfl, rfl⟩)
    · exact Or.inl known
    · exact Or.inr ⟨rfl, _, operand⟩
  · refine fun _ => ⟨before.store.size, body, Or.inr ⟨rfl, rfl⟩, ?_⟩
    rw [executes.registers, executes.store]
    exact Store.first_of_cell? Store.cell?_cons_self

theorem step_ap {arguments body environment below stack control : Value}
    (framed : Framed base frames closures entries before)
    (executes : before.Executes .ap rest (.call body arguments environment below rest))
    (outer : IsEnvironment frames environment)
    (dump : before.next.registers.dump =
      dumpOf (callEntry before.store stack before.registers.environment control :: entries))
    (holds : Holds before.next.store
      (callEntry before.store stack before.registers.environment control :: entries)) :
    ∃ moreFrames, Framed base moreFrames closures
      (callEntry before.store stack before.registers.environment control :: entries)
      before.next ∧ Adds frames moreFrames before .ap := by
  have size := before.store.size_saveCall below before.registers.environment rest
    before.registers.dump
  have extended : before.next.registers.environment = .pair (before.store.size + 4) := by
    rw [executes.registers, Effect.environment_call]
  refine ⟨_, framed.push executes (by simp) (fun address => address = before.store.size + 4)
    ?_ ?_ ?_ ?_ dump holds, ?_⟩
  · rintro address rfl
    refine ⟨by omega, ⟨arguments, environment⟩, ?_, outer⟩
    rw [executes.store, ← size]
    exact Store.cell?_cons_self
  · intro address member
    obtain ⟨lower, upper⟩ := mem_cells_callEntry.mp member
    exact ⟨lower, Nat.ne_of_lt upper⟩
  · rintro cells stack environment control ⟨⟩
    exact framed.environment
  · exact Or.inr ⟨before.store.size + 4, Or.inr rfl, extended⟩
  · rintro address (known | rfl)
    · exact Or.inl known
    · exact Or.inr ⟨Or.inr rfl, by omega, extended⟩

/-- One instruction: frames and closures stay, LDF adds the closure it makes and nothing else adds
one, DUM and AP add a frame and nothing else adds one, and the dump moves as instructions move
it. -/
theorem step (framed : Framed base frames closures entries before)
    (executes : before.Executes opcode rest effect)
    (applied : opcode = .ap ∨ opcode = .rap → Applies closures before)
    (returned : opcode = .rtn → ∀ top below, entries = top :: below →
      ∃ cells stack environment control, top.saved = .call cells stack environment control) :
    ∃ moreFrames moreClosures after,
      Framed base moreFrames moreClosures after before.next ∧ Moves before opcode entries after ∧
      Makes closures moreClosures before opcode rest ∧ Adds frames moreFrames before opcode := by
  have recursive : opcode = .rap → Applies closures before := fun same => applied (Or.inr same)
  have kept : ∀ address ∈ owned entries,
      before.next.store.cell? (.pair address) = before.store.cell? (.pair address) :=
    fun address member => framed.kept executes recursive (framed.holds.lt_size address member)
      (framed.apart address member)
  obtain ⟨after, dump, holds, moves⟩ := Holds.step executes framed.dump framed.holds kept
  have registers := executes.registers
  cases executes.performs with
  | ld | ldc | car | cdr | atom | cons | eq | stop =>
      obtain rfl := moves.eq_of_unmoved rfl
      refine ⟨_, closures, after, framed.stay executes recursive (fun _ _ => Or.inl) ?_ dump holds,
        moves, makes_none (by simp), adds_none⟩
      rw [registers]
      rfl
  | arithmetic kind =>
      obtain rfl := moves.eq_of_unmoved (Opcode.movesDump_of_isArithmetic kind)
      refine ⟨_, closures, after, framed.stay executes recursive (fun _ _ => Or.inl) ?_ dump holds,
        moves, makes_none ?_, adds_none⟩
      · rw [registers]
        rfl
      · rintro rfl
        simp [Opcode.isArithmetic] at kind
  | ldf operand =>
      obtain rfl := moves.eq_of_unmoved rfl
      obtain ⟨moreFrames, moreClosures, later, makes, adds⟩ :=
        framed.step_ldf executes operand dump holds
      exact ⟨moreFrames, moreClosures, after, later, moves, makes, adds⟩
  | dum =>
      obtain rfl := moves.eq_of_unmoved rfl
      have extended : before.next.registers.environment = .pair before.store.size := by
        rw [registers]
        rfl
      refine ⟨_, closures, after, framed.advance executes recursive
        (fun address => address = before.store.size) ?_ (fun _ _ => Or.inl) ?_ dump holds
        (fun _ member => Or.inl member) (fun _ member => Or.inl member), moves,
        makes_none (by simp), ?_⟩
      · rintro address rfl
        refine ⟨Nat.le_refl _, ⟨.nil, before.registers.environment⟩, ?_, framed.environment⟩
        rw [executes.store]
        exact Store.cell?_cons_self
      · exact Or.inr ⟨before.store.size, Or.inr rfl, extended⟩
      · rintro address (known | rfl)
        · exact Or.inl known
        · exact Or.inr ⟨Or.inl rfl, Nat.le_refl _, extended⟩
  | ap top next code =>
      cases moves with
      | stay unmoved => simp [Opcode.movesDump] at unmoved
      | ap control callee operand =>
          have outer := framed.environment_of_applied (applied (Or.inl rfl)) top code
          obtain ⟨moreFrames, later, adds⟩ := framed.step_ap executes outer dump holds
          exact ⟨moreFrames, closures, _, later, .ap control callee operand, makes_none (by simp),
            adds⟩
  | rap top next code completed around =>
      cases moves with
      | stay unmoved => simp [Opcode.movesDump] at unmoved
      | rap control callee operand =>
          have inner := framed.environment_of_applied (applied (Or.inr rfl)) top code
          refine ⟨_, closures, _, framed.push executes recursive (fun _ => False) (by simp)
            ?_ ?_ ?_ dump holds, .rap control callee operand, makes_none (by simp), adds_none⟩
          · exact fun address member => ⟨(mem_cells_callEntry.mp member).1, id⟩
          · rintro cells stack environment control ⟨⟩
            rw [Store.second_of_cell? around]
            exact framed.environment_of_outer around
          · rw [registers]
            exact inner.mono fun _ => Or.inl
  | sel =>
      cases moves with
      | stay unmoved => simp [Opcode.movesDump] at unmoved
      | sel code operand other =>
          refine ⟨_, closures, _, framed.push executes recursive (fun _ => False) (by simp)
            ?_ ?_ ?_ dump holds, .sel code operand other, makes_none (by simp), adds_none⟩
          · intro address member
            simp only [branchEntry, Entry.cells, Saved.cells, List.mem_singleton] at member
            exact ⟨Nat.le_of_eq member.symm, id⟩
          · rintro cells stack environment control ⟨⟩
          · rw [registers]
            exact framed.environment.mono fun _ => Or.inl
  | rtn =>
      cases moves with
      | stay unmoved => simp [Opcode.movesDump] at unmoved
      | @rtn _ _ top _ result restored =>
          obtain ⟨cells, stack, environment, control, call⟩ := returned rfl top after rfl
          refine ⟨_, closures, after, framed.pop executes recursive ?_ dump holds,
            .rtn result restored, makes_none (by simp), adds_none⟩
          rw [(restored cells stack environment control call).2.1]
          exact framed.saved top List.mem_cons_self _ _ _ _ call
  | join =>
      cases moves with
      | stay unmoved => simp [Opcode.movesDump] at unmoved
      | join resumed =>
          refine ⟨_, closures, after, framed.pop executes recursive ?_ dump holds,
            .join resumed, makes_none (by simp), adds_none⟩
          rw [registers]
          exact framed.environment

end Framed

end SecdMachine
