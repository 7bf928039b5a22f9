import SecdMachine.Proofs.Spines

/-!
Which instruction an entry of the dump comes from. Cells are numbered in the order in which they are
made, so a cell belongs to one call of `step` and to no other, and the dump register alone tells
which instruction made the entry on top.
-/

namespace SecdMachine

namespace Configuration

def Allocates (configuration : Configuration) (address : Address) : Prop :=
  configuration.store.size ≤ address ∧ address < configuration.next.store.size

theorem size_le_of_lt (configuration : Configuration) {earlier later : Nat}
    (order : earlier < later) :
    (configuration.after (earlier + 1)).store.size ≤ (configuration.after later).store.size := by
  obtain ⟨calls, rfl⟩ := Nat.exists_eq_add_of_le order
  rw [Nat.succ_eq_add_one, after_add configuration (earlier + 1)]
  exact (configuration.after (earlier + 1)).size_le_after calls

theorem Allocates.unique {configuration : Configuration} {earlier later : Nat} {address : Address}
    (allocates : (configuration.after earlier).Allocates address)
    (also : (configuration.after later).Allocates address) : earlier = later := by
  have upper : address < (configuration.after (earlier + 1)).store.size := allocates.2
  have upperAlso : address < (configuration.after (later + 1)).store.size := also.2
  rcases Nat.lt_trichotomy earlier later with order | same | order
  · have grown := configuration.size_le_of_lt order
    exact absurd also.1 (Nat.not_le_of_lt (Nat.lt_of_lt_of_le upper grown))
  · exact same
  · have grown := configuration.size_le_of_lt order
    exact absurd allocates.1 (Nat.not_le_of_lt (Nat.lt_of_lt_of_le upperAlso grown))

def FollowsBranches (configuration : Configuration) (code : Value) : Prop :=
  ∃ number operands first more second,
    configuration.store.cell? configuration.registers.control = some ⟨number, operands⟩ ∧
    configuration.store.cell? operands = some ⟨first, more⟩ ∧
    configuration.store.cell? more = some ⟨second, code⟩

theorem Completes.unique {configuration : Configuration} {opcode other : Opcode}
    (completes : configuration.Completes opcode) (also : configuration.Completes other) :
    opcode = other := by
  obtain ⟨_, _, executes⟩ := completes.executes
  exact executes.opcode_eq also

theorem not_call_of_sel {configuration : Configuration}
    (branched : configuration.Completes .sel) :
    ¬(configuration.Completes .ap ∨ configuration.Completes .rap) := by
  rintro (called | called)
  · cases called.unique branched
  · cases called.unique branched

end Configuration

def Enters (before : Configuration) (entry : Entry) : Prop :=
  ∃ opcode, before.Completes opcode ∧ Moves before opcode [] [entry]

theorem Enters.cases {before : Configuration} {entry : Entry} (enters : Enters before entry) :
    (∃ stack environment control,
      (before.Completes .ap ∨ before.Completes .rap) ∧
        entry = callEntry before.store stack environment control) ∨
    ∃ control, before.Completes .sel ∧ before.FollowsBranches control ∧
      entry = branchEntry before.store control := by
  obtain ⟨opcode, completes, moves⟩ := enters
  cases moves with
  | ap => exact Or.inl ⟨_, _, _, Or.inl completes, rfl⟩
  | rap => exact Or.inl ⟨_, _, _, Or.inr completes, rfl⟩
  | sel code operand other =>
      exact Or.inr ⟨_, completes, ⟨_, _, _, _, _, code, operand, other⟩, rfl⟩

theorem Moves.enters {before : Configuration} {opcode : Opcode} {entries after : List Entry}
    {entry : Entry} (moves : Moves before opcode entries after)
    (completes : before.Completes opcode) (member : entry ∈ after) :
    entry ∈ entries ∨ Enters before entry := by
  cases moves with
  | ap code top next =>
      rcases List.mem_cons.mp member with rfl | old
      · exact Or.inr ⟨.ap, completes, .ap code top next⟩
      · exact Or.inl old
  | rap code top next =>
      rcases List.mem_cons.mp member with rfl | old
      · exact Or.inr ⟨.rap, completes, .rap code top next⟩
      · exact Or.inl old
  | sel code operand other =>
      rcases List.mem_cons.mp member with rfl | old
      · exact Or.inr ⟨.sel, completes, .sel code operand other⟩
      · exact Or.inl old
  | rtn | join => exact Or.inl (List.mem_cons_of_mem _ member)
  | stay => exact Or.inl member

namespace Configuration

theorem dump_of_call {before : Configuration}
    (completes : before.Completes .ap ∨ before.Completes .rap) :
    before.next.registers.dump = .pair (before.store.size + 3) ∧
      before.store.size + 4 ≤ before.next.store.size := by
  rcases completes with completes | completes
  · obtain ⟨_, _, executes⟩ := completes.executes
    rw [executes.registers, executes.store]
    cases executes.performs with
    | ap => simp [Effect.perform, Store.size_list]
    | arithmetic kind => simp [Opcode.isArithmetic] at kind
  · obtain ⟨_, _, executes⟩ := completes.executes
    rw [executes.registers, executes.store]
    cases executes.performs with
    | rap => simp [Effect.perform, Store.size_list]
    | arithmetic kind => simp [Opcode.isArithmetic] at kind

theorem dump_of_sel {before : Configuration} (completes : before.Completes .sel) :
    before.next.registers.dump = .pair before.store.size ∧
      before.store.size < before.next.store.size := by
  obtain ⟨_, _, executes⟩ := completes.executes
  rw [executes.registers, executes.store]
  cases executes.performs with
  | sel => simp [Effect.perform]
  | arithmetic kind => simp [Opcode.isArithmetic] at kind

theorem allocates_dump {before : Configuration}
    (pushes : (before.Completes .ap ∨ before.Completes .rap) ∨ before.Completes .sel) :
    ∃ address, before.next.registers.dump = .pair address ∧ before.Allocates address := by
  rcases pushes with called | branched
  · obtain ⟨dump, grown⟩ := dump_of_call called
    exact ⟨_, dump, Nat.le_add_right _ 3, grown⟩
  · obtain ⟨dump, grown⟩ := dump_of_sel branched
    exact ⟨_, dump, Nat.le_refl _, grown⟩

end Configuration

namespace Enters

variable {before : Configuration} {entry : Entry}

theorem dump_eq (enters : Enters before entry) :
    before.next.registers.dump = .pair entry.cell := by
  rcases enters.cases with ⟨_, _, _, completes, rfl⟩ | ⟨_, completes, _, rfl⟩
  · exact (Configuration.dump_of_call completes).1
  · exact (Configuration.dump_of_sel completes).1

theorem allocates (enters : Enters before entry) {address : Address}
    (member : address ∈ entry.cells) : before.Allocates address := by
  rcases enters.cases with ⟨_, _, _, completes, rfl⟩ | ⟨_, completes, _, rfl⟩
  · obtain ⟨lower, upper⟩ := mem_cells_callEntry.mp member
    exact ⟨lower, Nat.lt_of_lt_of_le upper (Configuration.dump_of_call completes).2⟩
  · simp only [branchEntry, Entry.cells, Saved.cells, List.mem_singleton] at member
    rw [member]
    exact ⟨Nat.le_refl _, (Configuration.dump_of_sel completes).2⟩

theorem allocates_cell (enters : Enters before entry) : before.Allocates entry.cell :=
  enters.allocates List.mem_cons_self

end Enters

/-- The dump register tells which call of `step` made the entry on top. -/
theorem Enters.of_dump {configuration : Configuration} {earlier other : Nat} {entry : Entry}
    (enters : Enters (configuration.after other) entry)
    (pushes : ((configuration.after earlier).Completes .ap ∨
      (configuration.after earlier).Completes .rap) ∨ (configuration.after earlier).Completes .sel)
    (same : (configuration.after (earlier + 1)).registers.dump = .pair entry.cell) :
    Enters (configuration.after earlier) entry := by
  obtain ⟨address, dump, allocates⟩ := Configuration.allocates_dump pushes
  have shared : Value.pair address = .pair entry.cell := dump.symm.trans same
  rw [Value.pair.injEq] at shared
  subst shared
  -- Both calls of `step` make the cell that links the entry, so they are the same call.
  rw [allocates.unique enters.allocates_cell]
  exact enters

def Entered (run : Nat → Configuration) (calls : Nat) (entries : List Entry) : Prop :=
  ∀ entry ∈ entries, ∃ earlier < calls, Enters (run earlier) entry

theorem Entered.mono {run : Nat → Configuration} {calls : Nat} {entries : List Entry}
    (entered : Entered run calls entries) : Entered run (calls + 1) entries := by
  intro entry member
  obtain ⟨earlier, order, enters⟩ := entered entry member
  exact ⟨earlier, Nat.lt_succ_of_lt order, enters⟩

theorem Entered.next {run : Nat → Configuration} {calls : Nat} {opcode : Opcode}
    {entries after : List Entry} (entered : Entered run calls entries)
    (completes : (run calls).Completes opcode) (moves : Moves (run calls) opcode entries after) :
    Entered run (calls + 1) after := by
  intro entry member
  rcases moves.enters completes member with old | new
  · exact entered.mono entry old
  · exact ⟨calls, Nat.lt_succ_self calls, new⟩

theorem Configuration.entered_after {configuration : Configuration} {hidden : Address → Prop}
    (separated : Separated hidden [] configuration) (calls : Nat) :
    ∃ hidden entries, Separated hidden entries (configuration.after calls) ∧
      Entered configuration.after calls entries := by
  induction calls with
  | zero => exact ⟨hidden, [], separated, by simp [Entered]⟩
  | succ calls ih =>
      obtain ⟨hidden, entries, held, entered⟩ := ih
      rcases (configuration.after calls).step_cases with ⟨_, _, _, _, _, unchanged⟩ |
        ⟨succeeded, opcode, rest, effect, executes⟩
      · exact ⟨hidden, entries, held.of_unchanged unchanged, entered.mono⟩
      · obtain ⟨hidden, later, moved, moves⟩ := held.step executes
        exact ⟨hidden, later, moved, entered.next (completes_of_executes succeeded executes) moves⟩

end SecdMachine
