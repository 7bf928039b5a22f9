import SecdMachine.Proofs.Execution

/-!
What the dump holds. `Holds` reads a dump as a list of entries and knows the cells that make it up;
`Moves` says what an instruction does to that list. As long as an instruction leaves those cells
alone, the dump after it is again such a list.
-/

namespace SecdMachine

namespace Store

inductive ListAt (store : Store) : Value → List Address → List Value → Prop
  | nil : ListAt store .nil [] []
  | cons {address element rest cells elements}
      (found : store.cell? (.pair address) = some ⟨element, rest⟩)
      (tail : ListAt store rest cells elements) :
      ListAt store (.pair address) (address :: cells) (element :: elements)

inductive OnSpine (store : Store) : Value → Address → Prop
  | here {address cell} (found : store.cell? (.pair address) = some cell) :
      OnSpine store (.pair address) address
  | later {address cell other} (found : store.cell? (.pair address) = some cell)
      (tail : OnSpine store cell.second other) : OnSpine store (.pair address) other

theorem ListAt.lt_size {store : Store} {value : Value} {cells : List Address}
    {elements : List Value} (list : store.ListAt value cells elements) :
    ∀ address ∈ cells, address < store.size := by
  induction list with
  | nil => simp
  | cons found _ ih =>
      intro address member
      rcases List.mem_cons.mp member with rfl | later
      · exact lt_size_of_cell? found
      · exact ih address later

theorem ListAt.congr {store other : Store} {value : Value} {cells : List Address}
    {elements : List Value} (list : store.ListAt value cells elements)
    (kept : ∀ address ∈ cells, other.cell? (.pair address) = store.cell? (.pair address)) :
    other.ListAt value cells elements := by
  induction list with
  | nil => exact .nil
  | cons found _ ih =>
      refine .cons ?_ (ih fun address later => kept address (List.mem_cons_of_mem _ later))
      rw [kept _ List.mem_cons_self, found]

theorem ListAt.mem_of_onSpine {store : Store} {value : Value} {cells : List Address}
    {elements : List Value} (list : store.ListAt value cells elements) {address : Address}
    (spine : store.OnSpine value address) : address ∈ cells := by
  induction list with
  | nil => cases spine
  | cons found _ ih =>
      cases spine with
      | here _ => exact List.mem_cons_self
      | later same tail =>
          rw [found] at same
          cases same
          exact List.mem_cons_of_mem _ (ih tail)

theorem ListAt.components {store : Store} {value : Value} {cells : List Address}
    {elements : List Value} (list : store.ListAt value cells elements) {address : Address}
    {cell : Cell} (member : address ∈ cells) (found : store.cell? (.pair address) = some cell) :
    cell.first ∈ elements ∧ (cell.second = .nil ∨ ∃ other ∈ cells, cell.second = .pair other) := by
  induction list with
  | nil => simp at member
  | @cons head element rest cells elements same tail ih =>
      rcases List.mem_cons.mp member with rfl | later
      · rw [same] at found
        cases found
        refine ⟨List.mem_cons_self, ?_⟩
        cases tail with
        | nil => exact Or.inl rfl
        | cons _ _ => exact Or.inr ⟨_, by simp, rfl⟩
      · obtain ⟨first, second⟩ := ih later
        refine ⟨List.mem_cons_of_mem _ first, second.imp id ?_⟩
        rintro ⟨other, inside, linked⟩
        exact ⟨other, List.mem_cons_of_mem _ inside, linked⟩

theorem list_cons (store : Store) (element : Value) (elements : List Value) :
    store.list (element :: elements) =
      (store.list elements).2.cons element (store.list elements).1 := by
  simp [list, consReversed, List.foldl_append]

theorem size_list (store : Store) (elements : List Value) :
    (store.list elements).2.size = store.size + elements.length := by
  induction elements with
  | nil => rfl
  | cons element elements ih =>
      rw [list_cons, size_cons, ih, List.length_cons]
      omega

theorem cell?_list_of_lt {store : Store} {elements : List Value} {address : Nat}
    (old : address < store.size) :
    (store.list elements).2.cell? (.pair address) = store.cell? (.pair address) := by
  induction elements with
  | nil => rfl
  | cons element elements ih =>
      have grown := size_list store elements
      rw [list_cons, cell?_cons_of_lt (by omega), ih]

theorem listAt_list (store : Store) (elements : List Value) :
    (store.list elements).2.ListAt (store.list elements).1
      ((List.range' store.size elements.length).reverse) elements := by
  induction elements with
  | nil => exact .nil
  | cons element elements ih =>
      rw [list_cons, List.length_cons, List.range'_concat, List.reverse_append]
      simp only [Nat.one_mul, List.reverse_cons, List.reverse_nil, List.nil_append,
        List.singleton_append, cons_fst, size_list]
      refine .cons ?_ (ih.congr ?_)
      · rw [← size_list store elements]
        exact cell?_cons_self
      · intro address member
        exact cell?_cons_of_lt (ih.lt_size address member)

def saveCall (store : Store) (stack environment control dump : Value) : Store :=
  ((store.list [stack, environment, control]).2.cons
    (store.list [stack, environment, control]).1 dump).2

theorem size_saveCall (store : Store) (stack environment control dump : Value) :
    (store.saveCall stack environment control dump).size = store.size + 4 := by
  simp [saveCall, size_list]

theorem cell?_saveCall_of_lt {store : Store} {stack environment control dump : Value}
    {address : Nat} (old : address < store.size) :
    (store.saveCall stack environment control dump).cell? (.pair address) =
      store.cell? (.pair address) := by
  have size := store.size_list [stack, environment, control]
  rw [saveCall, cell?_cons_of_lt (by omega), cell?_list_of_lt old]

end Store

namespace Instruction

theorem callFrame_of_listAt {store : Store} {entry stack environment control : Value}
    {cells : List Address} (list : store.ListAt entry cells [stack, environment, control]) :
    callFrame store entry = .ok (stack, environment, control) := by
  cases list with
  | cons first rest =>
      cases rest with
      | cons second rest =>
          cases rest with
          | cons third rest =>
              cases rest with
              | nil => simp [callFrame, first, second, third, Value.isNil]

end Instruction

inductive Saved where
  | call (cells : List Address) (stack environment control : Value)
  | branch (control : Value)

structure Entry where
  cell : Address
  saved : Saved

def Saved.cells : Saved → List Address
  | call cells _ _ _ => cells
  | branch _ => []

def Saved.values : Saved → List Value
  | call _ stack environment control => [stack, environment, control]
  | branch control => [control]

def Saved.At (store : Store) (value : Value) : Saved → Prop
  | call cells stack environment control =>
      store.ListAt value cells [stack, environment, control]
  | branch control => value = control

def Entry.cells (entry : Entry) : List Address :=
  entry.cell :: entry.saved.cells

def owned (entries : List Entry) : List Address :=
  entries.flatMap Entry.cells

def dumpOf : List Entry → Value
  | [] => .nil
  | top :: _ => .pair top.cell

inductive Holds (store : Store) : List Entry → Prop
  | empty : Holds store []
  | entry {top value entries}
      (linked : store.cell? (.pair top.cell) = some ⟨value, dumpOf entries⟩)
      (saved : top.saved.At store value) (rest : Holds store entries) :
      Holds store (top :: entries)

theorem mem_owned_cons {address : Address} {top : Entry} {entries : List Entry} :
    address ∈ owned (top :: entries) ↔
      address = top.cell ∨ address ∈ top.saved.cells ∨ address ∈ owned entries := by
  simp [owned, Entry.cells]

theorem Saved.At.congr {store other : Store} {value : Value} {saved : Saved}
    (held : saved.At store value)
    (kept : ∀ address ∈ saved.cells, other.cell? (.pair address) = store.cell? (.pair address)) :
    saved.At other value := by
  cases saved with
  | call cells stack environment control => exact Store.ListAt.congr held kept
  | branch control => exact held

theorem Holds.congr {store other : Store} {entries : List Entry} (holds : Holds store entries)
    (kept : ∀ address ∈ owned entries,
      other.cell? (.pair address) = store.cell? (.pair address)) : Holds other entries := by
  induction holds with
  | empty => exact .empty
  | entry linked saved _ ih =>
      simp only [mem_owned_cons] at kept
      refine .entry ?_ (saved.congr fun address member => kept address (Or.inr (Or.inl member)))
        (ih fun address member => kept address (Or.inr (Or.inr member)))
      rw [kept _ (Or.inl rfl), linked]

theorem Holds.lt_size {store : Store} {entries : List Entry} (holds : Holds store entries) :
    ∀ address ∈ owned entries, address < store.size := by
  induction holds with
  | empty => simp [owned]
  | @entry top value entries linked saved _ ih =>
      intro address member
      rw [mem_owned_cons] at member
      rcases member with rfl | inside | below
      · exact Store.lt_size_of_cell? linked
      · cases shape : top.saved with
        | call cells stack environment control =>
            rw [shape] at saved inside
            exact Store.ListAt.lt_size saved address inside
        | branch control =>
            rw [shape] at inside
            simp [Saved.cells] at inside
      · exact ih address below

theorem Holds.mem_owned_of_onSpine {store : Store} {entries : List Entry}
    (holds : Holds store entries) {address : Address}
    (spine : store.OnSpine (dumpOf entries) address) : address ∈ owned entries := by
  induction holds with
  | empty => cases spine
  | entry linked _ _ ih =>
      rw [mem_owned_cons]
      cases spine with
      | here _ => exact Or.inl rfl
      | later found tail =>
          rw [linked] at found
          cases found
          exact Or.inr (Or.inr (ih tail))

theorem Holds.lengthFrom_dumpOf {store : Store} {entries : List Entry}
    (holds : Holds store entries) {fuel count : Nat} (enough : entries.length ≤ fuel) :
    store.lengthFrom fuel count (dumpOf entries) = count + entries.length := by
  induction holds generalizing fuel count with
  | empty => cases fuel <;> rfl
  | entry linked _ _ ih =>
      cases fuel with
      | zero => simp at enough
      | succ fuel =>
          simp only [List.length_cons] at enough ⊢
          rw [dumpOf, Store.lengthFrom, linked]
          simp only
          rw [ih (by omega)]
          omega

theorem map_cell_sublist_owned (entries : List Entry) :
    (entries.map Entry.cell).Sublist (owned entries) := by
  induction entries with
  | nil => exact .slnil
  | cons top entries ih =>
      simp only [List.map_cons, owned, List.flatMap_cons, Entry.cells, List.cons_append]
      exact (ih.trans (List.sublist_append_right _ _)).cons_cons _

theorem Holds.length_dumpOf {store : Store} {entries : List Entry} (holds : Holds store entries)
    (distinct : (owned entries).Nodup) : store.length (dumpOf entries) = entries.length := by
  have bounded : (entries.map Entry.cell).length ≤ store.size := by
    apply length_le_of_nodup ((map_cell_sublist_owned entries).nodup distinct)
    intro address member
    exact holds.lt_size address ((map_cell_sublist_owned entries).subset member)
  rw [List.length_map] at bounded
  rw [Store.length, holds.lengthFrom_dumpOf bounded, Nat.zero_add]

namespace Effect

theorem size_le_perform (effect : Effect) (registers : Registers) (store : Store) :
    store.size ≤ (effect.perform registers store).2.size := by
  cases effect <;> simp [perform, Store.size_list] <;> omega

theorem cell?_perform {effect : Effect} {registers : Registers} {store : Store} {address : Nat}
    (old : address < store.size) (other : effect.target ≠ some address) :
    (effect.perform registers store).2.cell? (.pair address) = store.cell? (.pair address) := by
  cases effect with
  | push value stack control => exact Store.cell?_cons_of_lt old
  | pushPair first second stack control =>
      have grown : address < (store.cons first second).2.size := by
        rw [Store.size_cons]
        omega
      exact (Store.cell?_cons_of_lt grown).trans (Store.cell?_cons_of_lt old)
  | call code frame environment stack control =>
      have grown : address <
          (store.saveCall stack registers.environment control registers.dump).size := by
        rw [Store.size_saveCall]
        omega
      exact (Store.cell?_cons_of_lt grown).trans (Store.cell?_saveCall_of_lt old)
  | callRecursive closure frame environment stack saved control =>
      have different : environment ≠ address := fun same => other (congrArg some same)
      exact (Store.cell?_setFirst_of_ne different).trans (Store.cell?_saveCall_of_lt old)
  | «return» value stack environment control dump => exact Store.cell?_cons_of_lt old
  | extend control => exact Store.cell?_cons_of_lt old
  | branch code stack control => exact Store.cell?_cons_of_lt old
  | resume control dump => rfl
  | halt => rfl

end Effect

def callEntry (store : Store) (stack environment control : Value) : Entry :=
  ⟨store.size + 3, .call [store.size + 2, store.size + 1, store.size] stack environment control⟩

def branchEntry (store : Store) (control : Value) : Entry :=
  ⟨store.size, .branch control⟩

theorem mem_cells_callEntry {store : Store} {stack environment control : Value} {address : Nat} :
    address ∈ (callEntry store stack environment control).cells ↔
      store.size ≤ address ∧ address < store.size + 4 := by
  simp only [callEntry, Entry.cells, Saved.cells, List.mem_cons, List.not_mem_nil, or_false]
  omega

theorem nodup_cells_callEntry (store : Store) (stack environment control : Value) :
    (callEntry store stack environment control).cells.Nodup := by
  simp [callEntry, Entry.cells, Saved.cells]

theorem Holds.pushCall {store : Store} {entries : List Entry} (holds : Holds store entries)
    (stack environment control : Value) :
    Holds (store.saveCall stack environment control (dumpOf entries))
      (callEntry store stack environment control :: entries) := by
  have size := store.size_list [stack, environment, control]
  have list := store.listAt_list [stack, environment, control]
  simp only [List.length_cons, List.length_nil] at size
  have linked : (store.saveCall stack environment control (dumpOf entries)).cell?
      (.pair (store.list [stack, environment, control]).2.size) =
        some ⟨(store.list [stack, environment, control]).1, dumpOf entries⟩ :=
    Store.cell?_cons_self
  rw [size] at linked
  refine .entry linked ?_ (holds.congr ?_)
  · refine list.congr fun address member => ?_
    exact Store.cell?_cons_of_lt (list.lt_size address member)
  · intro address member
    exact Store.cell?_saveCall_of_lt (holds.lt_size address member)

theorem Holds.pushBranch {store : Store} {entries : List Entry} (holds : Holds store entries)
    (control : Value) :
    Holds (store.cons control (dumpOf entries)).2 (branchEntry store control :: entries) := by
  refine .entry Store.cell?_cons_self rfl (holds.congr ?_)
  intro address member
  exact Store.cell?_cons_of_lt (holds.lt_size address member)

def Opcode.movesDump : Opcode → Bool
  | ap => true
  | rap => true
  | sel => true
  | rtn => true
  | join => true
  | _ => false

/-- What an instruction does to the entries of the dump, and what the machine gets back when it
takes one that was made for it. -/
inductive Moves (before : Configuration) : Opcode → List Entry → List Entry → Prop
  | ap {number control closure below arguments stack entries}
      (code : before.store.cell? before.registers.control = some ⟨number, control⟩)
      (top : before.store.cell? before.registers.stack = some ⟨closure, below⟩)
      (next : before.store.cell? below = some ⟨arguments, stack⟩) :
      Moves before .ap entries
        (callEntry before.store stack before.registers.environment control :: entries)
  | rap {number control closure below arguments stack entries}
      (code : before.store.cell? before.registers.control = some ⟨number, control⟩)
      (top : before.store.cell? before.registers.stack = some ⟨closure, below⟩)
      (next : before.store.cell? below = some ⟨arguments, stack⟩) :
      Moves before .rap entries
        (callEntry before.store stack (before.store.second before.registers.environment) control ::
          entries)
  | sel {number operands first more second control entries}
      (code : before.store.cell? before.registers.control = some ⟨number, operands⟩)
      (operand : before.store.cell? operands = some ⟨first, more⟩)
      (other : before.store.cell? more = some ⟨second, control⟩) :
      Moves before .sel entries (branchEntry before.store control :: entries)
  | rtn {value below top entries}
      (result : before.store.cell? before.registers.stack = some ⟨value, below⟩)
      (restored : ∀ cells stack environment control,
        top.saved = .call cells stack environment control →
          before.next.store.cell? before.next.registers.stack = some ⟨value, stack⟩ ∧
          before.next.registers.environment = environment ∧
          before.next.registers.control = control) :
      Moves before .rtn (top :: entries) entries
  | join {top entries}
      (resumed : ∀ control, top.saved = .branch control →
        before.next.registers.control = control) :
      Moves before .join (top :: entries) entries
  | stay {opcode entries} (unmoved : opcode.movesDump = false) :
      Moves before opcode entries entries

theorem Moves.eq_of_unmoved {before : Configuration} {opcode : Opcode}
    {entries after : List Entry} (moves : Moves before opcode entries after)
    (unmoved : opcode.movesDump = false) : after = entries := by
  cases moves with
  | stay _ => rfl
  | ap | rap | sel | rtn | join => simp [Opcode.movesDump] at unmoved

theorem Opcode.movesDump_of_isArithmetic {opcode : Opcode} (kind : opcode.isArithmetic = true) :
    opcode.movesDump = false := by
  cases opcode <;> simp [isArithmetic] at kind <;> rfl

theorem Holds.tail {store : Store} {top : Entry} {entries : List Entry}
    (holds : Holds store (top :: entries)) : Holds store entries := by
  cases holds with
  | entry _ _ rest => exact rest

theorem Holds.of_cell? {store : Store} {entries : List Entry} (holds : Holds store entries)
    {value below : Value} (popped : store.cell? (dumpOf entries) = some ⟨value, below⟩) :
    ∃ top rest, entries = top :: rest ∧ below = dumpOf rest ∧ top.saved.At store value := by
  cases holds with
  | empty => simp [dumpOf, Value.nil, Store.cell?] at popped
  | @entry top held rest linked saved _ =>
      simp only [dumpOf, linked, Option.some.injEq, Cell.mk.injEq] at popped
      obtain ⟨rfl, rfl⟩ := popped
      exact ⟨top, rest, rfl, rfl, saved⟩

theorem Holds.step {before : Configuration} {opcode : Opcode} {rest : Value} {effect : Effect}
    {entries : List Entry} (executes : before.Executes opcode rest effect)
    (dump : before.registers.dump = dumpOf entries) (holds : Holds before.store entries)
    (kept : ∀ address ∈ owned entries,
      before.next.store.cell? (.pair address) = before.store.cell? (.pair address)) :
    ∃ after, before.next.registers.dump = dumpOf after ∧ Holds before.next.store after ∧
      Moves before opcode entries after := by
  obtain ⟨number, code, _⟩ := Instruction.decode_eq_ok_iff.mp executes.decoded
  have stored := executes.store
  have loaded := executes.registers
  cases executes.performs with
  | @ap _ closure below arguments stack cell top next applied =>
      refine ⟨_, ?_, ?_, .ap code top next⟩
      · rw [loaded]
        simp [Effect.perform, dumpOf, callEntry, Store.size_list]
      · have pushed := holds.pushCall stack before.registers.environment rest
        rw [← dump] at pushed
        rw [stored]
        refine pushed.congr fun address member => ?_
        exact Store.cell?_cons_of_lt (pushed.lt_size address member)
  | @rap _ closure below arguments stack body environment placeholder outer top next applied
      completed around =>
      refine ⟨_, ?_, ?_, .rap code top next⟩
      · rw [loaded]
        simp [Effect.perform, dumpOf, callEntry, Store.size_list]
      · have pushed := holds.pushCall stack outer.second rest
        rw [Store.second_of_cell? around]
        refine pushed.congr fun address member => ?_
        rcases List.mem_append.mp member with fresh | old
        -- The completed frame is an old cell, so it is none of the new ones.
        · have bound := Store.lt_size_of_cell? completed
          have different : environment ≠ address := by
            intro same
            have lower := (mem_cells_callEntry.mp fresh).1
            exact absurd bound (by rw [same]; exact Nat.not_lt.mpr lower)
          rw [stored, ← dump]
          exact Store.cell?_setFirst_of_ne different
        · rw [kept address old, Store.cell?_saveCall_of_lt (holds.lt_size address old)]
  | sel operand other top =>
      refine ⟨_, ?_, ?_, .sel code operand other⟩
      · rw [loaded]
        rfl
      · rw [stored]
        simp only [Effect.perform]
        rw [dump]
        exact holds.pushBranch _
  | rtn top popped frame =>
      rw [dump] at popped
      obtain ⟨entry, below, rfl, rfl, saved⟩ := holds.of_cell? popped
      refine ⟨below, by rw [loaded]; rfl, holds.tail.congr ?_, .rtn top ?_⟩
      · exact fun address member => kept address (mem_owned_cons.mpr (Or.inr (Or.inr member)))
      · intro cells stack environment control made
        rw [made] at saved
        have same := (Instruction.callFrame_of_listAt saved).symm.trans frame
        simp only [Except.ok.injEq, Prod.mk.injEq] at same
        obtain ⟨rfl, rfl, rfl⟩ := same
        rw [loaded, stored]
        exact ⟨Store.cell?_cons_self, rfl, rfl⟩
  | join popped =>
      rw [dump] at popped
      obtain ⟨entry, below, rfl, rfl, saved⟩ := holds.of_cell? popped
      refine ⟨below, by rw [loaded]; rfl, holds.tail.congr ?_, .join ?_⟩
      · exact fun address member => kept address (mem_owned_cons.mpr (Or.inr (Or.inr member)))
      · intro control made
        rw [made] at saved
        rw [loaded]
        exact saved
  | ld | ldc | ldf | dum | car | cdr | atom | cons | eq | stop =>
      refine ⟨entries, ?_, holds.congr kept, .stay rfl⟩
      rw [loaded]
      exact dump
  | arithmetic kind =>
      refine ⟨entries, ?_, holds.congr kept, .stay ?_⟩
      · rw [loaded]
        exact dump
      · exact Opcode.movesDump_of_isArithmetic kind

end SecdMachine
