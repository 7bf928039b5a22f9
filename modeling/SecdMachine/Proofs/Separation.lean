import SecdMachine.Proofs.Dump
import SecdMachine.Proofs.ValueFlow

/-!
The program cannot reach the dump. Some cells are hidden: those that make up the dump, and those that
did and were never given back. Every other cell, the stack, the environment, the code and every value
saved on the dump lead to cells that are not hidden, so the one instruction that overwrites a pair
cannot overwrite a cell of the dump.
-/

namespace SecdMachine

def Exposed (hidden : Address → Prop) (store : Store) (value : Value) : Prop :=
  ∀ address, value = .pair address → address < store.size ∧ ¬hidden address

def Guarded (hidden : Address → Prop) (store : Store) : Prop :=
  ∀ address cell, ¬hidden address → store.cell? (.pair address) = some cell →
    Exposed hidden store cell.first ∧ Exposed hidden store cell.second

/-- Nothing the program can get at without the dump leads to a hidden cell. -/
structure Confined (hidden : Address → Prop) (registers : Registers) (store : Store) : Prop where
  bounded : ∀ address, hidden address → address < store.size
  guarded : Guarded hidden store
  stack : Exposed hidden store registers.stack
  environment : Exposed hidden store registers.environment
  control : Exposed hidden store registers.control

structure Separated (hidden : Address → Prop) (entries : List Entry)
    (configuration : Configuration) : Prop where
  confined : Confined hidden configuration.registers configuration.store
  dump : configuration.registers.dump = dumpOf entries
  holds : Holds configuration.store entries
  distinct : (owned entries).Nodup
  concealed : ∀ address ∈ owned entries, hidden address
  saved : ∀ entry ∈ entries, ∀ value ∈ entry.saved.values,
    Exposed hidden configuration.store value

def hideNew (hidden : Address → Prop) (lower upper : Nat) : Address → Prop :=
  fun address => hidden address ∨ lower ≤ address ∧ address < upper

section

variable {hidden : Address → Prop} {store other : Store} {value first second : Value}

theorem exposed_symbol (name : String) : Exposed hidden store (.symbol name) := by
  intro address impossible
  simp at impossible

theorem Exposed.mono (exposed : Exposed hidden store value) (grown : store.size ≤ other.size) :
    Exposed hidden other value := by
  intro address same
  exact ⟨Nat.lt_of_lt_of_le (exposed address same).1 grown, (exposed address same).2⟩

theorem Guarded.region (guarded : Guarded hidden store) :
    store.Region (Exposed hidden store) := by
  refine ⟨exposed_symbol, ?_, ?_⟩
  · intro number address impossible
    simp at impossible
  · intro value cell exposed found
    obtain ⟨address, rfl⟩ := Store.eq_pair_of_cell? found
    exact guarded address cell (exposed address rfl).2 found

theorem Guarded.cons (guarded : Guarded hidden store) (firstExposed : Exposed hidden store first)
    (secondExposed : Exposed hidden store second) :
    Guarded hidden (store.cons first second).2 := by
  have grown := store.size_le_cons first second
  intro address cell shown found
  by_cases new : address = store.size
  · subst new
    rw [Store.cell?_cons_self] at found
    cases found
    exact ⟨firstExposed.mono grown, secondExposed.mono grown⟩
  · rw [Store.cell?_cons_of_ne new] at found
    have old := guarded address cell shown found
    exact ⟨old.1.mono grown, old.2.mono grown⟩

theorem Guarded.setFirst (guarded : Guarded hidden store) (exposed : Exposed hidden store value)
    (target : Address) : Guarded hidden (store.setFirst target value) := by
  have same : store.size ≤ (store.setFirst target value).size :=
    Nat.le_of_eq Store.size_setFirst.symm
  intro address cell shown found
  by_cases hit : target = address
  · subst hit
    have bound : target < store.size := by
      simpa using Store.lt_size_of_cell? found
    obtain ⟨old, present⟩ := Store.exists_cell_of_lt_size bound
    rw [Store.cell?_setFirst_self present] at found
    cases found
    exact ⟨exposed.mono same, (guarded target old shown present).2.mono same⟩
  · rw [Store.cell?_setFirst_of_ne hit] at found
    have old := guarded address cell shown found
    exact ⟨old.1.mono same, old.2.mono same⟩

theorem Exposed.hideNew {upper : Nat} (exposed : Exposed hidden store value)
    (grown : store.size ≤ other.size) :
    Exposed (hideNew hidden store.size upper) other value := by
  intro address same
  obtain ⟨old, shown⟩ := exposed address same
  refine ⟨Nat.lt_of_lt_of_le old grown, ?_⟩
  rintro (already | ⟨lower, _⟩)
  · exact shown already
  · exact absurd old (Nat.not_lt.mpr lower)

theorem Guarded.hideNew (guarded : Guarded hidden store) (grown : store.size ≤ other.size)
    (kept : ∀ address, address < store.size →
      other.cell? (.pair address) = store.cell? (.pair address)) :
    Guarded (hideNew hidden store.size other.size) other := by
  intro address cell shown found
  have bound := Store.lt_size_of_cell? found
  have old : address < store.size := by
    refine Nat.lt_of_not_le fun lower => ?_
    exact shown (Or.inr ⟨lower, bound⟩)
  rw [kept address old] at found
  have exposed := guarded address cell (fun already => shown (Or.inl already)) found
  exact ⟨exposed.1.hideNew grown, exposed.2.hideNew grown⟩

theorem exposed_size (bounded : ∀ address, hidden address → address < store.size) :
    Exposed hidden (store.cons first second).2 (.pair store.size) := by
  rintro address ⟨⟩
  refine ⟨?_, fun hit => Nat.lt_irrefl _ (bounded _ hit)⟩
  rw [Store.size_cons]
  exact Nat.lt_succ_self _

end

namespace Confined

variable {hidden : Address → Prop} {registers : Registers} {store : Store}

theorem bounded_cons (confined : Confined hidden registers store) (first second : Value) :
    ∀ address, hidden address → address < (store.cons first second).2.size := by
  intro address hit
  rw [Store.size_cons]
  exact Nat.lt_succ_of_lt (confined.bounded address hit)

theorem push (confined : Confined hidden registers store) {value stack control : Value}
    (exposed : ∀ item ∈ (Effect.push value stack control).values, Exposed hidden store item) :
    Confined hidden ((Effect.push value stack control).perform registers store).1
      ((Effect.push value stack control).perform registers store).2 := by
  simp only [Effect.values, List.forall_mem_cons] at exposed
  obtain ⟨valueExposed, stackExposed, controlExposed, _⟩ := exposed
  have grown := store.size_le_cons value stack
  exact ⟨confined.bounded_cons value stack, confined.guarded.cons valueExposed stackExposed,
    exposed_size confined.bounded, confined.environment.mono grown, controlExposed.mono grown⟩

theorem extend (confined : Confined hidden registers store) {control : Value}
    (exposed : Exposed hidden store control) :
    Confined hidden ((Effect.extend control).perform registers store).1
      ((Effect.extend control).perform registers store).2 := by
  have grown := store.size_le_cons .nil registers.environment
  exact ⟨confined.bounded_cons .nil registers.environment,
    confined.guarded.cons (exposed_symbol "NIL") confined.environment, confined.stack.mono grown,
    exposed_size confined.bounded, exposed.mono grown⟩

theorem pushPair (confined : Confined hidden registers store) {first second stack control : Value}
    (exposed : ∀ item ∈ (Effect.pushPair first second stack control).values,
      Exposed hidden store item) :
    Confined hidden ((Effect.pushPair first second stack control).perform registers store).1
      ((Effect.pushPair first second stack control).perform registers store).2 := by
  simp only [Effect.values, List.forall_mem_cons] at exposed
  obtain ⟨firstExposed, secondExposed, stackExposed, controlExposed, _⟩ := exposed
  have grown := store.size_le_cons first second
  -- The new pair comes first, and is then pushed like any other value.
  have paired : Confined hidden registers (store.cons first second).2 :=
    ⟨confined.bounded_cons first second, confined.guarded.cons firstExposed secondExposed,
      confined.stack.mono grown, confined.environment.mono grown, confined.control.mono grown⟩
  apply paired.push
  simp only [Effect.values, List.forall_mem_cons]
  exact ⟨exposed_size confined.bounded, stackExposed.mono grown, controlExposed.mono grown,
    by simp⟩

theorem «return» (confined : Confined hidden registers store)
    {value stack environment control dump : Value} (valueExposed : Exposed hidden store value)
    (stackExposed : Exposed hidden store stack)
    (environmentExposed : Exposed hidden store environment)
    (controlExposed : Exposed hidden store control) :
    Confined hidden
      ((Effect.return value stack environment control dump).perform registers store).1
      ((Effect.return value stack environment control dump).perform registers store).2 := by
  have grown := store.size_le_cons value stack
  exact ⟨confined.bounded_cons value stack, confined.guarded.cons valueExposed stackExposed,
    exposed_size confined.bounded, environmentExposed.mono grown, controlExposed.mono grown⟩

theorem hideNew (confined : Confined hidden registers store) {other : Store}
    (grown : store.size ≤ other.size)
    (kept : ∀ address, address < store.size →
      other.cell? (.pair address) = store.cell? (.pair address)) :
    Confined (hideNew hidden store.size other.size) registers other := by
  refine ⟨?_, confined.guarded.hideNew grown kept, confined.stack.hideNew grown,
    confined.environment.hideNew grown, confined.control.hideNew grown⟩
  rintro address (old | ⟨_, new⟩)
  · exact Nat.lt_of_lt_of_le (confined.bounded address old) grown
  · exact new

theorem branch (confined : Confined hidden registers store) {code stack control : Value}
    (exposed : ∀ item ∈ (Effect.branch code stack control).values, Exposed hidden store item) :
    Confined (SecdMachine.hideNew hidden store.size (store.size + 1))
      ((Effect.branch code stack control).perform registers store).1
      ((Effect.branch code stack control).perform registers store).2 := by
  simp only [Effect.values, List.forall_mem_cons] at exposed
  obtain ⟨codeExposed, stackExposed, _⟩ := exposed
  have grown := store.size_le_cons control registers.dump
  have saved := confined.hideNew grown fun address old => Store.cell?_cons_of_lt old
  rw [Store.size_cons] at saved
  exact ⟨saved.bounded, saved.guarded, stackExposed.hideNew grown, saved.environment,
    codeExposed.hideNew grown⟩

theorem saveCall (confined : Confined hidden registers store) (stack environment control : Value) :
    Confined (SecdMachine.hideNew hidden store.size (store.size + 4)) registers
      (store.saveCall stack environment control registers.dump) := by
  have size := store.size_saveCall stack environment control registers.dump
  have grown : store.size ≤ (store.saveCall stack environment control registers.dump).size := by
    omega
  have saved := confined.hideNew grown fun address old => Store.cell?_saveCall_of_lt old
  rwa [size] at saved

theorem call (confined : Confined hidden registers store)
    {code frame environment stack control : Value}
    (exposed : ∀ item ∈ (Effect.call code frame environment stack control).values,
      Exposed hidden store item) :
    Confined (SecdMachine.hideNew hidden store.size (store.size + 4))
      ((Effect.call code frame environment stack control).perform registers store).1
      ((Effect.call code frame environment stack control).perform registers store).2 := by
  simp only [Effect.values, List.forall_mem_cons] at exposed
  obtain ⟨codeExposed, frameExposed, environmentExposed, _⟩ := exposed
  have saved := confined.saveCall stack registers.environment control
  have size := store.size_saveCall stack registers.environment control registers.dump
  have grown : store.size ≤
      (store.saveCall stack registers.environment control registers.dump).size := by
    omega
  have grownMore := Store.size_le_cons
    (store.saveCall stack registers.environment control registers.dump) frame environment
  exact ⟨saved.bounded_cons frame environment,
    saved.guarded.cons (frameExposed.hideNew grown) (environmentExposed.hideNew grown),
    exposed_symbol "NIL", exposed_size saved.bounded, (codeExposed.hideNew grown).mono grownMore⟩

theorem callRecursive (confined : Confined hidden registers store) {closure frame : Value}
    {environment : Address} {stack saved control : Value}
    (exposed : ∀ item ∈ (Effect.callRecursive closure frame environment stack saved control).values,
      Exposed hidden store item) :
    Confined (SecdMachine.hideNew hidden store.size (store.size + 4))
      ((Effect.callRecursive closure frame environment stack saved control).perform
        registers store).1
      ((Effect.callRecursive closure frame environment stack saved control).perform
        registers store).2 := by
  simp only [Effect.values, List.forall_mem_cons] at exposed
  obtain ⟨closureExposed, frameExposed, environmentExposed, _⟩ := exposed
  have kept := confined.saveCall stack saved control
  have size := store.size_saveCall stack saved control registers.dump
  have grown : store.size ≤ (store.saveCall stack saved control registers.dump).size := by
    omega
  have same : (store.saveCall stack saved control registers.dump).size ≤
      ((store.saveCall stack saved control registers.dump).setFirst environment frame).size :=
    Nat.le_of_eq Store.size_setFirst.symm
  have guarded := kept.guarded.setFirst (frameExposed.hideNew grown) environment
  refine ⟨?_, guarded, exposed_symbol "NIL", (environmentExposed.hideNew grown).mono same, ?_⟩
  · intro address hit
    exact Nat.lt_of_lt_of_le (kept.bounded address hit) same
  · exact guarded.region.first ((closureExposed.hideNew grown).mono same)

end Confined

theorem Exposed.release {hidden fewer : Address → Prop} {store : Store} {value : Value}
    (exposed : Exposed hidden store value) (less : ∀ address, fewer address → hidden address) :
    Exposed fewer store value := by
  intro address same
  obtain ⟨bound, shown⟩ := exposed address same
  exact ⟨bound, fun hit => shown (less address hit)⟩

/-- The cells of a list may be shown once nothing but its elements and themselves is in them. -/
theorem Guarded.release {hidden : Address → Prop} {store : Store} {value : Value}
    {cells : List Address} {elements : List Value} (guarded : Guarded hidden store)
    (list : store.ListAt value cells elements)
    (exposed : ∀ element ∈ elements, Exposed hidden store element) :
    Guarded (fun address => hidden address ∧ address ∉ cells) store := by
  have less : ∀ address, hidden address ∧ address ∉ cells → hidden address := fun _ hit => hit.1
  intro address cell shown found
  by_cases member : address ∈ cells
  · obtain ⟨first, second⟩ := list.components member found
    refine ⟨(exposed _ first).release less, ?_⟩
    rcases second with ended | ⟨other, inside, linked⟩
    · rw [ended]
      exact exposed_symbol "NIL"
    · rw [linked]
      rintro _ ⟨⟩
      exact ⟨list.lt_size other inside, fun hit => hit.2 inside⟩
  · have old := guarded address cell (fun hit => shown ⟨hit, member⟩) found
    exact ⟨old.1.release less, old.2.release less⟩

namespace Separated

variable {hidden : Address → Prop} {entries : List Entry} {before : Configuration}
  {opcode : Opcode} {rest : Value} {effect : Effect}

theorem region (separated : Separated hidden entries before) :
    before.store.Region (Exposed hidden before.store) :=
  separated.confined.guarded.region

theorem exposed (separated : Separated hidden entries before)
    (executes : before.Executes opcode rest effect) :
    ∀ value ∈ effect.values, Exposed hidden before.store value := by
  obtain ⟨number, code, _⟩ := Instruction.decode_eq_ok_iff.mp executes.decoded
  have control := (separated.region.components _ _ separated.confined.control code).2
  exact separated.region.values_of_performs separated.confined.stack
    separated.confined.environment control executes.performs

theorem kept (separated : Separated hidden entries before)
    (executes : before.Executes opcode rest effect) :
    ∀ address ∈ owned entries,
      before.next.store.cell? (.pair address) = before.store.cell? (.pair address) := by
  intro address member
  rw [executes.store]
  apply Effect.cell?_perform (separated.holds.lt_size address member)
  intro hit
  have shown := separated.exposed executes _ (Effect.target_mem_values hit)
  exact (shown address rfl).2 (separated.concealed address member)

theorem grown (executes : before.Executes opcode rest effect) :
    before.store.size ≤ before.next.store.size := by
  rw [executes.store]
  exact effect.size_le_perform before.registers before.store

theorem of_unchanged (separated : Separated hidden entries before) {trace : Option Sink}
    (unchanged : before.next = ⟨before.machine.withTrace trace, before.store⟩) :
    Separated hidden entries before.next := by
  rw [unchanged]
  exact ⟨separated.confined, separated.dump, separated.holds, separated.distinct,
    separated.concealed, separated.saved⟩

theorem stay (separated : Separated hidden entries before)
    (executes : before.Executes opcode rest effect)
    (dump : before.next.registers.dump = dumpOf entries) (holds : Holds before.next.store entries)
    (confined : Confined hidden before.next.registers before.next.store) :
    Separated hidden entries before.next :=
  ⟨confined, dump, holds, separated.distinct, separated.concealed,
    fun entry member value inside =>
      (separated.saved entry member value inside).mono (grown executes)⟩

theorem push (separated : Separated hidden entries before)
    (executes : before.Executes opcode rest effect) {entry : Entry} {upper : Nat}
    (dump : before.next.registers.dump = dumpOf (entry :: entries))
    (holds : Holds before.next.store (entry :: entries)) (distinct : entry.cells.Nodup)
    (fresh : ∀ address ∈ entry.cells, before.store.size ≤ address ∧ address < upper)
    (saved : ∀ value ∈ entry.saved.values, Exposed hidden before.store value)
    (confined : Confined (hideNew hidden before.store.size upper) before.next.registers
      before.next.store) :
    Separated (hideNew hidden before.store.size upper) (entry :: entries) before.next := by
  have grown := grown executes
  refine ⟨confined, dump, holds, ?_, ?_, ?_⟩
  · refine List.nodup_append.mpr ⟨distinct, separated.distinct, ?_⟩
    intro new inside old below same
    have lower := (fresh new inside).1
    rw [same] at lower
    exact absurd (separated.holds.lt_size old below) (Nat.not_lt.mpr lower)
  · intro address member
    rcases List.mem_append.mp member with new | old
    · exact Or.inr (fresh address new)
    · exact Or.inl (separated.concealed address old)
  · intro other member value inside
    rcases List.mem_cons.mp member with rfl | old
    · exact (saved value inside).hideNew grown
    · exact (separated.saved other old value inside).hideNew grown

theorem exposed_frame {top : Entry} {value stack environment control : Value}
    (separated : Separated hidden (top :: entries) before)
    (held : top.saved.At before.store value)
    (frame : Instruction.callFrame before.store value = .ok (stack, environment, control)) :
    Exposed hidden before.store stack ∧ Exposed hidden before.store environment ∧
      Exposed hidden before.store control := by
  have saved := separated.saved top List.mem_cons_self
  cases shape : top.saved with
  | call cells savedStack savedEnvironment savedControl =>
      rw [shape] at held saved
      have same := (Instruction.callFrame_of_listAt held).symm.trans frame
      simp only [Except.ok.injEq, Prod.mk.injEq] at same
      obtain ⟨rfl, rfl, rfl⟩ := same
      simpa [Saved.values] using saved
  | branch code =>
      rw [shape] at held saved
      have exposed : Exposed hidden before.store value := by
        rw [show value = code from held]
        exact saved code (by simp [Saved.values])
      exact separated.region.callFrame exposed frame

/-- The frame of a call becomes visible when its entry is taken for code. -/
theorem resume {top : Entry} {value : Value} (separated : Separated hidden (top :: entries) before)
    (held : top.saved.At before.store value) {dump : Value}
    (executes : before.Executes .join rest (.resume value dump))
    (below : before.next.registers.dump = dumpOf entries)
    (holds : Holds before.next.store entries) :
    Separated (fun address => hidden address ∧ address ∉ top.saved.cells) entries before.next := by
  have less : ∀ address, hidden address ∧ address ∉ top.saved.cells → hidden address :=
    fun _ hit => hit.1
  have saved := separated.saved top List.mem_cons_self
  have apart := List.nodup_append.mp separated.distinct
  have store : before.next.store = before.store := executes.store
  have control : before.next.registers.control = value := by rw [executes.registers]; rfl
  have stack : before.next.registers.stack = before.registers.stack := by
    rw [executes.registers]; rfl
  have environment : before.next.registers.environment = before.registers.environment := by
    rw [executes.registers]; rfl
  have shown : Guarded (fun address => hidden address ∧ address ∉ top.saved.cells) before.store ∧
      Exposed (fun address => hidden address ∧ address ∉ top.saved.cells) before.store value := by
    cases shape : top.saved with
    | call cells savedStack savedEnvironment savedControl =>
        rw [shape] at held saved
        refine ⟨separated.confined.guarded.release held saved, ?_⟩
        cases held with
        | cons found tail =>
            rintro _ ⟨⟩
            exact ⟨Store.lt_size_of_cell? found, fun hit => hit.2 List.mem_cons_self⟩
    | branch code =>
        rw [shape] at held saved
        have exposed := saved code (by simp [Saved.values])
        rw [show value = code from held]
        simpa [Saved.cells] using And.intro separated.confined.guarded exposed
  refine ⟨⟨?_, ?_, ?_, ?_, ?_⟩, below, holds, apart.2.1, ?_, ?_⟩
  · intro address hit
    rw [store]
    exact separated.confined.bounded address hit.1
  · rw [store]
    exact shown.1
  · rw [store, stack]
    exact separated.confined.stack.release less
  · rw [store, environment]
    exact separated.confined.environment.release less
  · rw [store, control]
    exact shown.2
  · intro address member
    refine ⟨separated.concealed address (List.mem_append_right _ member), fun inside => ?_⟩
    exact apart.2.2 address (List.mem_cons_of_mem _ inside) address member rfl
  · intro entry member item inside
    rw [store]
    exact (separated.saved entry (List.mem_cons_of_mem _ member) item inside).release less

theorem step (separated : Separated hidden entries before)
    (executes : before.Executes opcode rest effect) :
    ∃ hidden after, Separated hidden after before.next ∧ Moves before opcode entries after := by
  obtain ⟨after, dump, holds, moves⟩ :=
    Holds.step executes separated.dump separated.holds (separated.kept executes)
  have exposed := separated.exposed executes
  have region := separated.region
  have registers := executes.registers
  have store := executes.store
  have confined := separated.confined
  cases executes.performs with
  | ld | ldc | car | cdr | atom | eq =>
      obtain rfl := moves.eq_of_unmoved rfl
      refine ⟨hidden, after, separated.stay executes dump holds ?_, moves⟩
      rw [registers, store]
      exact confined.push exposed
  | arithmetic kind =>
      obtain rfl := moves.eq_of_unmoved (Opcode.movesDump_of_isArithmetic kind)
      refine ⟨hidden, after, separated.stay executes dump holds ?_, moves⟩
      rw [registers, store]
      exact confined.push exposed
  | ldf | cons =>
      obtain rfl := moves.eq_of_unmoved rfl
      refine ⟨hidden, after, separated.stay executes dump holds ?_, moves⟩
      rw [registers, store]
      exact confined.pushPair exposed
  | dum =>
      obtain rfl := moves.eq_of_unmoved rfl
      refine ⟨hidden, after, separated.stay executes dump holds ?_, moves⟩
      rw [registers, store]
      exact confined.extend (exposed _ (by simp [Effect.values]))
  | stop =>
      obtain rfl := moves.eq_of_unmoved rfl
      refine ⟨hidden, after, separated.stay executes dump holds ?_, moves⟩
      rw [registers, store]
      exact confined
  | ap =>
      cases moves with
      | stay unmoved => simp [Opcode.movesDump] at unmoved
      | ap code top next =>
          refine ⟨_, _, separated.push executes dump holds (nodup_cells_callEntry _ _ _ _)
            (fun address => mem_cells_callEntry.mp) ?_ ?_, .ap code top next⟩
          · have lower := region.components _ _ (region.components _ _ confined.stack top).2 next
            simp [callEntry, Saved.values, lower, confined.environment,
              region.components _ _ confined.control code]
          · rw [registers, store]
            exact confined.call exposed
  | rap =>
      cases moves with
      | stay unmoved => simp [Opcode.movesDump] at unmoved
      | rap code top next =>
          refine ⟨_, _, separated.push executes dump holds (nodup_cells_callEntry _ _ _ _)
            (fun address => mem_cells_callEntry.mp) ?_ ?_, .rap code top next⟩
          · have lower := region.components _ _ (region.components _ _ confined.stack top).2 next
            simp [callEntry, Saved.values, lower, region.second confined.environment,
              region.components _ _ confined.control code]
          · rw [registers, store]
            exact confined.callRecursive exposed
  | sel =>
      cases moves with
      | stay unmoved => simp [Opcode.movesDump] at unmoved
      | sel code operand other =>
          refine ⟨hideNew hidden before.store.size (before.store.size + 1), _,
            separated.push executes dump holds ?_ ?_ ?_ ?_, .sel code operand other⟩
          · simp [branchEntry, Entry.cells, Saved.cells]
          · simp [branchEntry, Entry.cells, Saved.cells]
          · have inner := region.components _ _ confined.control code
            have lower := region.components _ _ (region.components _ _ inner.2 operand).2 other
            simp [branchEntry, Saved.values, lower]
          · rw [registers, store]
            exact confined.branch exposed
  | rtn top popped frame =>
      rw [separated.dump] at popped
      obtain ⟨entry, below, rfl, rfl, held⟩ := separated.holds.of_cell? popped
      cases moves with
      | stay unmoved => simp [Opcode.movesDump] at unmoved
      | rtn result restored =>
          have apart := List.nodup_append.mp separated.distinct
          obtain ⟨stack, environment, control⟩ := separated.exposed_frame held frame
          refine ⟨hidden, _, ⟨?_, dump, holds, apart.2.1, ?_, ?_⟩, .rtn result restored⟩
          · rw [registers, store]
            exact confined.return (exposed _ (by simp [Effect.values])) stack environment control
          · exact fun address member =>
              separated.concealed address (List.mem_append_right _ member)
          · exact fun other member value inside =>
              (separated.saved other (List.mem_cons_of_mem _ member) value inside).mono
                (grown executes)
  | join popped =>
      rw [separated.dump] at popped
      obtain ⟨entry, below, rfl, rfl, held⟩ := separated.holds.of_cell? popped
      cases moves with
      | stay unmoved => simp [Opcode.movesDump] at unmoved
      | join resumed =>
          exact ⟨_, _, separated.resume held executes dump holds, .join resumed⟩

end Separated

end SecdMachine
