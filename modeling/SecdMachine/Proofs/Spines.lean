import SecdMachine.Proofs.CallReturn
import SecdMachine.Proofs.Lasting

/-!
A recursive call replaces one first component, and nothing else ever changes in a pair. Since second
components are final, chains of them that end keep ending, however cyclic the environments become.
-/

namespace SecdMachine

structure Orderly (hidden : Address → Prop) (store : Store) : Prop where
  bounded : ∀ address, hidden address → address < store.size
  guarded : Guarded hidden store
  finite : ∀ address, address < store.size → ¬hidden address →
    ∃ length, store.Spine (.pair address) length

namespace Orderly

variable {hidden : Address → Prop} {store : Store} {value first second : Value}

theorem spine (orderly : Orderly hidden store) (exposed : Exposed hidden store value) :
    ∃ length, store.Spine value length := by
  cases value with
  | pair address => exact orderly.finite address (exposed address rfl).1 (exposed address rfl).2
  | absent | empty | symbol _ | integer _ => exact ⟨0, .ends rfl⟩

theorem cons (orderly : Orderly hidden store) (firstExposed : Exposed hidden store first)
    (secondExposed : Exposed hidden store second) :
    Orderly hidden (store.cons first second).2 ∧
      Exposed hidden (store.cons first second).2 (store.cons first second).1 ∧
      ∀ value, Exposed hidden store value → Exposed hidden (store.cons first second).2 value := by
  have size : (store.cons first second).2.size = store.size + 1 := Store.size_cons
  have kept : ∀ address cell, store.cell? (.pair address) = some cell →
      ∃ first', (store.cons first second).2.cell? (.pair address) = some ⟨first', cell.second⟩ :=
    fun address cell found => ⟨cell.first, Store.cell?_cons_of_some found⟩
  refine ⟨⟨?_, orderly.guarded.cons firstExposed secondExposed, ?_⟩,
    exposed_size orderly.bounded, fun value exposed => exposed.mono (by omega)⟩
  · intro address hit
    rw [size]
    exact Nat.lt_succ_of_lt (orderly.bounded address hit)
  · intro address bound shown
    by_cases new : address = store.size
    · subst new
      obtain ⟨length, spine⟩ := orderly.spine secondExposed
      exact ⟨length + 1, .pair Store.cell?_cons_self (spine.congr kept)⟩
    · obtain ⟨length, spine⟩ := orderly.finite address (by omega) shown
      exact ⟨length, spine.congr kept⟩

theorem setFirst (orderly : Orderly hidden store) (exposed : Exposed hidden store value)
    (target : Address) : Orderly hidden (store.setFirst target value) := by
  have kept : ∀ address cell, store.cell? (.pair address) = some cell →
      ∃ first, (store.setFirst target value).cell? (.pair address) =
        some ⟨first, cell.second⟩ := by
    intro address cell found
    by_cases hit : target = address
    · subst hit
      exact ⟨value, Store.cell?_setFirst_self found⟩
    · exact ⟨cell.first, by rw [Store.cell?_setFirst_of_ne hit, found]⟩
  refine ⟨?_, orderly.guarded.setFirst exposed target, ?_⟩
  · intro address hit
    rw [Store.size_setFirst]
    exact orderly.bounded address hit
  · intro address bound shown
    rw [Store.size_setFirst] at bound
    obtain ⟨length, spine⟩ := orderly.finite address bound shown
    exact ⟨length, spine.congr kept⟩

end Orderly

theorem lasting_orderly (hidden : Address → Prop) :
    Lasting fun store value => Orderly hidden store ∧ Exposed hidden store value := by
  constructor
  · rintro store value ⟨orderly, _⟩
    have region := orderly.guarded.region
    exact ⟨fun name => ⟨orderly, region.symbol name⟩, fun number => ⟨orderly, region.integer number⟩,
      fun pair cell held found =>
        have halves := region.components pair cell held.2 found
        ⟨⟨orderly, halves.1⟩, orderly, halves.2⟩⟩
  · rintro store first second ⟨orderly, firstShown⟩ ⟨_, secondShown⟩
    obtain ⟨after, made, wider⟩ := orderly.cons firstShown secondShown
    exact ⟨⟨after, made⟩, fun value held => ⟨after, wider value held.2⟩⟩
  · rintro store first ⟨orderly, shown⟩ target value ⟨_, also⟩
    exact ⟨orderly.setFirst shown target, also.mono (Nat.le_of_eq Store.size_setFirst.symm)⟩

structure Settled (hidden : Address → Prop) (registers : Registers) (store : Store) : Prop where
  orderly : Orderly hidden store
  exposed : ∀ value ∈ registers.values, Exposed hidden store value

namespace Settled

variable {hidden : Address → Prop}

theorem after {before : Configuration} (settled : Settled hidden before.registers before.store)
    (calls : Nat) :
    Settled hidden (before.after calls).registers (before.after calls).store := by
  have held := (lasting_orderly hidden).after
    (fun value member => ⟨settled.orderly, settled.exposed value member⟩) calls
  exact ⟨(held _ List.mem_cons_self).1, fun value member => (held value member).2⟩

end Settled

theorem Holds.spine_dumpOf {store : Store} {entries : List Entry} (holds : Holds store entries) :
    store.Spine (dumpOf entries) entries.length := by
  induction holds with
  | empty => exact .ends rfl
  | entry linked _ _ ih => exact .pair linked ih

namespace Configuration

def Changes (configuration : Configuration) (address : Address) : Prop :=
  ∃ cell, configuration.store.cell? (.pair address) = some cell ∧
    configuration.next.store.cell? (.pair address) ≠ some cell

/-- The pair is the environment of the closure on top of the stack, and a call of `step` replaces its
first component by the arguments below the closure. -/
def CompletesFrame (configuration : Configuration) (address : Address) : Prop :=
  ∃ closure below arguments stack body cell,
    configuration.store.cell? configuration.registers.stack = some ⟨closure, below⟩ ∧
    configuration.store.cell? below = some ⟨arguments, stack⟩ ∧
    configuration.store.cell? closure = some ⟨body, .pair address⟩ ∧
    configuration.store.cell? (.pair address) = some cell ∧
    configuration.next.store.cell? (.pair address) = some ⟨arguments, cell.second⟩

theorem CompletesFrame.unique {configuration : Configuration} {address other : Address}
    (completes : configuration.CompletesFrame address)
    (also : configuration.CompletesFrame other) : address = other := by
  obtain ⟨closure, _, _, _, _, _, top, _, applied, _⟩ := completes
  obtain ⟨_, _, _, _, _, _, topAgain, _, appliedAgain, _⟩ := also
  rw [top] at topAgain
  cases topAgain
  rw [applied] at appliedAgain
  cases appliedAgain
  rfl

theorem completesFrame_of_changes {configuration : Configuration} {address : Address}
    (changes : configuration.Changes address) :
    configuration.Completes .rap ∧ configuration.CompletesFrame address := by
  obtain ⟨cell, found, changed⟩ := changes
  rcases configuration.step_cases with ⟨_, _, _, _, _, unchanged⟩ |
    ⟨succeeded, opcode, rest, effect, executes⟩
  · rw [unchanged] at changed
    exact absurd found changed
  · have old := Store.lt_size_of_cell? found
    have hit : effect.target = some address := by
      by_contra other
      rw [executes.store, Effect.cell?_perform old other] at changed
      exact changed found
    have completes := completes_of_executes succeeded executes
    have store := executes.store
    cases executes.performs with
    | rap top next applied completed around =>
        cases hit
        refine ⟨completes, _, _, _, _, _, cell, top, next, applied, found, ?_⟩
        rw [store]
        exact Store.cell?_setFirst_self ((Store.cell?_saveCall_of_lt old).trans found)
    | ld | ldc | ldf | ap | rtn | dum | sel | join | car | cdr | atom | cons | eq | arithmetic |
        stop => simp [Effect.target] at hit

def executed (run : Nat → Configuration) (opcode : Opcode) (calls : Nat) : Nat :=
  (List.range calls).countP fun call => (run call).Completes opcode

theorem executed_succ (run : Nat → Configuration) (opcode : Opcode) (calls : Nat) :
    executed run opcode (calls + 1) =
      executed run opcode calls + if (run calls).Completes opcode then 1 else 0 := by
  simp [executed, List.range_succ]

theorem Executes.completes_iff {configuration : Configuration} {opcode other : Opcode}
    {rest : Value} {effect : Effect} (succeeded : configuration.error? = none)
    (executes : configuration.Executes opcode rest effect) :
    configuration.Completes other ↔ opcode = other := by
  constructor
  · exact executes.opcode_eq
  · rintro rfl
    exact completes_of_executes succeeded executes

/-- The dump is as deep as calls and branches made it, less what returns and joins took. -/
theorem depth_balance {configuration : Configuration} {hidden : Address → Prop}
    (separated : Separated hidden [] configuration) (calls : Nat) :
    ∃ hidden entries, Separated hidden entries (configuration.after calls) ∧
      entries.length + executed configuration.after .rtn calls +
        executed configuration.after .join calls =
      executed configuration.after .ap calls + executed configuration.after .rap calls +
        executed configuration.after .sel calls := by
  induction calls with
  | zero => exact ⟨hidden, [], separated, rfl⟩
  | succ calls ih =>
      obtain ⟨hidden, entries, held, balance⟩ := ih
      simp only [executed_succ]
      rcases (configuration.after calls).step_cases with ⟨error, trace, failed, _, _, unchanged⟩ |
        ⟨succeeded, opcode, rest, effect, executes⟩
      · have idle : ∀ opcode, ¬(configuration.after calls).Completes opcode := by
          intro opcode completes
          rw [completes.1] at failed
          cases failed
        exact ⟨hidden, entries, held.of_unchanged unchanged, by simpa [idle] using balance⟩
      · obtain ⟨hidden, later, moved, moves⟩ := held.step executes
        refine ⟨hidden, later, moved, ?_⟩
        simp only [executes.completes_iff succeeded]
        cases moves with
        | ap | rap | sel | rtn | join =>
            simp only [List.length_cons, reduceCtorEq, ↓reduceIte] at balance ⊢
            omega
        | stay unmoved => cases opcode <;> simp [Opcode.movesDump] at unmoved ⊢ <;> omega

theorem size_le_next (configuration : Configuration) :
    configuration.store.size ≤ configuration.next.store.size := by
  rcases configuration.step_cases with ⟨_, _, _, _, _, unchanged⟩ | ⟨_, _, _, effect, executes⟩
  · exact Nat.le_of_eq (by rw [unchanged])
  · rw [executes.store]
    exact effect.size_le_perform configuration.registers configuration.store

theorem size_le_after (configuration : Configuration) (calls : Nat) :
    configuration.store.size ≤ (configuration.after calls).store.size := by
  induction calls with
  | zero => exact Nat.le_refl _
  | succ calls ih => exact Nat.le_trans ih (configuration.after calls).size_le_next

/-- The pairs a run may ever see: those of its program and of its arguments, and its own. -/
theorem settled_start {store : Store} {program arguments : Value} (trace : Option Sink)
    (closed : store.Closed) (programKnown : store.Knows program)
    (argumentsKnown : store.Knows arguments)
    (finite : ∀ address, store.Reaches program address ∨ store.Reaches arguments address →
      ∃ length, store.Spine (.pair address) length) :
    Settled (fun address => address < store.size ∧
        ¬(store.Reaches program address ∨ store.Reaches arguments address))
      (start store program arguments trace).registers
      (start store program arguments trace).store := by
  have shown : ∀ {value}, store.Knows value →
      (∀ address, store.Reaches value address →
        store.Reaches program address ∨ store.Reaches arguments address) →
      Exposed (fun address => address < store.size ∧
        ¬(store.Reaches program address ∨ store.Reaches arguments address)) store value := by
    rintro value known reached address rfl
    exact ⟨known address rfl, fun hit => hit.2 (reached address (.here address))⟩
  have guarded : Guarded (fun address => address < store.size ∧
      ¬(store.Reaches program address ∨ store.Reaches arguments address)) store := by
    intro address cell visible found
    have here : store.Reaches program address ∨ store.Reaches arguments address := by
      by_contra hit
      exact visible ⟨Store.lt_size_of_cell? found, hit⟩
    have onward : ∀ {target}, store.Reaches (.pair address) target →
        store.Reaches program target ∨ store.Reaches arguments target :=
      fun later => here.imp (fun sooner => sooner.trans later) (fun sooner => sooner.trans later)
    obtain ⟨firstKnown, secondKnown⟩ := closed address cell found
    exact ⟨shown firstKnown fun target inner => onward (.first found inner),
      shown secondKnown fun target inner => onward (.second found inner)⟩
  have orderly : Orderly (fun address => address < store.size ∧
      ¬(store.Reaches program address ∨ store.Reaches arguments address)) store := by
    refine ⟨fun address hit => hit.1, guarded, ?_⟩
    intro address bound visible
    apply finite
    by_contra hit
    exact visible ⟨bound, hit⟩
  have argumentsShown := shown argumentsKnown fun address => Or.inr
  have programShown := shown programKnown fun address => Or.inl
  obtain ⟨after, made, wider⟩ := orderly.cons argumentsShown (exposed_symbol "NIL")
  refine ⟨after, ?_⟩
  simp only [Registers.values, List.forall_mem_cons]
  exact ⟨made, exposed_symbol "NIL", wider _ programShown, exposed_symbol "NIL", by simp⟩

/-- The only instruction that changes an existing pair is a recursive call, which gives one pair a
new first component. So chains of second components stay finite in every run, and the dump has as
many entries as were made and not yet taken. -/
theorem second_components_are_final :
    (∀ configuration : Configuration, configuration.error? = none →
      (∀ address other, configuration.Changes address → configuration.Changes other →
        address = other) ∧
      ∀ address, configuration.Changes address →
        configuration.Completes .rap ∧ configuration.CompletesFrame address) ∧
    (∀ (store : Store) (program arguments : Value) (trace : Option Sink),
      store.Closed → store.Knows program → store.Knows arguments →
      (∀ address, store.Reaches program address ∨ store.Reaches arguments address →
        ∃ length, store.Spine (.pair address) length) →
      let run := (start store program arguments trace).after
      ∀ calls,
        (∀ address, (run calls).Reaches address ∨ store.Reaches program address ∨
            store.Reaches arguments address ∨
            store.size ≤ address ∧ address < (run calls).store.size →
          ∃ length, (run calls).store.Spine (.pair address) length) ∧
        (run calls).store.Spine (run calls).registers.dump (run calls).depth ∧
        ((run calls).depth : Int) =
          executed run .ap calls + executed run .rap calls + executed run .sel calls -
            (executed run .rtn calls + executed run .join calls)) := by
  constructor
  · intro configuration _
    refine ⟨fun address other changes also => ?_, fun address => completesFrame_of_changes⟩
    exact (completesFrame_of_changes changes).2.unique (completesFrame_of_changes also).2
  · intro store program arguments trace closed programKnown argumentsKnown finite
    dsimp only
    intro calls
    have settled := (settled_start trace closed programKnown argumentsKnown finite).after calls
    obtain ⟨_, entries, separated, balance⟩ :=
      depth_balance (separated_start trace closed programKnown argumentsKnown) calls
    have depth := separated.depth_eq
    refine ⟨?_, ?_, ?_⟩
    · intro address inside
      apply settled.orderly.spine
      rcases inside with ⟨value, member, reached⟩ | inside
      · exact settled.orderly.guarded.region.of_reaches reached (settled.exposed value member)
      · rintro _ ⟨⟩
        have grown := Nat.le_trans (store.size_le_cons arguments .nil)
          ((start store program arguments trace).size_le_after calls)
        rcases inside with reached | reached | ⟨new, bound⟩
        · have old := reached.lt_size closed programKnown
          exact ⟨Nat.lt_of_lt_of_le old grown, fun hit => hit.2 (Or.inl reached)⟩
        · have old := reached.lt_size closed argumentsKnown
          exact ⟨Nat.lt_of_lt_of_le old grown, fun hit => hit.2 (Or.inr reached)⟩
        · exact ⟨bound, fun hit => Nat.not_lt.mpr new hit.1⟩
    · rw [depth, separated.dump]
      exact separated.holds.spine_dumpOf
    · rw [depth]
      omega

theorem branchWithinCalls_second_components :
    ((branchWithinCallsRun 5).Changes 34 ∧ (branchWithinCallsRun 5).CompletesFrame 34) ∧
    (∃ length, (branchWithinCallsRun 14).store.Spine (.pair 34) length) ∧
    (branchWithinCallsRun 14).store.Spine (branchWithinCallsRun 14).registers.dump 3 ∧
    executed branchWithinCallsRun .ap 14 + executed branchWithinCallsRun .rap 14 +
      executed branchWithinCallsRun .sel 14 = 3 := by
  have loaded := Store.closed_empty.load branchWithinCalls
  have finite : ∀ address,
      (Store.load {} branchWithinCalls).2.Reaches (Store.load {} branchWithinCalls).1 address ∨
        (Store.load {} branchWithinCalls).2.Reaches .nil address →
      ∃ length, (Store.load {} branchWithinCalls).2.Spine (.pair address) length := by
    rintro address (reached | reached)
    · exact (Store.denotes_load {} branchWithinCalls).spine_of_reaches reached
    · cases reached
  obtain ⟨changing, running⟩ := second_components_are_final
  have changes : (branchWithinCallsRun 5).Changes 34 := ⟨⟨.nil, .nil⟩, by decide, by decide⟩
  obtain ⟨spines, dump, _⟩ := running _ _ .nil none loaded.1 loaded.2.1
    (by simp [Store.Knows, Value.nil]) finite 14
  refine ⟨⟨changes, ((changing _ (by decide)).2 34 changes).2⟩, spines 34 ?_, dump, by decide⟩
  exact Or.inr (Or.inr (Or.inr ⟨by decide, by decide⟩))

end Configuration

end SecdMachine
