import SecdMachine.Proofs.Trees
import SecdMachine.Proofs.ValueFlow

/-!
Which pairs a value leads to, and how long the chain of its second components is. A tree placed in a
store leads only to pairs whose chains end.
-/

namespace SecdMachine

namespace Store

inductive Reaches (store : Store) : Value → Address → Prop
  | here (address : Address) : Reaches store (.pair address) address
  | first {address target cell} (found : store.cell? (.pair address) = some cell)
      (inner : Reaches store cell.first target) : Reaches store (.pair address) target
  | second {address target cell} (found : store.cell? (.pair address) = some cell)
      (inner : Reaches store cell.second target) : Reaches store (.pair address) target

inductive Spine (store : Store) : Value → Nat → Prop
  | ends {value} (atom : value.isPair = false) : Spine store value 0
  | pair {address cell length} (found : store.cell? (.pair address) = some cell)
      (tail : Spine store cell.second length) : Spine store (.pair address) (length + 1)

variable {store other : Store} {value : Value} {address target : Address} {length : Nat}

theorem Reaches.trans (outer : store.Reaches value address)
    (inner : store.Reaches (.pair address) target) : store.Reaches value target := by
  induction outer with
  | here address => exact inner
  | first found _ ih => exact .first found (ih inner)
  | second found _ ih => exact .second found (ih inner)

theorem Reaches.lt_size (reaches : store.Reaches value address) (closed : store.Closed)
    (known : store.Knows value) : address < store.size := by
  induction reaches with
  | here address => exact known address rfl
  | @first address target cell found _ ih => exact ih (closed address cell found).1
  | @second address target cell found _ ih => exact ih (closed address cell found).2

theorem Region.of_reaches {inside : Value → Prop} (region : store.Region inside)
    (reaches : store.Reaches value address) (member : inside value) : inside (.pair address) := by
  induction reaches with
  | here address => exact member
  | first found _ ih => exact ih (region.components _ _ member found).1
  | second found _ ih => exact ih (region.components _ _ member found).2

theorem Spine.congr (spine : store.Spine value length)
    (kept : ∀ address cell, store.cell? (.pair address) = some cell →
      ∃ first, other.cell? (.pair address) = some ⟨first, cell.second⟩) :
    other.Spine value length := by
  induction spine with
  | ends atom => exact .ends atom
  | pair found _ ih =>
      obtain ⟨first, still⟩ := kept _ _ found
      exact .pair still ih

theorem Denotes.spine {datum : Datum} (denotes : store.Denotes value datum) :
    ∃ length, store.Spine value length := by
  induction denotes with
  | symbol name => exact ⟨0, .ends rfl⟩
  | integer number => exact ⟨0, .ends rfl⟩
  | pair found _ _ _ secondIh =>
      obtain ⟨length, spine⟩ := secondIh
      exact ⟨length + 1, .pair found spine⟩

theorem Denotes.of_reaches {datum : Datum} (denotes : store.Denotes value datum)
    (reaches : store.Reaches value address) : ∃ part, store.Denotes (.pair address) part := by
  induction reaches generalizing datum with
  | here address => exact ⟨datum, denotes⟩
  | first found _ ih =>
      cases denotes with
      | pair same left _ =>
          rw [found] at same
          cases same
          exact ih left
  | second found _ ih =>
      cases denotes with
      | pair same _ right =>
          rw [found] at same
          cases same
          exact ih right

theorem Denotes.spine_of_reaches {datum : Datum} (denotes : store.Denotes value datum)
    (reaches : store.Reaches value address) : ∃ length, store.Spine (.pair address) length := by
  obtain ⟨part, found⟩ := denotes.of_reaches reaches
  exact found.spine

end Store

def Registers.values (registers : Registers) : List Value :=
  [registers.stack, registers.environment, registers.control, registers.dump]

def Configuration.Reaches (configuration : Configuration) (address : Address) : Prop :=
  ∃ value ∈ configuration.registers.values, configuration.store.Reaches value address

end SecdMachine
