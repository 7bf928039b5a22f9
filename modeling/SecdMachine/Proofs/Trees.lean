import SecdMachine.Proofs.Unfolding

/-!
Values as data. A value without cycles denotes one datum, which is no deeper than the store is
large. So the functions that follow pairs only so far, comparing and printing, see the whole of it.
-/

namespace SecdMachine

def Datum.height : Datum → Nat
  | pair first second => max first.height second.height + 1
  | _ => 0

def Datum.tree : Datum → Tree
  | symbol name => .symbol name
  | integer number => .integer number
  | pair first second => .pair first.tree second.tree

theorem Datum.height_tree (datum : Datum) : datum.tree.height = datum.height := by
  induction datum with
  | symbol | integer => rfl
  | pair first second firstIh secondIh => rw [tree, Tree.height, height, firstIh, secondIh]

theorem Datum.tree_injective : Function.Injective tree := by
  intro datum
  induction datum with
  | symbol | integer => intro also same; cases also <;> simp_all [tree]
  | pair first second firstIh secondIh =>
      intro also same
      cases also with
      | symbol | integer => cases same
      | pair otherFirst otherSecond =>
          rw [tree, tree, Tree.pair.injEq] at same
          rw [firstIh same.1, secondIh same.2]

namespace Store

inductive Denotes (store : Store) : Value → Datum → Prop
  | symbol (name : String) : Denotes store (.symbol name) (.symbol name)
  | integer (number : Int64) : Denotes store (.integer number) (.integer number)
  | pair {address : Address} {first second : Value} {firstDatum secondDatum : Datum}
      (found : store.cell? (.pair address) = some ⟨first, second⟩)
      (left : Denotes store first firstDatum) (right : Denotes store second secondDatum) :
      Denotes store (.pair address) (.pair firstDatum secondDatum)

def datum? (store : Store) : Nat → Value → Option Datum
  | _, .symbol name => some (.symbol name)
  | _, .integer number => some (.integer number)
  | depth + 1, .pair address =>
      match store.cell? (.pair address) with
      | some cell =>
          match store.datum? depth cell.first, store.datum? depth cell.second with
          | some first, some second => some (.pair first second)
          | _, _ => none
      | none => none
  | _, _ => none

def Above (store : Store) (datum : Datum) (path : List Nat) : Prop :=
  ∀ address ∈ path, ∃ deeper, store.Denotes (.pair address) deeper ∧ datum.height < deeper.height

variable {store : Store} {value : Value} {datum part : Datum} {address : Nat} {path : List Nat}

theorem denotes_of_datum? {depth : Nat} (found : store.datum? depth value = some datum) :
    store.Denotes value datum := by
  fun_induction datum? store depth value generalizing datum with
  | case1 depth name =>
      cases found
      exact .symbol name
  | case2 depth number =>
      cases found
      exact .integer number
  | case3 depth address cell here first second right left firstIh secondIh =>
      cases found
      exact .pair here (firstIh left) (secondIh right)
  | case4 | case5 | case6 => cases found

theorem Denotes.unique {other : Datum} (denotes : store.Denotes value datum)
    (also : store.Denotes value other) : datum = other := by
  induction denotes generalizing other with
  | symbol name =>
      cases also
      rfl
  | integer number =>
      cases also
      rfl
  | pair found _ _ firstIh secondIh =>
      cases also with
      | pair foundAgain left right =>
          rw [found] at foundAgain
          cases foundAgain
          rw [firstIh left, secondIh right]

theorem Denotes.mono {larger : Store} (denotes : store.Denotes value datum)
    (kept : ∀ address cell, store.cell? (.pair address) = some cell →
      larger.cell? (.pair address) = some cell) : larger.Denotes value datum := by
  induction denotes with
  | symbol name => exact .symbol name
  | integer number => exact .integer number
  | pair found _ _ firstIh secondIh => exact .pair (kept _ _ found) firstIh secondIh

theorem Above.not_mem (above : store.Above datum path)
    (denotes : store.Denotes (.pair address) datum) : address ∉ path := by
  intro member
  obtain ⟨deeper, also, lower⟩ := above address member
  rw [denotes.unique also] at lower
  omega

theorem Above.push (above : store.Above datum path)
    (denotes : store.Denotes (.pair address) datum) (lower : part.height < datum.height) :
    store.Above part (address :: path) := by
  intro other member
  rcases List.mem_cons.mp member with rfl | member
  · exact ⟨datum, denotes, lower⟩
  · obtain ⟨deeper, also, below⟩ := above other member
    exact ⟨deeper, also, by omega⟩

theorem Denotes.unfolds (denotes : store.Denotes value datum) :
    store.Unfolds value datum.tree := by
  induction denotes with
  | symbol name => exact .symbol name
  | integer number => exact .integer number
  | pair found _ _ firstIh secondIh => exact .pair found firstIh secondIh

theorem Denotes.height_le_size (denotes : store.Denotes value datum) :
    datum.height ≤ store.size := by
  rw [← datum.height_tree]
  exact denotes.unfolds.height_le_size

theorem cell?_load_of_cell? (datum : Datum) {cell : Cell}
    (found : store.cell? (.pair address) = some cell) :
    (store.load datum).2.cell? (.pair address) = some cell := by
  induction datum generalizing store with
  | symbol name => exact found
  | integer number => exact found
  | pair first second firstIh secondIh =>
      simp only [Store.load]
      have kept := secondIh (firstIh found)
      rw [cell?_cons_of_lt (lt_size_of_cell? kept), kept]

theorem denotes_load (store : Store) (datum : Datum) :
    (store.load datum).2.Denotes (store.load datum).1 datum := by
  induction datum generalizing store with
  | symbol name => exact .symbol name
  | integer number => exact .integer number
  | pair first second firstIh secondIh =>
      simp only [Store.load]
      have keptByCons : ∀ {store : Store} {left right : Value} address cell,
          store.cell? (.pair address) = some cell →
            (store.cons left right).2.cell? (.pair address) = some cell := by
        intro store left right address cell found
        rw [cell?_cons_of_lt (lt_size_of_cell? found), found]
      have left := (firstIh store).mono fun _ _ => cell?_load_of_cell? second
      exact .pair cell?_cons_self (left.mono keptByCons)
        ((secondIh (store.load first).2).mono keptByCons)

theorem Denotes.equal_load (denotes : store.Denotes value datum) :
    (store.load datum).2.equal value (store.load datum).1 = true := by
  have same := denotes.mono fun _ _ => cell?_load_of_cell? datum
  exact same.unfolds.equal (denotes_load store datum).unfolds

theorem Denotes.eq_of_equal {other : Value} {also : Datum} (left : store.Denotes value datum)
    (right : store.Denotes other also) (same : store.equal value other = true) : datum = also :=
  Datum.tree_injective ((left.unfolds.equal_iff right.unfolds).mp same)

end Store

end SecdMachine
