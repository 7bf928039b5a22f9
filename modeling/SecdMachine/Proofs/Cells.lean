import Mathlib.Data.List.Perm.Basic
import SecdMachine.Store

/-!
What the operations of a store do to its cells. A new pair gets the next address and leaves every
other cell alone; replacing a first component touches one cell. Everything proved about runs of the
machine rests on these facts and does not look at the array of cells again.
-/

namespace SecdMachine

theorem length_le_of_nodup {addresses : List Nat} {bound : Nat} (distinct : addresses.Nodup)
    (below : ∀ address ∈ addresses, address < bound) : addresses.length ≤ bound := by
  have inside : addresses ⊆ List.range bound :=
    fun address member => List.mem_range.mpr (below address member)
  simpa using (List.subperm_of_subset distinct inside).length_le

namespace Store

variable {store later last : Store} {address other : Nat} {value first second : Value} {cell : Cell}

theorem eq_pair_of_cell? (found : store.cell? value = some cell) :
    ∃ address, value = .pair address := by
  cases value with
  | pair address => exact ⟨address, rfl⟩
  | absent | empty | symbol _ | integer _ => simp [cell?] at found

theorem cell?_isSome_iff : (store.cell? (.pair address)).isSome ↔ address < store.size := by
  simp [cell?, size]

theorem lt_size_of_cell? (found : store.cell? (.pair address) = some cell) :
    address < store.size := by
  rw [← cell?_isSome_iff, found]
  rfl

theorem exists_cell_of_lt_size (bound : address < store.size) :
    ∃ cell, store.cell? (.pair address) = some cell :=
  Option.isSome_iff_exists.mp (cell?_isSome_iff.mpr bound)

theorem first_of_cell? (found : store.cell? value = some cell) :
    store.first value = cell.first := by
  simp [Store.first, found]

theorem second_of_cell? (found : store.cell? value = some cell) :
    store.second value = cell.second := by
  simp [Store.second, found]

@[simp] theorem cons_fst : (store.cons first second).1 = .pair store.size := rfl

@[simp] theorem size_cons : (store.cons first second).2.size = store.size + 1 := by
  simp [cons, size]

theorem size_le_cons (store : Store) (first second : Value) :
    store.size ≤ (store.cons first second).2.size := by
  rw [size_cons]
  exact Nat.le_succ _

theorem cell?_cons : (store.cons first second).2.cell? (.pair address) =
    if address = store.size then some ⟨first, second⟩ else store.cell? (.pair address) := by
  simp only [cons, cell?, size]
  exact Array.getElem?_push

theorem cell?_cons_self :
    (store.cons first second).2.cell? (.pair store.size) = some ⟨first, second⟩ := by
  simp [cell?_cons]

theorem cell?_cons_of_ne (different : address ≠ store.size) :
    (store.cons first second).2.cell? (.pair address) = store.cell? (.pair address) := by
  simp [cell?_cons, different]

theorem cell?_cons_of_lt (old : address < store.size) :
    (store.cons first second).2.cell? (.pair address) = store.cell? (.pair address) :=
  cell?_cons_of_ne (Nat.ne_of_lt old)

theorem cell?_cons_of_some (found : store.cell? value = some cell) :
    (store.cons first second).2.cell? value = some cell := by
  obtain ⟨address, rfl⟩ := eq_pair_of_cell? found
  rw [cell?_cons_of_lt (lt_size_of_cell? found), found]

@[simp] theorem size_setFirst : (store.setFirst address value).size = store.size := by
  simp [setFirst, size]

theorem cell?_setFirst : (store.setFirst address value).cell? (.pair other) =
    if address = other then
      (store.cell? (.pair other)).map fun cell => { cell with first := value }
    else store.cell? (.pair other) := by
  simp [setFirst, cell?, Array.getElem?_modify]

theorem cell?_setFirst_self (found : store.cell? (.pair address) = some cell) :
    (store.setFirst address value).cell? (.pair address) = some ⟨value, cell.second⟩ := by
  simp [cell?_setFirst, found]

theorem cell?_setFirst_of_ne (different : address ≠ other) :
    (store.setFirst address value).cell? (.pair other) = store.cell? (.pair other) := by
  simp [cell?_setFirst, different]

def Extends (store later : Store) : Prop :=
  ∀ address cell, store.cell? (.pair address) = some cell → later.cell? (.pair address) = some cell

theorem extends_refl (store : Store) : store.Extends store :=
  fun _ _ found => found

theorem Extends.trans (sooner : store.Extends later) (further : later.Extends last) :
    store.Extends last :=
  fun address cell found => further address cell (sooner address cell found)

theorem Extends.cell? (extended : store.Extends later) (found : store.cell? value = some cell) :
    later.cell? value = some cell := by
  obtain ⟨address, rfl⟩ := eq_pair_of_cell? found
  exact extended address cell found

theorem extends_cons (store : Store) (first second : Value) :
    store.Extends (store.cons first second).2 :=
  fun _ _ found => cell?_cons_of_some found

theorem extends_consReversed (elements : List Value) :
    store.Extends (store.consReversed elements value).2 := by
  induction elements generalizing store value with
  | nil => exact store.extends_refl
  | cons element elements ih => exact (store.extends_cons element value).trans ih

theorem Extends.setFirst (extended : store.Extends later)
    (new : store.size ≤ address) : store.Extends (later.setFirst address value) := by
  intro other cell found
  have old := lt_size_of_cell? found
  rw [cell?_setFirst_of_ne (by omega)]
  exact extended other cell found

def Knows (store : Store) (value : Value) : Prop :=
  ∀ address, value = .pair address → address < store.size

/-- The components of every cell are known: no address stands for a pair that is yet to be made. -/
def Closed (store : Store) : Prop :=
  ∀ address cell, store.cell? (.pair address) = some cell →
    store.Knows cell.first ∧ store.Knows cell.second

theorem Knows.mono {larger : Store} (known : store.Knows value) (grown : store.size ≤ larger.size) :
    larger.Knows value :=
  fun address same => Nat.lt_of_lt_of_le (known address same) grown

theorem Closed.cons (closed : store.Closed) (firstKnown : store.Knows first)
    (secondKnown : store.Knows second) : (store.cons first second).2.Closed := by
  have grown := store.size_le_cons first second
  intro address cell found
  by_cases new : address = store.size
  · subst new
    rw [cell?_cons_self] at found
    cases found
    exact ⟨firstKnown.mono grown, secondKnown.mono grown⟩
  · rw [cell?_cons_of_ne new] at found
    have old := closed address cell found
    exact ⟨old.1.mono grown, old.2.mono grown⟩

theorem closed_empty : Closed {} := by
  intro address cell found
  simp [cell?] at found

theorem Closed.load (closed : store.Closed) (datum : Datum) :
    (store.load datum).2.Closed ∧ (store.load datum).2.Knows (store.load datum).1 ∧
      store.size ≤ (store.load datum).2.size := by
  induction datum generalizing store with
  | symbol name => exact ⟨closed, by simp [Knows, Store.load], Nat.le_refl _⟩
  | integer number => exact ⟨closed, by simp [Knows, Store.load], Nat.le_refl _⟩
  | pair first second firstIh secondIh =>
      obtain ⟨closedFirst, knownFirst, grownFirst⟩ := firstIh closed
      obtain ⟨closedSecond, knownSecond, grownSecond⟩ := secondIh closedFirst
      simp only [Store.load]
      refine ⟨closedSecond.cons (knownFirst.mono grownSecond) knownSecond, ?_, ?_⟩
      · rintro address ⟨⟩
        rw [size_cons]
        exact Nat.lt_succ_self _
      · rw [size_cons]
        omega

end Store

end SecdMachine
