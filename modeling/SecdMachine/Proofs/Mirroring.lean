import Mathlib.Data.List.Nodup
import SecdMachine.Proofs.Dump
import SecdMachine.Proofs.Reachability

/-!
Stores that hold the same data at different addresses. A link pairs the addresses of one store with
those of the other; linked cells have components that are equal or linked again. What is printed of
a value does not depend on the store it is in.
-/

namespace SecdMachine

inductive Alike (link : Address → Address → Prop) : Value → Value → Prop
  | atom {value : Value} (atom : value.isPair = false) : Alike link value value
  | pair {address image : Address} (linked : link address image) :
      Alike link (.pair address) (.pair image)

def Cell.Alike (link : Address → Address → Prop) (cell image : Cell) : Prop :=
  SecdMachine.Alike link cell.first image.first ∧ SecdMachine.Alike link cell.second image.second

structure Mirrors (link : Address → Address → Prop) (store mirror : Store) : Prop where
  cells : ∀ address image, link address image → ∃ cell imageCell,
    store.cell? (.pair address) = some cell ∧ mirror.cell? (.pair image) = some imageCell ∧
      cell.Alike link imageCell
  unique : ∀ address left right, link address left → link address right → left = right
  faithful : ∀ left right image, link left image → link right image → left = right

structure Widens (link wider : Address → Address → Prop) (bound : Nat) : Prop where
  kept : ∀ address image, link address image → wider address image
  new : ∀ address image, wider address image → link address image ∨ bound ≤ address

section

variable {link wider widest : Address → Address → Prop} {store mirror : Store} {bound later : Nat}
  {value image head tail headImage tailImage : Value}

theorem Alike.mono (alike : Alike link value image) (widens : Widens link wider bound) :
    Alike wider value image := by
  cases alike with
  | atom atom => exact .atom atom
  | pair linked => exact .pair (widens.kept _ _ linked)

theorem Alike.kind_eq (alike : Alike link value image) : value.kind = image.kind := by
  cases alike <;> rfl

theorem Alike.isAtom_eq (alike : Alike link value image) : value.isAtom = image.isAtom := by
  cases alike <;> rfl

theorem Alike.isNil_eq (alike : Alike link value image) : value.isNil = image.isNil := by
  cases alike <;> rfl

theorem alike_symbol (name : String) : Alike link (.symbol name) (.symbol name) :=
  .atom rfl

theorem Widens.refl (link : Address → Address → Prop) (bound : Nat) : Widens link link bound :=
  ⟨fun _ _ linked => linked, fun _ _ linked => Or.inl linked⟩

theorem Widens.trans (sooner : Widens link wider bound) (further : Widens wider widest later)
    (grown : bound ≤ later) : Widens link widest bound := by
  constructor
  · intro address image linked
    exact further.kept address image (sooner.kept address image linked)
  · intro address image linked
    rcases further.new address image linked with linked | late
    · exact sooner.new address image linked
    · exact Or.inr (Nat.le_trans grown late)

namespace Mirrors

theorem lt_size (mirrors : Mirrors link store mirror) {address image : Address}
    (linked : link address image) : address < store.size ∧ image < mirror.size := by
  obtain ⟨cell, imageCell, found, foundImage, _⟩ := mirrors.cells address image linked
  exact ⟨Store.lt_size_of_cell? found, Store.lt_size_of_cell? foundImage⟩

theorem biUnique (mirrors : Mirrors link store mirror) : Relator.BiUnique link :=
  ⟨fun left right image => mirrors.faithful left right image,
    fun address left right => mirrors.unique address left right⟩

/-- Two values alike are both pairs with cells alike, or neither has a cell. -/
theorem cell?_cases (mirrors : Mirrors link store mirror) (alike : Alike link value image) :
    (∃ cell imageCell, store.cell? value = some cell ∧ mirror.cell? image = some imageCell ∧
      cell.Alike link imageCell) ∨
    store.cell? value = none ∧ mirror.cell? image = none := by
  cases alike with
  | atom atom =>
      right
      cases value with
      | pair address => cases atom
      | absent | empty | symbol _ | integer _ => exact ⟨rfl, rfl⟩
  | pair linked => exact Or.inl (mirrors.cells _ _ linked)

theorem first (mirrors : Mirrors link store mirror) (alike : Alike link value image) :
    Alike link (store.first value) (mirror.first image) := by
  rcases mirrors.cell?_cases alike with ⟨cell, imageCell, found, foundImage, same⟩ | ⟨found, lost⟩
  · rw [Store.first_of_cell? found, Store.first_of_cell? foundImage]
    exact same.1
  · simp only [Store.first, found, lost]
    exact alike_symbol "NIL"

theorem cons (mirrors : Mirrors link store mirror) (headAlike : Alike link head headImage)
    (tailAlike : Alike link tail tailImage) :
    ∃ wider, Widens link wider store.size ∧
      Mirrors wider (store.cons head tail).2 (mirror.cons headImage tailImage).2 ∧
      Alike wider (store.cons head tail).1 (mirror.cons headImage tailImage).1 := by
  have widens : Widens link (fun address image =>
      link address image ∨ address = store.size ∧ image = mirror.size) store.size := by
    refine ⟨fun _ _ => Or.inl, fun address image linked => ?_⟩
    exact linked.imp id fun new => Nat.le_of_eq new.1.symm
  refine ⟨_, widens, ⟨?_, ?_, ?_⟩, .pair (Or.inr ⟨rfl, rfl⟩)⟩
  · rintro address image (linked | ⟨rfl, rfl⟩)
    · obtain ⟨cell, imageCell, found, foundImage, firsts, seconds⟩ :=
        mirrors.cells address image linked
      exact ⟨cell, imageCell, Store.cell?_cons_of_some found, Store.cell?_cons_of_some foundImage,
        firsts.mono widens, seconds.mono widens⟩
    · exact ⟨_, _, Store.cell?_cons_self, Store.cell?_cons_self, headAlike.mono widens,
        tailAlike.mono widens⟩
  · rintro address left right (linked | ⟨rfl, rfl⟩) (also | ⟨same, rfl⟩)
    · exact mirrors.unique address left right linked also
    · exact absurd same (Nat.ne_of_lt (mirrors.lt_size linked).1)
    · exact absurd rfl (Nat.ne_of_lt (mirrors.lt_size also).1)
    · rfl
  · rintro left right image (linked | ⟨rfl, rfl⟩) (also | ⟨rfl, same⟩)
    · exact mirrors.faithful left right image linked also
    · exact absurd same (Nat.ne_of_lt (mirrors.lt_size linked).2)
    · exact absurd rfl (Nat.ne_of_lt (mirrors.lt_size also).2)
    · rfl

theorem list (mirrors : Mirrors link store mirror) {elements images : List Value}
    (alike : List.Forall₂ (Alike link) elements images) :
    ∃ wider, Widens link wider store.size ∧
      Mirrors wider (store.list elements).2 (mirror.list images).2 ∧
      Alike wider (store.list elements).1 (mirror.list images).1 := by
  induction alike with
  | nil => exact ⟨link, .refl link _, mirrors, alike_symbol "NIL"⟩
  | cons alike _ ih =>
      obtain ⟨wider, widens, listed, rest⟩ := ih
      rw [Store.list_cons, Store.list_cons]
      obtain ⟨widest, further, made, whole⟩ := listed.cons (alike.mono widens) rest
      refine ⟨widest, widens.trans further ?_, made, whole⟩
      rw [Store.size_list]
      omega

theorem setFirst (mirrors : Mirrors link store mirror) {address image : Address}
    (linked : link address image) (alike : Alike link head headImage) :
    Mirrors link (store.setFirst address head) (mirror.setFirst image headImage) := by
  refine ⟨?_, mirrors.unique, mirrors.faithful⟩
  intro other otherImage otherLinked
  obtain ⟨cell, imageCell, found, foundImage, firsts, seconds⟩ :=
    mirrors.cells other otherImage otherLinked
  by_cases same : address = other
  · subst same
    have sameImage := mirrors.unique address image otherImage linked otherLinked
    subst sameImage
    exact ⟨_, _, Store.cell?_setFirst_self found, Store.cell?_setFirst_self foundImage, alike,
      seconds⟩
  · have different : image ≠ otherImage := by
      rintro rfl
      exact same (mirrors.faithful address other image linked otherLinked)
    refine ⟨cell, imageCell, ?_, ?_, firsts, seconds⟩
    · rw [Store.cell?_setFirst_of_ne same, found]
    · rw [Store.cell?_setFirst_of_ne different, foundImage]

theorem congr (mirrors : Mirrors link store mirror) {other : Store}
    (kept : ∀ address image, link address image →
      other.cell? (.pair address) = store.cell? (.pair address)) : Mirrors link other mirror := by
  refine ⟨?_, mirrors.unique, mirrors.faithful⟩
  intro address image linked
  rw [kept address image linked]
  exact mirrors.cells address image linked

theorem of_reaches (mirrors : Mirrors link store mirror) {address : Address}
    (reaches : store.Reaches value address) (alike : Alike link value image) :
    ∃ other, link address other := by
  induction reaches generalizing image with
  | here address =>
      cases alike with
      | atom atom => cases atom
      | pair linked => exact ⟨_, linked⟩
  | first found _ ih =>
      rcases mirrors.cell?_cases alike with ⟨cell, imageCell, same, _, alike⟩ | ⟨lost, _⟩
      · rw [found] at same
        cases same
        exact ih alike.1
      · rw [found] at lost
        cases lost
  | second found _ ih =>
      rcases mirrors.cell?_cases alike with ⟨cell, imageCell, same, _, alike⟩ | ⟨lost, _⟩
      · rw [found] at same
        cases same
        exact ih alike.2
      · rw [found] at lost
        cases lost

theorem length_le (mirrors : Mirrors link store mirror) {path images : List Nat}
    (linked : List.Forall₂ link path images) (distinct : path.Nodup) :
    path.length ≤ store.size ∧ path.length ≤ mirror.size := by
  have inside : (∀ address ∈ path, address < store.size) ∧
      ∀ image ∈ images, image < mirror.size := by
    clear distinct
    induction linked with
    | nil => simp
    | cons step _ ih =>
        have bounds := mirrors.lt_size step
        simp only [List.forall_mem_cons]
        exact ⟨⟨bounds.1, ih.1⟩, bounds.2, ih.2⟩
  have distinctImages := (List.rel_nodup mirrors.biUnique linked).mp distinct
  refine ⟨length_le_of_nodup distinct inside.1, ?_⟩
  rw [linked.length_eq]
  exact length_le_of_nodup distinctImages inside.2

/-- Both loops of printing at once, since each calls the other. The path is never longer than either
store, so neither side stops for want of fuel. -/
theorem addPieces_and_addSpine (mirrors : Mirrors link store mirror) (blankNil : Bool)
    (fuel : Nat) :
    (∀ fuelImage path images value image before, List.Forall₂ link path images → path.Nodup →
      Alike link value image → 2 * (store.size - path.length) + 2 ≤ fuel →
      2 * (mirror.size - path.length) + 2 ≤ fuelImage →
      store.addPieces blankNil fuel path value before =
        mirror.addPieces blankNil fuelImage images image before) ∧
    (∀ fuelImage path images value image before, List.Forall₂ link path images → path.Nodup →
      Alike link value image → 2 * (store.size - path.length) + 1 ≤ fuel →
      2 * (mirror.size - path.length) + 1 ≤ fuelImage →
      store.addSpine blankNil fuel path value before =
        mirror.addSpine blankNil fuelImage images image before) := by
  induction fuel with
  | zero =>
      constructor
      · intros
        omega
      · intros
        omega
  | succ fuel ih =>
      constructor
      · intro fuelImage path images value image before linked distinct alike enough enoughImage
        obtain ⟨fuelImage, rfl⟩ := Nat.exists_eq_add_of_le' (show 1 ≤ fuelImage by omega)
        cases alike with
        | atom atom =>
            cases value with
            | pair address => cases atom
            | absent | empty | symbol _ | integer _ => simp only [Store.addPieces]
        | @pair address other step =>
            obtain ⟨cell, imageCell, found, foundImage, _⟩ := mirrors.cells address other step
            have same := List.rel_mem mirrors.biUnique step linked
            simp only [Store.addPieces, found, foundImage, List.contains_eq_mem]
            by_cases visited : address ∈ path
            · simp only [visited, same.mp visited, decide_true, if_true]
            · have visitedImage : other ∉ images := fun member => visited (same.mpr member)
              simp only [visited, visitedImage, decide_false, Bool.false_eq_true, if_false]
              exact ih.2 fuelImage path images _ _ _ linked distinct (.pair step) (by omega)
                (by omega)
      · intro fuelImage path images value image before linked distinct alike enough enoughImage
        obtain ⟨fuelImage, rfl⟩ := Nat.exists_eq_add_of_le' (show 1 ≤ fuelImage by omega)
        cases alike with
        | atom atom =>
            cases value with
            | pair address => cases atom
            | absent | empty | symbol _ | integer _ => simp only [Store.addSpine]
        | @pair address other step =>
            obtain ⟨cell, imageCell, found, foundImage, firsts, seconds⟩ :=
              mirrors.cells address other step
            have same := List.rel_mem mirrors.biUnique step linked
            simp only [Store.addSpine, found, foundImage, List.contains_eq_mem]
            by_cases visited : address ∈ path
            · simp only [visited, same.mp visited, decide_true, if_true]
            · have visitedImage : other ∉ images := fun member => visited (same.mpr member)
              have longer : List.Forall₂ link (address :: path) (other :: images) :=
                .cons step linked
              have fresh : (address :: path).Nodup := List.nodup_cons.mpr ⟨visited, distinct⟩
              -- The longer path still fits in both stores, which pays for the two calls below.
              have room := mirrors.length_le longer fresh
              have spare : 2 * (store.size - (address :: path).length) + 2 ≤ fuel ∧
                  2 * (mirror.size - (address :: path).length) + 2 ≤ fuelImage := by
                rw [List.length_cons] at room ⊢
                omega
              simp only [visited, visitedImage, decide_false, Bool.false_eq_true, if_false]
              rw [ih.1 fuelImage _ _ _ _ before longer fresh firsts spare.1 spare.2]
              exact ih.2 fuelImage _ _ _ _ _ longer fresh seconds (Nat.le_of_succ_le spare.1)
                (Nat.le_of_succ_le spare.2)

theorem pieces_eq (mirrors : Mirrors link store mirror) (alike : Alike link value image)
    (blankNil : Bool) : store.pieces blankNil value = mirror.pieces blankNil image := by
  rw [Store.pieces, Store.pieces, (mirrors.addPieces_and_addSpine blankNil _).1
    (2 * mirror.size + 2) [] [] value image [] .nil List.nodup_nil alike (by simp) (by simp)]

theorem format_eq (mirrors : Mirrors link store mirror) (alike : Alike link value image) :
    store.format value = mirror.format image := by
  rw [Store.format, Store.format, mirrors.pieces_eq alike]

theorem putLine_eq (mirrors : Mirrors link store mirror) (alike : Alike link value image)
    (writer : Writer) : writer.putLine store value = writer.putLine mirror image := by
  rw [Writer.putLine, Writer.putLine, Writer.put, Writer.put, mirrors.pieces_eq alike]

theorem printLabelled_eq (mirrors : Mirrors link store mirror)
    {values images : List (String × Value)}
    (alike : List.Forall₂ (fun left right => left.1 = right.1 ∧ Alike link left.2 right.2) values
      images) (sink : Sink) :
    Registers.printLabelled store sink values = Registers.printLabelled mirror sink images := by
  induction alike generalizing sink with
  | nil => rfl
  | @cons labelled other _ _ same _ ih =>
      obtain ⟨label, value⟩ := labelled
      obtain ⟨otherLabel, image⟩ := other
      obtain ⟨rfl, alike⟩ := same
      simp only [Registers.printLabelled, mirrors.putLine_eq alike, ih]

end Mirrors

end

structure Registers.Alike (link : Address → Address → Prop) (registers image : Registers) :
    Prop where
  stack : SecdMachine.Alike link registers.stack image.stack
  environment : SecdMachine.Alike link registers.environment image.environment
  control : SecdMachine.Alike link registers.control image.control
  dump : SecdMachine.Alike link registers.dump image.dump

namespace Registers.Alike

variable {link : Address → Address → Prop} {registers image : Registers} {store mirror : Store}

theorem exists_image (alike : registers.Alike link image) {value : Value}
    (member : value ∈ registers.values) : ∃ other ∈ image.values,
      SecdMachine.Alike link value other := by
  simp only [Registers.values, List.mem_cons, List.not_mem_nil, or_false] at member ⊢
  rcases member with rfl | rfl | rfl | rfl
  · exact ⟨_, Or.inl rfl, alike.stack⟩
  · exact ⟨_, Or.inr (Or.inl rfl), alike.environment⟩
  · exact ⟨_, Or.inr (Or.inr (Or.inl rfl)), alike.control⟩
  · exact ⟨_, Or.inr (Or.inr (Or.inr rfl)), alike.dump⟩

theorem labelled (alike : registers.Alike link image) :
    List.Forall₂ (fun left right => left.1 = right.1 ∧ SecdMachine.Alike link left.2 right.2)
      registers.labelled image.labelled := by
  simp only [Registers.labelled, List.forall₂_cons, List.forall₂_nil_left_iff, true_and, and_true]
  exact ⟨alike.stack, alike.environment, alike.control, alike.dump⟩

theorem printTo_eq (alike : registers.Alike link image) (mirrors : Mirrors link store mirror)
    (sink : Sink) : registers.printTo store sink = image.printTo mirror sink :=
  mirrors.printLabelled_eq alike.labelled sink

end Registers.Alike

end SecdMachine
