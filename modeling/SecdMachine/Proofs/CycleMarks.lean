import Mathlib.Data.Finset.Card
import SecdMachine.Proofs.Reachability

/-!
Printing values whose pairs may form cycles. The pairs that are being printed stand on a path: the
cells of a list are put on it one by one, and taken off together when the list ends. Printing ends
for every store, since each cell put on the path is new to it, and it leaves the path as it found
it. A pair is found on the path only if it leads back to itself, and some pair is, if the value
leads to any that does.
-/

namespace SecdMachine

/-- A piece of the printed form, or the mark in place of a pair that is already being printed. -/
inductive Shown where
  | piece (piece : Piece)
  | cycle (address : Address)
  deriving DecidableEq, Repr

def Shown.printed : Shown → Piece
  | .piece part => part
  | .cycle _ => .word cycleMark

namespace Tree

def atomPiece (blankNil : Bool) : Tree → Piece
  | symbol name => Store.atomPiece blankNil (.symbol name)
  | integer number => Store.atomPiece blankNil (.integer number)
  | _ => .mark ' '

mutual

def pieces (blankNil : Bool) : Tree → List Piece
  | pair first second =>
      .mark '(' :: .mark ' ' :: (first.pieces blankNil ++ second.tailPieces blankNil)
  | atom => [atom.atomPiece blankNil]

def tailPieces (blankNil : Bool) : Tree → List Piece
  | pair first second => first.pieces blankNil ++ second.tailPieces blankNil
  | atom =>
      if atom = nil then [.word ")"] else [.word ".", atom.atomPiece blankNil, .word ")"]

end

end Tree

namespace Store

def OnCycle (store : Store) (address : Address) : Prop :=
  ∃ cell, store.cell? (.pair address) = some cell ∧
    (store.Reaches cell.first address ∨ store.Reaches cell.second address)

inductive Ends (store : Store) : Value → Prop
  | atom {value : Value} (noCell : store.cell? value = none) : Ends store value
  | pair {address : Address} {cell : Cell} (found : store.cell? (.pair address) = some cell)
      (left : Ends store cell.first) (right : Ends store cell.second) : Ends store (.pair address)

mutual

/-- Printing a value while the pairs on a path are being printed: what is shown, and the path
afterwards. -/
inductive Prints (store : Store) (blankNil : Bool) :
    Finset Address → Value → List Shown → Finset Address → Prop
  | atom {path value} (noCell : store.cell? value = none) :
      Prints store blankNil path value [.piece (atomPiece blankNil value)] path
  | again {path address cell} (found : store.cell? (.pair address) = some cell)
      (on : address ∈ path) : Prints store blankNil path (.pair address) [.cycle address] path
  | list {path address cell visited shown after}
      (found : store.cell? (.pair address) = some cell) (off : address ∉ path)
      (walks : Walks store blankNil path (.pair address) visited shown after) :
      Prints store blankNil path (.pair address)
        (.piece (.mark '(') :: .piece (.mark ' ') :: shown) (after \ visited.toFinset)

inductive Walks (store : Store) (blankNil : Bool) :
    Finset Address → Value → List Address → List Shown → Finset Address → Prop
  | closed {path value} (ended : value.isNil = true) :
      Walks store blankNil path value [] [.piece (.word ")")] path
  | dotted {path value} (noCell : store.cell? value = none) (unended : value.isNil = false) :
      Walks store blankNil path value []
        [.piece (.word "."), .piece (atomPiece blankNil value), .piece (.word ")")] path
  | again {path address cell} (found : store.cell? (.pair address) = some cell)
      (on : address ∈ path) :
      Walks store blankNil path (.pair address) []
        [.piece (.word "."), .cycle address, .piece (.word ")")] path
  | next {path address cell shown between visited more after}
      (found : store.cell? (.pair address) = some cell) (off : address ∉ path)
      (element : Prints store blankNil (insert address path) cell.first shown between)
      (rest : Walks store blankNil between cell.second visited more after) :
      Walks store blankNil path (.pair address) (address :: visited) (shown ++ more) after

end

section

variable {store : Store} {blankNil : Bool} {path after : Finset Address} {value : Value}
  {shown : List Shown} {visited : List Address} {address : Address} {cell : Cell}

mutual

/-- The cells of a list are new to the path, so taking them off leaves what was there before. -/
theorem Prints.path_eq {path value shown after} :
    Prints store blankNil path value shown after → after = path
  | .atom _ | .again _ _ => rfl
  | .list _ _ walks => by
      obtain ⟨same, new⟩ := walks.path_eq
      rw [same, Finset.union_sdiff_cancel_right new]

theorem Walks.path_eq {path value visited shown after} :
    Walks store blankNil path value visited shown after →
      after = path ∪ visited.toFinset ∧ Disjoint path visited.toFinset
  | .closed _ | .dotted _ _ | .again _ _ => by simp
  | .next _ off element rest => by
      have between := element.path_eq
      obtain ⟨same, new⟩ := rest.path_eq
      rw [between, Finset.disjoint_insert_left] at new
      rw [same, between, List.toFinset_cons, Finset.disjoint_insert_right, Finset.insert_union,
        Finset.union_insert]
      exact ⟨rfl, off, new.2⟩

end

mutual

theorem Prints.unique {path value shown after other final} :
    Prints store blankNil path value shown after → Prints store blankNil path value other final →
      other = shown ∧ final = after
  | .atom noCell, also => by
      cases also with
      | atom => exact ⟨rfl, rfl⟩
      | again found | list found => cases noCell.symm.trans found
  | .again found on, also => by
      cases also with
      | atom noCell => cases noCell.symm.trans found
      | again => exact ⟨rfl, rfl⟩
      | list _ off => exact absurd on off
  | .list found off walks, also => by
      cases also with
      | atom noCell => cases noCell.symm.trans found
      | again _ on => exact absurd on off
      | list _ _ others =>
          obtain ⟨sameVisited, sameShown, samePath⟩ := walks.unique others
          rw [sameVisited, sameShown, samePath]
          exact ⟨rfl, rfl⟩

theorem Walks.unique {path value visited shown after others other final} :
    Walks store blankNil path value visited shown after →
      Walks store blankNil path value others other final →
      others = visited ∧ other = shown ∧ final = after
  | .closed ended, also => by
      cases also with
      | closed => exact ⟨rfl, rfl, rfl⟩
      | dotted _ unended => simp [ended] at unended
      | again | next => cases ended
  | .dotted noCell unended, also => by
      cases also with
      | closed ended => simp [ended] at unended
      | dotted => exact ⟨rfl, rfl, rfl⟩
      | again found | next found => cases noCell.symm.trans found
  | .again found on, also => by
      cases also with
      | closed ended => cases ended
      | dotted noCell => cases noCell.symm.trans found
      | again => exact ⟨rfl, rfl, rfl⟩
      | next _ off => exact absurd on off
  | .next found off element rest, also => by
      cases also with
      | closed ended => cases ended
      | dotted noCell => cases noCell.symm.trans found
      | again _ on => exact absurd on off
      | next foundAgain _ elementAlso restAlso =>
          rw [found] at foundAgain
          cases foundAgain
          obtain ⟨sameElement, samePath⟩ := element.unique elementAlso
          rw [samePath] at restAlso
          obtain ⟨sameVisited, sameRest, sameEnd⟩ := rest.unique restAlso
          rw [sameVisited, sameElement, sameRest]
          exact ⟨rfl, rfl, sameEnd⟩

end

mutual

/-- A mark stands for a pair that the value leads to, and that was being printed before or leads
back to itself. -/
theorem Prints.reaches_of_cycle {path value shown after address} :
    Prints store blankNil path value shown after → .cycle address ∈ shown →
      store.Reaches value address ∧ (address ∈ path ∨ store.OnCycle address)
  | .atom _, marked => by simp at marked
  | .again _ on, marked => by
      simp only [List.mem_singleton, Shown.cycle.injEq] at marked
      subst marked
      exact ⟨.here _, Or.inl on⟩
  | .list _ _ walks, marked => by
      simp only [List.mem_cons, reduceCtorEq, false_or] at marked
      exact walks.reaches_of_cycle marked

theorem Walks.reaches_of_cycle {path value visited shown after address} :
    Walks store blankNil path value visited shown after → .cycle address ∈ shown →
      store.Reaches value address ∧ (address ∈ path ∨ store.OnCycle address)
  | .closed _, marked => by simp at marked
  | .dotted _ _, marked => by simp at marked
  | .again _ on, marked => by
      simp only [List.mem_cons, reduceCtorEq, List.not_mem_nil, Shown.cycle.injEq, false_or,
        or_false] at marked
      subst marked
      exact ⟨.here _, Or.inl on⟩
  | .next found off element rest, marked => by
      -- The cell that is put on the path here is met again only from its own components, so it lies
      -- on a cycle; any other cell of the path was there before.
      have between := element.path_eq
      rcases List.mem_append.mp marked with inside | inside
      · obtain ⟨reaches, known⟩ := element.reaches_of_cycle inside
        refine ⟨.first found reaches, ?_⟩
        rcases known with on | around
        · rcases Finset.mem_insert.mp on with rfl | on
          · exact Or.inr ⟨_, found, Or.inl reaches⟩
          · exact Or.inl on
        · exact Or.inr around
      · obtain ⟨reaches, known⟩ := rest.reaches_of_cycle inside
        refine ⟨.second found reaches, ?_⟩
        rw [between] at known
        rcases known with on | around
        · rcases Finset.mem_insert.mp on with rfl | on
          · exact Or.inr ⟨_, found, Or.inr reaches⟩
          · exact Or.inl on
        · exact Or.inr around

end

mutual

theorem Prints.ends {path value shown after} :
    Prints store blankNil path value shown after → (∀ address, .cycle address ∉ shown) →
      store.Ends value
  | .atom noCell, _ => .atom noCell
  | .again _ _, unmarked => absurd List.mem_cons_self (unmarked _)
  | .list _ _ walks, unmarked => walks.ends fun address marked =>
      unmarked address (List.mem_cons_of_mem _ (List.mem_cons_of_mem _ marked))

theorem Walks.ends {path value visited shown after} :
    Walks store blankNil path value visited shown after → (∀ address, .cycle address ∉ shown) →
      store.Ends value
  | .closed ended, _ => by
      simp only [Value.isNil, decide_eq_true_eq] at ended
      subst ended
      exact .atom rfl
  | .dotted noCell _, _ => .atom noCell
  | .again _ _, unmarked => absurd (List.mem_cons_of_mem _ List.mem_cons_self) (unmarked _)
  | .next found _ element rest, unmarked =>
      .pair found
        (element.ends fun address marked => unmarked address (List.mem_append_left _ marked))
        (rest.ends fun address marked => unmarked address (List.mem_append_right _ marked))

end

theorem Ends.not_onCycle (ends : store.Ends value) (reaches : store.Reaches value address) :
    ¬store.OnCycle address := by
  induction ends generalizing address with
  | atom noCell =>
      cases reaches with
      | here =>
          rintro ⟨cell, found, _⟩
          cases noCell.symm.trans found
      | first found | second found => cases noCell.symm.trans found
  | pair found _ _ firstIh secondIh =>
      cases reaches with
      | here =>
          rintro ⟨again, foundAgain, around⟩
          cases found.symm.trans foundAgain
          rcases around with back | back
          · exact firstIh back ⟨_, found, Or.inl back⟩
          · exact secondIh back ⟨_, found, Or.inr back⟩
      | first foundAgain inner =>
          cases found.symm.trans foundAgain
          exact firstIh inner
      | second foundAgain inner =>
          cases found.symm.trans foundAgain
          exact secondIh inner

theorem Unfolds.ends {tree : Tree} (unfolds : store.Unfolds value tree) : store.Ends value := by
  induction unfolds with
  | absent | empty | symbol | integer => exact .atom rfl
  | pair found _ _ firstIh secondIh => exact .pair found firstIh secondIh

theorem Unfolds.components {tree : Tree} (unfolds : store.Unfolds (.pair address) tree)
    (found : store.cell? (.pair address) = some cell) :
    ∃ first second, tree = .pair first second ∧ store.Unfolds cell.first first ∧
      store.Unfolds cell.second second := by
  cases unfolds with
  | pair foundAgain left right =>
      cases found.symm.trans foundAgain
      exact ⟨_, _, rfl, left, right⟩

/-- From an empty path, marks stand only for pairs on cycles, and there is one for every value that
leads to a cycle. -/
theorem Prints.exists_cycle_iff (prints : Prints store blankNil ∅ value shown after) :
    (∃ address, .cycle address ∈ shown) ↔
      ∃ address, store.Reaches value address ∧ store.OnCycle address := by
  constructor
  · rintro ⟨address, marked⟩
    obtain ⟨reaches, known⟩ := prints.reaches_of_cycle marked
    exact ⟨address, reaches, known.resolve_left (Finset.notMem_empty address)⟩
  · rintro ⟨address, reaches, around⟩
    by_contra unmarked
    exact (prints.ends (not_exists.mp unmarked)).not_onCycle reaches around

def offPath (store : Store) (path : Finset Address) : Finset Address :=
  Finset.range store.size \ path

theorem card_offPath_insert (found : store.cell? (.pair address) = some cell)
    (off : address ∉ path) :
    (store.offPath (insert address path)).card < (store.offPath path).card := by
  have left : address ∈ store.offPath path := by
    rw [offPath, Finset.mem_sdiff, Finset.mem_range]
    exact ⟨lt_size_of_cell? found, off⟩
  rw [offPath, Finset.sdiff_insert]
  exact Finset.card_erase_lt_of_mem left

def PiecesEnd (store : Store) (blankNil : Bool) (path : List Address) : Prop :=
  ∀ value, ∃ shown after, Prints store blankNil path.toFinset value shown after ∧
    ∀ fuel before, 2 * (store.offPath path.toFinset).card + 2 ≤ fuel →
      store.addPieces blankNil fuel path value before =
        (shown.map Shown.printed).reverse ++ before

def SpineEnds (store : Store) (blankNil : Bool) (path : List Address) : Prop :=
  ∀ value, ∃ visited shown after, Walks store blankNil path.toFinset value visited shown after ∧
    ∀ fuel before, 2 * (store.offPath path.toFinset).card + 1 ≤ fuel →
      store.addSpine blankNil fuel path value before =
        (shown.map Shown.printed).reverse ++ before

theorem spineEnds_of_longer {path : List Address}
    (longer : ∀ address cell, store.cell? (.pair address) = some cell → address ∉ path →
      store.PiecesEnd blankNil (address :: path) ∧ store.SpineEnds blankNil (address :: path)) :
    store.SpineEnds blankNil path := by
  intro value
  cases found : store.cell? value with
  | none =>
      by_cases ended : value.isNil = true
      · refine ⟨[], _, _, .closed ended, ?_⟩
        intro fuel before enough
        obtain ⟨fuel, rfl⟩ := Nat.exists_eq_add_of_le' (show 1 ≤ fuel by omega)
        simp [addSpine, found, ended, Shown.printed]
      · refine ⟨[], _, _, .dotted found (by simpa using ended), ?_⟩
        intro fuel before enough
        obtain ⟨fuel, rfl⟩ := Nat.exists_eq_add_of_le' (show 1 ≤ fuel by omega)
        simp [addSpine, found, ended, Shown.printed]
  | some cell =>
      obtain ⟨address, rfl⟩ := eq_pair_of_cell? found
      by_cases on : address ∈ path
      · refine ⟨[], _, _, .again found (List.mem_toFinset.mpr on), ?_⟩
        intro fuel before enough
        obtain ⟨fuel, rfl⟩ := Nat.exists_eq_add_of_le' (show 1 ≤ fuel by omega)
        simp [addSpine, found, on, Shown.printed]
      · have off : address ∉ path.toFinset := fun member => on (List.mem_toFinset.mp member)
        have fewer := card_offPath_insert found off
        obtain ⟨element, rest⟩ := longer address cell found on
        obtain ⟨shown, between, prints, addsFirst⟩ := element cell.first
        obtain ⟨visited, more, after, walks, addsRest⟩ := rest cell.second
        rw [List.toFinset_cons] at prints addsFirst walks addsRest
        refine ⟨_, _, _, .next found off prints (prints.path_eq.symm ▸ walks), ?_⟩
        intro fuel before enough
        obtain ⟨fuel, rfl⟩ := Nat.exists_eq_add_of_le' (show 1 ≤ fuel by omega)
        simp only [addSpine, found, List.contains_eq_mem, on, decide_false, Bool.false_eq_true,
          if_false]
        rw [addsFirst fuel before (by omega), addsRest fuel _ (by omega)]
        simp

theorem piecesEnd_of_spineEnds {path : List Address} (spine : store.SpineEnds blankNil path) :
    store.PiecesEnd blankNil path := by
  intro value
  cases found : store.cell? value with
  | none =>
      refine ⟨_, _, .atom found, ?_⟩
      intro fuel before enough
      obtain ⟨fuel, rfl⟩ := Nat.exists_eq_add_of_le' (show 1 ≤ fuel by omega)
      simp [addPieces, found, Shown.printed]
  | some cell =>
      obtain ⟨address, rfl⟩ := eq_pair_of_cell? found
      by_cases on : address ∈ path
      · refine ⟨_, _, .again found (List.mem_toFinset.mpr on), ?_⟩
        intro fuel before enough
        obtain ⟨fuel, rfl⟩ := Nat.exists_eq_add_of_le' (show 1 ≤ fuel by omega)
        simp [addPieces, found, on, Shown.printed]
      · have off : address ∉ path.toFinset := fun member => on (List.mem_toFinset.mp member)
        obtain ⟨visited, shown, after, walks, adds⟩ := spine (.pair address)
        refine ⟨_, _, .list found off walks, ?_⟩
        intro fuel before enough
        obtain ⟨fuel, rfl⟩ := Nat.exists_eq_add_of_le' (show 1 ≤ fuel by omega)
        simp only [addPieces, found, List.contains_eq_mem, on, decide_false, Bool.false_eq_true,
          if_false]
        rw [adds fuel _ (by omega)]
        simp [Shown.printed]

/-- Printing ends whatever pairs are on the path. The induction is on the number of cells off it. -/
theorem spineEnds (store : Store) (blankNil : Bool) (path : List Address) :
    store.SpineEnds blankNil path := by
  induction bound : (store.offPath path.toFinset).card using Nat.strongRecOn generalizing path with
  | ind count ih =>
      apply spineEnds_of_longer
      intro address cell found off
      have fewer := card_offPath_insert found fun member => off (List.mem_toFinset.mp member)
      rw [← List.toFinset_cons, bound] at fewer
      have longer := ih _ fewer (address :: path) rfl
      exact ⟨piecesEnd_of_spineEnds longer, longer⟩

theorem exists_prints (store : Store) (blankNil : Bool) (path : Finset Address) (value : Value) :
    ∃ shown, Prints store blankNil path value shown path := by
  obtain ⟨shown, after, prints, _⟩ :=
    piecesEnd_of_spineEnds (store.spineEnds blankNil path.toList) value
  rw [Finset.toList_toFinset] at prints
  exact ⟨shown, prints.path_eq ▸ prints⟩

theorem Prints.pieces_eq (prints : Prints store blankNil ∅ value shown after) :
    store.pieces blankNil value = shown.map Shown.printed := by
  obtain ⟨other, final, also, adds⟩ := piecesEnd_of_spineEnds (store.spineEnds blankNil []) value
  obtain ⟨same, _⟩ := prints.unique also
  have enough : 2 * (store.offPath ∅).card + 2 ≤ 2 * store.size + 2 := by simp [offPath]
  rw [pieces, adds _ [] enough, same]
  simp

mutual

theorem Prints.printed_eq {path value shown after tree} :
    Prints store blankNil path value shown after → (∀ address, .cycle address ∉ shown) →
      store.Unfolds value tree → shown.map Shown.printed = tree.pieces blankNil
  | .atom noCell, _, unfolds => by
      cases unfolds with
      | pair found => cases noCell.symm.trans found
      | absent | empty | symbol | integer => rfl
  | .again _ _, unmarked, _ => absurd List.mem_cons_self (unmarked _)
  | .list found off walks, unmarked, unfolds => by
      have rest := walks.printed_eq (fun address marked =>
        unmarked address (List.mem_cons_of_mem _ (List.mem_cons_of_mem _ marked))) unfolds
      cases unfolds with
      | pair => simp [rest, Tree.pieces, Tree.tailPieces, Shown.printed]

/-- Where there is no mark, what is shown is the printed form of the tree, whatever is on the
path. -/
theorem Walks.printed_eq {path value visited shown after tree} :
    Walks store blankNil path value visited shown after → (∀ address, .cycle address ∉ shown) →
      store.Unfolds value tree → shown.map Shown.printed = tree.tailPieces blankNil
  | .closed ended, _, unfolds => by
      simp only [Value.isNil, decide_eq_true_eq] at ended
      subst ended
      cases unfolds
      simp [Tree.tailPieces, Tree.nil, Shown.printed]
  | .dotted noCell unended, _, unfolds => by
      cases unfolds with
      | pair found => cases noCell.symm.trans found
      | absent | empty | integer =>
          simp [Tree.tailPieces, Tree.nil, Tree.atomPiece, Store.atomPiece, Shown.printed]
      | symbol name =>
          have other : name ≠ "NIL" := by simpa [Value.isNil, Value.nil] using unended
          simp [Tree.tailPieces, Tree.nil, Tree.atomPiece, Shown.printed, other]
  | .again _ _, unmarked, _ =>
      absurd (List.mem_cons_of_mem _ List.mem_cons_self) (unmarked _)
  | .next found _ element rest, unmarked, unfolds => by
      obtain ⟨first, second, rfl, left, right⟩ := unfolds.components found
      rw [List.map_append, Tree.tailPieces,
        element.printed_eq
          (fun address marked => unmarked address (List.mem_append_left _ marked)) left,
        rest.printed_eq
          (fun address marked => unmarked address (List.mem_append_right _ marked)) right]

end

theorem Unfolds.pieces_eq {tree : Tree} (unfolds : store.Unfolds value tree) (blankNil : Bool) :
    store.pieces blankNil value = tree.pieces blankNil := by
  obtain ⟨shown, prints⟩ := store.exists_prints blankNil ∅ value
  rw [prints.pieces_eq]
  refine prints.printed_eq ?_ unfolds
  intro address marked
  obtain ⟨reached, reaches, around⟩ := prints.exists_cycle_iff.mp ⟨address, marked⟩
  exact unfolds.ends.not_onCycle reaches around

end

def knottedStore : Store :=
  ⟨#[⟨.pair 1, .nil⟩, ⟨.pair 2, .nil⟩, ⟨.symbol "code", .pair 0⟩, ⟨.integer 1, .nil⟩,
    ⟨.pair 3, .pair 3⟩, ⟨.integer 1, .nil⟩, ⟨.pair 3, .pair 5⟩]⟩

end Store

end SecdMachine
