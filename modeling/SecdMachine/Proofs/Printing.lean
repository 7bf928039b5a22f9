import SecdMachine.Piece
import SecdMachine.Proofs.Trees

/-!
The printed form of a tree. Printing follows the second components in a loop and remembers the pairs
on the way; on a value without cycles that comes to a recursion over the tree.
-/

namespace SecdMachine

namespace Datum

def atomPiece : Datum → Piece
  | symbol name => .word name
  | integer number => .word (toString number.toInt)
  | pair _ _ => .mark ' '

mutual

def pieces : Datum → List Piece
  | pair first second => .mark '(' :: .mark ' ' :: (first.pieces ++ second.tailPieces)
  | atom => [atom.atomPiece]

def tailPieces : Datum → List Piece
  | pair first second => first.pieces ++ second.tailPieces
  | atom => if atom = nil then [.word ")"] else [.word ".", atom.atomPiece, .word ")"]

end

end Datum

namespace Store

variable {store : Store}

/-- Both loops of printing at once, since each calls the other: the pieces of a tree, and those of
what follows an element of a list. -/
theorem addPieces_and_addSpine {value : Value} {datum : Datum}
    (denotes : store.Denotes value datum) :
    (∀ fuel path before, 2 * datum.height < fuel → store.Above datum path →
      store.addPieces false fuel path value before = datum.pieces.reverse ++ before) ∧
    (∀ fuel path before, 2 * datum.height ≤ fuel → 0 < fuel → store.Above datum path →
      store.addSpine false fuel path value before = datum.tailPieces.reverse ++ before) := by
  induction denotes with
  | symbol name =>
      constructor
      · intro fuel path before enough _
        obtain ⟨fuel, rfl⟩ := Nat.exists_eq_succ_of_ne_zero (Nat.ne_of_gt (Nat.zero_lt_of_lt enough))
        simp [addPieces, Store.atomPiece, Datum.pieces, Datum.atomPiece]
      · intro fuel path before _ some _
        obtain ⟨fuel, rfl⟩ := Nat.exists_eq_succ_of_ne_zero (Nat.ne_of_gt some)
        by_cases ended : name = "NIL"
        · simp [addSpine, Value.isNil, Value.nil, Datum.tailPieces, Datum.nil, ended]
        · simp [addSpine, Value.isNil, Value.nil, Store.atomPiece, Datum.tailPieces, Datum.nil,
            Datum.atomPiece, ended]
  | integer number =>
      constructor
      · intro fuel path before enough _
        obtain ⟨fuel, rfl⟩ := Nat.exists_eq_succ_of_ne_zero (Nat.ne_of_gt (Nat.zero_lt_of_lt enough))
        simp [addPieces, Store.atomPiece, Datum.pieces, Datum.atomPiece]
      · intro fuel path before _ some _
        obtain ⟨fuel, rfl⟩ := Nat.exists_eq_succ_of_ne_zero (Nat.ne_of_gt some)
        simp [addSpine, Value.isNil, Value.nil, Store.atomPiece, Datum.tailPieces, Datum.nil,
          Datum.atomPiece]
  | @pair address _ _ first second found left right firstIh secondIh =>
      have denotes := Denotes.pair found left right
      have spine : ∀ fuel path before, 2 * (Datum.pair first second).height ≤ fuel → 0 < fuel →
          store.Above (.pair first second) path →
          store.addSpine false fuel path (.pair address) before =
            (Datum.pair first second).tailPieces.reverse ++ before := by
        intro fuel path before enough some above
        obtain ⟨fuel, rfl⟩ := Nat.exists_eq_succ_of_ne_zero (Nat.ne_of_gt some)
        simp only [Datum.height] at enough
        have aboveFirst : store.Above first (address :: path) :=
          above.push denotes (by simp only [Datum.height]; omega)
        have aboveSecond : store.Above second (address :: path) :=
          above.push denotes (by simp only [Datum.height]; omega)
        simp only [addSpine, found, List.contains_eq_mem, above.not_mem denotes, decide_false,
          Bool.false_eq_true, if_false]
        rw [firstIh.1 _ _ _ (by omega) aboveFirst, secondIh.2 _ _ _ (by omega) (by omega) aboveSecond]
        simp [Datum.tailPieces]
      refine ⟨?_, spine⟩
      intro fuel path before enough above
      obtain ⟨fuel, rfl⟩ := Nat.exists_eq_succ_of_ne_zero (Nat.ne_of_gt (Nat.zero_lt_of_lt enough))
      have some : 0 < fuel := by
        simp only [Datum.height] at enough
        omega
      simp only [addPieces, found, List.contains_eq_mem, above.not_mem denotes, decide_false,
        Bool.false_eq_true, if_false]
      rw [spine fuel path _ (by omega) some above]
      simp [Datum.pieces, Datum.tailPieces]

/-- A value without cycles is printed as the tree it stands for. -/
theorem Denotes.pieces_eq {value : Value} {datum : Datum} (denotes : store.Denotes value datum) :
    store.pieces false value = datum.pieces := by
  have bound := denotes.height_le_size
  have above : store.Above datum [] := by simp [Above]
  rw [pieces, (addPieces_and_addSpine denotes).1 _ _ _ (by omega) above]
  simp

end Store

end SecdMachine
