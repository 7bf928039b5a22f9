import SecdMachine.Proofs.Cells

/-!
What a value without cycles unfolds to: a tree in which sharing and identity are forgotten. No such
tree is deeper than the store is large, since the pairs on a path through it are all different. So
comparing two values, which gives up after that many levels, sees the whole of both.
-/

namespace SecdMachine

inductive Tree where
  | empty
  | symbol (name : String)
  | integer (number : Int64)
  | pair (first second : Tree)
  deriving DecidableEq, Repr

namespace Tree

def nil : Tree := symbol "NIL"

def height : Tree → Nat
  | pair first second => max first.height second.height + 1
  | _ => 0

end Tree

namespace Store

inductive Unfolds (store : Store) : Value → Tree → Prop
  | absent : Unfolds store .absent .empty
  | empty : Unfolds store .empty .empty
  | symbol (name : String) : Unfolds store (.symbol name) (.symbol name)
  | integer (number : Int64) : Unfolds store (.integer number) (.integer number)
  | pair {address : Address} {first second : Value} {firstTree secondTree : Tree}
      (found : store.cell? (.pair address) = some ⟨first, second⟩)
      (left : Unfolds store first firstTree) (right : Unfolds store second secondTree) :
      Unfolds store (.pair address) (.pair firstTree secondTree)

variable {store larger : Store} {value other : Value} {tree : Tree}

theorem Unfolds.unique {also : Tree} (unfolds : store.Unfolds value tree)
    (unfoldsAlso : store.Unfolds value also) : tree = also := by
  induction unfolds generalizing also with
  | absent | empty | symbol | integer =>
      cases unfoldsAlso
      rfl
  | pair found _ _ firstIh secondIh =>
      cases unfoldsAlso with
      | pair foundAgain left right =>
          rw [found] at foundAgain
          cases foundAgain
          rw [firstIh left, secondIh right]

theorem Unfolds.mono (unfolds : store.Unfolds value tree)
    (extended : store.Extends larger) : larger.Unfolds value tree := by
  induction unfolds with
  | absent => exact .absent
  | empty => exact .empty
  | symbol name => exact .symbol name
  | integer number => exact .integer number
  | pair found _ _ firstIh secondIh => exact .pair (extended.cell? found) firstIh secondIh

/-- A path from the root to a deepest leaf. The pairs on it unfold to lower and lower trees, so they
are different. -/
theorem Unfolds.exists_path (unfolds : store.Unfolds value tree) :
    ∃ path : List Nat, path.length = tree.height ∧ path.Nodup ∧ ∀ address ∈ path,
      ∃ part, store.Unfolds (.pair address) part ∧ part.height ≤ tree.height := by
  induction unfolds with
  | absent | empty | symbol | integer => exact ⟨[], rfl, List.nodup_nil, by simp⟩
  | @pair address _ _ first second found left right firstIh secondIh =>
      have whole := Unfolds.pair found left right
      obtain ⟨path, length, distinct, below⟩ : ∃ path : List Nat,
          path.length = max first.height second.height ∧ path.Nodup ∧ ∀ address ∈ path,
            ∃ part, store.Unfolds (.pair address) part ∧
              part.height ≤ max first.height second.height := by
        rcases Nat.le_total first.height second.height with lower | lower
        · rw [Nat.max_eq_right lower]
          exact secondIh
        · rw [Nat.max_eq_left lower]
          exact firstIh
      refine ⟨address :: path, by simp [length, Tree.height], ?_, ?_⟩
      · refine List.nodup_cons.mpr ⟨fun member => ?_, distinct⟩
        obtain ⟨part, unfolds, low⟩ := below address member
        rw [unfolds.unique whole, Tree.height] at low
        omega
      · rw [List.forall_mem_cons]
        refine ⟨⟨_, whole, Nat.le_refl _⟩, fun inner member => ?_⟩
        obtain ⟨part, unfolds, low⟩ := below inner member
        exact ⟨part, unfolds, Nat.le_succ_of_le low⟩

theorem Unfolds.height_le_size (unfolds : store.Unfolds value tree) :
    tree.height ≤ store.size := by
  obtain ⟨path, length, distinct, below⟩ := unfolds.exists_path
  rw [← length]
  apply length_le_of_nodup distinct
  intro address member
  obtain ⟨part, unfolds, _⟩ := below address member
  cases unfolds with
  | pair found => exact lt_size_of_cell? found

theorem equalWithin_of_unfolds {fuel : Nat} {also : Tree} (left : store.Unfolds value tree)
    (right : store.Unfolds other also) (enough : tree.height ≤ fuel) :
    store.equalWithin fuel value other = decide (tree = also) := by
  induction left generalizing other also fuel with
  | absent | empty | symbol | integer =>
      cases right <;> simp [equalWithin, Value.kind, Bool.beq_eq_decide_eq]
  | @pair address _ _ first second found leftFirst leftSecond firstIh secondIh =>
      have whole := Unfolds.pair found leftFirst leftSecond
      cases right with
      | absent | empty | symbol | integer => simp [equalWithin, Value.kind]
      | @pair otherAddress _ _ otherFirst otherSecond foundOther rightFirst rightSecond =>
          by_cases shared : address = otherAddress
          · subst shared
            have same := whole.unique (.pair foundOther rightFirst rightSecond)
            cases fuel <;> simp [equalWithin, same]
          · cases fuel with
            | zero => simp [Tree.height] at enough
            | succ fuel =>
                have lower : max first.height second.height ≤ fuel := by
                  simpa [Tree.height] using enough
                have onFirst := firstIh rightFirst (Nat.le_trans (Nat.le_max_left ..) lower)
                have onSecond := secondIh rightSecond (Nat.le_trans (Nat.le_max_right ..) lower)
                simp [equalWithin, shared, found, foundOther, onFirst, onSecond]

theorem Unfolds.equal_eq {also : Tree} (left : store.Unfolds value tree)
    (right : store.Unfolds other also) : store.equal value other = decide (tree = also) :=
  equalWithin_of_unfolds left right (Nat.le_succ_of_le left.height_le_size)

/-- Values without cycles are equal exactly if they unfold to one tree. -/
theorem Unfolds.equal_iff {also : Tree} (left : store.Unfolds value tree)
    (right : store.Unfolds other also) : store.equal value other = true ↔ tree = also := by
  rw [left.equal_eq right, decide_eq_true_eq]

theorem Unfolds.equal (left : store.Unfolds value tree) (right : store.Unfolds other tree) :
    store.equal value other = true :=
  (left.equal_iff right).mpr rfl

end Store

end SecdMachine
