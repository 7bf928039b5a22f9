import SecdMachine.Proofs.CycleMarks
import SecdMachine.Proofs.Operators

/-!
Comparing values. The comparison goes through first components before second ones and takes a pair
to be equal to itself at once. Of values without cycles it decides whether they unfold to the same
tree, and would do so without looking at the identity of pairs. The instruction compares atoms only.
-/

namespace SecdMachine

namespace Store

/-- Comparing two values to the end, with no bound on the depth. A pair is equal to itself at once if
the shortcut is taken. -/
inductive Compares (store : Store) (shortcut : Bool) : Value → Value → Bool → Prop
  | kinds {left right : Value} (different : left.kind ≠ right.kind) :
      Compares store shortcut left right false
  | empties {left right : Value} (leftEmpty : left.kind = .empty) (rightEmpty : right.kind = .empty) :
      Compares store shortcut left right true
  | symbols (name other : String) :
      Compares store shortcut (.symbol name) (.symbol other) (decide (name = other))
  | integers (number other : Int64) :
      Compares store shortcut (.integer number) (.integer other) (decide (number = other))
  | same (address : Address) (taken : shortcut = true) :
      Compares store shortcut (.pair address) (.pair address) true
  | missing {address other : Address} (apart : shortcut = true → address ≠ other)
      (gone : store.cell? (.pair address) = none ∨ store.cell? (.pair other) = none) :
      Compares store shortcut (.pair address) (.pair other) false
  | firsts {address other : Address} {cell otherCell : Cell}
      (apart : shortcut = true → address ≠ other)
      (found : store.cell? (.pair address) = some cell)
      (foundOther : store.cell? (.pair other) = some otherCell)
      (different : Compares store shortcut cell.first otherCell.first false) :
      Compares store shortcut (.pair address) (.pair other) false
  | seconds {address other : Address} {cell otherCell : Cell} {answer : Bool}
      (apart : shortcut = true → address ≠ other)
      (found : store.cell? (.pair address) = some cell)
      (foundOther : store.cell? (.pair other) = some otherCell)
      (alike : Compares store shortcut cell.first otherCell.first true)
      (rest : Compares store shortcut cell.second otherCell.second answer) :
      Compares store shortcut (.pair address) (.pair other) answer

def Acyclic (store : Store) (value : Value) : Prop :=
  ∀ address, store.Reaches value address →
    (store.cell? (.pair address)).isSome = true ∧ ¬store.OnCycle address

variable {store : Store} {value other first second : Value} {tree also : Tree} {shortcut answer : Bool}

theorem Ends.exists_unfolds (ends : store.Ends value)
    (known : ∀ address, store.Reaches value address →
      (store.cell? (.pair address)).isSome = true) : ∃ tree, store.Unfolds value tree := by
  induction ends with
  | @atom value noCell =>
      cases value with
      | absent => exact ⟨_, .absent⟩
      | empty => exact ⟨_, .empty⟩
      | symbol name => exact ⟨_, .symbol name⟩
      | integer number => exact ⟨_, .integer number⟩
      | pair address =>
          have found := known address (.here address)
          simp [noCell] at found
  | pair found _ _ firstIh secondIh =>
      obtain ⟨firstTree, left⟩ := firstIh fun address inner => known address (.first found inner)
      obtain ⟨secondTree, right⟩ := secondIh fun address inner => known address (.second found inner)
      exact ⟨.pair firstTree secondTree, .pair found left right⟩

theorem Unfolds.isSome_of_reaches {address : Address} (unfolds : store.Unfolds value tree)
    (reaches : store.Reaches value address) : (store.cell? (.pair address)).isSome = true := by
  induction unfolds with
  | absent | empty | symbol | integer => cases reaches
  | pair found _ _ firstIh secondIh =>
      cases reaches with
      | here => simp [found]
      | first foundAgain inner =>
          cases found.symm.trans foundAgain
          exact firstIh inner
      | second foundAgain inner =>
          cases found.symm.trans foundAgain
          exact secondIh inner

theorem acyclic_iff : store.Acyclic value ↔ ∃ tree, store.Unfolds value tree := by
  constructor
  · intro acyclic
    obtain ⟨shown, prints⟩ := store.exists_prints false ∅ value
    have unmarked : ∀ address, .cycle address ∉ shown := by
      intro address marked
      obtain ⟨reached, reaches, around⟩ := prints.exists_cycle_iff.mp ⟨address, marked⟩
      exact (acyclic reached reaches).2 around
    exact (prints.ends unmarked).exists_unfolds fun address reaches => (acyclic address reaches).1
  · rintro ⟨tree, unfolds⟩ address reaches
    exact ⟨unfolds.isSome_of_reaches reaches, unfolds.ends.not_onCycle reaches⟩

/-- Values that unfold to trees are compared to the end, with the shortcut or without it. -/
theorem Unfolds.compares (left : store.Unfolds value tree) (right : store.Unfolds other also)
    (shortcut : Bool) : store.Compares shortcut value other (decide (tree = also)) := by
  induction left generalizing other also with
  | absent | empty =>
      cases right with
      | absent | empty => simpa using .empties rfl rfl
      | symbol | integer | pair => simpa using .kinds (by simp [Value.kind])
  | symbol name =>
      cases right with
      | symbol other => simpa using .symbols name other
      | absent | empty | integer | pair => simpa using .kinds (by simp [Value.kind])
  | integer number =>
      cases right with
      | integer other => simpa using .integers number other
      | absent | empty | symbol | pair => simpa using .kinds (by simp [Value.kind])
  | @pair address _ _ firstTree secondTree found leftFirst leftSecond firstIh secondIh =>
      have whole := Unfolds.pair found leftFirst leftSecond
      cases right with
      | absent | empty | symbol | integer => simpa using .kinds (by simp [Value.kind])
      | @pair otherAddress _ _ otherFirst otherSecond foundOther rightFirst rightSecond =>
          by_cases apart : shortcut = true → address ≠ otherAddress
          · have onFirst := firstIh rightFirst
            have onSecond := secondIh rightSecond
            by_cases alike : firstTree = otherFirst
            · rw [decide_eq_true alike] at onFirst
              simpa [alike] using Compares.seconds apart found foundOther onFirst onSecond
            · rw [decide_eq_false alike] at onFirst
              simpa [alike] using Compares.firsts apart found foundOther onFirst
          · -- The shortcut is right, since one pair has one tree.
            obtain ⟨taken, together⟩ := Classical.not_imp.mp apart
            obtain rfl := not_not.mp together
            have alike := whole.unique (.pair foundOther rightFirst rightSecond)
            rw [decide_eq_true alike]
            exact .same address taken

theorem Compares.eq_of_unfolds (compares : store.Compares shortcut value other answer)
    (left : store.Unfolds value tree) (right : store.Unfolds other also) :
    answer = decide (tree = also) := by
  induction compares generalizing tree also with
  | kinds different => cases left <;> cases right <;> simp_all [Value.kind]
  | empties leftEmpty rightEmpty =>
      cases left <;> cases leftEmpty <;> cases right <;> cases rightEmpty <;> rfl
  | symbols name other =>
      cases left
      cases right
      simp
  | integers number other =>
      cases left
      cases right
      simp
  | same address taken => exact (decide_eq_true (left.unique right)).symm
  | missing apart gone =>
      cases left with
      | pair found =>
          cases right with
          | pair foundOther => simp [found, foundOther] at gone
  | firsts apart found foundOther _ ih =>
      obtain ⟨firstTree, secondTree, rfl, leftFirst, _⟩ := left.components found
      obtain ⟨otherFirst, otherSecond, rfl, rightFirst, _⟩ := right.components foundOther
      have different := ih leftFirst rightFirst
      simp_all
  | seconds apart found foundOther _ _ firstIh secondIh =>
      obtain ⟨firstTree, secondTree, rfl, leftFirst, leftSecond⟩ := left.components found
      obtain ⟨otherFirst, otherSecond, rfl, rightFirst, rightSecond⟩ := right.components foundOther
      have alike := firstIh leftFirst rightFirst
      rw [secondIh leftSecond rightSecond]
      simp_all

theorem Unfolds.compares_iff (left : store.Unfolds value tree) (right : store.Unfolds other also) :
    store.Compares shortcut value other answer ↔ answer = store.equal value other := by
  rw [left.equal_eq right]
  constructor
  · intro compares
    exact compares.eq_of_unfolds left right
  · rintro rfl
    exact left.compares right shortcut

theorem Unfolds.cons {firstTree secondTree : Tree} (left : store.Unfolds first firstTree)
    (right : store.Unfolds second secondTree) :
    (store.cons first second).2.Unfolds (store.cons first second).1 (.pair firstTree secondTree) :=
  .pair cell?_cons_self (left.mono (store.extends_cons first second))
    (right.mono (store.extends_cons first second))

theorem equivalence_equal (store : Store) :
    Equivalence fun left right : {value // store.Acyclic value} => store.equal left right = true := by
  choose shape unfolds using fun value : {value // store.Acyclic value} =>
    acyclic_iff.mp value.property
  have decided : ∀ left right : {value // store.Acyclic value},
      store.equal left right = true ↔ shape left = shape right :=
    fun left right => (unfolds left).equal_iff (unfolds right)
  simp only [decided]
  exact eq_equivalence.comap shape

/-- Two new pairs are equal exactly if their components are. -/
theorem equal_cons_iff {otherFirst otherSecond : Value} (firstAcyclic : store.Acyclic first)
    (secondAcyclic : store.Acyclic second) (otherFirstAcyclic : store.Acyclic otherFirst)
    (otherSecondAcyclic : store.Acyclic otherSecond) :
    let one := store.cons first second
    let two := one.2.cons otherFirst otherSecond
    two.2.Acyclic one.1 ∧ two.2.Acyclic two.1 ∧
      (two.2.equal one.1 two.1 = true ↔
        store.equal first otherFirst = true ∧ store.equal second otherSecond = true) := by
  intro one two
  obtain ⟨firstTree, unfoldsFirst⟩ := acyclic_iff.mp firstAcyclic
  obtain ⟨secondTree, unfoldsSecond⟩ := acyclic_iff.mp secondAcyclic
  obtain ⟨otherTree, unfoldsOther⟩ := acyclic_iff.mp otherFirstAcyclic
  obtain ⟨lastTree, unfoldsLast⟩ := acyclic_iff.mp otherSecondAcyclic
  have grown := store.extends_cons first second
  have left := (unfoldsFirst.cons unfoldsSecond).mono (one.2.extends_cons otherFirst otherSecond)
  have right := (unfoldsOther.mono grown).cons (unfoldsLast.mono grown)
  refine ⟨acyclic_iff.mpr ⟨_, left⟩, acyclic_iff.mpr ⟨_, right⟩, ?_⟩
  rw [left.equal_iff right, unfoldsFirst.equal_iff unfoldsOther,
    unfoldsSecond.equal_iff unfoldsLast, Tree.pair.injEq]

theorem eqAtoms_iff (store : Store) (left right : Value) :
    Instruction.eqAtoms left right = true ↔
      right.isPair = false ∧ left.isPair = false ∧ store.equal right left = true := by
  cases left <;> cases right <;>
    simp [Instruction.eqAtoms, Value.isPair, Value.kind, equal, equalWithin]
  all_goals exact eq_comm

end Store

/-- Values without cycles are compared to the end, with one answer: whether they unfold to the same
tree. It does not depend on the shortcut for a pair and itself, it makes an equivalence, and new pairs
are equal exactly if their components are. Of any two values on the stack the instruction pushes
whether they are equal and neither is a pair. -/
theorem equality_is_structural (store : Store) :
    (∀ left right, store.Acyclic left → store.Acyclic right →
      (∀ shortcut answer, store.Compares shortcut left right answer ↔
        answer = store.equal left right) ∧
      ∃ tree also, store.Unfolds left tree ∧ store.Unfolds right also ∧
        (store.equal left right = true ↔ tree = also)) ∧
    (Equivalence fun left right : {value // store.Acyclic value} =>
      store.equal left right = true) ∧
    (∀ first second otherFirst otherSecond, store.Acyclic first → store.Acyclic second →
      store.Acyclic otherFirst → store.Acyclic otherSecond →
      let one := store.cons first second
      let two := one.2.cons otherFirst otherSecond
      two.2.Acyclic one.1 ∧ two.2.Acyclic two.1 ∧
        (two.2.equal one.1 two.1 = true ↔
          store.equal first otherFirst = true ∧ store.equal second otherSecond = true)) ∧
    ∀ (configuration : Configuration) (second top : Value),
      configuration.Operates .eq second top →
      configuration.Gives (.symbol (if second.isPair = false ∧ top.isPair = false ∧
        configuration.store.equal second top = true then "t" else "f")) := by
  refine ⟨?_, store.equivalence_equal, ?_, ?_⟩
  · intro left right leftAcyclic rightAcyclic
    obtain ⟨tree, unfolds⟩ := Store.acyclic_iff.mp leftAcyclic
    obtain ⟨also, unfoldsAlso⟩ := Store.acyclic_iff.mp rightAcyclic
    exact ⟨fun shortcut answer => unfolds.compares_iff unfoldsAlso, tree, also, unfolds, unfoldsAlso,
      unfolds.equal_iff unfoldsAlso⟩
  · intro first second otherFirst otherSecond
    exact Store.equal_cons_iff
  · intro configuration second top operates
    simp only [← Store.eqAtoms_iff]
    -- The instruction takes its operands the other way round than the comparison does.
    have pushed : Value.ofBool (Instruction.eqAtoms top second) =
        .symbol (if Instruction.eqAtoms top second = true then "t" else "f") := by
      rw [Value.ofBool]
      split <;> rfl
    rw [← pushed]
    exact operates.gives fun found next => .eq found next

def selfComparison : Configuration where
  machine := { registers := ⟨.pair 1, .nil, .pair 2, .nil⟩ }
  store := ⟨#[⟨.pair 0, .nil⟩, ⟨.pair 0, .pair 0⟩, ⟨.integer 14, .nil⟩]⟩

theorem copies_are_equal_and_no_pair_is_eq :
    Store.knottedStore.Compares false (.pair 4) (.pair 6) true ∧
    selfComparison.store.equal (.pair 0) (.pair 0) = true ∧
    selfComparison.Gives (.symbol "f") := by
  have one : ∀ address, Store.knottedStore.cell? (.pair address) = some ⟨.integer 1, .nil⟩ →
      Store.knottedStore.Unfolds (.pair address) (.pair (.integer 1) .nil) :=
    fun _ found => .pair found (.integer 1) (.symbol "NIL")
  have shared : Store.knottedStore.Acyclic (.pair 4) :=
    Store.acyclic_iff.mpr ⟨_, .pair rfl (one 3 rfl) (one 3 rfl)⟩
  have apart : Store.knottedStore.Acyclic (.pair 6) :=
    Store.acyclic_iff.mpr ⟨_, .pair rfl (one 3 rfl) (one 5 rfl)⟩
  obtain ⟨structural, _⟩ := equality_is_structural Store.knottedStore
  obtain ⟨_, _, _, eq⟩ := equality_is_structural selfComparison.store
  exact ⟨((structural (.pair 4) (.pair 6) shared apart).1 false true).mpr rfl, rfl,
    eq selfComparison (.pair 0) (.pair 0)
      ⟨rfl, ⟨.nil, rfl⟩, rfl, .nil, .push rfl (.push rfl .base)⟩⟩

end SecdMachine
