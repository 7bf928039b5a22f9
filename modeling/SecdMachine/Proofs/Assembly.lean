import SecdMachine.Assembler
import SecdMachine.Proofs.CodeTrees
import SecdMachine.Proofs.Trees

/-!
What the assembler does to a value without cycles. It goes along the cells as `isCodeAfter` and
`numericAfter` go along the tree that the value unfolds to: it accepts exactly code, and what it
makes unfolds to that code with numbers in place of mnemonics.
-/

namespace SecdMachine

namespace Store

variable {store : Store} {value : Value} {tree : Tree}

theorem Unfolds.cell?_eq_none (unfolds : store.Unfolds value tree)
    (atom : ∀ first second, tree ≠ .pair first second) : store.cell? value = none := by
  cases unfolds with
  | absent | empty | symbol | integer => rfl
  | pair => exact absurd rfl (atom _ _)

theorem Unfolds.isNil_eq (unfolds : store.Unfolds value tree) :
    value.isNil = decide (tree = .nil) := by
  cases unfolds <;> simp [Value.isNil, Value.nil, Tree.nil]

theorem Unfolds.consReversed {elements : List Value} {trees : List Tree}
    (unfold : List.Forall₂ store.Unfolds elements trees) (unfolds : store.Unfolds value tree) :
    store.Extends (store.consReversed elements value).2 ∧
      (store.consReversed elements value).2.Unfolds (store.consReversed elements value).1
        (trees.foldl (fun rest tree => .pair tree rest) tree) := by
  induction elements generalizing store value tree trees with
  | nil =>
      cases unfold
      exact ⟨store.extends_refl, unfolds⟩
  | cons element elements ih =>
      have grown := store.extends_cons element value
      cases unfold with
      | cons unfoldsFirst rest =>
          have further := rest.imp fun _ _ unfolds => unfolds.mono grown
          obtain ⟨extended, whole⟩ :=
            ih further (.pair cell?_cons_self (unfoldsFirst.mono grown) (unfolds.mono grown))
          exact ⟨grown.trans extended, whole⟩

end Store

namespace Assembler

def onward (fuel position : Nat) (opcode : Opcode) (index count : Nat) (taken : Taken) :
    Except AssemblyError (Value × Store) :=
  match operands (fun store code => assembleFrom fuel store 0 [] code) position opcode index count
      taken with
  | .error error => .error error
  | .ok taken => assembleFrom fuel taken.store (position + 1) taken.reversed taken.rest

/-- The assembler accepts and gives a value that unfolds to the translation, after the cells already
assembled; or it rejects, and not for want of fuel. -/
def Agrees (store : Store) (before : List Tree) (accepted : Bool) (translation : Tree)
    (outcome : Except AssemblyError (Value × Store)) : Prop :=
  if accepted then
    ∃ value later, outcome = .ok (value, later) ∧ store.Extends later ∧
      later.Unfolds value (before.foldl (fun rest tree => .pair tree rest) translation)
  else ∃ error, outcome = .error error ∧ error ≠ .endless

variable {store later : Store} {value : Value} {reversed : List Value} {tree : Tree}
  {before : List Tree} {fuel position index count : Nat} {opcode : Opcode}
  {accepted : Bool} {translation : Tree} {outcome : Except AssemblyError (Value × Store)}

theorem agrees_error {error : AssemblyError} (other : error ≠ .endless) :
    Agrees store before false translation (.error error) := by
  rw [Agrees, if_neg Bool.false_ne_true]
  exact ⟨error, rfl, other⟩

theorem Agrees.mono (agrees : Agrees later before accepted translation outcome)
    (extended : store.Extends later) : Agrees store before accepted translation outcome := by
  cases accepted with
  | false => exact agrees
  | true =>
      obtain ⟨value, last, made, further, unfolds⟩ := agrees
      exact ⟨value, last, made, extended.trans further, unfolds⟩

theorem opcode_of_unfolds (unfolds : store.Unfolds value tree) (position : Nat) :
    match tree.opcode? with
    | some opcode => Assembler.opcode position value = .ok opcode
    | none => ∃ error, Assembler.opcode position value = .error error ∧ error ≠ .endless := by
  cases unfolds with
  | absent | empty | pair => exact ⟨_, rfl, by simp⟩
  | symbol name =>
      simp only [Tree.opcode?, Assembler.opcode]
      cases Opcode.ofName? name with
      | some opcode => rfl
      | none => exact ⟨_, rfl, by simp⟩
  | integer number =>
      simp only [Tree.opcode?, Assembler.opcode]
      cases Opcode.ofNumber? number.toInt with
      | some opcode => rfl
      | none => exact ⟨_, rfl, by simp⟩

theorem onward_missing {taken : Taken} (ended : taken.store.cell? taken.rest = none) :
    onward fuel position opcode index (count + 1) taken =
      .error (.operandMissing position opcode index) := by
  simp [onward, operands, ended]

theorem onward_literal {first second : Value} (kind : opcode.operandKind = .literal)
    (found : store.cell? value = some ⟨first, second⟩) :
    onward fuel position opcode index (count + 1) ⟨reversed, value, store⟩ =
      onward fuel position opcode (index + 1) count ⟨first :: reversed, second, store⟩ := by
  simp only [onward, operands, found, kind]

theorem onward_code {first second : Value} (kind : opcode.operandKind = .code)
    (found : store.cell? value = some ⟨first, second⟩) :
    onward fuel position opcode index (count + 1) ⟨reversed, value, store⟩ =
      match assembleFrom fuel store 0 [] first with
      | .error error => .error error
      | .ok (operand, later) =>
          onward fuel position opcode (index + 1) count ⟨operand :: reversed, second, later⟩ := by
  simp only [onward, operands, found, kind]
  cases assembleFrom fuel store 0 [] first <;> rfl

theorem assembleFrom_pair {first second : Value} (found : store.cell? value = some ⟨first, second⟩) :
    assembleFrom (fuel + 1) store position reversed value =
      match Assembler.opcode position first with
      | .error error => .error error
      | .ok opcode => onward fuel position opcode 0 opcode.operandCount
          ⟨.integer (Int64.ofNat opcode.number) :: reversed, second, store⟩ := by
  cases named : Assembler.opcode position first with
  | error error => simp only [assembleFrom, found, named]
  | ok opcode =>
      simp only [assembleFrom, found, named]
      rfl

def Assembles (tree : Tree) : Prop :=
  ∀ (position : Nat) {fuel store reversed before value}, tree.height < fuel →
    store.Unfolds value tree →
    List.Forall₂ store.Unfolds reversed before →
    Agrees store before (Tree.isCodeAfter .code 0 tree) tree.numeric
      (assembleFrom fuel store position reversed value)

def TakesOperands (opcode : Opcode) (count : Nat) (tree : Tree) : Prop :=
  ∀ (position index : Nat) {fuel store reversed before value}, tree.height < fuel →
    store.Unfolds value tree → List.Forall₂ store.Unfolds reversed before →
    Agrees store before (Tree.isCodeAfter opcode.operandKind count tree)
      (Tree.numericAfter opcode.operandKind count tree)
      (onward fuel position opcode index count ⟨reversed, value, store⟩)

theorem Assembles.takesOperands (assembles : Assembles tree) (opcode : Opcode) :
    TakesOperands opcode 0 tree := by
  intro position index fuel store reversed before value enough unfolds unfold
  rw [Tree.isCodeAfter_zero, Tree.numericAfter_zero]
  exact assembles (position + 1) enough unfolds unfold

theorem assembles_atom (atom : ∀ first second, tree ≠ .pair first second) : Assembles tree := by
  intro position fuel store reversed before value enough unfolds unfold
  obtain ⟨fuel, rfl⟩ := Nat.exists_eq_succ_of_ne_zero (Nat.ne_of_gt (Nat.zero_lt_of_lt enough))
  have ends : assembleFrom (fuel + 1) store position reversed value =
      if tree = .nil then .ok (store.consReversed reversed .nil)
      else .error (.improperEnd value) := by
    simp [assembleFrom, unfolds.cell?_eq_none atom, unfolds.isNil_eq]
  rw [ends]
  by_cases same : tree = .nil
  · subst same
    obtain ⟨extended, whole⟩ := Store.Unfolds.consReversed unfold unfolds
    cases unfolds
    exact ⟨_, _, rfl, extended, whole⟩
  · have rejected : Tree.isCodeAfter .code 0 tree = false := by
      cases tree with
      | pair first second => exact absurd rfl (atom first second)
      | empty | symbol | integer => simpa [Tree.isCodeAfter] using same
    rw [if_neg same, rejected]
    exact agrees_error (by simp)

theorem takesOperands_atom (atom : ∀ first second, tree ≠ .pair first second) (opcode : Opcode)
    (count : Nat) : TakesOperands opcode (count + 1) tree := by
  intro position index fuel store reversed before value _ unfolds _
  have rejected : Tree.isCodeAfter opcode.operandKind (count + 1) tree = false := by
    cases tree with
    | pair first second => exact absurd rfl (atom first second)
    | empty | symbol | integer => rfl
  rw [rejected, onward_missing (unfolds.cell?_eq_none atom)]
  exact agrees_error (by simp)

theorem takesOperands_pair {first second : Tree} (nested : Assembles first)
    (rest : TakesOperands opcode count second) :
    TakesOperands opcode (count + 1) (.pair first second) := by
  intro position index fuel store reversed before value enough unfolds unfold
  have shallow : first.height < fuel ∧ second.height < fuel := by
    rw [Tree.height] at enough
    omega
  obtain _ | _ | _ | _ | ⟨found, left, right⟩ := unfolds
  cases kind : opcode.operandKind with
  | literal =>
      rw [onward_literal kind found]
      have goesOn := rest position (index + 1) shallow.2 right
        (.cons left unfold)
      rw [kind] at goesOn
      simp only [Tree.isCodeAfter, Tree.numericAfter, decide_true, Bool.true_or, Bool.true_and]
      exact goesOn
  | code =>
      rw [onward_code kind found]
      have inner := nested 0 shallow.1 left .nil
      simp only [Tree.isCodeAfter, Tree.numericAfter]
      cases code : Tree.isCodeAfter .code 0 first with
      | false =>
          rw [code] at inner
          obtain ⟨error, failed, other⟩ := inner
          rw [failed]
          exact agrees_error other
      | true =>
          rw [code] at inner
          obtain ⟨operand, later, made, extended, unfoldsOperand⟩ := inner
          rw [made]
          have goesOn := rest position (index + 1) shallow.2
            (right.mono extended)
            (.cons unfoldsOperand (unfold.imp fun _ _ unfolds => unfolds.mono extended))
          rw [kind] at goesOn
          exact goesOn.mono extended

theorem assembles_pair {first second : Tree}
    (rest : ∀ opcode count, TakesOperands opcode count second) :
    Assembles (.pair first second) := by
  intro position fuel store reversed before value enough unfolds unfold
  obtain ⟨fuel, rfl⟩ := Nat.exists_eq_succ_of_ne_zero (Nat.ne_of_gt (Nat.zero_lt_of_lt enough))
  have shallow : second.height < fuel := by
    rw [Tree.height] at enough
    omega
  obtain _ | _ | _ | _ | ⟨found, left, right⟩ := unfolds
  rw [assembleFrom_pair found]
  have named := opcode_of_unfolds left position
  cases name : first.opcode? with
  | none =>
      rw [name] at named
      obtain ⟨error, failed, other⟩ := named
      simp only [Tree.isCodeAfter, name, failed]
      exact agrees_error other
  | some opcode =>
      rw [name] at named
      have names := Tree.opcode?_eq_some_iff.mp name
      rw [Tree.isCodeAfter_named _ _ names, Tree.numeric, Tree.numericAfter_named _ _ names, named]
      exact rest opcode opcode.operandCount position 0 shallow right (.cons (.integer _) unfold)

/-- Along any tree, the assembler keeps to the language. -/
theorem assembles_and_takesOperands (tree : Tree) :
    Assembles tree ∧ ∀ opcode count, TakesOperands opcode count tree := by
  have atom : ∀ {leaf : Tree}, (∀ first second, leaf ≠ .pair first second) →
      Assembles leaf ∧ ∀ opcode count, TakesOperands opcode count leaf := by
    intro leaf atom
    have assembles : Assembles leaf := assembles_atom atom
    refine ⟨assembles, fun opcode count => ?_⟩
    cases count with
    | zero => exact assembles.takesOperands opcode
    | succ count => exact takesOperands_atom atom opcode count
  induction tree with
  | empty | symbol | integer => exact atom (by simp)
  | pair first second firstIh secondIh =>
      have assembles : Assembles (.pair first second) := assembles_pair secondIh.2
      refine ⟨assembles, fun opcode count => ?_⟩
      cases count with
      | zero => exact assembles.takesOperands opcode
      | succ count => exact takesOperands_pair firstIh.1 (secondIh.2 opcode count)

theorem agrees_assemble (unfolds : store.Unfolds value tree) :
    Agrees store [] (decide (tree.IsCode Tree.Names)) tree.numeric (assemble store value) := by
  have enough : tree.height < store.size + 1 := Nat.lt_succ_of_le unfolds.height_le_size
  have agrees := (assembles_and_takesOperands tree).1 0 enough unfolds .nil
  simpa [Tree.isCode_iff, assemble] using agrees

/-- The assembler succeeds exactly on code. What it makes is equal to that code with a number for
each head; it is numeric code, which the assembler leaves as it is. Other values are rejected with an
error that says what is wrong with them. -/
theorem assembler_accepts_exactly_code (store : Store) (value : Value) (tree : Tree)
    (unfolds : store.Unfolds value tree) :
    ((assemble store value).isOk ↔ tree.IsCode Tree.Names) ∧
    (∀ result later, assemble store value = .ok (result, later) →
      store.Extends later ∧ later.Unfolds result tree.numeric ∧
      (∀ other, later.Unfolds other tree.numeric → later.equal result other) ∧
      tree.numeric.IsCode Tree.Numbers ∧ tree.numeric.IsCode Tree.Names ∧
      (tree.IsCode Tree.Numbers → later.equal value result) ∧
      ∃ again last, assemble later result = .ok (again, last) ∧ last.equal result again) ∧
    (¬tree.IsCode Tree.Names →
      ∃ error, assemble store value = .error error ∧ error ≠ .endless) := by
  have agrees := agrees_assemble unfolds
  by_cases code : tree.IsCode Tree.Names
  · rw [decide_eq_true code] at agrees
    obtain ⟨made, after, succeeded, extended, translated⟩ := agrees
    rw [succeeded]
    refine ⟨by simp [Except.isOk, Except.toBool, code], ?_, fun other => absurd code other⟩
    rintro _ _ ⟨⟩
    have translated : after.Unfolds made tree.numeric := translated
    have numeric := code.numeric
    refine ⟨extended, translated, fun other unfolds => translated.equal unfolds, numeric,
      numeric.names, fun numbered => ?_, ?_⟩
    · have same := unfolds.mono extended
      rw [← numbered.numeric_eq] at same
      exact same.equal translated
    · have further := agrees_assemble translated
      rw [decide_eq_true numeric.names, numeric.numeric_eq] at further
      obtain ⟨again, last, succeeded, extended, unchanged⟩ := further
      exact ⟨again, last, succeeded, (translated.mono extended).equal unchanged⟩
  · rw [decide_eq_false code] at agrees
    obtain ⟨error, failed, other⟩ := agrees
    rw [failed]
    exact ⟨by simp [Except.isOk, Except.toBool, code], by simp, fun _ => ⟨error, rfl, other⟩⟩

def mixedCode : Datum :=
  .ofList [.symbol "ldc", .ofList [.symbol "add", .symbol "STOP"], .symbol "Sel",
    .ofList [.integer 3, .ofList [.symbol "LD", .pair (.integer 0) (.symbol "ld"), .integer 5],
      .symbol "join"], .nil, .symbol "atom", .integer 21]

def mixedCodeInNumbers : Datum :=
  .ofList [.integer 2, .ofList [.symbol "add", .symbol "STOP"], .integer 8,
    .ofList [.integer 3, .ofList [.integer 1, .pair (.integer 0) (.symbol "ld"), .integer 5],
      .integer 9], .nil, .integer 12, .integer 21]

def truncatedCode : Datum :=
  .ofList [.symbol "SEL", .nil, .ofList [.integer 2], .symbol "STOP"]

theorem mixedCode_is_assembled :
    (∃ result later, assemble (Store.load {} mixedCode).2 (Store.load {} mixedCode).1 =
        .ok (result, later) ∧
      later.Unfolds result mixedCodeInNumbers.tree) ∧
    ∃ error, assemble (Store.load {} truncatedCode).2 (Store.load {} truncatedCode).1 =
      .error error := by
  obtain ⟨accepts, translates, _⟩ :=
    assembler_accepts_exactly_code _ _ _ (Store.denotes_load {} mixedCode).unfolds
  obtain ⟨_, _, rejects⟩ :=
    assembler_accepts_exactly_code _ _ _ (Store.denotes_load {} truncatedCode).unfolds
  refine ⟨?_, ?_⟩
  · have accepted := accepts.mpr (by decide +kernel)
    cases made : assemble (Store.load {} mixedCode).2 (Store.load {} mixedCode).1 with
    | error error =>
        rw [made] at accepted
        cases accepted
    | ok found =>
        obtain ⟨result, later⟩ := found
        refine ⟨result, later, rfl, ?_⟩
        have numbers : mixedCode.tree.numeric = mixedCodeInNumbers.tree := by decide +kernel
        rw [← numbers]
        exact (translates result later made).2.1
  · obtain ⟨error, failed, _⟩ := rejects (by decide +kernel)
    exact ⟨error, failed⟩

end Assembler

end SecdMachine
