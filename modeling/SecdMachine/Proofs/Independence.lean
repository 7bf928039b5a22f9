import Mathlib.Data.List.Induction
import Mathlib.Logic.Function.Basic
import SecdMachine.Proofs.CallReturn
import SecdMachine.Proofs.Correspondence

/-!
Two machines on one store. As long as their registers lead to different pairs, each of them does what
it would do alone, in whatever order they are stepped, and their registers go on leading to different
pairs.
-/

namespace SecdMachine

inductive Side where
  | left
  | right
  deriving DecidableEq, Repr

structure Tandem where
  machine : Side → Machine
  store : Store

namespace Tandem

def view (tandem : Tandem) (side : Side) : Configuration :=
  ⟨tandem.machine side, tandem.store⟩

def step (tandem : Tandem) (side : Side) : Tandem :=
  ⟨Function.update tandem.machine side (tandem.view side).next.machine,
    (tandem.view side).next.store⟩

def follow (tandem : Tandem) (schedule : List Side) : Tandem :=
  schedule.foldl step tandem

def seen (side : Side) : Tandem → List Side → List Observation
  | _, [] => []
  | tandem, turn :: rest =>
      if turn = side then (tandem.view side).observed :: seen side (tandem.step turn) rest
      else seen side (tandem.step turn) rest

theorem follow_concat (tandem : Tandem) (schedule : List Side) (turn : Side) :
    tandem.follow (schedule ++ [turn]) = (tandem.follow schedule).step turn := by
  simp [follow]

theorem seen_concat (tandem : Tandem) (side : Side) (schedule : List Side) (turn : Side) :
    seen side tandem (schedule ++ [turn]) = seen side tandem schedule ++
      if turn = side then [((tandem.follow schedule).view side).observed] else [] := by
  induction schedule generalizing tandem with
  | nil => simp [seen, follow]
  | cons first rest ih =>
      have same : tandem.follow (first :: rest) = (tandem.step first).follow rest := rfl
      rw [List.cons_append, seen, seen, ih, same]
      split <;> simp

/-- Each machine corresponds to one that runs alone, and they are linked at different addresses. -/
structure Apart (links : Side → Address → Address → Prop) (tandem : Tandem)
    (alone : Side → Configuration) : Prop where
  corresponds : ∀ side, Configuration.Corresponds (links side) (tandem.view side) (alone side)
  disjoint : ∀ side other, side ≠ other → ∀ address image otherImage,
    links side address image → ¬links other address otherImage

variable {links : Side → Address → Address → Prop} {tandem : Tandem}
  {alone : Side → Configuration}

theorem view_step_self (tandem : Tandem) (side : Side) :
    (tandem.step side).view side = (tandem.view side).next := by
  simp [view, step]

theorem view_step_of_ne (tandem : Tandem) {side other : Side} (different : other ≠ side) :
    (tandem.step side).view other = ⟨tandem.machine other, (tandem.view side).next.store⟩ := by
  simp [view, step, different]

/-- A call of `step` on one machine keeps both in correspondence with the machines that run alone. -/
theorem Apart.step (apart : Apart links tandem alone) (side : Side) :
    ∃ wider, Apart wider (tandem.step side) (Function.update alone side (alone side).next) := by
  obtain ⟨_, ⟨wider, widens, onward⟩, frame⟩ := (apart.corresponds side).stepsAlike
  refine ⟨Function.update links side wider, ?_, ?_⟩
  · intro other
    by_cases same : other = side
    · subst same
      rw [view_step_self, Function.update_self, Function.update_self]
      exact onward
    · rw [view_step_of_ne tandem same, Function.update_of_ne same, Function.update_of_ne same]
      -- The step may write only to pairs linked to its own machine, and none of those is linked here.
      have before := apart.corresponds other
      have kept : Mirrors (links other) (tandem.view side).next.store (alone other).store := by
        apply before.mirrors.congr
        intro address image linked
        apply frame address (before.mirrors.lt_size linked).1
        intro otherImage also
        exact apart.disjoint other side same address image otherImage linked also
      exact ⟨kept, before.registers, before.halted, before.steps, before.trace, before.limit⟩
  · have fresh : ∀ other, other ≠ side → ∀ address image otherImage, wider address image →
        ¬links other address otherImage := by
      intro other different address image otherImage linked also
      rcases widens.new address image linked with old | new
      · exact apart.disjoint other side different address otherImage image also old
      · have bound := ((apart.corresponds other).mirrors.lt_size also).1
        exact absurd bound (Nat.not_lt.mpr new)
    intro first second different address image otherImage linked also
    by_cases same : first = side
    · subst same
      rw [Function.update_self] at linked
      rw [Function.update_of_ne different.symm] at also
      exact fresh second different.symm address image otherImage linked also
    · rw [Function.update_of_ne same] at linked
      by_cases sameSecond : second = side
      · subst sameSecond
        rw [Function.update_self] at also
        exact fresh first same address otherImage image also linked
      · rw [Function.update_of_ne sameSecond] at also
        exact apart.disjoint first second different address image otherImage linked also

theorem Apart.follow (apart : Apart links tandem tandem.view) (schedule : List Side) :
    ∃ wider, Apart wider (tandem.follow schedule)
      fun side => (tandem.view side).after (schedule.count side) := by
  induction schedule using List.reverseRecOn with
  | nil => exact ⟨links, apart⟩
  | append_singleton schedule turn ih =>
      obtain ⟨wider, reached⟩ := ih
      obtain ⟨widest, onward⟩ := reached.step turn
      refine ⟨widest, ?_⟩
      rw [follow_concat]
      convert onward using 1
      funext side
      by_cases same : side = turn
      · subst same
        simp [Configuration.after]
      · have different : turn ≠ side := fun turned => same turned.symm
        simp [same, different]

def Grounded (tandem : Tandem) : Prop :=
  ∀ side address, (tandem.view side).Reaches address → address < tandem.store.size

def Disjoint (tandem : Tandem) : Prop :=
  ∀ address, (tandem.view .left).Reaches address → ¬(tandem.view .right).Reaches address

theorem alike_self {link : Address → Address → Prop} {value : Value}
    (linked : ∀ address, value = .pair address → link address address) : Alike link value value := by
  cases value with
  | pair address => exact .pair (linked address rfl)
  | absent | empty | symbol _ | integer _ => exact .atom rfl

theorem corresponds_self (grounded : tandem.Grounded) (side : Side) :
    Configuration.Corresponds (fun address image => address = image ∧
      (tandem.view side).Reaches address) (tandem.view side) (tandem.view side) := by
  have mirrors : Mirrors (fun address image => address = image ∧
      (tandem.view side).Reaches address) tandem.store tandem.store := by
    refine ⟨?_, ?_, ?_⟩
    · rintro address _ ⟨rfl, value, member, reached⟩
      obtain ⟨cell, found⟩ :=
        Store.exists_cell_of_lt_size (grounded side address ⟨value, member, reached⟩)
      refine ⟨cell, cell, found, found, ?_, ?_⟩
      · apply alike_self
        intro target same
        exact ⟨rfl, value, member, reached.trans (.first found (same ▸ .here target))⟩
      · apply alike_self
        intro target same
        exact ⟨rfl, value, member, reached.trans (.second found (same ▸ .here target))⟩
    · rintro address left right ⟨rfl, _⟩ ⟨rfl, _⟩
      rfl
    · rintro left right image ⟨rfl, _⟩ ⟨rfl, _⟩
      rfl
  have registers : ∀ value ∈ (tandem.view side).registers.values,
      Alike (fun address image => address = image ∧ (tandem.view side).Reaches address) value
        value := by
    intro value member
    apply alike_self
    rintro address rfl
    exact ⟨rfl, .pair address, member, .here address⟩
  simp only [Registers.values, List.forall_mem_cons] at registers
  obtain ⟨stack, environment, control, dump, _⟩ := registers
  exact ⟨mirrors, ⟨stack, environment, control, dump⟩, rfl, rfl, rfl, rfl⟩

theorem apart_of_disjoint (grounded : tandem.Grounded) (disjoint : tandem.Disjoint) :
    Apart (fun side address image => address = image ∧ (tandem.view side).Reaches address) tandem
      tandem.view := by
  refine ⟨corresponds_self grounded, ?_⟩
  rintro side other different address image otherImage ⟨_, reached⟩ ⟨_, also⟩
  cases side with
  | left =>
      cases other with
      | left => exact different rfl
      | right => exact disjoint address reached also
  | right =>
      cases other with
      | left => exact disjoint address also reached
      | right => exact different rfl

theorem Apart.linked_of_reaches (apart : Apart links tandem alone) {side : Side}
    {address : Address} (reached : (tandem.view side).Reaches address) :
    ∃ image, links side address image := by
  obtain ⟨value, member, reached⟩ := reached
  have corresponds := apart.corresponds side
  obtain ⟨image, _, alike⟩ := corresponds.registers.exists_image member
  exact corresponds.mirrors.of_reaches reached alike

theorem Apart.tandem_disjoint (apart : Apart links tandem alone) : tandem.Disjoint := by
  intro address reached also
  obtain ⟨image, linked⟩ := apart.linked_of_reaches reached
  obtain ⟨otherImage, otherLinked⟩ := apart.linked_of_reaches also
  exact apart.disjoint .left .right (by decide) address image otherImage linked otherLinked

/-- Machines whose registers lead to different pairs do not interfere: in every order of calls, what
can be seen of each is what can be seen of it alone, and their registers go on leading to different
pairs. -/
theorem disjoint_machines_do_not_interfere (tandem : Tandem) (grounded : tandem.Grounded)
    (disjoint : tandem.Disjoint) (schedule : List Side) :
    (∀ side,
      seen side tandem schedule = ((List.range (schedule.count side)).map fun calls =>
        ((tandem.view side).after calls).observed) ∧
      ((tandem.follow schedule).view side).observed =
        ((tandem.view side).after (schedule.count side)).observed) ∧
    (tandem.follow schedule).Disjoint := by
  have apart := apart_of_disjoint grounded disjoint
  have agree : ∀ schedule side, ((tandem.follow schedule).view side).observed =
      ((tandem.view side).after (schedule.count side)).observed := by
    intro schedule side
    obtain ⟨_, reached⟩ := apart.follow schedule
    exact (reached.corresponds side).observed_eq
  refine ⟨fun side => ⟨?_, agree schedule side⟩, ?_⟩
  · induction schedule using List.reverseRecOn with
    | nil => rfl
    | append_singleton schedule turn ih =>
        rw [seen_concat, ih, agree schedule side]
        by_cases same : turn = side
        · subst same
          simp [List.range_succ]
        · simp [same]
  · obtain ⟨_, reached⟩ := apart.follow schedule
    exact reached.tandem_disjoint

def within (lower upper : Nat) : Value → Bool
  | .pair address => lower ≤ address && address < upper
  | _ => true

theorem within_of_reaches {configuration : Configuration} {lower upper : Nat} {address : Address}
    (enclosed : ∀ address < upper, lower ≤ address →
      ∀ cell ∈ configuration.store.cell? (.pair address),
        within lower upper cell.first = true ∧ within lower upper cell.second = true)
    (inside : ∀ value ∈ configuration.registers.values, within lower upper value = true)
    (reached : configuration.Reaches address) : lower ≤ address ∧ address < upper := by
  have region : configuration.store.Region fun value => within lower upper value = true := by
    refine ⟨fun _ => rfl, fun _ => rfl, ?_⟩
    intro value cell member found
    obtain ⟨address, rfl⟩ := Store.eq_pair_of_cell? found
    simp only [within, Bool.and_eq_true, decide_eq_true_eq] at member
    exact enclosed address member.2 member.1 cell found
  obtain ⟨value, member, reached⟩ := reached
  simpa [within] using region.of_reaches reached (inside value member)

def firstOfTwo : Configuration :=
  .start (Store.load {} Configuration.branchWithinCalls).2
    (Store.load {} Configuration.branchWithinCalls).1 .nil none

def secondOfTwo : Configuration :=
  .start (firstOfTwo.store.load Configuration.branchWithinCalls).2
    (firstOfTwo.store.load Configuration.branchWithinCalls).1 .nil none

def twoOfAKind : Tandem where
  machine
    | .left => firstOfTwo.machine
    | .right => secondOfTwo.machine
  store := secondOfTwo.store

theorem twoOfAKind_left {address : Address} (reached : (twoOfAKind.view .left).Reaches address) :
    address < 34 := by
  refine (@within_of_reaches _ 0 34 _ ?_ ?_ reached).2
  · decide +kernel
  · decide +kernel

theorem twoOfAKind_right {address : Address} (reached : (twoOfAKind.view .right).Reaches address) :
    34 ≤ address ∧ address < 68 := by
  refine within_of_reaches ?_ ?_ reached
  · decide +kernel
  · decide +kernel

def turns : List Side :=
  (List.replicate 9 [Side.left, .right, .right]).flatten

theorem twoOfAKind_do_not_interfere :
    ((twoOfAKind.follow turns).view .left).observed.steps = 9 ∧
    ((twoOfAKind.follow turns).view .right).observed.result =
      .ok (some (.symbol "x"), "x") ∧
    (twoOfAKind.follow turns).Disjoint := by
  have grounded : twoOfAKind.Grounded := by
    intro side address reached
    have size : twoOfAKind.store.size = 68 := by decide +kernel
    rw [size]
    cases side with
    | left => exact Nat.lt_trans (twoOfAKind_left reached) (by decide)
    | right => exact (twoOfAKind_right reached).2
  have disjoint : twoOfAKind.Disjoint := by
    intro address reached also
    exact absurd (twoOfAKind_left reached) (Nat.not_lt.mpr (twoOfAKind_right also).1)
  obtain ⟨alone, still⟩ :=
    disjoint_machines_do_not_interfere twoOfAKind grounded disjoint turns
  refine ⟨?_, ?_, still⟩
  · rw [(alone .left).2]
    decide +kernel
  · rw [(alone .right).2]
    decide +kernel

end Tandem

end SecdMachine
