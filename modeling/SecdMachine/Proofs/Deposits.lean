import SecdMachine.Proofs.Contracts
import SecdMachine.Proofs.Lasting

/-!
An entry of the dump that waits for its return. Whatever was on the dump before, the program cannot
get at an entry that a call has just made, nor at what lies above it. So the entry stays as it is
until it is taken, and once taken it is not on the dump again.
-/

namespace SecdMachine

namespace Store

variable {store later : Store} {value origin : Value} {address target : Address}
  {forbidden : Address → Prop}

theorem Reaches.of_extends (reaches : later.Reaches value address)
    (extended : store.Extends later) (closed : store.Closed) (known : store.Knows value) :
    store.Reaches value address := by
  induction reaches with
  | here address => exact .here address
  | first found _ ih =>
      obtain ⟨cell, present⟩ := exists_cell_of_lt_size (known _ rfl)
      rw [extended.cell? present] at found
      cases found
      exact .first present (ih (closed _ _ present).1)
  | second found _ ih =>
      obtain ⟨cell, present⟩ := exists_cell_of_lt_size (known _ rfl)
      rw [extended.cell? present] at found
      cases found
      exact .second present (ih (closed _ _ present).2)

/-- What leads somewhere after a change of a first component did so before, or its new value did. -/
theorem Reaches.of_setFirst (reaches : (store.setFirst target value).Reaches origin address) :
    store.Reaches origin address ∨ store.Reaches value address := by
  induction reaches with
  | here address => exact Or.inl (.here address)
  | @first here address cell found _ ih =>
      rw [cell?_setFirst] at found
      split at found
      · obtain ⟨old, _, rfl⟩ := Option.map_eq_some_iff.mp found
        exact Or.inr (ih.elim id id)
      · exact ih.imp (Reaches.first found) id
  | @second here address cell found _ ih =>
      rw [cell?_setFirst] at found
      split at found
      · obtain ⟨old, present, rfl⟩ := Option.map_eq_some_iff.mp found
        exact ih.imp (Reaches.second present) id
      · exact ih.imp (Reaches.second found) id

theorem Closed.setFirst (closed : store.Closed) (known : store.Knows value) (target : Address) :
    (store.setFirst target value).Closed := by
  have same : store.size ≤ (store.setFirst target value).size := Nat.le_of_eq size_setFirst.symm
  intro address cell found
  rw [cell?_setFirst] at found
  split at found
  · obtain ⟨old, present, rfl⟩ := Option.map_eq_some_iff.mp found
    exact ⟨known.mono same, (closed _ _ present).2.mono same⟩
  · exact ⟨(closed _ _ found).1.mono same, (closed _ _ found).2.mono same⟩

structure Avoids (forbidden : Address → Prop) (store : Store) (value : Value) : Prop where
  closed : store.Closed
  present : ∀ address, forbidden address → address < store.size
  known : store.Knows value
  apart : ∀ address, store.Reaches value address → ¬forbidden address

theorem Avoids.mono (avoids : store.Avoids forbidden value) (extended : store.Extends later)
    (grown : store.size ≤ later.size) (closed : later.Closed) : later.Avoids forbidden value :=
  ⟨closed, fun address hit => Nat.lt_of_lt_of_le (avoids.present address hit) grown,
    avoids.known.mono grown, fun address reached =>
      avoids.apart address (reached.of_extends extended avoids.closed avoids.known)⟩

theorem Avoids.weaken {fewer : Address → Prop} (avoids : store.Avoids forbidden value)
    (less : ∀ address, fewer address → forbidden address) : store.Avoids fewer value :=
  ⟨avoids.closed, fun address hit => avoids.present address (less address hit), avoids.known,
    fun address reached hit => avoids.apart address reached (less address hit)⟩

theorem Avoids.ne (avoids : store.Avoids forbidden (.pair address)) : ¬forbidden address :=
  avoids.apart address (.here address)

theorem avoids_atom (closed : store.Closed)
    (present : ∀ address, forbidden address → address < store.size)
    (atom : value.isPair = false) : store.Avoids forbidden value := by
  refine ⟨closed, present, ?_, ?_⟩
  · rintro address rfl
    cases atom
  · intro address reached
    cases reached <;> cases atom

theorem avoids_pair {cell : Cell} (found : store.cell? (.pair address) = some cell)
    (first : store.Avoids forbidden cell.first) (second : store.Avoids forbidden cell.second)
    (free : ¬forbidden address) : store.Avoids forbidden (.pair address) := by
  refine ⟨first.closed, first.present, ?_, ?_⟩
  · rintro _ ⟨⟩
    exact lt_size_of_cell? found
  · intro other reached
    cases reached with
    | here => exact free
    | first same inner =>
        rw [found] at same
        cases same
        exact first.apart other inner
    | second same inner =>
        rw [found] at same
        cases same
        exact second.apart other inner

theorem lasting_avoids (forbidden : Address → Prop) : Lasting (Avoids forbidden) := by
  constructor
  · intro store value avoids
    refine ⟨fun name => avoids_atom avoids.closed avoids.present rfl,
      fun number => avoids_atom avoids.closed avoids.present rfl, ?_⟩
    intro pair cell held found
    obtain ⟨address, rfl⟩ := eq_pair_of_cell? found
    obtain ⟨first, second⟩ := held.closed address cell found
    have firstApart := fun other inner => held.apart other (.first found inner)
    have secondApart := fun other inner => held.apart other (.second found inner)
    exact ⟨⟨held.closed, held.present, first, firstApart⟩, held.closed, held.present, second,
      secondApart⟩
  · intro store first second firstAvoids secondAvoids
    have extended := store.extends_cons first second
    have grown := store.size_le_cons first second
    have closed := firstAvoids.closed.cons firstAvoids.known secondAvoids.known
    have kept : ∀ value, store.Avoids forbidden value →
        (store.cons first second).2.Avoids forbidden value :=
      fun value avoids => avoids.mono extended grown closed
    refine ⟨avoids_pair cell?_cons_self (kept _ firstAvoids) (kept _ secondAvoids) ?_, kept⟩
    exact fun hit => Nat.lt_irrefl _ (firstAvoids.present _ hit)
  · intro store first firstAvoids target value avoids
    have same : store.size ≤ (store.setFirst target first).size := Nat.le_of_eq size_setFirst.symm
    refine ⟨avoids.closed.setFirst firstAvoids.known target, ?_, avoids.known.mono same, ?_⟩
    · intro address hit
      exact Nat.lt_of_lt_of_le (avoids.present address hit) same
    · intro address reached hit
      rcases reached.of_setFirst with old | new
      · exact avoids.apart address old hit
      · exact firstAvoids.apart address new hit

end Store

/-- What a call leaves on the dump: the cell that puts its entry there, the cells of the entry, what
the entry saves, and the dump below. -/
structure Deposit where
  cell : Address
  cells : List Address
  apart : cell ∉ cells
  stack : Value
  environment : Value
  control : Value
  below : Value

namespace Deposit

variable {deposit : Deposit} {store later : Store} {dump : Value}

def Owns (deposit : Deposit) (address : Nat) : Prop :=
  address = deposit.cell ∨ address ∈ deposit.cells

def saved (deposit : Deposit) : List Value :=
  [deposit.stack, deposit.environment, deposit.control]

/-- A dump that leads down to the deposit through entries that do not lead to it. -/
inductive Under (deposit : Deposit) (store : Store) : Value → Prop
  | top : Under deposit store (.pair deposit.cell)
  | entry {dump entry below} (found : store.cell? dump = some ⟨entry, below⟩)
      (avoids : store.Avoids deposit.Owns entry) (tail : Under deposit store below) :
      Under deposit store dump

theorem Under.reaches (under : deposit.Under store dump) :
    ∃ address, dump = .pair address ∧ store.Reaches (.pair address) deposit.cell := by
  induction under with
  | top => exact ⟨_, rfl, .here _⟩
  | entry found _ _ ih =>
      obtain ⟨address, rfl⟩ := Store.eq_pair_of_cell? found
      obtain ⟨next, rfl, reached⟩ := ih
      exact ⟨address, rfl, .second found reached⟩

structure Lies (deposit : Deposit) (store : Store) (dump : Value) : Prop where
  linked : ∃ entry, store.cell? (.pair deposit.cell) = some ⟨entry, deposit.below⟩ ∧
    store.ListAt entry deposit.cells deposit.saved
  saved : ∀ value ∈ deposit.saved, store.Avoids deposit.Owns value
  below : store.Avoids deposit.Owns deposit.below
  under : deposit.Under store dump

theorem Lies.known (lies : deposit.Lies store dump) : store.Knows dump := by
  obtain ⟨_, linked, _⟩ := lies.linked
  rintro address rfl
  cases lies.under with
  | top => exact Store.lt_size_of_cell? linked
  | entry found => exact Store.lt_size_of_cell? found

theorem Lies.mono (lies : deposit.Lies store dump)
    (cells : ∀ address cell, deposit.Owns address ∨ store.Reaches (.pair address) deposit.cell →
      store.cell? (.pair address) = some cell → later.cell? (.pair address) = some cell)
    (values : ∀ value, store.Avoids deposit.Owns value → later.Avoids deposit.Owns value) :
    deposit.Lies later dump := by
  obtain ⟨⟨entry, linked, list⟩, saved, below, under⟩ := lies
  refine ⟨⟨entry, cells _ _ (Or.inl (Or.inl rfl)) linked, list.congr ?_⟩,
    fun value member => values value (saved value member), values _ below, ?_⟩
  · intro address member
    obtain ⟨cell, found⟩ := Store.exists_cell_of_lt_size (list.lt_size address member)
    rw [found]
    exact cells _ _ (Or.inl (Or.inr member)) found
  · clear linked
    induction under with
    | top => exact .top
    | entry found avoids tail ih =>
        have whole : deposit.Under store _ := .entry found avoids tail
        obtain ⟨address, rfl, reached⟩ := whole.reaches
        exact .entry (cells _ _ (Or.inr reached) found) (values _ avoids) ih

theorem keeps_lies (deposit : Deposit) : Keeps (Store.Avoids deposit.Owns) deposit.Lies := by
  constructor
  · intro store first second dump firstAvoids secondAvoids lies
    exact lies.mono (fun address cell _ => store.extends_cons first second address cell)
      ((Store.lasting_avoids _).cons firstAvoids secondAvoids).2
  · intro store first target dump firstAvoids targetAvoids lies
    refine lies.mono ?_ fun value => (Store.lasting_avoids _).setFirst firstAvoids target value
    intro address cell concerned found
    rw [Store.cell?_setFirst_of_ne, found]
    rintro rfl
    exact concerned.elim targetAvoids.ne fun reached => targetAvoids.apart _ reached (Or.inl rfl)
  · intro store entry dump avoids lies
    have extended := store.extends_cons entry dump
    have closed := avoids.closed.cons avoids.known lies.known
    have kept : ∀ value, store.Avoids deposit.Owns value →
        (store.cons entry dump).2.Avoids deposit.Owns value :=
      fun value old => old.mono extended (store.size_le_cons entry dump) closed
    have still := lies.mono (fun address cell _ => extended address cell) kept
    exact ⟨{ still with under := .entry Store.cell?_cons_self (kept _ avoids) still.under }, kept⟩

structure Rests (deposit : Deposit) (configuration : Configuration) : Prop where
  current : ∀ value ∈ configuration.registers.current,
    configuration.store.Avoids deposit.Owns value
  lies : deposit.Lies configuration.store configuration.registers.dump

theorem rests_iff {configuration : Configuration} : deposit.Rests configuration ↔
    (∀ value ∈ configuration.registers.current, configuration.store.Avoids deposit.Owns value) ∧
      deposit.Lies configuration.store configuration.registers.dump :=
  ⟨fun rests => ⟨rests.current, rests.lies⟩, fun ⟨current, lies⟩ => ⟨current, lies⟩⟩

def Gone (deposit : Deposit) (configuration : Configuration) : Prop :=
  ∀ value ∈ configuration.registers.values,
    configuration.store.Avoids (fun address => address = deposit.cell) value

theorem Gone.after {configuration : Configuration} (gone : deposit.Gone configuration)
    (calls : Nat) : deposit.Gone (configuration.after calls) :=
  (Store.lasting_avoids _).after gone calls

theorem weaken_owns {value : Value} (avoids : store.Avoids deposit.Owns value) :
    store.Avoids (fun address => address = deposit.cell) value :=
  avoids.weaken fun _ => Or.inl

theorem Lies.entry_avoids (lies : deposit.Lies store dump) {entry : Value}
    (list : store.ListAt entry deposit.cells deposit.saved) :
    store.Avoids (fun address => address = deposit.cell) entry := by
  have saved : ∀ value ∈ deposit.saved,
      store.Avoids (fun address => address = deposit.cell) value :=
    fun value member => weaken_owns (lies.saved value member)
  have nil := ((Store.lasting_avoids _).region (weaken_owns lies.below)).nil
  have apart := deposit.apart
  generalize deposit.cells = cells at list apart
  generalize deposit.saved = elements at list saved
  induction list with
  | nil => exact nil
  | cons found _ ih =>
      rw [List.forall_mem_cons] at saved
      rw [List.mem_cons, not_or] at apart
      exact Store.avoids_pair found saved.1 (ih apart.2 saved.2) (Ne.symm apart.1)

/-- What is taken from the dump is the deposit, or something above it. -/
theorem Lies.popped (lies : deposit.Lies store dump) {entry below : Value}
    (popped : store.cell? dump = some ⟨entry, below⟩) :
    below = deposit.below ∧ store.ListAt entry deposit.cells deposit.saved ∨
      store.Avoids deposit.Owns entry ∧ deposit.Lies store below := by
  obtain ⟨value, linked, list⟩ := lies.linked
  cases lies.under with
  | top =>
      rw [linked] at popped
      cases popped
      exact Or.inl ⟨rfl, list⟩
  | entry found avoids tail =>
      rw [found] at popped
      cases popped
      exact Or.inr ⟨avoids, { lies with under := tail }⟩

theorem Rests.next {before : Configuration} (rests : deposit.Rests before) :
    deposit.Rests before.next ∨ deposit.Gone before.next := by
  have lasting := Store.lasting_avoids deposit.Owns
  have weak := Store.lasting_avoids fun address => address = deposit.cell
  obtain ⟨current, lies⟩ := rests
  rcases before.step_cases with ⟨_, _, _, _, _, unchanged⟩ | ⟨_, opcode, rest, effect, executes⟩
  · rw [unchanged]
    exact Or.inl ⟨current, lies⟩
  · have given := lasting.given current executes
    rw [rests_iff, Gone, Registers.forall_mem_values, executes.registers, executes.store]
    by_cases quiet : effect.taken = []
    · exact Or.inl (lasting.put (keeps_lies deposit) current lies given quiet)
    · cases executes.performs with
      | rtn top popped frame =>
          have value := given _ List.mem_cons_self
          rcases lies.popped popped with ⟨rfl, list⟩ | ⟨avoids, beneath⟩
          · have same := (Instruction.callFrame_of_listAt list).symm.trans frame
            simp only [Except.ok.injEq, Prod.mk.injEq] at same
            obtain ⟨rfl, rfl, rfl⟩ := same
            exact Or.inr (weak.return weak.keeps (weaken_owns value)
              (fun item member => weaken_owns (lies.saved item member)) (weaken_owns lies.below))
          · obtain ⟨stack, environment, control⟩ := (lasting.region avoids).callFrame avoids frame
            refine Or.inl (lasting.return (keeps_lies deposit) value ?_ beneath)
            simp only [List.forall_mem_cons]
            exact ⟨stack, environment, control, by simp⟩
      | join popped =>
          rcases lies.popped popped with ⟨rfl, list⟩ | ⟨avoids, beneath⟩
          · have apart := fun value member => weaken_owns (current value member)
            exact Or.inr ⟨Lasting.current_resume apart (lies.entry_avoids list),
              weaken_owns lies.below⟩
          · exact Or.inl ⟨Lasting.current_resume current avoids, beneath⟩
      | ld | ldc | ldf | ap | dum | rap | sel | car | cdr | atom | cons | eq | arithmetic | stop =>
          exact absurd rfl quiet

theorem Rests.after {configuration : Configuration} (rests : deposit.Rests configuration)
    (calls : Nat) :
    deposit.Rests (configuration.after calls) ∨ deposit.Gone (configuration.after calls) := by
  induction calls with
  | zero => exact Or.inl rests
  | succ calls ih =>
      rcases ih with still | gone
      · exact still.next
      · exact Or.inr (gone.after 1)

/-- Whenever the deposit is on top of the dump, it is as it was made. -/
theorem Rests.saves {configuration : Configuration} (rests : deposit.Rests configuration)
    (calls : Nat) (top : (configuration.after calls).registers.dump = .pair deposit.cell) :
    (configuration.after calls).store.Saves (.pair deposit.cell) deposit.stack deposit.environment
      deposit.control deposit.below := by
  rcases rests.after calls with still | gone
  · obtain ⟨entry, linked, list⟩ := still.lies.linked
    exact ⟨entry, deposit.cells, linked, list⟩
  · have avoids := (Registers.forall_mem_values.mp gone).2
    rw [top] at avoids
    exact absurd rfl avoids.ne

def ofCall (store : Store) (stack environment control below : Value) : Deposit where
  cell := store.size + 3
  cells := [store.size + 2, store.size + 1, store.size]
  apart := by simp
  stack := stack
  environment := environment
  control := control
  below := below

theorem owns_ofCall {stack environment control below : Value} {address : Nat} :
    (ofCall store stack environment control below).Owns address ↔
      store.size ≤ address ∧ address < store.size + 4 := by
  simp only [Owns, ofCall, List.mem_cons, List.not_mem_nil, or_false]
  omega

theorem lies_ofCall {stack environment control below : Value} (closed : store.Closed)
    (known : ∀ value ∈ [stack, environment, control, below], store.Knows value) :
    let deposit := ofCall store stack environment control below
    let later := store.saveCall stack environment control below
    deposit.Lies later (.pair deposit.cell) ∧
      ∀ value, store.Knows value → later.Avoids deposit.Owns value := by
  intro deposit later
  have extended : store.Extends later := store.extends_saveCall stack environment control below
  have size : later.size = store.size + 4 := store.size_saveCall stack environment control below
  have everywhere := Store.lasting_avoids fun _ => False
  have free : ∀ {value}, store.Knows value → store.Avoids (fun _ => False) value :=
    fun known => ⟨closed, by simp, known, by simp⟩
  simp only [List.forall_mem_cons] at known
  obtain ⟨stackKnown, environmentKnown, controlKnown, belowKnown, _⟩ := known
  have closedLater : later.Closed := (everywhere.saveCall everywhere.keeps (free stackKnown)
    (free environmentKnown) (free controlKnown) (free belowKnown)).1.closed
  have avoids : ∀ value, store.Knows value → later.Avoids deposit.Owns value := by
    intro value known
    refine ⟨closedLater, ?_, known.mono (by omega), ?_⟩
    · intro address owns
      rw [size]
      exact (owns_ofCall.mp owns).2
    · intro address reached owns
      have old := (reached.of_extends extended closed known).lt_size closed known
      have bounds := owns_ofCall.mp owns
      exact Nat.not_le.mpr old bounds.1
  refine ⟨⟨?_, ?_, avoids _ belowKnown, .top⟩, avoids⟩
  · have size := store.size_list [stack, environment, control]
    have list := (store.listAt_list [stack, environment, control]).mono
      (Store.extends_cons _ (store.list [stack, environment, control]).1 below)
    have linked : later.cell? (.pair (store.list [stack, environment, control]).2.size) =
      some ⟨(store.list [stack, environment, control]).1, below⟩ := Store.cell?_cons_self
    rw [size] at linked
    exact ⟨_, linked, list⟩
  · simp only [saved, List.forall_mem_cons]
    exact ⟨avoids _ stackKnown, avoids _ environmentKnown, avoids _ controlKnown, by simp⟩

/-- A call that saves what its store knows leaves a deposit, and works with what the store knew. -/
theorem rests_ofCall {configuration : Configuration} {stack environment control below : Value}
    (closed : store.Closed)
    (known : ∀ value ∈ [stack, environment, control, below] ++ configuration.registers.current,
      store.Knows value)
    (called : configuration.store = store.saveCall stack environment control below)
    (top : configuration.registers.dump =
      .pair (ofCall store stack environment control below).cell) :
    (ofCall store stack environment control below).Rests configuration := by
  rw [List.forall_mem_append] at known
  obtain ⟨lies, avoids⟩ := lies_ofCall closed known.1
  rw [rests_iff, called, top]
  exact ⟨fun value member => avoids value (known.2 value member), lies⟩

end Deposit

end SecdMachine
