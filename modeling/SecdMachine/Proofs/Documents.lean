import Mathlib.Data.List.Nodup
import SecdMachine.Toml.Document

/-!
Documents as finite maps. Every statement of a document keeps its tables unambiguous, at every
depth: no name stands twice in one table. So a key has one value at most, and looking it up finds
every entry that there is.
-/

namespace SecdMachine.Toml

inductive Node.Tidy : Node → Prop
  | string (text : String) : Tidy (.string text)
  | integer (number : Int64) : Tidy (.integer number)
  | boolean (value : Bool) : Tidy (.boolean value)
  | scalar : Tidy .scalar
  | array : Tidy .array
  | tables {last : Entries} (distinct : (last.map Prod.fst).Nodup)
      (inner : ∀ entry ∈ last, Tidy entry.2) : Tidy (.tables last)
  | table {entries : Entries} (distinct : (entries.map Prod.fst).Nodup)
      (inner : ∀ entry ∈ entries, Tidy entry.2) : Tidy (.table entries)

namespace Entries

structure Tidy (entries : Entries) : Prop where
  distinct : (entries.map Prod.fst).Nodup
  inner : ∀ entry ∈ entries, entry.2.Tidy

variable {entries made : Entries} {name : String} {node : Node} {key : Key}

theorem Tidy.table (tidy : entries.Tidy) : (Node.table entries).Tidy :=
  .table tidy.distinct tidy.inner

theorem Tidy.tables (tidy : entries.Tidy) : (Node.tables entries).Tidy :=
  .tables tidy.distinct tidy.inner

theorem tidy_of_table (tidy : (Node.table entries).Tidy) : entries.Tidy := by
  cases tidy with
  | table distinct inner => exact ⟨distinct, inner⟩

theorem tidy_of_tables (tidy : (Node.tables entries).Tidy) : entries.Tidy := by
  cases tidy with
  | tables distinct inner => exact ⟨distinct, inner⟩

theorem tidy_nil : Tidy [] :=
  ⟨List.nodup_nil, by simp⟩

theorem mem_of_lookup (found : entries.lookup name = some node) : (name, node) ∈ entries := by
  obtain ⟨before, after, same, _⟩ := List.lookup_eq_some_iff.mp found
  simp [same]

theorem Tidy.lookup_of_mem (tidy : entries.Tidy) (member : (name, node) ∈ entries) :
    entries.lookup name = some node := by
  have distinct := tidy.distinct
  clear tidy
  induction entries with
  | nil => simp at member
  | cons entry entries ih =>
      rw [List.map_cons, List.nodup_cons] at distinct
      rcases List.mem_cons.mp member with rfl | member
      · simp
      · have other : name ≠ entry.1 := by
          rintro rfl
          exact distinct.1 (List.mem_map.mpr ⟨(entry.1, node), member, rfl⟩)
        rw [List.lookup_cons, beq_eq_false_iff_ne.mpr other]
        exact ih member distinct.2

theorem Tidy.of_lookup (tidy : entries.Tidy) (found : entries.lookup name = some node) :
    node.Tidy :=
  tidy.inner _ (mem_of_lookup found)

theorem mem_names_put {other : String} :
    other ∈ (put name node entries).map Prod.fst ↔ other = name ∨ other ∈ entries.map Prod.fst := by
  induction entries with
  | nil => simp [put]
  | cons entry entries ih =>
      rw [put]
      split
      · rename_i same
        simp [same]
      · rw [List.map_cons, List.mem_cons, ih, List.map_cons, List.mem_cons]
        tauto

theorem Tidy.put (tidy : entries.Tidy) (good : node.Tidy) : (put name node entries).Tidy := by
  induction entries with
  | nil => exact ⟨by simp [Entries.put], by simpa [Entries.put] using good⟩
  | cons entry entries ih =>
      obtain ⟨distinct, inner⟩ := tidy
      rw [List.map_cons, List.nodup_cons] at distinct
      rw [List.forall_mem_cons] at inner
      rw [Entries.put]
      split
      · rename_i same
        refine ⟨?_, ?_⟩
        · rw [List.map_cons, List.nodup_cons, ← same]
          exact distinct
        · rw [List.forall_mem_cons]
          exact ⟨good, inner.2⟩
      · rename_i other
        obtain ⟨restDistinct, restInner⟩ := ih ⟨distinct.2, inner.2⟩
        refine ⟨?_, ?_⟩
        · rw [List.map_cons, List.nodup_cons, mem_names_put]
          exact ⟨not_or.mpr ⟨other, distinct.1⟩, restDistinct⟩
        · rw [List.forall_mem_cons]
          exact ⟨inner.1, restInner⟩

theorem Tidy.change {alter : Entries → Entries}
    (keeps : ∀ {entries : Entries}, entries.Tidy → (alter entries).Tidy) (tidy : entries.Tidy) :
    (change alter key entries).Tidy := by
  induction key generalizing entries with
  | nil => exact keeps tidy
  | cons name key ih =>
      rw [Entries.change]
      split
      · rename_i found
        exact tidy.put (ih (tidy_of_table (tidy.of_lookup found))).table
      · rename_i found
        exact tidy.put (ih (tidy_of_tables (tidy.of_lookup found))).tables
      · exact tidy

theorem Tidy.insert? (tidy : entries.Tidy) (good : node.Tidy)
    (done : insert? node key entries = some made) : made.Tidy := by
  fun_induction Entries.insert? node key entries generalizing made with
  | case1 => cases done
  | case2 =>
      cases done
      exact tidy.put good
  | case3 name key entries _ _ ih =>
      obtain ⟨inner, insideDone, same⟩ := Option.bind_eq_some_iff.mp done
      cases same
      exact tidy.put (ih tidy_nil insideDone).table
  | case4 name key entries _ inner found ih =>
      obtain ⟨changed, insideDone, same⟩ := Option.bind_eq_some_iff.mp done
      cases same
      exact tidy.put (ih (tidy_of_table (tidy.of_lookup found)) insideDone).table
  | case5 => cases done

end Entries

namespace Document

def Keeps {α : Type} (good : α → Prop) (action : Build α) : Prop :=
  ∀ document value after, document.entries.Tidy → action.run document = some (value, after) →
    after.entries.Tidy ∧ good value

section

variable {α β : Type} {good : α → Prop} {goal : β → Prop} {action : Build α} {next : α → Build β}

theorem keeps_pure {value : α} (holds : good value) : Keeps good (pure value : Build α) := by
  intro document _ after tidy done
  cases done
  exact ⟨tidy, holds⟩

theorem Keeps.bind (first : Keeps good action) (further : ∀ value, good value →
    Keeps goal (next value)) : Keeps goal (action >>= next) := by
  intro document result last tidy done
  rw [StateT.run_bind] at done
  obtain ⟨⟨value, after⟩, sooner, later⟩ := Option.bind_eq_some_iff.mp done
  obtain ⟨kept, holds⟩ := first document value after tidy sooner
  exact further value holds after result last kept later

theorem Keeps.discard (keeps : Keeps good action) : Keeps (fun _ => True) (discard action) :=
  keeps.bind fun _ _ => keeps_pure trivial

theorem keeps_get : Keeps (fun document => document.entries.Tidy) (get : Build Document) := by
  intro document value after tidy done
  cases done
  exact ⟨tidy, tidy⟩

theorem keeps_modify {change : Document → Document}
    (keeps : ∀ document : Document, document.entries.Tidy → (change document).entries.Tidy) :
    Keeps (fun _ => True) (modify change : Build Unit) := by
  intro document value after tidy done
  cases done
  exact ⟨keeps document tidy, trivial⟩

theorem keeps_lift {found : Option α} (holds : ∀ value, found = some value → good value) :
    Keeps good (liftM found : Build α) := by
  intro document value after tidy done
  cases found with
  | none => cases done
  | some here =>
      cases done
      exact ⟨tidy, holds _ rfl⟩

theorem keeps_failure : Keeps good (failure : Build α) := by
  intro document value after tidy done
  cases done

end

variable {context key : Key} {lastName : String} {node : Node}

theorem keeps_name : Keeps (fun _ => True) (name key) :=
  keeps_modify fun _ tidy => tidy

theorem keeps_addImplicit : Keeps (fun _ => True) (addImplicit key) :=
  keeps_modify fun _ tidy => tidy

theorem keeps_removeImplicit : Keeps (fun _ => True) (removeImplicit key) :=
  keeps_modify fun _ tidy => tidy

theorem keeps_setArray {isArray : Bool} :
    Keeps (fun _ => True) (setArray context lastName isArray) :=
  keeps_modify fun _ tidy => tidy

theorem keeps_put (good : node.Tidy) : Keeps (fun _ => True) (put context lastName node) :=
  keeps_modify fun _ tidy => tidy.change fun inside => inside.put good

theorem keeps_define (good : node.Tidy) : Keeps (fun _ => True) (define context lastName node) := by
  refine keeps_get.bind fun document _ => (keeps_lift fun _ _ => trivial).bind fun table _ => ?_
  dsimp only
  split
  · exact keeps_put good
  · split
    · refine keeps_removeImplicit.bind fun _ _ => ?_
      split
      · exact keeps_put good
      · exact keeps_pure trivial
    · exact keeps_failure

theorem keeps_openParents : Keeps (fun _ => True) (openParents context key) := by
  induction key generalizing context with
  | nil => exact keeps_pure trivial
  | cons name key ih =>
      refine keeps_get.bind fun document _ => (keeps_lift fun _ _ => trivial).bind fun table _ => ?_
      dsimp only
      split
      · exact keeps_addImplicit.bind fun _ _ =>
          (keeps_put Entries.tidy_nil.table).bind fun _ _ => ih
      · exact ih

theorem keeps_openTable : Keeps (fun _ => True) (openTable key) :=
  keeps_openParents.bind fun _ _ => keeps_define Entries.tidy_nil.table

theorem keeps_openElement : Keeps (fun _ => True) (openElement key) := by
  refine keeps_openParents.bind fun _ _ => keeps_get.bind fun document _ =>
    (keeps_lift fun _ _ => trivial).bind fun table _ => ?_
  split
  · exact keeps_put Entries.tidy_nil.tables
  · exact keeps_put Entries.tidy_nil.tables
  · exact keeps_failure

theorem keeps_openDotted : Keeps (fun _ => True) (openDotted context key) := by
  fun_induction openDotted context key with
  | case1 | case2 => exact keeps_pure trivial
  | case3 _ _ _ _ ih =>
      exact keeps_addImplicit.bind fun _ _ => keeps_openTable.bind fun _ _ => ih

theorem keeps_assign {value : Key → String → Build Node}
    (good : ∀ context name, Keeps Node.Tidy (value context name)) :
    Keeps Node.Tidy (assign context key value) := by
  refine keeps_openDotted.bind fun around _ => keeps_name.bind fun _ _ =>
    (good around _).bind fun node tidy => (keeps_define tidy).bind fun _ _ =>
      keeps_setArray.bind fun _ _ => keeps_pure tidy

mutual

theorem keeps_evaluate (inArray : Bool) : ∀ (context : Key) (name : String)
    (expression : Expression), Keeps Node.Tidy (evaluate context name inArray expression)
  | context, name, .string text => by
      rw [evaluate]
      exact keeps_pure (.string text)
  | context, name, .integer number => by
      rw [evaluate]
      exact keeps_pure (.integer number)
  | context, name, .boolean value => by
      rw [evaluate]
      exact keeps_pure (.boolean value)
  | context, name, .scalar => by
      rw [evaluate]
      exact keeps_pure .scalar
  | context, name, .array elements => by
      rw [evaluate]
      exact keeps_setArray.bind fun _ _ =>
        (keeps_evaluateElements context name elements).bind fun _ _ => keeps_pure .array
  | context, name, .table entries => by
      rw [evaluate]
      refine keeps_addImplicit.bind fun _ _ => ?_
      have filled := (keeps_evaluateEntries (context ++ [name]) entries [] Entries.tidy_nil).bind
        fun entries tidy => keeps_pure tidy.table
      split
      · exact keeps_openElement.bind fun _ _ => filled
      · exact keeps_openTable.bind fun _ _ => filled

theorem keeps_evaluateElements (context : Key) (name : String) : ∀ elements : List Expression,
    Keeps (fun _ => True) (evaluateElements context name elements)
  | [] => by
      rw [evaluateElements]
      exact keeps_pure trivial
  | element :: rest => by
      rw [evaluateElements]
      exact (keeps_evaluate true context name element).discard.bind fun _ _ =>
        keeps_evaluateElements context name rest

theorem keeps_evaluateEntries (context : Key) : ∀ (assigned : List (Key × Expression))
    (entries : Entries), entries.Tidy →
    Keeps Entries.Tidy (evaluateEntries context assigned entries)
  | [], entries, tidy => by
      rw [evaluateEntries]
      exact keeps_pure tidy
  | (key, expression) :: rest, entries, tidy => by
      rw [evaluateEntries]
      refine (keeps_assign fun context name => keeps_evaluate false context name expression).bind
        fun node good => ?_
      refine (keeps_lift fun made done => tidy.insert? good done).bind fun made better => ?_
      exact keeps_evaluateEntries context rest made better

end

theorem keeps_carryOut (statements : List Statement) :
    Keeps (fun _ => True) (carryOut context statements) := by
  induction statements generalizing context with
  | nil => exact keeps_pure trivial
  | cons statement rest ih =>
      cases statement with
      | heading key =>
          exact keeps_openTable.bind fun _ _ => keeps_setArray.bind fun _ _ =>
            keeps_name.bind fun _ _ => ih
      | arrayHeading key =>
          exact keeps_openElement.bind fun _ _ => keeps_setArray.bind fun _ _ =>
            keeps_name.bind fun _ _ => ih
      | assignment key expression =>
          exact (keeps_assign fun context name =>
            keeps_evaluate false context name expression).discard.bind fun _ _ => ih

/-- A document that can be read names nothing twice in one table. -/
theorem tidy_of_parse? {bytes : Text.Bytes} {document : Document}
    (read : parse? bytes = some document) : document.entries.Tidy := by
  obtain ⟨statements, _, made⟩ := Option.bind_eq_some_iff.mp read
  obtain ⟨⟨_, after⟩, done, rfl⟩ := Option.map_eq_some_iff.mp made
  exact (keeps_carryOut statements {} _ _ Entries.tidy_nil done).1

theorem find?_eq_some_iff {document : Document} (tidy : document.entries.Tidy)
    {sectionName name : String} {node : Node} :
    document.find? [sectionName, name] = some node ↔
      ∃ entries, (sectionName, .table entries) ∈ document.entries ∧ (name, node) ∈ entries := by
  simp only [find?, Entries.find?]
  constructor
  · intro found
    split at found
    · rename_i entries here
      exact ⟨entries, Entries.mem_of_lookup here, Entries.mem_of_lookup found⟩
    · cases found
  · rintro ⟨entries, member, within⟩
    rw [tidy.lookup_of_mem member]
    exact (Entries.tidy_of_table (tidy.inner _ member)).lookup_of_mem within

end Document

end SecdMachine.Toml
