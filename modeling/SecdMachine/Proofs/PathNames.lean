import Mathlib.Data.List.Basic
import Mathlib.Data.List.Induction
import SecdMachine.PathName

/-!
Names of directories from the root. A list of plain names is such a directory, and cleaning its path
gives it back; so paths can be put together and taken apart by their names.
-/

namespace SecdMachine.PathName

def Unslashed (name : String) : Prop :=
  '/' ∉ name.toList

structure Plain (name : String) : Prop where
  unslashed : Unslashed name
  nonempty : name ≠ ""
  noDot : name ≠ "."
  noDoubleDot : name ≠ ".."

theorem splitChars_ne_nil (text : List Char) : splitChars text ≠ [] := by
  cases text with
  | nil => simp [splitChars]
  | cons char rest =>
      rw [splitChars]
      split
      · simp
      · split <;> simp

theorem splitChars_of_unslashed {text : List Char} (unslashed : '/' ∉ text) :
    splitChars text = [text] := by
  induction text with
  | nil => rfl
  | cons char rest ih =>
      rw [List.mem_cons, not_or] at unslashed
      rw [splitChars, if_neg (Ne.symm unslashed.1), ih unslashed.2]

/-- A text may be cut at any slash. -/
theorem splitChars_append (left right : List Char) :
    splitChars (left ++ '/' :: right) = splitChars left ++ splitChars right := by
  induction left with
  | nil => rfl
  | cons char rest ih =>
      rw [List.cons_append, splitChars, splitChars, ih]
      split
      · rfl
      · obtain ⟨first, others, same⟩ := List.exists_cons_of_ne_nil (splitChars_ne_nil rest)
        rw [same]
        rfl

theorem unslashed_of_mem_splitChars {text component : List Char}
    (member : component ∈ splitChars text) : '/' ∉ component := by
  induction text generalizing component with
  | nil =>
      obtain rfl : component = [] := List.mem_singleton.mp member
      exact List.not_mem_nil
  | cons char rest ih =>
      obtain ⟨first, others, same⟩ := List.exists_cons_of_ne_nil (splitChars_ne_nil rest)
      rw [splitChars, same] at member
      rw [same] at ih
      split at member
      · rcases List.mem_cons.mp member with rfl | later
        · exact List.not_mem_nil
        · exact ih later
      · rename_i other
        rcases List.mem_cons.mp member with rfl | later
        · rw [List.mem_cons, not_or]
          exact ⟨Ne.symm other, ih List.mem_cons_self⟩
        · exact ih (List.mem_cons_of_mem _ later)

theorem unslashed_of_mem_components {path component : String}
    (member : component ∈ components path) : Unslashed component := by
  obtain ⟨chars, inside, rfl⟩ := List.mem_map.mp member
  rw [Unslashed, String.toList_ofList]
  exact unslashed_of_mem_splitChars inside

@[simp] theorem addComponent_empty (absolute : Bool) (reversed : List String) :
    addComponent absolute reversed "" = reversed := by
  simp [addComponent]

theorem plain_addComponent {reversed : List String} {component : String}
    (plain : ∀ name ∈ reversed, Plain name) (unslashed : Unslashed component) :
    ∀ name ∈ addComponent true reversed component, Plain name := by
  unfold addComponent
  split
  next => exact plain
  next named =>
    split
    next =>
      cases reversed with
      | nil => exact plain
      | cons last rest =>
          obtain ⟨lastPlain, restPlain⟩ := List.forall_mem_cons.mp plain
          simpa only [if_neg lastPlain.noDoubleDot] using restPlain
    next noDoubleDot =>
      simp only [Bool.or_eq_true, decide_eq_true_eq, not_or] at named
      exact List.forall_mem_cons.mpr ⟨⟨unslashed, named.1, named.2, noDoubleDot⟩, plain⟩

theorem plain_cleanComponents {names : List String} (unslashed : ∀ name ∈ names, Unslashed name) :
    ∀ name ∈ cleanComponents true names, Plain name := by
  have kept : ∀ reversed : List String, (∀ name ∈ reversed, Plain name) →
      ∀ name ∈ names.foldl (addComponent true) reversed, Plain name := by
    induction names with
    | nil => exact fun reversed plain => plain
    | cons first rest ih =>
        obtain ⟨here, later⟩ := List.forall_mem_cons.mp unslashed
        exact fun reversed plain => ih later _ (plain_addComponent plain here)
  intro name member
  exact kept [] (by simp) name (List.mem_reverse.mp member)

theorem addComponent_of_plain {absolute : Bool} {reversed : List String} {name : String}
    (plain : Plain name) : addComponent absolute reversed name = name :: reversed := by
  have named : ¬(name = "" || name = ".") = true := by
    simp [plain.nonempty, plain.noDot]
  unfold addComponent
  rw [if_neg named, if_neg plain.noDoubleDot]

theorem foldl_addComponent_of_plain {absolute : Bool} {names : List String}
    (plain : ∀ name ∈ names, Plain name) (reversed : List String) :
    names.foldl (addComponent absolute) reversed = names.reverse ++ reversed := by
  induction names generalizing reversed with
  | nil => rfl
  | cons first rest ih =>
      obtain ⟨here, later⟩ := List.forall_mem_cons.mp plain
      rw [List.foldl_cons, addComponent_of_plain here, ih later]
      simp

theorem cleanComponents_of_plain {absolute : Bool} {names : List String}
    (plain : ∀ name ∈ names, Plain name) : cleanComponents absolute names = names := by
  rw [cleanComponents, foldl_addComponent_of_plain plain]
  simp

theorem toList_ofAbsolute (names : List String) :
    (ofAbsolute names).toList =
      if names = [] then ['/'] else names.flatMap fun name => '/' :: name.toList := by
  cases names with
  | nil => rfl
  | cons first rest =>
      rw [if_neg (List.cons_ne_nil _ _), ofAbsolute]
      induction rest generalizing first with
      | nil => simp
      | cons next more ih =>
          have later := ih next
          simp only [String.toList_append] at later ⊢
          rw [List.flatMap_cons, ← later]
          simp [String.intercalate_cons_cons]

theorem splitChars_flatMap {names : List String} (unslashed : ∀ name ∈ names, Unslashed name) :
    splitChars (names.flatMap fun name => '/' :: name.toList) = [] :: names.map String.toList := by
  induction names using List.reverseRecOn with
  | nil => rfl
  | append_singleton before last ih =>
      rw [List.forall_mem_append, List.forall_mem_singleton] at unslashed
      rw [List.flatMap_append, List.flatMap_singleton, splitChars_append, ih unslashed.1,
        splitChars_of_unslashed unslashed.2, List.map_append]
      rfl

theorem foldl_components_ofAbsolute (absolute : Bool) {names : List String}
    (unslashed : ∀ name ∈ names, Unslashed name) :
    (components (ofAbsolute names)).foldl (addComponent absolute) [] =
      names.foldl (addComponent absolute) [] := by
  rw [components, toList_ofAbsolute]
  split
  next none =>
    subst none
    rfl
  next =>
    rw [splitChars_flatMap unslashed, List.map_cons, List.map_map]
    simp

theorem isAbsolute_ofAbsolute (names : List String) : isAbsolute (ofAbsolute names) = true := by
  simp [isAbsolute, ofAbsolute]

theorem cleanComponents_components_ofAbsolute {names : List String}
    (plain : ∀ name ∈ names, Plain name) :
    cleanComponents true (components (ofAbsolute names)) = names := by
  have same := foldl_components_ofAbsolute true fun name member => (plain name member).unslashed
  rw [cleanComponents, same, ← cleanComponents, cleanComponents_of_plain plain]

theorem ofAbsolute_injective {names others : List String} (plain : ∀ name ∈ names, Plain name)
    (alsoPlain : ∀ name ∈ others, Plain name) (same : ofAbsolute names = ofAbsolute others) :
    names = others := by
  rw [← cleanComponents_components_ofAbsolute plain, same,
    cleanComponents_components_ofAbsolute alsoPlain]

theorem join_ofAbsolute {names : List String} (unslashed : ∀ name ∈ names, Unslashed name)
    (path : String) :
    join (ofAbsolute names) path =
      ofAbsolute (cleanComponents true (names ++ components path)) := by
  have nonempty : (ofAbsolute names).isEmpty = false := by
    simp [ofAbsolute]
  have absolute : isAbsolute (ofAbsolute names ++ "/" ++ path) = true := by
    simp [isAbsolute, ofAbsolute]
  have split : components (ofAbsolute names ++ "/" ++ path) =
      components (ofAbsolute names) ++ components path := by
    have chars : (ofAbsolute names ++ "/" ++ path).toList =
        (ofAbsolute names).toList ++ '/' :: path.toList := by simp
    rw [components, chars, splitChars_append, List.map_append]
    rfl
  rw [join, nonempty, if_neg (by simp), clean, absolute, if_pos rfl, split, cleanComponents,
    List.foldl_append, foldl_components_ofAbsolute true unslashed, ← List.foldl_append,
    ← cleanComponents]

theorem join_ofAbsolute_of_plain {names : List String} {file : String}
    (plain : ∀ name ∈ names, Plain name) (filePlain : Plain file) :
    join (ofAbsolute names) file = ofAbsolute (names ++ [file]) := by
  have alone : components file = [file] := by
    rw [components, splitChars_of_unslashed filePlain.unslashed]
    simp
  rw [join_ofAbsolute fun name member => (plain name member).unslashed, alone,
    cleanComponents_of_plain]
  rw [List.forall_mem_append, List.forall_mem_singleton]
  exact ⟨plain, filePlain⟩

/-- The root holds itself, and the directory that holds any other place has one name less. -/
theorem directory_ofAbsolute {names : List String} (plain : ∀ name ∈ names, Plain name) :
    directory (ofAbsolute names) = ofAbsolute names.dropLast := by
  obtain rfl | ⟨before, last, rfl⟩ := names.eq_nil_or_concat'
  · decide
  · rw [List.forall_mem_append, List.forall_mem_singleton] at plain
    have unslashed : ∀ char ∈ last.toList.reverse, (decide (char ≠ '/')) = true := by
      intro char member
      rw [decide_eq_true_eq]
      rintro rfl
      exact plain.2.unslashed (List.mem_reverse.mp member)
    have upTo : ((ofAbsolute (before ++ [last])).toList.reverse.dropWhile (· ≠ '/')).reverse =
        (before.flatMap fun name => '/' :: name.toList) ++ ['/'] := by
      rw [toList_ofAbsolute, if_neg (by simp), List.flatMap_append, List.flatMap_singleton,
        List.reverse_append, List.reverse_cons, List.append_assoc,
        List.dropWhile_append_of_pos unslashed]
      simp
    have absolute : isAbsolute (String.ofList
        ((before.flatMap fun name => '/' :: name.toList) ++ ['/'])) = true := by
      cases before <;> simp [isAbsolute]
    have split : components (String.ofList
        ((before.flatMap fun name => '/' :: name.toList) ++ ['/'])) = "" :: (before ++ [""]) := by
      rw [components, String.toList_ofList, splitChars_append,
        splitChars_flatMap fun name member => (plain.1 name member).unslashed]
      simp [splitChars]
    have cleaned : cleanComponents true ("" :: (before ++ [""])) = before := by
      simp [cleanComponents, List.foldl_append, foldl_addComponent_of_plain plain.1]
    rw [directory, upTo, List.dropLast_concat, clean, absolute, if_pos rfl, split, cleaned]

variable {current : List String}

theorem plain_absoluteComponents (unslashed : ∀ name ∈ current, Unslashed name) (path : String) :
    ∀ name ∈ absoluteComponents current path, Plain name := by
  apply plain_cleanComponents
  split
  · exact fun name => unslashed_of_mem_components
  · rw [List.forall_mem_append]
    exact ⟨unslashed, fun name => unslashed_of_mem_components⟩

theorem absolute_ofAbsolute {names : List String} (plain : ∀ name ∈ names, Plain name) :
    absolute current (ofAbsolute names) = ofAbsolute names := by
  rw [absolute, absoluteComponents, isAbsolute_ofAbsolute, if_pos rfl,
    cleanComponents_components_ofAbsolute plain]

/-- A path from the root is cleaned, and any other is put below the current directory. -/
theorem absolute_eq (unslashed : ∀ name ∈ current, Unslashed name) (path : String) :
    absolute current path =
      if isAbsolute path then clean path else join (ofAbsolute current) path := by
  rw [absolute, absoluteComponents, join_ofAbsolute unslashed, clean]
  by_cases rooted : isAbsolute path = true
  · simp only [rooted, if_true]
  · simp only [rooted, Bool.false_eq_true, if_false]

end SecdMachine.PathName
