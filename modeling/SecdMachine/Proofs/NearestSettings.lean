import Mathlib.Data.List.Infix
import SecdMachine.Proofs.PathNames
import SecdMachine.Proofs.SettingsInEffect

/-!
Which settings file counts. The search goes from a directory to the one that holds it, until it
comes to a settings file or to the root, which holds itself. It passes through the directories
around its start and no others, so the nearest file counts, whether or not it can be used.
-/

namespace SecdMachine

def FileTree.Rooted (tree : FileTree) : Prop :=
  ∀ name ∈ tree.current, PathName.Unslashed name

theorem FileTree.rooted_of_current_eq {tree : FileTree} {path : String}
    (current : tree.current = PathName.absoluteComponents [] path) : tree.Rooted := by
  intro name member
  rw [current] at member
  exact (PathName.plain_absoluteComponents (by simp) path name member).unslashed

namespace SettingsFile

open PathName

def Holds (tree : FileTree) (directory : String) : Prop :=
  tree.exists? (join directory fileName) = true

def around (names : List String) : List String :=
  names.inits.reverse.map ofAbsolute

/-- A search from a directory upwards and what it comes to. It ends at a directory that holds a
settings file, or that is held by no other one. -/
inductive Climbs (tree : FileTree) : String → Except SettingsError (Option Settings) → Prop
  | found {directory : String} (holds : Holds tree directory) :
      Climbs tree directory ((loadFrom tree directory).map some)
  | top {directory : String} (lacks : ¬Holds tree directory)
      (fixed : PathName.directory directory = directory) : Climbs tree directory (.ok none)
  | up {directory : String} {outcome : Except SettingsError (Option Settings)}
      (lacks : ¬Holds tree directory) (moves : PathName.directory directory ≠ directory)
      (further : Climbs tree (PathName.directory directory) outcome) :
      Climbs tree directory outcome

variable {tree : FileTree} {start directory : String} {names : List String}

theorem Climbs.unique {outcome other : Except SettingsError (Option Settings)}
    (climbs : Climbs tree directory outcome) (also : Climbs tree directory other) :
    outcome = other := by
  induction climbs with
  | found holds =>
      cases also with
      | found => rfl
      | top lacks => exact absurd holds lacks
      | up lacks => exact absurd holds lacks
  | top lacks fixed =>
      cases also with
      | found holds => exact absurd holds lacks
      | top => rfl
      | up _ moves => exact absurd fixed moves
  | up lacks moves _ ih =>
      cases also with
      | found holds => exact absurd holds lacks
      | top _ fixed => exact absurd fixed moves
      | up _ _ further => exact ih further

def holder? (tree : FileTree) (names : List String) : Option String :=
  (around names).find? fun directory => tree.exists? (join directory fileName)

def readIn (tree : FileTree) : Option String → Except SettingsError (Option Settings)
  | some directory => (loadFrom tree directory).map some
  | none => .ok none

theorem readIn_eq_ok_none_iff {place : Option String} :
    readIn tree place = .ok none ↔ place = none := by
  cases place with
  | none => simp [readIn]
  | some directory => cases loaded : loadFrom tree directory <;> simp [readIn, loaded, Except.map]

theorem readIn_some_eq_ok_some_iff {settings : Settings} :
    readIn tree (some directory) = .ok (some settings) ↔
      loadFrom tree directory = .ok settings := by
  cases loaded : loadFrom tree directory <;> simp [readIn, loaded, Except.map]

theorem mem_around :
    directory ∈ around names ↔ ∃ outer, outer <+: names ∧ ofAbsolute outer = directory := by
  simp [around]

theorem holder?_nil : holder? tree [] =
    if tree.exists? (join (ofAbsolute []) fileName) then some (ofAbsolute []) else none :=
  List.find?_singleton

theorem holder?_concat (names : List String) (last : String) : holder? tree (names ++ [last]) =
    if tree.exists? (join (ofAbsolute (names ++ [last])) fileName) then
      some (ofAbsolute (names ++ [last]))
    else holder? tree names := by
  have parts : around (names ++ [last]) = ofAbsolute (names ++ [last]) :: around names := by
    simp [around, List.inits_append]
  rw [holder?, parts, List.find?_cons]
  split <;> simp_all [holder?]

theorem nearest?_eq (tree : FileTree) (reversed : List String) :
    nearest? tree reversed =
      (holder? tree reversed.reverse).map fun directory => join directory fileName := by
  induction reversed with
  | nil =>
      rw [nearest?, List.reverse_nil, holder?_nil, pathIn, List.reverse_nil]
      split <;> rfl
  | cons name rest ih =>
      rw [nearest?, ih, pathIn, List.reverse_cons, holder?_concat]
      split <;> rfl

theorem find_eq (tree : FileTree) (start : String) :
    find tree start = readIn tree (holder? tree (absoluteComponents tree.current start)) := by
  rw [find, nearest?_eq, List.reverse_reverse]
  cases holder? tree (absoluteComponents tree.current start) <;> rfl

/-- Each directory is left for the one that holds it, so the search passes through those around its
start. -/
theorem climbs_around (plain : ∀ name ∈ names, Plain name) :
    Climbs tree (ofAbsolute names) (readIn tree (holder? tree names)) := by
  induction names using List.reverseRecOn with
  | nil =>
      rw [holder?_nil]
      split
      next holds => exact .found holds
      next lacks => exact .top lacks (by decide)
  | append_singleton before last ih =>
      have held := directory_ofAbsolute plain
      rw [List.dropLast_concat] at held
      have below := (List.forall_mem_append.mp plain).1
      rw [holder?_concat]
      split
      next holds => exact .found holds
      next lacks =>
        refine .up lacks ?_ (held ▸ ih below)
        rw [held]
        intro same
        simpa using ofAbsolute_injective below plain same

theorem plain_fileName : Plain fileName where
  unslashed := by
    unfold Unslashed
    decide
  nonempty := by decide
  noDot := by decide
  noDoubleDot := by decide

theorem directory_of_loadFrom (plain : ∀ name ∈ names, Plain name) {settings : Settings}
    (loaded : loadFrom tree (ofAbsolute names) = .ok settings) :
    settings.directory = ofAbsolute names := by
  obtain ⟨_, _, _, _, _, _, _, rfl⟩ := of_loadBy_eq_ok loaded
  have within : ∀ name ∈ names ++ [fileName], Plain name := by
    rw [List.forall_mem_append, List.forall_mem_singleton]
    exact ⟨plain, plain_fileName⟩
  show absolute tree.current (PathName.directory (join (ofAbsolute names) fileName)) = _
  rw [join_ofAbsolute_of_plain plain plain_fileName, directory_ofAbsolute within,
    List.dropLast_concat, absolute_ofAbsolute plain]

theorem directory_of_readIn (plain : ∀ name ∈ names, Plain name) (member : directory ∈ around names)
    {settings : Settings} (found : readIn tree (some directory) = .ok (some settings)) :
    settings.directory = directory := by
  obtain ⟨outer, above, rfl⟩ := mem_around.mp member
  have outerPlain : ∀ name ∈ outer, Plain name := fun name here => plain name (above.subset here)
  exact directory_of_loadFrom outerPlain (readIn_some_eq_ok_some_iff.mp found)

/-- The search ends, from every directory, with the settings of the nearest file: the one in the
innermost of the directories around the start that hold one, even if that one cannot be used. The
settings remember that directory, and only if none of them holds a file there are no settings. -/
theorem nearest_file_counts (tree : FileTree) (start : String) (rooted : tree.Rooted) :
    let names := absoluteComponents tree.current start
    (∀ name ∈ names, Plain name) ∧
    ofAbsolute names =
      (if isAbsolute start then clean start else join (ofAbsolute tree.current) start) ∧
    (∀ outcome, Climbs tree (ofAbsolute names) outcome ↔ outcome = find tree start) ∧
    (find tree start = .ok none ↔ ∀ directory ∈ around names, ¬Holds tree directory) ∧
    ∀ inner directory outer, around names = inner ++ directory :: outer →
      (∀ closer ∈ inner, ¬Holds tree closer) → Holds tree directory →
        find tree start = (loadFrom tree directory).map some ∧
        ∀ settings, find tree start = .ok (some settings) → settings.directory = directory := by
  intro names
  have plain : ∀ name ∈ names, Plain name := plain_absoluteComponents rooted start
  have ends := find_eq tree start
  have climbs : Climbs tree (ofAbsolute names) (find tree start) := ends ▸ climbs_around plain
  refine ⟨plain, absolute_eq rooted start, fun outcome => ?_, ?_, ?_⟩
  · constructor
    · exact fun also => also.unique climbs
    · rintro rfl
      exact climbs
  · rw [ends, readIn_eq_ok_none_iff, holder?, List.find?_eq_none]
    rfl
  · intro inner directory outer split nearer holds
    have first : holder? tree names = some directory := by
      rw [holder?, List.find?_eq_some_iff_append]
      exact ⟨holds, inner, outer, split, by simpa [Holds] using nearer⟩
    rw [first] at ends
    have member : directory ∈ around names := by simp [split]
    exact ⟨ends, fun settings found => directory_of_readIn plain member (ends.symm.trans found)⟩

def nested : FileTree where
  nodes := [(["work"], .directory),
    (["work", fileName], .file (Text.encode "[log]\nverbosity = 1\n")),
    (["work", "inner"], .directory), (["work", "inner", fileName], .file (Text.encode "[log"))]
  current := absoluteComponents [] "/work/inner"

theorem innermost_of_nested_counts :
    nested.Rooted ∧ find nested "a/../b/./c" = .error (.invalid "/work/inner/lispkit.toml") ∧
    ∃ settings, find nested ".." = .ok (some settings) ∧ settings.directory = "/work" := by
  have rooted : nested.Rooted := FileTree.rooted_of_current_eq rfl
  obtain ⟨_, _, _, _, below⟩ := nearest_file_counts nested "a/../b/./c" rooted
  obtain ⟨_, _, _, _, above⟩ := nearest_file_counts nested ".." rooted
  have inner := (below ["/work/inner/b/c", "/work/inner/b"] "/work/inner" ["/work", "/"]
    (by decide +kernel) (by unfold Holds; decide +kernel) (by unfold Holds; decide +kernel)).1
  obtain ⟨outer, remembers⟩ := above [] "/work" ["/"] (by decide +kernel) (by simp)
    (by unfold Holds; decide +kernel)
  have usable : (loadFrom nested "/work").toOption.isSome = true := by decide +kernel
  refine ⟨rooted, inner.trans (by decide +kernel), ?_⟩
  cases loaded : loadFrom nested "/work" with
  | error problem => simp [loaded, Except.toOption] at usable
  | ok settings =>
      rw [loaded] at outer
      exact ⟨settings, outer, remembers settings outer⟩

end SettingsFile

end SecdMachine
