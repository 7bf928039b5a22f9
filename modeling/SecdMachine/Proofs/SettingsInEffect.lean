import SecdMachine.Proofs.Documents
import SecdMachine.SettingsFile

/-!
Which values the settings of a file have. Three things are assumed of the decoder, and proved of the
one in use where they concern it: it ignores the case of keys, it reports those that match nothing,
and it heeds the case of keys when asked whether one is defined. Defaults are filled in by three
different tests, since a compiler and a width are missing if they are empty or zero, three other
settings are missing unless the document has their keys in lower case, and the rest are never
missing.
-/

namespace SecdMachine

inductive Setting where
  | text (text : String)
  | number (number : Int)
  | flag (value : Bool)
  deriving DecidableEq, Repr

def Toml.Node.setting? : Toml.Node → Option Setting
  | string text => some (.text text)
  | integer number => some (.number number.toInt)
  | boolean value => some (.flag value)
  | _ => none

namespace Settings

structure Contents where
  named : List Toml.Key
  holds : Toml.Key → Bool
  value? : Toml.Key → Option Setting
  holds_of_value? : ∀ key value, value? key = some value → holds key = true

namespace Field

def get (settings : Settings) : Field → Setting
  | compiler => .text settings.compiler
  | width => .number settings.width
  | blankNil => .flag settings.blankNil
  | prompt => .text settings.prompt
  | history => .text settings.history
  | trace => .flag settings.trace
  | maxSteps => .number settings.maxSteps
  | verbosity => .number settings.verbosity
  | logFile => .text settings.logFile

def default (field : Field) : Setting :=
  field.get (ofDirectory "")

/-- The value that a setting takes when it is given one: an empty compiler and a width of zero stand
for the default. -/
def inForce (field : Field) (value : Setting) : Setting :=
  if field = compiler ∧ value = .text "" ∨ field = width ∧ value = .number 0 then field.default
  else value

def defaultsByKey : Field → Bool
  | blankNil => true
  | prompt => true
  | history => true
  | _ => false

section

variable (alike : String → String → Prop) (field : Field) (document : Contents)

def Names (key : Toml.Key) : Prop :=
  ∃ sectionName name, key = [sectionName, name] ∧ alike sectionName field.sectionName ∧
    alike name field.name

def Gives (value : Setting) : Prop :=
  ∃ key, field.Names alike key ∧ document.value? key = some value

/-- A document has a setting, and has it under the key in lower case where the default depends on
that. -/
def Counts : Prop :=
  (∃ key, field.Names alike key ∧ document.holds key = true) ∧
    (field.defaultsByKey = true → document.holds field.key = true)

end

def StandsIn (field : Field) (part entry : String × Toml.Node) : Prop :=
  (∃ entries, part.2 = .table entries ∧ entry ∈ entries) ∧ field? part.1 entry.1 = some field

end Field

def IsMatched (alike : String → String → Prop) (key : Toml.Key) : Prop :=
  (∃ field : Field, ∃ name, key = [name] ∧ alike name field.sectionName) ∨
    ∃ field : Field, field.Names alike key

namespace Decoded

variable (alike : String → String → Prop) (decoded : Decoded) (document : Contents)

/-- The decoder compares names without regard to the case of letters, and gives each setting a value
that the document has under a key that stands for it, if there is any such key. -/
structure IgnoresCase : Prop where
  sections : ∀ (field : Field) (name : String),
    name.toList.map Char.toLower = field.sectionName.toList → alike name field.sectionName
  names : ∀ (field : Field) (name : String),
    name.toList.map Char.toLower = field.name.toList → alike name field.name
  decodes : ∀ field : Field, field.Gives alike document (field.get decoded.settings) ∨
    (∀ key, field.Names alike key → document.holds key = false) ∧
      field.get decoded.settings = field.get {}

def ReportsUnmatched : Prop :=
  ∀ key, key ∈ decoded.undecoded ↔ key ∈ document.named ∧ ¬IsMatched alike key

def HeedsCase : Prop :=
  ∀ key, decoded.isDefined key = document.holds key

end Decoded

/-- The settings of a document are in effect: the keys that it names are those of sections and
settings, every setting that counts has a value that the document gives it, every other one its
default, and three values are within their bounds. -/
structure InEffect (alike : String → String → Prop) (settings : Settings) (document : Contents) :
    Prop where
  known : ∀ key ∈ document.named, IsMatched alike key
  counted : ∀ field : Field, field.Counts alike document →
    ∃ value, field.Gives alike document value ∧ field.get settings = field.inForce value
  ignored : ∀ field : Field, ¬ field.Counts alike document → field.get settings = field.default
  width : 0 < settings.width
  limit : 0 ≤ settings.maxSteps
  compiler : settings.compiler ≠ ""

variable {settings later : Settings} {field other : Field} {sectionName name lower : String}
  {node : Toml.Node} {entries : Toml.Entries} {document : Toml.Document}

theorem isNamed_unique {also : String} (named : isNamed name lower = true)
    (alsoNamed : isNamed name also = true) : lower = also := by
  rw [isNamed, decide_eq_true_eq] at named alsoNamed
  exact String.toList_inj.mp (named.symm.trans alsoNamed)

theorem Field.eq_of_names (sections : field.sectionName = other.sectionName)
    (names : field.name = other.name) : field = other := by
  revert sections names
  cases field <;> cases other <;> decide

theorem Field.mem_all (field : Field) : field ∈ Field.all := by
  cases field <;> decide

theorem field?_eq_some_iff : field? sectionName name = some field ↔
    isNamed sectionName field.sectionName = true ∧ isNamed name field.name = true := by
  constructor
  · intro found
    simpa using List.find?_some found
  · rintro ⟨inside, named⟩
    cases found : field? sectionName name with
    | none => simpa [inside, named] using List.find?_eq_none.mp found field field.mem_all
    | some other =>
        have both : isNamed sectionName other.sectionName = true ∧
            isNamed name other.name = true := by simpa using List.find?_some found
        rw [Field.eq_of_names (isNamed_unique inside both.1) (isNamed_unique named both.2)]

def Alike (name lower : String) : Prop :=
  isNamed name lower = true

theorem Field.names_iff {key : Toml.Key} : field.Names Alike key ↔
    ∃ sectionName name, key = [sectionName, name] ∧ field? sectionName name = some field := by
  simp only [Names, Alike, field?_eq_some_iff]

theorem isSection_of_field? (found : field? sectionName name = some field) :
    isSection sectionName = true :=
  List.any_eq_true.mpr ⟨field, field.mem_all, (field?_eq_some_iff.mp found).1⟩

theorem get_store? (stored : settings.store? field node = some later) :
    node.setting? = some (field.get later) ∧
      ∀ other, other ≠ field → other.get later = other.get settings := by
  cases field <;> cases node <;> cases stored <;>
    exact ⟨rfl, fun other distinct => by cases other <;> first | rfl | exact absurd rfl distinct⟩

/-- Going over items, a setting comes from an item that names it, or from before if none does. -/
theorem get_foldlM (field : Field) {α : Type} {step : Settings → α → Option Settings}
    (gives : α → Setting → Prop) (named : α → Prop)
    (each : ∀ {before item after}, step before item = some after →
      gives item (field.get after) ∨ ¬ named item ∧ field.get after = field.get before)
    {items : List α} (done : items.foldlM step settings = some later) :
    (∃ item ∈ items, gives item (field.get later)) ∨
      (∀ item ∈ items, ¬ named item) ∧ field.get later = field.get settings := by
  induction items generalizing settings with
  | nil =>
      cases done
      exact .inr ⟨by simp, rfl⟩
  | cons item items ih =>
      rw [List.foldlM_cons] at done
      obtain ⟨middle, first, rest⟩ := Option.bind_eq_some_iff.mp done
      rcases ih rest with ⟨giver, member, given⟩ | ⟨unnamed, same⟩
      · exact .inl ⟨giver, List.mem_cons_of_mem _ member, given⟩
      · -- No later item names the setting, so this one decides.
        rw [same]
        rcases each first with given | ⟨notHere, unchanged⟩
        · exact .inl ⟨item, List.mem_cons_self, given⟩
        · exact .inr ⟨List.forall_mem_cons.mpr ⟨notHere, unnamed⟩, unchanged⟩

theorem get_storeSection? (stored : storeSection? sectionName settings entries = some later) :
    (∃ entry ∈ entries, field? sectionName entry.1 = some field ∧
      entry.2.setting? = some (field.get later)) ∨
    (∀ entry ∈ entries, ¬ field? sectionName entry.1 = some field) ∧
      field.get later = field.get settings := by
  refine get_foldlM field
    (fun (entry : String × Toml.Node) value => field? sectionName entry.1 = some field ∧
      entry.2.setting? = some value)
    (fun entry => field? sectionName entry.1 = some field) ?_ stored
  intro before entry after done
  split at done
  · rename_i found here
    obtain ⟨given, others⟩ := get_store? done
    by_cases same : field = found
    · exact .inl ⟨here.trans (congrArg some same.symm), same ▸ given⟩
    · exact .inr ⟨fun also => same (Option.some.inj (also.symm.trans here)), others field same⟩
  · rename_i unknown
    cases done
    exact .inr ⟨by simp [unknown], rfl⟩

theorem exists_names_iff (tidy : document.entries.Tidy) :
    (∃ key, field.Names Alike key ∧ document.find? key = some node) ↔
      ∃ part ∈ document.entries, ∃ name, field.StandsIn part (name, node) := by
  constructor
  · rintro ⟨key, named, found⟩
    obtain ⟨sectionName, name, rfl, here⟩ := Field.names_iff.mp named
    obtain ⟨entries, member, inside⟩ := (Toml.Document.find?_eq_some_iff tidy).mp found
    exact ⟨_, member, name, ⟨entries, rfl, inside⟩, here⟩
  · rintro ⟨⟨sectionName, _⟩, member, name, ⟨entries, rfl, inside⟩, here⟩
    exact ⟨[sectionName, name], Field.names_iff.mpr ⟨_, _, rfl, here⟩,
      (Toml.Document.find?_eq_some_iff tidy).mpr ⟨entries, member, inside⟩⟩

def Contents.ofDocument (document : Toml.Document) : Contents where
  named := document.named.toList
  holds := fun key => (document.find? key).isSome
  value? := fun key => (document.find? key).bind Toml.Node.setting?
  holds_of_value? := by
    intro key value worth
    obtain ⟨node, found, _⟩ := Option.bind_eq_some_iff.mp worth
    rw [found]
    rfl

theorem get_decode? (field : Field) (tidy : document.entries.Tidy)
    (decoded : decode? document = some settings) :
    field.Gives Alike (.ofDocument document) (field.get settings) ∨
      (∀ key, field.Names Alike key → (Contents.ofDocument document).holds key = false) ∧
        field.get settings = field.get {} := by
  have run := get_foldlM field
    (fun part value => ∃ entry, field.StandsIn part entry ∧ entry.2.setting? = some value)
    (fun part => ∃ entry, field.StandsIn part entry) ?each decoded
  case each =>
    rintro before ⟨sectionName, node⟩ after done
    split at done
    · split at done
      · rename_i entries table
        rcases get_storeSection? done with ⟨entry, member, here, given⟩ | ⟨unnamed, same⟩
        · exact .inl ⟨entry, ⟨⟨entries, table, member⟩, here⟩, given⟩
        · refine .inr ⟨?_, same⟩
          rintro ⟨entry, ⟨others, alsoTable, member⟩, here⟩
          cases table.symm.trans alsoTable
          exact unnamed entry member here
      · cases done
    · -- What is passed over is no section, so no entry of it is one of a setting.
      rename_i noSection
      cases done
      refine .inr ⟨?_, rfl⟩
      rintro ⟨entry, _, here⟩
      exact noSection (isSection_of_field? here)
  rcases run with ⟨part, member, entry, inside, given⟩ | ⟨unnamed, same⟩
  · obtain ⟨key, named, found⟩ := (exists_names_iff tidy).mpr ⟨part, member, entry.1, inside⟩
    exact .inl ⟨key, named, by simp [Contents.ofDocument, found, given]⟩
  · refine .inr ⟨fun key named => ?_, same⟩
    by_contra present
    obtain ⟨node, found⟩ := Option.isSome_iff_exists.mp (Bool.not_eq_false _ ▸ present)
    obtain ⟨part, member, name, inside⟩ := (exists_names_iff tidy).mp ⟨key, named, found⟩
    exact unnamed part member ⟨(name, node), inside⟩

theorem get_blank (free : field.defaultsByKey = false) :
    field.inForce (field.get {}) = field.default := by
  cases field <;> first | rfl | cases free

/-- Of the settings whose default depends on the keys, those without their key get it. A default
is filled in for the others by their value alone. -/
theorem get_withDefaults (defined : Toml.Key → Bool) :
    field.get (settings.withDefaults defined) =
      if field.defaultsByKey = true ∧ defined field.key = false then field.default
      else field.inForce (field.get settings) := by
  cases field <;>
    simp [withDefaults, Field.get, Field.inForce, Field.default, Field.defaultsByKey, ofDirectory]
  all_goals grind

theorem get_directory (directory : String) :
    field.get { settings with directory := directory } = field.get settings := by
  cases field <;> rfl

theorem width_withDefaults_ne_zero (defined : Toml.Key → Bool) :
    (settings.withDefaults defined).width ≠ 0 := by
  change (if settings.width = 0 then (defaultWidth : Int) else settings.width) ≠ 0
  split
  · decide
  · assumption

theorem compiler_withDefaults_ne_empty (defined : Toml.Key → Bool) :
    (settings.withDefaults defined).compiler ≠ "" := by
  change (if settings.compiler.isEmpty then defaultCompiler else settings.compiler) ≠ ""
  split
  · decide
  · rename_i filled
    rintro empty
    exact filled (by rw [empty]; rfl)

section

variable {alike : String → String → Prop} {decoded : Decoded} {contents : Contents}

theorem Decoded.IgnoresCase.names_key (ignores : decoded.IgnoresCase alike contents)
    (field : Field) : field.Names alike field.key := by
  refine ⟨_, _, rfl, ignores.sections field _ ?_, ignores.names field _ ?_⟩ <;>
    cases field <;> decide

theorem get_filled (ignores : decoded.IgnoresCase alike contents)
    (heeds : decoded.HeedsCase contents) (directory : String) (field : Field) :
    let filled := { decoded.settings with directory := directory }.withDefaults decoded.isDefined
    (field.Counts alike contents →
      ∃ value, field.Gives alike contents value ∧ field.get filled = field.inForce value) ∧
    (¬ field.Counts alike contents → field.get filled = field.default) := by
  intro filled
  have same : field.get filled = if field.defaultsByKey = true ∧ contents.holds field.key = false
      then field.default else field.inForce (field.get decoded.settings) := by
    rw [get_withDefaults, get_directory, heeds]
  rw [same]
  rcases ignores.decodes field with given | ⟨absent, blank⟩
  · refine ⟨fun counts => ⟨_, given, if_neg ?_⟩, fun ignored => if_pos ?_⟩
    · rintro ⟨byKey, missing⟩
      simp [counts.2 byKey] at missing
    · obtain ⟨key, named, found⟩ := given
      by_contra filled
      exact ignored ⟨⟨key, named, contents.holds_of_value? _ _ found⟩,
        fun byKey => by simpa [byKey] using filled⟩
  · refine ⟨fun ⟨⟨key, named, found⟩, _⟩ => ?_, fun _ => ?_⟩
    · simp [absent key named] at found
    · have missing : contents.holds field.key = false := absent _ (ignores.names_key field)
      split
      · rfl
      · rename_i byValue
        rw [blank]
        exact get_blank (by simpa [missing] using byValue)

end

theorem alike_of_lower {name lower : String}
    (ascii : lower.toList.all fun char => char.toNat < 0x80)
    (same : name.toList.map Char.toLower = lower.toList) : Alike name lower := by
  rw [Alike, isNamed, decide_eq_true_eq, ← same]
  apply List.map_congr_left
  intro char member
  have low : char.toLower.toNat < 0x80 :=
    of_decide_eq_true (List.all_eq_true.mp ascii _ (same ▸ List.mem_map_of_mem member))
  have ordinary : ∀ other, 0x80 ≤ (Char.toLower other).toNat → char ≠ other := by
    rintro other high rfl
    omega
  rw [foldChar, if_neg (ordinary _ (by decide)), if_neg (ordinary _ (by decide))]

theorem ignoresCase_of_decode? {document : Toml.Document} {decoded : Decoded}
    (tidy : document.entries.Tidy) (given : decode? document = some decoded.settings) :
    decoded.IgnoresCase Alike (.ofDocument document) where
  sections := fun field _ => alike_of_lower (by cases field <;> decide)
  names := fun field _ => alike_of_lower (by cases field <;> decide)
  decodes := fun field => get_decode? field tidy given

theorem isMatched_iff {key : Toml.Key} : IsMatched Alike key ↔
    (match key with
      | [sectionName] => isSection sectionName
      | [sectionName, name] => (field? sectionName name).isSome
      | _ => false) = true := by
  match key with
  | [] => simp [IsMatched, Field.Names]
  | [sectionName] => simp [IsMatched, Field.Names, isSection, Alike, Field.mem_all]
  | [sectionName, name] =>
      simp only [IsMatched, Field.names_iff, Option.isSome_iff_exists]
      simp
  | _ :: _ :: _ :: _ => simp [IsMatched, Field.Names]

/-- The decoder in use does what is assumed of it, if each key that a document names has a value. -/
theorem assumed_of_parse? {content : Text.Bytes} {document : Toml.Document} {decoded : Decoded}
    (parsed : Toml.Document.parse? content = some document)
    (held : ∀ key ∈ document.named.toList, (document.find? key).isSome = true)
    (found : decoder content = some decoded) :
    decoded.IgnoresCase Alike (.ofDocument document) ∧
      decoded.ReportsUnmatched Alike (.ofDocument document) ∧
      decoded.HeedsCase (.ofDocument document) := by
  obtain ⟨also, alsoParsed, found⟩ := Option.bind_eq_some_iff.mp found
  cases parsed.symm.trans alsoParsed
  obtain ⟨settings, given, made⟩ := Option.bind_eq_some_iff.mp found
  cases made
  refine ⟨ignoresCase_of_decode? (Toml.Document.tidy_of_parse? parsed) given, ?_, fun _ => rfl⟩
  intro key
  rw [List.mem_filter]
  refine and_congr_right fun member => ?_
  rw [isKnown.eq_def, held key member, Bool.true_and, Bool.not_eq_true', ← Bool.not_eq_true,
    not_iff_not]
  exact isMatched_iff.symm

end Settings

namespace SettingsFile

variable {tree : FileTree} {path : String} {settings : Settings} {decoder : Settings.Decoder}
  {alike : String → String → Prop} {contents : Settings.Contents} {content : Text.Bytes}

theorem of_loadBy_eq_ok (loaded : loadBy decoder tree path = .ok settings) :
    ∃ content decoded, tree.read path = .ok content ∧ decoder content = some decoded ∧
      decoded.undecoded = [] ∧ 0 ≤ settings.width ∧ 0 ≤ settings.maxSteps ∧
      settings = Settings.withDefaults
        { decoded.settings with
          directory := PathName.absolute tree.current (PathName.directory path) }
        decoded.isDefined := by
  rw [loadBy] at loaded
  split at loaded
  · cases loaded
  rename_i content read
  split at loaded
  · cases loaded
  rename_i decoded found
  rw [check] at loaded
  split at loaded
  · cases loaded
  rename_i none
  dsimp only at loaded
  split at loaded
  · cases loaded
  split at loaded
  · cases loaded
  cases loaded
  rename_i width limit
  exact ⟨content, decoded, read, found, none, Int.not_lt.mp width, Int.not_lt.mp limit, rfl⟩

/-- Whatever the decoder, if it does what is assumed of it, every file that is accepted takes effect.
Each of its keys is that of a section or of a setting, in any case, and of a setting that counts, a
value that the file gives is in force: the only one unless the setting stands there in several
cases. -/
theorem loaded_settings_take_effect (read : tree.read path = .ok content)
    (ignoresCase : ∀ decoded, decoder content = some decoded → decoded.IgnoresCase alike contents)
    (reportsUnmatched : ∀ decoded, decoder content = some decoded →
      decoded.ReportsUnmatched alike contents)
    (heedsCase : ∀ decoded, decoder content = some decoded → decoded.HeedsCase contents)
    (loaded : loadBy decoder tree path = .ok settings) : settings.InEffect alike contents := by
  obtain ⟨also, decoded, alsoRead, found, none, width, limit, rfl⟩ := of_loadBy_eq_ok loaded
  cases read.symm.trans alsoRead
  have filled := Settings.get_filled (ignoresCase decoded found) (heedsCase decoded found)
    (PathName.absolute tree.current (PathName.directory path))
  exact {
    known := by
      intro key member
      by_contra unmatched
      have reported := (reportsUnmatched decoded found key).mpr ⟨member, unmatched⟩
      simp [none] at reported
    counted := fun field => (filled field).1
    ignored := fun field => (filled field).2
    width := Int.lt_iff_le_and_ne.mpr ⟨width, (Settings.width_withDefaults_ne_zero _).symm⟩
    limit := limit
    compiler := Settings.compiler_withDefaults_ne_empty _ }

def alone (text : String) : FileTree where
  nodes := [(["work"], .directory), (["work", fileName], .file (Text.encode text))]
  current := ["work"]

theorem exists_of_map {α : Type} {view : Settings → α} {seen : α}
    (shown : (load tree path).toOption.map view = some seen) :
    ∃ settings, load tree path = .ok settings ∧ view settings = seen := by
  cases loaded : load tree path with
  | error => simp [loaded, Except.toOption] at shown
  | ok settings =>
      rw [loaded] at shown
      exact ⟨settings, rfl, Option.some.inj shown⟩

def mixedText : String := "[Writer]\nWIDTH = 7\n\n[reader]\nprompt = \"\"\n"

theorem mixedText_takes_effect : ∃ settings document,
    load (alone mixedText) fileName = .ok settings ∧
    Toml.Document.parse? (Text.encode mixedText) = some document ∧
    settings.width = 7 ∧ settings.prompt = "" ∧
    settings.InEffect Settings.Alike (.ofDocument document) := by
  have accepted : (load (alone mixedText) fileName).toOption.map
      (fun settings => (settings.width, settings.prompt)) = some (7, "") := by decide +kernel
  obtain ⟨settings, loaded, seen⟩ := exists_of_map accepted
  obtain ⟨width, prompt⟩ := Prod.mk.inj seen
  have valued : (Toml.Document.parse? (Text.encode mixedText)).map (fun document =>
      document.named.toList.all fun key => (document.find? key).isSome) = some true := by
    decide +kernel
  obtain ⟨document, parsed, held⟩ := Option.map_eq_some_iff.mp valued
  rw [List.all_eq_true] at held
  have assumed := fun decoded => @Settings.assumed_of_parse? _ document decoded parsed held
  have read : (alone mixedText).read fileName = .ok (Text.encode mixedText) := by decide +kernel
  exact ⟨settings, document, loaded, parsed, width, prompt, loaded_settings_take_effect read
    (fun decoded found => (assumed decoded found).1)
    (fun decoded found => (assumed decoded found).2.1)
    (fun decoded found => (assumed decoded found).2.2) loaded⟩

def capitalText : String := "[writer]\nBlank-Nil = false\n"

theorem capitalText_is_overruled : ∃ settings document decoded,
    (alone capitalText).read fileName = .ok (Text.encode capitalText) ∧
    Toml.Document.parse? (Text.encode capitalText) = some document ∧
    Settings.decoder (Text.encode capitalText) = some decoded ∧
    decoded.IgnoresCase Settings.Alike (.ofDocument document) ∧
    decoded.ReportsUnmatched Settings.Alike (.ofDocument document) ∧
    decoded.HeedsCase (.ofDocument document) ∧
    load (alone capitalText) fileName = .ok settings ∧
    document.named = #[["writer"], ["writer", "Blank-Nil"]] ∧
    Settings.Field.blankNil.Gives Settings.Alike (.ofDocument document) (.flag false) ∧
    Settings.Field.blankNil.get settings = .flag true := by
  have accepted : (load (alone capitalText) fileName).toOption.map
      (fun settings => Settings.Field.blankNil.get settings) = some (.flag true) := by
    decide +kernel
  have valued : (Toml.Document.parse? (Text.encode capitalText)).map (fun document =>
      (document.named, (document.find? ["writer", "Blank-Nil"]).bind Toml.Node.setting?,
        document.named.toList.all fun key => (document.find? key).isSome)) =
      some (#[["writer"], ["writer", "Blank-Nil"]], some (.flag false), true) := by decide +kernel
  have decodes : (Settings.decoder (Text.encode capitalText)).isSome = true := by decide +kernel
  obtain ⟨settings, loaded, value⟩ := exists_of_map accepted
  obtain ⟨document, parsed, contents⟩ := Option.map_eq_some_iff.mp valued
  obtain ⟨named, rest⟩ := Prod.mk.inj contents
  obtain ⟨given, held⟩ := Prod.mk.inj rest
  rw [List.all_eq_true] at held
  obtain ⟨decoded, found⟩ := Option.isSome_iff_exists.mp decodes
  obtain ⟨ignores, reports, heeds⟩ := Settings.assumed_of_parse? parsed held found
  refine ⟨settings, document, decoded, ?_, parsed, found, ignores, reports, heeds, loaded,
    named, ?_, value⟩
  · decide +kernel
  · exact ⟨["writer", "Blank-Nil"], ⟨_, _, rfl, by unfold Settings.Alike; decide,
      by unfold Settings.Alike; decide⟩, given⟩

end SettingsFile

end SecdMachine
