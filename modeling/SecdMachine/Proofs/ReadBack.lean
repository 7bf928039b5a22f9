import SecdMachine.Proofs.Closing

/-!
Reading back whatever has been read. A reader makes symbols of stray dots and parentheses too, and
splices a list that follows a dot into the list before it. A dot that led the spliced list then
stands between elements, where it is printed like the dot before a tail; every other value that can
be read is read back from its printed form.
-/

namespace SecdMachine

namespace Token

def Formed : Token → Prop
  | numeric text => ∃ first digits, text = first :: digits ∧ startsNumber first = true ∧
      ∀ char ∈ digits, Text.isDigit char = true
  | word text => ∃ first more, text = first :: more ∧ Text.isLetter first = true ∧
      ∀ char ∈ more, continuesWord char = true
  | delimiter char => Text.isBlank char = false ∧ startsNumber char = false ∧
      Text.isLetter char = false

theorem formed_of_mem {text : List Char} {token : Token} (member : token ∈ tokens text) :
    token.Formed := by
  -- A token takes any number of characters, so the induction is on the length of the text.
  induction bound : text.length using Nat.strongRecOn generalizing text with
  | ind length ih =>
      cases text with
      | nil => simp [tokens, tokensAfter] at member
      | cons char rest =>
          have later : ∀ used, token ∈ tokens (rest.drop used) → token.Formed := by
            intro used inside
            refine ih _ ?_ inside rfl
            simp only [List.length_cons, List.length_drop] at *
            omega
          rw [tokens_cons] at member
          split at member
          next => exact later 0 member
          next noBlank =>
            split at member
            next starts =>
              rcases List.mem_cons.mp member with rfl | inside
              · exact ⟨char, _, rfl, starts, fun _ => List.mem_takeWhile_imp⟩
              · exact later _ inside
            next noNumber =>
              split at member
              next letter =>
                rcases List.mem_cons.mp member with rfl | inside
                · exact ⟨char, _, rfl, letter, fun _ => List.mem_takeWhile_imp⟩
                · exact later _ inside
              next noLetter =>
                rcases List.mem_cons.mp member with rfl | inside
                · exact ⟨by simpa using noBlank, by simpa using noNumber, by simpa using noLetter⟩
                · exact later 0 inside

theorem Formed.tokens_chars {token : Token} (formed : token.Formed) :
    tokens token.chars = [token] := by
  cases token with
  | numeric text =>
      obtain ⟨first, digits, rfl, starts, continues⟩ := formed
      exact tokens_number starts continues
  | word text =>
      obtain ⟨first, more, rfl, letter, continues⟩ := formed
      exact tokens_word letter continues
  | delimiter char => exact tokens_delimiter formed.1 formed.2.1 formed.2.2

theorem Formed.solid {token : Token} (formed : token.Formed) :
    (Piece.word token.literal).Solid := by
  have solid : ∀ first rest, token.chars = first :: rest → Text.isBlank first = false →
      (∀ char ∈ rest, Text.isBlank char = false) → (Piece.word token.literal).Solid := by
    intro first rest chars noBlank others
    simp only [Piece.Solid, literal, chars, String.toList_ofList, List.forall_mem_cons]
    refine ⟨?_, noBlank, others⟩
    intro empty
    simpa using congrArg String.toList empty
  cases token with
  | numeric text =>
      obtain ⟨first, digits, rfl, starts, continues⟩ := formed
      exact solid first digits rfl (not_isBlank_of_startsNumber starts) fun char member =>
        Text.not_isBlank_of_isDigit (continues char member)
  | word text =>
      obtain ⟨first, more, rfl, letter, continues⟩ := formed
      refine solid first more rfl (Text.not_isBlank_of_isLetter letter) ?_
      intro char member
      have goesOn := continues char member
      simp only [continuesWord, Bool.or_eq_true] at goesOn
      rcases goesOn with letter | digit
      · exact Text.not_isBlank_of_isLetter letter
      · exact Text.not_isBlank_of_isDigit digit
  | delimiter char => exact solid char [] rfl formed.1 (by simp)

def Names (token : Token) (atom : Datum) : Prop :=
  (∃ number, atom = .integer number) ∨ atom = .symbol token.literal

theorem Formed.ne_symbol {token : Token} (formed : token.Formed) {char : Char}
    (alone : tokens [char] = [.delimiter char]) (other : token ≠ .delimiter char) {atom : Datum}
    (names : token.Names atom) : atom ≠ .symbol (String.ofList [char]) := by
  rintro rfl
  rcases names with ⟨number, same⟩ | same
  · cases same
  · have chars : [char] = token.chars := String.ofList_injective (Datum.symbol.inj same)
    have whole := formed.tokens_chars
    rw [← chars, alone] at whole
    exact other (List.singleton_inj.mp whole).symm

def Starts (token : Token) : Prop :=
  ∀ lists, ∃ next, Progress.begin lists token = .ok next

theorem begins_delimiter {char : Char} (other : char ≠ '(') :
    (delimiter char).Begins (.symbol (delimiter char).literal) := by
  intro lists
  simp [Progress.begin, other]

theorem starts_delimiter (char : Char) : (delimiter char).Starts := by
  intro lists
  by_cases opening : char = '('
  · subst opening
    exact ⟨_, rfl⟩
  · exact ⟨_, begins_delimiter opening lists⟩

def leadingDots : Bool → List Token → Nat
  | _, [] => 0
  | afterOpening, token :: rest =>
      (afterOpening && token = delimiter '.').toNat + leadingDots (token = delimiter '(') rest

theorem leadingDots_le {afterOpening other : Bool} (implies : afterOpening = true → other = true)
    (found : List Token) : leadingDots afterOpening found ≤ leadingDots other found := by
  cases found with
  | nil => exact Nat.le_refl _
  | cons token rest =>
      cases afterOpening with
      | false => simp [leadingDots]
      | true => rw [implies rfl]

end Token

namespace Progress

inductive Steps : Progress → Token → Progress → Prop
  | begins {progress next : Progress} {lists : List OpenList} {token : Token}
      (admits : progress.Admits lists token) (begun : begin lists token = .ok next) :
      Steps progress token next
  | empty (lists : List OpenList) :
      Steps (opened lists) (.delimiter ')') (finish Datum.nil lists)
  | closes (element : Datum) (reversed : List Datum) (lists : List OpenList) :
      Steps (holding element (.elements reversed) lists) (.delimiter ')')
        (finish (OpenList.close element (.elements reversed)) lists)
  | dot (element : Datum) (reversed : List Datum) (lists : List OpenList) :
      Steps (holding element (.elements reversed) lists) (.delimiter '.')
        (expecting (.tail (element :: reversed) :: lists))
  | ends (datum : Datum) (reversed : List Datum) (lists : List OpenList) (token : Token) :
      Steps (holding datum (.tail reversed) lists) token
        (finish (OpenList.close datum (.tail reversed)) lists)

theorem steps_of_consume {progress next : Progress} {token : Token}
    (unfinished : ∀ datum, progress ≠ complete datum)
    (consumed : progress.consume token = .ok next) : progress.Steps token next := by
  cases progress with
  | complete datum => exact absurd rfl (unfinished datum)
  | expecting lists => exact .begins (.expecting lists token) consumed
  | opened lists =>
      by_cases closing : token = .delimiter ')'
      · subst closing
        cases consumed
        exact .empty lists
      · rw [(Admits.opened lists closing).consume] at consumed
        exact .begins (.opened lists closing) consumed
  | holding datum list lists =>
      cases list with
      | tail reversed =>
          cases consumed
          exact .ends datum reversed lists token
      | elements reversed =>
          by_cases dot : token = .delimiter '.'
          · subst dot
            cases consumed
            exact .dot datum reversed lists
          · by_cases closing : token = .delimiter ')'
            · subst closing
              cases consumed
              exact .closes datum reversed lists
            · have admits := Admits.holding datum reversed lists closing dot
              rw [admits.consume] at consumed
              exact .begins admits consumed

theorem begin_inv {lists : List OpenList} {token : Token} {next : Progress}
    (begun : begin lists token = .ok next) :
    token = .delimiter '(' ∧ next = opened lists ∨
      ∃ atom, token.Begins atom ∧ token.Names atom ∧ next = finish atom lists := by
  cases token with
  | word text =>
      cases begun
      exact Or.inr ⟨_, fun _ => rfl, Or.inr rfl, rfl⟩
  | delimiter char =>
      by_cases opening : char = '('
      · subst opening
        cases begun
        exact Or.inl ⟨rfl, rfl⟩
      · have begins := Token.begins_delimiter opening
        rw [begins lists] at begun
        cases begun
        exact Or.inr ⟨_, begins, Or.inr rfl, rfl⟩
  | numeric text =>
      by_cases sign : text = ['-']
      · subst sign
        cases begun
        exact Or.inr ⟨_, fun _ => rfl, Or.inr rfl, rfl⟩
      · rw [begin_numeric sign] at begun
        split at begun
        next number read =>
          cases begun
          exact Or.inr ⟨_, Token.begins_numeric sign read, Or.inl ⟨number, rfl⟩, rfl⟩
        next => cases begun

end Progress

namespace Datum

def Element (datum : Datum) : Prop :=
  datum.Legible ∧ datum ≠ symbol ")"

theorem legible_of_formed {token : Token} (formed : token.Formed)
    (begins : token.Begins (symbol token.literal)) : (symbol token.literal).Legible := by
  refine ⟨formed.solid, token, ?_, begins⟩
  rw [Token.literal, String.toList_ofList]
  exact formed.tokens_chars

theorem legible_closing : (symbol ")").Legible :=
  @legible_of_formed (.delimiter ')') ⟨by decide, by decide, by decide⟩ fun _ => rfl

theorem element_nil : nil.Element := by
  have continues : ∀ char ∈ ['I', 'L'], Token.continuesWord char = true :=
    List.forall_mem_cons.mpr ⟨by decide, List.forall_mem_singleton.mpr (by decide)⟩
  refine ⟨@legible_of_formed (.word ['N', 'I', 'L']) ?_ fun _ => rfl, by decide⟩
  exact ⟨'N', ['I', 'L'], rfl, by decide, continues⟩

theorem ofReversed_ne_symbol {reversed : List Datum} (some : reversed ≠ []) (tail : Datum)
    (name : String) : ofReversed reversed tail ≠ symbol name := by
  induction reversed generalizing tail with
  | nil => exact absurd rfl some
  | cons element rest ih =>
      cases rest with
      | nil => simp [ofReversed]
      | cons => exact ih (by simp) (pair element tail)

theorem legible_ofReversed {reversed : List Datum} {tail : Datum}
    (elements : ∀ element ∈ reversed, element.Element) (legible : tail.Legible) :
    (ofReversed reversed tail).Legible := by
  induction reversed generalizing tail with
  | nil => exact legible
  | cons element rest ih =>
      obtain ⟨here, others⟩ := List.forall_mem_cons.mp elements
      exact ih others ⟨here.1, here.2, legible⟩

def dots : Datum → Nat
  | pair first second => (decide (first = symbol ".")).toNat + first.dots + second.dots
  | _ => 0

def elementDots (datum : Datum) : Nat :=
  (decide (datum = symbol ".")).toNat + datum.dots

theorem dots_pair (first second : Datum) :
    (pair first second).dots = first.elementDots + second.dots :=
  rfl

theorem dots_ofReversed (reversed : List Datum) (tail : Datum) :
    (ofReversed reversed tail).dots = tail.dots + (ofReversed reversed nil).dots := by
  induction reversed generalizing tail with
  | nil => rfl
  | cons element rest ih =>
      have step : ∀ tail, ofReversed (element :: rest) tail = ofReversed rest (pair element tail) :=
        fun _ => rfl
      rw [step, step, ih, ih (pair element nil), dots_pair, dots_pair]
      simp only [nil, dots]
      omega

end Datum

namespace OpenList

/-- The elements of an open list may be elements, and before a tail there is one. -/
def Sound : OpenList → Prop
  | elements reversed => ∀ element ∈ reversed, element.Element
  | tail reversed => reversed ≠ [] ∧ ∀ element ∈ reversed, element.Element

def Takes (datum : Datum) : OpenList → Prop
  | elements _ => datum.Element
  | tail _ => datum.Legible

variable {datum : Datum} {list : OpenList}

theorem Sound.close_ne_symbol (sound : list.Sound) (datum : Datum) (name : String) :
    list.close datum ≠ .symbol name := by
  cases list with
  | elements reversed => exact Datum.ofReversed_ne_symbol (by simp) Datum.nil name
  | tail reversed => exact Datum.ofReversed_ne_symbol sound.1 datum name

theorem Sound.close (sound : list.Sound) (takes : list.Takes datum) :
    (list.close datum).Element := by
  refine ⟨?_, sound.close_ne_symbol datum ")"⟩
  cases list with
  | elements reversed =>
      exact Datum.legible_ofReversed (List.forall_mem_cons.mpr ⟨takes, sound⟩) Datum.element_nil.1
  | tail reversed => exact Datum.legible_ofReversed sound.2 takes

theorem takes_of_element (element : datum.Element) (list : OpenList) : list.Takes datum := by
  cases list with
  | elements => exact element
  | tail => exact element.1

def share (datum : Datum) : OpenList → Nat
  | elements _ => datum.elementDots
  | tail _ => datum.dots

theorem dots_close (datum : Datum) (list : OpenList) :
    (list.close datum).dots = list.share datum + (list.close Datum.nil).dots := by
  cases list with
  | elements reversed =>
      have step : ∀ last, Datum.ofReversed (last :: reversed) Datum.nil =
          Datum.ofReversed reversed (.pair last Datum.nil) := fun _ => rfl
      simp only [OpenList.close, share, step]
      rw [Datum.dots_ofReversed, Datum.dots_ofReversed reversed (.pair Datum.nil Datum.nil)]
      simp [Datum.elementDots, Datum.nil, Datum.dots]
  | tail reversed => exact Datum.dots_ofReversed reversed datum

end OpenList

namespace Progress

def Joins (datum : Datum) (lists : List OpenList) : Prop :=
  datum.Legible ∧ ∀ list ∈ lists.head?, list.Takes datum

/-- What has been read is legible, and an expression is expected, where a closing parenthesis would
be one, only at the start and after a dot. -/
def Sound : Progress → Prop
  | expecting lists => (∀ list ∈ lists, list.Sound) ∧
      ∀ list ∈ lists.head?, ∃ reversed, list = .tail reversed
  | opened lists => ∀ list ∈ lists, list.Sound
  | holding datum list lists => list.Takes datum ∧ list.Sound ∧ ∀ list ∈ lists, list.Sound
  | complete datum => datum.Legible

variable {progress next : Progress} {lists : List OpenList} {token : Token} {datum atom : Datum}

theorem joins_of_element (element : datum.Element) (lists : List OpenList) : Joins datum lists :=
  ⟨element.1, fun list _ => list.takes_of_element element⟩

theorem sound_finish (sound : ∀ list ∈ lists, list.Sound) (joins : Joins datum lists) :
    (finish datum lists).Sound := by
  cases lists with
  | nil => exact joins.1
  | cons list rest =>
      obtain ⟨here, others⟩ := List.forall_mem_cons.mp sound
      exact ⟨joins.2 list rfl, here, others⟩

theorem legible_closeAll (sound : ∀ list ∈ lists, list.Sound) (joins : Joins datum lists) :
    (closeAll datum lists).Legible := by
  induction lists generalizing datum with
  | nil => exact joins.1
  | cons list rest ih =>
      obtain ⟨here, others⟩ := List.forall_mem_cons.mp sound
      exact ih others (joins_of_element (here.close (joins.2 list rfl)) rest)

theorem Sound.legible_atEnd (sound : progress.Sound) : progress.atEnd.Legible := by
  cases progress with
  | expecting lists =>
      refine legible_closeAll sound.1 ⟨Datum.legible_closing, ?_⟩
      intro list head
      obtain ⟨reversed, rfl⟩ := sound.2 list head
      exact Datum.legible_closing
  | opened lists => exact legible_closeAll sound (joins_of_element Datum.element_nil lists)
  | holding datum list lists =>
      obtain ⟨takes, here, others⟩ := sound
      have closed : (closeAll (list.close datum) lists).Legible :=
        legible_closeAll others (joins_of_element (here.close takes) lists)
      exact closed
  | complete datum => exact sound

theorem legible_of_names (formed : token.Formed) (begins : token.Begins atom)
    (names : token.Names atom) : atom.Legible := by
  rcases names with ⟨number, rfl⟩ | rfl
  · trivial
  · exact Datum.legible_of_formed formed begins

theorem Admits.sound (admits : progress.Admits lists token) (sound : progress.Sound) :
    ∀ list ∈ lists, list.Sound := by
  cases admits with
  | expecting => exact sound.1
  | opened => exact List.forall_mem_cons.mpr ⟨by simp [OpenList.Sound], sound⟩
  | holding =>
      obtain ⟨takes, here, others⟩ := sound
      exact List.forall_mem_cons.mpr ⟨List.forall_mem_cons.mpr ⟨takes, here⟩, others⟩

theorem Admits.joins (admits : progress.Admits lists token) (sound : progress.Sound)
    (formed : token.Formed) (begins : token.Begins atom) (names : token.Names atom) :
    Joins atom lists := by
  have legible := legible_of_names formed begins names
  have element : token ≠ .delimiter ')' → atom.Element :=
    fun notClosing => ⟨legible, formed.ne_symbol (by decide) notClosing names⟩
  cases admits with
  | expecting =>
      refine ⟨legible, fun list head => ?_⟩
      obtain ⟨reversed, rfl⟩ := sound.2 list head
      exact legible
  | opened _ notClosing => exact joins_of_element (element notClosing) _
  | holding _ _ _ notClosing => exact joins_of_element (element notClosing) _

theorem Steps.sound (steps : progress.Steps token next) (sound : progress.Sound)
    (formed : token.Formed) : next.Sound := by
  cases steps with
  | begins admits begun =>
      have inside := admits.sound sound
      rcases begin_inv begun with ⟨_, rfl⟩ | ⟨atom, begins, names, rfl⟩
      · exact inside
      · exact sound_finish inside (admits.joins sound formed begins names)
  | empty lists => exact sound_finish sound (joins_of_element Datum.element_nil lists)
  | closes | ends =>
      obtain ⟨takes, here, others⟩ := sound
      exact sound_finish others (joins_of_element (here.close takes) _)
  | dot element reversed lists =>
      obtain ⟨takes, here, others⟩ := sound
      exact ⟨List.forall_mem_cons.mpr ⟨⟨by simp, List.forall_mem_cons.mpr ⟨takes, here⟩⟩, others⟩,
        by simp⟩

def share (datum : Datum) : List OpenList → Nat
  | [] => datum.dots
  | list :: _ => list.share datum

theorem share_of_ne_dot (other : datum ≠ .symbol ".") (lists : List OpenList) :
    share datum lists = datum.dots := by
  cases lists with
  | nil => rfl
  | cons list rest => cases list <;> simp [share, OpenList.share, Datum.elementDots, other]

theorem dots_closeAll (sound : ∀ list ∈ lists, list.Sound) (datum : Datum) :
    (closeAll datum lists).dots = share datum lists + (closeAll Datum.nil lists).dots := by
  induction lists generalizing datum with
  | nil => rfl
  | cons list rest ih =>
      obtain ⟨here, others⟩ := List.forall_mem_cons.mp sound
      have step : ∀ datum, (closeAll datum (list :: rest)).dots =
          (list.close datum).dots + (closeAll Datum.nil rest).dots := by
        intro datum
        rw [← share_of_ne_dot (here.close_ne_symbol datum ".") rest]
        exact ih others (list.close datum)
      rw [step, step Datum.nil, OpenList.dots_close, share, Nat.add_assoc]

theorem dots_closeAll_cons {list : OpenList} (here : list.Sound)
    (others : ∀ list ∈ lists, list.Sound) (datum : Datum) :
    (closeAll datum (list :: lists)).dots =
      (list.close datum).dots + (closeAll Datum.nil lists).dots := by
  rw [← share_of_ne_dot (here.close_ne_symbol datum ".") lists]
  exact dots_closeAll others (list.close datum)

theorem Admits.dots_atEnd (admits : progress.Admits lists token) (sound : progress.Sound) :
    progress.atEnd.dots = (closeAll Datum.nil lists).dots := by
  cases admits with
  | expecting =>
      rw [atEnd, dots_closeAll sound.1, share_of_ne_dot (by decide)]
      simp [Datum.dots]
  | opened lists =>
      have blank : (OpenList.elements []).Sound := by simp [OpenList.Sound]
      rw [atEnd, dots_closeAll_cons blank sound]
      simp [OpenList.close, Datum.ofReversed, Datum.nil, Datum.dots]
  | holding element reversed lists =>
      obtain ⟨takes, here, others⟩ := sound
      have grown : (OpenList.elements (element :: reversed)).Sound :=
        List.forall_mem_cons.mpr ⟨takes, here⟩
      have same : (OpenList.close Datum.nil (.elements (element :: reversed))).dots =
          (OpenList.close element (.elements reversed)).dots := by
        refine (Datum.dots_ofReversed (element :: reversed) (.pair Datum.nil Datum.nil)).trans ?_
        simp [OpenList.close, Datum.nil, Datum.dots]
      rw [atEnd, dots_closeAll_cons here others, dots_closeAll_cons grown others, same]

def isOpened : Progress → Bool
  | opened _ => true
  | _ => false

theorem Admits.share_le (admits : progress.Admits lists token) (sound : progress.Sound)
    (formed : token.Formed) (names : token.Names atom) :
    share atom lists ≤ (progress.isOpened && token = .delimiter '.').toNat := by
  have flat : atom.dots = 0 := by
    rcases names with ⟨number, rfl⟩ | rfl <;> rfl
  cases admits with
  | expecting =>
      cases lists with
      | nil => rw [share, flat]; exact Nat.zero_le _
      | cons list rest =>
          obtain ⟨reversed, rfl⟩ := sound.2 list rfl
          rw [share, OpenList.share, flat]
          exact Nat.zero_le _
  | opened =>
      by_cases dot : token = .delimiter '.'
      · simp only [share, OpenList.share, Datum.elementDots, flat, isOpened, dot]
        exact Bool.toNat_le _
      · have other : atom ≠ .symbol "." := formed.ne_symbol (by decide) dot names
        rw [share_of_ne_dot other, flat]
        exact Nat.zero_le _
  | holding _ _ _ _ notDot =>
      have other : atom ≠ .symbol "." := formed.ne_symbol (by decide) notDot names
      rw [share_of_ne_dot other, flat]
      exact Nat.zero_le _

/-- Only a dot that follows an opening parenthesis becomes an element of a list. -/
theorem Steps.dots_le (steps : progress.Steps token next) (sound : progress.Sound)
    (formed : token.Formed) :
    next.atEnd.dots ≤
      progress.atEnd.dots + (progress.isOpened && token = .delimiter '.').toNat := by
  cases steps with
  | begins admits begun =>
      have inside := admits.sound sound
      rw [admits.dots_atEnd sound]
      rcases begin_inv begun with ⟨_, rfl⟩ | ⟨atom, _, names, rfl⟩
      · rw [atEnd, dots_closeAll inside, share_of_ne_dot (by decide)]
        simp [Datum.nil, Datum.dots]
      · have added := admits.share_le sound formed names
        rw [atEnd_finish, dots_closeAll inside]
        omega
  | empty | closes | ends =>
      -- The end of the input would have closed the list in the same way.
      rw [atEnd_finish]
      exact Nat.le_add_right _ _
  | dot element reversed lists =>
      obtain ⟨takes, here, others⟩ := sound
      have grown : (OpenList.tail (element :: reversed)).Sound :=
        ⟨by simp, List.forall_mem_cons.mpr ⟨takes, here⟩⟩
      have same : (OpenList.close (.symbol ")") (.tail (element :: reversed))).dots =
          (OpenList.close element (.elements reversed)).dots := by
        refine (Datum.dots_ofReversed (element :: reversed) (.symbol ")")).trans ?_
        simp [OpenList.close, Datum.dots]
      rw [atEnd, atEnd, dots_closeAll_cons grown others, dots_closeAll_cons here others, same]
      exact Nat.le_add_right _ _

theorem isOpened_finish (datum : Datum) (lists : List OpenList) :
    (finish datum lists).isOpened = false := by
  cases lists <;> rfl

theorem Steps.eq_opening (steps : progress.Steps token next) (opens : next.isOpened = true) :
    token = .delimiter '(' := by
  cases steps with
  | begins admits begun =>
      rcases begin_inv begun with ⟨opening, _⟩ | ⟨atom, _, _, rfl⟩
      · exact opening
      · simp [isOpened_finish] at opens
  | empty | closes | ends => simp [isOpened_finish] at opens
  | dot => cases opens

theorem feed_cons (unfinished : ∀ datum, progress ≠ complete datum) (token : Token)
    (rest : List Token) :
    progress.feed (token :: rest) =
      match progress.consume token with
      | .ok next => next.feed rest
      | .error error => .failed error (token :: rest) := by
  cases progress with
  | complete datum => exact absurd rfl (unfinished datum)
  | expecting | opened | holding => rfl

/-- Whatever is read is legible, and no more dots are elements of its lists than dots follow an
opening parenthesis. -/
theorem Sound.outcome (sound : progress.Sound) {found : List Token}
    (formed : ∀ token ∈ found, token.Formed)
    (read : (progress.feed found).outcome.1 = .ok datum) :
    datum.Legible ∧
      datum.dots ≤ progress.atEnd.dots + Token.leadingDots progress.isOpened found := by
  induction found generalizing progress with
  | nil =>
      rw [outcome_feed_nil] at read
      cases read
      exact ⟨sound.legible_atEnd, Nat.le_add_right _ _⟩
  | cons token rest ih =>
      obtain ⟨here, others⟩ := List.forall_mem_cons.mp formed
      by_cases ended : ∃ whole, progress = complete whole
      · obtain ⟨whole, rfl⟩ := ended
        rw [feed_complete] at read
        cases read
        exact ⟨sound, Nat.le_add_right _ _⟩
      · have unfinished : ∀ whole, progress ≠ complete whole :=
          fun whole same => ended ⟨whole, same⟩
        rw [feed_cons unfinished] at read
        cases consumed : progress.consume token with
        | error problem =>
            rw [consumed] at read
            cases read
        | ok next =>
            rw [consumed] at read
            have steps := steps_of_consume unfinished consumed
            obtain ⟨legible, bound⟩ := ih (steps.sound sound here) others read
            have added := steps.dots_le sound here
            have opening : next.isOpened = true → decide (token = .delimiter '(') = true :=
              fun opens => decide_eq_true (steps.eq_opening opens)
            have later := Token.leadingDots_le opening rest
            refine ⟨legible, ?_⟩
            rw [Token.leadingDots]
            omega

end Progress

theorem Progress.sound_start : Progress.start.Sound :=
  ⟨by simp, by simp⟩

theorem outcome_of_readText {text : List Char} {datum : Datum} (read : readText text = .ok datum) :
    datum.Legible ∧ datum.dots ≤ Token.leadingDots false (tokens text) := by
  have some : tokens text ≠ [] := by
    intro none
    have outcome := (LineSource.ahead_ofText defaultPrompt text).read.1
    rw [none] at outcome
    rw [readText, outcome] at read
    cases read
  rw [readText_eq some] at read
  have whole := Progress.sound_start.outcome (fun _ => Token.formed_of_mem) read
  simpa [Progress.start, Progress.atEnd, Progress.closeAll, Datum.dots, Progress.isOpened]
    using whole

namespace Datum

variable {atom datum : Datum} {token : Token}

theorem eq_dot_iff (alone : atom.atomPiece.tokens = [token]) (begins : token.Begins atom) :
    token = .delimiter '.' ↔ atom = symbol "." := by
  constructor
  · rintro rfl
    exact begins.eq_symbol
  · rintro rfl
    have dot : (symbol ".").atomPiece.tokens = [.delimiter '.'] := by decide
    rw [dot] at alone
    exact (List.singleton_inj.mp alone).symm

theorem leadingDots_atom (noPair : ∀ first second, atom ≠ pair first second)
    (alone : atom.atomPiece.tokens = [token]) (begins : token.Begins atom) :
    (∀ afterOpening rest, Token.leadingDots afterOpening (atom.tokens ++ rest) =
      (afterOpening && atom = symbol ".").toNat + Token.leadingDots false rest) ∧
    ∀ rest, Token.leadingDots false (atom.tailTokens ++ rest) = Token.leadingDots false rest := by
  obtain ⟨whole, tail⟩ := tokens_atom noPair alone
  have notOpening : token ≠ .delimiter '(' := begins.ne_opening
  constructor
  · intro afterOpening rest
    simp [whole, Token.leadingDots, notOpening, eq_dot_iff alone begins]
  · intro rest
    rw [tail]
    split <;> simp [Token.leadingDots, notOpening]

theorem Legible.leadingDots_tokens (legible : datum.Legible) :
    (∀ afterOpening rest, Token.leadingDots afterOpening (datum.tokens ++ rest) +
        datum.misplacedDots =
      (afterOpening && datum = symbol ".").toNat + datum.dots + Token.leadingDots false rest) ∧
    ∀ rest, Token.leadingDots false (datum.tailTokens ++ rest) + datum.misplacedDots +
        datum.dotLeads.toNat = datum.dots + Token.leadingDots false rest := by
  induction datum with
  | symbol | integer =>
      obtain ⟨token, alone, begins⟩ := legible.exists_token (by simp)
      obtain ⟨whole, tail⟩ := leadingDots_atom (by simp) alone begins
      refine ⟨fun afterOpening rest => ?_, fun rest => ?_⟩
      · rw [whole]
        simp only [misplacedDots, dots]
        omega
      · rw [tail]
        simp only [misplacedDots, dots, dotLeads, Bool.toNat_false]
        omega
  | pair first second firstIh secondIh =>
      obtain ⟨firstTokens, _⟩ := firstIh legible.1
      obtain ⟨_, secondTokens⟩ := secondIh legible.2.2
      refine ⟨fun afterOpening rest => ?_, fun rest => ?_⟩
      · have inner := firstTokens true (second.tailTokens ++ rest)
        have outer := secondTokens rest
        have opening : Token.leadingDots afterOpening ((pair first second).tokens ++ rest) =
            Token.leadingDots true (first.tokens ++ (second.tailTokens ++ rest)) := by
          rw [tokens_pair, List.cons_append, List.append_assoc]
          simp [Token.leadingDots]
        rw [Bool.true_and] at inner
        have noDot : (afterOpening && decide (pair first second = symbol ".")).toNat = 0 := by simp
        rw [opening, noDot]
        simp only [misplacedDots, dots]
        omega
      · have inner := firstTokens false (second.tailTokens ++ rest)
        have outer := secondTokens rest
        rw [Bool.false_and, Bool.toNat_false] at inner
        have leads : (pair first second).dotLeads = decide (first = symbol ".") := rfl
        rw [tailTokens_pair, List.append_assoc, leads]
        simp only [misplacedDots, dots]
        omega

theorem Legible.starts_tokens (legible : datum.Legible) :
    (∀ token ∈ datum.tokens, token.Starts) ∧ ∀ token ∈ datum.tailTokens, token.Starts := by
  induction datum with
  | symbol | integer =>
      obtain ⟨token, alone, begins⟩ := legible.exists_token (by simp)
      obtain ⟨whole, tail⟩ := tokens_atom (by simp) alone
      have starts : token.Starts := fun lists => ⟨_, begins lists⟩
      rw [whole, tail]
      constructor
      · simpa using starts
      · split <;> simp [starts, Token.starts_delimiter]
  | pair first second firstIh secondIh =>
      obtain ⟨firstTokens, _⟩ := firstIh legible.1
      obtain ⟨_, secondTokens⟩ := secondIh legible.2.2
      have both := List.forall_mem_append.mpr ⟨firstTokens, secondTokens⟩
      rw [tokens_pair, tailTokens_pair]
      exact ⟨List.forall_mem_cons.mpr ⟨Token.starts_delimiter '(', both⟩, both⟩

theorem Legible.tokens_ne_nil (legible : datum.Legible) : datum.tokens ≠ [] := by
  cases datum with
  | symbol | integer =>
      obtain ⟨token, alone, _⟩ := legible.exists_token (by simp)
      rw [(tokens_atom (by simp) alone).1]
      exact List.cons_ne_nil _ _
  | pair first second => simp [tokens_pair]

end Datum

namespace Progress

theorem exists_consume (progress : Progress) (starts : token.Starts) :
    ∃ next, progress.consume token = .ok next := by
  cases progress with
  | complete datum => exact ⟨_, rfl⟩
  | expecting lists => exact starts lists
  | opened lists =>
      simp only [consume]
      split
      · exact ⟨_, rfl⟩
      · exact starts _
  | holding datum list lists =>
      cases list with
      | tail => exact ⟨_, rfl⟩
      | elements reversed =>
          simp only [consume]
          split
          · exact ⟨_, rfl⟩
          · split
            · exact ⟨_, rfl⟩
            · exact starts _

theorem exists_outcome {found : List Token} (starts : ∀ token ∈ found, token.Starts)
    (progress : Progress) : ∃ datum, (progress.feed found).outcome.1 = .ok datum := by
  induction found generalizing progress with
  | nil => exact ⟨_, congrArg Prod.fst (outcome_feed_nil progress)⟩
  | cons token rest ih =>
      obtain ⟨here, others⟩ := List.forall_mem_cons.mp starts
      by_cases ended : ∃ whole, progress = complete whole
      · obtain ⟨whole, rfl⟩ := ended
        exact ⟨whole, by rw [feed_complete]; rfl⟩
      · obtain ⟨next, consumed⟩ := progress.exists_consume here
        rw [feed_cons fun whole same => ended ⟨whole, same⟩, consumed]
        exact ih others next

end Progress

/-- The printed form of a tree can be read, and gives that tree unless a dot is misplaced. -/
theorem readText_of_tokens_eq {text : List Char} {datum : Datum} (legible : datum.Legible)
    (printed : tokens text = datum.tokens) :
    ∃ again, readText text = .ok again ∧ (again = datum ↔ datum.misplacedDots = 0) := by
  obtain ⟨again, outcome⟩ := Progress.exists_outcome legible.starts_tokens.1 Progress.start
  have read : readText text = .ok again := by
    rw [readText_eq (printed ▸ legible.tokens_ne_nil), printed, outcome]
  refine ⟨again, read, ?_, ?_⟩
  · -- As many dots as have been read as elements follow an opening parenthesis in the printed form,
    -- and a misplaced one does not.
    rintro rfl
    have bound := (outcome_of_readText read).2
    have exactly := legible.leadingDots_tokens.1 false []
    rw [List.append_nil] at exactly
    simp only [printed, Bool.false_and, Bool.toNat_false, Token.leadingDots] at bound exactly
    omega
  · intro placed
    have whole := readTokens_of_legible legible placed []
    rw [List.append_nil, ← printed] at whole
    have same := (LineSource.ahead_ofText defaultPrompt text).read.1
    rw [whole] at same
    exact Except.ok.inj (read.symm.trans same)

namespace Store

variable {store : Store} {value : Value} {datum : Datum}

theorem Denotes.equal_load_iff (denotes : store.Denotes value datum) (other : Datum) :
    (store.load other).2.equal value (store.load other).1 = true ↔ other = datum := by
  constructor
  · intro same
    have kept := denotes.mono fun _ _ => cell?_load_of_cell? other
    exact ((kept.eq_of_equal (denotes_load store other)) same).symm
  · rintro rfl
    exact denotes.equal_load

end Store

/-- What the reader returns for a text is written as text that can be read again, by `format` and at
any width with NIL by name, and the value read then is equal to the first if and only if no dot
stands in a list behind its first element. -/
theorem read_value_reads_back_iff {text : List Char} {datum : Datum}
    (read : readText text = .ok datum) {store : Store} {value : Value}
    (denotes : store.Denotes value datum) :
    let reads (output : String) : Prop := ∃ again, readText output.toList = .ok again ∧
      ((store.load again).2.equal value (store.load again).1 = true ↔ datum.misplacedDots = 0)
    reads (store.format value) ∧
    ∀ width : Int,
      reads (Writer.putLine { width := width, blankNil := false } store value).sink.text := by
  intro reads
  have legible := (outcome_of_readText read).1
  have printed : ∀ output : String, tokens output.toList = datum.tokens → reads output := by
    intro output same
    obtain ⟨again, outcome, exactly⟩ := readText_of_tokens_eq legible same
    exact ⟨again, outcome, (denotes.equal_load_iff again).trans exactly⟩
  refine ⟨printed _ (Store.tokens_format_of_legible denotes legible), fun width => ?_⟩
  have pieces : store.pieces false value = datum.pieces := denotes.pieces_eq
  obtain ⟨lines, written, final⟩ :=
    @Writer.putLine_eq { width := width, blankNil := false } ⟨rfl, rfl, rfl⟩ store value
      (pieces ▸ datum.pieces_ne_nil) (fun piece member => legible.solid.1 piece (pieces ▸ member))
  have output : (Writer.putLine { width := width, blankNil := false } store value).sink.text =
      String.join lines := by
    rw [final]
    simp [Sink.text]
  apply printed
  rw [output, written.tokens_join, pieces]
  rfl

theorem strayDots_read_back :
    let datum : Datum := .pair (.symbol ".") (.pair (.pair (.symbol "a") (.symbol "."))
      (.pair (.pair (.symbol "b") (.symbol ")")) .nil))
    let store := (({} : Store).load datum).2
    let value := (({} : Store).load datum).1
    readText "(. (a . .) (b .".toList = .ok datum ∧
    store.Denotes value datum ∧
    store.format value = "( . ( a . . ) ( b . ) ) )" ∧
    ∃ again, readText (store.format value).toList = .ok again ∧
      (store.load again).2.equal value (store.load again).1 = true := by
  intro datum store value
  have read : readText "(. (a . .) (b .".toList = .ok datum := by decide
  have denotes : store.Denotes value datum := Store.denotes_load {} datum
  obtain ⟨⟨again, outcome, exactly⟩, _⟩ := read_value_reads_back_iff read denotes
  exact ⟨read, denotes, by decide +kernel, again, outcome, exactly.mpr (by decide)⟩

theorem splicedDot_is_taken_for_tail :
    let datum : Datum := .pair (.symbol "a") (.pair (.symbol ".") (.pair (.symbol "b") .nil))
    let store := (({} : Store).load datum).2
    let value := (({} : Store).load datum).1
    let again : Datum := .pair (.symbol "a") (.symbol "b")
    readText "(a . (. b))".toList = .ok datum ∧
    store.format value = "( a . b )" ∧
    readText (store.format value).toList = .ok again ∧
    (store.load again).2.equal value (store.load again).1 = false := by
  decide +kernel

end SecdMachine
