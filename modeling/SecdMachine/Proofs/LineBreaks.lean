import SecdMachine.Proofs.Answers

/-!
Where a line ends does not matter to what is read. A line end is a blank that no character and no
token goes beyond, so a text may be decoded and cut into tokens line by line.
-/

namespace SecdMachine

theorem tokens_decode_blank {byte : UInt8} (small : byte.toNat ≤ 0x7F)
    (blank : Text.isBlank (Char.ofNat byte.toNat) = true) (left right : Text.Bytes) :
    tokens (Text.decode (left ++ byte :: right)) =
      tokens (Text.decode left) ++ tokens (Text.decode right) := by
  have starts : ∀ other ∈ (byte :: right).head?, Text.isContinuation other = false := by
    rintro _ ⟨⟩
    simp only [Text.isContinuation, UInt8.le_iff_toNat_le, UInt8.reduceToNat, Bool.and_eq_false_iff,
      decide_eq_false_iff_not]
    omega
  have first : Text.decode (byte :: right) = Char.ofNat byte.toNat :: Text.decode right := by
    rw [Text.decode, Text.decodeAfter, Text.leading?_one small rfl]
    rfl
  rw [Text.decode_append left starts, first, tokens_append_blank blank]

theorem tokens_decode_intercalate (lines : List Text.Bytes) :
    tokens (Text.decode ([0x0A].intercalate lines)) =
      lines.flatMap fun line => tokens (Text.decode line) := by
  induction lines with
  | nil => rfl
  | cons line rest ih =>
      cases rest with
      | nil => simp
      | cons next more =>
          rw [List.intercalate_cons_cons, List.append_assoc, List.singleton_append,
            tokens_decode_blank (by decide) (by decide), ih]
          rfl

theorem tokens_decode_withoutReturns (line : Text.Bytes) :
    tokens (Text.decode (LineSource.withoutReturns line)) = tokens (Text.decode line) := by
  rw [LineSource.withoutReturns]
  conv => rhs; rw [← line.reverse_reverse]
  generalize line.reverse = reversed
  induction reversed with
  | nil => rfl
  | cons byte rest ih =>
      by_cases ends : byte = 0x0D
      · subst ends
        have shorter : tokens (Text.decode ((0x0D :: rest).reverse)) =
            tokens (Text.decode rest.reverse) := by
          rw [List.reverse_cons, tokens_decode_blank (by decide) (by decide)]
          exact List.append_nil _
        rw [shorter, ← ih]
        simp
      · simp [ends]

theorem tokens_splitLines (current bytes : Text.Bytes) :
    ((LineSource.splitLines current bytes).flatMap fun line =>
      tokens (Text.decode (LineSource.withoutReturns line))) =
        tokens (Text.decode (current.reverse ++ bytes)) := by
  simp only [tokens_decode_withoutReturns]
  induction bytes generalizing current with
  | nil =>
      by_cases none : current = []
      · subst none
        rfl
      · simp [LineSource.splitLines, none]
  | cons byte rest ih =>
      by_cases ends : byte = 0x0A
      · subst ends
        rw [LineSource.splitLines, if_pos rfl, List.flatMap_cons, ih,
          tokens_decode_blank (by decide) (by decide)]
        rfl
      · rw [LineSource.splitLines, if_neg ends, ih]
        simp

theorem Progress.suffix_of_feed (progress : Progress) (found : List Token) :
    (progress.feed found).outcome.2 <:+ found := by
  induction found generalizing progress with
  | nil => cases progress <;> exact List.nil_suffix
  | cons token rest ih =>
      cases progress with
      | complete datum => exact List.suffix_rfl
      | expecting lists | opened lists | holding datum list lists =>
          simp only [feed]
          split
          next next _ => exact (ih next).trans (List.suffix_cons token rest)
          next => exact List.suffix_rfl

theorem suffix_of_readTokens (all : List Token) : (readTokens all).2 <:+ all := by
  cases all with
  | nil => exact List.suffix_rfl
  | cons token rest => exact Progress.start.suffix_of_feed (token :: rest)

namespace Reader

/-- Two readers with the same tokens to come use them up alike. -/
theorem Ahead.afterReads_both {reader other : Reader} {source otherSource : LineSource}
    {all : List Token} (here : Ahead reader source all) (there : Ahead other otherSource all)
    (reads : Nat) :
    ∃ left, left <:+ all ∧
      Ahead (reader.afterReads source reads).1 (reader.afterReads source reads).2 left ∧
      Ahead (other.afterReads otherSource reads).1 (other.afterReads otherSource reads).2 left := by
  induction reads with
  | zero => exact ⟨all, List.suffix_rfl, here, there⟩
  | succ reads ih =>
      obtain ⟨left, under, still, alsoStill⟩ := ih
      exact ⟨_, (suffix_of_readTokens left).trans under, still.read.2, alsoStill.read.2⟩

theorem toCome_of_between {prompt : String} {policy other : PromptPolicy} {reader : Reader}
    {left right : LineSource}
    (between : Between prompt (SameLines policy other) (SameLines policy other) reader left right) :
    reader.toCome left = reader.toCome right := by
  obtain ⟨pending, here, there⟩ := between.sameLines
  have same : left.tokens = right.tokens := by
    rw [LineSource.tokens, LineSource.tokens, here.pending, there.pending]
  simp only [toCome, same]

/-- After any number of reads, a reader of the source and a reader of the text give the same next
outcome and have the same tokens to come, and the tokens of the text are the given ones. -/
def ReadsAsText (prompt other : String) (source : LineSource) (text : List Char)
    (found : List Token) : Prop :=
  SecdMachine.tokens text = found ∧ ∀ reads,
    let here := Reader.afterReads { prompt := prompt } source reads
    let there := Reader.afterReads { prompt := other } (.ofText text) reads
    (here.1.read here.2).outcome = (there.1.read there.2).outcome ∧
      here.1.toCome here.2 = there.1.toCome there.2 ∧ here.1.toCome here.2 <:+ found

theorem readsAsText_of_ahead {prompt : String} {source : LineSource} {text : List Char}
    (ahead : Ahead { prompt := prompt } source (SecdMachine.tokens text)) (other : String) :
    ReadsAsText prompt other source text (SecdMachine.tokens text) := by
  refine ⟨rfl, ?_⟩
  intro reads here there
  obtain ⟨left, under, still, alsoStill⟩ :=
    ahead.afterReads_both (LineSource.ahead_ofText other text) reads
  have tokens : here.1.toCome here.2 = left := still.toCome_eq
  refine ⟨still.read.1.trans alsoStill.read.1.symm, tokens.trans alsoStill.toCome_eq.symm, ?_⟩
  rw [tokens]
  exact under

theorem ReadsAsText.of_sameLines {prompt other : String} {policy another : PromptPolicy}
    {left right : LineSource} {text : List Char} {found : List Token}
    (same : SameLines policy another left right) (allows : policy.Allows prompt)
    (alsoAllows : another.Allows prompt) (reads : ReadsAsText prompt other right text found) :
    ReadsAsText prompt other left text found := by
  refine ⟨reads.1, ?_⟩
  intro count here there
  have alike := answerAlike_sameLines allows alsoAllows
  have start : Between prompt (SameLines policy another) (SameLines policy another)
    { prompt := prompt } left right := ⟨rfl, same⟩
  obtain ⟨reader, between⟩ := start.afterReads alike count
  have outcome := (between.read alike).1
  have tokens := toCome_of_between between
  obtain ⟨sameOutcome, sameTokens, under⟩ := reads.2 count
  rw [reader] at outcome tokens
  rw [show here.1 = _ from reader]
  exact ⟨outcome.trans sameOutcome, tokens.trans sameTokens, tokens ▸ under⟩

theorem readsAsText_of_offers {prompt : String} {policy : PromptPolicy} {source : LineSource}
    {lines : List Text.Bytes} {text : List Char} (allows : policy.Allows prompt)
    (offers : source.Offers policy (lines.map fun line => { line := Text.decode line }))
    (nonempty : ∀ line ∈ lines, line ≠ [])
    (same : SecdMachine.tokens text =
      lines.flatMap fun line => SecdMachine.tokens (Text.decode line))
    (other : String) :
    ReadsAsText prompt other source text
      (lines.flatMap fun line => SecdMachine.tokens (Text.decode line)) := by
  -- What the source does with prompts makes no difference, so it may as well ignore them.
  let quiet : LineSource := { pending := lines.map fun line => { line := Text.decode line } }
  have arrives : ∀ delivery ∈ quiet.pending, delivery.ending? = none := by
    intro delivery member
    obtain ⟨line, inside, rfl⟩ := List.mem_map.mp member
    exact Delivery.ending?_of_line (mt (Text.decode_eq_nil_iff line).mp (nonempty line inside))
  have ahead : Ahead { prompt := prompt } quiet (SecdMachine.tokens text) := by
    have ahead := ahead_of_lines prompt arrives (by simp [quiet]) rfl
    rwa [List.flatMap_map, ← same] at ahead
  have quietly : SameLines policy .ignore source quiet := ⟨_, offers, rfl, rfl, rfl⟩
  rw [← same]
  exact (readsAsText_of_ahead ahead other).of_sameLines quietly allows
    (by simp [PromptPolicy.Allows])

/-- Lines that are not empty are read as the text in which they are joined is read, and so are the
lines of a stream of bytes. Each token of the text is a token of one of its lines. -/
theorem line_breaks_do_not_matter (prompt other : String) (policy : PromptPolicy)
    (allows : policy.Allows prompt) :
    (∀ (lines : List Text.Bytes) (source : LineSource),
      source.Offers policy (lines.map fun line => { line := Text.decode line }) →
      (∀ line ∈ lines, line ≠ []) →
      ReadsAsText prompt other source (Text.decode ([0x0A].intercalate lines))
        (lines.flatMap fun line => SecdMachine.tokens (Text.decode line))) ∧
    ∀ (bytes : Text.Bytes) (prompts : Sink), prompts.capacity = none →
      (∀ line ∈ LineSource.splitLines [] bytes, LineSource.withoutReturns line ≠ []) →
      ReadsAsText prompt other (.ofStream bytes policy prompts) (Text.decode bytes)
        ((LineSource.splitLines [] bytes).flatMap fun line =>
          SecdMachine.tokens (Text.decode (LineSource.withoutReturns line))) := by
  constructor
  · intro lines source offers nonempty
    exact readsAsText_of_offers allows offers nonempty (tokens_decode_intercalate lines) other
  · intro bytes prompts unlimited nonempty
    have offers : (LineSource.ofStream bytes policy prompts).Offers policy
        (((LineSource.splitLines [] bytes).map LineSource.withoutReturns).map
          fun line => { line := Text.decode line }) := by
      refine ⟨?_, rfl, unlimited⟩
      rw [LineSource.ofStream, List.map_map]
      rfl
    have trimmed : ∀ line ∈ (LineSource.splitLines [] bytes).map LineSource.withoutReturns,
        line ≠ [] := by
      intro line member
      obtain ⟨whole, inside, rfl⟩ := List.mem_map.mp member
      exact nonempty whole inside
    have reads := readsAsText_of_offers allows offers trimmed
      (by rw [List.flatMap_map, tokens_splitLines]) other
    rwa [List.flatMap_map] at reads

theorem brokenCharacter_reads_line_by_line :
    let lines : List Text.Bytes := [[0x28, 0x61, 0xE2, 0x82], [0xAC, 0x2D], [0x37, 0x29]]
    let source : LineSource :=
      { pending := lines.map fun line => { line := Text.decode line }, policy := .check }
    let bytes : Text.Bytes := [0x28, 0x61, 0x0D, 0x0D, 0x0A, 0x62, 0x29, 0x0A]
    let unknown : Token := .delimiter Text.replacement
    ReadsAsText "> " "" source (Text.decode ([0x0A].intercalate lines))
        [.delimiter '(', .word ['a'], unknown, unknown, unknown, .numeric ['-'], .numeric ['7'],
          .delimiter ')'] ∧
      ReadsAsText "> " "" (.ofStream bytes .check {}) (Text.decode bytes)
        [.delimiter '(', .word ['a'], .word ['b'], .delimiter ')'] := by
  intro lines source bytes unknown
  obtain ⟨joined, stream⟩ := line_breaks_do_not_matter "> " "" .check (by decide)
  have tokens : (lines.flatMap fun line => SecdMachine.tokens (Text.decode line)) =
      [.delimiter '(', .word ['a'], unknown, unknown, unknown, .numeric ['-'], .numeric ['7'],
        .delimiter ')'] := by decide +kernel
  rw [← tokens]
  exact ⟨joined lines source ⟨rfl, rfl, rfl⟩ (by decide), stream bytes {} rfl (by decide)⟩

end Reader

end SecdMachine
