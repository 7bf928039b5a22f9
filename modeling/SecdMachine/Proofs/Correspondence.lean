import SecdMachine.Proofs.Mirroring

/-!
Machines over mirrored stores do the same. Whatever an instruction looks up, works out or complains
about is alike on both sides, so one step leads from mirrored states to mirrored states, and new
pairs are linked to new pairs.
-/

namespace SecdMachine

inductive Agree {α β : Type} (store mirror : Store) (related : α → β → Prop) :
    Except Cause α → Except Cause β → Prop
  | ok {value image} (alike : related value image) :
      Agree store mirror related (.ok value) (.ok image)
  | error {cause other : Cause} (kind : cause.kind = other.kind)
      (detail : cause.detail store = other.detail mirror) :
      Agree store mirror related (.error cause) (.error other)

theorem Agree.cases {α β : Type} {store mirror : Store} {related : α → β → Prop}
    {action : Except Cause α} {image : Except Cause β}
    (agree : Agree store mirror related action image) :
    (∃ value other, action = .ok value ∧ image = .ok other ∧ related value other) ∨
    ∃ cause other, action = .error cause ∧ image = .error other ∧ cause.kind = other.kind ∧
      cause.detail store = other.detail mirror := by
  cases agree with
  | ok alike => exact Or.inl ⟨_, _, rfl, rfl, alike⟩
  | error kind detail => exact Or.inr ⟨_, _, rfl, rfl, kind, detail⟩

theorem Agree.bind {α β γ δ : Type} {store mirror : Store} {related : α → β → Prop}
    {further : γ → δ → Prop} {action : Except Cause α} {image : Except Cause β}
    {next : α → Except Cause γ} {nextImage : β → Except Cause δ}
    (agree : Agree store mirror related action image)
    (onward : ∀ value other, related value other →
      Agree store mirror further (next value) (nextImage other)) :
    Agree store mirror further (action >>= next) (image >>= nextImage) := by
  cases agree with
  | ok alike => exact onward _ _ alike
  | error kind detail => exact .error kind detail

def Cause.aboutValue : List (Value → Cause) :=
  [controlEnded, opcodeNotInteger, addressNotPair, addressNotIntegers, closureNotPair,
   closureWithoutFrame, conditionNotSymbol, operandNotPair, topNotInteger, secondNotInteger,
   notCallFrame]

theorem Agree.about {α β : Type} {link : Address → Address → Prop} {store mirror : Store}
    {related : α → β → Prop} {value image : Value} {make : Value → Cause}
    (mirrors : Mirrors link store mirror) (alike : Alike link value image)
    (named : make ∈ Cause.aboutValue := by simp [Cause.aboutValue]) :
    Agree store mirror related (.error (make value)) (.error (make image)) := by
  have words := mirrors.format_eq alike
  have kind := alike.kind_eq
  simp only [Cause.aboutValue, List.mem_cons, List.not_mem_nil, or_false] at named
  rcases named with rfl | rfl | rfl | rfl | rfl | rfl | rfl | rfl | rfl | rfl | rfl
  all_goals
    refine .error rfl ?_
    unfold Cause.detail
    simp only [Cause.mismatch, words, kind]

inductive EffectsAlike (link : Address → Address → Prop) : Effect → Effect → Prop
  | push {value stack control value' stack' control'} (top : Alike link value value')
      (below : Alike link stack stack') (after : Alike link control control') :
      EffectsAlike link (.push value stack control) (.push value' stack' control')
  | pushPair {first second stack control first' second' stack' control'}
      (left : Alike link first first') (right : Alike link second second')
      (below : Alike link stack stack') (after : Alike link control control') :
      EffectsAlike link (.pushPair first second stack control)
        (.pushPair first' second' stack' control')
  | call {code frame environment stack control code' frame' environment' stack' control'}
      (body : Alike link code code') (given : Alike link frame frame')
      (around : Alike link environment environment') (below : Alike link stack stack')
      (after : Alike link control control') :
      EffectsAlike link (.call code frame environment stack control)
        (.call code' frame' environment' stack' control')
  | callRecursive {closure frame environment stack saved control closure' frame' environment'
      stack' saved' control'}
      (applied : Alike link closure closure') (given : Alike link frame frame')
      (linked : link environment environment') (below : Alike link stack stack')
      (outer : Alike link saved saved') (after : Alike link control control') :
      EffectsAlike link (.callRecursive closure frame environment stack saved control)
        (.callRecursive closure' frame' environment' stack' saved' control')
  | return {value stack environment control dump value' stack' environment' control' dump'}
      (top : Alike link value value') (below : Alike link stack stack')
      (around : Alike link environment environment') (after : Alike link control control')
      (left : Alike link dump dump') :
      EffectsAlike link (.return value stack environment control dump)
        (.return value' stack' environment' control' dump')
  | extend {control control'} (after : Alike link control control') :
      EffectsAlike link (.extend control) (.extend control')
  | branch {code stack control code' stack' control'} (chosen : Alike link code code')
      (below : Alike link stack stack') (after : Alike link control control') :
      EffectsAlike link (.branch code stack control) (.branch code' stack' control')
  | resume {control dump control' dump'} (after : Alike link control control')
      (left : Alike link dump dump') :
      EffectsAlike link (.resume control dump) (.resume control' dump')
  | halt : EffectsAlike link .halt .halt

namespace Instruction

variable {link : Address → Address → Prop} {store mirror : Store}
  {value image stack stackImage : Value}

def PairAlike (link : Address → Address → Prop) (pair image : Value × Value) : Prop :=
  Alike link pair.1 image.1 ∧ Alike link pair.2 image.2

theorem apart_agree (mirrors : Mirrors link store mirror) (alike : Alike link value image)
    {cause : Cause} (plain : cause.detail store = cause.detail mirror) :
    Agree store mirror (PairAlike link)
      (match store.cell? value with
        | some cell => .ok (cell.first, cell.second)
        | none => .error cause)
      (match mirror.cell? image with
        | some cell => .ok (cell.first, cell.second)
        | none => .error cause) := by
  rcases mirrors.cell?_cases alike with ⟨cell, imageCell, found, foundImage, same⟩ | ⟨found, lost⟩
  · simp only [found, foundImage]
    exact .ok same
  · simp only [found, lost]
    exact .error rfl plain

theorem operand_agree (mirrors : Mirrors link store mirror) (alike : Alike link value image) :
    Agree store mirror (PairAlike link) (operand store value) (operand mirror image) :=
  apart_agree mirrors alike rfl

theorem pop_agree (mirrors : Mirrors link store mirror) (alike : Alike link value image)
    (missing : String) :
    Agree store mirror (PairAlike link) (pop store value missing) (pop mirror image missing) :=
  apart_agree mirrors alike rfl

theorem popDump_agree (mirrors : Mirrors link store mirror) (alike : Alike link value image) :
    Agree store mirror (PairAlike link) (popDump store value) (popDump mirror image) :=
  apart_agree mirrors alike rfl

theorem hasDepth_eq (mirrors : Mirrors link store mirror) (alike : Alike link value image)
    (count : Nat) : hasDepth store count value = hasDepth mirror count image := by
  induction count generalizing value image with
  | zero => rfl
  | succ count ih =>
      rcases mirrors.cell?_cases alike with ⟨cell, imageCell, found, foundImage, same⟩ |
        ⟨found, lost⟩
      · simp only [hasDepth, found, foundImage]
        exact ih same.2
      · simp only [hasDepth, found, lost]

theorem walk_alike (mirrors : Mirrors link store mirror) (alike : Alike link value image)
    (count : Nat) : Alike link (walk store count value) (walk mirror count image) := by
  induction count generalizing value image with
  | zero => exact alike
  | succ count ih =>
      rcases mirrors.cell?_cases alike with ⟨cell, imageCell, found, foundImage, same⟩ |
        ⟨found, lost⟩
      · simp only [walk, found, foundImage]
        exact ih same.2
      · simp only [walk, found, lost]
        exact alike

theorem locate_agree (mirrors : Mirrors link store mirror) {environment outer : Value}
    (around : Alike link environment outer) (alike : Alike link value image) :
    Agree store mirror (Alike link) (locate store environment value)
      (locate mirror outer image) := by
  rcases mirrors.cell?_cases alike with ⟨⟨first, second⟩, ⟨firstImage, secondImage⟩, found,
    foundImage, firsts, seconds⟩ | ⟨found, lost⟩
  · simp only [locate, found, foundImage]
    dsimp only at firsts seconds
    have malformed : Agree store mirror (Alike link) (.error (.addressNotIntegers value))
        (.error (.addressNotIntegers image)) := .about mirrors alike
    cases firsts with
    | pair linked => exact malformed
    | atom atom =>
        cases first with
        | pair address => cases atom
        | absent | empty | symbol _ => exact malformed
        | integer frame =>
            cases seconds with
            | pair linked => exact malformed
            | atom atom =>
                cases second with
                | pair address => cases atom
                | absent | empty | symbol _ => exact malformed
                | integer position =>
                    exact .ok (mirrors.first (walk_alike mirrors (mirrors.first (walk_alike mirrors
                      around _)) _))
  · simp only [locate, found, lost]
    exact .about mirrors alike

structure CallsAlike (link : Address → Address → Prop) (call other : Call) : Prop where
  closure : Alike link call.closure other.closure
  cell : call.cell.Alike link other.cell
  arguments : Alike link call.arguments other.arguments
  stack : Alike link call.stack other.stack

theorem popCall_agree (mirrors : Mirrors link store mirror) (alike : Alike link stack stackImage) :
    Agree store mirror (CallsAlike link) (popCall store stack) (popCall mirror stackImage) := by
  apply (pop_agree mirrors alike "closure").bind
  rintro ⟨closure, below⟩ ⟨closureImage, belowImage⟩ ⟨closures, belows⟩
  apply (pop_agree mirrors belows "argument list").bind
  rintro ⟨arguments, below⟩ ⟨argumentsImage, belowImage⟩ ⟨given, belows⟩
  dsimp only at closures given belows ⊢
  rcases mirrors.cell?_cases closures with ⟨cell, imageCell, found, foundImage, same⟩ |
    ⟨found, lost⟩
  · simp only [found, foundImage]
    exact .ok ⟨closures, same, given, belows⟩
  · simp only [found, lost]
    exact .about mirrors closures

theorem callFrame_agree (mirrors : Mirrors link store mirror) (alike : Alike link value image) :
    Agree store mirror
      (fun frame other => Alike link frame.1 other.1 ∧ Alike link frame.2.1 other.2.1 ∧
        Alike link frame.2.2 other.2.2)
      (callFrame store value) (callFrame mirror image) := by
  have refused : ∀ {related : Value × Value × Value → Value × Value × Value → Prop},
      Agree store mirror related (.error (.notCallFrame value)) (.error (.notCallFrame image)) :=
    .about mirrors alike
  rcases mirrors.cell?_cases alike with ⟨stack, stackImage, found, foundImage, stackAlike⟩ |
    ⟨found, lost⟩
  · rcases mirrors.cell?_cases stackAlike.2 with ⟨environment, outer, next, nextImage, environments⟩ |
      ⟨next, lost⟩
    · rcases mirrors.cell?_cases environments.2 with ⟨control, code, last, lastImage, controls⟩ |
        ⟨last, lost⟩
      · simp only [callFrame, found, foundImage, next, nextImage, last, lastImage,
          controls.2.isNil_eq]
        split
        · exact .ok ⟨stackAlike.1, environments.1, controls.1⟩
        · exact refused
      · simp only [callFrame, found, foundImage, next, nextImage, last, lost]
        exact refused
    · simp only [callFrame, found, foundImage, next, lost]
      exact refused
  · simp only [callFrame, found, lost]
    exact refused

theorem popIntegers_agree (mirrors : Mirrors link store mirror)
    (alike : Alike link stack stackImage) :
    Agree store mirror
      (fun taken other => taken.1 = other.1 ∧ taken.2.1 = other.2.1 ∧
        Alike link taken.2.2 other.2.2)
      (popIntegers store stack) (popIntegers mirror stackImage) := by
  apply (pop_agree mirrors alike "integer operand").bind
  rintro ⟨top, below⟩ ⟨topImage, belowImage⟩ ⟨tops, belows⟩
  apply (pop_agree mirrors belows "integer operand").bind
  rintro ⟨second, rest⟩ ⟨secondImage, restImage⟩ ⟨seconds, rests⟩
  dsimp only at tops seconds rests ⊢
  cases tops with
  | pair linked => exact .about mirrors (.pair linked)
  | atom atom =>
      cases top with
      | pair address => cases atom
      | absent | empty | symbol _ => exact .about mirrors (.atom rfl)
      | integer top =>
          cases seconds with
          | pair linked => exact .about mirrors (.pair linked)
          | atom atom =>
              cases second with
              | pair address => cases atom
              | absent | empty | symbol _ => exact .about mirrors (.atom rfl)
              | integer second => exact .ok ⟨rfl, rfl, rests⟩

theorem alike_ofBool (condition : Bool) :
    Alike link (.ofBool condition) (.ofBool condition) := by
  cases condition <;> exact .atom rfl

theorem arithmetic_agree (opcode : Opcode) (second top : Int64) :
    Agree store mirror (Alike link) (arithmetic opcode second top)
      (arithmetic opcode second top) := by
  unfold arithmetic
  split
  · exact .ok (.atom rfl)
  · exact .ok (.atom rfl)
  · exact .ok (.atom rfl)
  · split
    · exact .error rfl rfl
    · exact .ok (.atom rfl)
  · split
    · exact .error rfl rfl
    · exact .ok (.atom rfl)
  · exact .ok (alike_ofBool _)

theorem eqAtoms_eq {left leftImage right rightImage : Value} (lefts : Alike link left leftImage)
    (rights : Alike link right rightImage) :
    eqAtoms left right = eqAtoms leftImage rightImage := by
  cases lefts with
  | pair linked => rfl
  | atom atom =>
      cases rights with
      | pair linked =>
          cases left <;> rfl
      | atom => rfl

theorem decode_agree (mirrors : Mirrors link store mirror) (alike : Alike link value image) :
    Agree store mirror (fun found other => found.1 = other.1 ∧ Alike link found.2 other.2)
      (decode store value) (decode mirror image) := by
  rcases mirrors.cell?_cases alike with ⟨⟨first, rest⟩, ⟨firstImage, restImage⟩, found, foundImage,
    firsts, rests⟩ | ⟨found, lost⟩
  · simp only [decode, found, foundImage]
    dsimp only at firsts rests
    cases firsts with
    | pair linked => exact .about mirrors (.pair linked)
    | atom atom =>
        cases first with
        | pair address => cases atom
        | absent | empty | symbol _ => exact .about mirrors (.atom rfl)
        | integer number =>
            dsimp only
            cases Opcode.ofNumber? number.toInt with
            | none => exact .error rfl rfl
            | some opcode => exact .ok ⟨rfl, rests⟩
  · simp only [decode, found, lost]
    exact .about mirrors alike

theorem effect_agree (mirrors : Mirrors link store mirror) {registers other : Registers}
    (alike : registers.Alike link other) (opcode : Opcode) (rests : Alike link value image) :
    Agree store mirror (EffectsAlike link) (effect store registers opcode value)
      (effect mirror other opcode image) := by
  cases opcode with
  | ld =>
      apply (operand_agree mirrors rests).bind
      rintro ⟨address, rest⟩ ⟨addressImage, restImage⟩ ⟨addresses, rests⟩
      apply (locate_agree mirrors alike.environment addresses).bind
      intro value image values
      exact .ok (.push values alike.stack rests)
  | ldc =>
      apply (operand_agree mirrors rests).bind
      rintro ⟨value, rest⟩ ⟨image, restImage⟩ ⟨values, rests⟩
      exact .ok (.push values alike.stack rests)
  | ldf =>
      apply (operand_agree mirrors rests).bind
      rintro ⟨body, rest⟩ ⟨bodyImage, restImage⟩ ⟨bodies, rests⟩
      exact .ok (.pushPair bodies alike.environment alike.stack rests)
  | ap =>
      apply (popCall_agree mirrors alike.stack).bind
      intro call callImage calls
      exact .ok (.call calls.cell.1 calls.arguments calls.cell.2 calls.stack rests)
  | rtn =>
      apply (pop_agree mirrors alike.stack "return value").bind
      rintro ⟨value, below⟩ ⟨image, belowImage⟩ ⟨values, _⟩
      apply (popDump_agree mirrors alike.dump).bind
      rintro ⟨entry, dump⟩ ⟨entryImage, dumpImage⟩ ⟨entries, dumps⟩
      apply (callFrame_agree mirrors entries).bind
      rintro ⟨stack, environment, control⟩ ⟨stackImage, outer, code⟩ ⟨stackAlike, around, after⟩
      exact .ok (.return values stackAlike around after dumps)
  | dum => exact .ok (.extend rests)
  | rap =>
      apply (popCall_agree mirrors alike.stack).bind
      rintro ⟨closure, ⟨body, environment⟩, arguments, stack⟩
        ⟨closureImage, ⟨bodyImage, outer⟩, argumentsImage, stackImage⟩
        ⟨closures, ⟨_, environments⟩, given, stackAlike⟩
      dsimp only at closures environments given stackAlike ⊢
      cases environments with
      | atom atom =>
          cases environment with
          | pair address => cases atom
          | absent | empty | symbol _ | integer _ => exact .about mirrors (.atom rfl)
      | @pair frame frameImage linked =>
          obtain ⟨cell, imageCell, found, foundImage, _⟩ := mirrors.cells frame frameImage linked
          rcases mirrors.cell?_cases alike.environment with ⟨saved, savedImage, around, aroundImage,
            outers⟩ | ⟨around, lost⟩
          · simp only [found, foundImage, around, aroundImage]
            exact .ok (.callRecursive closures given linked stackAlike outers.2 rests)
          · simp only [found, foundImage, around, lost]
            exact .error rfl rfl
  | sel =>
      apply (operand_agree mirrors rests).bind
      rintro ⟨first, more⟩ ⟨firstImage, moreImage⟩ ⟨firsts, mores⟩
      apply (operand_agree mirrors mores).bind
      rintro ⟨second, rest⟩ ⟨secondImage, restImage⟩ ⟨seconds, rests⟩
      apply (pop_agree mirrors alike.stack "condition").bind
      rintro ⟨condition, below⟩ ⟨conditionImage, belowImage⟩ ⟨conditions, belows⟩
      dsimp only at firsts seconds rests conditions belows ⊢
      cases conditions with
      | pair linked => exact .about mirrors (.pair linked)
      | atom atom =>
          cases condition with
          | pair address => cases atom
          | absent | empty | integer _ => exact .about mirrors (.atom rfl)
          | symbol name =>
              have chosen : Alike link (if isTrue name then first else second)
                  (if isTrue name then firstImage else secondImage) := by
                split
                · exact firsts
                · exact seconds
              exact .ok (.branch chosen belows rests)
  | join =>
      apply (popDump_agree mirrors alike.dump).bind
      rintro ⟨control, dump⟩ ⟨code, dumpImage⟩ ⟨controls, dumps⟩
      exact .ok (.resume controls dumps)
  | car =>
      apply (pop_agree mirrors alike.stack "operand").bind
      rintro ⟨value, below⟩ ⟨image, belowImage⟩ ⟨values, belows⟩
      dsimp only at values belows ⊢
      rcases mirrors.cell?_cases values with ⟨cell, imageCell, found, foundImage, same⟩ |
        ⟨found, lost⟩
      · simp only [found, foundImage]
        exact .ok (.push same.1 belows rests)
      · simp only [found, lost]
        exact .about mirrors values
  | cdr =>
      apply (pop_agree mirrors alike.stack "operand").bind
      rintro ⟨value, below⟩ ⟨image, belowImage⟩ ⟨values, belows⟩
      dsimp only at values belows ⊢
      rcases mirrors.cell?_cases values with ⟨cell, imageCell, found, foundImage, same⟩ |
        ⟨found, lost⟩
      · simp only [found, foundImage]
        exact .ok (.push same.2 belows rests)
      · simp only [found, lost]
        exact .about mirrors values
  | atom =>
      apply (pop_agree mirrors alike.stack "operand").bind
      rintro ⟨value, below⟩ ⟨image, belowImage⟩ ⟨values, belows⟩
      dsimp only at values belows ⊢
      rw [values.isAtom_eq]
      exact .ok (.push (alike_ofBool _) belows rests)
  | cons =>
      apply (pop_agree mirrors alike.stack "first component").bind
      rintro ⟨first, below⟩ ⟨firstImage, belowImage⟩ ⟨firsts, belows⟩
      apply (pop_agree mirrors belows "second component").bind
      rintro ⟨second, below⟩ ⟨secondImage, belowImage⟩ ⟨seconds, belows⟩
      exact .ok (.pushPair firsts seconds belows rests)
  | eq =>
      apply (pop_agree mirrors alike.stack "operand").bind
      rintro ⟨first, below⟩ ⟨firstImage, belowImage⟩ ⟨firsts, belows⟩
      apply (pop_agree mirrors belows "operand").bind
      rintro ⟨second, below⟩ ⟨secondImage, belowImage⟩ ⟨seconds, belows⟩
      dsimp only at firsts seconds belows ⊢
      rw [eqAtoms_eq firsts seconds]
      exact .ok (.push (alike_ofBool _) belows rests)
  | stop => exact .ok .halt
  | add | sub | mul | div | rem | leq =>
      apply (popIntegers_agree mirrors alike.stack).bind
      rintro ⟨top, second, below⟩ ⟨topImage, secondImage, belowImage⟩ ⟨rfl, rfl, belows⟩
      apply (arithmetic_agree _ second top).bind
      intro value image values
      exact .ok (.push values belows rests)

end Instruction

section

variable {link : Address → Address → Prop} {store mirror : Store} {registers other : Registers}
  {effect image : Effect}

theorem EffectsAlike.halts_eq (effects : EffectsAlike link effect image) :
    effect.halts = image.halts := by
  cases effects <;> rfl

theorem Mirrors.saveCall (mirrors : Mirrors link store mirror)
    {stack environment control dump stackImage outer code dumpImage : Value}
    (stackAlike : Alike link stack stackImage) (environments : Alike link environment outer)
    (controls : Alike link control code) (dumps : Alike link dump dumpImage) :
    ∃ wider, Widens link wider store.size ∧
      Mirrors wider (store.saveCall stack environment control dump)
        (mirror.saveCall stackImage outer code dumpImage) ∧
      Alike wider (.pair (store.list [stack, environment, control]).2.size)
        (.pair (mirror.list [stackImage, outer, code]).2.size) := by
  obtain ⟨wider, widens, listed, saved⟩ :=
    mirrors.list (.cons stackAlike (.cons environments (.cons controls .nil)))
  obtain ⟨widest, further, mirrored, entry⟩ := listed.cons saved (dumps.mono widens)
  refine ⟨widest, widens.trans further ?_, mirrored, entry⟩
  rw [Store.size_list]
  omega

/-- Effects alike lead from mirrored states to mirrored states. -/
theorem EffectsAlike.perform (effects : EffectsAlike link effect image)
    (mirrors : Mirrors link store mirror) (alike : registers.Alike link other) :
    ∃ wider, Widens link wider store.size ∧
      Mirrors wider (effect.perform registers store).2 (image.perform other mirror).2 ∧
      (effect.perform registers store).1.Alike wider (image.perform other mirror).1 := by
  cases effects with
  | push top below after =>
      obtain ⟨wider, widens, mirrored, made⟩ := mirrors.cons top below
      exact ⟨wider, widens, mirrored, made, alike.environment.mono widens, after.mono widens,
        alike.dump.mono widens⟩
  | pushPair left right below after =>
      obtain ⟨wider, widens, mirrored, made⟩ := mirrors.cons left right
      obtain ⟨widest, further, mirrored, whole⟩ := mirrored.cons made (below.mono widens)
      have widens := widens.trans further (by simp)
      exact ⟨widest, widens, mirrored, whole, alike.environment.mono widens, after.mono widens,
        alike.dump.mono widens⟩
  | call body given around below after =>
      obtain ⟨wider, widens, mirrored, saved⟩ :=
        mirrors.saveCall below alike.environment after alike.dump
      obtain ⟨widest, further, mirrored, made⟩ :=
        mirrored.cons (given.mono widens) (around.mono widens)
      have whole := widens.trans further (by rw [Store.size_saveCall]; omega)
      exact ⟨widest, whole, mirrored, alike_symbol "NIL", made, body.mono whole,
        saved.mono further⟩
  | callRecursive applied given linked below outer after =>
      obtain ⟨wider, widens, mirrored, saved⟩ := mirrors.saveCall below outer after alike.dump
      have mirrored := mirrored.setFirst (widens.kept _ _ linked) (given.mono widens)
      exact ⟨wider, widens, mirrored, alike_symbol "NIL", .pair (widens.kept _ _ linked),
        mirrored.first (applied.mono widens), saved⟩
  | «return» top below around after left =>
      obtain ⟨wider, widens, mirrored, made⟩ := mirrors.cons top below
      exact ⟨wider, widens, mirrored, made, around.mono widens, after.mono widens,
        left.mono widens⟩
  | extend after =>
      obtain ⟨wider, widens, mirrored, made⟩ := mirrors.cons (alike_symbol "NIL") alike.environment
      exact ⟨wider, widens, mirrored, alike.stack.mono widens, made, after.mono widens,
        alike.dump.mono widens⟩
  | branch chosen below after =>
      obtain ⟨wider, widens, mirrored, made⟩ := mirrors.cons after alike.dump
      exact ⟨wider, widens, mirrored, below.mono widens, alike.environment.mono widens,
        chosen.mono widens, made⟩
  | resume after left =>
      exact ⟨link, .refl link _, mirrors, alike.stack, alike.environment, after, left⟩
  | halt => exact ⟨link, .refl link _, mirrors, alike⟩

/-- A step leaves alone what is not linked. -/
theorem EffectsAlike.cell?_perform (effects : EffectsAlike link effect image) {address : Address}
    (old : address < store.size) (unlinked : ∀ image, ¬link address image) :
    (effect.perform registers store).2.cell? (.pair address) = store.cell? (.pair address) := by
  apply Effect.cell?_perform old
  intro hit
  cases effects with
  | callRecursive applied given linked below outer after =>
      cases hit
      exact unlinked _ linked
  | push | pushPair | call | «return» | extend | branch | resume | halt => cases hit

end

structure FaultReport where
  kind : FaultKind
  opcode : Option Opcode
  step : Nat
  detail : String
  registers : List String
  deriving DecidableEq, Repr

def Registers.formatted (registers : Registers) (store : Store) : List String :=
  registers.values.map store.format

def MachineError.report (store : Store) : MachineError → FaultReport ⊕ MachineError
  | .fault details =>
      .inl ⟨details.cause.kind, details.opcode, details.step, details.cause.detail store,
        details.registers.formatted store⟩
  | error => .inr error

structure Observation where
  report : Option (FaultReport ⊕ MachineError)
  steps : Nat
  halted : Bool
  trace : Option Sink
  registers : List String
  result : Except (FaultReport ⊕ MachineError) (Option Value × String)
  deriving DecidableEq

def Store.seen (store : Store) (value : Value) : Option Value × String :=
  (if value.isPair then none else some value, store.format value)

namespace Configuration

def report (configuration : Configuration) : Option (FaultReport ⊕ MachineError) :=
  configuration.error?.map fun error => error.report configuration.store

def seenResult (configuration : Configuration) :
    Except (FaultReport ⊕ MachineError) (Option Value × String) :=
  match configuration.machine.result configuration.store with
  | .ok value => .ok (configuration.store.seen value)
  | .error error => .error (error.report configuration.store)

def observed (configuration : Configuration) : Observation where
  report := configuration.report
  steps := configuration.machine.steps
  halted := configuration.machine.halted
  trace := configuration.machine.trace
  registers := configuration.registers.formatted configuration.store
  result := configuration.seenResult

structure Corresponds (link : Address → Address → Prop) (configuration image : Configuration) :
    Prop where
  mirrors : Mirrors link configuration.store image.store
  registers : configuration.registers.Alike link image.registers
  halted : configuration.machine.halted = image.machine.halted
  steps : configuration.machine.steps = image.machine.steps
  trace : configuration.machine.trace = image.machine.trace
  limit : configuration.machine.limit = image.machine.limit

end Configuration

section

variable {link : Address → Address → Prop} {store mirror : Store} {registers other : Registers}

theorem Registers.Alike.formatted_eq (alike : registers.Alike link other)
    (mirrors : Mirrors link store mirror) :
    registers.formatted store = other.formatted mirror := by
  simp only [Registers.formatted, Registers.values, List.map_cons, List.map_nil,
    mirrors.format_eq alike.stack, mirrors.format_eq alike.environment,
    mirrors.format_eq alike.control, mirrors.format_eq alike.dump]

theorem Mirrors.seen_eq (mirrors : Mirrors link store mirror) {value image : Value}
    (alike : Alike link value image) : store.seen value = mirror.seen image := by
  rw [Store.seen, Store.seen, mirrors.format_eq alike]
  cases alike <;> rfl

theorem traced_alike (mirrors : Mirrors link store mirror) {machine image : Machine}
    (alike : machine.registers.Alike link image.registers) (traces : machine.trace = image.trace)
    (opcode : Opcode) :
    ∃ failure trace, machine.traced store opcode = (failure, machine.withTrace trace) ∧
      image.traced mirror opcode = (failure, image.withTrace trace) := by
  obtain ⟨registers, halted, steps, trace, limit⟩ := machine
  obtain ⟨others, stopped, count, trace', bound⟩ := image
  simp only at traces alike
  subst traces
  cases trace with
  | none => exact ⟨none, none, rfl, rfl⟩
  | some sink =>
      have same : Machine.traceTo registers store opcode sink =
          Machine.traceTo others mirror opcode sink := by
        simp only [Machine.traceTo, alike.printTo_eq mirrors]
      refine ⟨(Machine.traceTo registers store opcode sink).1,
        some (Machine.traceTo registers store opcode sink).2, rfl, ?_⟩
      rw [same]
      rfl

end

namespace Configuration

structure StepsAlike (link : Address → Address → Prop) (configuration image : Configuration) :
    Prop where
  report : configuration.report = image.report
  onward : ∃ wider, Widens link wider configuration.store.size ∧
    Corresponds wider configuration.next image.next
  frame : ∀ address < configuration.store.size, (∀ other, ¬link address other) →
    configuration.next.store.cell? (.pair address) = configuration.store.cell? (.pair address)

variable {link : Address → Address → Prop} {configuration image : Configuration}

theorem Corresponds.report_faultOf (corresponds : Corresponds link configuration image)
    {cause other : Cause} (kind : cause.kind = other.kind)
    (detail : cause.detail configuration.store = other.detail image.store)
    (opcode : Option Opcode) :
    (configuration.machine.faultOf opcode cause).report configuration.store =
      (image.machine.faultOf opcode other).report image.store := by
  have registers := corresponds.registers.formatted_eq corresponds.mirrors
  simp only [Configuration.registers] at registers
  simp only [Machine.faultOf, MachineError.report, kind, detail, corresponds.steps, registers]

theorem Corresponds.stepsAlike_of_error (corresponds : Corresponds link configuration image)
    {error other : MachineError} {trace traceImage : Option Sink} (traces : trace = traceImage)
    (stepped : configuration.machine.step configuration.store =
      (some error, configuration.machine.withTrace trace, configuration.store))
    (steppedImage : image.machine.step image.store =
      (some other, image.machine.withTrace traceImage, image.store))
    (same : error.report configuration.store = other.report image.store) :
    StepsAlike link configuration image := by
  refine ⟨?_, ⟨link, .refl link _, ?_⟩, ?_⟩
  · simp only [report, error?, stepped, steppedImage, Option.map_some, same]
  · simp only [next, stepped, steppedImage]
    exact ⟨corresponds.mirrors, corresponds.registers, corresponds.halted, corresponds.steps,
      traces, corresponds.limit⟩
  · intro address _ _
    simp only [next, stepped]

theorem Corresponds.stepsAlike_of_effect (corresponds : Corresponds link configuration image)
    {effect other : Effect} {trace : Option Sink} (effects : EffectsAlike link effect other)
    (stepped : configuration.machine.step configuration.store =
      (none, (configuration.machine.withTrace trace).commit configuration.store effect))
    (steppedImage : image.machine.step image.store =
      (none, (image.machine.withTrace trace).commit image.store other)) :
    StepsAlike link configuration image := by
  obtain ⟨wider, widens, mirrored, alike⟩ :=
    effects.perform corresponds.mirrors corresponds.registers
  refine ⟨?_, ⟨wider, widens, ?_⟩, ?_⟩
  · simp only [report, error?, stepped, steppedImage, Option.map_none]
  · simp only [next, stepped, steppedImage, commit_eq]
    exact ⟨mirrored, alike, effects.halts_eq, congrArg (· + 1) corresponds.steps, rfl,
      corresponds.limit⟩
  · intro address old unlinked
    simp only [next, stepped, commit_eq]
    exact effects.cell?_perform old unlinked

theorem effectOf_agree (corresponds : Corresponds link configuration image) (opcode : Opcode)
    {rest restImage : Value} (rests : Alike link rest restImage) :
    Agree configuration.store image.store (EffectsAlike link)
      (configuration.machine.effectOf configuration.store opcode rest)
      (image.machine.effectOf image.store opcode restImage) := by
  have deep := Instruction.hasDepth_eq corresponds.mirrors corresponds.registers.stack
    opcode.stackNeed
  rw [Machine.effectOf, Machine.effectOf]
  simp only [registers] at deep
  rw [deep]
  split
  · exact Instruction.effect_agree corresponds.mirrors corresponds.registers opcode rests
  · exact .error rfl rfl

theorem Corresponds.stepsAlike (corresponds : Corresponds link configuration image) :
    StepsAlike link configuration image := by
  have mirrors := corresponds.mirrors
  have alike := corresponds.registers
  cases stopped : configuration.machine.halted with
  | true =>
      exact corresponds.stepsAlike_of_error corresponds.trace (step_of_halted stopped)
        (step_of_halted (corresponds.halted.symm.trans stopped)) rfl
  | false =>
      have running := corresponds.halted.symm.trans stopped
      rcases (Instruction.decode_agree mirrors alike.control).cases with
        ⟨⟨opcode, rest⟩, ⟨_, restImage⟩, decoded, decodedImage, ⟨⟨⟩, rests⟩⟩ |
        ⟨cause, other, failed, failedImage, kind, detail⟩
      · obtain ⟨failure, trace, traced, tracedImage⟩ :=
          traced_alike mirrors alike corresponds.trace opcode
        cases failure with
        | some problem =>
            exact corresponds.stepsAlike_of_error rfl (step_of_refused stopped decoded traced)
              (step_of_refused running decodedImage tracedImage) rfl
        | none =>
            have stepped := step_of_traced stopped decoded traced
            have steppedImage := step_of_traced running decodedImage tracedImage
            rcases (effectOf_agree corresponds opcode rests).cases with
              ⟨effect, other, worked, workedImage, effects⟩ |
              ⟨cause, other, failed, failedImage, kind, detail⟩
            · rw [worked] at stepped
              rw [workedImage] at steppedImage
              exact corresponds.stepsAlike_of_effect effects stepped steppedImage
            · rw [failed] at stepped
              rw [failedImage] at steppedImage
              exact corresponds.stepsAlike_of_error rfl stepped steppedImage
                (corresponds.report_faultOf kind detail (some opcode))
      · exact corresponds.stepsAlike_of_error corresponds.trace (step_of_undecoded stopped failed)
          (step_of_undecoded running failedImage) (corresponds.report_faultOf kind detail none)

theorem Corresponds.seenResult_eq (corresponds : Corresponds link configuration image) :
    configuration.seenResult = image.seenResult := by
  have mirrors := corresponds.mirrors
  have stackAlike := mirrors.cell?_cases corresponds.registers.stack
  simp only [Configuration.registers] at stackAlike
  simp only [seenResult, Machine.result, corresponds.halted]
  cases image.machine.halted with
  | false => rfl
  | true =>
      rcases stackAlike with ⟨cell, imageCell, found, foundImage, same⟩ | ⟨found, lost⟩
      · simp only [if_true, found, foundImage, mirrors.seen_eq same.1]
      · have same : Cause.noResult.detail configuration.store =
            Cause.noResult.detail image.store := rfl
        simp only [if_true, found, lost, corresponds.report_faultOf rfl same (some .stop)]

theorem Corresponds.observed_eq (corresponds : Corresponds link configuration image) :
    configuration.observed = image.observed := by
  simp only [observed, corresponds.stepsAlike.report, corresponds.steps, corresponds.halted,
    corresponds.trace, corresponds.registers.formatted_eq corresponds.mirrors,
    corresponds.seenResult_eq]

end Configuration

end SecdMachine
