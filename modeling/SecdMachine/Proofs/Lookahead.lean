import SecdMachine.Proofs.RoundTrip

/-!
Reading time after time. When a read is over the reader knows the token that comes next, so what it
shows is the first of the tokens still to come, or the end of the input.
-/

namespace SecdMachine

theorem Progress.ne_nil_of_failed {progress : Progress} {found rest : List Token}
    {error : LiteralError} (failed : progress.feed found = .failed error rest) : rest ≠ [] := by
  induction found generalizing progress with
  | nil => cases progress <;> simp [feed] at failed
  | cons token more ih =>
      cases progress with
      | complete datum => simp [feed] at failed
      | expecting lists | opened lists | holding datum list lists =>
          simp only [feed] at failed
          split at failed
          next => exact ih failed
          next =>
            cases failed
            simp

namespace Reader

def toCome (reader : Reader) (source : LineSource) : List Token :=
  match reader.stage with
  | .ended _ => []
  | _ => reader.tokens ++ source.tokens

def Shows (reader : Reader) : Option Token → Prop
  | some token =>
      reader.lookaheadClass = token.className ∧ reader.lookaheadLiteral = token.literal
  | none => reader.lookaheadClass = "EOF" ∧ reader.lookaheadLiteral = ")"

def Known (reader : Reader) : Prop :=
  reader.tokens ≠ [] ∨ ∃ failure, reader.stage = .ended failure

def afterReads (reader : Reader) (source : LineSource) : Nat → Reader × LineSource
  | 0 => (reader, source)
  | reads + 1 =>
      match reader.afterReads source reads with
      | (reader, source) => ((reader.read source).reader, (reader.read source).source)

def nextRead (reader : Reader) (source : LineSource) (reads : Nat) : Reading :=
  match reader.afterReads source reads with
  | (reader, source) => reader.read source

theorem refill_ne_nil {prompt : String} {policy : PromptPolicy} {prompts : Sink}
    {pending : List Delivery} {found : List Token} {after : LineSource}
    (refilled : refill prompt policy prompts pending = (.tokens found, after)) : found ≠ [] := by
  induction pending generalizing prompts with
  | nil =>
      rw [refill] at refilled
      split at refilled <;> simp at refilled
  | cons delivery rest ih =>
      rw [refill] at refilled
      split at refilled
      next => simp at refilled
      next =>
        simp only at refilled
        split at refilled
        next => simp at refilled
        next =>
          split at refilled
          next => exact ih refilled
          next some =>
            simp only [Prod.mk.injEq, Refill.tokens.injEq] at refilled
            rw [← refilled.1]
            exact some

theorem known_advance (reader : Reader) (source : LineSource) :
    (reader.advance source).1.Known := by
  unfold advance
  split
  next ended => exact Or.inr ⟨_, ended⟩
  next =>
    split
    next refilled => exact Or.inl (refill_ne_nil refilled)
    next => exact Or.inr ⟨_, rfl⟩
  next same => exact Or.inl (by simp [same])

theorem settle_reader (reader : Reader) (source : LineSource) (datum : Datum) :
    (settle reader source datum).reader = reader := by
  unfold settle
  split <;> rfl

theorem known_continueRead (prompt : String) (policy : PromptPolicy) (progress : Progress)
    (found : List Token) (prompts : Sink) (pending : List Delivery) :
    (continueRead prompt policy progress found prompts pending).reader.Known := by
  have ended : ∀ failure source further,
      (settleAtEnd prompt failure source further).reader.Known := by
    intro failure source further
    rw [settleAtEnd, settle_reader]
    exact Or.inr ⟨failure, rfl⟩
  induction pending generalizing progress found prompts with
  | nil =>
      rw [continueRead]
      split
      next failed => exact Or.inl (Progress.ne_nil_of_failed failed)
      next =>
        rw [settle_reader]
        exact known_advance _ _
      next => split <;> exact ended _ _ _
  | cons delivery rest ih =>
      rw [continueRead]
      split
      next failed => exact Or.inl (Progress.ne_nil_of_failed failed)
      next =>
        rw [settle_reader]
        exact known_advance _ _
      next =>
        split
        next => exact ended _ _ _
        next =>
          simp only
          split
          next => exact ended _ _ _
          next => exact ih _ _ _

theorem known_read (reader : Reader) (source : LineSource) : (reader.read source).reader.Known := by
  have known := reader.known_advance source
  unfold read
  generalize reader.advance source = next at known
  obtain ⟨reader, source⟩ := next
  simp only at known ⊢
  split
  next => exact known
  next => exact known
  next => exact known_continueRead _ _ _ _ _ _

theorem Ahead.toCome_eq {reader : Reader} {source : LineSource} {all : List Token}
    (ahead : Ahead reader source all) : reader.toCome source = all := by
  cases ahead with
  | reading running _ => rcases running with ⟨stage, _⟩ | stage <;> simp [toCome, stage]
  | ended stopped _ => simp [toCome, stopped]

theorem Ahead.shows {reader : Reader} {source : LineSource} {all : List Token}
    (ahead : Ahead reader source all) (known : reader.Known) : reader.Shows all.head? := by
  obtain ⟨prompt, found, stage⟩ := reader
  cases ahead with
  | ended stopped used =>
      simp only at stopped used
      subst stopped used
      exact ⟨rfl, rfl⟩
  | reading running _ =>
      cases found with
      | cons token rest => exact ⟨rfl, rfl⟩
      | nil =>
          rcases known with some | ⟨failure, ended⟩
          · exact absurd rfl some
          · simp only at ended
            simp [ended] at running

theorem Ahead.afterReads {reader : Reader} {source : LineSource} {all : List Token}
    (ahead : Ahead reader source all) (reads : Nat) :
    ∃ left, Ahead (reader.afterReads source reads).1 (reader.afterReads source reads).2 left := by
  induction reads with
  | zero => exact ⟨all, ahead⟩
  | succ reads ih =>
      obtain ⟨left, still⟩ := ih
      exact ⟨_, still.read.2⟩

end Reader

end SecdMachine
