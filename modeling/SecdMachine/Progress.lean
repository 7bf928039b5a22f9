import SecdMachine.Value
import SecdMachine.Numeral
import SecdMachine.Token

/-!
Reading one expression token by token. `Progress` is what has been understood of the tokens so far:
which lists are open and whether an expression has just ended inside one. Each token takes it one
step further, and the end of the input closes every open list.
-/

namespace SecdMachine

inductive OpenList where
  | elements (reversed : List Datum)
  | tail (reversed : List Datum)
  deriving DecidableEq, Repr

inductive Progress where
  | expecting (lists : List OpenList)
  | opened (lists : List OpenList)
  | holding (datum : Datum) (list : OpenList) (lists : List OpenList)
  | complete (datum : Datum)
  deriving DecidableEq, Repr

namespace OpenList

def close (datum : Datum) : OpenList → Datum
  | elements reversed => Datum.ofReversed (datum :: reversed) Datum.nil
  | tail reversed => Datum.ofReversed reversed datum

end OpenList

namespace Progress

def start : Progress := expecting []

def finish (datum : Datum) : List OpenList → Progress
  | [] => complete datum
  | list :: lists => holding datum list lists

def begin (lists : List OpenList) : Token → Except LiteralError Progress
  | .delimiter '(' => .ok (opened lists)
  | .numeric ['-'] => .ok (finish (.symbol "-") lists)
  | .numeric text =>
      match Literal.integer text with
      | .ok number => .ok (finish (.integer number) lists)
      | .error problem => .error ⟨String.ofList text, problem⟩
  | token => .ok (finish (.symbol token.literal) lists)

/-- One token more. After the expression that follows a dot, one token is passed over whatever it
is. -/
def consume (progress : Progress) (token : Token) : Except LiteralError Progress :=
  match progress with
  | expecting lists => begin lists token
  | opened lists =>
      if token = .delimiter ')' then .ok (finish Datum.nil lists)
      else begin (.elements [] :: lists) token
  | holding datum (.elements reversed) lists =>
      if token = .delimiter '.' then .ok (expecting (.tail (datum :: reversed) :: lists))
      else if token = .delimiter ')' then .ok (finish (OpenList.close datum (.elements reversed)) lists)
      else begin (.elements (datum :: reversed) :: lists) token
  | holding datum (.tail reversed) lists =>
      .ok (finish (OpenList.close datum (.tail reversed)) lists)
  | complete datum => .ok (complete datum)

def closeAll (datum : Datum) (lists : List OpenList) : Datum :=
  lists.foldl OpenList.close datum

/-- What the input denotes when it ends here. A missing tail reads as the closing parenthesis that
the end of the input stands for. -/
def atEnd : Progress → Datum
  | expecting lists => closeAll (.symbol ")") lists
  | opened lists => closeAll Datum.nil lists
  | holding datum list lists => closeAll datum (list :: lists)
  | complete datum => datum

inductive Fed where
  | complete (datum : Datum) (rest : List Token)
  | partway (progress : Progress)
  | failed (error : LiteralError) (rest : List Token)
  deriving DecidableEq, Repr

def feed (progress : Progress) : List Token → Fed
  | [] =>
      match progress with
      | complete datum => .complete datum []
      | unfinished => .partway unfinished
  | token :: rest =>
      match progress with
      | complete datum => .complete datum (token :: rest)
      | unfinished =>
          match unfinished.consume token with
          | .ok next => feed next rest
          | .error error => .failed error (token :: rest)

end Progress

end SecdMachine
