import ChatRelay.Error
import ChatRelay.Message.Basic

/-!
# Turns of a conversation

Some vendors keep system texts apart from the conversation, and take the results of tools as turns
of the user.

## Main definitions

* `Contribution` — what one message adds to the conversation
* `Turn.ofContributions` — the turns; the results of adjacent tool messages share one
* `Contribution.systemTexts` — the texts that stand apart

## Design notes

Every message may be one that a vendor does not take, while grouping never fails. So messages are
first put into the vendor's form one by one, in order, and then grouped. A message sees those before
it, because the result of a tool may name its tool only by the id of an earlier call.
-/

namespace ChatRelay

/-- What one message adds to the conversation. -/
inductive Contribution where
  | system (text : String)
  /-- What the user or the model said. -/
  | said (role : Role) (content : List Json)
  /-- The result of a tool. -/
  | result (content : Json)
deriving DecidableEq, Repr, Inhabited

/-- How a vendor takes messages: `say` writes what the user or the model said, `answer` the
result of a tool, given the messages before it, latest first. -/
structure Contribution.Rules where
  say : Message → Result (List Json)
  answer : List Message → Message → Result Json

namespace Contribution

/-- What a message adds, given those before it, latest first. -/
def ofMessage (rules : Rules) (earlier : List Message) (m : Message) : Result Contribution :=
  match m.role with
  | .system => .ok (.system m.content)
  | .tool => (rules.answer earlier m).map .result
  | role => (rules.say m).map (.said role)

/-- What messages add, given those before them, latest first. -/
def ofMessagesFrom (rules : Rules) (earlier : List Message) :
    List Message → Result (List Contribution)
  | [] => .ok []
  | m :: ms => do
    let c ← ofMessage rules earlier m
    let cs ← ofMessagesFrom rules (m :: earlier) ms
    return c :: cs

/-- What the messages of a conversation add. -/
def ofMessages (rules : Rules) (messages : List Message) : Result (List Contribution) :=
  ofMessagesFrom rules [] messages

/-- The system texts in order. -/
def systemTexts (cs : List Contribution) : List String :=
  cs.filterMap fun
    | .system text => some text
    | _ => none

end Contribution

/-- A turn of a conversation. -/
inductive Turn where
  | said (role : Role) (content : List Json)
  /-- The results of adjacent tool messages. -/
  | results (contents : List Json)
deriving DecidableEq, Repr, Inhabited

namespace Turn

/-- The turns of a conversation. A system message is no turn, yet it parts the results before it
from those after it. -/
def ofContributions : List Contribution → List Turn
  | [] => []
  | .system _ :: cs => ofContributions cs
  | .said role content :: cs => .said role content :: ofContributions cs
  | .result r :: .result s :: cs =>
    match ofContributions (.result s :: cs) with
    | .results rs :: turns => .results (r :: rs) :: turns
    | turns => .results [r] :: turns
  | .result r :: cs => .results [r] :: ofContributions cs

end Turn

end ChatRelay
