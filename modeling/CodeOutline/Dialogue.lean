import CodeOutline.Failure

/-!
Questions to the user on the way to a new file. A dialogue is a tree of questions whose
leaves say what is to be done; a question left unanswered ends it with nothing to do.
-/

set_option autoImplicit false

namespace CodeOutline

/-- A question: for a text, with what is offered at first, or for one of some options. -/
inductive Prompt
  | input (text : String) (offered : Option String)
  | pick (text : String) (options : List String)
deriving DecidableEq, Repr

/-- What is to be done in the end. -/
inductive Plan
  | fail (failure : Failure)
  | cancel
  /-- A new file in a directory. -/
  | create (directory path text : String)
deriving DecidableEq, Repr

inductive Dialogue
  | finish (plan : Plan)
  | ask (prompt : Prompt) (next : String → Dialogue)

/-- Who answers: after the questions asked before, the answer to the next one, if any. -/
structure Prompter where
  answer : List Prompt → Prompt → Option String
  /-- The user can be asked to choose between entities. -/
  isInteractive : Bool := true

namespace Dialogue

/-- The plan that the answers lead to, and all questions asked. -/
def run (p : Prompter) : List Prompt → Dialogue → Plan × List Prompt
  | asked, .finish plan => (plan, asked)
  | asked, .ask prompt next =>
    match p.answer asked prompt with
    | none => (.cancel, asked ++ [prompt])
    | some reply => run p (asked ++ [prompt]) (next reply)

end Dialogue

namespace Prompter

def usual : Prompt → Option String
  | .input _ offered => offered
  | .pick _ options => options.head?

/-- Answers given beforehand, one for each question in turn. -/
def ofAnswers (answers : List (Option String)) (isInteractive : Bool) : Prompter where
  answer asked prompt :=
    match answers[asked.length]? with
    | some reply => reply
    | none => usual prompt
  isInteractive := isInteractive

end Prompter

end CodeOutline
