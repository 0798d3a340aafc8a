import DurableRules.Session.Basic

namespace DurableRules

-- A session behind a queue of commands. A discard that succeeds closes it for
-- good; its engine can still be looked at.
structure Mailbox where
  session : Session
  closed : Bool

namespace Mailbox

def opened (session : Session) : Mailbox := ⟨session,false⟩

def closes (command : Command) : Bool :=
  match command with
  | .discard => true
  | _ => false

def send {σ : Type} [Store σ] (box : Mailbox) (command : Command) (store : σ) :
    Except SessionError Outcome × Mailbox × σ :=
  if box.closed then (.error .closed,box,store)
  else
    match box.session.process command store with
    | (.ok outcome,session,store) => (.ok outcome,⟨session,closes command⟩,store)
    | (.error e,session,store) => (.error e,⟨session,false⟩,store)

def sendAll {σ : Type} [Store σ] (box : Mailbox) : List Command → σ →
    List (Except SessionError Outcome) × Mailbox × σ
  | [], store => ([],box,store)
  | command :: rest, store =>
    let (answer,next,store) := box.send command store
    let (answers,last,store) := next.sendAll rest store
    (answer :: answers,last,store)

end Mailbox
end DurableRules
