import Mathlib.Data.List.Basic

/-! The consensus transport of `transport.go`: the callback of the consensus topic,
which can panic after `AddMessage`, and the creation of the topics. -/

namespace TanConsensus.Polybft

section Inbound
variable {Message : Type}

/-- What the consensus topic hands the callback: an `*ibftProto.Message`, or an
object of another type, which fails the type assertion. -/
inductive Inbound (Message : Type)
  | message (msg : Message)
  | other
deriving DecidableEq, Repr

structure Delivery (Message : Type) where
  isActiveValidator : Bool
  obj : Inbound Message
deriving DecidableEq, Repr

/-- The node between deliveries, with the messages passed to `p.ibft.AddMessage`
so far: running, or stopped by a panic of the callback. -/
inductive Node (Message : Type)
  | running (added : List Message)
  | crashed (added : List Message)
deriving DecidableEq, Repr

variable (hasView : Message → Bool)

/-- The callback of `subscribeToIbftTopic`; `hasView msg` is `msg.GetView() != nil`.
The debug line after `AddMessage` reads `msg.GetView().Height`, which panics
when the view is unset. -/
def ibftTopicCallback (isActiveValidator : Bool) (added : List Message) (obj : Inbound Message) :
    Node Message :=
  if !isActiveValidator then .running added
  else
    match obj with
    | .message msg =>
      let added := added ++ [msg]
      if hasView msg then .running added else .crashed added
    | .other => .running added

def Node.receive : Node Message → Delivery Message → Node Message
  | .running added, d => ibftTopicCallback hasView d.isActiveValidator added d.obj
  | .crashed added, _ => .crashed added

def deliver (node : Node Message) (deliveries : List (Delivery Message)) : Node Message :=
  deliveries.foldl (Node.receive hasView) node

/-- The inbound policy of the spec, one delivery at a time: an IBFT message that
arrives while the node is an active validator. -/
def Delivery.accepted : Delivery Message → Option Message
  | ⟨true, .message msg⟩ => some msg
  | _ => none

@[simp] theorem deliver_nil (node : Node Message) : deliver hasView node [] = node := rfl

example : deliver (fun msg : Nat => msg != 0) (.running [])
    [⟨true, .message 7⟩, ⟨false, .message 0⟩, ⟨true, .other⟩, ⟨true, .message 0⟩, ⟨true, .message 5⟩] =
      .crashed [7, 0] := by
  decide

end Inbound

section Topics
variable {Topic : Type} (bridgeProto pbftProto : String)

structure Topics (Topic : Type) where
  bridgeTopic : Option Topic
  consensusTopic : Option Topic

def newTopicResult (newTopic : String → Except String Topic) (proto context : String) :
    Option Topic × Except String Unit :=
  match newTopic proto with
  | .ok topic => (some topic, .ok ())
  | .error err => (none, .error (context ++ err))

/-- `createTopics`, with `p.config.Network.NewTopic` as `newTopic` and
`consensusConfig.IsBridgeEnabled()` as `isBridgeEnabled`: the topic fields it
leaves, and the error it returns. -/
def createTopics (isBridgeEnabled : Bool) (newTopic : String → Except String Topic)
    (p : Topics Topic) : Topics Topic × Except String Unit :=
  let (p, err) :=
    if isBridgeEnabled then
      let (bridgeTopic, err) := newTopicResult newTopic bridgeProto "failed to create bridge topic: "
      ({ p with bridgeTopic }, err)
    else (p, .ok ())
  match err with
  | .error err => (p, .error err)
  | .ok () =>
    let (consensusTopic, err) := newTopicResult newTopic pbftProto "failed to create consensus topic: "
    ({ p with consensusTopic }, err)

end Topics

end TanConsensus.Polybft
