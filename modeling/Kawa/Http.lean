import Kawa.Archive

/-!
The pull over HTTP: what a client asks for, what an authorized request is served, and how
the client takes the answer in.
-/

namespace Kawa

/-- The part of a signed request that says what is asked for. -/
structure PullRequest where
  node : String
  frontier : Dict String Int
  scopes : List String
  backfill : Dict String (List Int)

section Http

variable (platform : Platform)

def pullRequest (dest : Log) (node : String) (scopes : List String) : PullRequest where
  node := node
  frontier := frontier dest
  scopes := scopes.insertionSort (· ≤ ·)
  backfill := heldStubPositions platform dest scopes

/-- The positions that a request names, when it names any. -/
def readBackfill (source : Log) (backfill : Dict String (List Int)) :
    Except StoreError (List Event) :=
  if backfill = [] then .ok [] else readPositions platform source backfill

/-- `do_POST` on `/replication/pull`, once the request is authorized. -/
def servePost (source : Log) (trust : TrustRegistry) (request : PullRequest) :
    Except StoreError (List WireEvent) := do
  let stream ← readStream platform source request.frontier
  let backfill ← readBackfill platform source request.backfill
  let offer := (trust.scopeGrants request.node).filter (· ∈ request.scopes)
  return (serveBatch (stream ++ backfill) offer).map (toWire · false)

def WireEvent.rejection (wire : WireEvent) : Rejection where
  eventId := wire.envelope.eventId
  originNode := wire.envelope.originNode
  originSeq := wire.envelope.originSeq
  reason := "wire_invalid"

/-- The decode loop: what is not an event becomes a rejection. -/
def decodeWires (readPayload : String → Option Payload) :
    List WireEvent → List Event × List Rejection
  | [] => ([], [])
  | wire :: wires =>
      let (batch, rejected) := decodeWires readPayload wires
      match fromWire platform readPayload wire with
      | .ok event => (event :: batch, rejected)
      | .error _ => (batch, wire.rejection :: rejected)

/-- `pull_http` from the answer on. -/
def pullHttp (readPayload : String → Option Payload) (receiver : Receiver) (dest : Store)
    (clock : Option HLC) (scopes : List String) (wires : List WireEvent) :
    Except StoreError AdmitState := do
  let (batch, wireRejected) := decodeWires platform readPayload wires
  let state ← admitBatch platform { receiver with requestedScopes := some scopes } dest clock batch
  return { state with rejected := wireRejected ++ state.rejected }

end Http

end Kawa
