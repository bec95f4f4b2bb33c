import Chronicle.Trace.Document
import Chronicle.Digest.Sha256
import Chronicle.Merkle

/-!
The hashes of a trace.

Every kind of hash has a domain of its own in front of what is hashed, so hashes of different kinds are
digests of different texts. Events are chained from a fixed seed, spans are hashed with their events,
and the root hash covers the end of the chain and all spans.
-/

namespace Chronicle.Trace

namespace Domain

def event : Bytes := utf8 "poi-trace:event:v1|"
def roll : Bytes := utf8 "poi-trace:roll:v1|"
def span : Bytes := utf8 "poi-trace:span:v1|"
def leaf : Bytes := utf8 "poi-trace:leaf:v1|"
def node : Bytes := utf8 "poi-trace:node:v1|"
def manifest : Bytes := utf8 "poi-trace:manifest:v1|"
def root : Bytes := utf8 "poi-trace:root:v1|"

end Domain

def separator : Bytes := utf8 "|"

/-- The hashes in a row, each behind a separator. -/
def joinHashes (hashes : List Bytes) : Bytes := Bytes.joinedAfter separator hashes

/-- The hash of an event, its own hash left out. -/
def eventHash (event : Event) : Bytes :=
  Sha256.hex (Domain.event ++ (Json.ofMembers event.body).compact)

/-- The text that the chain of event hashes starts from. -/
def genesisText : Bytes := Domain.roll ++ utf8 "genesis"

def genesisHash : Bytes := Sha256.hex genesisText

/-- What is hashed for the next link of the chain. -/
def rollText (current eventHash : Bytes) : Bytes := Domain.roll ++ current ++ separator ++ eventHash

/-- The next link of the chain. -/
def roll (current eventHash : Bytes) : Bytes := Sha256.hex (rollText current eventHash)

/-- All links of a chain of event hashes, its start first. -/
def chain (start : Bytes) : List Bytes → List Bytes
  | [] => [start]
  | eventHash :: rest => start :: chain (roll start eventHash) rest

/-- The hash of a span, its own hash left out, with the hashes of its events. -/
def spanHash (span : Span) (eventHashes : List Bytes) : Bytes :=
  Sha256.hex (Domain.span ++ (Json.ofMembers span.header).compact ++ joinHashes eventHashes)

def leafText (spanHash : Bytes) : Bytes := Domain.leaf ++ spanHash
def nodeText (left right : Bytes) : Bytes := Domain.node ++ left ++ separator ++ right

def leafHash (spanHash : Bytes) : Bytes := Sha256.hex (leafText spanHash)
def nodeHash (left right : Bytes) : Bytes := Sha256.hex (nodeText left right)

/-- The root of the hash tree over span hashes, empty where there are none. -/
def merkleRoot (spanHashes : List Bytes) : Bytes :=
  (Merkle.root? nodeHash (spanHashes.map leafHash)).getD []

def rootText (rollingHash : Bytes) (spanHashes : List Bytes) : Bytes :=
  Domain.root ++ rollingHash ++ joinHashes spanHashes

/-- The hash of the whole trace. -/
def rootHash (rollingHash : Bytes) (spanHashes : List Bytes) : Bytes :=
  Sha256.hex (rootText rollingHash spanHashes)

end Chronicle.Trace
