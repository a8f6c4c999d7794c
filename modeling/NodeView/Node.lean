import NodeView.Mempool
import NodeView.Message.Decode
import NodeView.Settings.Basic
import NodeView.Status
/-!
# NodeView.Node

A node that serves reads: who it is, and what is pending in it.

Both answers are built from the settings and from one snapshot. An answer with the pending
transactions is refused when its binary form would be larger than the settings allow; it is
never shortened.
-/

namespace NodeView

/-- A node that serves reads. -/
structure Node where
  settings : Settings
  /-- What is pending, if a mempool is attached. -/
  mempool : Option Snapshot

/-- Why a node does not answer. -/
inductive Refusal where
  /-- What the answer needs is not there. -/
  | unavailable (reason : String)
  /-- The answer would be larger than the limit allows. -/
  | tooLarge (size limit : Nat)
  deriving DecidableEq, Repr

namespace Refusal

/-- The wording of a refusal. -/
def message : Refusal → String
  | .unavailable reason => "Unavailable: " ++ reason
  | .tooLarge size limit =>
    "Response of " ++ toString size ++ " bytes exceeds limit of " ++ toString limit ++ " bytes"

/-- The status that a refused call ends with. -/
def status : Refusal → Status
  | .unavailable reason => ⟨.unavailable, reason⟩
  | .tooLarge size limit => ⟨.resourceExhausted, (tooLarge size limit).message⟩

end Refusal

namespace Node

/-- The limit on the size of a message, in bytes. -/
def limit (node : Node) : Nat := node.settings.maxMessageSize.toNat

/-- Who the node is and which role it plays. -/
def nodeType (node : Node) : NodeTypeResponse :=
  ⟨node.settings.nodeId, node.settings.role.name⟩

/-- Everything that is pending, or why it is not told. -/
def mempoolResponse (node : Node) : Except Refusal MempoolResponse :=
  match node.mempool with
  | none => .error (.unavailable "Mempool reader not attached")
  | some snapshot =>
    let response : MempoolResponse := ⟨snapshot.records⟩
    let size := (Message.mempoolResponse response).encodedSize
    if node.limit < size then .error (.tooLarge size node.limit) else .ok response

end Node

end NodeView
