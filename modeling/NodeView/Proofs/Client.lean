import NodeView.Client
import NodeView.Proofs.Message.BinaryForm
/-!
# NodeView.Proofs.Client

What a client gets to see of a node.

A message arrives whole or not at all, and which of the two it is depends on its size and the
two limits alone (`deliver_binaryForm`), whatever a client then reads off it
(`Client.map_take_binaryForm`). On top of that the node refuses to tell what is pending where it
has no mempool or its own limit is exceeded, so of the limits that a response with pending
transactions runs into, the node's own comes first (`Client.calls_outcome`).
-/

namespace NodeView

/-- A message arrives whole unless it is too long for one of the sides, and the side that sends
it finds out first. -/
theorem deliver_binaryForm {message : Message} {bytes : List UInt8} (h : message.BinaryForm bytes)
    (hframe : bytes.length < frameLimit) (sent taken : Nat) :
    deliver sent taken message.type bytes
      = if sent < bytes.length then .error (lengthStatus "encoded" bytes.length sent)
        else if taken < bytes.length then .error (lengthStatus "decoded" bytes.length taken)
        else .ok message := by
  have hsize : bytes.length < 2 ^ 64 := Nat.lt_trans hframe (by decide)
  obtain ⟨fields, hread, hmessage⟩ := h.readFields hsize
  simp only [deliver, Nat.not_le.mpr hframe, if_false, hread, hmessage]

/-- The name of a role is in lower case. -/
theorem NodeRole.isLower_name (role : NodeRole) : ∀ c ∈ role.name.toList, c.isLower = true := by
  rw [← List.all_eq_true]
  cases role <;> rfl

/-- A node with a mempool refuses by the size of what it would send. -/
theorem Node.mempoolResponse_attached (settings : Settings) (snapshot : Snapshot) :
    Node.mempoolResponse ⟨settings, some snapshot⟩
      = if settings.maxMessageSize.toNat
            < (Message.mempoolResponse ⟨snapshot.records⟩).encode.length then
          .error (.tooLarge (Message.mempoolResponse ⟨snapshot.records⟩).encode.length
            settings.maxMessageSize.toNat)
        else .ok ⟨snapshot.records⟩ := by
  rw [Message.length_encode]
  rfl

namespace Client

/-- What a client makes of a response that takes so many bytes, if both sides let it pass. -/
def answer {α : Type} (client : Client) (size : Nat) (value : α) : Except ClientError α :=
  if client.node.limit < size then
    .error (.status (lengthStatus "encoded" size client.node.limit))
  else if client.limit < size then .error (.status (lengthStatus "decoded" size client.limit))
  else .ok value

/-- Whatever is read off a response is read off all of it. -/
theorem map_take_binaryForm {α : Type} (client : Client) (read : Message → α) {message : Message}
    {bytes : List UInt8} (h : message.BinaryForm bytes) (hframe : bytes.length < frameLimit) :
    (client.take message.type bytes).map read = client.answer bytes.length (read message) := by
  rw [take, deliver_binaryForm h hframe, answer]
  split
  · rfl
  · split <;> rfl

theorem takeNodeType_binaryForm {client : Client} {response : NodeTypeResponse}
    {bytes : List UInt8} (h : (Message.nodeTypeResponse response).BinaryForm bytes)
    (hframe : bytes.length < frameLimit) :
    client.takeNodeType bytes = client.answer bytes.length response :=
  (client.map_take_binaryForm _ h hframe :)

theorem takeMempool_binaryForm {client : Client} {response : MempoolResponse}
    {bytes : List UInt8} (h : (Message.mempoolResponse response).BinaryForm bytes)
    (hframe : bytes.length < frameLimit) :
    client.takeMempool bytes = client.answer bytes.length response.transactionRecords :=
  (client.map_take_binaryForm _ h hframe :)

/-- Of the node's limit and the client's, the node's is looked at first. -/
theorem mempool_attached (settings : Settings) (snapshot : Snapshot) (limit : Nat)
    (hframe : (Message.mempoolResponse ⟨snapshot.records⟩).encode.length < frameLimit) :
    let served := settings.maxMessageSize.toNat
    let size := (Message.mempoolResponse ⟨snapshot.records⟩).encode.length
    mempool ⟨⟨settings, some snapshot⟩, limit⟩
      = if served < size then .error (.status (Refusal.tooLarge size served).status)
        else if limit < size then .error (.status (lengthStatus "decoded" size limit))
        else .ok snapshot.records := by
  intro served size
  rw [mempool]
  simp only [Node.mempoolResponse_attached]
  by_cases hserved : served < size
  · simp only [served, size] at hserved
    simp only [hserved, if_true, served, size]
  · rw [if_neg hserved, if_neg hserved]
    exact (takeMempool_binaryForm (Message.binaryForm_encode _) hframe).trans (if_neg hserved)

/-- What the two calls of a client come to, at a node with any settings and whatever happened to
its mempool, as long as the responses fit a frame. What is pending is told completely and in
order or not at all. -/
theorem calls_outcome (settings : Settings) (attached : Bool) (updates : List Update)
    (limit : Nat)
    (hmempool : (Message.mempoolResponse ⟨(Snapshot.run {} updates).records⟩).encodedSize
      < frameLimit)
    (hnodeType : (Message.nodeTypeResponse ⟨settings.nodeId, settings.role.name⟩).encodedSize
      < frameLimit) :
    let snapshot := Snapshot.run {} updates
    let client : Client := ⟨⟨settings, if attached then some snapshot else none⟩, limit⟩
    let served := settings.maxMessageSize.toNat
    let mempoolSize := (Message.mempoolResponse ⟨snapshot.records⟩).encode.length
    let nodeTypeSize :=
      (Message.nodeTypeResponse ⟨settings.nodeId, settings.role.name⟩).encode.length
    client.mempool
        = (if ¬ attached then .error (.status ⟨.unavailable, "Mempool reader not attached"⟩)
          else if served < mempoolSize then
            .error (.status ⟨.resourceExhausted, "Response of " ++ toString mempoolSize
              ++ " bytes exceeds limit of " ++ toString served ++ " bytes"⟩)
          else if limit < mempoolSize then
            .error (.status (lengthStatus "decoded" mempoolSize limit))
          else .ok snapshot.records)
      ∧ (∀ bytes, (Message.mempoolResponse ⟨snapshot.records⟩).BinaryForm bytes →
          bytes.length = mempoolSize ∧ client.takeMempool bytes = client.takeMempool
            (Message.mempoolResponse ⟨snapshot.records⟩).encode)
      ∧ client.nodeType
        = (if served < nodeTypeSize then
            .error (.status (lengthStatus "encoded" nodeTypeSize served))
          else if limit < nodeTypeSize then
            .error (.status (lengthStatus "decoded" nodeTypeSize limit))
          else .ok ⟨settings.nodeId, settings.role.name⟩)
      ∧ ∀ c ∈ settings.role.name.toList, c.isLower = true := by
  intro snapshot client served mempoolSize nodeTypeSize
  have hrecords : ∀ bytes, (Message.mempoolResponse ⟨snapshot.records⟩).BinaryForm bytes →
      bytes.length = mempoolSize ∧ bytes.length < frameLimit := by
    intro bytes hbytes
    have hlength := hbytes.length_eq
    exact ⟨hlength.trans (Message.length_encode _).symm, hlength ▸ hmempool⟩
  refine ⟨?_, ?_, ?_, settings.role.isLower_name⟩
  · cases attached with
    | false => rfl
    | true =>
        exact mempool_attached settings snapshot limit (hrecords _ (Message.binaryForm_encode _)).2
  · intro bytes hbytes
    obtain ⟨hlength, hframe⟩ := hrecords bytes hbytes
    refine ⟨hlength, ?_⟩
    rw [takeMempool_binaryForm hbytes hframe,
      takeMempool_binaryForm (Message.binaryForm_encode _)
        (hrecords _ (Message.binaryForm_encode _)).2, hlength]
  · exact takeNodeType_binaryForm (Message.binaryForm_encode _)
      ((Message.length_encode _).symm ▸ hnodeType)

/-- With one transaction pending, the limits are exact and the node's own comes first. -/
theorem calls_outcome_at_limits :
    let updates : List Update := [.push { id := "a" }, .push { id := "b" }, .remove "a"]
    let client (served : UInt64) (limit : Nat) : Client :=
      ⟨⟨{ maxMessageSize := served }, some (Snapshot.run {} updates)⟩, limit⟩
    (client 5 5).mempool = .ok [{ id := "b" }]
      ∧ (client 5 4).mempool = .error (.status (lengthStatus "decoded" 5 4))
      ∧ (client 4 4).mempool
        = .error (.status ⟨.resourceExhausted, "Response of 5 bytes exceeds limit of 4 bytes"⟩)
      ∧ (client 13 14).nodeType = .error (.status (lengthStatus "encoded" 14 13))
      ∧ (client 14 14).nodeType = .ok ⟨"node-0", "full"⟩ := by
  intro updates client
  have hmempool :
      (Message.mempoolResponse ⟨(Snapshot.run {} updates).records⟩).encode.length = 5 := by
    rw [Message.length_encode]
    decide +kernel
  have hnodeType :
      (Message.nodeTypeResponse ⟨"node-0", NodeRole.default.name⟩).encode.length = 14 := by
    rw [Message.length_encode]
    decide +kernel
  have hmempoolFits :
      (Message.mempoolResponse ⟨(Snapshot.run {} updates).records⟩).encodedSize < frameLimit := by
    rw [← Message.length_encode, hmempool]
    decide
  have hnodeTypeFits :
      (Message.nodeTypeResponse ⟨"node-0", NodeRole.default.name⟩).encodedSize < frameLimit := by
    rw [← Message.length_encode, hnodeType]
    decide
  have houtcome (served : UInt64) (limit : Nat) :=
    calls_outcome { maxMessageSize := served } true updates limit hmempoolFits hnodeTypeFits
  simp only [hmempool, hnodeType] at houtcome
  exact ⟨(houtcome 5 5).1, (houtcome 5 4).1, (houtcome 4 4).1, (houtcome 13 14).2.2.1,
    (houtcome 14 14).2.2.1⟩

end Client

end NodeView
