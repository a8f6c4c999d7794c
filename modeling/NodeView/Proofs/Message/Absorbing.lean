import NodeView.Message.Basic
/-!
# NodeView.Proofs.Message.Absorbing

What one field does to each part of a message.

The field of a message is told by its number, and a number that is no part's changes nothing. Here
this is said per shape of field and for every number at once: a part has the new value if the
number is its own and the one it had otherwise.
-/

namespace NodeView

open Wire (Field)

namespace Token

theorem absorb_text (token : Token) (n : Nat) (s : String) :
    token.absorb (.text n s)
      = { token with
          name := if n = 1 then s else token.name
          symbol := if n = 2 then s else token.symbol } := by
  unfold absorb
  split <;> simp_all

theorem absorb_uint32 (token : Token) (n : Nat) (v : UInt32) :
    token.absorb (.uint32 n v)
      = { token with decimals := if n = 3 then v else token.decimals } := by
  unfold absorb
  split <;> simp_all

end Token

namespace NodeTypeResponse

theorem absorb_text (response : NodeTypeResponse) (n : Nat) (s : String) :
    response.absorb (.text n s)
      = { response with
          id := if n = 1 then s else response.id
          result := if n = 2 then s else response.result } := by
  unfold absorb
  split <;> simp_all

end NodeTypeResponse

namespace TransactionRecord

variable (record : TransactionRecord) (n : Nat)

theorem absorb_text (s : String) :
    record.absorb (.text n s)
      = { record with
          id := if n = 1 then s else record.id
          senderAddress := if n = 3 then s else record.senderAddress
          senderPublicKey := if n = 4 then s else record.senderPublicKey
          receiverAddress := if n = 5 then s else record.receiverAddress
          signature := if n = 8 then s else record.signature } := by
  unfold absorb
  split <;> simp_all

theorem absorb_int64 (v : Int64) :
    record.absorb (.int64 n v)
      = { record with timestamp := if n = 2 then v else record.timestamp } := by
  unfold absorb
  split <;> simp_all

theorem absorb_uint64 (v : UInt64) :
    record.absorb (.uint64 n v)
      = { record with
          amount := if n = 7 then v else record.amount
          nonce := if n = 10 then v else record.nonce } := by
  unfold absorb
  split <;> simp_all

theorem absorb_message (fields : List Field) :
    record.absorb (.message n fields)
      = { record with
          token :=
            if n = 6 then some (fields.foldl Token.absorb (record.token.getD {}))
            else record.token } := by
  unfold absorb
  split <;> simp_all

theorem absorb_entry (address : String) (vote : Bool) :
    record.absorb (.entry n address vote)
      = { record with
          validators :=
            if n = 9 then record.validators.insert address vote else record.validators } := by
  unfold absorb
  split <;> simp_all

theorem absorb_uint32 (v : UInt32) : record.absorb (.uint32 n v) = record := rfl

theorem absorb_unknown : record.absorb (.unknown n) = record := rfl

end TransactionRecord

end NodeView
