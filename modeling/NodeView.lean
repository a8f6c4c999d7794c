import NodeView.Endpoint
import NodeView.Hex
import NodeView.Mempool
import NodeView.Mempool.Channel
import NodeView.Mempool.Traffic
import NodeView.Message.Decode
import NodeView.Message.Kind
import NodeView.Message.ToJson
import NodeView.Node
import NodeView.Settings.OfText
import NodeView.Status
import NodeView.Layer.Environment
import NodeView.Toml.Document
import NodeView.Settings.Load
import NodeView.Log
import NodeView.CommandLine.Run
import NodeView.CommandLine.Server
import NodeView.Main
import NodeView.Proofs.Client
import NodeView.Proofs.CommandLine
import NodeView.Proofs.Mempool
import NodeView.Proofs.Mempool.Traffic
import NodeView.Proofs.Message.Approvals
import NodeView.Proofs.Message.Concatenation
import NodeView.Proofs.Message.Integers
import NodeView.Proofs.Message.JsonForm
import NodeView.Proofs.Message.LastWins
import NodeView.Proofs.Message.Rearrangement
import NodeView.Proofs.Message.UndeclaredFields
import NodeView.Proofs.Message.UnknownKey
import NodeView.Proofs.Settings.Layering
import NodeView.Proofs.Wire.Slices
import NodeView.Proofs.Wire.WireTypes
import NodeView.Proofs.Message.Parts
import NodeView.Proofs.Message.Retained
import NodeView.Proofs.Message.UndeclaredMembers
import NodeView.Proofs.Message.NullMembers
import NodeView.Proofs.Decimal.Accuracy
import NodeView.Proofs.Json.Gathering
import NodeView.Proofs.Json.Scaling
import NodeView.Proofs.Json.Literal
import NodeView.Proofs.Message.Floats
import NodeView.Proofs.Message.Fractions
import NodeView.Proofs.Message.Respelling
import NodeView.Proofs.Node
import NodeView.Proofs.Settings.BlankFile
import NodeView.Proofs.Settings.MissingFile
import NodeView.Proofs.Settings.ReadBack
import NodeView.Proofs.Settings.Verbatim
import NodeView.Proofs.Message.Tidy
