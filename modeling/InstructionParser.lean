import InstructionParser.Proof.Status
import InstructionParser.Proof.Codec
import InstructionParser.Proof.Response
import InstructionParser.Proof.Framing
import InstructionParser.Proof.FrameResidue
import InstructionParser.Proof.Routing
import InstructionParser.Proof.TextReply
import InstructionParser.Proof.EventSlots
import InstructionParser.Proof.SavedPosition
import InstructionParser.Proof.SharedQueue
import InstructionParser.Proof.Fifo
import InstructionParser.Proof.CommandOrder
import InstructionParser.Proof.Wakeup
import InstructionParser.Proof.ClientTable
import InstructionParser.Proof.ResponseStream
import InstructionParser.Proof.Recognition
import InstructionParser.Proof.PayloadBounds
import InstructionParser.Proof.LineBounds
import InstructionParser.Proof.Truncation
import InstructionParser.Proof.Corruption
import InstructionParser.Proof.ResponseCode
import InstructionParser.Proof.Grammar
import InstructionParser.Proof.TextId
import InstructionParser.Proof.TextPlaces
import InstructionParser.Proof.SetAddress
import InstructionParser.Proof.SetIp
import InstructionParser.Proof.SharedRegistry
import InstructionParser.Proof.OwnReplies
import InstructionParser.Proof.ConfigFile
import InstructionParser.Proof.AddUser
import InstructionParser.Proof.ConfigAgain
import InstructionParser.Proof.CrcPolynomial
import InstructionParser.Proof.AtRest
import InstructionParser.Proof.DateRoundTrip
import InstructionParser.Proof.Isolation
import InstructionParser.Proof.ShellLines
