import Peano.Editor.Server
import Peano.Json.Fault
namespace Peano.Editor

def kindName : Json → String
  | .null => "null"
  | .bool _ => "bool"
  | .num _ => "number"
  | .str _ | .text _ => "string"
  | .arr _ => "array"
  | .obj _ => "object"

/-- A value of the wrong kind at a place in the record of a message. -/
def misfit (what place type : String) : String :=
  "json: cannot unmarshal " ++ what ++ " into Go struct field " ++ place ++ " of type " ++ type

def stringMisfit? (place : String) : Json → Option String
  | .null | .str _ | .text _ => none
  | j => some (misfit (kindName j) place "string")

def intMisfit? (place : String) : Json → Option String
  | .null => none
  | .num t => if (Number.int64Of t).toOption.isSome then none else some (misfit ("number " ++ t) place "int")
  | j => some (misfit (kindName j) place "int")

def errorMisfit? : Json → Option String
  | .null => none
  | .obj members => members.findSome? fun (name, j) =>
    if Text.sameFold name "code" then intMisfit? "rpcError.error.code" j
    else if Text.sameFold name "message" then stringMisfit? "rpcError.error.message" j
    else none
  | j => some (misfit (kindName j) "rpcMessage.error" "lsp.rpcError")

def messageMisfit? : Json → Option String
  | .null => none
  | .obj members => members.findSome? fun (name, j) =>
    if Text.sameFold name "jsonrpc" then stringMisfit? "rpcMessage.jsonrpc" j
    else if Text.sameFold name "method" then stringMisfit? "rpcMessage.method" j
    else if Text.sameFold name "error" then errorMisfit? j
    else none
  | j => some ("json: cannot unmarshal " ++ kindName j ++ " into Go value of type lsp.rpcMessage")

def complaint (payload : Bytes) : String :=
  match Json.fault? payload with
  | some e => e.message
  | none => ((Json.read? payload).bind messageMisfit?).getD Json.Fault.ended.message

inductive Hangup where
  | closed
  | left (how : Leaving)
  | broken (why : FrameError)
  deriving DecidableEq, Repr

def messageOf? (payload : Bytes) : Option Message := (Json.read? payload).bind Message.ofJson?

/-- A conversation: what was sent, the payloads that were no messages, and how it ended. -/
structure Conversation where
  server : Server
  sent : List Outgoing := []
  rejected : List Bytes := []
  ending : Hangup := .closed

/-- Takes in the messages of a stream one after the other. Answers of the editor have no method and are
passed over. -/
def serve (s : Server) (stream : Bytes) : Conversation :=
  match _h : readMessage stream with
  | .closed => { server := s }
  | .failed e => { server := s, ending := .broken e }
  | .message payload rest =>
    match messageOf? payload with
    | none =>
      let c := serve s rest
      { c with rejected := payload :: c.rejected }
    | some m =>
      if m.method = "" then serve s rest
      else
        match s.handle m with
        | (s, sent, some how) => { server := s, sent, ending := .left how }
        | (s, sent, none) =>
          let c := serve s rest
          { c with sent := sent ++ c.sent }
termination_by stream.length
decreasing_by all_goals exact readMessage_length ‹_›

end Peano.Editor
