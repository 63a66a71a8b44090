import OperationGraph.Http.Message
import OperationGraph.Service.Incoming
import OperationGraph.Text.Lower

/-! # Requests for analyses

A document can be sent in three ways: in the query of a target, as an object in a body, or as one of
several objects in a body. -/

namespace OperationGraph

/-- A document to analyze, the operation meant and the values of its variables. -/
structure AnalysisRequest where
  query : String := ""
  operationName : String := ""
  variableValues : Entries := []
deriving Repr

inductive Submission where
  | single (r : AnalysisRequest)
  | batch (rs : List AnalysisRequest)
deriving Repr

inductive RequestFault where
  | missingQuery
  | invalidVariables
  | bodyTooLarge
  | invalidBody
  | emptyBatch
  | unsupportedContentType
deriving DecidableEq, Repr

namespace RequestFault

def message : RequestFault → String
  | missingQuery => "missing 'query'"
  | invalidVariables => "invalid 'variables' JSON"
  | bodyTooLarge => "body too large"
  | invalidBody => "invalid JSON"
  | emptyBatch => "empty batch"
  | unsupportedContentType => "unsupported Content-Type"

def status : RequestFault → Nat
  | bodyTooLarge => 413
  | _ => 400

end RequestFault

namespace AnalysisRequest

/-- Reads the value of a member. The name counts in any letter case, and a member of another name is
skipped. -/
def readMember? (fuel : Nat) (r : AnalysisRequest) (name : String) (cs : List Char) :
    Json.Read? AnalysisRequest :=
  match Text.lower name with
  | "query" => (Incoming.text? cs).map fun (query, rest) => ({ r with query }, rest)
  | "operationname" =>
    (Incoming.text? cs).map fun (operationName, rest) => ({ r with operationName }, rest)
  | "variables" =>
    (Incoming.entries? fuel (Json.maxDepth - 1) r.variableValues cs).map
      fun (variableValues, rest) => ({ r with variableValues }, rest)
  | "extensions" =>
    (Incoming.entries? fuel (Json.maxDepth - 1) [] cs).map fun (_, rest) => (r, rest)
  | _ => (Incoming.skipValue? fuel (Json.maxDepth - 1) cs).map (r, ·)

/-- Reads members in turn up to the closing brace; `fuel` bounds the steps. -/
def readMembers? : Nat → AnalysisRequest → List Char → Option (AnalysisRequest × List Char)
  | 0, _, _ => none
  | fuel + 1, r, cs => do
    let (name, rest) ← Incoming.text? cs
    match Json.skip rest with
    | ':' :: rest =>
      let (r, rest) ← readMember? fuel r name rest
      match Json.skip rest with
      | ',' :: rest => readMembers? fuel r rest
      | '}' :: rest => return (r, rest)
      | _ => none
    | _ => none

/-- Reads the request that an object stands for; null stands for the empty one. -/
def read? (fuel : Nat) (cs : List Char) : Json.Read? AnalysisRequest :=
  match Json.skip cs with
  | 'n' :: 'u' :: 'l' :: 'l' :: rest => some ({}, rest)
  | '{' :: rest =>
    match Json.skip rest with
    | '}' :: r => some ({}, r)
    | r => readMembers? fuel {} r
  | _ => none

def readItems? : Nat → List Char → Option (List AnalysisRequest × List Char)
  | 0, _ => none
  | fuel + 1, cs => do
    let (r, rest) ← read? fuel cs
    match Json.skip rest with
    | ',' :: rest =>
      let (rs, rest) ← readItems? fuel rest
      return (r :: rs, rest)
    | ']' :: rest => return ([r], rest)
    | _ => none

def readBatch? (fuel : Nat) (cs : List Char) : Json.Read? (List AnalysisRequest) :=
  match Json.skip cs with
  | '[' :: rest =>
    match Json.skip rest with
    | ']' :: r => some ([], r)
    | r => readItems? fuel r
  | _ => none

def variablesOf? (text : String) : Option Entries :=
  let cs := text.toList
  match Incoming.entries? (Incoming.steps cs) Json.maxDepth [] cs with
  | some (es, rest) => if Incoming.isEnd rest then some es else none
  | none => none

def ofTarget (t : Http.Target) : Except RequestFault AnalysisRequest :=
  let query := t.parameter "query"
  let given := t.parameter "variables"
  if query = "" then .error .missingQuery
  else
    match if given = "" then some [] else variablesOf? given with
    | none => .error .invalidVariables
    | some variableValues =>
      .ok { query, variableValues, operationName := t.parameter "operationName" }

end AnalysisRequest

namespace Submission

/-- What a body asks for. It is a batch if its first character is a bracket. -/
def ofBody (body : String) : Except RequestFault Submission :=
  let cs := body.toList
  let fuel := Incoming.steps cs
  if cs.head? = some '[' then
    match AnalysisRequest.readBatch? fuel cs with
    | none => .error .invalidBody
    | some (rs, rest) =>
      if !Incoming.isEnd rest then .error .invalidBody
      else if rs.isEmpty then .error .emptyBatch
      else if rs.any (·.query = "") then .error .missingQuery
      else .ok (.batch rs)
  else
    match AnalysisRequest.read? fuel cs with
    | none => .error .invalidBody
    | some (r, rest) =>
      if !Incoming.isEnd rest then .error .invalidBody
      else if r.query = "" then .error .missingQuery
      else .ok (.single r)

/-- Whether a content type announces an exchange value; none does too. -/
def acceptsContentType (type : String) : Bool :=
  type = "" || type = "application/json" || type.startsWith "application/json;"

/-- Reads a body under a limit of bytes; without a positive limit it is read to its end. Room is made
for one byte more than the limit, so that a body too long is noticed. -/
def readBody (limit : Int64) (body : String) : Except RequestFault String :=
  if limit ≤ 0 then .ok body
  else
    let read := Text.firstBytes (limit + 1).toNatClampNeg body.toList
    if limit.toInt < Text.byteLength read then .error .bodyTooLarge else .ok (String.ofList read)

/-- What a request asks for, under a limit of bytes for its body. -/
def ofRequest (limit : Int64) (r : Http.Request) : Except RequestFault Submission :=
  if r.method = "GET" then (AnalysisRequest.ofTarget r.target).map .single
  else if acceptsContentType (r.headers.get "Content-Type") then
    match readBody limit r.body with
    | .error e => .error e
    | .ok body => ofBody body
  else .error .unsupportedContentType

end Submission

end OperationGraph
