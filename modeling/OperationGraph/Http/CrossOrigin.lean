import OperationGraph.Http.Message

/-! # Requests from other origins

A response tells a browser which pages may read it. -/

namespace OperationGraph.Http

/-- The header that carries the identifier of a request, in both directions. -/
def requestIdHeader : String := "X-Request-Id"

def anyOrigin : String := "*"

/-- Adds what a browser wants to know to the headers of a response, if the request comes from an
origin that is allowed. A request that only asks for permission is told the headers and methods too. -/
def allowOrigin (origins : List String) (r : Request) (hs : Headers) : Headers :=
  let origin := r.headers.get "Origin"
  if origin = "" || !(origins.contains anyOrigin || origins.contains origin) then hs
  else
    let hs :=
      if origins.contains anyOrigin then hs.set "Access-Control-Allow-Origin" anyOrigin
      else (hs.set "Access-Control-Allow-Origin" origin).set "Vary" "Origin"
    let hs := hs.set "Access-Control-Expose-Headers" requestIdHeader
    if r.method = "OPTIONS" then
      let wanted := r.headers.get "Access-Control-Request-Headers"
      let hs := if wanted = "" then hs else hs.set "Access-Control-Allow-Headers" wanted
      hs.set "Access-Control-Allow-Methods" "GET,POST,OPTIONS"
    else hs

end OperationGraph.Http
