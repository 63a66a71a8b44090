import OperationGraph.Metrics.Basic

/-! # Metrics as text

Each family of metrics has two lines that describe it and a line for each sample. Families are in the
order of their names, and a counter without samples is left out. -/

namespace OperationGraph.Metrics

def familyPrefix : String := "fieldgraph_"

def sampleNumber (x : Binary) : String := x.text .double .general

def sampleCount (n : Nat) : String := sampleNumber (.ofInt .double n)

def familyHead (name help kind : String) : List String :=
  ["# HELP " ++ familyPrefix ++ name ++ " " ++ help, "# TYPE " ++ familyPrefix ++ name ++ " " ++ kind]

def labelled (name label value number : String) : String :=
  familyPrefix ++ name ++ "\x7b" ++ label ++ "=\"" ++ value ++ "\"\x7d " ++ number

def counterLines (name help label : String) (c : Counter) : List String :=
  if c.isEmpty then []
  else familyHead name help "counter" ++ c.map fun e => labelled name label e.1 (sampleCount e.2)

def histogramLines (name help : String) (h : Histogram) : List String :=
  let bucket (bound : String) (n : Nat) := labelled (name ++ "_bucket") "le" bound (sampleCount n)
  familyHead name help "histogram"
    ++ (Histogram.cumulative 0 h.buckets).map (fun b => bucket (sampleNumber b.1) b.2)
    ++ [bucket "+Inf" h.count,
        familyPrefix ++ name ++ "_sum " ++ sampleNumber h.sum,
        familyPrefix ++ name ++ "_count " ++ sampleCount h.count]

def exposition (m : Metrics) : List String :=
  counterLines "analyses_total" "Analyzed documents by result (ok, error, cached)." "result"
      m.analyses
    ++ histogramLines "analysis_duration_seconds" "Time spent analyzing a document." m.duration
    ++ histogramLines "analysis_vertices" "Vertices per analyzed document." m.vertices
    ++ counterLines "http_requests_total" "HTTP requests by status code." "code" m.requests
    ++ counterLines "schema_reloads_total" "Schema reloads by result." "result" m.reloads

end OperationGraph.Metrics
