import OperationGraph.Event.Basic
import OperationGraph.Metrics.Histogram
import OperationGraph.Text.Sorted

/-! # Metrics

Counters and histograms of what happens while a service runs. -/

namespace OperationGraph

abbrev Counter := List (String × Nat)

namespace Counter

def get (c : Counter) (label : String) : Nat :=
  match c.find? (·.1 = label) with
  | some e => e.2
  | none => 0

def increment (c : Counter) (label : String) : Counter :=
  putOrdered Prod.fst (label, c.get label + 1) c

end Counter

structure Metrics where
  analyses : Counter := []
  duration : Histogram
  vertices : Histogram
  requests : Counter := []
  reloads : Counter := []

namespace Metrics

def initial : Metrics where
  duration := .create (Histogram.quadrupling (.ofRatio .double false 1 10000) 8)
  vertices := .create (Histogram.quadrupling (.ofInt .double 1) 8)

/-- A number of nanoseconds in seconds: the whole seconds and the rest are converted one by one. -/
def seconds (nanoseconds : Int) : Binary :=
  let rest := nanoseconds.tmod 1000000000
  Binary.add .double (.ofInt .double (nanoseconds.tdiv 1000000000))
    (.ofRatio .double (rest < 0) rest.natAbs 1000000000)

/-- Takes an event in. A failed analysis is only counted, and only one that was carried out has its
duration measured. -/
def observe (m : Metrics) : Event → Metrics
  | .analysisFinished r =>
    if r.failure.isSome then { m with analyses := m.analyses.increment "error" }
    else
      let vertices := m.vertices.observe (.ofInt .double r.vertices)
      if r.cached then { m with analyses := m.analyses.increment "cached", vertices }
      else
        { m with
          analyses := m.analyses.increment "ok"
          duration := m.duration.observe (seconds r.duration)
          vertices }
  | .requestFinished status => { m with requests := m.requests.increment (toString status) }
  | .schemaReloaded _ _ failure =>
    { m with reloads := m.reloads.increment (if failure.isSome then "error" else "ok") }
  | _ => m

end Metrics

/-- Metrics that are fed with events until they are closed. -/
structure MetricsFeed where
  metrics : Metrics := .initial
  attached : Bool := true

namespace MetricsFeed

/-- Takes an event in, unless the feed is closed. -/
def observe (f : MetricsFeed) (e : Event) : MetricsFeed :=
  if f.attached then { f with metrics := f.metrics.observe e } else f

/-- Ends the feed. What was counted stays. -/
def close (f : MetricsFeed) : MetricsFeed := { f with attached := false }

end MetricsFeed

end OperationGraph
