import OperationGraph.Settings.Decode
import OperationGraph.Settings.Layers

/-! # Settings

The settings of the program with their defaults and the conditions on them. -/

namespace OperationGraph

structure ServerSettings where
  address : String
  timeout : Duration
  maxBodyBytes : Int
  pretty : Bool
  corsOrigins : List String
  cacheSize : Int
  watch : Bool
deriving Repr

structure TracingSettings where
  endpoint : String
  service : String
deriving Repr

structure MetricsSettings where
  enabled : Bool
  path : String
deriving Repr

structure Settings where
  schema : List String
  logLevel : String
  logDevelopment : Bool
  server : ServerSettings
  tracing : TracingSettings
  metrics : MetricsSettings
deriving Repr

inductive SettingsError where
  | undecodable (faults : List SettingFault)
  | noSchema
  | noAddress
  | negativeTimeout (d : Duration)
  | negativeBodyLimit (n : Int)
  | negativeCacheSize (n : Int)
  | relativeMetricsPath (path : String)
deriving Repr

def SettingsError.message : SettingsError → String
  | undecodable faults =>
    "decode config: " ++ toString faults.length ++ " error(s) decoding:\n\n"
      ++ "\n".intercalate (sortNames (faults.map fun f => "* " ++ f.message))
  | noSchema => "config: at least one schema file is required"
  | noAddress => "config: server.addr must not be empty"
  | negativeTimeout d => "config: server.timeout must not be negative, got " ++ d.text
  | negativeBodyLimit n => "config: server.max_body_bytes must not be negative, got " ++ toString n
  | negativeCacheSize n => "config: server.cache_size must not be negative, got " ++ toString n
  | relativeMetricsPath p => "config: metrics.path must start with '/', got " ++ Text.quoted p

def defaultSettings : Entries :=
  let defaults : List (String × Value) :=
    [("log_level", .string "info"),
      ("log_development", .boolean false),
      ("server.addr", .string ":8080"),
      ("server.timeout", .int .bits64 10000000000),
      ("server.max_body_bytes", .int .bits64 1048576),
      ("server.pretty", .boolean false),
      ("server.cache_size", .int .plain 1024),
      ("server.watch", .boolean false),
      ("otel.endpoint", .string ""),
      ("otel.service", .string "fieldgraph"),
      ("metrics.enabled", .boolean true),
      ("metrics.path", .string "/metrics")]
  defaults.foldl (fun es d => es.assign d.2 (Layers.path d.1)) []

/-- The layers with nothing but the defaults and an environment. -/
def Layers.start (environment : List (String × String)) : Layers where
  environment
  environmentName := "FIELDGRAPH"
  bound := ["schema", "server.cors_origins"]
  defaults := defaultSettings

/-- A setting of a group, null if it is not there. -/
def Entries.field (es : Entries) (name : String) : Value := (es.find? name).getD .null

def ServerSettings.decode (v : Value) : Decoded ServerSettings :=
  let g := Decoded.group "server" v
  let address := Decoded.text "server.addr" (g.value.field "addr")
  let timeout := Decoded.duration "server.timeout" (g.value.field "timeout")
  let body := Decoded.integer "server.max_body_bytes" "int64" (g.value.field "max_body_bytes")
  let pretty := Decoded.truth "server.pretty" (g.value.field "pretty")
  let origins := Decoded.list "server.cors_origins" (g.value.field "cors_origins")
  let cache := Decoded.integer "server.cache_size" "int" (g.value.field "cache_size")
  let watch := Decoded.truth "server.watch" (g.value.field "watch")
  { value :=
      { address := address.value
        timeout := timeout.value
        maxBodyBytes := body.value
        pretty := pretty.value
        corsOrigins := origins.value
        cacheSize := cache.value
        watch := watch.value }
    faults := g.faults ++ address.faults ++ timeout.faults ++ body.faults ++ pretty.faults
      ++ origins.faults ++ cache.faults ++ watch.faults }

def TracingSettings.decode (v : Value) : Decoded TracingSettings :=
  let g := Decoded.group "otel" v
  let endpoint := Decoded.text "otel.endpoint" (g.value.field "endpoint")
  let service := Decoded.text "otel.service" (g.value.field "service")
  { value := { endpoint := endpoint.value, service := service.value }
    faults := g.faults ++ endpoint.faults ++ service.faults }

def MetricsSettings.decode (v : Value) : Decoded MetricsSettings :=
  let g := Decoded.group "metrics" v
  let enabled := Decoded.truth "metrics.enabled" (g.value.field "enabled")
  let path := Decoded.text "metrics.path" (g.value.field "path")
  { value := { enabled := enabled.value, path := path.value }
    faults := g.faults ++ enabled.faults ++ path.faults }

namespace Settings

def decode (es : Entries) : Decoded Settings :=
  let schema := Decoded.list "schema" (es.field "schema")
  let level := Decoded.text "log_level" (es.field "log_level")
  let development := Decoded.truth "log_development" (es.field "log_development")
  let server := ServerSettings.decode (es.field "server")
  let tracing := TracingSettings.decode (es.field "otel")
  let metrics := MetricsSettings.decode (es.field "metrics")
  { value :=
      { schema := schema.value
        logLevel := level.value
        logDevelopment := development.value
        server := server.value
        tracing := tracing.value
        metrics := metrics.value }
    faults := schema.faults ++ level.faults ++ development.faults ++ server.faults
      ++ tracing.faults ++ metrics.faults }

def fault? (s : Settings) : Option SettingsError :=
  if s.schema.isEmpty then some .noSchema
  else if s.server.address = "" then some .noAddress
  else if s.server.timeout.nanoseconds < 0 then some (.negativeTimeout s.server.timeout)
  else if s.server.maxBodyBytes < 0 then some (.negativeBodyLimit s.server.maxBodyBytes)
  else if s.server.cacheSize < 0 then some (.negativeCacheSize s.server.cacheSize)
  else if s.metrics.enabled && s.metrics.path.toList.head? ≠ some '/' then
    some (.relativeMetricsPath s.metrics.path)
  else none

def ofLayers (l : Layers) : Except SettingsError Settings :=
  let d := decode l.settings
  if d.faults.isEmpty then
    match d.value.fault? with
    | some e => .error e
    | none => .ok d.value
  else .error (.undecodable d.faults)

end Settings

end OperationGraph
