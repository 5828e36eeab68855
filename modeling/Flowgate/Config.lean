import Flowgate.Json.Shape

/-!
Settings of the service: where it listens, the workspace of installed modules, and the flows it
serves.
-/

namespace Flowgate

structure ServerConfig where
  host : String
  port : Nat

structure ModulesConfig where
  -- The workspace: the dependency manifest and the installed packages.
  dir : String
  indexUrl : String
  -- The keyword that every module package carries in the index.
  keyword : String
  -- The most time for one call of the package manager or the index.
  timeoutSecs : Nat

structure FlowsConfig where
  dir : String
  -- The path under which all flow routes are served.
  basePath : String

structure Config where
  server : ServerConfig
  modules : ModulesConfig
  flows : FlowsConfig

-- The number a setting spells: digits, after an optional plus sign, up to `limit`.
def countOfText? (limit : Nat) (text : String) : Option Nat :=
  let digits := match text.toList with
    | '+' :: rest => rest
    | cs => cs
  if digits.isEmpty || !digits.all Char.isDigit then none
  else
    let n := digits.foldl (fun n c => n * 10 + (c.toNat - '0'.toNat)) 0
    if n ≤ limit then some n else none

namespace Config

def largestPort : Nat := 65535

-- The settings that an environment gives; a number that cannot be read counts as absent.
def ofEnvironment (lookup : String → Option String) : Config where
  server :=
    { host := (lookup "ECOFLOW_HOST").getD "0.0.0.0"
      port := (lookup "ECOFLOW_PORT" >>= countOfText? largestPort).getD 4000 }
  modules :=
    { dir := (lookup "ECOFLOW_MODULES_DIR").getD "data/modules"
      indexUrl := (lookup "ECOFLOW_PACKAGE_INDEX").getD "https://registry.npmjs.org"
      keyword := (lookup "ECOFLOW_PACKAGE_KEYWORD").getD "ecoflow"
      timeoutSecs :=
        (lookup "ECOFLOW_INSTALL_TIMEOUT_SECS" >>= countOfText? Json.largestCount).getD 300 }
  flows :=
    { dir := (lookup "ECOFLOW_FLOWS_DIR").getD "data/flows"
      basePath := (lookup "ECOFLOW_FLOW_BASE_PATH").getD "/" }

def shape : Json.Shape :=
  .record
    [Json.required "server"
      (.record [Json.required "host" .string, Json.required "port" (.count largestPort)]),
     Json.required "modules"
      (.record
        [Json.required "dir" .string, Json.required "index_url" .string,
         Json.required "keyword" .string, Json.required "timeout_secs" (.count Json.largestCount)]),
     Json.required "flows"
      (.record [Json.required "dir" .string, Json.required "base_path" .string])]

private def text? (v : Json.Value) (name : String) : Option String := (v.field name).string?

private def count? (v : Json.Value) (name : String) : Option Nat :=
  (v.field name).integer?.map Int.toNat

def codec : Json.Codec Config where
  shape := shape
  decode v := do
    let server := v.field "server"
    let modules := v.field "modules"
    let flows := v.field "flows"
    return {
      server := { host := ← text? server "host", port := ← count? server "port" }
      modules :=
        { dir := ← text? modules "dir", indexUrl := ← text? modules "index_url"
          keyword := ← text? modules "keyword", timeoutSecs := ← count? modules "timeout_secs" }
      flows := { dir := ← text? flows "dir", basePath := ← text? flows "base_path" } }

def toJson (c : Config) : Json.Value :=
  .record
    [("server", .record [("host", .string c.server.host), ("port", .ofNat c.server.port)]),
     ("modules",
      .record
        [("dir", .string c.modules.dir), ("index_url", .string c.modules.indexUrl),
         ("keyword", .string c.modules.keyword), ("timeout_secs", .ofNat c.modules.timeoutSecs)]),
     ("flows", .record [("dir", .string c.flows.dir), ("base_path", .string c.flows.basePath)])]

end Config

-- The time for one call, in milliseconds.
def ModulesConfig.timeout (c : ModulesConfig) : Nat := c.timeoutSecs * 1000

end Flowgate
