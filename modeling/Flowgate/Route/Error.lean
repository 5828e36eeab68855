import Flowgate.Entries

/-!
Why a set of routes is refused.
-/

namespace Flowgate.Route

inductive Error where
  | compilation (spec reason : String)
  -- Keys that more than one route has, with the number of routes that have each.
  | conflict (report : Entries Nat)
  | unsupportedMethod (method : String)
  -- Two routes that no request can tell apart.
  | ambiguous (first second : String)
deriving DecidableEq

namespace Error

def message : Error → String
  | .compilation spec reason => "Invalid route spec '" ++ spec ++ "': " ++ reason
  | .conflict report =>
    "Duplicate routes detected: "
      ++ ", ".intercalate (report.map fun (key, count) => key ++ " (x" ++ toString count ++ ")")
  | .unsupportedMethod method => "Unsupported HTTP method '" ++ method ++ "'"
  | .ambiguous first second =>
    "Routes '" ++ first ++ "' and '" ++ second ++ "' cannot be told apart by the router"

end Error

end Flowgate.Route
