import Flowgate.Route.Error

/-!
Duplicate routes: the keys that occur more than once, with their counts. The report depends on how
often each key occurs and on nothing else.
-/

namespace Flowgate.Route

def frequency (keys : List String) : Entries Nat :=
  keys.foldl (fun counts key => Entries.insert key ((Entries.get? counts key).getD 0 + 1) counts) []

def duplicates (keys : List String) : Entries Nat :=
  (frequency keys).filter fun (_, count) => count > 1

def ensureUnique (keys : List String) : Except Error Unit :=
  let report := duplicates keys
  if report.isEmpty then .ok () else .error (.conflict report)

end Flowgate.Route
