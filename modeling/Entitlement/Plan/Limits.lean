import Entitlement.Ascending

/-! # Usage limits

A limit is a named ceiling on usage; the ceiling zero means that usage is not limited. A name
without a ceiling allows nothing. Ceilings are 64-bit words, but a signed license can carry only
those that a double-precision number represents exactly together with all smaller ones.
-/

namespace Entitlement.Plan

/-- Named usage ceilings. -/
structure Limits where
  table : Table UInt64
  deriving DecidableEq, Inhabited

namespace Limits

/-- The ceiling that does not limit. -/
def unlimited : UInt64 := 0

/-- The largest ceiling that a signed license can carry. -/
def maxEncodable : UInt64 := 9007199254740991

def empty : Limits := ⟨∅⟩

/-- Sets a ceiling, in place of any ceiling the name has. -/
def set (limits : Limits) (name : String) (ceiling : UInt64) : Limits :=
  ⟨limits.table.set name ceiling⟩

/-- The ceiling of a name. -/
def get? (limits : Limits) (name : String) : Option UInt64 :=
  limits.table.get? name

/-- Names and ceilings in ascending order of the names. -/
def entries (limits : Limits) : List (String × UInt64) :=
  limits.table.toList

/-- Whether one more unit may be used when `usage` units are in use. -/
def allows (limits : Limits) (name : String) (usage : UInt64) : Bool :=
  match limits.get? name with
  | none => false
  | some ceiling => ceiling == unlimited || usage < ceiling

/-- The first entry that a signed license cannot carry. -/
def firstUnencodable? (limits : Limits) : Option (String × UInt64) :=
  limits.entries.find? fun entry => maxEncodable < entry.2

/-- The ceilings of the Community edition. -/
def community : Limits :=
  empty
    |>.set "max_hosts" 15
    |>.set "max_users" 3
    |>.set "max_domains" 1
    |>.set "max_links_per_month" 1000
    |>.set "max_api_requests_per_minute" 60
    |>.set "history_days" 30

end Limits

end Entitlement.Plan
