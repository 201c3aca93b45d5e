import Entitlement.Text.Blank

/-! # Plan tiers and license types

The four tiers are ordered: each covers everything the tiers below it cover. The license type says
how a license was sold and decides nothing. Both are read from texts that people type, where blanks
around the name and ASCII capitals do not matter.
-/

namespace Entitlement.Plan

/-- The plan a license was sold for. -/
inductive Tier where
  | free | pro | business | enterprise
  deriving DecidableEq, Repr, Inhabited

/-- The rank of a tier. -/
def Tier.level : Tier → Nat
  | .free => 1
  | .pro => 2
  | .business => 3
  | .enterprise => 4

/-- Whether a tier covers everything another one covers. -/
def Tier.includes (tier other : Tier) : Bool :=
  other.level ≤ tier.level

instance : LT Tier := ⟨fun a b => a.level < b.level⟩

instance (a b : Tier) : Decidable (a < b) := inferInstanceAs (Decidable (a.level < b.level))

/-- The tiers from the lowest to the highest. -/
def Tier.all : List Tier := [.free, .pro, .business, .enterprise]

/-- The name of a tier in documents and messages. -/
def Tier.name : Tier → String
  | .free => "free"
  | .pro => "pro"
  | .business => "business"
  | .enterprise => "enterprise"

/-- The name of a tier as a capitalised word. -/
def Tier.label : Tier → String
  | .free => "Free"
  | .pro => "Pro"
  | .business => "Business"
  | .enterprise => "Enterprise"

/-- The name of the product edition that operators see. -/
def Tier.edition : Tier → String
  | .free => "Community"
  | .pro => "Pro"
  | .business => "Business"
  | .enterprise => "Enterprise"

/-- How a license was sold. -/
inductive LicenseType where
  | trial | subscription | perpetual | enterpriseCustom
  deriving DecidableEq, Repr, Inhabited

/-- The license types in the order in which messages list them. -/
def LicenseType.all : List LicenseType := [.trial, .subscription, .perpetual, .enterpriseCustom]

/-- The name of a license type in documents and messages. -/
def LicenseType.name : LicenseType → String
  | .trial => "trial"
  | .subscription => "subscription"
  | .perpetual => "perpetual"
  | .enterpriseCustom => "enterprise_custom"

/-- A text that names no tier, or no license type. -/
inductive NameError where
  | tier (text : String)
  | licenseType (text : String)
  deriving DecidableEq

def NameError.message : NameError → String
  | .tier text => s!"unknown tier '{text}'"
  | .licenseType text => s!"unknown license type '{text}'"

/-- Reads the name of a tier; the lowest tier also goes by the name of its edition. -/
def Tier.ofText (text : String) : Except NameError Tier :=
  let name := Text.lowerAscii (Text.trim text)
  if name = "free" ∨ name = "community" then .ok .free
  else if name = "pro" then .ok .pro
  else if name = "business" then .ok .business
  else if name = "enterprise" then .ok .enterprise
  else .error (.tier text)

/-- Reads the name of a license type, in which a hyphen may stand for the underscore. -/
def LicenseType.ofText (text : String) : Except NameError LicenseType :=
  let name := (Text.lowerAscii (Text.trim text)).map fun c => if c = '-' then '_' else c
  match LicenseType.all.find? fun kind => kind.name == name with
  | some kind => .ok kind
  | none => .error (.licenseType text)

end Entitlement.Plan
