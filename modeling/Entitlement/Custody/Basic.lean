import Entitlement.Custody.Event

/-! # Custody of the license in force

Exactly one license is in force at any time, from the start the Community default. Loading a key
puts its license in force; checking the key again later renews it or, when the key no longer holds,
puts Community back. A check takes a snapshot first and may be overtaken by other changes before it
comes to its verdict, so it may only take away the very license of its snapshot. Licenses are told
apart by their installations: loading the same key again makes an equal license, but another
installation.
-/

namespace Entitlement

open Calendar Grant

/-- A verdict on a key at an instant. -/
abbrev Verdict := String → Timestamp → Except Key.VerificationError License

/-- The license in force, the license clock and the events so far. -/
structure Custody where
  license : License
  /-- How many licenses have replaced another one; it tells installations apart. -/
  installation : Nat
  clock : Timestamp
  /-- Every event since the start, the oldest first. -/
  log : List Custody.Event

namespace Custody

/-- Custody before anything has happened. -/
def start (clock : Timestamp) : Custody where
  license := .community
  installation := 0
  clock := clock
  log := []

/-- Puts a license in force. -/
def install (license : License) (c : Custody) : Custody :=
  { c with license := license, installation := c.installation + 1 }

def emit (event : Event) (c : Custody) : Custody :=
  { c with log := c.log ++ [event] }

/-- Puts a license in force and says so. -/
def announce (license : License) (c : Custody) : Custody :=
  (c.install license).emit (.inEffect license)

/-- Puts Community in force. -/
def useCommunity (c : Custody) : Custody :=
  c.announce .community

/-- Puts the license of a key in force, unless the key is rejected. -/
def load (verdict : Verdict) (key : String) (c : Custody) :
    Custody × Except Key.VerificationError License :=
  match verdict key c.clock with
  | .error e => (c, .error e)
  | .ok license => (c.announce license, .ok license)

/-! ## Checking a key again -/

/-- What a check takes note of before it starts. -/
structure Snapshot where
  license : License
  installation : Nat

/-- The license in force with its installation. -/
def snapshot (c : Custody) : Snapshot :=
  ⟨c.license, c.installation⟩

/-- What came of checking a key again. -/
inductive Revalidation where
  /-- The key still holds, and its license is in force. -/
  | renewed (license : License)
  /-- The key no longer holds, and Community has replaced the license in force. -/
  | demoted (cause : Key.VerificationError)
  /-- The key no longer holds, and the license in force has been left alone. -/
  | unchanged (cause : Key.VerificationError)

/-- Puts a renewed license in force. This is told only if it brings another license. -/
def renew (license : License) (c : Custody) : Custody :=
  let isNews := c.license.isCommunity || c.license.id != license.id
  if isNews then c.announce license else c.install license

/-- Whether the license of a snapshot can be taken away: it is still in force and not Community. -/
def isDroppable (c : Custody) (snapshot : Snapshot) : Bool :=
  !c.license.isCommunity && c.installation == snapshot.installation

/-- Brings a check to its end that started with a snapshot. -/
def settle (verdict : Verdict) (key : String) (snapshot : Snapshot) (c : Custody) :
    Custody × Revalidation :=
  match verdict key c.clock with
  | .ok license => (c.renew license, .renewed license)
  | .error cause =>
    if c.isDroppable snapshot then
      let c := c.install .community
      (c.emit (.revalidationFailed snapshot.license.id c.license.tier cause.kind)
        |>.emit (.licenseDemoted snapshot.license.id c.license.tier), .demoted cause)
    else
      (c.emit (.revalidationFailed snapshot.license.id c.license.tier cause.kind),
        .unchanged cause)

/-- Checks a key again. -/
def revalidate (verdict : Verdict) (key : String) (c : Custody) : Custody × Revalidation :=
  c.settle verdict key c.snapshot

/-! ## Summary -/

/-- What may be shown of the license in force. -/
def summary (c : Custody) : String :=
  "LicenseManager \x7b license_id: " ++ Text.quoted c.license.id ++ ", tier: " ++
    c.license.tier.label ++ ", .. \x7d"

end Custody

end Entitlement
