import Entitlement.Folder
import Entitlement.Key.Issue
import Entitlement.Key.Verify
import Entitlement.Text.Integer
import Entitlement.Text.Report

/-! # Failures of the issuing tool

A command that is understood can still fail: a time, a limit or a file is not as it should be, a key
is malformed, or a license is not signed or not accepted. Each failure is reported with its causes.
-/

namespace Entitlement.Tool

open Calendar Key

/-- Why a command fails. -/
inductive Failure where
  | badTime (flag text : String) (cause : TimestampError)
  | badPair (flag text : String)
  | badLimit (name : String) (cause : Text.IntegerError)
  | limitTooLarge (name : String)
  | keyFileUnread (cause : FileError)
  | badPrivateKey (cause : KeyError)
  | badPublicKey (cause : KeyError)
  | notIssued (cause : IssueError)
  | licenseUnwritten (cause : FileError)
  | licenseUnread (cause : FileError)
  | rejected (cause : VerificationError)
  | noDirectory (cause : FileError)
  | privateKeyUnwritten (cause : FileError)
  | publicKeyUnwritten (cause : FileError)
  deriving DecidableEq

/-- The causes of a malformed time: it was not understood as a time, because one of its parts was
not understood or is out of range. -/
def timeCauses (cause : TimestampError) : List String :=
  match cause with
  | .range _ => [cause.message, cause.message, cause.message]
  | _ => [cause.message, cause.message]

def Failure.message : Failure → String
  | .badTime flag text _ => s!"{flag} must be RFC 3339, got '{text}'"
  | .badPair flag text => s!"{flag} expects key=value, got '{text}'"
  | .badLimit name _ => s!"--limit {name} must be a non-negative integer"
  | .limitTooLarge name => s!"--limit {name} must not exceed {Plan.Limits.maxEncodable}"
  | .keyFileUnread _ => "Failed to read private key file"
  | .badPrivateKey _ => "Failed to decode private key"
  | .badPublicKey cause => cause.message
  | .notIssued _ => "Failed to sign license"
  | .licenseUnwritten _ => "Failed to write license key"
  | .licenseUnread _ => "Failed to read license key file"
  | .rejected cause => s!"license rejected ({cause.kind.name}): {cause.message}"
  | .noDirectory _ => "Failed to create output directory"
  | .privateKeyUnwritten _ => "Failed to write private key"
  | .publicKeyUnwritten _ => "Failed to write public key"

/-- The causes of a failure, the nearest one first. -/
def Failure.causes : Failure → List String
  | .badTime _ _ cause => timeCauses cause
  | .badPair _ _ | .limitTooLarge _ | .rejected _ => []
  | .badLimit _ cause => [cause.message]
  | .badPrivateKey cause => cause.chain
  | .badPublicKey cause => cause.chain.tail
  | .notIssued cause => [cause.message]
  | .keyFileUnread cause | .licenseUnwritten cause | .licenseUnread cause | .noDirectory cause
  | .privateKeyUnwritten cause | .publicKeyUnwritten cause => [cause.message]

/-- The report of a failure. -/
def Failure.report (failure : Failure) : String :=
  Text.report failure.message failure.causes

end Entitlement.Tool
