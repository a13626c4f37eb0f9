/-!
# Errors of the SDK

`error.rs` and the response codes of `api.rs`: what a failed call hands to its caller. Messages are
kept, since two of the layers above rebuild an error from its text.
-/

namespace ProtonDrive

/-- The `Code` of a response envelope. -/
inductive ResponseCode where
  | unknown
  | unauthorized
  | forbidden
  | requestTimeout
  | tooManyRequests
  | serviceUnavailable
  | success
  | multipleResponses
  | invalidRequirements
  | invalidValue
  | notEnoughPermissions
  | notEnoughPermissionsToGrantPermissions
  | blocked
  | invalidEncryptedIdFormat
  | alreadyExists
  | doesNotExist
  | timeout
  | incompatibleState
  | invalidApp
  | outdatedApp
  | offline
  | incorrectLoginCredentials
  | humanVerificationRequired
  | insufficientScope
  | accountDeleted
  | accountDisabled
  | invalidRefreshToken
  | noActiveSubscription
  | addressMissing
  | domainExternal
  | protonDriveUnknown
  | insufficientQuota
  | insufficientSpace
  | insufficientVolumeQuota
  | tooManyChildren
  | nestingTooDeep
  | albumContainsPhotosNotInTimeline
  deriving DecidableEq, Repr

/-- The name of a code, as `{:?}` prints it. -/
def ResponseCode.debug : ResponseCode → String
  | .unknown => "Unknown"
  | .unauthorized => "Unauthorized"
  | .forbidden => "Forbidden"
  | .requestTimeout => "RequestTimeout"
  | .tooManyRequests => "TooManyRequests"
  | .serviceUnavailable => "ServiceUnavailable"
  | .success => "Success"
  | .multipleResponses => "MultipleResponses"
  | .invalidRequirements => "InvalidRequirements"
  | .invalidValue => "InvalidValue"
  | .notEnoughPermissions => "NotEnoughPermissions"
  | .notEnoughPermissionsToGrantPermissions => "NotEnoughPermissionsToGrantPermissions"
  | .blocked => "Blocked"
  | .invalidEncryptedIdFormat => "InvalidEncryptedIdFormat"
  | .alreadyExists => "AlreadyExists"
  | .doesNotExist => "DoesNotExist"
  | .timeout => "Timeout"
  | .incompatibleState => "IncompatibleState"
  | .invalidApp => "InvalidApp"
  | .outdatedApp => "OutdatedApp"
  | .offline => "Offline"
  | .incorrectLoginCredentials => "IncorrectLoginCredentials"
  | .humanVerificationRequired => "HumanVerificationRequired"
  | .insufficientScope => "InsufficientScope"
  | .accountDeleted => "AccountDeleted"
  | .accountDisabled => "AccountDisabled"
  | .invalidRefreshToken => "InvalidRefreshToken"
  | .noActiveSubscription => "NoActiveSubscription"
  | .addressMissing => "AddressMissing"
  | .domainExternal => "DomainExternal"
  | .protonDriveUnknown => "ProtonDriveUnknown"
  | .insufficientQuota => "InsufficientQuota"
  | .insufficientSpace => "InsufficientSpace"
  | .insufficientVolumeQuota => "InsufficientVolumeQuota"
  | .tooManyChildren => "TooManyChildren"
  | .nestingTooDeep => "NestingTooDeep"
  | .albumContainsPhotosNotInTimeline => "AlbumContainsPhotosNotInTimeline"

/-- The envelope every API response embeds; `details` is the raw JSON of its `Details`. -/
structure ApiResponse where
  code : ResponseCode
  errorMessage : Option String
  details : Option String
  deriving DecidableEq, Repr

def ApiResponse.isSuccess (r : ApiResponse) : Bool := r.code == .success

/-- An error the API reported in its envelope. -/
structure ProtonApiError where
  code : ResponseCode
  httpStatus : Nat
  message : String
  details : Option String
  deriving DecidableEq, Repr

/-- What the code asks of a `reqwest::Error`. An error may answer yes to several of the questions: a
connection that could not be opened in time is both `isTimeout` and `isConnect`. -/
structure TransportError where
  isTimeout : Bool
  isConnect : Bool
  isRequest : Bool
  text : String
  deriving DecidableEq, Repr

inductive ProtonError where
  | api (e : ProtonApiError)
  | transport (e : TransportError)
  | serialization (text : String)
  | crypto (text : String)
  | keysLocked
  | invalidOperation (text : String)
  deriving DecidableEq, Repr

/-- The text of an error, as `{}` prints it. -/
def ProtonError.text : ProtonError → String
  | .api e =>
      "proton api error " ++ e.code.debug ++ " (http " ++ toString e.httpStatus ++ "): " ++ e.message
  | .transport e => "HTTP transport error: " ++ e.text
  | .serialization text => "serialization error: " ++ text
  | .crypto text => "cryptography error: " ++ text
  | .keysLocked => "none of the account's keys could be unlocked with this password"
  | .invalidOperation text => "invalid operation: " ++ text

end ProtonDrive
