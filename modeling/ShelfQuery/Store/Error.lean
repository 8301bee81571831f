set_option autoImplicit false

namespace ShelfQuery.Store

inductive SettingsError where
  | unsupportedUrl (url : String)
  | unknownBackend (name : String)
  deriving DecidableEq

def SettingsError.message : SettingsError → String
  | .unsupportedUrl url => "only sqlite urls are supported: " ++ url
  | .unknownBackend name => "unknown cache backend: " ++ name

inductive StoreError where
  | noSuchTable (name : String)
  | lockTimeout (what : String) (seconds : Nat)
  | connection (detail : String)
  | settings (cause : SettingsError)
  | refused (detail : String)
  deriving DecidableEq

namespace StoreError

def message : StoreError → String
  | .noSuchTable name => "no such table: " ++ name
  | .lockTimeout what seconds => "timed out after " ++ toString seconds ++ "s waiting for the " ++ what ++ " lock"
  | .connection detail => "connection error: " ++ detail
  | .settings cause => "invalid database config: " ++ cause.message
  | .refused detail => "query error: " ++ detail

def isNoSuchTable : StoreError → Bool
  | .noSuchTable _ => true
  | _ => false

def isRetryable : StoreError → Bool
  | .lockTimeout _ _ => true
  | .connection _ => true
  | _ => false

end StoreError

end ShelfQuery.Store
