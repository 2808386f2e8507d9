import SessionAttributes.Identifier

namespace SessionAttributes

inductive SessionError where
  /-- The backing store failed. -/
  | store (text : String)
  /-- Used after it was shut down. -/
  | closed (what : String)
  | encode (text : String)
  | decode (text : String)
  /-- The names of a session refer to an attribute entry that does not exist. -/
  | missingEntry (key : AttributeKey)
  | config (text : String)
  | file (text : String)
deriving DecidableEq, Repr

namespace SessionError

def kind : SessionError → String
  | .store _ => "Store"
  | .closed _ => "Closed"
  | .encode _ => "Encode"
  | .decode _ => "Decode"
  | .missingEntry _ => "MissingEntry"
  | .config _ => "Config"
  | .file _ => "Io"

def message : SessionError → String
  | .store text => "store: " ++ text
  | .closed what => what ++ " is closed"
  | .encode text => "encode: " ++ text
  | .decode text => "decode: " ++ text
  | .missingEntry key => "missing attribute entry " ++ key.text
  | .config text => "config: " ++ text
  | .file text => "IO: " ++ text

/-- The error of a factory that is used after it was closed. -/
def factoryClosed : SessionError := .closed "session attributes factory"

end SessionError
end SessionAttributes
