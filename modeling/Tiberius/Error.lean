import Mathlib.Data.List.Basic

/-!
The driver's error type with the texts it displays. A decoder can also panic,
which ends the caller instead of returning an error; the two are kept apart in
`Fault`, so that the absence of panics is a statement about the model.
-/

namespace Tiberius

/-- The categories of I/O errors the driver raises or passes on. -/
inductive IoErrorKind where
  | brokenPipe
  | connectionReset
  | invalidData
  | invalidInput
  | notFound
  | timedOut
  | unexpectedEof
  | other
  deriving DecidableEq, Repr

inductive ParseIntError where
  | empty
  | invalidDigit
  | posOverflow
  | negOverflow
  | zero
  deriving DecidableEq, Repr

/-- An ERROR token of the server. -/
structure TokenError where
  code : UInt32
  state : UInt8
  class_ : UInt8
  message : String
  server : String
  procedure : String
  line : UInt32
  deriving DecidableEq, Repr

inductive Error where
  | io (kind : IoErrorKind) (message : String)
  | protocol (message : String)
  | encoding (message : String)
  | conversion (message : String)
  | utf8
  | utf16
  | parseInt (error : ParseIntError)
  | server (token : TokenError)
  | tls (message : String)
  | routing (host : String) (port : UInt16)
  | bulkInput (message : String)
  deriving DecidableEq, Repr

def ParseIntError.display : ParseIntError → String
  | empty => "cannot parse integer from empty string"
  | invalidDigit => "invalid digit found in string"
  | posOverflow => "number too large to fit in target type"
  | negOverflow => "number too small to fit in target type"
  | zero => "number would be zero for non-zero type"

def TokenError.display (token : TokenError) : String :=
  "'" ++ token.message ++ "' on server " ++ token.server ++ " executing " ++ token.procedure ++
    " on line " ++ toString token.line ++ " (code: " ++ toString token.code ++ ", state: " ++
    toString token.state ++ ", class: " ++ toString token.class_ ++ ")"

def Error.display : Error → String
  | io _ message => "An error occurred during the attempt of performing I/O: " ++ message
  | protocol message => "Protocol error: " ++ message
  | encoding message => "Encoding error: " ++ message
  | conversion message => "Conversion error: " ++ message
  | utf8 => "UTF-8 error"
  | utf16 => "UTF-16 error"
  | parseInt error => "Error parsing an integer: " ++ error.display
  | server token => "Token error: " ++ token.display
  | tls message => "Error forming TLS connection: " ++ message
  | routing host port =>
    "Server requested a connection to an alternative address: `" ++ host ++ ":" ++
      toString port ++ "`"
  | bulkInput message => "BULK UPLOAD input failure: " ++ message

/-- The error code, if the error originates from the server. -/
def Error.code : Error → Option UInt32
  | server token => some token.code
  | _ => none

/-- True, if the error was caused by a deadlock. -/
def Error.isDeadlock (error : Error) : Bool :=
  (error.code.map (· == 1205)).getD false

/-- A read of a closed source through the crate's own readers. -/
def Error.unexpectedEof : Error := .io .unexpectedEof "unexpected end of file"

/-- A read past the end of an in-memory cursor. -/
def Error.shortBuffer : Error := .io .unexpectedEof "failed to fill whole buffer"

/-- What ends a computation early: an error that is returned, or a panic. -/
inductive Fault where
  | error (error : Error)
  | panic
  deriving DecidableEq, Repr

end Tiberius
