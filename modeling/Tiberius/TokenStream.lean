import Tiberius.Connection

/-!
The token stream of a response. A step ends the stream when the connection
stands at the end of the message, with the first ERROR token of the response if
there was one; otherwise it reads one token and records it in the context.
The consumers of a stream are state machines over its tokens. Reading a
contiguous byte string token by token is the reference they are compared to.
-/

namespace Tiberius

open Reading

structure TokenStream where
  conn : Connection
  lastError : Option Error
  deriving DecidableEq, Repr

inductive NextToken where
  | token (token : ReceivedToken) (stream : TokenStream)
  | finished (conn : Connection)
  | failed (error : Error) (conn : Connection)
  | panicked (conn : Connection)
  | pending (left : Reader ReceivedToken) (stream : TokenStream)

/-- The first ERROR token is kept for the end of the stream. -/
def rememberError (lastError : Option Error) : ReceivedToken → Option Error
  | .error error => lastError.or (some (.server error))
  | _ => lastError

def finalError (tokens : List ReceivedToken) : Option Error := tokens.foldl rememberError none

namespace TokenStream

def new (conn : Connection) : TokenStream where
  conn := conn
  lastError := none

/-- Record a decoded token, unless the context refuses it. -/
def accept (stream : TokenStream) (token : ReceivedToken) (conn : Connection) : NextToken :=
  match conn.context.receive token with
  | .ok context =>
    .token token
      { conn := { conn with context := context }
        lastError := rememberError stream.lastError token }
  | .error error => .failed error conn

def finish (stream : TokenStream) : NextToken :=
  match stream.lastError with
  | none => .finished stream.conn
  | some error => .failed error stream.conn

section

variable [EncodingRs]

/-- Take up a token whose decoding stands at a read. -/
def resume (stream : TokenStream) (reader : Reader ReceivedToken) : NextToken :=
  match reader.drive Connection.pollRead stream.conn.context stream.conn with
  | .done token conn => stream.accept token conn
  | .failed (.error error) conn => .failed error conn
  | .failed .panic conn => .panicked conn
  | .pending left conn => .pending left { stream with conn := conn }

def next (stream : TokenStream) : NextToken :=
  if stream.conn.isEof then stream.finish else stream.resume ReceivedToken.decode

end

def timedOut (timeout : Duration) : Error := .io .timedOut <|
  "the server did not send the next part of the command result within " ++ timeout.debug ++
    " (it may have stalled, or be responding too slowly for the configured bound); the " ++
    "connection is now out of sync and must be dropped. Adjust the bound with " ++
    "`Config::command_timeout`, or pass `None` to wait indefinitely."

def elapse (timeout : Duration) (stream : TokenStream) : NextToken :=
  .failed (timedOut timeout) { stream.conn with commandDesync := true }

end TokenStream

def Connection.unread (conn : Connection) : List UInt8 :=
  conn.buf ++ conn.transport.inbound.flatMap Packet.payload

structure Consumer (σ α : Type) where
  step : σ → ReceivedToken → σ ⊕ Except Error α
  finish : σ → Except Error α

namespace Consumer

variable {σ α : Type}

def onTokens (consumer : Consumer σ α) (final : Option Error) :
    σ → List ReceivedToken → Except Error α
  | state, [] =>
    match final with
    | none => consumer.finish state
    | some error => .error error
  | state, token :: rest =>
    match consumer.step state token with
    | .inl state => consumer.onTokens final state rest
    | .inr result => result

/-- A consumer on a stream; every token takes at least one byte, so `fuel`
turns are enough when more turns than unread bytes are given. -/
def onStream [EncodingRs] (consumer : Consumer σ α) : ℕ → σ → TokenStream → Finished α
  | 0, _, stream => .waiting stream.conn
  | fuel + 1, state, stream =>
    match stream.next with
    | .token token stream =>
      match consumer.step state token with
      | .inl state => consumer.onStream fuel state stream
      | .inr result => .returned result stream.conn
    | .finished conn => .returned (consumer.finish state) conn
    | .failed error conn => .returned (.error error) conn
    | .panicked conn => .panicked conn
    | .pending _ stream => .waiting stream.conn

def run [EncodingRs] (consumer : Consumer σ α) (state : σ) (conn : Connection) : Finished α :=
  consumer.onStream (conn.unread.length + 1) state (.new conn)

end Consumer

/-- `flush_done`: the first DONE, unless an error or a routing came before it. -/
def flushDone : Consumer (Option TokenError × Option Error) TokenDone where
  step state
    | .error error => .inl (state.1.or (some error), state.2)
    | .done done =>
      match state with
      | (some error, _) => .inr (.error (.server error))
      | (none, some routing) => .inr (.error routing)
      | (none, none) => .inr (.ok done)
    | .envChange (.routing host port) => .inl (state.1, some (.routing host port))
    | _ => .inl state
  finish _ := .error (.protocol "Never got DONE token.")

/-- `flush_sspi`: the first SSPI token. An error counts only where there is none. -/
def flushSspi : Consumer (Option TokenError) TokenSspi where
  step state
    | .error error => .inl (state.or (some error))
    | .sspi token => .inr (.ok token)
    | _ => .inl state
  finish
    | some error => .error (.server error)
    | none => .error (.protocol "Never got SSPI token.")

def ReceivedToken.attentionDone : ReceivedToken → Option TokenDone
  | .done token | .doneProc token | .doneInProc token =>
    if token.isAttention then some token else none
  | _ => none

def flushDoneAttention : Consumer Unit TokenDone where
  step _ token :=
    match token.attentionDone with
    | some done => .inr (.ok done)
    | none => .inl ()
  finish _ :=
    .error (.protocol "Never got a DONE token acknowledging the Attention signal.")

/-- How reading a contiguous byte string token by token ends: at its end with
the context reached, at a token that is refused, in a panic, or inside a token. -/
inductive Scan where
  | complete (context : Context)
  | rejected (error : Error)
  | panicked
  | cut (left : Reader ReceivedToken) (context : Context) (rest : List UInt8)

section

variable [EncodingRs]

def scanFrom : ℕ → Context → List UInt8 → List ReceivedToken × Scan
  | 0, context, _ => ([], .complete context)
  | fuel + 1, context, bytes =>
    if bytes.isEmpty then ([], .complete context)
    else
      match ReceivedToken.decode.run context bytes with
      | .done token rest =>
        match context.receive token with
        | .ok context =>
          let (tokens, ending) := scanFrom fuel context rest
          (token :: tokens, ending)
        | .error error => ([], .rejected error)
      | .failed (.error error) _ => ([], .rejected error)
      | .failed .panic _ => ([], .panicked)
      | .short left rest => ([], .cut left context rest)

/-- Every token takes at least one byte. -/
def scan (context : Context) (bytes : List UInt8) : List ReceivedToken × Scan :=
  scanFrom bytes.length context bytes

end

end Tiberius
