import Tiberius.TokenStream

/-!
The consumers of a response: the row counts of `ExecuteResult`, the items and
result sets of a `QueryStream`, and the outcome of a `CommandStream`. Each keeps
its own state about result sets and counts over the tokens it is given, and each
passes on the error a token stream ends with.
-/

namespace Tiberius

structure Row where
  columns : List Column
  data : TokenRow
  resultIndex : ℕ
  deriving DecidableEq, Repr

/-- `ExecuteResult::new`: the counts of all DONE tokens but a final DONEPROC. -/
def ExecuteResult.new : Consumer (List UInt64) (List UInt64) where
  step rowsAffected
    | .doneProc done =>
      if done.isFinal then .inl rowsAffected else .inl (rowsAffected ++ [done.rows])
    | .doneInProc done => .inl (rowsAffected ++ [done.rows])
    | .done done => .inl (rowsAffected ++ [done.rows])
    | _ => .inl rowsAffected
  finish rowsAffected := .ok rowsAffected

structure ResultMetadata where
  columns : List Column
  resultIndex : ℕ
  deriving DecidableEq, Repr

inductive QueryItem where
  | row (row : Row)
  | metadata (metadata : ResultMetadata)
  deriving DecidableEq, Repr

/-- The next ordinal of a result set. -/
def nextIndex (index : Option ℕ) : ℕ :=
  match index with
  | some i => i + 1
  | none => 0

def rowWithoutMetadata : Error := .protocol "ROW token arrived before any column metadata"

/-- The state of a query stream. A stream that is still being forwarded drops
its tokens up to the first column metadata. -/
structure QueryStream where
  forwarded : Bool
  columns : Option (List Column)
  resultSetIndex : Option ℕ
  deriving DecidableEq, Repr

namespace QueryStream

def new : QueryStream where
  forwarded := true
  columns := none
  resultSetIndex := none

/-- A stream that `forward_to_metadata` is called on. -/
def forwarding : QueryStream := { new with forwarded := false }

/-- One token of `poll_next`: an item, an error, or neither. -/
def onToken (stream : QueryStream) : ReceivedToken → QueryStream × Option (Except Error QueryItem)
  | .newResultset metadata =>
    let index := nextIndex stream.resultSetIndex
    ({ forwarded := true, columns := some metadata.toColumns, resultSetIndex := some index },
      some (.ok (.metadata { columns := metadata.toColumns, resultIndex := index })))
  | .row data =>
    if stream.forwarded then
      match stream.columns with
      | none => (stream, some (.error rowWithoutMetadata))
      | some columns =>
        (stream, some (.ok (.row
          { columns := columns, data := data, resultIndex := stream.resultSetIndex.getD 0 })))
    else (stream, none)
  | _ => (stream, none)

end QueryStream

/-- A query stream read to its end, item by item. -/
def queryItems : Consumer (QueryStream × List QueryItem) (List QueryItem) where
  step state token :=
    match state.1.onToken token with
    | (stream, none) => .inl (stream, state.2)
    | (stream, some (.ok item)) => .inl (stream, state.2 ++ [item])
    | (_, some (.error error)) => .inr (.error error)
  finish state := .ok state.2

/-- The result sets gathered so far and the one that is open. -/
structure Collected where
  results : List (List Row)
  current : Option (List Row)
  deriving DecidableEq, Repr

namespace Collected

def empty : Collected where
  results := []
  current := none

/-- New metadata closes the open result set and opens an empty one. -/
def onMetadata (collected : Collected) : Collected where
  results := collected.results ++ collected.current.toList
  current := some []

def onRow (collected : Collected) (row : Row) : Collected :=
  { collected with current := some (collected.current.getD [] ++ [row]) }

def finish (collected : Collected) : List (List Row) :=
  collected.results ++ collected.current.toList

end Collected

/-- `QueryStream::into_results`. -/
def intoResults : Consumer (QueryStream × Collected) (List (List Row)) where
  step state token :=
    match state.1.onToken token with
    | (stream, none) => .inl (stream, state.2)
    | (stream, some (.ok (.metadata _))) => .inl (stream, state.2.onMetadata)
    | (stream, some (.ok (.row row))) => .inl (stream, state.2.onRow row)
    | (_, some (.error error)) => .inr (.error error)
  finish state := .ok state.2.finish

structure CommandReturnValue where
  name : String
  ord : UInt16
  data : ColumnData
  deriving DecidableEq, Repr

inductive CommandItem where
  | row (row : Row)
  | metadata (metadata : ResultMetadata)
  | returnStatus (status : UInt32)
  | returnValue (value : CommandReturnValue)
  | rowsAffected (rows : UInt64)
  deriving DecidableEq, Repr

structure CommandStream where
  columns : Option (List Column)
  resultSetIndex : Option ℕ
  deriving DecidableEq, Repr

namespace CommandStream

def new : CommandStream where
  columns := none
  resultSetIndex := none

/-- One token of `poll_next`: an item, an error, or neither. -/
def onToken (stream : CommandStream) :
    ReceivedToken → CommandStream × Option (Except Error CommandItem)
  | .newResultset metadata =>
    let index := nextIndex stream.resultSetIndex
    ({ columns := some metadata.toColumns, resultSetIndex := some index },
      some (.ok (.metadata { columns := metadata.toColumns, resultIndex := index })))
  | .row data =>
    match stream.columns with
    | none => (stream, some (.error rowWithoutMetadata))
    | some columns =>
      (stream, some (.ok (.row
        { columns := columns, data := data, resultIndex := stream.resultSetIndex.getD 0 })))
  | .returnStatus status => (stream, some (.ok (.returnStatus status)))
  | .returnValue value =>
    (stream, some (.ok (.returnValue
      { name := value.paramName, ord := value.paramOrdinal, data := value.value })))
  | .doneProc done =>
    if done.isFinal then (stream, none) else (stream, some (.ok (.rowsAffected done.rows)))
  | .doneInProc done => (stream, some (.ok (.rowsAffected done.rows)))
  | .done done => (stream, some (.ok (.rowsAffected done.rows)))
  | _ => (stream, none)

end CommandStream

structure CommandResult where
  returnCode : UInt32
  returnValues : List CommandReturnValue
  queryResults : List (List Row)
  rowsAffected : List UInt64
  deriving DecidableEq, Repr

/-- What `into_command_result` has gathered. -/
structure CommandState where
  stream : CommandStream
  collected : Collected
  returnStatus : UInt32
  returnValues : List CommandReturnValue
  rowsAffected : List UInt64
  deriving DecidableEq, Repr

namespace CommandState

def initial : CommandState where
  stream := .new
  collected := .empty
  returnStatus := 0
  returnValues := []
  rowsAffected := []

def onItem (state : CommandState) : CommandItem → CommandState
  | .row row => { state with collected := state.collected.onRow row }
  | .metadata _ => { state with collected := state.collected.onMetadata }
  | .returnStatus status => { state with returnStatus := status }
  | .returnValue value => { state with returnValues := state.returnValues ++ [value] }
  | .rowsAffected rows => { state with rowsAffected := state.rowsAffected ++ [rows] }

end CommandState

/-- `CommandStream::into_command_result`. -/
def intoCommandResult : Consumer CommandState CommandResult where
  step state token :=
    match state.stream.onToken token with
    | (stream, none) => .inl { state with stream := stream }
    | (stream, some (.ok item)) => .inl (CommandState.onItem { state with stream := stream } item)
    | (_, some (.error error)) => .inr (.error error)
  finish state := .ok
    { returnCode := state.returnStatus
      returnValues := state.returnValues
      queryResults := state.collected.finish
      rowsAffected := state.rowsAffected }

end Tiberius
