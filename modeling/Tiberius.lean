import Tiberius.Poison
import Tiberius.Boundary
import Tiberius.Responses
import Tiberius.Descriptors
import Tiberius.Acknowledgement
import Tiberius.Destinations
import Tiberius.Peeking
import Tiberius.SqlReadBytes
import Tiberius.RoundTrip
import Tiberius.PackedRows
import Tiberius.ColumnList
import Tiberius.BulkRows
import Tiberius.LoginTable
import Tiberius.Prelogin
import Tiberius.HandshakeReads
import Tiberius.TokenLengths
import Tiberius.TemporalRoundTrip
import Tiberius.ColumnTemporal
import Tiberius.ColumnWidths
import Tiberius.ColumnText
import Tiberius.NumericHalves
import Tiberius.XmlValues
import Tiberius.VariantLengths
import Tiberius.DatetimeColumn
import Tiberius.SentDates
import Tiberius.ReceivedTimes
import Tiberius.RustDecimal
import Tiberius.TypeInfoTvp
import Tiberius.AdoSettings
import Tiberius.Machine.Integers
import Tiberius.PlpChunks
import Tiberius.NumericPrecision
import Tiberius.NumericEquality
import Tiberius.NumericRescale
import Tiberius.MoneyWords
import Tiberius.NumericText
import Tiberius.SqlIdentifier
import Tiberius.Text.Bracketed
import Tiberius.IdentifierGrammar
import Tiberius.TvpNames
import Tiberius.CollationQuery
import Tiberius.SqlBrowser
import Tiberius.WindowedReads
import Tiberius.LoginBuffer
import Tiberius.Config
import Tiberius.Establish
import Tiberius.Messages
import Tiberius.Confinement
import Tiberius.Exposure
import Tiberius.Injection
import Tiberius.Conversation
import Tiberius.Admission
import Tiberius.ProcedureCalls
import Tiberius.Reading.ToEnd
import Tiberius.Staging.Posting
import Tiberius.ReceivedCalls
import Tiberius.Dialogue
import Tiberius.ConnectionString
import Tiberius.Safeguards
import Tiberius.Spelling
import Tiberius.Answers
