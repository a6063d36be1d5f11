import PdoCassandra.Foundation.CString
import PdoCassandra.Foundation.Transition
import PdoCassandra.Foundation.Scanner
import PdoCassandra.Foundation.Cursor
import PdoCassandra.Foundation.Literal
import PdoCassandra.Foundation.Rule
import PdoCassandra.Foundation.Recognizer
import PdoCassandra.Foundation.Numeral
import PdoCassandra.Foundation.BigEndian
import PdoCassandra.Foundation.Printf
import PdoCassandra.Foundation.Wire
import PdoCassandra.Foundation.Skip
import PdoCassandra.Foundation.BinaryProtocol
import PdoCassandra.Foundation.OrderedMap
import PdoCassandra.Foundation.Codec
import PdoCassandra.Foundation.Record
import PdoCassandra.Foundation.Rpc
import PdoCassandra.Foundation.Pipeline
import PdoCassandra.Foundation.Arrival
import PdoCassandra.Foundation.Memory
import PdoCassandra.Thrift.Types
import PdoCassandra.Thrift.Client
import PdoCassandra.Thrift.Records
import PdoCassandra.Thrift.Rpc
import PdoCassandra.Thrift.Session
import PdoCassandra.Thrift.Projection
import PdoCassandra.Driver.CqlParser
import PdoCassandra.Driver.Connection
import PdoCassandra.Driver.Handle
import PdoCassandra.Driver.Util
import PdoCassandra.Driver.Ltoa
import PdoCassandra.Driver.Statement
import PdoCassandra.Driver.Pdo
import PdoCassandra.Driver.Remote
import PdoCassandra.Driver.Ownership
import PdoCassandra.Properties.SessionKeyspace
import PdoCassandra.Properties.Quoting
import PdoCassandra.Properties.ScannerBounds
import PdoCassandra.Properties.SchemaCache
import PdoCassandra.Properties.ResultIsolation
import PdoCassandra.Properties.ExecAgreement
import PdoCassandra.Properties.RemoteFailures
import PdoCassandra.Properties.CursorSafety
import PdoCassandra.Properties.FailedExecute
import PdoCassandra.Properties.FetchEnumeration
import PdoCassandra.Properties.ScannerRules
import PdoCassandra.Properties.ColumnFamilyName
import PdoCassandra.Properties.LongType
import PdoCassandra.Properties.ValueDelivery
import PdoCassandra.Properties.RowLabels
import PdoCassandra.Properties.DecoderBounds
import PdoCassandra.Properties.HexCodec
import PdoCassandra.Properties.ColumnMeta
import PdoCassandra.Properties.ErrorText
import PdoCassandra.Properties.Numerals
import PdoCassandra.Properties.RecordFormat
import PdoCassandra.Properties.RemoteCalls
import PdoCassandra.Properties.RemoteArrival
import PdoCassandra.Properties.RemoteOutcomes
import PdoCassandra.Properties.RemoteSession
import PdoCassandra.Properties.RemoteRows
import PdoCassandra.Properties.ObjectOwnership
