import ScriptHost.Binary64.Basic
import ScriptHost.Binary64.Fixed
import ScriptHost.Binary64.Numeral
import ScriptHost.Binary64.Rounding
import ScriptHost.Console.Input
import ScriptHost.Console.Output
import ScriptHost.Console.Print
import ScriptHost.Console.Read
import ScriptHost.Console.Token
import ScriptHost.Error
import ScriptHost.Files
import ScriptHost.Handle
import ScriptHost.Heap.Basic
import ScriptHost.Heap.Lists
import ScriptHost.Heap.Strings
import ScriptHost.LimitSetting
import ScriptHost.Log
import ScriptHost.PooledString
import ScriptHost.Process.Basic
import ScriptHost.Process.Call
import ScriptHost.Registry
import ScriptHost.Report
import ScriptHost.Tag
import ScriptHost.Text.Blank
import ScriptHost.Text.CodePoints
import ScriptHost.Text.Decimal
import ScriptHost.Text.Escape
import ScriptHost.Text.GraphemeExtend
import ScriptHost.Text.Json
import ScriptHost.Text.Utf8
import ScriptHost.Text.Visible
import ScriptHost.Value
import ScriptHost.ValueList
import ScriptHost.Proofs.Binary64Fields
import ScriptHost.Proofs.Binary64Value
import ScriptHost.Proofs.ConsoleSession
import ScriptHost.Proofs.Creation
import ScriptHost.Proofs.DecimalPlaces
import ScriptHost.Proofs.Diagnostics
import ScriptHost.Proofs.FailedOperations
import ScriptHost.Proofs.FailureCauses
import ScriptHost.Proofs.FixedNotation
import ScriptHost.Proofs.FloatNumerals
import ScriptHost.Proofs.HandleLifetime
import ScriptHost.Proofs.HeapFigures
import ScriptHost.Proofs.HeapInvariant
import ScriptHost.Proofs.HeapOperations
import ScriptHost.Proofs.InputSignals
import ScriptHost.Proofs.IntegerNumerals
import ScriptHost.Proofs.JsonObjects
import ScriptHost.Proofs.LimitNumerals
import ScriptHost.Proofs.LineRoundTrip
import ScriptHost.Proofs.ListFilling
import ScriptHost.Proofs.ListReading
import ScriptHost.Proofs.ListSlicing
import ScriptHost.Proofs.Locality
import ScriptHost.Proofs.LossyText
import ScriptHost.Proofs.NearestBinary64
import ScriptHost.Proofs.ObjectLimit
import ScriptHost.Proofs.PrintedArguments
import ScriptHost.Proofs.PrintedCharacters
import ScriptHost.Proofs.PrintedItems
import ScriptHost.Proofs.ProcessConsole
import ScriptHost.Proofs.ProcessRuns
import ScriptHost.Proofs.ProgramEnd
import ScriptHost.Proofs.ReadingOutcomes
import ScriptHost.Proofs.ReadingTurns
import ScriptHost.Proofs.RegistryHistory
import ScriptHost.Proofs.ReportTexts
import ScriptHost.Proofs.StoredValues
import ScriptHost.Proofs.StringMaking
import ScriptHost.Proofs.TokenStream
import ScriptHost.Proofs.TypedReading
import ScriptHost.Proofs.UnfailingConsole
import ScriptHost.Proofs.Utf8Decoding
import ScriptHost.Proofs.ValueEncoding
