import ZuCpp.Lib.Run
import ZuCpp.Lib.Arena
import ZuCpp.Handle
import ZuCpp.Decimal
import ZuCpp.Unscaled
import ZuCpp.DigitLoop
import ZuCpp.Error
import ZuCpp.Report
import ZuCpp.Transaction.Model
import ZuCpp.Transaction.Outlive
import ZuCpp.Transaction.Own
import ZuCpp.Transaction.Linear
import ZuCpp.Progress.InStep
import ZuCpp.Progress.Running
import ZuCpp.Result
import ZuCpp.Cell
import ZuCpp.Iterator
import ZuCpp.Bulk
import ZuCpp.Lib.Overload
import ZuCpp.Write.Model
import ZuCpp.Write.Spellings
import ZuCpp.Strings
import ZuCpp.Lib.Diff
import ZuCpp.Surface.Member
import ZuCpp.Surface.Key
import ZuCpp.Surface.Gate
import ZuCpp.Surface.Overload
import ZuCpp.Surface.Qualifier
import ZuCpp.Lib.Nest
import ZuCpp.Surface.Walk
import ZuCpp.Surface.Header
import ZuCpp.Surface.Order
import ZuCpp.Surface.Lines
import ZuCpp.Reference
import ZuCpp.Surface.Golden
import ZuCpp.Surface.Report
import ZuCpp.Frame.Model
import ZuCpp.Frame.Release
import ZuCpp.Printing
import ZuCpp.Logged
import ZuCpp.Harness
import ZuCpp.Get
import ZuCpp.ByName
import ZuCpp.Notices
import ZuCpp.Readme
import ZuCpp.Lib.Tiles
import ZuCpp.Columns
import ZuCpp.Lib.Bytes
import ZuCpp.Layout
import ZuCpp.Calls.Told
