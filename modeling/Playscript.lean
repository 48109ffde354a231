import Playscript.Text
import Playscript.Text.Printable
import Playscript.Text.Quoted
import Playscript.Text.Digits
import Playscript.Position
import Playscript.Path
import Playscript.Table
import Playscript.Binary
import Playscript.Decimal
import Playscript.Rate
import Playscript.Encoding.Utf8
import Playscript.Encoding.Utf16
import Playscript.Encoding
import Playscript.FileSystem
import Playscript.Log
import Playscript.Fault
import Playscript.Element
import Playscript.Element.Reading
import Playscript.Cursor
import Playscript.Json
import Playscript.Json.Writer
import Playscript.Json.Reader
import Playscript.Sprite
import Playscript.Config
import Playscript.Bus
import Playscript.Stage
import Playscript.ImageCache
import Playscript.Engine
import Playscript.CommandLine.Arguments
import Playscript.CommandLine
import Playscript.Main
import Playscript.Proofs.Words
import Playscript.Proofs.Blocks
import Playscript.Proofs.Scanning
import Playscript.Proofs.Stream
import Playscript.Proofs.Tiling
import Playscript.Proofs.Writing
import Playscript.Proofs.Listeners
import Playscript.Proofs.Steps
import Playscript.Proofs.Session
import Playscript.Proofs.Playback
import Playscript.Proofs.Atomicity
import Playscript.Proofs.Turns
import Playscript.Proofs.Conduct
import Playscript.Proofs.Course
import Playscript.Proofs.Peeking
import Playscript.Proofs.Stopping
import Playscript.Proofs.Runs
import Playscript.Proofs.Reentrance
import Playscript.Proofs.Returns
import Playscript.Proofs.BareReadings
import Playscript.Proofs.LineEnds
import Playscript.Proofs.CacheHistory
import Playscript.Proofs.Onlookers
import Playscript.Proofs.Openings
import Playscript.Proofs.Revisits
import Playscript.Proofs.OutputLines
import Playscript.Proofs.Commands
import Playscript.Proofs.Directories
import Playscript.Proofs.JsonText
import Playscript.Proofs.Storage
import Playscript.Proofs.Origins
import Playscript.Proofs.Journals
import Playscript.Proofs.Trace
import Playscript.Proofs.Joining
import Playscript.Proofs.Spacing
import Playscript.Proofs.Grammar
import Playscript.Proofs.Latch
import Playscript.Proofs.Shapes
import Playscript.Proofs.ErrorPlaces
import Playscript.Proofs.Emissions
import Playscript.Proofs.Subscriptions
import Playscript.Proofs.Pictures
import Playscript.Proofs.PrintedPlaces
import Playscript.Proofs.Seeks
import Playscript.Proofs.Appending
import Playscript.Proofs.Remainders
import Playscript.Proofs.LineAddresses
import Playscript.Proofs.ArgumentLists
import Playscript.Proofs.Acceptance
import Playscript.Proofs.Fates
