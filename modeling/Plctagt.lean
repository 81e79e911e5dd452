import Plctagt.Foundations.Bytes
import Plctagt.Foundations.Decimal
import Plctagt.Foundations.Effects
import Plctagt.Foundations.Worklist
import Plctagt.Foundations.StaleWork
import Plctagt.Tag.Accessors
import Plctagt.Tag.Strings
import Plctagt.Tag.Calls
import Plctagt.Tag.Numeric
import Plctagt.Tag.StringTag
import Plctagt.Tag.NumericRoundTrip
import Plctagt.Tag.StringRoundTrip
import Plctagt.Listing.Records
import Plctagt.Listing.Udt
import Plctagt.Listing.Visit
import Plctagt.Listing.Run
import Plctagt.Listing.ListTags
import Plctagt.Listing.Closure
import Plctagt.Listing.Sequence
import Plctagt.Gui.Section3
import Plctagt.Gui.WriteBack
import Plctagt.Gui.ActiveField
import Plctagt.Gui.Counts
import Plctagt.Listing.Payload
import Plctagt.Listing.Export
import Plctagt.Listing.TagStrings
import Plctagt.Listing.Fields
import Plctagt.Listing.Walk
import Plctagt.Gui.Expanded
import Plctagt.Listing.Template
import Plctagt.Listing.Stores
import Plctagt.Listing.Outcomes
import Plctagt.Listing.Success
import Plctagt.Foundations.Ownership
import Plctagt.Tag.Examples
import Plctagt.Gui.Parked
import Plctagt.Gui.Owned
import Plctagt.Foundations.Numerals
import Plctagt.Gui.Conversions
import Plctagt.Gui.Redraw
import Plctagt.Tag.Elements
import Plctagt.Tag.StringWalk
import Plctagt.Tag.Sending
import Plctagt.Gui.Statuses
import Plctagt.Gui.Requested
import Plctagt.Gui.Shown
import Plctagt.Gui.History
import Plctagt.Gui.Updates
import Plctagt.Gui.Turns
import Plctagt.Gui.Paging
import Plctagt.Gui.StateFile
import Plctagt.Gui.Editing
import Plctagt.Gui.CountKeys
import Plctagt.Tag.Attributes
import Plctagt.Tag.HashTable
import Plctagt.Tag.TagTable
import Plctagt.Tag.Lifetime
import Plctagt.Tag.Events
import Plctagt.Tag.Operations
import Plctagt.Tag.TagName
import Plctagt.Foundations.Pieces
import Plctagt.Cip.Server
import Plctagt.Cip.Client
import Plctagt.Cip.Transfer
import Plctagt.Cip.Together
import Plctagt.Cip.FirstRead
