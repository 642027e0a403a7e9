import Spreadsheet.Engine.Calculator
import Spreadsheet.Proofs.Accepting
import Spreadsheet.Proofs.Applying
import Spreadsheet.Proofs.Areas
import Spreadsheet.Proofs.Comparing
import Spreadsheet.Proofs.Containing
import Spreadsheet.Proofs.Covering
import Spreadsheet.Proofs.Cutting
import Spreadsheet.Proofs.Cycles
import Spreadsheet.Proofs.Discerning
import Spreadsheet.Proofs.Matching
import Spreadsheet.Proofs.Moving
import Spreadsheet.Proofs.Notifying
import Spreadsheet.Proofs.Observing
import Spreadsheet.Proofs.Parentheses
import Spreadsheet.Proofs.Recording
import Spreadsheet.Proofs.Refusing
import Spreadsheet.Proofs.Reloading
import Spreadsheet.Proofs.Renaming
import Spreadsheet.Proofs.Reordering
import Spreadsheet.Proofs.Rereading
import Spreadsheet.Proofs.Restoring
import Spreadsheet.Proofs.RoundTrip
import Spreadsheet.Proofs.Schedules
import Spreadsheet.Proofs.Serials
import Spreadsheet.Proofs.Slots
import Spreadsheet.Proofs.Sparing
import Spreadsheet.Proofs.Stranding
import Spreadsheet.Proofs.Substituting
import Spreadsheet.Proofs.Surviving
import Spreadsheet.Proofs.Sweeping
import Spreadsheet.Proofs.Tracing
import Spreadsheet.Proofs.Trying
import Spreadsheet.Proofs.Worklists
