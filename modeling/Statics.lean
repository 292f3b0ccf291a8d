import Statics.Config.Reader
import Statics.Proofs.Additions
import Statics.Proofs.CappedLog
import Statics.Proofs.Constants.TypeNames
import Statics.Proofs.EnumMembers
import Statics.Proofs.ErrorCap.Truncation
import Statics.Proofs.FieldSearch
import Statics.Proofs.Folding
import Statics.Proofs.ForeignSymbols
import Statics.Proofs.Handles
import Statics.Proofs.Initialization
import Statics.Proofs.InvalidTypes
import Statics.Proofs.LinkNames
import Statics.Proofs.Literals
import Statics.Proofs.MissingReturn
import Statics.Proofs.Nesting.BreakTargets
import Statics.Proofs.OperandMatching
import Statics.Proofs.SwitchCases
import Statics.Proofs.TypeTexts
import Statics.Proofs.Using
import Statics.Proofs.Containment.Programs
