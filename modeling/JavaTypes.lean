import JavaTypes.Query
import JavaTypes.Inspection
import JavaTypes.Universe.Foundation
import JavaTypes.Proofs.Occurrences
import JavaTypes.Proofs.BareText
import JavaTypes.Proofs.OverrideKeys
import JavaTypes.Proofs.Application
import JavaTypes.Proofs.MethodListing
import JavaTypes.Proofs.Overriding
import JavaTypes.Proofs.Preservation
import JavaTypes.Proofs.Inheritance
import JavaTypes.Proofs.Tracking
import JavaTypes.Proofs.Stability
import JavaTypes.Proofs.Freshness
import JavaTypes.Proofs.TypeIds
import JavaTypes.Proofs.RenderedVars
import JavaTypes.Proofs.PublicMethods
import JavaTypes.Proofs.ClassNames
import JavaTypes.Proofs.SubstitutedSupers
import JavaTypes.Proofs.AppliedFields
import JavaTypes.Proofs.AppliedMembers
import JavaTypes.Proofs.KeyTexts
import JavaTypes.Proofs.DeclaredOverloads
import JavaTypes.Proofs.NormalForms
import JavaTypes.Proofs.Handles
import JavaTypes.Proofs.SuperChains
import JavaTypes.Proofs.PlainMembers
import JavaTypes.Proofs.SelfApplication
import JavaTypes.Proofs.LosslessResolution
import JavaTypes.Proofs.FixedPoints
import JavaTypes.Proofs.ValueChains
import JavaTypes.Proofs.MemberTexts
import JavaTypes.Proofs.FailedPasses
import JavaTypes.Proofs.Erasure
import JavaTypes.Proofs.RepeatedPasses
import JavaTypes.Proofs.ShortNames
import JavaTypes.Proofs.SubstitutionModes
import JavaTypes.Proofs.PublicFields
import JavaTypes.Proofs.MemoHistories
import JavaTypes.Proofs.ImportedNames
import JavaTypes.Proofs.ArrayTable
import JavaTypes.Proofs.NestedArrays
import JavaTypes.Proofs.UnsupportedForms
import JavaTypes.Proofs.OwnParameters
import JavaTypes.Proofs.SimpleNames
