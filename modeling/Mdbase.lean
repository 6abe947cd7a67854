import Mdbase.Runtime.Replacement
import Mdbase.Runtime.Consumption
import Mdbase.Runtime.ClaimAgreement
import Mdbase.Runtime.Engine.Finality
import Mdbase.Runtime.Engine.Keys
import Mdbase.Runtime.Activity
import Mdbase.Provider.FeedOwnership
import Mdbase.Cel.DateHelpers
import Mdbase.Cel.Conversion
import Mdbase.Provider.CursorAccounting
import Mdbase.Query.CandidatePruning
import Mdbase.Query.FieldSpelling
import Mdbase.Query.PlanAgreement
import Mdbase.Mutation.MembershipAgreement
import Mdbase.Links.EvidenceAgreement
import Mdbase.Mutation.Lifecycle
import Mdbase.Mutation.Refusals
import Mdbase.Watch.Answers
import Mdbase.Watch.WatchedSettings
import Mdbase.Watch.DefinitionChange
import Mdbase.Runtime.Durations
import Mdbase.Runtime.Engine.Deadlines
import Mdbase.Runtime.Sqlite.Earliness
import Mdbase.Runtime.TimerPrefix
import Mdbase.Runtime.Variables
import Mdbase.Provider.Staleness
import Mdbase.Cache.LinkedFiles
import Mdbase.Expressions.CodeStripping
import Mdbase.Frontmatter.Layout
import Mdbase.Frontmatter.Projection
import Mdbase.Links.SelectionOrder
import Mdbase.Provider.DiffExactness
import Mdbase.Rename.Frame
import Mdbase.Contracts.VersionRequirement
import Mdbase.Fields.Laws
import Mdbase.Runtime.Gate
import Mdbase.Transactions.Evidence
import Mdbase.Expressions.Leniency
import Mdbase.Expressions.Nesting
import Mdbase.Types.Inheritance
import Mdbase.Watch.EventStream
