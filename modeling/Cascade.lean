import Cascade.Binary64.Basic
import Cascade.Binary64.Decimal
import Cascade.Config
import Cascade.Context.Basic
import Cascade.Context.Live
import Cascade.Context.Variants
import Cascade.Document
import Cascade.Error
import Cascade.Json.Format
import Cascade.Json.Grammar
import Cascade.Json.Token
import Cascade.OrderedMap.Basic
import Cascade.OrderedMap.Lemmas
import Cascade.Resolution.Basic
import Cascade.Resolution.Cache
import Cascade.Rule.Basic
import Cascade.Rule.Payload
import Cascade.Rule.Store
import Cascade.Selector.Basic
import Cascade.Selector.Token
import Cascade.Stylesheet
import Cascade.Text.Digits
import Cascade.Text.Quoted
import Cascade.Toml.Assembly
import Cascade.Toml.Format
import Cascade.Toml.Reader
import Cascade.Toml.Table
import Cascade.Toml.Value
import Cascade.Value.Basic
import Cascade.Value.Coding
import Cascade.Proofs.Merging
import Cascade.Proofs.Expansion
import Cascade.Proofs.Listing
import Cascade.Proofs.References
import Cascade.Proofs.Success
import Cascade.Proofs.Memory
import Cascade.Proofs.Tracking
import Cascade.Proofs.Failure
import Cascade.Proofs.Additions
import Cascade.Proofs.Slots
import Cascade.Proofs.StableSort
import Cascade.Proofs.Buckets
import Cascade.Proofs.Insertions
import Cascade.Proofs.Calls
import Cascade.Proofs.Effects
import Cascade.Proofs.Transparency
import Cascade.Proofs.Exactness
import Cascade.Proofs.Descent
import Cascade.Proofs.Tiling
import Cascade.Proofs.Slices
import Cascade.Proofs.Words
import Cascade.Proofs.Grammar
import Cascade.Proofs.Spacing
import Cascade.Proofs.CanonicalText
import Cascade.Proofs.Visibility
import Cascade.Proofs.Registration
import Cascade.Proofs.Batches
import Cascade.Proofs.Issuing
import Cascade.Proofs.Sharing
import Cascade.Proofs.Evidence
import Cascade.Proofs.Outcomes
import Cascade.Proofs.Limits
import Cascade.Proofs.Enrichment
import Cascade.Proofs.MixinLists
import Cascade.Proofs.MissingMixins
import Cascade.Proofs.RepeatedMixins
import Cascade.Proofs.Weights
import Cascade.Proofs.Generality
import Cascade.Proofs.Overlay
import Cascade.Proofs.Retention
import Cascade.Proofs.Eviction
import Cascade.Proofs.ContextText
import Cascade.Proofs.ValueParts
import Cascade.Proofs.ValueEquality
import Cascade.Proofs.JsonLiterals
import Cascade.Proofs.JsonText
import Cascade.Proofs.ValueJson
import Cascade.Proofs.Changes
import Cascade.Proofs.MergeLaws
import Cascade.Proofs.ContextBuilding
import Cascade.Proofs.TomlLines
import Cascade.Proofs.TomlIntegers
import Cascade.Proofs.TomlTables
import Cascade.Proofs.ConfigText
