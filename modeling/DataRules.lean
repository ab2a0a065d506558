import DataRules.Main
import DataRules.Proofs.Eval.Lifting
import DataRules.Proofs.Eval.Outcomes
import DataRules.Proofs.Eval.Dispatch
import DataRules.Proofs.Eval.Extension
import DataRules.Proofs.Eval.Builtins
import DataRules.Proofs.Eval.Checked
import DataRules.Proofs.Eval.Totality
import DataRules.Proofs.Eval.Dependencies
import DataRules.Proofs.Rule.Generalisation
import DataRules.Proofs.Eval.Logs
import DataRules.Proofs.Eval.Transparency
import DataRules.Proofs.Eval.Search
import DataRules.Proofs.Eval.Demand
import DataRules.Proofs.Eval.Frugality
import DataRules.Proofs.Double.Rounding
import DataRules.Proofs.Double.Packing
import DataRules.Proofs.Double.Integers
import DataRules.Proofs.Double.Digits
import DataRules.Proofs.Value.Renumbered
import DataRules.Proofs.Rule.Renumbered
import DataRules.Proofs.Eval.Renumbered
import DataRules.Proofs.Rule.Exactness
import DataRules.Proofs.Eval.Resolution
import DataRules.Proofs.Text.Bytes
import DataRules.Proofs.Double.Comparison
import DataRules.Proofs.Eval.History
import DataRules.Proofs.Value.Agreement
import DataRules.Proofs.Eval.Comparisons
import DataRules.Proofs.Value.Equality
import DataRules.Proofs.Eval.Mirror
import DataRules.Proofs.Double.Closeness
import DataRules.Proofs.Eval.Integers
import DataRules.Proofs.Number.Decimals
import DataRules.Proofs.Text.Segments
import DataRules.Proofs.Eval.Failures
import DataRules.Proofs.Value.Chains
import DataRules.Proofs.Eval.Access
import DataRules.Proofs.Double.Truncation
import DataRules.Proofs.Eval.Substring
import DataRules.Proofs.Double.Neutral
import DataRules.Proofs.Number.Neutral
import DataRules.Proofs.Eval.Neutrality
import DataRules.Proofs.Eval.Duality
import DataRules.Proofs.Eval.Concatenation
import DataRules.Proofs.Eval.Selection
import DataRules.Proofs.Double.Order
import DataRules.Proofs.Eval.Presence
import DataRules.Proofs.Eval.Branches
import DataRules.Proofs.Eval.Occurrences
import DataRules.Proofs.Double.Conversion
import DataRules.Proofs.Double.Grammar
import DataRules.Proofs.Double.Scanner
import DataRules.Proofs.Double.Reading
import DataRules.Proofs.Double.Texts
import DataRules.Proofs.Eval.ReadBack
import DataRules.Proofs.Number.Extremes
import DataRules.Proofs.Eval.Regrouping
import DataRules.Proofs.Json.Numbers
import DataRules.Proofs.Json.Scaling
import DataRules.Proofs.Json.RoundTrip
import DataRules.Proofs.Json.Conversion
import DataRules.Proofs.Eval.FixedPoint
