import Formula.Session
import Formula.Proofs.Grammar
import Formula.Proofs.Descent
import Formula.Proofs.Growth
import Formula.Proofs.Memo
import Formula.Proofs.Sessions
import Formula.Proofs.Calculus
import Formula.Proofs.Numerals
import Formula.Proofs.RoundTrip
import Formula.Proofs.Spelling
import Formula.Proofs.Building
import Formula.Proofs.OnePass
import Formula.Proofs.Exclusion
import Formula.Proofs.Charts
import Formula.Proofs.Comparing
import Formula.Proofs.Misses
import Formula.Proofs.Orders
import Formula.Proofs.Changes
import Formula.Proofs.Arities
import Formula.Proofs.Repeated
import Formula.Proofs.Depths
import Formula.Proofs.Limits
import Formula.Proofs.Appending
import Formula.Proofs.Partition
import Formula.Proofs.Blaming
import Formula.Proofs.Bindings
import Formula.Proofs.Walks
import Formula.Proofs.Dump
import Formula.Proofs.Congruence
import Formula.Proofs.Reading
import Formula.Proofs.Placing
