import Sexpr.Session.Run
import Sexpr.Proofs.Heap.Holdings
import Sexpr.Proofs.Atom.Filing
import Sexpr.Proofs.Registration
import Sexpr.Proofs.Store.Ledger
import Sexpr.Proofs.Heap.Leads
import Sexpr.Proofs.Store.Sweep
import Sexpr.Proofs.Heap.Positioning
import Sexpr.Proofs.Store.Runs
import Sexpr.Proofs.Collection
import Sexpr.Proofs.Interning
import Sexpr.Proofs.Render.Draft
import Sexpr.Proofs.Render.Writing
import Sexpr.Proofs.Render.Halting
import Sexpr.Proofs.Render.Unfolding
import Sexpr.Proofs.Session.Handles
import Sexpr.Proofs.Session.Runs
import Sexpr.Proofs.Lifetime
import Sexpr.Proofs.Render.BackEdges
import Sexpr.Proofs.Decimal.Numerals
import Sexpr.Proofs.Text.Escapes
import Sexpr.Proofs.Render.Words
import Sexpr.Proofs.Render.Terms
import Sexpr.Proofs.Render.Faithful
import Sexpr.Proofs.Atom.Draws
import Sexpr.Proofs.FreshNames
import Sexpr.Proofs.Atom.Interleaving
import Sexpr.Proofs.Refusal
import Sexpr.Proofs.Heap.Mirror
import Sexpr.Proofs.Store.Twins
import Sexpr.Proofs.Store.Agreement
import Sexpr.Proofs.Session.Alike
import Sexpr.Proofs.Session.Agreement
import Sexpr.Proofs.Unobservable
import Sexpr.Proofs.FreshSymbols
import Sexpr.Proofs.Text.Words
import Sexpr.Proofs.Text.Borders
import Sexpr.Proofs.Store.Records
import Sexpr.Proofs.EventLog
import Sexpr.Proofs.Store.Unwinding
import Sexpr.Proofs.Teardown
import Sexpr.Proofs.Heap.Walks
import Sexpr.Proofs.Positions
import Sexpr.Proofs.Heap.Tails
import Sexpr.Proofs.Store.Building
import Sexpr.Proofs.Builders
import Sexpr.Proofs.SplitCalls
import Sexpr.Proofs.Render.Copies
import Sexpr.Proofs.Cursors
import Sexpr.Proofs.EndlessTails
import Sexpr.Proofs.QuotedNames
import Sexpr.Proofs.LazyPruning
